/-
  PaseoGateway/Controller.lean
  ============================
  **The workspace controller.**

  Mirrors `src/src/controller/controller.ts`, `src/src/controller/workspace-access.ts` and
  `src/src/controller/diagnostics.ts`.
  Each branch of `stop` and `reconcile` that awaits anything is a function of its own,
  in the order of the source.
-/
import PaseoGateway.Cluster
import PaseoGateway.JsString

namespace PaseoGateway.Controller

open Async Cluster

/-! ### Diagnostics -/

structure Diagnostic where
  reason : String
  message : String
  failed : Bool
deriving DecidableEq, Repr

def checkoutMessages : List (String × String) :=
  [("CheckoutDnsUnavailable", "Repository hostname resolution failed during checkout"),
   ("CheckoutNetworkUnavailable", "Repository network connection failed during checkout"),
   ("CheckoutFetchTimeout", "Repository fetch exceeded its bounded deadline"),
   ("CheckoutAuthenticationFailed", "Repository credentials were rejected during checkout"),
   ("CheckoutRevisionUnavailable", "Configured repository revision was not found"),
   ("CheckoutLocalStorageFailed", "Workspace storage could not complete checkout"),
   ("CheckoutCacheInvalid", "Reference cache could not support checkout"),
   ("CheckoutConfigurationInvalid", "Repository checkout configuration is invalid"),
   ("CheckoutInitializationFailed",
     "Repository checkout failed; inspect authorized diagnostics")]

def attemptsText (attempts : Int) : String :=
  if attempts = 0 then ""
  else " after " ++ toString attempts ++ " attempt" ++ (if attempts = 1 then "" else "s")

/-- Only the initializer's fixed envelope is accepted. -/
def checkoutTerminationDiagnostic (rt : Runtime) (message : Option String) : Option Diagnostic := do
  let text ← message
  if text = "" ∨ 256 < Js.length text then none
  else match ← rt.jsonParse text with
    | .obj fields =>
      let keys := (fields.map Prod.fst).insertionSort (· ≤ ·)
      match fields.lookup "version", fields.lookup "stage", fields.lookup "code",
          fields.lookup "attempts" with
      | some (.num 1), some (.str stage), some (.str code), some (.num attempts) => do
        let explanation ← checkoutMessages.lookup code
        if keys = ["attempts", "code", "stage", "version"] ∧
            stage ∈ ["prepare", "fetch", "checkout", "cache", "marker"] ∧
            0 ≤ attempts ∧ attempts ≤ 3 then
          some ⟨code, code ++ ": " ++ explanation ++ attemptsText attempts, true⟩
        else none
      | _, _, _, _ => none
    | _ => none

def oomKilled : Diagnostic :=
  ⟨"OOMKilled", "Workspace container exceeded its memory limit; active turn may be interrupted",
    true⟩

def terminatedDiagnostic (rt : Runtime) (container : String) (terminated : Terminated) :
    Diagnostic :=
  if terminated.reason = some "OOMKilled" then oomKilled
  else
    let checkout :=
      if container = "checkout" then checkoutTerminationDiagnostic rt terminated.message else none
    checkout.getD
      ⟨"ContainerFailed", "Workspace container failed; inspect authenticated workspace logs", true⟩

def waitingDiagnostic (waiting : String) : Option Diagnostic :=
  if waiting ∈ ["ErrImagePull", "ImagePullBackOff", "CreateContainerConfigError",
      "CrashLoopBackOff"] then
    some ⟨waiting, "Workspace container cannot start (" ++ waiting ++ ")", true⟩
  else none

def containerDiagnostic (rt : Runtime) (container : ContainerStatus) : Option Diagnostic :=
  match container.terminated <|> container.lastTerminated with
  | some terminated =>
    if terminated.exitCode ≠ 0 then some (terminatedDiagnostic rt container.name terminated)
    else container.waiting.bind waitingDiagnostic
  | none => container.waiting.bind waitingDiagnostic

def podDiagnostic (rt : Runtime) (pod : Option Infrastructure) : Option Diagnostic := do
  let pod ← pod
  if pod.reason = some "Evicted" then
    some ⟨"Evicted", "Workspace pod evicted; inspect node capacity", true⟩
  else
    let containers := pod.initContainerStatuses ++ pod.containerStatuses
    containers.findSome? (containerDiagnostic rt) <|>
      if pod.conditions.any fun c => c.1 == "PodScheduled" && c.2 == "False" then
        some ⟨"Unschedulable",
          "Workspace pod is unschedulable; inspect resource capacity and placement", false⟩
      else none

/-! ### Reports -/

structure Options where
  namespaceLimit : Option Nat := none
  gatewayUrl : Bool := true
  access : Bool := true
  beforeSuspend : Bool := true
  beforeArchive : Bool := true
  purgeInventory : Bool := true
deriving DecidableEq, Repr

def ephemeral (workspace : Workspace) : Bool :=
  workspace.spec.retentionPolicy.any fun policy => policy.storage == .Ephemeral

/-- The fields a report adds to the status. -/
structure Fields where
  archivedAt : Option String := none
  teardownCompletedAt : Option String := none
  storageDeletedAt : Option String := none
  lastFailure : Option LastFailure := none
deriving DecidableEq, Repr

section Controller

variable (rt : Runtime) (options : Options)

/-- The status a report writes at an instant. -/
def statusOf (workspace : Workspace) (phase : Phase) (message : String) (fields : Fields)
    (instant : String) : WorkspaceStatus :=
  let previous := workspace.status
  let observedGeneration := workspace.metadata.generation.getD 1
  { phase
    message
    observedGeneration
    pvcName := if ephemeral workspace then none else some (resourceName rt workspace)
    archivedAt := fields.archivedAt <|> previous.bind WorkspaceStatus.archivedAt
    teardownCompletedAt :=
      fields.teardownCompletedAt <|> previous.bind WorkspaceStatus.teardownCompletedAt
    storageDeletedAt := fields.storageDeletedAt <|> previous.bind WorkspaceStatus.storageDeletedAt
    lastFailure := fields.lastFailure <|> previous.bind WorkspaceStatus.lastFailure
    conditions := [{
      status := phase == .Ready
      reason := phase
      message
      observedGeneration
      lastTransitionTime :=
        match previous with
        | some s =>
          if s.phase = phase then (s.conditions.head?.map (·.lastTransitionTime)).getD instant
          else instant
        | none => instant }]
    backendWorkspaceId := previous.bind WorkspaceStatus.backendWorkspaceId }

/-- The status already says this. -/
def reported (workspace : Workspace) (phase : Phase) (message : String) (fields : Fields) : Bool :=
  workspace.status.any fun s =>
    s.phase == phase && s.message == message &&
      s.observedGeneration == workspace.metadata.generation.getD 1 && fields == {}

def report (read : Read) (phase : Phase) (message : String) (fields : Fields := {}) :
    sys.Task Unit :=
  if reported read.workspace phase message fields then .ret ()
  else do
    let instant ← now
    status read (statusOf rt read.workspace phase message fields (Iso.toISOString instant))

/-- `None` when the object was created. -/
def ensure (object : Desired) (workspace : Workspace) : sys.Task (Option Infrastructure) := do
  match ← get object.kind (resourceName rt workspace) with
  | some existing =>
    if existing.workspaceUid ≠ workspace.metadata.uid then
      .fail (.message "Resource name collision: refusing to adopt an unowned resource")
    else .ret (some existing)
  | none => do
    create object
    .ret none

/-! ### Stopping -/

def teardownCompletedAt (workspace : Workspace) : Option String :=
  workspace.status.bind WorkspaceStatus.teardownCompletedAt

def beforeArchive (workspace : Workspace) : sys.Task Unit :=
  if options.beforeArchive then askOr (S := sys) (.snapshotInventory workspace) rfl else .ret ()

/-- Snapshot the inventory and run the teardown hooks. -/
def tearDown (workspace : Workspace) : sys.Task Unit := do
  beforeArchive options workspace
  teardown rt workspace

/-- An archived workspace whose teardown is not recorded. -/
def stopForTeardown (read : Read) (pod : Option Infrastructure) : sys.Task Bool :=
  match pod with
  | none =>
    if ephemeral read.workspace ∧ read.workspace.status.isSome then do
      report rt read .Failed "Ephemeral pod was lost before teardown; automatic cleanup refused"
      .ret true
    -- a suspended retained workspace must be restored to run its hooks
    else .ret false
  | some pod =>
    if pod.deletionTimestamp.isSome ∨ ¬ pod.ready then do
      report rt read .Pending "Waiting for workspace readiness to run teardown"
      .ret true
    else do
      match ← (tearDown rt options read.workspace).attempt with
      | .error _ => do
        report rt read .Failed "Teardown failed or outcome unknown; compute and storage retained"
        .ret true
      | .ok _ => do
        let instant ← now
        report rt read .Pending "Teardown completed; stopping compute"
          { teardownCompletedAt := some (Iso.toISOString instant) }
        .ret true

/-- A reader Pod does not undo a stop that has completed. -/
def completedStop (workspace : Workspace) : Bool :=
  workspace.status.any fun s =>
    s.observedGeneration == workspace.metadata.generation.getD 1 &&
      ((workspace.spec.residency == .Suspended && s.phase == .Suspended) ||
        (workspace.spec.residency == .Archived && s.phase == .Archived &&
          s.teardownCompletedAt.isSome))

def waitForReader (read : Read) (reader : Infrastructure) : sys.Task Unit :=
  if reader.workspaceUid ≠ read.workspace.metadata.uid then
    .fail (.message "Unowned retained history reader blocks storage cleanup")
  else if completedStop read.workspace then .ret ()
  else report rt read .Pending "Waiting for retained history reader to finish"

/-- When the archived workspace's storage may go. -/
def expired (workspace : Workspace) (archivedAt : String) (instant : Int) : Bool :=
  workspace.spec.residency == .Archived &&
    (workspace.spec.retentionPolicy.bind RetentionPolicy.ttlAfterArchivedSeconds).any fun (ttl : Nat) =>
      (workspace.status.bind WorkspaceStatus.storageDeletedAt).isNone &&
        (rt.dateParse archivedAt).any fun date => decide (date + (ttl : Int) * 1000 ≤ instant)

/-- Delete the claim that was found. -/
def deleteClaim (name : String) (pvc : Option Infrastructure) : sys.Task Unit :=
  match pvc.bind Infrastructure.uid with
  | some uid => deleteStorage name uid
  | none => .ret ()

def purge (workspace : Workspace) : sys.Task Unit :=
  if options.purgeInventory then askOr (S := sys) (.purgeInventory workspace) rfl else .ret ()

def collectStorage (read : Read) (archivedAt : String) (instant : Int) : sys.Task Unit := do
  let name := resourceName rt read.workspace
  let pvc ← get .PersistentVolumeClaim name
  if unowned read.workspace pvc then .fail (.message "Refusing to collect an unowned volume")
  else do
    deleteClaim name pvc
    match ← get .PersistentVolumeClaim name with
    | some _ =>
      report rt read .Archived "Waiting for owned storage deletion to finish"
        { archivedAt := some archivedAt }
    | none => do
      purge options read.workspace
      report rt read .Archived "Retention expired; owned storage released"
        { archivedAt := some archivedAt, storageDeletedAt := some (Iso.toISOString instant) }

def stoppedMessage (workspace : Workspace) : String :=
  if (workspace.status.bind WorkspaceStatus.storageDeletedAt).isSome then
    "Retention expired; owned storage released"
  else if ephemeral workspace then "Compute stopped; ephemeral data released"
  else "Compute stopped; storage retained"

/-- Whether nothing of the runtime of an archived workspace is left. -/
def runtimeGone (workspace : Workspace) : sys.Task Bool :=
  if workspace.spec.residency = .Archived then deleteRuntime rt workspace else .ret true

/-- Neither the Pod nor a reader is left. -/
def stopped (read : Read) : sys.Task Unit := do
  let workspace := read.workspace
  let gone ← runtimeGone rt workspace
  if ¬ gone then report rt read .Pending "Waiting for owned runtime resources to be removed"
  else do
    let instant ← now
    let recorded := workspace.status.bind WorkspaceStatus.archivedAt
    let archivedAt := recorded.getD (Iso.toISOString instant)
    if expired rt workspace archivedAt instant then
      collectStorage rt options read archivedAt instant
    else
      report rt read (if workspace.spec.residency = .Archived then .Archived else .Suspended)
        (stoppedMessage workspace)
        (if workspace.spec.residency = .Archived ∧ recorded.isNone then
          { archivedAt := some archivedAt } else {})

/-- The Pod may go. -/
def stopCompute (read : Read) (pod : Option Infrastructure) : sys.Task Unit :=
  match pod with
  | some pod => do
    deleteLive .Pod (resourceName rt read.workspace) (some pod)
    report rt read .Pending "Waiting for compute to stop; storage retained"
  | none => do
    match ← get .Pod (historyReaderName rt (read.workspace.metadata.uid.getD "")) with
    | some reader => waitForReader rt read reader
    | none => stopped rt options read

/-- A Pod whose inventory can be read before it is suspended. -/
def suspendable (pod : Option Infrastructure) : Bool :=
  pod.any fun p => p.uid.isSome && p.deletionTimestamp.isNone && p.ready

/-- Snapshot the inventory of a suspended workspace, and stop its compute. -/
def stopFound (read : Read) (pod : Option Infrastructure) : sys.Task Bool :=
  if read.workspace.spec.residency = .Suspended ∧ suspendable pod ∧ options.beforeSuspend then do
    match ← (askOr (S := sys) (.beforeSuspend read.workspace) rfl : sys.Task Unit).attempt with
    | .error _ => do
      report rt read .Failed
        "Inventory snapshot unavailable; compute and storage retained before suspension"
      .ret true
    | .ok _ => do
      stopCompute rt options read pod
      .ret true
  else do
    stopCompute rt options read pod
    .ret true

def stop (read : Read) : sys.Task Bool := do
  let workspace := read.workspace
  let pod ← get .Pod (resourceName rt workspace)
  if pod.any fun p => p.workspaceUid != workspace.metadata.uid then
    .fail (.message "Refusing to delete an unowned pod")
  else if workspace.spec.residency = .Suspended ∧ ephemeral workspace then do
    report rt read .Failed
      "Ephemeral workspaces cannot suspend; archive to release their data"
    .ret true
  else if workspace.spec.residency = .Archived ∧ (teardownCompletedAt workspace).isNone then
    stopForTeardown rt options read pod
  else stopFound rt options read pod

/-! ### Reconciling -/

/-- Count the other workspaces that have a Pod, in all and in the project. -/
def countOthers (workspace : Workspace) (project : Project) :
    List Read → Nat → Nat → sys.Task (Nat × Nat)
  | [], total, perProject => .ret (total, perProject)
  | other :: rest, total, perProject =>
    if other.workspace.metadata.name = workspace.metadata.name then
      countOthers workspace project rest total perProject
    else do
      match ← get .Pod (resourceName rt other.workspace) with
      | none => countOthers workspace project rest total perProject
      | some _ =>
        countOthers workspace project rest (total + 1)
          (if other.workspace.spec.projectRef = project.name then perProject + 1 else perProject)

/-- Whether a workspace without a Pod may start one. -/
def admission (read : Read) (uid : String) (project : Project) : sys.Task Bool := do
  match ← get .Pod (historyReaderName rt uid) with
  | some reader =>
    if reader.workspaceUid ≠ some uid then
      .fail (.message "Unowned retained history reader blocks workspace start")
    else do
      report rt read .Pending "Waiting for retained history reader to finish"
      .ret false
  | none => do
    let others ← workspaces
    let (total, perProject) ← countOthers rt read.workspace project others 0 0
    if options.namespaceLimit.any (· ≤ total) ∨
        project.maxRunningWorkspaces.any (· ≤ perProject) then do
      report rt read .Pending "Workspace capacity reached; waiting for a slot"
      .ret false
    else .ret true

/-- The names every JavaScript object answers to. -/
def objectPrototype : List String :=
  ["__defineGetter__", "__defineSetter__", "__lookupGetter__", "__lookupSetter__", "__proto__",
   "constructor", "hasOwnProperty", "isPrototypeOf", "propertyIsEnumerable", "toLocaleString",
   "toString", "valueOf"]

/-- `key in data` -/
def isIn (key : String) (data : List (String × String)) : Bool :=
  (data.lookup key).isSome || key ∈ objectPrototype

def checkReferences (read : Read) (profile : CredentialProfile) :
    List CredentialReference → sys.Task Bool
  | [] => .ret true
  | reference :: rest => do
    let data ← askOr (S := sys) (.object reference.kind reference.name) rfl
    if ¬ isIn reference.key data then do
      report rt read .Failed "Credential profile reference has a missing key"
      .ret false
    else if reference.kind = .Secret ∧ profile.codexOutputSecretName = some reference.name ∧
        reference.key = "access.json" ∧ (data.lookup reference.key).getD "" = "" then do
      report rt read .Failed "Codex credential authority has no usable access credential"
      .ret false
    else checkReferences read profile rest

/-- The part of the credential check whose exceptions are caught. -/
def checkCredentials (read : Read) (profile : Option CredentialProfile) : sys.Task Bool :=
  match profile with
  | some profile => checkReferences rt read profile (referencedCredentials profile)
  | none => do
    let data ← askOr (S := sys) (.object .Secret read.workspace.spec.credentialProfile) rfl
    if (data.lookup "token").getD "" = "" then do
      report rt read .Failed "Legacy credential profile has no token"
      .ret false
    else .ret true

def credentialsUsable (read : Read) (profile : Option CredentialProfile) : sys.Task Bool := do
  match ← (checkCredentials rt read profile).attempt with
  | .ok usable => .ret usable
  | .error e =>
    if e ≠ .store .notFound then .fail e
    else do
      report rt read .Failed "Credential profile does not exist"
      .ret false

/-- What the Pod found says of the workspace. -/
def reportPod (read : Read) (pod : Option Infrastructure) : sys.Task Unit := do
  let workspace := read.workspace
  let ready := pod.any fun p => p.deletionTimestamp.isNone && p.ready
  let terminated := pod.any fun p => p.phase == some "Succeeded" || p.phase == some "Failed"
  let previous := workspace.status.bind WorkspaceStatus.lastFailure
  match (podDiagnostic rt pod).filter fun d =>
      previous.map LastFailure.reason != some d.reason || (!ready && !terminated) with
  | some diagnostic =>
    let phase : Phase := if ready then .Ready else if diagnostic.failed then .Failed else .Pending
    let message := if ready then "Workspace daemon is ready" else diagnostic.message
    if previous.map LastFailure.reason ≠ some diagnostic.reason then do
      let instant ← now
      report rt read phase message
        { lastFailure := some ⟨diagnostic.reason, diagnostic.message, Iso.toISOString instant⟩ }
    else report rt read phase message
  | none =>
    if terminated then
      if ephemeral workspace then
        report rt read .Failed
          "Ephemeral workspace pod terminated; automatic replacement would lose history"
      else do
        deleteLive .Pod (resourceName rt workspace) pod
        report rt read .Pending "Replacing terminated pod; storage retained"
    else
      report rt read (if ready then .Ready else .Pending)
        (if ready then "Workspace daemon is ready" else "Waiting for workspace daemon")

/-- `referenceCacheAvailable` only shapes the Pod. -/
def lookForCache (project : Project) : sys.Task Unit :=
  match project.cacheClaimName with
  | none => .ret ()
  | some claimName => do
    let _ ← get .PersistentVolumeClaim claimName
    .ret ()

/-- The grant is the workspace's own and for what it runs with. -/
def grants (workspace : Workspace) (uid : String) (grant : WorkspaceClaims) : Bool :=
  grant.originWorkspaceUid == uid && grant.originWorkspaceId == workspace.metadata.name &&
    grant.projectIds == [workspace.spec.projectRef] &&
    grant.credentialProfiles == [workspace.spec.credentialProfile]

/-- Write a new grant over the Secret that was read. -/
def WorkspaceAccess.renew (workspace : Workspace) (uid : String)
    (existing : Option Infrastructure) : sys.Task Unit := do
  let _ ← (askOr (S := sys) (.issueWorkspaceToken workspace) rfl : sys.Task Unit)
  let version := existing.map Infrastructure.resourceVersion
  let written ← askOr (S := sys)
    (.compareAndSwapSecret version ⟨.Secret, accessName rt workspace, uid⟩) rfl
  if written then .ret ()
  else .fail (.message "Workspace access grant changed concurrently; retry reconciliation")

/-- Keep the grant of the Secret that was read, or write a new one. -/
def WorkspaceAccess.keep (workspace : Workspace) (uid : String)
    (existing : Option Infrastructure) : sys.Task Unit :=
  if existing.any fun secret => secret.workspaceUid != some uid then
    .fail (.message "Refusing to replace an unowned workspace access Secret")
  else do
    let token := (existing.bind Infrastructure.token).getD ""
    let grant ← ask (S := sys) (.currentGrant token)
    if grant.any (grants workspace uid) then .ret ()
    else WorkspaceAccess.renew rt workspace uid existing

def WorkspaceAccess.ensure (workspace : Workspace) : sys.Task Unit :=
  match workspace.metadata.uid with
  | none => .fail (.message "Workspace UID required for access grant")
  | some uid => do
    let existing ← get .Secret (accessName rt workspace)
    WorkspaceAccess.keep rt workspace uid existing

def ensureAccess (workspace : Workspace) : sys.Task Unit :=
  if ¬ options.gatewayUrl then .ret ()
  else if options.access then WorkspaceAccess.ensure rt workspace
  else .fail (.message "Workspace gateway access is not configured")

def ensureClaim (workspace : Workspace) (uid : String) : sys.Task Unit :=
  if ephemeral workspace then .ret ()
  else do
    let _ ← ensure rt ⟨.PersistentVolumeClaim, resourceName rt workspace, uid⟩ workspace
    .ret ()

/-- Bring up what the workspace needs and report its Pod. -/
def launch (read : Read) (uid : String) (project : Project)
    (profile : Option CredentialProfile) : sys.Task Unit := do
  let workspace := read.workspace
  lookForCache project
  if ¬ rt.projectable workspace project profile then
    .fail (.message "Credential projection refused")
  else do
    ensureAccess rt options workspace
    ensureClaim rt workspace uid
    let _ ← ensure rt ⟨.Service, resourceName rt workspace, uid⟩ workspace
    let pod ← ensure rt ⟨.Pod, resourceName rt workspace, uid⟩ workspace
    reportPod rt read pod

/-- A workspace without a Pod that is to run needs a place. -/
def admitted (read : Read) (uid : String) (project : Project) (pod : Option Infrastructure) :
    sys.Task Bool :=
  if pod.isNone ∧ read.workspace.spec.residency = .Running then admission rt options read uid project
  else .ret true

/-- The workspace is to run, or to be restored for its teardown. -/
def start (read : Read) (uid : String) (projects : List Project) : sys.Task Unit :=
  match projects.find? fun p => p.name == read.workspace.spec.projectRef with
  | none => report rt read .Failed "Referenced project does not exist"
  | some project => do
    let pod ← get .Pod (resourceName rt read.workspace)
    let mayStart ← admitted rt options read uid project pod
    if ¬ mayStart then .ret ()
    else do
      let profile ← askOr (S := sys)
        (.credentialProfile read.workspace.spec.credentialProfile) rfl
      let usable ← credentialsUsable rt read profile
      if usable then launch rt options read uid project profile else .ret ()

/-- Whether the pass ends with stopping the workspace. -/
def halted (read : Read) : sys.Task Bool :=
  if read.workspace.spec.residency ≠ .Running then stop rt options read else .ret false

def reconcile (read : Read) (projects : List Project) : sys.Task Unit :=
  if read.workspace.metadata.deletionTimestamp.isSome then .ret ()
  else match read.workspace.metadata.uid with
  | none => .fail (.message "Workspace UID required for reconciliation")
  | some uid => do
    let done ← halted rt options read
    if done then .ret () else start rt options read uid projects

/-- What one round of `runController` does with one workspace.  The record may be old
    by the time its pass runs. -/
def resync (name : String) : sys.Task Unit := do
  let known ← projects
  let rows ← workspaces
  match rows.find? fun row => row.workspace.metadata.name == name with
  | none => .ret ()
  | some read => do
    ask (S := sys) (.pass read)
    reconcile rt options read known

end Controller

end PaseoGateway.Controller

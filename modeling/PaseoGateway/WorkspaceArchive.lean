/-
  PaseoGateway/WorkspaceArchive.lean
  ==================================
  **Archiving a workspace, and the machine it shares with the controller.**

  Mirrors `archive`, `ready` and `records` of `src/src/gateway/workspace-operations.ts`.
  `snapshotInventory` is one awaited effect that completes or fails.

  The environment is every other client of the API server: it creates records, changes
  specs as the custom resource definition allows and deletes records.  It never writes a
  status.
-/
import PaseoGateway.Controller

namespace PaseoGateway.WorkspaceArchive

open Async Cluster Controller

/-! ### Reading records -/

def records (principal : GatewayPrincipal) : sys.Task (List Project × List Read) := do
  let known ← projects
  let rows ← workspaces
  let instant ← now
  if ¬ principalIsActive (instant / 1000).toNat (rows.map Read.workspace) principal then
    .fail (.message "Workspace credential expired or revoked")
  else .ret (known, rows)

def findRow (rows : List Read) (id : String) : Option Read :=
  rows.find? fun row => row.workspace.metadata.name == id

def notReady (id : String) (workspace : Workspace) : Err :=
  let phase := match workspace.status.map WorkspaceStatus.phase with
    | some .Ready => "Ready"
    | some .Suspended => "Suspended"
    | some .Archived => "Archived"
    | some .Failed => "Failed"
    | _ => "Pending"
  .message ("Workspace " ++ id ++ " " ++ phase ++ ": " ++
    (workspace.status.map WorkspaceStatus.message).getD "waiting for Kubernetes scheduling")

def notRunning (id : String) (residency : Residency) : Err :=
  let name := match residency with
    | .Running => "Running"
    | .Suspended => "Suspended"
    | .Archived => "Archived"
  .message ("Workspace " ++ id ++ " is " ++ name ++ "; resume before creating an agent")

/-- Poll until the workspace is ready; `turns` bounds the rounds. -/
def readyFrom (id : String) (principal : GatewayPrincipal) (deadline : Int) : Nat → sys.Task Read
  | 0 => do
    ask (S := sys) .stuck
    .fail .failed
  | turns + 1 => do
    let (_, rows) ← records principal
    match rows.find? fun row =>
        row.workspace.metadata.name == id && row.workspace.metadata.deletionTimestamp.isNone with
    | none => .fail (.message "Workspace does not exist or access denied")
    | some row =>
      if ¬ authorizeWorkspace principal row.workspace then
        .fail (.message "Workspace does not exist or access denied")
      else if row.workspace.spec.residency ≠ .Running then
        .fail (notRunning id row.workspace.spec.residency)
      else if row.workspace.status.any fun s => s.phase == .Ready then .ret row
      else do
        let instant ← now
        if (row.workspace.status.any fun s => s.phase == .Failed) ∨ deadline ≤ instant then
          .fail (notReady id row.workspace)
        else do
          ask (S := sys) .delay
          readyFrom id principal deadline turns

section Archive

variable (rt : Runtime) (readyTimeoutMs : Int) (turns : Nat)

def ready (id : String) (principal : GatewayPrincipal) : sys.Task Read := do
  let instant ← now
  readyFrom id principal (instant + readyTimeoutMs) turns

/-! ### The operation -/

/-- The part whose failure gives a suspended workspace its residency back. -/
def finish (workspaceId : String) (principal : GatewayPrincipal) : sys.Task Read := do
  let row ← ready readyTimeoutMs turns workspaceId principal
  let _ ← (askOr (S := sys) (.snapshotInventory row.workspace) rfl : sys.Task Unit)
  teardown rt row.workspace
  .ret row

/-- Resume a suspended workspace so that its teardown can run. -/
def resume (workspace : Read) : sys.Task Unit :=
  if workspace.workspace.spec.residency = .Suspended then setResidency workspace .Running
  else .ret ()

def giveBack (workspaceId : String) (workspace : Read) : sys.Task Unit :=
  if workspace.workspace.spec.residency = .Suspended then do
    let rows ← workspaces
    match findRow rows workspaceId with
    | some current => setResidency current .Suspended
    | none => .ret ()
  else .ret ()

def recordTeardown (row : Read) : sys.Task Unit := do
  match row.workspace.status with
  | none => .fail (.message "Workspace readiness status disappeared")
  | some value => do
    let instant ← now
    status row { value with teardownCompletedAt := some (Iso.toISOString instant) }

/-- Never archive a new object that reused the name. -/
def setArchived (workspaceId : String) (row : Read) : sys.Task Unit := do
  let rows ← workspaces
  match findRow rows workspaceId with
  | none => .fail (.message "Workspace changed during archive")
  | some current =>
    if current.workspace.metadata.uid ≠ row.workspace.metadata.uid ∨
        current.workspace.metadata.generation ≠ row.workspace.metadata.generation then
      .fail (.message "Workspace changed during archive")
    else setResidency current .Archived

def archiveFound (workspaceId : String) (principal : GatewayPrincipal) (workspace : Read) :
    sys.Task Unit := do
  resume workspace
  match ← (finish rt readyTimeoutMs turns workspaceId principal).attempt with
  | .error e => do
    giveBack workspaceId workspace
    .fail e
  | .ok row => do
    recordTeardown row
    setArchived workspaceId row

def archive (workspaceId : String) (principal : GatewayPrincipal) : sys.Task Unit := do
  let (_, rows) ← records principal
  match findRow rows workspaceId with
  | none => .fail (.message "Workspace access denied")
  | some workspace =>
    if ¬ authorizeWorkspace principal workspace.workspace then
      .fail (.message "Workspace access denied")
    else if workspace.workspace.spec.residency = .Archived then .ret ()
    else archiveFound rt readyTimeoutMs turns workspaceId principal workspace

end Archive

/-! ### The machine -/

abbrev History := Trace Key (fun _ => Workspace) Note

/-- What the environment decides when it answers a request; `refused` loses it. -/
structure Choice where
  refused : Option Err := none
  found : Option Infrastructure := none
  instant : Int := 0
  projects : List Project := []
  profile : Option CredentialProfile := none
  data : List (String × String) := []
  grant : Option WorkspaceClaims := none
  written : Bool := true

/-- What the request to write an access Secret notes. -/
def swapNote (version : Option String) (object : Desired) : Note :=
  match version with
  | some version => .replaced object version
  | none => .created object

/-- The answer to a request and the note it leaves. -/
def reply (c : Choice) : (x : Ext) → Option (x.Res × Option Note)
  | .pass read => some ((), some (.pass read))
  | .now => some (c.instant, some (.clock c.instant))
  | .projects => some (match c.refused with | some e => .error e | none => .ok c.projects, none)
  | .get kind name => some (match c.refused with
    | some e => (.error e, none)
    | none => (.ok c.found, some (.got kind name c.found)))
  | .create object =>
    some (match c.refused with | some e => .error e | none => .ok (), some (.created object))
  | .delete kind name uid =>
    some (match c.refused with | some e => .error e | none => .ok (),
      some (.deleted kind name uid))
  | .credentialProfile _ =>
    some (match c.refused with | some e => .error e | none => .ok c.profile, none)
  | .object _ _ => some (match c.refused with | some e => .error e | none => .ok c.data, none)
  | .exec workspace => some (match c.refused with
    | some e => (.error e, none)
    | none => (.ok (), some (.tornDown workspace)))
  | .snapshotInventory workspace => some (match c.refused with
    | some e => (.error e, none)
    | none => (.ok (), some (.snapshot workspace)))
  | .beforeSuspend _ => some (match c.refused with | some e => .error e | none => .ok (), none)
  | .purgeInventory workspace =>
    some (match c.refused with | some e => .error e | none => .ok (), some (.purged workspace))
  -- the empty text is no token
  | .currentGrant token => some (if token = "" then none else c.grant, none)
  | .issueWorkspaceToken _ =>
    some (match c.refused with | some e => .error e | none => .ok (), none)
  | .compareAndSwapSecret version object =>
    some (match c.refused with | some e => .error e | none => .ok c.written,
      some (swapNote version object))
  | .delay => some ((), none)
  | .stuck => none

def answer (c : Choice) (_ : Tid) (x : Ext) (_ : World sys) : Option (Answer sys x) :=
  (reply c x).map fun r => { res := r.1, notes := r.2.toList, mem := (), glob := () }

inductive Env where
  | create (workspace : Workspace)
  | spec (name : String) (metadata : Metadata) (spec : WorkspaceSpec)
  | delete (name : String)

/-- A new spec keeps the identity of its record and never leaves `Archived`. -/
def allowed (old : Workspace) (metadata : Metadata) (spec : WorkspaceSpec) : Bool :=
  metadata.name == old.metadata.name && metadata.uid == old.metadata.uid &&
    (old.spec.residency != .Archived || spec.residency == .Archived)

def env (e : Env) (w : World sys) : Option (History × Unit) :=
  match e with
  | .create workspace =>
    if (lookup (.workspace workspace.metadata.name) w.trace).isNone ∧ workspace.status.isNone then
      some ([.create none (.workspace workspace.metadata.name) workspace], ())
    else none
  | .spec name metadata spec =>
    match lookup (.workspace name) w.trace with
    | none => none
    | some (_, old) =>
      if allowed old metadata spec then
        some ([.update none (.workspace name) { metadata, spec, status := old.status }], ())
      else none
  | .delete name =>
    if (lookup (.workspace name) w.trace).isNone then none
    else some ([.delete none (.workspace name)], ())

def program (rt : Runtime) (options : Options) (readyTimeoutMs : Int) (turns : Nat) (_ : Tid) :
    Call → sys.Task Unit
  | .resync name => resync rt options name
  | .archive workspaceId principal => archive rt readyTimeoutMs turns workspaceId principal

def machine (rt : Runtime) (options : Options) (readyTimeoutMs : Int) (turns : Nat) :
    Machine sys where
  Out := Unit
  Choice := Choice
  Env := Env
  program := program rt options readyTimeoutMs turns
  answer := answer
  entry := fun _ _ _ => true
  freshMem := ()
  afterCrash := fun _ _ => ()
  env := env
  env_author := by
    intro e w new g h x hx
    cases e with
    | create workspace =>
      simp only [env] at h
      split at h
      · cases h
        rw [List.mem_singleton] at hx
        rw [hx]
        rfl
      · cases h
    | spec name metadata spec =>
      simp only [env] at h
      split at h
      · cases h
      · split at h
        · cases h
          rw [List.mem_singleton] at hx
          rw [hx]
          rfl
        · cases h
    | delete name =>
      simp only [env] at h
      split at h
      · cases h
      · cases h
        rw [List.mem_singleton] at hx
        rw [hx]
        rfl
  init := { trace := [], mem := fun _ => (), glob := (), next := 0, calls := fun _ => none }
  init_next := rfl
  init_calls := fun _ => rfl

end PaseoGateway.WorkspaceArchive

/-
  PaseoGateway/Cluster.lean
  =========================
  **The cluster as the workspace controller and the archive operation see it.**

  Mirrors the workspace half of `src/src/kubernetes/client.ts`, the names and labels
  of `src/src/controller/resources.ts` and the references of
  `src/src/credentials/projection.ts`.

  Workspace records live in the compare-and-swap store: a write replaces exactly the
  version it was read at, writing the spec bumps the generation, and the API server
  refuses to take a record out of `Archived`.  Pods, Services, claims and Secrets
  belong to the cluster, which may answer every request about them as it likes; what
  was seen, created, deleted and completed is noted in the history.  Of the objects
  the code creates only kind, name and label are kept.
-/
import PaseoGateway.AsyncPool
import PaseoGateway.CodexSubscription
import PaseoGateway.Domain
import PaseoGateway.IsoInstant
import PaseoGateway.Json

namespace PaseoGateway.Cluster

open Async
open CodexSubscription (KeyReference)

/-! ### Objects of the cluster -/

inductive Kind where
  | Pod
  | Service
  | PersistentVolumeClaim
  | Secret
deriving DecidableEq, Repr

structure Terminated where
  exitCode : Int
  reason : Option String := none
  message : Option String := none
deriving DecidableEq, Repr

structure ContainerStatus where
  name : String
  terminated : Option Terminated := none
  lastTerminated : Option Terminated := none
  waiting : Option String := none
deriving DecidableEq, Repr

/-- What the code reads of an object.  `workspaceUid` is its `WORKSPACE_UID_LABEL` and `token`
    the entry of that name of a Secret, decoded; a UID, a version or a deletion timestamp is
    never the empty text, and every object that is read has a version. -/
structure Infrastructure where
  uid : Option String := none
  workspaceUid : Option String := none
  resourceVersion : String := "1"
  token : Option String := none
  deletionTimestamp : Option String := none
  phase : Option String := none
  reason : Option String := none
  /-- type and status of each condition -/
  conditions : List (String × String) := []
  initContainerStatuses : List ContainerStatus := []
  containerStatuses : List ContainerStatus := []
deriving DecidableEq, Repr

/-- The condition `Ready` is `True`. -/
def Infrastructure.ready (object : Infrastructure) : Bool :=
  object.conditions.any fun c => c.1 == "Ready" && c.2 == "True"

/-- An object the controller is about to create. -/
structure Desired where
  kind : Kind
  name : String
  workspaceUid : String
deriving DecidableEq, Repr

/-! ### Credential profiles -/

inductive ReferenceKind where
  | Secret
  | ConfigMap
deriving DecidableEq, Repr

structure CredentialReference where
  kind : ReferenceKind
  name : String
  key : String
deriving DecidableEq, Repr

def secretReference (ref : KeyReference) : CredentialReference := ⟨.Secret, ref.name, ref.key⟩

structure CredentialProfile where
  /-- the references of `env` followed by those of `files` -/
  items : List CredentialReference := []
  codexOutputSecretName : Option String := none
  tokenSecretRef : Option KeyReference := none
  githubAppOutputSecretName : Option String := none
  /-- the key and the known hosts of `git.ssh` -/
  ssh : Option (KeyReference × CredentialReference) := none
  signingKeySecretRef : Option KeyReference := none
deriving DecidableEq, Repr

def referencedCredentials (profile : CredentialProfile) : List CredentialReference :=
  let codex := profile.codexOutputSecretName.map fun name => ⟨.Secret, name, "access.json"⟩
  let app := profile.githubAppOutputSecretName.map fun name => ⟨.Secret, name, "token"⟩
  let ssh := profile.ssh.elim [] fun s => [secretReference s.1, s.2]
  (profile.items ++ codex.toList ++ (profile.tokenSecretRef.map secretReference).toList ++
    app.toList ++ ssh ++ (profile.signingKeySecretRef.map secretReference).toList).eraseDups

/-! ### What the JavaScript runtime provides -/

structure Runtime where
  /-- `createHash("sha256").update(text).digest("hex")` -/
  sha256 : String → String
  dateParse : String → Option Int
  /-- `JSON.parse`; a number that is no integer is read as null -/
  jsonParse : String → Option Json
  /-- whether `credentialProjection` accepts its arguments -/
  projectable : Workspace → Project → Option CredentialProfile → Bool

section Names

variable (rt : Runtime)

def hashed (text : String) : String := String.ofList ((rt.sha256 text).toList.take 24)

def resourceName (workspace : Workspace) : String :=
  "ws-" ++ hashed rt (workspace.metadata.uid.getD workspace.metadata.name)

/-- The name of a workspace that has a UID. -/
def historyReaderName (uid : String) : String := "rh-" ++ hashed rt uid

def accessName (workspace : Workspace) : String := resourceName rt workspace ++ "-access"

end Names

/-! ### The system -/

inductive Key where
  | workspace (name : String)
deriving DecidableEq

/-- A workspace record with the version it was read at. -/
structure Read where
  version : Nat
  workspace : Workspace
deriving DecidableEq

abbrev Read.key (read : Read) : Key := .workspace read.workspace.metadata.name

/-- What happens outside the records. -/
inductive Note where
  /-- a pass of the controller over this record begins -/
  | pass (read : Read)
  | got (kind : Kind) (name : String) (result : Option Infrastructure)
  /-- a request to create or delete was sent -/
  | created (object : Desired)
  | deleted (kind : Kind) (name uid : String)
  /-- a request to replace the object at this version was sent -/
  | replaced (object : Desired) (version : String)
  /-- an inventory snapshot of the workspace completed -/
  | snapshot (workspace : Workspace)
  /-- the teardown hooks of the workspace completed -/
  | tornDown (workspace : Workspace)
  /-- the archived inventory is being purged -/
  | purged (workspace : Workspace)
  | clock (instant : Int)

inductive Err where
  | store (e : StoreErr)
  | message (text : String)
  /-- a callback or a command in a Pod failed -/
  | failed
deriving DecidableEq, Repr

inductive Ext where
  | pass (read : Read)
  | now
  | projects
  | get (kind : Kind) (name : String)
  | create (object : Desired)
  | delete (kind : Kind) (name uid : String)
  | credentialProfile (name : String)
  | object (kind : ReferenceKind) (name : String)
  | exec (workspace : Workspace)
  | snapshotInventory (workspace : Workspace)
  | beforeSuspend (workspace : Workspace)
  | purgeInventory (workspace : Workspace)
  /-- the claims of a token that holds for more than half an hour yet -/
  | currentGrant (token : String)
  /-- the token is not kept; it throws when the options of the tokens are no good, as reading
      one does -/
  | issueWorkspaceToken (workspace : Workspace)
  /-- create the Secret, or replace it at the version; false for a conflict -/
  | compareAndSwapSecret (version : Option String) (object : Desired)
  | delay
  /-- never answered -/
  | stuck

def Ext.Res : Ext → Type
  | .pass _ => Unit
  | .now => Int
  | .projects => Except Err (List Project)
  | .get _ _ => Except Err (Option Infrastructure)
  | .create _ => Except Err Unit
  | .delete _ _ _ => Except Err Unit
  | .credentialProfile _ => Except Err (Option CredentialProfile)
  | .object _ _ => Except Err (List (String × String))
  | .exec _ => Except Err Unit
  | .snapshotInventory _ => Except Err Unit
  | .beforeSuspend _ => Except Err Unit
  | .purgeInventory _ => Except Err Unit
  | .currentGrant _ => Option WorkspaceClaims
  | .issueWorkspaceToken _ => Except Err Unit
  | .compareAndSwapSecret _ _ => Except Err Bool
  | .delay => Unit
  | .stuck => Unit

inductive Call where
  /-- one round of the controller over one workspace -/
  | resync (name : String)
  | archive (workspaceId : String) (principal : GatewayPrincipal)

@[reducible] def sys : Sys where
  Key := Key
  Val := fun _ => Workspace
  Note := Note
  Ext := Ext
  ExtRes := Ext.Res
  Mem := Unit
  Glob := Unit
  Call := Call
  Err := Err
  ofStore := .store

/-! ### The Kubernetes store -/

def now : sys.Task Int := ask (S := sys) .now

def projects : sys.Task (List Project) := askOr (S := sys) .projects rfl

def workspaces : sys.Task (List Read) := do
  let rows ← await (S := sys) (.list fun _ => true)
  .ret (rows.map fun row => ⟨row.version, row.value⟩)

/-- The record after its spec was replaced; an unchanged spec keeps the generation. -/
def withResidency (workspace : Workspace) (residency : Residency) : Workspace :=
  if workspace.spec.residency = residency then workspace
  else { workspace with
    metadata := { workspace.metadata with
      generation := workspace.metadata.generation.map (· + 1) }
    spec := { workspace.spec with residency } }

/-- The API server refuses a write that takes a record out of `Archived`. -/
def setResidency (read : Read) (residency : Residency) : sys.Task Unit :=
  if read.workspace.spec.residency = .Archived ∧ residency ≠ .Archived then
    .fail (.message "Archived workspaces cannot be restored; create a new workspace")
  else do
    let _ ← await (S := sys)
      (.update read.key read.version (withResidency read.workspace residency))
    .ret ()

def status (read : Read) (value : WorkspaceStatus) : sys.Task Unit := do
  let _ ← await (S := sys)
    (.update read.key read.version { read.workspace with status := some value })
  .ret ()

def get (kind : Kind) (name : String) : sys.Task (Option Infrastructure) :=
  askOr (S := sys) (.get kind name) rfl

def create (object : Desired) : sys.Task Unit := askOr (S := sys) (.create object) rfl

def delete (kind : Kind) (name uid : String) : sys.Task Unit :=
  askOr (S := sys) (.delete kind name uid) rfl

def deleteStorage (name uid : String) : sys.Task Unit := delete .PersistentVolumeClaim name uid

section Store

variable (rt : Runtime)

/-- The object is there without a UID or with the label of another workspace. -/
def unowned (workspace : Workspace) (resource : Option Infrastructure) : Bool :=
  resource.any fun r => r.uid.isNone || r.workspaceUid != workspace.metadata.uid

/-- Delete an object that is there and not being deleted yet. -/
def deleteLive (kind : Kind) (name : String) (resource : Option Infrastructure) :
    sys.Task Unit :=
  match resource with
  | some { uid := some uid, deletionTimestamp := none, .. } => delete kind name uid
  | _ => .ret ()

/-- Remove the Service and the access Secret; true only after both are absent. -/
def deleteRuntime (workspace : Workspace) : sys.Task Bool :=
  if workspace.metadata.uid.isNone then
    .fail (.message "Workspace UID required for runtime cleanup")
  else do
    let name := resourceName rt workspace
    let service ← get .Service name
    let secret ← get .Secret (accessName rt workspace)
    -- validate both before changing either
    if unowned workspace service || unowned workspace secret then
      .fail (.message "Refusing to collect unowned workspace runtime resources")
    else do
      deleteLive .Service name service
      deleteLive .Secret (accessName rt workspace) secret
      match ← get .Service name with
      | some _ => .ret false
      | none => do
        let left ← get .Secret (accessName rt workspace)
        .ret left.isNone

/-- Run the teardown hooks in the Pod. -/
def teardown (workspace : Workspace) : sys.Task Unit := do
  match ← get .Pod (resourceName rt workspace) with
  | none => .fail (.message "Teardown requires an owned workspace pod")
  | some pod =>
    if pod.workspaceUid ≠ workspace.metadata.uid then
      .fail (.message "Teardown requires an owned workspace pod")
    else askOr (S := sys) (.exec workspace) rfl

end Store

end PaseoGateway.Cluster

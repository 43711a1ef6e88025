/-
  PaseoGateway/SessionState.lean
  ==============================
  **What one gateway session holds, and what it does to it between two awaits.**

  Mirrors the parts of `src/src/gateway/session.ts` that open, use, retire and
  close backend connections and that project the workspace directory, with
  `TerminalSlots` of `src/src/gateway/routing.ts` and the descriptors of
  `src/src/gateway/catalog.ts`.  An `async` function runs from one await to the
  next without interruption; each such piece is one function on the memory here,
  and `Session.lean` strings them together.

  The promise stored for a connection is an entry of `entries`; the map keeps its
  number.  An entry is pending until the opening settles it, and keeps its place
  when the map forgets it, as a promise does.

  The three logs record what an observer of the session sees: what the map of
  connections loses, which terminal slots are issued and which frames are
  delivered, and what the client is told of the directory.
-/
import PaseoGateway.JsMap
import PaseoGateway.WorkspaceLabels

namespace PaseoGateway.Session

open Async

/-! ### Descriptors -/

/-- What a backend reports of its workspace.  The JSON values that are only copied
    and compared are their texts. -/
structure WorkspaceRuntime where
  id : String
  status : String
  statusEnteredAt : Option String := none
  activityAt : Option String := none
  gitRuntime : Option String := none
  githubRuntime : Option String := none
  diffStat : Option String := none
deriving DecidableEq, Repr

structure WorkspaceDescriptor where
  projectId : String
  projectKey : String
  projectDisplayName : String
  projectRootPath : String
  id : String
  workspaceDirectory : String
  name : String
  title : String
  status : String
  statusEnteredAt : Option String
  activityAt : Option String
  gitRuntime : String
  githubRuntime : String
  diffStat : Option String
  labels : List String
deriving DecidableEq, Repr

def phaseText : Phase → String
  | .Pending => "Pending"
  | .Ready => "Ready"
  | .Suspended => "Suspended"
  | .Archived => "Archived"
  | .Failed => "Failed"

/-- Running and ready. -/
def available (workspace : Workspace) : Bool :=
  workspace.spec.residency == .Running &&
    (workspace.status.map WorkspaceStatus.phase == some .Ready)

/-- `workspaceDescriptor` for a workspace whose runtime is only looked at when it is
    available, with its labels. -/
def workspaceDescriptor (workspace : Workspace) (project : Project)
    (runtime : Option WorkspaceRuntime) (labels : List String) : WorkspaceDescriptor :=
  let runtime := if available workspace then runtime else none
  { projectId := project.name
    projectKey := project.name
    projectDisplayName := project.displayName
    projectRootPath := projectPath project.name
    id := workspace.metadata.name
    workspaceDirectory := workspacePath workspace.metadata.name
    name := workspace.spec.displayName
    title := workspace.spec.displayName
    status := if available workspace then (runtime.map WorkspaceRuntime.status).getD "done"
      else "failed"
    statusEnteredAt := (runtime.bind WorkspaceRuntime.statusEnteredAt).or
      (workspace.status.bind fun status =>
        status.conditions.head?.map ReadyCondition.lastTransitionTime)
    activityAt := (runtime.bind WorkspaceRuntime.activityAt).or
      workspace.metadata.creationTimestamp
    gitRuntime := (runtime.bind WorkspaceRuntime.gitRuntime).getD "null"
    githubRuntime := (runtime.bind WorkspaceRuntime.githubRuntime).getD "null"
    diffStat := runtime.bind WorkspaceRuntime.diffStat
    labels }

@[simp] theorem workspaceDescriptor_id (workspace : Workspace) (project : Project)
    (runtime : Option WorkspaceRuntime) (labels : List String) :
    (workspaceDescriptor workspace project runtime labels).id = workspace.metadata.name := rfl

def projectFor (workspace : Workspace) (projects : List Project) : Option Project :=
  projects.find? (·.name == workspace.spec.projectRef)

/-! ### Errors and options -/

inductive Err where
  | store (e : StoreErr)
  /-- the clock, the store or a backend failed -/
  | unavailable
  | message (text : String)
deriving DecidableEq, Repr

structure SessionOptions where
  principal : GatewayPrincipal := .owner
  revokedTokenIds : List String := []
  /-- whether the gateway keeps workspace labels -/
  labels : Bool := true

def revoked (options : SessionOptions) : Bool :=
  match options.principal with
  | .owner => false
  | .workspace claims => options.revokedTokenIds.contains claims.tokenId

def visibleProjects (options : SessionOptions) (projects : List Project) : List Project :=
  projects.filter fun project =>
    authorizeProject options.principal project.name &&
      match options.principal with
      | .owner => true
      | .workspace claims => claims.credentialProfiles.contains project.credentialProfile

def visibleWorkspaces (options : SessionOptions) (workspaces : List Workspace) :
    List Workspace :=
  workspaces.filter fun w =>
    w.metadata.deletionTimestamp.isNone && authorizeWorkspace options.principal w

/-- What `records` makes of its two reads. -/
def authorizedRecords (options : SessionOptions) (now : Nat) (projects : List Project)
    (workspaces : List Workspace) : Except Err (List Project × List Workspace) :=
  if ¬ principalIsActive now workspaces options.principal ∨ revoked options then
    .error (.message "Workspace credential expired or revoked")
  else .ok (visibleProjects options projects, visibleWorkspaces options workspaces)

def unarchived (workspaces : List Workspace) : List Workspace :=
  workspaces.filter (·.spec.residency != .Archived)

/-! ### Terminal slots -/

structure Binding where
  workspaceId : String
  backendSlot : Nat
deriving DecidableEq, Repr

abbrev TerminalSlots := Js.Map Nat Binding

namespace TerminalSlots

/-- The slot a backend slot is shown as, and the bindings afterwards. -/
def outward (slots : TerminalSlots) (workspaceId : String) (backendSlot : Nat) :
    Except Err (Nat × TerminalSlots) :=
  let binding : Binding := ⟨workspaceId, backendSlot⟩
  match slots.cells.find? (·.value = binding) with
  | some cell => .ok (cell.key, slots)
  | none =>
    match (List.range 256).find? fun slot => (slots.get slot).isNone with
    | some slot => .ok (slot, slots.set slot binding)
    | none =>
      .error (.message "Terminal slot capacity reached; reconnect to reset subscriptions")

def inward (slots : TerminalSlots) (slot : Nat) : Except Err Binding :=
  match slots.get slot with
  | some binding => .ok binding
  | none => .error (.message "Unknown terminal slot")

end TerminalSlots

/-! ### Connections -/

inductive ConnectionState where
  /-- the backend is being opened -/
  | pending
  | live
  | retired
  | failed (error : Err)
deriving DecidableEq, Repr

structure Connection where
  workspace : Workspace
  localId : String
  state : ConnectionState := .pending
deriving DecidableEq, Repr

namespace Connection

def name (c : Connection) : String := c.workspace.metadata.name

def uid (c : Connection) : Option String := c.workspace.metadata.uid

/-- Neither retired nor failed. -/
def Open (c : Connection) : Prop := c.state = .pending ∨ c.state = .live

instance (c : Connection) : Decidable c.Open := inferInstanceAs (Decidable (_ ∨ _))

/-- `retire`, which only the holder of an opened connection can call. -/
def retire (c : Connection) : Connection :=
  if c.state = .live then { c with state := .retired } else c

/-- The opening succeeds; a promise settles once. -/
def settle (c : Connection) : Connection :=
  if c.state = .pending then { c with state := .live } else c

def fail (error : Err) (c : Connection) : Connection := { c with state := .failed error }

def register (localId : String) (c : Connection) : Connection := { c with localId }

end Connection

/-! ### Logs -/

/-- What the map of connections loses. -/
inductive ConnectionEvent where
  /-- the entry under a name is deleted after one was examined -/
  | deleted (examined : Nat) (found : Option Nat)
  /-- the map is cleared; these entries were in it and are still open -/
  | cleared (lost : List Nat)
deriving DecidableEq, Repr

inductive TerminalEvent where
  /-- a connection is opened to the workspace of this name and uid -/
  | opened (workspaceId : String) (uid : Option String)
  | issued (slot : Nat) (binding : Binding) (uid : Option String)
  /-- a client frame goes to the backend of this uid; the record read for it, if there was one -/
  | delivered (slot backendSlot : Nat) (uid : Option String) (current : Option Workspace)
deriving DecidableEq, Repr

inductive DirectoryEvent where
  /-- a refresh pass begins -/
  | began
  /-- the pass found the last projection of a workspace and computed a descriptor from this
      runtime; whether it emits it -/
  | projected (last : Option WorkspaceDescriptor) (descriptor : WorkspaceDescriptor)
      (runtime : Option WorkspaceRuntime) (emitted : Bool)
  /-- the pass succeeded: the workspaces with a projection and those it lists, what it removes,
      the directory as the cluster then has it, and whether the cluster changed since the pass
      began -/
  | refreshed (projections listed removed : List String) (directory : List WorkspaceDescriptor)
      (unchanged : Bool)
  /-- the pass ends without having emitted its removals -/
  | ended
  /-- a full snapshot is sent: what the session lists, and the rows -/
  | snapshot (listing rows : List WorkspaceDescriptor)
  /-- the session learns or forgets the runtime of a workspace -/
  | runtime (id : String) (before after : Option WorkspaceRuntime)
deriving DecidableEq, Repr

/-! ### The session -/

structure Mem where
  closed : Bool := false
  watchingWorkspaces : Bool := false
  /-- the running pass, and the revision of the cluster when it began -/
  refreshing : Option (Tid × Nat) := none
  connections : Js.Map String Nat := {}
  entries : List Connection := []
  workspaceRuntime : Js.Map String WorkspaceRuntime := {}
  workspaceProjections : Js.Map String WorkspaceDescriptor := {}
  slots : TerminalSlots := {}
  /-- the connection attempts and the closings that have finished, by who waits for them -/
  attempted : List (Tid × Nat) := []
  released : List (Tid × Nat) := []
  connectionLog : List ConnectionEvent := []
  terminalLog : List TerminalEvent := []
  directoryLog : List DirectoryEvent := []

/-- How `connection` goes on after its first piece. -/
inductive Connecting where
  | joined (entry : Nat)
  | started (entry : Nat)
deriving DecidableEq, Repr

namespace Mem

variable (m : Mem)

def updateEntry (e : Nat) (f : Connection → Connection) : Mem :=
  { m with entries := m.entries.modify e f }

def setRuntime (id : String) (runtime : WorkspaceRuntime) : Mem :=
  { m with
    workspaceRuntime := m.workspaceRuntime.set id runtime
    directoryLog := .runtime id (m.workspaceRuntime.get id) (some runtime) :: m.directoryLog }

def deleteRuntime (id : String) : Mem :=
  { m with
    workspaceRuntime := m.workspaceRuntime.delete id
    directoryLog := .runtime id (m.workspaceRuntime.get id) none :: m.directoryLog }

/-- `connections.delete(id)` by code that has looked at the entry `examined`. -/
def forgetConnection (name : String) (examined : Nat) : Mem :=
  { m with
    connections := m.connections.delete name
    connectionLog := .deleted examined (m.connections.get name) :: m.connectionLog }

/-- What a closed session has to say of its directory is not emitted. -/
def tell (event : DirectoryEvent) : Mem :=
  if m.closed then m else { m with directoryLog := event :: m.directoryLog }

/-! ### Opening -/

/-- `connection` up to its first await.  The second part opens the backend, which it
    does in the same piece and goes on with in a promise of its own. -/
def connect (options : SessionOptions) (workspace : Workspace) : Except Err Connecting × Mem :=
  if m.closed then (.error (.message "Gateway session closed"), m)
  else if ¬ authorizeWorkspace options.principal workspace then
    (.error (.message "Workspace access denied"), m)
  else if ¬ available workspace then
    (.error (.message ("Workspace " ++ workspace.metadata.name ++ " is " ++
      phaseText ((workspace.status.map WorkspaceStatus.phase).getD .Pending) ++
      "; inventory is unavailable, not deleted")), m)
  else
    let id := workspace.metadata.name
    match m.connections.get id with
    | some e => (.ok (.joined e), m)
    | none =>
      let e := m.entries.length
      let localId := (workspace.status.bind WorkspaceStatus.backendWorkspaceId).getD ""
      (.ok (.started e),
        { m with
          connections := m.connections.set id e
          entries := m.entries ++ [⟨workspace, localId, .pending⟩]
          terminalLog := .opened id workspace.metadata.uid :: m.terminalLog })

/-- `await entry`: nothing while it is pending. -/
def settled (e : Nat) : Option (Except Err Unit) :=
  (m.entries[e]?).bind fun c =>
    match c.state with
    | .pending => none
    | .live => some (.ok ())
    | .retired => some (.ok ())
    | .failed error => some (.error error)

/-- The caller found an entry in the map: whether it is of another uid, in which case
    it is retired. -/
def joined (e : Nat) (workspace : Workspace) : Option (Except Err Bool × Mem) :=
  (m.settled e).map fun
    | .error error => (.error error, m)
    | .ok () =>
      if ((m.entries[e]?).bind Connection.uid) ≠ workspace.metadata.uid then
        (.ok true, m.updateEntry e Connection.retire)
      else (.ok false, m)

def forget (name : String) (e : Nat) : Mem := (m.forgetConnection name e).deleteRuntime name

/-- `open_project` has answered. -/
def openProject (e : Nat) (runtime : WorkspaceRuntime) : Mem :=
  match m.entries[e]? with
  | none => m
  | some c => (m.updateEntry e (Connection.register runtime.id)).setRuntime c.name runtime

/-- `fetch_workspaces` has answered with the backend's rows, and the opening is over. -/
def fetchWorkspaces (e : Nat) (rows : List WorkspaceRuntime) : Mem :=
  match m.entries[e]? with
  | none => m
  | some c =>
    let learned := match rows.find? (·.id == c.localId) with
      | some runtime => m.setRuntime c.name runtime
      | none => m
    learned.updateEntry e Connection.settle

/-- The opening failed and its backend is closed. -/
def openFailed (e : Nat) (error : Err) : Mem :=
  match m.entries[e]? with
  | none => m
  | some c => (m.updateEntry e (Connection.fail error)).forgetConnection c.name e

/-! ### Events of a backend -/

/-- Whether events of the entry are ignored. -/
def deaf (e : Nat) : Bool :=
  m.closed || match m.entries[e]? with
    | none => true
    | some c => c.state = .retired

/-- `onMessage` for a `workspace_update`: whether a refresh pass is to be tried. -/
def onWorkspaceUpdate (e : Nat) (runtime : WorkspaceRuntime) : Bool × Mem :=
  match m.entries[e]? with
  | none => (false, m)
  | some c =>
    if m.deaf e ∨ runtime.id ≠ c.localId then (false, m)
    else (true, m.setRuntime c.name runtime)

/-- A slot for a backend slot of the entry. -/
def issue (e backendSlot : Nat) : Except Err Nat × Mem :=
  match m.entries[e]? with
  | none => (.error .unavailable, m)
  | some c =>
    match m.slots.outward c.name backendSlot with
    | .error error => (.error error, m)
    | .ok (slot, slots) =>
      (.ok slot,
        { m with
          slots
          terminalLog := .issued slot ⟨c.name, backendSlot⟩ c.uid :: m.terminalLog })

/-- `onBinary` for a terminal frame: the slot it is emitted under, if it is. -/
def onBinary (e backendSlot : Nat) : Except Err (Option Nat) × Mem :=
  if m.deaf e then (.ok none, m)
  else ((m.issue e backendSlot).1.map some, (m.issue e backendSlot).2)

/-! ### Client frames -/

/-- The route of a slot, and the entry of its workspace. -/
def inward (slot : Nat) : Except Err (Binding × Nat) :=
  match m.slots.inward slot with
  | .error error => .error error
  | .ok binding =>
    match m.connections.get binding.workspaceId with
    | none => .error (.message "Terminal workspace is disconnected")
    | some e => .ok (binding, e)

/-- The entry has settled: the frame goes to its backend if the record read before still
    stands for the same workspace. -/
def deliver (slot : Nat) (binding : Binding) (e : Nat) (workspaces : List Workspace) :
    Option (Except Err Unit × Mem) :=
  (m.settled e).map fun
    | .error error => (.error error, m)
    | .ok () =>
      let uid := (m.entries[e]?).bind Connection.uid
      let found := workspaces.find? (·.metadata.name == binding.workspaceId)
      if found.all fun current => current.metadata.uid != uid || !available current then
        (.error (.message "Terminal workspace is stopped or replaced"), m)
      else
        (.ok (), { m with
          terminalLog := .delivered slot binding.backendSlot uid found :: m.terminalLog })

/-! ### The workspace directory -/

/-- The rows of a snapshot; a workspace whose project is gone throws. -/
def rows (active : List Workspace) (projects : List Project)
    (labels : List (String × List String)) : Except Err (List WorkspaceDescriptor) :=
  active.mapM fun w =>
    match projectFor w projects with
    | none => .error (.message "Workspace project no longer exists")
    | some project =>
      .ok (workspaceDescriptor w project (m.workspaceRuntime.get w.metadata.name)
        ((labels.lookup w.metadata.name).getD []))

/-- The workspaces that were read, each with its descriptor. -/
def listing (active : List Workspace) (projects : List Project)
    (labels : List (String × List String)) : List WorkspaceDescriptor :=
  active.filterMap fun w =>
    (projectFor w projects).map fun project =>
      workspaceDescriptor w project (m.workspaceRuntime.get w.metadata.name)
        ((labels.lookup w.metadata.name).getD [])

def respond (active : List Workspace) (projects : List Project)
    (labels : List (String × List String)) : Except Err (List WorkspaceDescriptor) × Mem :=
  match m.rows active projects labels with
  | .error error => (.error error, m)
  | .ok rows => (.ok rows, { m with
      directoryLog := .snapshot (m.listing active projects labels) rows :: m.directoryLog })

def beginRefresh (t : Tid) (revision : Nat) : Bool × Mem :=
  if m.closed ∨ m.refreshing.isSome then (false, m)
  else (true, { m with
    refreshing := some (t, revision)
    directoryLog := .began :: m.directoryLog })

/-- The pass has waited for an entry of the map: it goes when its workspace is gone,
    stopped or replaced.  Whether its backend is to be closed. -/
def examine (name : String) (e : Nat) (active : List Workspace) : Option (Bool × Mem) :=
  (m.settled e).map fun settled =>
    let connected := settled.toOption.isSome
    let current := active.find? (·.metadata.name == name)
    let uid := (m.entries[e]?).bind Connection.uid
    if !connected || current.all fun w => !available w || uid != w.metadata.uid then
      (connected, ((m.updateEntry e Connection.retire).forgetConnection name e).deleteRuntime name)
    else (false, m)

def endRefresh : Mem :=
  { m with refreshing := none, directoryLog := .ended :: m.directoryLog }

/-- Whether the pass goes on to the directory. -/
def watching : Bool × Mem :=
  if m.watchingWorkspaces then (true, m) else (false, m.endRefresh)

def project (workspace : Workspace) (project : Project) (labels : List (String × List String)) :
    Mem :=
  let name := workspace.metadata.name
  let runtime := m.workspaceRuntime.get name
  let descriptor := workspaceDescriptor workspace project runtime ((labels.lookup name).getD [])
  let last := m.workspaceProjections.get name
  if last = some descriptor then m.tell (.projected last descriptor runtime false)
  else
    { m with workspaceProjections := m.workspaceProjections.set name descriptor }.tell
      (.projected last descriptor runtime true)

/-- The projections of workspaces that are no longer active. -/
def gone (active : List Workspace) : List String :=
  m.workspaceProjections.keys.filter fun id => ¬ active.any (·.metadata.name == id)

def dropProjection (id : String) : Mem :=
  { m with workspaceProjections := m.workspaceProjections.delete id }.deleteRuntime id

/-- The end of a pass that succeeded. -/
def sweep (active : List Workspace) (directory : Mem → List WorkspaceDescriptor)
    (unchanged : Bool) : Mem :=
  { ((m.gone active).foldl dropProjection m).tell
      (.refreshed m.workspaceProjections.keys (active.map (·.metadata.name)) (m.gone active)
        (directory m) unchanged) with
    refreshing := none }

/-- The entries a cleared map had that stay open. -/
def lost : List Nat :=
  m.connections.values.filter fun e => ((m.entries[e]?).map fun c => decide c.Open).getD false

/-- The failed pass has waited for these entries: the map is cleared and the first opened
    one retired.  Those that were opened are returned. -/
def clearFailed (es : List Nat) : Option (List Nat × Mem) :=
  if es.all fun e => (m.settled e).isSome then
    let opened := es.filter fun e => (m.settled e) = some (.ok ())
    let retired := match opened.head? with
      | some e => m.updateEntry e Connection.retire
      | none => m
    some (opened, { retired with
      connections := m.connections.clear
      connectionLog := .cleared retired.lost :: m.connectionLog })
  else none

/-- The backend before it is closed; the next one is retired. -/
def retireNext (next : Option Nat) : Mem :=
  match next with
  | some e => m.updateEntry e Connection.retire
  | none => m

/-! ### Closing the session -/

/-- `await entry`, then `retire`. -/
def release (e : Nat) : Option (Except Err Unit × Mem) :=
  (m.settled e).map fun
    | .error error => (.error error, m)
    | .ok () => (.ok (), m.updateEntry e Connection.retire)

def clearAll : Mem :=
  { m with connections := m.connections.clear, workspaceRuntime := m.workspaceRuntime.clear }

end Mem

end PaseoGateway.Session

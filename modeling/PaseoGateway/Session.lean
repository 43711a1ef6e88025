/-
  PaseoGateway/Session.lean
  =========================
  **Gateway sessions as asynchronous programs over one cluster.**

  Mirrors `connection`, `records`, `forward` for a terminal subscription,
  `binary`, the `fetch_workspaces_request` case of `dispatch`, `refreshDirectory`
  and `close` of `src/src/gateway/session.ts`, and the event handlers each
  connection gives its backend.  Every process is one session; the sessions of a
  gateway share the cluster, which changes as it likes between any two reads.

  A backend answers, fails, or keeps silent; `close` answers some time and nothing
  else is assumed of it.  A loop over a live map may take the given number of
  turns and waits for ever after that.
-/
import PaseoGateway.SessionState

namespace PaseoGateway.Session

open Async WorkspaceLabels

/-! ### The system -/

/-- What the store holds; workspace names are unique. -/
structure Cluster where
  projects : List Project := []
  workspaces : List Workspace := []
  catalog : CatalogState := {}
  nodup : (workspaces.map (·.metadata.name)).Nodup := by simp

/-- The cluster, how often it has changed, and the time in seconds. -/
structure Glob where
  cluster : Cluster := {}
  revision : Nat := 0
  now : Nat := 0

/-- One turn of the loop over the connections. -/
abbrev Visit := Js.Cell String Nat

inductive Ext where
  /-- which of two reads started together answers first: the one of the projects -/
  | race
  | projects
  | workspaces
  | catalog
  | isClosed
  -- `connection`
  | connect (workspace : Workspace)
  | settled (e : Nat)
  | joined (e : Nat) (workspace : Workspace)
  | closeAndForget (name : String) (e : Nat)
  -- the opening of a backend
  | connected (e : Nat)
  | openProject (e : Nat)
  | fetchWorkspaces (e : Nat)
  | closeAndFail (e : Nat) (error : Err)
  -- events of a backend
  | onWorkspaceUpdate (e : Nat) (runtime : WorkspaceRuntime)
  | onBinary (e backendSlot : Nat)
  -- terminals
  | request (e : Nat)
  | acknowledge (e backendSlot : Nat)
  | inward (slot : Nat)
  | deliver (slot : Nat) (binding : Binding) (e : Nat) (workspaces : List Workspace)
  -- `fetch_workspaces_request`
  | watch (subscribe : Bool)
  | attempts (workspaces : List Workspace)
  | attempted (parent : Tid) (i : Nat)
  | allAttempted (count : Nat)
  | respond (active : List Workspace) (projects : List Project)
      (labels : List (String × List String))
  -- `refreshDirectory`
  | beginRefresh
  | nextConnection (position : Nat)
  | examine (visit : Visit) (active : List Workspace)
  | closed (e : Nat) (next : Option Nat)
  | watching
  | project (workspace : Workspace) (project : Project) (labels : List (String × List String))
  | sweep (active : List Workspace)
  | connections
  | clearFailed (es : List Nat)
  | endRefresh
  -- `close`
  | beginClose
  | release (e : Nat)
  | released (parent : Tid) (e : Nat)
  | allReleased (es : List Nat)
  | clearAll
  /-- never answered -/
  | stuck

def Ext.Res : Ext → Type
  | .race => Bool
  | .projects => Except Err (List Project × Nat)
  | .workspaces => Except Err (List Workspace × Nat)
  | .catalog => Except Err CatalogState
  | .isClosed => Bool
  | .connect _ => Except Err Connecting
  | .settled _ => Except Err Unit
  | .joined _ _ => Except Err Bool
  | .closeAndForget _ _ => Unit
  | .connected _ => Except Err Unit
  | .openProject _ => Except Err Unit
  | .fetchWorkspaces _ => Except Err Unit
  | .closeAndFail _ _ => Unit
  | .onWorkspaceUpdate _ _ => Bool
  | .onBinary _ _ => Except Err (Option Nat)
  | .request _ => Except Err Nat
  | .acknowledge _ _ => Except Err Nat
  | .inward _ => Except Err (Binding × Nat)
  | .deliver _ _ _ _ => Except Err Unit
  | .watch _ => Unit
  | .attempts _ => Unit
  | .attempted _ _ => Unit
  | .allAttempted _ => Unit
  | .respond _ _ _ => Except Err (List WorkspaceDescriptor)
  | .beginRefresh => Bool
  | .nextConnection _ => Option Visit
  | .examine _ _ => Bool
  | .closed _ _ => Unit
  | .watching => Bool
  | .project _ _ _ => Unit
  | .sweep _ => Unit
  | .connections => List Nat
  | .clearFailed _ => List Nat
  | .endRefresh => Unit
  | .beginClose => List Nat
  | .release _ => Except Err Unit
  | .released _ _ => Unit
  | .allReleased _ => Unit
  | .clearAll => Unit
  | .stuck => Unit

inductive Call where
  | connection (workspace : Workspace)
  | fetchWorkspaces (subscribe : Bool)
  | subscribeTerminal (workspace : Workspace)
  | binary (slot : Nat)
  | refreshDirectory (turns : Nat)
  | close
  /-- a backend emits an update of its workspace, or output of a terminal -/
  | onWorkspaceUpdate (turns e : Nat) (runtime : WorkspaceRuntime)
  | onBinary (e backendSlot : Nat)
  /-- the promise behind a connection -/
  | opening (e : Nat)
  /-- one of the promises `parent` waits for -/
  | attempt (parent : Tid) (i : Nat) (workspace : Workspace)
  | releasing (parent : Tid) (e : Nat)

@[reducible] def sys : Sys where
  Key := Empty
  Val := fun _ => Empty
  Note := Unit
  Ext := Ext
  ExtRes := Ext.Res
  Mem := Mem
  Glob := Glob
  Call := Call
  Err := Err
  ofStore := .store

section Sessions

variable (options : SessionOptions)

/-! ### Records and labels -/

/-- Both reads, with the time when the later one answers. -/
def readBoth (projectsFirst : Bool) : sys.Task (List Project × List Workspace × Nat) :=
  if projectsFirst then do
    let (projects, _) ← askOr (S := sys) .projects rfl
    let (workspaces, now) ← askOr (S := sys) .workspaces rfl
    .ret (projects, workspaces, now)
  else do
    let (workspaces, _) ← askOr (S := sys) .workspaces rfl
    let (projects, now) ← askOr (S := sys) .projects rfl
    .ret (projects, workspaces, now)

def records : sys.Task (List Project × List Workspace) := do
  let projectsFirst ← ask (S := sys) .race
  let (projects, workspaces, now) ← readBoth projectsFirst
  Prog.ofExcept (authorizedRecords options now projects workspaces)

/-- `labels?.workspaceLabelsMany`; without labels every lookup finds nothing. -/
def labelsMany (workspaces : List Workspace) : sys.Task (List (String × List String)) :=
  if ¬ options.labels ∨ workspaces.isEmpty then .ret []
  else do
    let state ← askOr (S := sys) .catalog rfl
    .ret (workspaces.map fun w => (w.metadata.name, labelsFor state w))

/-! ### Connections -/

/-- The entry found in the map, unless its workspace was replaced. -/
def rejoin (workspace : Workspace) (e : Nat) : sys.Task Nat := do
  let replaced : Bool ← askOr (S := sys) (.joined e workspace) rfl
  if replaced then do
    ask (S := sys) (.closeAndForget workspace.metadata.name e)
    .fail (.message "Workspace identity changed; reconnect before acting")
  else .ret e

def connection (workspace : Workspace) : sys.Task Nat := do
  match ← askOr (S := sys) (.connect workspace) rfl with
  | .joined e => rejoin workspace e
  | .started e => do
    (askOr (S := sys) (.settled e) rfl : sys.Task Unit)
    .ret e

def openBackend (e : Nat) : sys.Task Unit := do
  (askOr (S := sys) (.connected e) rfl : sys.Task Unit)
  (askOr (S := sys) (.openProject e) rfl : sys.Task Unit)
  (askOr (S := sys) (.fetchWorkspaces e) rfl : sys.Task Unit)

def opening (e : Nat) : sys.Task Unit := do
  match ← (openBackend e).attempt with
  | .ok _ => .ret ()
  | .error error => ask (S := sys) (.closeAndFail e error)

/-! ### Terminals -/

/-- `validate` of `forward` -/
def validate (workspace : Workspace) : sys.Task Unit := do
  let (_, workspaces) ← records options
  let closed : Bool ← ask (S := sys) .isClosed
  if closed then .fail (.message "Gateway session closed")
  else match workspaces.find? (·.metadata.name == workspace.metadata.name) with
    | none => .fail (.message "Workspace is stopped or replaced; reconnect before acting")
    | some current =>
      if current.metadata.uid ≠ workspace.metadata.uid ∨
          current.metadata.deletionTimestamp.isSome ∨ ¬ available current then
        .fail (.message "Workspace is stopped or replaced; reconnect before acting")
      else .ret ()

/-- `forward` for a terminal subscription: the reply waits its turn behind the events of
    the connection. -/
def subscribeTerminal (workspace : Workspace) : sys.Task Unit := do
  validate options workspace
  let e ← connection workspace
  validate options workspace
  validate options workspace
  let backendSlot ← askOr (S := sys) (.request e) rfl
  let _ ← (askOr (S := sys) (.acknowledge e backendSlot) rfl : sys.Task Nat)
  .ret ()

/-- A terminal frame of the client. -/
def binary (slot : Nat) : sys.Task Unit := do
  let (_, workspaces) ← records options
  let (binding, e) ← askOr (S := sys) (.inward slot) rfl
  (askOr (S := sys) (.deliver slot binding e workspaces) rfl : sys.Task Unit)

/-! ### The directory -/

/-- `fetch_workspaces_request` without filter or page. -/
def fetchWorkspaces (subscribe : Bool) : sys.Task Unit := do
  let (projects, workspaces) ← records options
  let active := unarchived workspaces
  ask (S := sys) (.watch subscribe)
  let ready := active.filter available
  ask (S := sys) (.attempts ready)
  ask (S := sys) (.allAttempted ready.length)
  let labels ← labelsMany options active
  let _ ← (askOr (S := sys) (.respond active projects labels) rfl :
    sys.Task (List WorkspaceDescriptor))
  .ret ()

/-- The loop over the connections from a position on. -/
def retireStale (active : List Workspace) : Nat → Nat → sys.Task Unit
  | 0, _ => ask (S := sys) .stuck
  | turns + 1, position => do
    match ← ask (S := sys) (.nextConnection position) with
    | none => .ret ()
    | some visit => do
      let stale : Bool ← ask (S := sys) (.examine visit active)
      if stale then do
        ask (S := sys) (.closed visit.value none)
        retireStale active turns (visit.position + 1)
      else retireStale active turns (visit.position + 1)

/-- A workspace that is available is connected before it is described. -/
def reconnect (workspace : Workspace) : sys.Task Unit :=
  if available workspace then do
    let _ ← connection workspace
    .ret ()
  else .ret ()

def projectAll (projects : List Project) (labels : List (String × List String)) :
    List Workspace → sys.Task Unit
  | [] => .ret ()
  | workspace :: rest => do
    reconnect workspace
    match projectFor workspace projects with
    | none => .fail (.message "Workspace project no longer exists")
    | some project => do
      ask (S := sys) (.project workspace project labels)
      projectAll projects labels rest

/-- The part of a pass that may throw. -/
def refresh (turns : Nat) : sys.Task Unit := do
  let (projects, workspaces) ← records options
  let active := unarchived workspaces
  retireStale active turns 0
  let watching : Bool ← ask (S := sys) .watching
  if watching then do
    let labels ← labelsMany options active
    projectAll projects labels active
    ask (S := sys) (.sweep active)
  else .ret ()

/-- The backends of these entries are closed one after the other; the first one is
    retired already. -/
def closeEach : List Nat → sys.Task Unit
  | [] => .ret ()
  | e :: rest => do
    ask (S := sys) (.closed e rest.head?)
    closeEach rest

/-- The `catch` and `finally` of a pass that threw. -/
def abandon (error : Err) : sys.Task Unit := do
  let es ← ask (S := sys) .connections
  let opened ← ask (S := sys) (.clearFailed es)
  closeEach opened
  ask (S := sys) .endRefresh
  .fail error

def refreshDirectory (turns : Nat) : sys.Task Unit := do
  let begun : Bool ← ask (S := sys) .beginRefresh
  if begun then do
    match ← (refresh options turns).attempt with
    | .ok _ => .ret ()
    | .error error => abandon error
  else .ret ()

def onWorkspaceUpdate (turns e : Nat) (runtime : WorkspaceRuntime) : sys.Task Unit := do
  let learned : Bool ← ask (S := sys) (.onWorkspaceUpdate e runtime)
  if learned then refreshDirectory options turns
  else .ret ()

/-! ### Closing -/

def releaseOne (e : Nat) : sys.Task Unit := do
  (askOr (S := sys) (.release e) rfl : sys.Task Unit)
  ask (S := sys) (.closed e none)

def releasing (parent : Tid) (e : Nat) : sys.Task Unit := do
  let _ ← (releaseOne e).attempt
  ask (S := sys) (.released parent e)

def close : sys.Task Unit := do
  let es ← ask (S := sys) .beginClose
  ask (S := sys) (.allReleased es)
  ask (S := sys) .clearAll

def attempt (parent : Tid) (i : Nat) (workspace : Workspace) : sys.Task Unit := do
  let _ ← (connection workspace).attempt
  ask (S := sys) (.attempted parent i)

def program : Call → sys.Task Unit
  | .connection workspace => do
    let _ ← connection workspace
    .ret ()
  | .fetchWorkspaces subscribe => fetchWorkspaces options subscribe
  | .subscribeTerminal workspace => subscribeTerminal options workspace
  | .binary slot => binary options slot
  | .refreshDirectory turns => refreshDirectory options turns
  | .close => close
  | .onWorkspaceUpdate turns e runtime => onWorkspaceUpdate options turns e runtime
  | .onBinary e backendSlot => do
    let _ ← (askOr (S := sys) (.onBinary e backendSlot) rfl : sys.Task (Option Nat))
    .ret ()
  | .opening e => opening e
  | .attempt parent i workspace => attempt parent i workspace
  | .releasing parent e => releasing parent e

end Sessions

/-! ### The machine -/

/-- What the environment decides of one answer. -/
inductive Choice where
  | go
  | fail (error : Err)
  | first (projects : Bool)
  | opened (runtime : WorkspaceRuntime)
  | rows (rows : List WorkspaceRuntime)
  | slot (backendSlot : Nat)

/-- What the environment does on its own. -/
inductive Env where
  | cluster (cluster : Cluster)
  | tick (now : Nat)

/-- The directory a client is to see: the workspaces visible to the principal and not
    archived, each with its descriptor. -/
def directory (options : SessionOptions) (cluster : Cluster) (m : Mem) :
    List WorkspaceDescriptor :=
  (unarchived (visibleWorkspaces options cluster.workspaces)).filterMap fun w =>
    (projectFor w (visibleProjects options cluster.projects)).map fun project =>
      workspaceDescriptor w project (m.workspaceRuntime.get w.metadata.name)
        (if options.labels then labelsFor cluster.catalog w else [])

/-- The cluster is the one the running pass began with. -/
def unchanged (m : Mem) (revision : Nat) : Bool :=
  match m.refreshing with
  | none => false
  | some (_, began) => began == revision

section Answers

variable {x : Ext} (w : World sys) (t : Tid)

/-- An answer that changes nothing. -/
def answered (res : Ext.Res x) : Answer sys x := { res, mem := w.mem t.proc, glob := w.glob }

def effect (p : Ext.Res x × Mem) (forks : List Call := []) : Answer sys x :=
  { res := p.1, mem := p.2, glob := w.glob, forks }

/-- An answer a backend or the store may refuse. -/
def orFail {α : Type} (c : Choice) (answer : α × Mem) : Option (Except Err α × Mem) :=
  match c with
  | .go => some (.ok answer.1, answer.2)
  | .fail error => some (.error error, w.mem t.proc)
  | _ => none

end Answers

/-- The forks of `connection`: the promise of an entry it started. -/
def opened : Except Err Connecting → List Call
  | .ok (.started e) => [.opening e]
  | .ok (.joined _) => []
  | .error _ => []

def answer (options : Nat → SessionOptions) (c : Choice) (t : Tid) :
    (x : Ext) → World sys → Option (Answer sys x)
  | .race, w =>
    match c with
    | .first projects => some (answered w t projects)
    | _ => none
  | .projects, w =>
    (orFail w t c ((w.glob.cluster.projects, w.glob.now), w.mem t.proc)).map fun p => effect w p
  | .workspaces, w =>
    (orFail w t c ((w.glob.cluster.workspaces, w.glob.now), w.mem t.proc)).map fun p => effect w p
  | .catalog, w => (orFail w t c (w.glob.cluster.catalog, w.mem t.proc)).map fun p => effect w p
  | .isClosed, w => some (answered w t (w.mem t.proc).closed)
  | .connect workspace, w =>
    let p := (w.mem t.proc).connect (options t.proc) workspace
    some (effect w p (opened p.1))
  | .settled e, w => ((w.mem t.proc).settled e).map fun r => answered w t r
  | .joined e workspace, w => ((w.mem t.proc).joined e workspace).map fun p => effect w p
  | .closeAndForget name e, w => some (effect w ((), (w.mem t.proc).forget name e))
  | .connected _, w =>
    match c with
    | .go =>
      if (w.mem t.proc).closed then some (answered w t (.error (.message "Client disconnected")))
      else some (answered w t (.ok ()))
    | .fail error => some (answered w t (.error error))
    | _ => none
  | .openProject e, w =>
    match c with
    | .opened runtime => some (effect w (.ok (), (w.mem t.proc).openProject e runtime))
    | .fail error => some (answered w t (.error error))
    | _ => none
  | .fetchWorkspaces e, w =>
    match c with
    | .rows rows => some (effect w (.ok (), (w.mem t.proc).fetchWorkspaces e rows))
    | .fail error => some (answered w t (.error error))
    | _ => none
  | .closeAndFail e error, w => some (effect w ((), (w.mem t.proc).openFailed e error))
  | .onWorkspaceUpdate e runtime, w => some (effect w ((w.mem t.proc).onWorkspaceUpdate e runtime))
  | .onBinary e backendSlot, w => some (effect w ((w.mem t.proc).onBinary e backendSlot))
  | .request _, w =>
    match c with
    | .slot backendSlot => some (answered w t (.ok backendSlot))
    | .fail error => some (answered w t (.error error))
    | _ => none
  | .acknowledge e backendSlot, w => some (effect w ((w.mem t.proc).issue e backendSlot))
  | .inward slot, w => some (answered w t ((w.mem t.proc).inward slot))
  | .deliver slot binding e workspaces, w =>
    ((w.mem t.proc).deliver slot binding e workspaces).map fun p => effect w p
  | .watch subscribe, w =>
    let m := w.mem t.proc
    some (effect w ((), { m with watchingWorkspaces := m.watchingWorkspaces || subscribe }))
  | .attempts workspaces, w =>
    some (effect w ((), w.mem t.proc) (workspaces.mapIdx fun i workspace => .attempt t i workspace))
  | .attempted parent i, w =>
    let m := w.mem t.proc
    some (effect w ((), { m with attempted := (parent, i) :: m.attempted }))
  | .allAttempted count, w =>
    if (List.range count).all fun i => (t, i) ∈ (w.mem t.proc).attempted then some (answered w t ())
    else none
  | .respond active projects labels, w =>
    some (effect w ((w.mem t.proc).respond active projects labels))
  | .beginRefresh, w => some (effect w ((w.mem t.proc).beginRefresh t w.glob.revision))
  | .nextConnection position, w => some (answered w t ((w.mem t.proc).connections.nextFrom position))
  | .examine visit active, w =>
    ((w.mem t.proc).examine visit.key visit.value active).map fun p => effect w p
  | .closed _ next, w => some (effect w ((), (w.mem t.proc).retireNext next))
  | .watching, w => some (effect w (w.mem t.proc).watching)
  | .project workspace project labels, w =>
    some (effect w ((), (w.mem t.proc).project workspace project labels))
  | .sweep active, w =>
    let m := w.mem t.proc
    some (effect w ((), m.sweep active (directory (options t.proc) w.glob.cluster)
      (unchanged m w.glob.revision)))
  | .connections, w => some (answered w t (w.mem t.proc).connections.values)
  | .clearFailed es, w => ((w.mem t.proc).clearFailed es).map fun p => effect w p
  | .endRefresh, w => some (effect w ((), (w.mem t.proc).endRefresh))
  | .beginClose, w =>
    let m := w.mem t.proc
    some (effect w (m.connections.values, { m with closed := true })
      (m.connections.values.map fun e => .releasing t e))
  | .release e, w => ((w.mem t.proc).release e).map fun p => effect w p
  | .released parent e, w =>
    let m := w.mem t.proc
    some (effect w ((), { m with released := (parent, e) :: m.released }))
  | .allReleased es, w =>
    if es.all fun e => (t, e) ∈ (w.mem t.proc).released then some (answered w t ()) else none
  | .clearAll, w => some (effect w ((), (w.mem t.proc).clearAll))
  | .stuck, _ => none

/-- The calls that come from a client, a backend or the clock. -/
def external : Call → Bool
  | .opening _ => false
  | .attempt _ _ _ => false
  | .releasing _ _ => false
  | _ => true

/-- The sessions of a gateway; `options` are those of each. -/
@[reducible] def machine (options : Nat → SessionOptions) : Machine sys where
  Out := Unit
  Choice := Choice
  Env := Env
  program := fun t call => program (options t.proc) call
  answer := answer options
  entry := fun _ call _ => external call
  freshMem := {}
  afterCrash := fun _ glob => glob
  env := fun e w =>
    match e with
    | .cluster cluster => some ([], { w.glob with cluster, revision := w.glob.revision + 1 })
    | .tick now => some ([], { w.glob with now })
  env_author := by
    intro e w new g h x hx
    cases e with
    | cluster c =>
      cases h
      exact absurd hx List.not_mem_nil
    | tick n =>
      cases h
      exact absurd hx List.not_mem_nil
  init := ⟨[], fun _ => {}, {}, 0, fun _ => none⟩
  init_next := rfl
  init_calls := fun _ => rfl

end PaseoGateway.Session

/-
  PaseoGateway/WorkspaceAdmission.lean
  ====================================
  **Admission of new workspaces.**

  Mirrors `src/src/controller/admission.ts`.  A call is named by its position in the order
  of arrival.  What a call asks of the store is a request that the store serves at some
  moment of its own (`snapshot`, `commit`) and that is answered later (`listed`, `reply`);
  the answer may fail whether or not the request was served, and a create that was not
  served by then may still be applied later (`late`).  Other writers change the store between
  any two steps, but they do not raise the number of running workspaces.
-/
import PaseoGateway.Domain
import PaseoGateway.StepRuns

namespace PaseoGateway.WorkspaceAdmission

/-! ### The workspaces of the namespace -/

/-- The stored workspaces; no two have one name. -/
structure Rows where
  list : List Workspace
  unique : (list.map (·.metadata.name)).Nodup

instance : DecidableEq Rows := fun a b =>
  decidable_of_iff (a.list = b.list) (by
    rcases a with ⟨l, h⟩
    rcases b with ⟨l', h'⟩
    simp)

def Rows.find (rows : Rows) (name : String) : Option Workspace :=
  rows.list.find? (·.metadata.name = name)

def replaceIn (list : List Workspace) (w : Workspace) : List Workspace :=
  list.map fun row => if row.metadata.name = w.metadata.name then w else row

theorem names_replaceIn (list : List Workspace) (w : Workspace) :
    (replaceIn list w).map (·.metadata.name) = list.map (·.metadata.name) := by
  rw [replaceIn, List.map_map]
  refine List.map_congr_left fun row _ => ?_
  by_cases h : row.metadata.name = w.metadata.name <;> simp [h]

def Rows.replace (rows : Rows) (w : Workspace) : Rows :=
  ⟨replaceIn rows.list w, (names_replaceIn rows.list w).symm ▸ rows.unique⟩

def Rows.remove (rows : Rows) (name : String) : Rows :=
  ⟨rows.list.filter (·.metadata.name != name),
    rows.unique.sublist (List.filter_sublist.map _)⟩

/-- A new workspace, where its name is free. -/
def Rows.add (rows : Rows) (w : Workspace) : Option Rows :=
  if h : w.metadata.name ∈ rows.list.map (·.metadata.name) then none
  else
    some ⟨rows.list ++ [w], by
      rw [List.map_append]
      exact rows.unique.append (List.nodup_singleton _) (by simpa using h)⟩

/-! ### One call -/

/-- Running and not deleting. -/
def runs (row : Workspace) : Bool :=
  row.spec.residency = .Running && row.metadata.deletionTimestamp.isNone

def running (rows : List Workspace) : List Workspace := rows.filter runs

def runningIn (rows : List Workspace) (project : String) : List Workspace :=
  (running rows).filter (·.spec.projectRef = project)

def namespaceCapacity : String := "Namespace running-workspace capacity reached"

def projectCapacity : String := "Project running-workspace capacity reached"

/-- The stretch between the two requests: the workspace of that name, or none where a new
    one may be created. -/
def check (namespaceLimit : Option Nat) (workspace : Workspace) (project : Project)
    (rows : List Workspace) : Except String (Option Workspace) :=
  match rows.find? (·.metadata.name = workspace.metadata.name) with
  | some existing => .ok (some existing)
  | none =>
    if namespaceLimit.any ((running rows).length ≥ ·) then .error namespaceCapacity
    else if project.maxRunningWorkspaces.any ((runningIn rows project.name).length ≥ ·) then
      .error projectCapacity
    else .ok none

/-- Where the operation of a call stands. -/
inductive Phase where
  /-- behind the tail it was chained to -/
  | queued
  | listing
  /-- the rows are read and their answer is on its way -/
  | listed (rows : List Workspace)
  | creating
  /-- the create was served and its answer is on its way -/
  | created (result : Except String Workspace)
  | settled (result : Except String Workspace)

def Phase.isCreating : Phase → Bool
  | .creating => true
  | _ => false

def Phase.isSettled : Phase → Bool
  | .settled _ => true
  | _ => false

/-- A request to the store is under way. -/
def Phase.awaits : Phase → Bool
  | .listing | .listed _ | .creating | .created _ => true
  | _ => false

/-- A call, and the operation whose `catch` was the tail when it came; none stands for the
    promise that the class begins with. -/
structure Call where
  workspace : Workspace
  project : Project
  prev : Option Nat
  phase : Phase

inductive Entry where
  /-- the operation of a call starts -/
  | begun (call : Nat)
  /-- the store creates a workspace for a call and then holds these rows -/
  | created (call : Nat) (row : Workspace) (rows : List Workspace)
  /-- the create before this entry was applied after its promise had been rejected -/
  | late (call : Nat)
  /-- another writer's removal of a workspace is complete -/
  | removed (name : String)
deriving DecidableEq, Repr

/-- The store, the UIDs it has given out, the tail, the calls, what happened so far, the
    newest first, and the calls whose create was rejected before it was served. -/
structure State where
  rows : Rows
  issued : List String
  tail : Option Nat
  calls : List Call
  log : List Entry
  abandoned : List Nat

def initial (rows : Rows) : State :=
  ⟨rows, rows.list.filterMap (·.metadata.uid), none, [], [], []⟩

inductive Event where
  | create (workspace : Workspace) (project : Project)
  | begin (call : Nat)
  | snapshot (call : Nat)
  | listed (call : Nat)
  | commit (call : Nat) (uid : String)
  | reply (call : Nat)
  /-- the request under way rejects, served or not -/
  | reject (call : Nat) (error : String)
  /-- the store applies a create whose promise was rejected -/
  | late (call : Nat) (uid : String)
  | write (row : Workspace)
  | remove (name : String)

def moveTo (calls : List Call) (call : Nat) (phase : Phase) : List Call :=
  calls.modify call fun c => { c with phase }

/-- `create` up to its return. -/
def create (s : State) (workspace : Workspace) (project : Project) : State :=
  { s with
    tail := some s.calls.length
    calls := s.calls ++ [⟨workspace, project, s.tail, .queued⟩] }

/-- The promise that a call was chained to is fulfilled, whatever the operation behind it
    came to: `catch(() => {})`. -/
def tailSettled (calls : List Call) : Option Nat → Bool
  | none => true
  | some prev => (calls[prev]?).any (·.phase.isSettled)

def begin (s : State) (call : Nat) : Option State :=
  match s.calls[call]? with
  | some ⟨_, _, prev, .queued⟩ =>
    if tailSettled s.calls prev then
      some { s with calls := moveTo s.calls call .listing, log := .begun call :: s.log }
    else none
  | _ => none

def snapshot (s : State) (call : Nat) : Option State :=
  match s.calls[call]? with
  | some ⟨_, _, _, .listing⟩ =>
    some { s with calls := moveTo s.calls call (.listed s.rows.list) }
  | _ => none

/-- The operation once the rows have arrived. -/
def listed (namespaceLimit : Option Nat) (s : State) (call : Nat) : Option State :=
  match s.calls[call]? with
  | some ⟨workspace, project, _, .listed rows⟩ =>
    match check namespaceLimit workspace project rows with
    | .error error => some { s with calls := moveTo s.calls call (.settled (.error error)) }
    | .ok (some existing) =>
      some { s with calls := moveTo s.calls call (.settled (.ok existing)) }
    | .ok none => some { s with calls := moveTo s.calls call .creating }
  | _ => none

def alreadyExists : String := "AlreadyExists"

/-- The row that the store makes of a workspace. -/
def newRow (workspace : Workspace) (uid : String) : Workspace :=
  { workspace with metadata := { workspace.metadata with
      uid := some uid, deletionTimestamp := none } }

/-- The store serves the create. -/
def commit (s : State) (call : Nat) (uid : String) : Option State :=
  match s.calls[call]? with
  | some ⟨workspace, _, _, .creating⟩ =>
    if uid ∈ s.issued then none
    else
      match s.rows.add (newRow workspace uid) with
      | some rows =>
        some { s with
          rows
          issued := uid :: s.issued
          calls := moveTo s.calls call (.created (.ok (newRow workspace uid)))
          log := .created call (newRow workspace uid) rows.list :: s.log }
      | none => some { s with calls := moveTo s.calls call (.created (.error alreadyExists)) }
  | _ => none

/-- The operation once the answer to its create has arrived. -/
def reply (s : State) (call : Nat) : Option State :=
  match s.calls[call]? with
  | some ⟨_, _, _, .created result⟩ =>
    some { s with calls := moveTo s.calls call (.settled result) }
  | _ => none

def reject (s : State) (call : Nat) (error : String) : Option State :=
  if (s.calls[call]?).any (·.phase.awaits) then
    some { s with
      calls := moveTo s.calls call (.settled (.error error))
      abandoned := if (s.calls[call]?).any (·.phase.isCreating) then call :: s.abandoned
        else s.abandoned }
  else none

/-- A create that timed out reaches the store after all, where its name is still free. -/
def late (s : State) (call : Nat) (uid : String) : Option State :=
  match s.calls[call]? with
  | some ⟨workspace, _, _, _⟩ =>
    if call ∉ s.abandoned ∨ uid ∈ s.issued then none
    else
      (s.rows.add (newRow workspace uid)).map fun rows =>
        { s with
          rows
          issued := uid :: s.issued
          log := .late call :: .created call (newRow workspace uid) rows.list :: s.log
          abandoned := s.abandoned.erase call }
  | none => none

/-- Another writer: an update keeps the UID, and neither it nor a new workspace raises the
    number of running workspaces of the namespace or of a project. -/
def write (s : State) (row : Workspace) : Option State :=
  match s.rows.find row.metadata.name with
  | some old =>
    if row.metadata.uid = old.metadata.uid ∧
        (runs row → runs old ∧ row.spec.projectRef = old.spec.projectRef) then
      some { s with rows := s.rows.replace row }
    else none
  | none =>
    if (∀ uid ∈ row.metadata.uid, uid ∉ s.issued) ∧ ¬ runs row then
      (s.rows.add row).map fun rows =>
        { s with rows, issued := row.metadata.uid.toList ++ s.issued }
    else none

def remove (s : State) (name : String) : Option State :=
  if (s.rows.find name).isSome then
    some { s with rows := s.rows.remove name, log := .removed name :: s.log }
  else none

def step (namespaceLimit : Option Nat) (s : State) : Event → Option State
  | .create workspace project => some (create s workspace project)
  | .begin call => begin s call
  | .snapshot call => snapshot s call
  | .listed call => listed namespaceLimit s call
  | .commit call uid => commit s call uid
  | .reply call => reply s call
  | .reject call error => reject s call error
  | .late call uid => late s call uid
  | .write row => write s row
  | .remove name => remove s name

end PaseoGateway.WorkspaceAdmission

/-
  PaseoGateway/HistoryTurns.lean
  ==============================
  **The turns of the history readers.**

  Mirrors `readRetainedHistory` of `src/src/kubernetes/client.ts`.  A call that is admitted
  is named by its position in the order of admission.  Its promise `turn` is settled by
  `releaseTurn`; its tail is settled once the tail before it and its turn are, which takes
  a microtask (`chain`), and a tail that is settled removes its own entry from the map
  (`cleanup`).  The code between two awaits is one step.  When a call is cancelled, when
  its deadline passes and what the requests answer is left to the schedule; between the
  creation of the Pod and the `finally` there are any number of awaits, none of which
  touches the turns.
-/
import PaseoGateway.Domain
import PaseoGateway.JsMap
import PaseoGateway.StepRuns

namespace PaseoGateway.HistoryTurns

inductive Phase where
  /-- the stretch before its first await -/
  | entering
  /-- awaits `previousTurn` -/
  | queued
  /-- awaits `readerPod` -/
  | creating
  /-- has the UID of its Pod and awaits what is asked of it -/
  | reading
  /-- awaits the deletion of its Pod, or three seconds -/
  | deleting
  | settled
deriving DecidableEq, Repr

/-- An admitted call: `prev` is the call whose tail is its `previousTurn`. -/
structure Call where
  uid : String
  prev : Option Nat
  phase : Phase
deriving DecidableEq, Repr

inductive Entry where
  /-- the call starts creating its reader Pod -/
  | create (call : Nat)
  /-- the call runs `releaseTurn` -/
  | release (call : Nat)
deriving DecidableEq, Repr

/-- The private fields of the store, the admitted calls, the tails that are settled and
    those whose reaction has run, and what happened so far. -/
structure State where
  activeHistoryReaders : Int
  historyReaderTails : Js.Map String Nat
  calls : List Call
  resolved : List Nat
  cleaned : List Nat
  log : List Entry

def initial : State := ⟨0, ⟨[], 0, List.nodup_nil⟩, [], [], [], []⟩

def completedHistoryStop (workspace : Workspace) : Bool :=
  match workspace.status with
  | none => false
  | some status =>
    status.observedGeneration == workspace.metadata.generation.getD 1 &&
      ((workspace.spec.residency == .Suspended && status.phase == .Suspended) ||
        (workspace.spec.residency == .Archived && status.phase == .Archived &&
          (status.teardownCompletedAt.filter (· != "")).isSome))

/-- The UID that a call reads for, unless the storage is unavailable. -/
def readableUid (workspace : Workspace) : Option String :=
  if workspace.metadata.deletionTimestamp.isSome || !completedHistoryStop workspace ||
      (workspace.spec.retentionPolicy.map (·.storage)) == some .Ephemeral ||
      ((workspace.status.bind (·.storageDeletedAt)).filter (· != "")).isSome then none
  else workspace.metadata.uid.filter (· != "")

def setPhase (calls : List Call) (call : Nat) (phase : Phase) : List Call :=
  calls.modify call fun c => { c with phase }

def phaseOf (calls : List Call) (call : Nat) : Option Phase := calls[call]?.map Call.phase
def prevOf (calls : List Call) (call : Nat) : Option Nat := calls[call]?.bind Call.prev
def uidOf (calls : List Call) (call : Nat) : Option String := calls[call]?.map Call.uid

def released (s : State) (call : Nat) : Bool := s.log.contains (.release call)

/-- `releaseTurn(); this.activeHistoryReaders--`.  Without a previous turn the tail is the
    turn itself. -/
def release (s : State) (call : Nat) : State :=
  { s with
    activeHistoryReaders := s.activeHistoryReaders - 1
    calls := setPhase s.calls call .settled
    resolved := if (prevOf s.calls call).isNone then s.resolved ++ [call] else s.resolved
    log := s.log ++ [.release call] }

/-- The call of `readerPod`. -/
def startCreating (s : State) (call : Nat) : State :=
  { s with
    calls := setPhase s.calls call .creating
    log := s.log ++ [.create call] }

/-- Capacity, turn and tail. -/
def admitCall (s : State) (uid : String) : State :=
  { s with
    activeHistoryReaders := s.activeHistoryReaders + 1
    historyReaderTails := s.historyReaderTails.set uid s.calls.length
    calls := s.calls ++ [⟨uid, s.historyReaderTails.get uid, .entering⟩] }

/-- The call up to its first await; `stopped` says whether `check` throws. -/
def readRetainedHistory (s : State) (workspace : Workspace) (stopped : Bool) : State :=
  match readableUid workspace with
  | none => s
  | some uid =>
    if s.activeHistoryReaders ≥ 4 then s
    else
      let call := s.calls.length
      let admitted := admitCall s uid
      if stopped then release admitted call
      else match s.historyReaderTails.get uid with
        | some _ => { admitted with calls := setPhase admitted.calls call .queued }
        | none => startCreating admitted call

/-- `previousTurn` is settled. -/
def resume (s : State) (call : Nat) (stopped : Bool) : Option State :=
  match phaseOf s.calls call, prevOf s.calls call with
  | some .queued, some prev =>
    if prev ∈ s.resolved then
      some (if stopped then release s call else startCreating s call)
    else none
  | _, _ => none

/-- The deadline, or a cancellation, wins the race with what the call awaits. -/
def stop (s : State) (call : Nat) : Option State :=
  match phaseOf s.calls call with
  | some .queued | some .creating => some (release s call)
  | some .reading => some { s with calls := setPhase s.calls call .deleting }
  | _ => none

/-- `readerPod` settles: it fails, or its Pod has a UID or none. -/
def created (s : State) (call : Nat) (readerUid : Option String) (stopped : Bool) : Option State :=
  if phaseOf s.calls call = some .creating then
    if readerUid.isSome && !stopped then
      some { s with calls := setPhase s.calls call .reading }
    else some (release s call)
  else none

/-- The body returns or throws once it has its Pod. -/
def finishBody (s : State) (call : Nat) : Option State :=
  if phaseOf s.calls call = some .reading then
    some { s with calls := setPhase s.calls call .deleting }
  else none

def deleted (s : State) (call : Nat) : Option State :=
  if phaseOf s.calls call = some .deleting then some (release s call) else none

/-- The tail of a call behind another: both the tail before it and its turn are settled. -/
def chain (s : State) (call : Nat) : Option State :=
  match prevOf s.calls call with
  | some prev =>
    if prev ∈ s.resolved ∧ released s call = true ∧ call ∉ s.resolved then
      some { s with resolved := s.resolved ++ [call] }
    else none
  | none => none

/-- `if (this.historyReaderTails.get(uid) === tail) this.historyReaderTails.delete(uid)` -/
def cleanup (s : State) (call : Nat) : Option State :=
  match uidOf s.calls call with
  | some uid =>
    if call ∈ s.resolved ∧ call ∉ s.cleaned then
      some { s with
        historyReaderTails :=
          if s.historyReaderTails.get uid = some call then s.historyReaderTails.delete uid
          else s.historyReaderTails
        cleaned := s.cleaned ++ [call] }
    else none
  | none => none

inductive Event where
  | call (workspace : Workspace) (stopped : Bool)
  | resume (call : Nat) (stopped : Bool)
  | stop (call : Nat)
  | created (call : Nat) (readerUid : Option String) (stopped : Bool)
  | finishBody (call : Nat)
  | deleted (call : Nat)
  | chain (call : Nat)
  | cleanup (call : Nat)
deriving DecidableEq, Repr

def step (s : State) : Event → Option State
  | .call workspace stopped => some (readRetainedHistory s workspace stopped)
  | .resume call stopped => resume s call stopped
  | .stop call => stop s call
  | .created call readerUid stopped => created s call readerUid stopped
  | .finishBody call => finishBody s call
  | .deleted call => deleted s call
  | .chain call => chain s call
  | .cleanup call => cleanup s call

end PaseoGateway.HistoryTurns

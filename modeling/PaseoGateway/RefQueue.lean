/-
  PaseoGateway/RefQueue.lean
  ==========================
  **The queue in front of the ref inspections.**

  Mirrors `ProjectRefInspector.query` of `src/src/gateway/project-refs.ts`.  A call is
  named by its position in the order of arrival.  The code runs without interruption
  between two awaits, so a step is one such stretch: the call up to its first await, a
  timer that fires, the stretch after the queue once the promise of a waiter is settled,
  the `finally` after a run.  What `run` itself does is left to the schedule, which says
  when it settles.
-/
import PaseoGateway.JsString
import PaseoGateway.StepRuns

namespace PaseoGateway.RefQueue

def MAX_ACTIVE : Int := 2
def MAX_WAITING : Int := 16

inductive ProjectRefQuery where
  | suggest (query : Option String) (limit : Nat)
  | validate (branchName : String)
deriving DecidableEq, Repr

/-- The length checks that come before the queue. -/
def refusal : ProjectRefQuery → Option String
  | .suggest query _ =>
    if (query.map Js.length).getD 0 > 200 then
      some "Project ref query exceeds its length limit"
    else none
  | .validate branchName =>
    if Js.length branchName > 200 then some "Project branch name exceeds its length limit"
    else none

def busy : String := "Project ref inspection is busy; retry shortly"

/-- Where a call stands. -/
inductive Phase where
  /-- its `accept` is among the waiters and its timer is set -/
  | waiting
  /-- it was handed a permit and resumes in a later microtask -/
  | accepted
  /-- its timer has fired and it resumes in a later microtask -/
  | expired
  | running
  | refused (error : String)
  | timedOut (error : String)
  | finished
deriving DecidableEq, Repr

def Phase.Settled : Phase → Prop
  | .refused _ | .timedOut _ | .finished => True
  | _ => False

/-- The private fields of the class; a waiter is the call that `accept` belongs to. -/
structure Inspector where
  active : Int
  waiting : Int
  waiters : List Nat
deriving DecidableEq, Repr

/-- The inspector, the timers that are set, the calls, and those served from the queue so
    far. -/
structure State where
  inspector : Inspector
  timers : List Nat
  calls : List Phase
  served : List Nat
deriving DecidableEq, Repr

def initial : State := ⟨⟨0, 0, []⟩, [], [], []⟩

/-- `splice(index, 1)`, where the index of what is not there is `-1`. -/
def splice (waiters : List Nat) (call : Nat) : List Nat :=
  match waiters.idxOf? call with
  | some index => waiters.eraseIdx index
  | none => waiters.dropLast

inductive Event where
  | query (input : ProjectRefQuery)
  | timeout (call : Nat)
  /-- the stretch after the queue -/
  | resume (call : Nat)
  /-- the run of a call settles -/
  | settle (call : Nat)
deriving DecidableEq, Repr

/-- The call up to its first await. -/
def query (s : State) (input : ProjectRefQuery) : State :=
  match refusal input with
  | some error => { s with calls := s.calls ++ [.refused error] }
  | none =>
    if s.inspector.active ≥ MAX_ACTIVE then
      if s.inspector.waiting ≥ MAX_WAITING then { s with calls := s.calls ++ [.refused busy] }
      else
        { s with
          inspector := { s.inspector with
            waiting := s.inspector.waiting + 1
            waiters := s.inspector.waiters ++ [s.calls.length] }
          timers := s.timers ++ [s.calls.length]
          calls := s.calls ++ [.waiting] }
    else
      { s with
        inspector := { s.inspector with active := s.inspector.active + 1 }
        calls := s.calls ++ [.running] }

/-- A promise that is pending is settled; settling it again does nothing. -/
def settlePromise (calls : List Phase) (call : Nat) (phase : Phase) : List Phase :=
  if calls[call]? = some .waiting then calls.set call phase else calls

def timeout (s : State) (call : Nat) : Option State :=
  if call ∈ s.timers then
    some { s with
      inspector := { s.inspector with waiters := splice s.inspector.waiters call }
      timers := s.timers.erase call
      calls := settlePromise s.calls call .expired }
  else none

def resume (s : State) (call : Nat) : Option State :=
  let inspector := { s.inspector with waiting := s.inspector.waiting - 1 }
  if s.calls[call]? = some .accepted then
    some { s with inspector, calls := s.calls.set call .running }
  else if s.calls[call]? = some .expired then
    some { s with inspector, calls := s.calls.set call (.timedOut busy) }
  else none

/-- `accept` of a waiter -/
def accept (s : State) (next : Nat) : State :=
  { s with
    timers := s.timers.erase next
    calls := settlePromise s.calls next .accepted
    served := s.served ++ [next] }

/-- The `finally` after the run. -/
def settle (s : State) (call : Nat) : Option State :=
  if s.calls[call]? = some .running then
    let s := { s with calls := s.calls.set call .finished }
    match s.inspector.waiters with
    | next :: rest =>
      some (accept { s with inspector := { s.inspector with waiters := rest } } next)
    | [] => some { s with inspector := { s.inspector with active := s.inspector.active - 1 } }
  else none

def step (s : State) : Event → Option State
  | .query input => some (query s input)
  | .timeout call => timeout s call
  | .resume call => resume s call
  | .settle call => settle s call

end PaseoGateway.RefQueue

/-
  PaseoGateway/BackendRequests.lean
  =================================
  **Requests in flight on the connection to a workspace.**

  Mirrors `request`, `rejectPending`, `close` and the transport callbacks of
  `src/src/gateway/backend.ts`.  Each callback runs to its end, so each is a step; what the
  transport does with a frame that is sent, and when timers fire, is left to the schedule.
  Requests are numbered in the order in which they are accepted, and every call of
  `resolve` or `reject` is recorded, also one that would come too late to count.
-/
import PaseoGateway.JsMap
import PaseoGateway.StepRuns

namespace PaseoGateway.BackendRequests

/-- A message to the daemon, as far as `request` reads it. -/
structure SessionInboundMessage where
  type : String
  requestId : Option String
  timeoutMs : Option Int
deriving DecidableEq, Repr

/-- A message from the daemon: `requestId` is the one of its payload where that is a
    string, and `error` the one of an `rpc_error`. -/
structure SessionOutboundMessage where
  type : String
  requestId : Option String
  error : String
deriving DecidableEq, Repr

/-- With what the promise of a request settles. -/
inductive Outcome where
  | reply (message : SessionOutboundMessage)
  | rpcError (message : SessionOutboundMessage)
  | timedOut
  | lost
  /-- the frame was not sent -/
  | unsent (error : String)
deriving DecidableEq, Repr

def timedOutText : String :=
  "Workspace response lost or timed out; outcome may be unknown. Inspect before retrying."

def lostText : String :=
  "Workspace connection lost; outcome may be unknown. Inspect before retrying."

def disconnectedText : String := "Workspace disconnected; inspect before retrying a mutation"

/-- The error that a promise is rejected with. -/
def Outcome.error : Outcome → Option String
  | .reply _ => none
  | .rpcError message => some message.error
  | .timedOut => some timedOutText
  | .lost => some lostText
  | .unsent error => some error

/-- An entry of `pending`: the request whose promise it settles, and its deadline. -/
structure Waiter where
  request : Nat
  deadline : Option Int
deriving DecidableEq, Repr

/-- The backend: whether `this.transport` is set, `pending`, the timers that are set; then
    the ids of the requests accepted so far, what was settled, and where each session
    message went, a waiter or `onMessage`. -/
structure State where
  connected : Bool
  pending : Js.Map String Waiter
  timers : List Nat
  ids : List String
  settled : List (Nat × Outcome)
  delivered : List (SessionOutboundMessage × Option Nat)

def initial : State := ⟨false, ⟨[], 0, List.nodup_nil⟩, [], [], [], []⟩

def DEFAULT_TIMEOUT_MS : Int := 55000

/-- A long poll has a deadline of its own, or none. -/
def deadlineOf (message : SessionInboundMessage) : Option Int :=
  if message.type == "wait_for_finish_request" then
    (message.timeoutMs.filter (· > 0)).map fun timeoutMs => min (timeoutMs + 5000) (2 ^ 31 - 1)
  else some DEFAULT_TIMEOUT_MS

/-- `send`, where `failure` is what the transport throws. -/
def send (s : State) (failure : Option String) : Except String Unit :=
  if s.connected then
    match failure with
    | some error => .error error
    | none => .ok ()
  else .error disconnectedText

def request (s : State) (message : SessionInboundMessage) (failure : Option String) :
    Except String State :=
  match message.requestId with
  | none => .error "Correlated request required"
  | some requestId =>
    if (s.pending.get requestId).isSome then .error "Duplicate in-flight request ID"
    else
      let number := s.ids.length
      let deadline := deadlineOf message
      let s := { s with
        pending := s.pending.set requestId ⟨number, deadline⟩
        timers := if deadline.isSome then s.timers ++ [number] else s.timers
        ids := s.ids ++ [requestId] }
      match send s failure with
      | .ok () => .ok s
      | .error error =>
        .ok { s with
          timers := s.timers.erase number
          pending := s.pending.delete requestId
          settled := s.settled ++ [(number, .unsent error)] }

/-- The callback of a request's timer. -/
def expire (s : State) (number : Nat) (requestId : String) : State :=
  { s with
    timers := s.timers.erase number
    pending := s.pending.delete requestId
    settled := s.settled ++ [(number, .timedOut)] }

def answer (message : SessionOutboundMessage) : Outcome :=
  if message.type == "rpc_error" then .rpcError message else .reply message

/-- A session message that was parsed; the empty id is falsy. -/
def receive (s : State) (message : SessionOutboundMessage) : State :=
  match message.requestId with
  | none => { s with delivered := s.delivered ++ [(message, none)] }
  | some id =>
    match (if id == "" then none else s.pending.get id) with
    | some waiter =>
      { s with
        timers := s.timers.erase waiter.request
        pending := s.pending.delete id
        settled := s.settled ++ [(waiter.request, answer message)]
        delivered := s.delivered ++ [(message, some waiter.request)] }
    | none => { s with delivered := s.delivered ++ [(message, none)] }

def rejectPending (s : State) : State :=
  { s with
    timers := s.timers.filter fun number => number ∉ s.pending.values.map Waiter.request
    pending := s.pending.clear
    settled := s.settled ++ s.pending.values.map fun waiter => (waiter.request, .lost) }

inductive Event where
  /-- `transportFactory` is called -/
  | connect
  | request (message : SessionInboundMessage) (failure : Option String)
  | timer (number : Nat)
  /-- a frame that holds a session message -/
  | message (message : SessionOutboundMessage)
  /-- a binary frame, one that is not parsed, or a message of another type -/
  | otherFrame
  /-- the transport has closed -/
  | disconnect
  /-- `close` up to its first await -/
  | close
deriving DecidableEq, Repr

def step (s : State) : Event → Option State
  | .connect => some { s with connected := true }
  | .request message failure =>
    match request s message failure with
    | .ok s => some s
    | .error _ => some s
  | .timer number =>
    if number ∈ s.timers then (s.ids[number]?).map (expire s number) else none
  | .message message => some (receive s message)
  | .otherFrame => some s
  | .disconnect => some (rejectPending { s with connected := false })
  | .close => some (rejectPending s)

end PaseoGateway.BackendRequests

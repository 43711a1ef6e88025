/-
  PaseoGateway/ScheduleObservation.lean
  =====================================
  **How a scheduled run is observed.**

  Mirrors `observeSchedule` of `src/src/gateway/workspace-operations.ts`.

  The daemon of the workspace is a state that is asked through `Backend`; what it
  answers is its own.  What archiving the workspace comes to is given.
-/
import PaseoGateway.Domain

namespace PaseoGateway.ScheduleObservation

/-! ### What the daemon answers -/

inductive Item where
  | user_message (messageId : Option String)
  | assistant_message
  | other
deriving DecidableEq, Repr

structure TimelineEntry where
  item : Item
  seqStart : Nat
  seqEnd : Nat
  turnId : Option String := none
deriving DecidableEq, Repr

structure Cursor where
  epoch : String
  seq : Nat
deriving DecidableEq, Repr

/-- The payload of `fetch_agent_timeline_response`. -/
structure TimelinePage where
  entries : List TimelineEntry
  hasOlder : Bool
  startCursor : Option Cursor
  error : Option String := none
deriving Repr

inductive WaitStatus where
  | timeout
  | idle
  /-- any other status, by its name -/
  | ended (name : String)
deriving DecidableEq, Repr

def WaitStatus.name : WaitStatus → String
  | .timeout => "timeout"
  | .idle => "idle"
  | .ended name => name

/-- The payload of `wait_for_finish_response`: it describes the latest turn. -/
structure WaitReply where
  status : WaitStatus
  lastMessage : Option String := none
  error : Option String := none
  lastError : Option String := none
deriving DecidableEq, Repr

/-- What a daemon in a state `b` answers; an error is thrown. -/
structure Backend (B : Type) where
  connect : B → Except String Unit
  wait_for_finish : B → Except String WaitReply
  fetch_agent_timeline : B → Option Cursor → Except String TimelinePage
  close : B → Except String Unit

/-! ### The run -/

structure ScheduleRun where
  id : String
  workspaceId : Option String
  agentId : Option String
deriving DecidableEq, Repr

structure Input where
  run : ScheduleRun
  archiveOnFinish : Option Bool := none
  targetWorkspaceUid : Option String := none

inductive OutcomeStatus where
  | succeeded
  | failed
deriving DecidableEq, Repr

structure ScheduleOutcome where
  status : OutcomeStatus
  output : Option String := none
  error : Option String := none
deriving DecidableEq, Repr

/-- A value that is there and not the empty string. -/
def given (value : Option String) : Option String := value.filter (· ≠ "")

/-! ### The timeline of an existing agent -/

def isUser (entry : TimelineEntry) : Bool :=
  match entry.item with
  | .user_message _ => true
  | _ => false

def isPrompt (runId : String) (entry : TimelineEntry) : Bool :=
  entry.item == .user_message (some runId)

def isAssistant (entry : TimelineEntry) : Bool := entry.item == .assistant_message

section Observe

variable {B : Type} (backend : Backend B) (b : B)

/-- The pages of the timeline from the newest on, at most as many as are given, and
    whether the prompt is among them. -/
def readTimeline (runId : String) :
    Nat → Option Cursor → List TimelineEntry → Except String (List TimelineEntry × Bool)
  | 0, _, entries => .ok (entries, false)
  | pages + 1, cursor, entries => do
    let timeline ← backend.fetch_agent_timeline b cursor
    if (given timeline.error).isSome then .error "Scheduled target timeline is unavailable"
    else
      let entries := entries ++ timeline.entries
      let found := entries.any (isPrompt runId)
      if found || !timeline.hasOlder || timeline.startCursor.isNone then .ok (entries, found)
      else readTimeline runId pages timeline.startCursor entries

/-- The entry is a later message of a user. -/
def laterUser (prompt entry : TimelineEntry) : Bool :=
  decide (prompt.seqEnd < entry.seqStart) && isUser entry

def nextUser (entries : List TimelineEntry) (prompt : TimelineEntry) : Option TimelineEntry :=
  ((entries.filter (laterUser prompt)).insertionSort fun a b => a.seqStart ≤ b.seqStart).head?

/-- The prompt's turn is the one the entry belongs to. -/
def ofTurn (prompt entry : TimelineEntry) : Bool :=
  (given prompt.turnId).isNone || entry.turnId == prompt.turnId

def completed (entries : List TimelineEntry) (prompt : TimelineEntry) : Bool :=
  entries.any fun entry =>
    decide (prompt.seqEnd < entry.seqStart) &&
      ((nextUser entries prompt).all fun next => decide (entry.seqStart < next.seqStart)) &&
      isAssistant entry && ofTurn prompt entry

/-- Whether the turn of the prompt may be judged by how the agent has ended. -/
def turnEnded (runId : String) (status : WaitStatus) : Except String Bool := do
  let (entries, found) ← readTimeline backend b runId 10 none []
  if !found then .ok false
  else
    match entries.find? (isPrompt runId) with
    | none => .ok false
    | some prompt => .ok (!(status == .idle && !completed entries prompt))

/-! ### The observation -/

/-- The outcome of an agent that has ended. -/
def outcomeOf (reply : WaitReply) : ScheduleOutcome :=
  if reply.status = .idle then { status := .succeeded, output := reply.lastMessage }
  else
    { status := .failed
      error := some
        ((reply.error.or reply.lastError).getD ("Agent ended with " ++ reply.status.name)) }

/-- The part of the observation that talks to the daemon. -/
def observeBackend (archive : Except String Unit) (input : Input) :
    Except String (Option ScheduleOutcome) := do
  let reply ← backend.wait_for_finish b
  if reply.status = .timeout then .ok none
  else
    match given input.targetWorkspaceUid with
    | some _ => do
      let ended ← turnEnded backend b input.run.id reply.status
      if ended then .ok (some (outcomeOf reply)) else .ok none
    | none =>
      if input.archiveOnFinish ≠ some false then
        match archive with
        | .ok _ => .ok (some (outcomeOf reply))
        | .error message => .ok (some
            { status := .failed
              error := some ("Agent completed but workspace teardown failed; " ++
                "compute and storage retained: " ++ message) })
      else .ok (some (outcomeOf reply))

/-- `finally { await backend.close(); }` -/
def closing {α : Type} (result : Except String α) : Except String α :=
  match backend.close b with
  | .ok _ => result
  | .error message => .error message

def observeSchedule (workspaces : List Workspace) (archive : Except String Unit) (input : Input) :
    Except String (Option ScheduleOutcome) := do
  match given input.run.workspaceId, given input.run.agentId with
  | some workspaceId, some _ =>
    let workspace := workspaces.find? fun row => row.metadata.name == workspaceId
    if (given input.targetWorkspaceUid).isSome ∧
        workspace.bind (·.metadata.uid) ≠ given input.targetWorkspaceUid then
      .ok (some { status := .failed, error := some "Scheduled target workspace was replaced" })
    else
      match workspace with
      | none => .ok (some { status := .failed, error := some "Workspace disappeared" })
      | some workspace =>
        match workspace.status with
        | some status =>
          if status.phase = .Failed then
            .ok (some { status := .failed, error := some status.message })
          else if status.phase = .Ready then do
            backend.connect b
            closing backend b (observeBackend backend b archive input)
          else .ok none
        | none => .ok none
  | _, _ => .ok none

end Observe

/-- What is recorded of an observation: nothing where it throws or has no outcome. -/
def recorded (result : Except String (Option ScheduleOutcome)) :
    Option (OutcomeStatus × Option String) :=
  match result with
  | .ok (some outcome) => some (outcome.status, outcome.output)
  | _ => none

end PaseoGateway.ScheduleObservation

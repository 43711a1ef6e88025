/-
  PaseoGateway/TranscriptCapture.lean
  ===================================
  **The capture of the transcripts of a workspace.**

  Mirrors `captureRetainedHistory` and `withinCaptureDeadline` of
  `src/src/gateway/retained-history.ts`.

  What the daemon answers is open; the timer that gives a request up is one of its
  errors.  The sizes of JSON texts are parameters.  Both loops run as long as the daemon
  lets them: they are given a number of turns each, and wait for ever after that.
-/
import PaseoGateway.AsyncRuns
import PaseoGateway.Domain
import PaseoGateway.JsMap
import PaseoGateway.RetainedTranscript

namespace PaseoGateway.RetainedTranscript

open Async

def MAX_AGENTS : Nat := 100
def MAX_AGENT_BYTES : Nat := 2 * 1024 * 1024
def MAX_SNAPSHOT_BYTES : Nat := 8 * 1024 * 1024
def PAGE_SIZE : Int := 50
def MAX_ENTRIES : Nat := 1000
def CAPTURE_TIMEOUT_MS : Int := 60000

/-! ### The daemon -/

inductive AgentsReply where
  /-- the ids of the agents, and the page info -/
  | response (agentIds : List String) (hasMore : Bool) (nextCursor : Option String)
  | other

inductive TimelineReply where
  | response (payload : TimelinePayload)
  | other

inductive Req where
  /-- `Date.now()` -/
  | now
  /-- `new Date().toISOString()` -/
  | date
  | randomUUID
  /-- `fetch_agents_request`, archived ones included, 100 a page -/
  | agents (requestId : String) (cursor : Option String)
  | timeline (request : TimelineRequest)
  /-- Never answered. -/
  | stuck

@[reducible] def Req.Res : Req → Type
  | .now => Int
  | .date => String
  | .randomUUID => String
  | .agents _ _ => Except String AgentsReply
  | .timeline _ => Except String TimelineReply
  | .stuck => Empty

@[reducible] def iface : Iface := ⟨Req, Req.Res⟩

abbrev Task (α : Type) : Type := Prog iface String α

abbrev Log : Type := List (Event iface)

def now : Task Int := .call .now .ret

def date : Task String := .call .date .ret

def randomUUID : Task String := .call .randomUUID .ret

def orThrow {α : Type} : Except String α → Task α
  | .ok a => .ret a
  | .error e => .fail e

def stuck {α : Type} : Task α := .call .stuck Empty.elim

/-- The request is made only before the deadline. -/
def withinCaptureDeadline {α : Type} (run : Task α) (deadline : Int) : Task α := do
  let time ← now
  if deadline - time ≤ 0 then .fail "Retained history capture deadline exceeded" else run

/-! ### The snapshot -/

structure Snapshot where
  workspaceId : String
  workspaceUid : String
  workspaceGeneration : Nat
  capturedAt : String
  agents : Js.Map String AgentHistory

/-- `Buffer.byteLength(JSON.stringify(…))` of what is measured. -/
structure Sizes where
  entries : List TimelineEntry → Nat
  agents : Js.Map String AgentHistory → Nat
  snapshot : Snapshot → Nat

/-! ### One agent -/

/-- What the loop over the pages of an agent comes to. -/
inductive Read where
  /-- nothing was read, and whether the deadline has passed -/
  | nothing (budgetExhausted : Bool)
  | history (history : AgentHistory)

section Agent

variable (sizes : Sizes) (deadline : Int) (agentId : String) (agentsEmpty : Bool)

def timelineRequest (requestId : String) (before : Option Cursor) : TimelineRequest where
  requestId := requestId
  agentId := agentId
  direction := some (if before.isSome then .before else .tail)
  cursor := before
  projection := some .projected
  limit := some PAGE_SIZE

def fetchTimeline (before : Option Cursor) : Task TimelinePayload := do
  let reply ← withinCaptureDeadline (do
    let requestId ← randomUUID
    .call (.timeline (timelineRequest agentId requestId before)) orThrow) deadline
  match reply with
  | .other => .fail "Native retained history fetch failed"
  | .response payload =>
    if (payload.error.filter (· ≠ "")).isSome then .fail "Native retained history fetch failed"
    else .ret payload

/-- `${page.startCursor.epoch}:${page.startCursor.seq}` -/
def marker (cursor : Cursor) : String := cursor.epoch ++ ":" ++ toString cursor.seq

/-- What is kept of an agent; the epoch and the window are those of the first page. -/
def kept (first : TimelinePayload) (entries : List TimelineEntry) (truncated : Bool) : Task Read :=
  .ret (.history ⟨first.epoch, first.window, entries, truncated⟩)

/-- Where a page leaves the loop. -/
inductive Next where
  | stop (entries : List TimelineEntry) (truncated : Bool)
  | older (entries : List TimelineEntry) (cursor : Cursor)

/-- The end of a turn whose fetch gave a page. -/
def afterPage (baseline page : TimelinePayload) (entries : List TimelineEntry)
    (seenPages : List String) : Next :=
  if baseline.epoch ≠ page.epoch ∨ baseline.window.nextSeq ≠ page.window.nextSeq then
    .stop baseline.entries true
  else
    let longer := page.entries ++ entries
    if MAX_AGENT_BYTES < sizes.entries longer ∨ MAX_ENTRIES < longer.length then
      .stop entries true
    else if !page.hasOlder then .stop longer false
    else
      match page.startCursor with
      | none => .stop longer true
      | some cursor =>
        if page.entries.isEmpty then .stop longer true
        else if seenPages.contains (marker cursor) then .stop baseline.entries true
        else .older longer cursor

/-- The pages of an agent, from the newest on. -/
def readPages : Nat → Option TimelinePayload → List TimelineEntry → Option Cursor → List String →
    Task Read
  | 0, _, _, _, _ => stuck
  | turns + 1, first, entries, before, seenPages => do
    match ← (fetchTimeline deadline agentId before).attempt with
    | .error e =>
      match first with
      | none =>
        if agentsEmpty then .fail e
        else do
          let time ← now
          .ret (.nothing (deadline ≤ time))
      | some first => kept first first.entries true
    | .ok page =>
      let baseline := first.getD page
      match afterPage sizes baseline page entries seenPages with
      | .stop entries truncated => kept baseline entries truncated
      | .older longer cursor =>
        readPages turns (some baseline) longer (some cursor) (marker cursor :: seenPages)

end Agent

/-! ### All agents -/

structure Progress where
  agents : Js.Map String AgentHistory := {}
  count : Nat := 0
  budgetExhausted : Bool := false

section Capture

variable (sizes : Sizes) (pages : Nat) (deadline : Int)

/-- The agents of one page of the list. -/
def captureAgents (progress : Progress) : List String → Task Progress
  | [] => .ret progress
  | agentId :: rest =>
    let counted := { progress with count := progress.count + 1 }
    if MAX_AGENTS < counted.count then .ret { counted with budgetExhausted := true }
    else do
      match ← readPages sizes deadline agentId progress.agents.cells.isEmpty pages none [] none []
        with
      | .nothing budgetExhausted =>
        if budgetExhausted then .ret { counted with budgetExhausted := true }
        else captureAgents counted rest
      | .history history =>
        let agents := progress.agents.set agentId history
        if MAX_SNAPSHOT_BYTES - 65536 < sizes.agents agents then
          .ret { counted with agents := agents.delete agentId, budgetExhausted := true }
        else captureAgents { counted with agents := agents } rest

def listAgents (cursor : Option String) : Task AgentsReply :=
  withinCaptureDeadline (do
    let requestId ← randomUUID
    .call (.agents requestId cursor) orThrow) deadline

/-- The pages of the agent list. -/
def captureLists : Nat → Option String → List String → Progress → Task Progress
  | 0, _, _, _ => stuck
  | turns + 1, cursor, seenCursors, progress => do
    match ← (listAgents deadline cursor).attempt with
    | .error e => if 0 < progress.count then .ret progress else .fail e
    | .ok .other => .fail "Unexpected retained history agent list"
    | .ok (.response agentIds hasMore nextCursor) => do
      let progress ← captureAgents sizes pages deadline progress agentIds
      if progress.budgetExhausted then .ret progress
      else
        match (if hasMore then nextCursor else none).filter (· ≠ "") with
        | none => .ret progress
        | some next =>
          if seenCursors.contains next then .fail "Agent list repeated a cursor"
          else captureLists turns (some next) (next :: seenCursors) progress

end Capture

/-- No provider process is started here: read from the already-running native daemon. -/
def captureRetainedHistory (sizes : Sizes) (lists pages : Nat) (workspace : Workspace)
    (expectedGeneration : Option Nat) : Task Snapshot :=
  match workspace.metadata.uid.filter (· ≠ "") with
  | none => .fail "Workspace UID required for retained history"
  | some uid => do
    let time ← now
    let progress ← captureLists sizes pages (time + CAPTURE_TIMEOUT_MS) lists none [] {}
    let capturedAt ← date
    let snapshot : Snapshot := {
      workspaceId := workspace.metadata.name
      workspaceUid := uid
      workspaceGeneration := expectedGeneration.getD (workspace.metadata.generation.getD 1)
      capturedAt := capturedAt
      agents := progress.agents }
    if MAX_SNAPSHOT_BYTES < sizes.snapshot snapshot then
      .fail "Retained history workspace snapshot exceeds budget"
    else .ret snapshot

end PaseoGateway.RetainedTranscript

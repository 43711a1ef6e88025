/-
  PaseoGateway/RetainedTranscript.lean
  ====================================
  **Transcripts of stopped workspaces.**

  Mirrors `retainedHistoryPage` of `src/src/gateway/retained-history.ts` and the records
  it reads.  The schemas of the protocol package return what they are given here, and
  are left out.  Sequence numbers are integers.
-/
import Mathlib
import PaseoGateway.Json

namespace PaseoGateway.RetainedTranscript

/-! ### Records -/

structure Cursor where
  epoch : String
  seq : Int
deriving DecidableEq, Repr

/-- The window a daemon reports with a page. -/
structure Window where
  minSeq : Int
  maxSeq : Int
  nextSeq : Int
deriving DecidableEq, Repr

structure TimelineEntry where
  seqStart : Int
  seqEnd : Int
  item : Json

/-- `RetainedAgentHistorySchema` -/
structure AgentHistory where
  epoch : String
  window : Window
  entries : List TimelineEntry
  truncated : Bool

inductive Direction where
  | tail
  | before
  | after
deriving DecidableEq, Repr

inductive Projection where
  | canonical
  | projected
deriving DecidableEq, Repr

/-- `fetch_agent_timeline_request` -/
structure TimelineRequest where
  requestId : String
  agentId : String
  direction : Option Direction := none
  projection : Option Projection := none
  cursor : Option Cursor := none
  limit : Option Int := none
deriving DecidableEq, Repr

/-- The payload of `fetch_agent_timeline_response`. -/
structure TimelinePayload where
  requestId : String
  agentId : String
  agent : Json
  direction : Direction
  projection : Projection
  epoch : String
  reset : Bool
  staleCursor : Bool
  gap : Bool
  window : Window
  startCursor : Option Cursor
  endCursor : Option Cursor
  hasOlder : Bool
  hasNewer : Bool
  entries : List TimelineEntry
  error : Option String

/-! ### `retainedHistoryPage` -/

section Page

variable (request : TimelineRequest) (history : Option AgentHistory)

def pageError : Option String :=
  match history with
  | none => some "Workspace is stopped; transcript is unavailable because no retained snapshot exists for this agent"
  | some history =>
    if request.projection.getD .projected ≠ .projected then
      some "Canonical transcript projection is unavailable while compute is stopped"
    else if history.truncated && history.entries.isEmpty && decide (0 < history.window.maxSeq) then
      some "Retained transcript exceeded its per-agent budget; no complete page was stored"
    else none

def rowsOf : List TimelineEntry := history.elim [] AgentHistory.entries

def windowOf : Window := history.elim ⟨0, 0, 0⟩ AgentHistory.window

def epochOf : String := history.elim "" AgentHistory.epoch

def isTruncated : Bool := history.any AgentHistory.truncated

/-- `rows[0]?.seqStart ?? window.minSeq` -/
def minSaved : Int :=
  ((rowsOf history).head?.map TimelineEntry.seqStart).getD (windowOf history).minSeq

/-- `rows.at(-1)?.seqEnd ?? window.maxSeq` -/
def maxSaved : Int :=
  ((rowsOf history).getLast?.map TimelineEntry.seqEnd).getD (windowOf history).maxSeq

def staleCursor : Bool := request.cursor.any fun cursor => cursor.epoch ≠ epochOf history

def afterGap : Bool :=
  request.direction.getD .tail = .after && !staleCursor request history && isTruncated history &&
    request.cursor.any fun cursor => cursor.seq < minSaved history - 1

/-- `request.limit && request.limit > 0 ? Math.min(request.limit, 200) : 200` -/
def pageLimit : Nat :=
  match request.limit with
  | none => 200
  | some limit => if 0 < limit then (min limit 200).toNat else 200

def effectiveDirection : Direction :=
  if staleCursor request history || afterGap request history then .tail
  else request.direction.getD .tail

def selected : List TimelineEntry :=
  match effectiveDirection request history with
  | .tail => (rowsOf history).rtake (pageLimit request)
  | .before =>
    ((rowsOf history).filter fun row =>
      row.seqEnd < (request.cursor.map Cursor.seq).getD (windowOf history).nextSeq).rtake
        (pageLimit request)
  | .after =>
    ((rowsOf history).filter fun row =>
      (request.cursor.map Cursor.seq).getD 0 < row.seqStart).take (pageLimit request)

def beforeGap : Bool :=
  effectiveDirection request history = .before && isTruncated history &&
    request.cursor.any fun cursor => cursor.seq ≤ minSaved history

/-- Select a bounded, protocol-shaped page from a UID-checked immutable snapshot. -/
def retainedHistoryPage (agent : Json) : TimelinePayload :=
  let page := selected request history
  { requestId := request.requestId
    agentId := request.agentId
    agent := agent
    direction := request.direction.getD .tail
    projection := request.projection.getD .projected
    epoch := epochOf history
    reset := staleCursor request history || afterGap request history
    staleCursor := staleCursor request history
    gap := beforeGap request history || afterGap request history
    window := windowOf history
    startCursor := page.head?.map fun row => ⟨epochOf history, row.seqStart⟩
    endCursor := page.getLast?.map fun row => ⟨epochOf history, row.seqEnd⟩
    hasOlder := page.head?.any fun row => minSaved history < row.seqStart || isTruncated history
    hasNewer := page.getLast?.any fun row => row.seqEnd < maxSaved history
    entries := if (pageError request history).isSome then [] else page
    error := (pageError request history).or
      (if beforeGap request history then some "Earlier transcript pages were not retained"
        else none) }

end Page

/-! ### Walks of a client -/

section Walks

variable (history : AgentHistory) (agent : Json) (request : TimelineRequest)

/-- The pages of a client that goes back from a cursor, or from the tail, with the limits it
    likes, until there is nothing older or a gap is reported; none when it is still going
    after `turns` pages. -/
def olderPages (limits : Nat → Option Int) : Nat → Nat → Option Cursor → Option (List TimelinePayload)
  | 0, _, _ => none
  | turns + 1, n, cursor =>
    let page := retainedHistoryPage { request with
      direction := some (if cursor.isSome then .before else .tail)
      cursor := cursor
      limit := limits n } (some history) agent
    if !page.hasOlder || page.gap then some [page]
    else (olderPages limits turns (n + 1) page.startCursor).map (page :: ·)

/-- The same from a cursor towards the newest entry. -/
def newerPages (limits : Nat → Option Int) : Nat → Nat → Option Cursor → Option (List TimelinePayload)
  | 0, _, _ => none
  | turns + 1, n, cursor =>
    let page := retainedHistoryPage { request with
      direction := some .after
      cursor := cursor
      limit := limits n } (some history) agent
    if !page.hasNewer then some [page]
    else (newerPages limits turns (n + 1) page.endCursor).map (page :: ·)

end Walks

end PaseoGateway.RetainedTranscript

/-
  PaseoGateway/AgentInventory.lean
  ================================
  **Reading the agents of a workspace page by page, and keeping them.**

  Mirrors `archiveAgentInventory` of `src/src/gateway/agent-inventory.ts`, the agent
  listing of `GatewaySession.dispatch` in `src/src/gateway/session.ts` and the paging
  loop of `backfillAgentIdentities` in `src/src/gateway/workspace-operations.ts`.

  The three loops are one `Reader` each: what a page's entries become, and which
  pagings are refused.  What happens to a single entry (translation, schema, the fields
  that are retained) is a parameter, and so is the size of the rows.  Instants are
  milliseconds; the record holds the text of one.
-/
import PaseoGateway.AsyncPool
import PaseoGateway.Domain

namespace PaseoGateway.AgentInventory

open Async

/-! ### Pages -/

structure PageInfo where
  hasMore : Bool
  nextCursor : Option String
deriving DecidableEq, Repr

structure Page (E : Type) where
  entries : List E
  pageInfo : PageInfo
deriving DecidableEq, Repr

/-- What a request for a page comes to: a page, a message of another type, or an exception. -/
inductive Reply (E : Type) where
  | page (page : Page E)
  | other
  | thrown (error : String)
deriving DecidableEq, Repr

/-- The cursor to go on with, where the empty text counts as none. -/
def PageInfo.cursor (info : PageInfo) : Option String :=
  if info.hasMore then info.nextCursor.filter (· ≠ "") else none

/-! ### Readers -/

/-- A paging loop: what it makes of a page's entries and which pagings it refuses. -/
structure Reader (E Row : Type) where
  unexpected : String
  rows : List E → Except String (List Row)
  tooLarge : List Row → Option String := fun _ => none
  missing : Option String := none
  refused : List String → String → Option String := fun _ _ => none

/-- The rows read so far, the cursor to ask for, and the cursors followed. -/
structure Reading (Row : Type) where
  rows : List Row
  cursor : Option String
  seen : List String

def Reading.start {Row : Type} : Reading Row := ⟨[], none, []⟩

inductive Turn (Row : Type) where
  | failed (error : String)
  | known (rows : List Row)
  | more (reading : Reading Row)

namespace Reader

variable {E Row : Type} (R : Reader E Row)

/-- One round of the loop, once the reply is there. -/
def receive (s : Reading Row) : Reply E → Turn Row
  | .thrown error => .failed error
  | .other => .failed R.unexpected
  | .page page =>
    match R.rows page.entries with
    | .error error => .failed error
    | .ok rows =>
      match R.tooLarge (s.rows ++ rows) with
      | some error => .failed error
      | none =>
        match page.pageInfo.cursor with
        | none =>
          match if page.pageInfo.hasMore then R.missing else none with
          | some error => .failed error
          | none => .known (s.rows ++ rows)
        | some cursor =>
          match R.refused s.seen cursor with
          | some error => .failed error
          | none => .more ⟨s.rows ++ rows, some cursor, cursor :: s.seen⟩

/-- The loop over a backend that answers the `i`-th request with `replies i`; none when the
    requests allowed do not suffice. -/
def read (replies : Nat → Reply E) : Nat → Nat → Reading Row → Option (Except String (List Row))
  | 0, _, _ => none
  | requests + 1, i, s =>
    match R.receive s (replies i) with
    | .failed error => some (.error error)
    | .known rows => some (.ok rows)
    | .more s => read replies requests (i + 1) s

end Reader

inductive Availability where
  | archived
  | suspended
deriving DecidableEq, Repr

/-- What is done to entries and rows outside the modelled code. -/
structure Runtime (E Row : Type) where
  /-- `retainedAgentMetadata` of a translated entry, for the workspace, the availability and the
      instant of the capture -/
  retained : Workspace → Availability → Int → E → Except String Row
  /-- `Buffer.byteLength(JSON.stringify(entries))` -/
  bytes : List Row → Nat
  /-- a page as the session lists it: translated, projected, checked -/
  listed : List E → Except String (List Row)
  /-- `agentRouting.claim` of an entry of the workspace -/
  claimed : Workspace → E → Except String Row

section Readers

variable {E Row : Type} (rt : Runtime E Row)

/-- The loop of `archiveAgentInventory`. -/
def archiveReader (workspace : Workspace) (availability : Availability) (capturedAt : Int) :
    Reader E Row where
  unexpected := "Unexpected archive inventory response"
  rows entries := entries.mapM (rt.retained workspace availability capturedAt)
  tooLarge rows := if 600000 < rt.bytes rows then
      some ("Workspace archive inventory exceeds its metadata budget; " ++
        "split agents across workspaces before archiving")
    else none
  refused seen cursor :=
    if cursor ∈ seen then some "Backend repeated its archive inventory cursor" else none

/-- The loop of the session's agent listing. -/
def listingReader : Reader E Row where
  unexpected := "Unexpected agent inventory response"
  rows := rt.listed

/-- The loop of `backfillAgentIdentities`. -/
def backfillReader (workspace : Workspace) : Reader E Row where
  unexpected := "Agent identity backfill returned an invalid inventory"
  rows entries := entries.mapM (rt.claimed workspace)
  missing := some "Agent identity backfill inventory lacks a continuation cursor"
  refused seen cursor :=
    if cursor ∈ seen ∨ 100 ≤ seen.length then
      some "Agent identity backfill inventory exceeds its page limit"
    else none

end Readers

/-! ### The agent listing of a session -/

/-- How `readArchivedInventory` ends. -/
inductive Retained (Row : Type) where
  | rows (rows : List Row)
  | unavailable (error : String)
  | thrown (error : String)

/-- A selected workspace, with what its backend and the inventory store answer. -/
structure Source (E Row : Type) where
  workspace : Workspace
  /-- the workspace is Running and Ready and its connection comes about -/
  connects : Except String Unit
  replies : Nat → Reply E
  retained : Retained Row

/-- What the listing says of one workspace: its current agents, the retained ones, or nothing. -/
inductive Listed (Row : Type) where
  | current (rows : List Row)
  | retained (rows : List Row)
  | unknown (error : String)

section Listing

variable {E Row : Type} (rt : Runtime E Row) (inventoryStore : Bool)

/-- `readArchivedInventory` in a `try` that lets only an unavailable inventory pass. -/
def listRetained (retained : Retained Row) : Except String (Listed Row) :=
  match retained with
  | .rows rows => .ok (.retained rows)
  | .unavailable error => .ok (.unknown error)
  | .thrown error => .error error

/-- The `catch` of the loop body: the rows read so far are dropped. -/
def fallBack (source : Source E Row) (error : String) : Except String (Listed Row) :=
  if inventoryStore then listRetained source.retained else .error error

/-- The body of the loop over the selected workspaces. -/
def listSource (requests : Nat) (source : Source E Row) :
    Option (Except String (Listed Row)) :=
  if source.workspace.spec.residency = .Archived ∧ inventoryStore then
    some (listRetained source.retained)
  else if source.workspace.status.isNone then
    some (.ok (.unknown ("Workspace " ++ source.workspace.metadata.name ++
      " status unavailable; agent inventory unknown")))
  else match source.connects with
    | .error error => some (fallBack inventoryStore source error)
    | .ok () =>
      ((listingReader rt).read source.replies requests 0 .start).map fun
        | .ok rows => .ok (.current rows)
        | .error error => fallBack inventoryStore source error

/-- The loop over the selected workspaces; an exception ends it. -/
def listAgents (requests : Nat) :
    List (Source E Row) → Option (Except String (List (Source E Row × Listed Row)))
  | [] => some (.ok [])
  | source :: rest =>
    match listSource rt inventoryStore requests source with
    | none => none
    | some (.error error) => some (.error error)
    | some (.ok listed) =>
      (listAgents requests rest).map (Except.map ((source, listed) :: ·))

end Listing

/-! ### Captures

The captures of `snapshotInventory` and `snapshotSuspendedInventory`, which end in
`archiveAgentInventory`; what they do before it does not touch the inventory record. -/

structure ArchivedInventory (Row : Type) where
  workspaceId : String
  workspaceUid : String
  capturedAt : Int
  availability : Availability
  entries : List Row
deriving DecidableEq, Repr

inductive Key where
  | inventory (uid : String)
deriving DecidableEq

inductive Err where
  | store (e : StoreErr)
  | error (message : String)
deriving DecidableEq, Repr

/-- The clock was read, or a record was read (none when it is missing). -/
inductive Note (Row : Type) where
  | clock (instant : Int)
  | record (uid : String) (previous : Option (Nat × ArchivedInventory Row))

inductive Ext (Row : Type) where
  | now
  | request (cursor : Option String)
  | record (uid : String)

def Ext.Res (E : Type) {Row : Type} : Ext Row → Type
  | .now => Int
  | .request _ => Reply E
  | .record _ => Except Err (Option (Nat × ArchivedInventory Row))

/-- A capture of a workspace with an availability; no more than so many pages are there. -/
inductive Call where
  | archiveAgentInventory (workspace : Workspace) (availability : Availability) (pages : Nat)

section Capture

variable (E Row : Type)

@[reducible] def sys : Sys where
  Key := Key
  Val := fun _ => ArchivedInventory Row
  Note := Note Row
  Ext := Ext Row
  ExtRes := Ext.Res E
  Mem := Unit
  Glob := Unit
  Call := Call
  Err := Err
  ofStore := .store

variable {E Row}

/-- The loop of `archiveAgentInventory` over a live backend. -/
def readPages (R : Reader E Row) : Nat → Reading Row → (sys E Row).Task (List Row)
  | 0, _ => .fail (.error "no more pages")
  | pages + 1, s => do
    let reply : Reply E ← ask (S := sys E Row) (.request s.cursor)
    match R.receive s reply with
    | .failed error => .fail (.error error)
    | .known rows => .ret rows
    | .more s => readPages R pages s

/-- The write at the end, over the version that was read. -/
def save (uid : String) (value : ArchivedInventory Row) :
    Option (Nat × ArchivedInventory Row) → (sys E Row).Task Unit
  | some (version, _) => do
    let _ ← await (S := sys E Row) (.update (.inventory uid) version value)
    .ret ()
  | none => do
    let _ ← await (S := sys E Row) (.create (.inventory uid) value)
    .ret ()

def storeInventory (uid : String) (value : ArchivedInventory Row) : (sys E Row).Task Unit := do
  let previous ← askOr (S := sys E Row) (.record uid) rfl
  save uid value previous

def archiveAgentInventory (rt : Runtime E Row) (workspace : Workspace)
    (availability : Availability) (pages : Nat) : (sys E Row).Task Unit :=
  match workspace.metadata.uid.filter (· ≠ "") with
  | none => .fail (.error "Workspace UID is required for inventory retention")
  | some uid => do
    let capturedAt : Int ← ask (S := sys E Row) .now
    let entries ← readPages (archiveReader rt workspace availability capturedAt) pages .start
    storeInventory uid ⟨workspace.metadata.name, uid, capturedAt, availability, entries⟩

def program (rt : Runtime E Row) : Call → (sys E Row).Task Unit
  | .archiveAgentInventory workspace availability pages =>
    archiveAgentInventory rt workspace availability pages

/-- What the environment decides about one request. -/
structure Choice (E : Type) where
  clock : Int
  reply : Reply E
  failed : Option Err

def answer (c : Choice E) (_ : Tid) (x : Ext Row) (w : World (sys E Row)) :
    Option (Answer (sys E Row) x) :=
  match x with
  | .now => some { res := c.clock, notes := [.clock c.clock], mem := (), glob := () }
  | .request _ => some { res := c.reply, mem := (), glob := () }
  | .record uid =>
    match c.failed with
    | some e =>
      some {
        res := (.error e : Except Err (Option (Nat × ArchivedInventory Row)))
        mem := ()
        glob := () }
    | none =>
      some {
        res := (.ok (lookup (Key.inventory uid) w.trace) :
          Except Err (Option (Nat × ArchivedInventory Row)))
        notes := [.record uid (lookup (Key.inventory uid) w.trace)]
        mem := ()
        glob := () }

/-- Any number of captures of any workspaces, in any number of processes. -/
def machine (rt : Runtime E Row) : Machine (sys E Row) where
  Out := Unit
  Choice := Choice E
  Env := Empty
  program := fun _ => program rt
  answer := answer
  entry := fun _ _ _ => true
  freshMem := ()
  afterCrash := fun _ g => g
  env := fun e => e.elim
  env_author := fun {e} => e.elim
  init := { trace := [], mem := fun _ => (), glob := (), next := 0, calls := fun _ => none }
  init_next := rfl
  init_calls := fun _ => rfl

end Capture

end PaseoGateway.AgentInventory

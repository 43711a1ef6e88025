/-
  PaseoGateway/DirectoryPages.lean
  ================================
  **Pages of an aggregate directory listing.**

  Mirrors `DirectoryPages` of `src/src/gateway/catalog.ts`.

  The first read of a listing that does not fit one page keeps an immutable snapshot
  of its rows; later reads name the snapshot and an offset in a cursor.  What a row is
  and how many bytes rows take is a parameter.  The clock is read once for every
  snapshot that is looked at, so each comparison has a reading of its own.
-/
import PaseoGateway.JsMap

namespace PaseoGateway.DirectoryPages

/-! ### Cursors -/

/-- `text.split(":")` -/
def splitColon : List Char → List (List Char)
  | [] => [[]]
  | c :: rest =>
    if c = ':' then [] :: splitColon rest
    else match splitColon rest with
      | [] => [[c]]
      | part :: parts => (c :: part) :: parts

/-- The number a text of decimal digits stands for; none for other texts. -/
def digits? (text : List Char) : Option Nat :=
  if text ≠ [] ∧ text.all Char.isDigit then some (Nat.ofDigitChars 10 text 0) else none

/-- `Number.MAX_SAFE_INTEGER` -/
def MAX_SAFE_INTEGER : Nat := 9007199254740991

/-- ``${id}:${offset}`` -/
def cursorTo (id : String) (offset : Nat) : String :=
  String.ofList (id.toList ++ ':' :: Nat.toDigits 10 offset)

/-! ### The state -/

structure Snapshot (T : Type) where
  key : String
  entries : List T
  expiresAt : Int
  bytes : Nat

/-- The snapshots of one session and the sync value that belongs to each. -/
structure Pages (T S : Type) where
  syncByPage : Js.Map String S
  snapshots : Js.Map String (Snapshot T)

structure Page where
  limit : Nat
  cursor : Option String := none
deriving DecidableEq, Repr

structure PageInfo where
  nextCursor : Option String
  prevCursor : Option String
  hasMore : Bool
deriving DecidableEq, Repr

structure Response (T S : Type) where
  entries : List T
  sync : Option S
  pageInfo : PageInfo

/-- One call of `read`, with what the runtime answers it: the clock as it is compared with
    the expiry of each snapshot, the clock when a snapshot is stored, and a random UUID. -/
structure Request (T S : Type) where
  key : String
  page : Option Page
  entries : Option (List T) := none
  sync : Option S := none
  now : String → Int
  stamp : Int
  uuid : String

def MAX_SNAPSHOT_BYTES : Nat := 6 * 1024 * 1024
def MAX_ROWS : Nat := 10000
def MAX_SNAPSHOTS : Nat := 4
def MAX_TOTAL_BYTES : Nat := 12 * 1024 * 1024
def TTL_MS : Int := 5 * 60 * 1000

section Read

variable {T S : Type}

def Pages.drop (s : Pages T S) (id : String) : Pages T S where
  syncByPage := s.syncByPage.delete id
  snapshots := s.snapshots.delete id

/-- Delete the snapshots that have expired. -/
def Pages.expire (now : String → Int) (s : Pages T S) : Pages T S :=
  s.snapshots.cells.foldl
    (fun s cell => if cell.value.expiresAt ≤ now cell.key then s.drop cell.key else s) s

def Pages.totalBytes (s : Pages T S) : Nat := (s.snapshots.values.map Snapshot.bytes).sum

/-- There is no room for a snapshot of this size. -/
def Pages.full (s : Pages T S) (bytes : Nat) : Bool :=
  decide (MAX_SNAPSHOTS ≤ s.snapshots.cells.length) ||
    decide (MAX_TOTAL_BYTES < s.totalBytes + bytes)

/-- Delete the oldest snapshots until there is room; a loop of so many rounds at most. -/
def Pages.makeRoom (bytes : Nat) : Nat → Pages T S → Pages T S
  | 0, s => s
  | rounds + 1, s =>
    if s.full bytes then
      match s.snapshots.keys with
      | [] => s
      | oldest :: _ => if oldest = "" then s else (s.drop oldest).makeRoom bytes rounds
    else s

/-- The snapshot a cursor names, with its id, and the offset in it. -/
def Pages.follow (s : Pages T S) (key cursor : String) : Option (String × Nat × Snapshot T) :=
  match splitColon cursor.toList with
  | [token, index] =>
    let id := String.ofList token
    match if id = "" then none else s.snapshots.get id, digits? index with
    | some snapshot, some offset =>
      if snapshot.key = key ∧ offset ≤ MAX_SAFE_INTEGER ∧ offset < snapshot.entries.length then
        some (id, offset, snapshot)
      else none
    | _, _ => none
  | _ => none

/-- The page of the rows from an offset on. -/
def pageOf (id : String) (rows : List T) (offset : Nat) (page : Option Page) (sync : Option S) :
    Response T S :=
  let limit := (page.map Page.limit).getD rows.length
  let last := offset + limit
  { entries := (rows.drop offset).take limit
    sync
    pageInfo := {
      nextCursor := if last < rows.length then some (cursorTo id last) else none
      prevCursor := if offset = 0 then none else some (cursorTo id (offset - limit))
      hasMore := decide (last < rows.length) } }

/-- `page?.cursor`, when it is not empty -/
def Request.cursor? (r : Request T S) : Option String :=
  (r.page.bind Page.cursor).filter (· ≠ "")

variable (bytesOf : List T → Nat)

/-- The rows do not fit the page that is asked for. -/
def Request.stores (r : Request T S) (rows : List T) : Bool :=
  r.page.any fun page => decide (page.limit < rows.length)

/-- Keep a snapshot of the rows. -/
def Pages.store (s : Pages T S) (r : Request T S) (rows : List T) : Pages T S :=
  let room := s.makeRoom (bytesOf rows) s.snapshots.cells.length
  { snapshots := room.snapshots.set r.uuid
      ⟨r.key, rows, r.stamp + TTL_MS, bytesOf rows⟩
    syncByPage := match r.sync with
      | none => room.syncByPage
      | some sync => room.syncByPage.set r.uuid sync }

/-- A read of an expired state: the page, or why there is none, and the state after it. -/
def Pages.readLive (s : Pages T S) (r : Request T S) :
    Except String (Response T S) × Pages T S :=
  match r.cursor? with
  | some cursor =>
    match s.follow r.key cursor with
    | none => (.error "Directory cursor expired or invalid; restart the listing", s)
    | some (id, offset, snapshot) =>
      (.ok (pageOf id snapshot.entries offset r.page (s.syncByPage.get id)), s)
  | none =>
    let rows := r.entries.getD []
    if MAX_SNAPSHOT_BYTES < bytesOf rows ∨ MAX_ROWS < rows.length then
      (.error "Directory snapshot capacity exceeded; narrow the filter", s)
    else
      (.ok (pageOf r.uuid rows 0 r.page r.sync),
        if r.stores rows then s.store bytesOf r rows else s)

def Pages.read (s : Pages T S) (r : Request T S) : Except String (Response T S) × Pages T S :=
  (s.expire r.now).readLive bytesOf r

end Read

/-! ### A session -/

/-- A UUID has no colon and is not empty. -/
def isUuid (text : String) : Bool :=
  text.toList != [] && text.toList.all fun c => c != ':'

/-- The pages of a session, the UUIDs drawn so far, and the cursors handed out so far, each
    with the key it was issued for. -/
structure Session (T S : Type) where
  pages : Pages T S := ⟨{}, {}⟩
  drawn : List String := []
  issued : List (String × String) := []

variable {T S : Type}

def Response.cursors (response : Response T S) : List String :=
  response.pageInfo.nextCursor.toList ++ response.pageInfo.prevCursor.toList

def Session.read (bytesOf : List T → Nat) (s : Session T S) (r : Request T S) :
    Except String (Response T S) × Session T S :=
  let out := s.pages.read bytesOf r
  (out.1, {
    pages := out.2
    drawn := r.uuid :: s.drawn
    issued := match out.1 with
      | .ok response => response.cursors.map (fun cursor => (r.key, cursor)) ++ s.issued
      | .error _ => s.issued })

/-- The UUID of a read was never drawn before. -/
def Session.Fresh (s : Session T S) (r : Request T S) : Prop :=
  isUuid r.uuid = true ∧ r.uuid ∉ s.drawn

/-- Any sequence of reads leads here. -/
inductive Reachable (bytesOf : List T → Nat) : Session T S → Prop where
  | init : Reachable bytesOf {}
  | read {s : Session T S} {r : Request T S} : Reachable bytesOf s → s.Fresh r →
      Reachable bytesOf (s.read bytesOf r).2

end PaseoGateway.DirectoryPages

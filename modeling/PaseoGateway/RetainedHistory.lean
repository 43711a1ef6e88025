/-
  PaseoGateway/RetainedHistory.lean
  =================================
  **Retained-history receipts and the snapshot directory.**

  Mirrors the receipt functions of `src/src/gateway/retained-history.ts`,
  `writeSnapshot` and `pruneSnapshots` of `src/docker/retained-history.mjs`, the
  wrappers around them in `src/src/kubernetes/client.ts`, and the capture steps of
  `snapshotInventory` and `snapshotSuspendedInventory` in
  `src/src/gateway/workspace-operations.ts`.

  The shared state is the directory of one workspace UID, a list of file names;
  every directory operation is one request and may fail.  The machine runs any
  number of capture flows.  `pruneSnapshots` and `writeSnapshot` also run on their
  own, since a command in the Pod outlives the flow that lost its connection to it,
  and so does `publishRetainedHistoryReceipt`, for any file written.

  Transcripts, sizes and file contents play no role here and are left out; a
  capture that exceeds a budget is a failed request.  A snapshot carries the
  instant whose text is `capturedAt`: `Date.parse` returns exactly the instant
  `toISOString` printed.
-/
import PaseoGateway.AsyncPool
import PaseoGateway.Domain
import PaseoGateway.IsoInstant

namespace PaseoGateway.RetainedHistory

open Async

/-! ### Records -/

structure Snapshot where
  workspaceId : String
  workspaceUid : String
  workspaceGeneration : Nat
  captured : Int
deriving DecidableEq, Repr

def Snapshot.capturedAt (s : Snapshot) : String := Iso.toISOString s.captured

structure Receipt where
  workspaceId : String
  workspaceUid : String
  workspaceGeneration : Nat
  capturedAt : String
  fileName : String
deriving DecidableEq, Repr

inductive Key where
  | receipt (uid : String)
deriving DecidableEq

inductive Err where
  | store (e : StoreErr)
  | invalid
  | enoent
  | error (message : String)
deriving DecidableEq, Repr

def MAX_FILES_PER_UID : Nat := 16
def MAX_SAFE_INTEGER : Nat := 9007199254740991

/-- The largest time value of a `Date`. -/
def MAX_TIME : Nat := 8640000000000000

/-! ### File names -/

/-- `[a-f0-9-]` -/
def isHexDash (c : Char) : Bool :=
  ('0' ≤ c && c ≤ '9') || ('a' ≤ c && c ≤ 'f') || c == '-'

/-- The same with the `i` flag. -/
def isHexDashI (c : Char) : Bool := isHexDash c || ('A' ≤ c && c ≤ 'F')

/-- `^[…]+suffix$` for the character class `p`. -/
def matchThen (p : Char → Bool) (suffix s : List Char) : Bool :=
  let body := s.take (s.length - suffix.length)
  s.drop (s.length - suffix.length) == suffix && !body.isEmpty && body.all p

def json : List Char := ".json".toList

/-- What follows a prefix. -/
def afterPrefix (pre s : List Char) : Option (List Char) :=
  if pre.isPrefixOf s then some (s.drop pre.length) else none

/-- `^(\d{13})-[a-f0-9-]+\.json$` -/
def matchCaptured (s : List Char) : Option Nat :=
  let ms := s.take 13
  match s.drop 13 with
  | '-' :: rest =>
    if ms.length = 13 ∧ ms.all Char.isDigit ∧ matchThen isHexDash json rest then
      some (Nat.ofDigitChars 10 ms 0)
    else none
  | _ => none

/-- `^(\d+)-`: the digits and what follows the dash. -/
def matchGeneration (s : List Char) : Option (List Char × List Char) :=
  let digits := s.takeWhile Char.isDigit
  match s.dropWhile Char.isDigit with
  | '-' :: rest => if digits.isEmpty then none else some (digits, rest)
  | _ => none

structure Parts where
  generation : Nat
  capturedMs : Nat
deriving DecidableEq, Repr

def snapshotParts (uid fileName : String) : Option Parts := do
  let rest ← afterPrefix (uid ++ "-").toList fileName.toList
  let p ← matchGeneration rest
  let capturedMs ← matchCaptured p.2
  if p.1.head? ≠ some '0' ∧ Nat.ofDigitChars 10 p.1 0 ≤ MAX_SAFE_INTEGER then
    some ⟨Nat.ofDigitChars 10 p.1 0, capturedMs⟩
  else none

/-- The client's `^uid-\d+-\d{13}-[a-f0-9-]+\.json$`. -/
def isSnapshotName (uid fileName : String) : Bool :=
  (do
    let rest ← afterPrefix (uid ++ "-").toList fileName.toList
    let p ← matchGeneration rest
    matchCaptured p.2).isSome

/-- `` `.${uid}.` `` and `^[a-f0-9-]+\.tmp$` -/
def isTempName (uid name : String) : Bool :=
  match afterPrefix ("." ++ uid ++ ".").toList name.toList with
  | none => false
  | some rest => matchThen isHexDash ".tmp".toList rest

/-- `^[a-f0-9]{8}-[a-f0-9-]{27,63}$` with the `i` flag -/
def uidPattern (uid : String) : Bool :=
  let head := uid.toList.take 8
  let tail := uid.toList.drop 9
  head.length == 8 && head.all (fun c => isHexDashI c && c != '-') &&
    uid.toList[8]? == some '-' && 27 ≤ tail.length && tail.length ≤ 63 && tail.all isHexDashI

/-- `String(ms).padStart(13, "0")` -/
def capturedText (ms : Int) : List Char := (toString ms).toList.leftpad 13 '0'

def snapshotName (uid : String) (generation : Nat) (captured : Int) (uuid : String) : String :=
  uid ++ "-" ++ toString generation ++ "-" ++ String.ofList (capturedText captured) ++ "-" ++
    uuid ++ ".json"

def tempName (uid uuid : String) : String := "." ++ uid ++ "." ++ uuid ++ ".tmp"

/-- `randomUUID()` prints lower-case hexadecimal digits and dashes. -/
def isUuid (s : String) : Bool := s.toList.length == 36 && s.toList.all isHexDash

/-- `ReceiptSchema` -/
def receiptValid (r : Receipt) : Bool :=
  r.workspaceGeneration ≤ MAX_SAFE_INTEGER && matchThen isHexDashI json r.fileName.toList

/-! ### The system -/

/-- A snapshot file became final. -/
structure Note where
  snapshot : Snapshot
  fileName : String
deriving DecidableEq

inductive Ext where
  | supportsRetainedHistory
  | capture
  | ownedPod
  | execReply
  | randomUUID
  | assertDirectory
  | readdir
  | lstat (name : String)
  | rm (name : String)
  | rmForce (name : String)
  | expired (name : String)
  | writeTemp (name : String)
  | rename (temp target : String) (snapshot : Snapshot)
  | syncDirectory

def Ext.Res : Ext → Type
  | .supportsRetainedHistory => Except Err Bool
  | .capture => Except Err Int
  | .randomUUID => String
  | .readdir => Except Err (List String)
  | .lstat _ => Except Err Bool
  | .expired _ => Bool
  | _ => Except Err Unit

inductive Call where
  | retainHistory (workspace : Workspace) (expectedGeneration : Option Nat)
  | prune (committedFileName : Option String)
  | write (snapshot : Snapshot)
  | publish (snapshot : Snapshot) (fileName : String)

@[reducible] def sys : Sys where
  Key := Key
  Val := fun _ => Receipt
  Note := Note
  Ext := Ext
  ExtRes := Ext.Res
  Mem := Unit
  Glob := List String
  Call := Call
  Err := Err
  ofStore := .store

/-- A request of the environment that may throw. -/
def exec (x : Ext) (h : Ext.Res x = Except Err Unit) : sys.Task Unit := askOr (S := sys) x h

/-! ### The snapshot directory -/

/-- Not newer than the committed snapshot. -/
def obsolete (committed : Option Parts) (parts : Parts) : Bool :=
  match committed with
  | none => false
  | some c =>
    parts.generation < c.generation ||
      (parts.generation == c.generation && parts.capturedMs ≤ c.capturedMs)

/-- One round of the first loop of `pruneSnapshots`. -/
def pruneSnapshot (uid : String) (committedFileName : Option String)
    (committed : Option Parts) (name : String) : sys.Task Unit :=
  if some name = committedFileName then .ret ()
  else match snapshotParts uid name with
    | none => .ret ()
    | some parts => do
      let isFile : Bool ← askOr (S := sys) (.lstat name) rfl
      if obsolete committed parts && isFile then exec (.rm name) rfl else .ret ()

/-- One round of the second loop: temporary files older than ten minutes. -/
def pruneTemp (uid : String) (name : String) : sys.Task Unit :=
  if isTempName uid name then do
    let isFile : Bool ← askOr (S := sys) (.lstat name) rfl
    let old : Bool ← ask (S := sys) (.expired name)
    if old && isFile then exec (.rm name) rfl else .ret ()
  else .ret ()

def forEach (names : List String) (action : String → sys.Task Unit) : sys.Task Unit :=
  match names with
  | [] => .ret ()
  | name :: rest => do
    action name
    forEach rest action

def pruneDirectory (uid : String) (committedFileName : Option String)
    (committed : Option Parts) : sys.Task Unit := do
  match ← ask (S := sys) .assertDirectory with
  | .error e =>
    if committedFileName.isNone ∧ e = .enoent then .ret () else .fail e
  | .ok _ => do
    let names ← askOr (S := sys) .readdir rfl
    forEach names (pruneSnapshot uid committedFileName committed)
    let temps ← askOr (S := sys) .readdir rfl
    forEach temps (pruneTemp uid)

def pruneSnapshots (uid : String) (committedFileName : Option String) : sys.Task Unit :=
  if ¬ uidPattern uid then .fail (.error "Invalid retained history identity")
  else match committedFileName with
    | none => pruneDirectory uid none none
    | some fileName =>
      match snapshotParts uid fileName with
      | none => .fail (.error "Invalid retained history receipt filename")
      | some committed => pruneDirectory uid (some fileName) (some committed)

/-- The rename of a finished temporary file, and its removal when that fails. -/
def commitTemp (temp target : String) (snapshot : Snapshot) : sys.Task Unit := do
  match ← ask (S := sys) (.writeTemp temp) with
  | .ok _ => do
    match ← ask (S := sys) (.rename temp target snapshot) with
    | .ok _ => .ret ()
    | .error e => do
      exec (.rmForce temp) rfl
      .fail e
  | .error e => do
    exec (.rmForce temp) rfl
    .fail e

def writeSnapshot (uid : String) (snapshot : Snapshot) : sys.Task String := do
  if ¬ uidPattern uid then
    .fail (.error "Invalid retained history identity or size")
  else do
    exec .assertDirectory rfl
    let names ← askOr (S := sys) .readdir rfl
    if MAX_FILES_PER_UID ≤ (names.filter fun name => (snapshotParts uid name).isSome).length then
      .fail (.error "Retained history file budget reached")
    else if snapshot.workspaceUid ≠ uid ∨ snapshot.workspaceGeneration < 1 ∨
        MAX_SAFE_INTEGER < snapshot.workspaceGeneration then
      .fail (.error "Invalid retained history snapshot")
    else do
      let uuid : String ← ask (S := sys) .randomUUID
      let fileName := snapshotName uid snapshot.workspaceGeneration snapshot.captured uuid
      let tempUuid : String ← ask (S := sys) .randomUUID
      commitTemp (tempName uid tempUuid) fileName snapshot
      exec .syncDirectory rfl
      .ret fileName

/-! ### The client -/

def pruneRetainedHistory (uid : String) (fileName : Option String) : sys.Task Unit :=
  if fileName.any (fun name => !isSnapshotName uid name) then
    .fail (.error "Invalid retained history prune identity")
  else do
    exec .ownedPod rfl
    pruneSnapshots uid fileName
    exec .execReply rfl

def writeRetainedHistory (uid : String) (snapshot : Snapshot) : sys.Task String := do
  exec .ownedPod rfl
  let fileName ← writeSnapshot uid snapshot
  exec .execReply rfl
  if isSnapshotName uid fileName then .ret fileName
  else .fail (.error "Invalid retained history write receipt")

/-! ### Receipts -/

def receiptOf (snapshot : Snapshot) (fileName : String) : Receipt where
  workspaceId := snapshot.workspaceId
  workspaceUid := snapshot.workspaceUid
  workspaceGeneration := snapshot.workspaceGeneration
  capturedAt := snapshot.capturedAt
  fileName := fileName

/-- The receipt in place is at least as new. -/
def supersedes (current value : Receipt) : Bool :=
  value.workspaceGeneration < current.workspaceGeneration ||
    (current.workspaceGeneration == value.workspaceGeneration &&
      decide (value.capturedAt ≤ current.capturedAt))

/-- The attempts of `publishRetainedHistoryReceipt`. -/
def publishAttempts (value : Receipt) : Nat → sys.Task Receipt
  | 0 => .fail (.error "Retained history receipt publication exhausted retries")
  | attempts + 1 => do
    match ← await (S := sys) (.get (.receipt value.workspaceUid)) with
    | some (version, current) =>
      if ¬ receiptValid current then .fail .invalid
      else if current.workspaceUid ≠ value.workspaceUid ∨
          current.workspaceId ≠ value.workspaceId then
        .fail (.error "Retained history receipt identity changed")
      else if supersedes current value then .ret current
      else do
        match ← (await (S := sys)
            (.update (.receipt value.workspaceUid) version value)).attempt with
        | .ok _ => .ret value
        | .error e =>
          if attempts = 0 ∨ e ≠ .store .conflict then .fail e
          else publishAttempts value attempts
    | none => do
      match ← (await (S := sys) (.create (.receipt value.workspaceUid) value)).attempt with
      | .ok _ => .ret value
      | .error e =>
        if attempts = 0 ∨ e ≠ .store .conflict then .fail e
        else publishAttempts value attempts

def publishRetainedHistoryReceipt (snapshot : Snapshot) (fileName : String) :
    sys.Task Receipt :=
  let value := receiptOf snapshot fileName
  if receiptValid value then publishAttempts value 4 else .fail .invalid

/-- The checks `latestRetainedHistoryReceipt` makes on a receipt. -/
def receiptNamesFile (uid workspaceId : String) (receipt : Receipt) : Bool :=
  receipt.workspaceId == workspaceId && receipt.workspaceUid == uid &&
    ((afterPrefix (uid ++ "-" ++ toString receipt.workspaceGeneration ++ "-").toList
      receipt.fileName.toList).bind matchCaptured).isSome

def latestRetainedHistoryReceipt (workspace : Workspace) : sys.Task (Option Receipt) :=
  match workspace.metadata.uid with
  | none => .ret none
  | some uid => do
    match ← await (S := sys) (.get (.receipt uid)) with
    | none => .ret none
    | some (_, receipt) =>
      if ¬ receiptValid receipt then .fail .invalid
      else if receiptNamesFile uid workspace.metadata.name receipt then .ret (some receipt)
      else .ret none

/-! ### Capture -/

/-- From the captured snapshot to the committed receipt. -/
def commitSnapshot (workspace : Workspace) (uid : String) (snapshot : Snapshot) :
    sys.Task Receipt := do
  let previous ← latestRetainedHistoryReceipt workspace
  pruneRetainedHistory uid (previous.map Receipt.fileName)
  let fileName ← writeRetainedHistory uid snapshot
  let committed ← publishRetainedHistoryReceipt snapshot fileName
  let _ ← (pruneRetainedHistory uid (some committed.fileName)).attempt
  .ret committed

/-- The retained-history half of `snapshotInventory` and `snapshotSuspendedInventory`. -/
def retainHistory (workspace : Workspace) (expectedGeneration : Option Nat) :
    sys.Task (Option Receipt) := do
  let supported : Bool ← askOr (S := sys) .supportsRetainedHistory rfl
  if ¬ supported then .ret none
  else match workspace.metadata.uid with
    | none => .fail (.error "Workspace UID required for retained history")
    | some uid => do
      let captured : Int ← askOr (S := sys) .capture rfl
      let committed ← commitSnapshot workspace uid {
        workspaceId := workspace.metadata.name
        workspaceUid := uid
        workspaceGeneration :=
          expectedGeneration.getD (workspace.metadata.generation.getD 1)
        captured := captured }
      .ret (some committed)

/-! ### The machine -/

inductive Out where
  | retained (receipt : Option Receipt)
  | pruned
  | written (fileName : String)
  | published (receipt : Receipt)

def program (uid : String) : Call → sys.Task Out
  | .retainHistory workspace expectedGeneration => do
    let receipt ← retainHistory workspace expectedGeneration
    .ret (.retained receipt)
  | .prune committedFileName => do
    pruneSnapshots uid committedFileName
    .ret .pruned
  | .write snapshot => do
    let fileName ← writeSnapshot uid snapshot
    .ret (.written fileName)
  | .publish snapshot fileName => do
    let receipt ← publishRetainedHistoryReceipt snapshot fileName
    .ret (.published receipt)

/-- What the environment decides about one request. -/
structure Choice where
  failed : Option Err := none
  flag : Bool := true
  clock : Int := 0
  uuid : String := ""
  listing : List String := []

def outcome {α : Type} (c : Choice) (a : α) : Except Err α :=
  match c.failed with
  | some e => .error e
  | none => .ok a

/-- An answer that leaves the directory as it is. -/
def unchanged (files : List String) {x : Ext} (r : Ext.Res x) : Option (Answer sys x) :=
  some { res := r, mem := (), glob := files }

def answer (c : Choice) (_ : Tid) (x : Ext) (w : World sys) : Option (Answer sys x) :=
  let files : List String := w.glob
  match x with
  | .supportsRetainedHistory => unchanged files (outcome c c.flag)
  | .capture =>
    if c.clock.natAbs ≤ MAX_TIME then unchanged files (outcome c c.clock) else none
  | .ownedPod => unchanged files (outcome c ())
  | .execReply => unchanged files (outcome c ())
  | .assertDirectory => unchanged files (outcome c ())
  | .syncDirectory => unchanged files (outcome c ())
  | .randomUUID => if isUuid c.uuid then unchanged files c.uuid else none
  | .readdir => if c.listing.Perm files then unchanged files (outcome c c.listing) else none
  | .lstat name =>
    unchanged files (if name ∈ files then outcome c c.flag else (.error .enoent : Except Err Bool))
  | .expired _ => unchanged files c.flag
  | .rm name =>
    match c.failed with
    | some e => unchanged files (.error e : Except Err Unit)
    | none =>
      if name ∈ files then
        some { res := (.ok () : Except Err Unit), mem := (),
               glob := files.filter fun file => file ≠ name }
      else unchanged files (.error .enoent : Except Err Unit)
  | .rmForce name =>
    match c.failed with
    | some e => unchanged files (.error e : Except Err Unit)
    | none =>
      some { res := (.ok () : Except Err Unit), mem := (),
             glob := files.filter fun file => file ≠ name }
  | .writeTemp name =>
    -- a write that fails half-way may leave the file behind
    some { res := outcome c (), mem := (),
           glob := if c.failed.isNone || c.flag then name :: files else files }
  | .rename temp target snapshot =>
    match c.failed with
    | some e => unchanged files (.error e : Except Err Unit)
    | none =>
      if temp ∈ files then
        some { res := (.ok () : Except Err Unit), mem := (), notes := [⟨snapshot, target⟩],
               glob := target :: files.filter fun file => file ≠ temp ∧ file ≠ target }
      else unchanged files (.error .enoent : Except Err Unit)

/-- A receipt with this file name was stored at some time. -/
def wasCommitted (uid fileName : String) (tr : Trace Key (fun _ => Receipt) Note) : Bool :=
  tr.any fun e => match e.puts (.receipt uid) with
    | some r => r.fileName == fileName
    | none => false

/-- A file was written for this snapshot. -/
def wasWritten (snapshot : Snapshot) (fileName : String)
    (tr : Trace Key (fun _ => Receipt) Note) : Bool :=
  tr.any fun e => match e with
    | .note _ n => n == ⟨snapshot, fileName⟩
    | _ => false

/-- Any number of capture flows for the workspace `uid`, with the commands they have
    left running. -/
def machine (uid : String) : Machine sys where
  Out := Out
  Choice := Choice
  Env := Empty
  program := fun _ => program uid
  answer := answer
  entry := fun _ call w => match call with
    | .retainHistory workspace _ => workspace.metadata.uid == some uid
    | .prune none => true
    | .prune (some fileName) => wasCommitted uid fileName w.trace
    | .write _ => true
    | .publish snapshot fileName =>
      isSnapshotName uid fileName && wasWritten snapshot fileName w.trace
  freshMem := ()
  afterCrash := fun _ g => g
  env := fun e => e.elim
  env_author := fun {e} => e.elim
  init := { trace := [], mem := fun _ => (), glob := [], next := 0, calls := fun _ => none }
  init_next := rfl
  init_calls := fun _ => rfl

end PaseoGateway.RetainedHistory

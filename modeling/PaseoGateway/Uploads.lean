/-
  PaseoGateway/Uploads.lean
  =========================
  **Uploads that wait for the operation that names their workspace.**

  Mirrors `UploadStaging` of `src/src/gateway/uploads.ts`.

  The objects of one process share a static counter, so a method is a function of one
  object together with the counter (`UploadStaging`), and the memory of a process is the
  counter with all objects.  Frames are taken as decoded; bytes are lists.  The timer
  that calls `expire` may fire at any time.  Every awaited step of `replace` is one
  request, of which the two requests up to its first `await` may even be separated.
-/
import PaseoGateway.AsyncPool
import PaseoGateway.JsMap
import PaseoGateway.JsString

namespace PaseoGateway.Uploads

open Async

/-! ### Messages and frames -/

structure UploadRequest where
  requestId : String
  fileName : String
  mimeType : String
  size : Int
  modifiedAt : String
deriving DecidableEq, Repr

/-- An uploaded file as it is named to the client, and by the client in an attachment. -/
structure UploadedFile where
  id : String
  fileName : String
  mimeType : String
  size : Int
  path : String
deriving DecidableEq, Repr

structure BeginMetadata where
  mime : String
  size : Int
  encoding : String
  modifiedAt : String
  fileName : String
deriving DecidableEq, Repr

inductive Frame where
  | fileBegin (requestId : String) (metadata : BeginMetadata)
  | fileChunk (requestId : String) (payload : List UInt8)
  | fileEnd (requestId : String)
deriving DecidableEq, Repr

def Frame.requestId : Frame → String
  | .fileBegin requestId _ => requestId
  | .fileChunk requestId _ => requestId
  | .fileEnd requestId => requestId

/-- An attachment of a message: an upload, or anything else. -/
inductive Attachment where
  | uploaded (file : UploadedFile)
  | other (text : String)
deriving DecidableEq, Repr

/-! ### One object -/

structure Pending where
  request : UploadRequest
  begun : Bool
  buffer : List UInt8
  bytes : Nat
  chunks : Nat
  expiresAt : Int

structure Staged where
  file : UploadedFile
  bytes : List UInt8
  modifiedAt : String
  expiresAt : Int
deriving DecidableEq

def maxFile : Int := 32 * 1024 * 1024
def maxTotal : Int := 64 * 1024 * 1024
def maxEntries : Nat := 16
def ttl : Int := 5 * 60000
def uploadPrefix : String := "pgw-upload:"

/-- The maps of one object. -/
structure Maps where
  pending : Js.Map String Pending
  staged : Js.Map String Staged

/-- One object, with the static counter. -/
structure UploadStaging where
  reservedBytes : Int
  maps : Maps

/-- One of the two loops of `expire`: delete the rows that have expired and give back their
    bytes. -/
def sweep {ν : Type} (expiresAt size : ν → Int) (now : Int) (rows : Js.Map String ν)
    (reservedBytes : Int) : Js.Map String ν × Int :=
  rows.cells.foldl (fun s cell =>
    if expiresAt cell.value ≤ now then (s.1.delete cell.key, s.2 - size cell.value) else s)
    (rows, reservedBytes)

def pendingSize (row : Pending) : Int := row.request.size

def stagedSize (row : Staged) : Int := row.file.size

namespace UploadStaging

def expire (now : Int) (s : UploadStaging) : UploadStaging :=
  let pending := sweep Pending.expiresAt pendingSize now s.maps.pending s.reservedBytes
  let staged := sweep Staged.expiresAt stagedSize now s.maps.staged pending.2
  ⟨staged.2, ⟨pending.1, staged.1⟩⟩

end UploadStaging

def Maps.total (maps : Maps) : Int :=
  (maps.pending.values.map pendingSize).sum + (maps.staged.values.map stagedSize).sum

/-- `this.pending.size + this.staged.size` -/
def Maps.size (maps : Maps) : Nat := maps.pending.cells.length + maps.staged.cells.length

def isSlashOrBreak (c : Char) : Bool := c == '/' || c == '\\' || c == '\r' || c == '\n'

def isBreak (c : Char) : Bool := c == '\r' || c == '\n'

/-- The metadata check of `begin`. -/
def metadataInvalid (request : UploadRequest) : Bool :=
  request.size < 0 || maxFile < request.size ||
    255 < request.requestId.utf8ByteSize ||
    request.fileName == "" || 255 < Js.length request.fileName ||
    request.fileName.toList.any isSlashOrBreak ||
    request.mimeType == "" || 200 < Js.length request.mimeType ||
    request.mimeType.toList.any isBreak

namespace UploadStaging

/-- `begin`: the clock is read for the sweep and again for the expiry of the new row. -/
def beginUpload (now stamp : Int) (request : UploadRequest) (s : UploadStaging) :
    Except String Unit × UploadStaging :=
  let s := s.expire now
  if (s.maps.pending.get request.requestId).isSome then
    (.error "Duplicate upload request ID", s)
  else if metadataInvalid request then
    (.error "Upload metadata is invalid or exceeds the gateway limit", s)
  else if maxEntries ≤ s.maps.size ∨ maxTotal < s.maps.total + request.size ∨
      maxTotal < s.reservedBytes + request.size then
    (.error "Upload staging capacity reached", s)
  else
    (.ok (), {
      reservedBytes := s.reservedBytes + request.size
      maps := { s.maps with
        pending := s.maps.pending.set request.requestId
          ⟨request, false, List.replicate request.size.toNat 0, 0, 0, stamp + ttl⟩ } })

end UploadStaging

/-- `buffer.set(payload, offset)` -/
def bufferSet (buffer payload : List UInt8) (offset : Nat) : List UInt8 :=
  buffer.take offset ++ payload ++ buffer.drop (offset + payload.length)

def beginMatches (row : Pending) (metadata : BeginMetadata) : Bool :=
  metadata.size == row.request.size && metadata.mime == row.request.mimeType &&
    metadata.fileName == row.request.fileName && metadata.modifiedAt == row.request.modifiedAt &&
    metadata.encoding == "binary"

/-- `Math.ceil(size / 16_384) + 16` -/
def maxChunks (size : Int) : Nat := (size.toNat + 16383) / 16384 + 16

/-- The file of an upload that is complete, under a new handle. -/
def uploadedFile (row : Pending) (uuid : String) : UploadedFile where
  id := uploadPrefix ++ uuid
  fileName := row.request.fileName
  mimeType := row.request.mimeType
  size := row.bytes
  path := uploadPrefix ++ uuid

namespace UploadStaging

/-- `begin` frame of a row. -/
def beginFrame (requestId : String) (metadata : BeginMetadata) (row : Pending)
    (s : UploadStaging) : Except String Unit × UploadStaging :=
  if row.begun ∨ ¬ beginMatches row metadata then
    (.error "Upload begin frame does not match request", s)
  else
    (.ok (), { s with maps := { s.maps with
      pending := s.maps.pending.set requestId { row with begun := true } } })

/-- A chunk of a row; the count of chunks is kept also when it is exceeded. -/
def chunkFrame (requestId : String) (payload : List UInt8) (row : Pending) (s : UploadStaging) :
    Except String Unit × UploadStaging :=
  if ¬ row.begun then (.error "Upload begin frame required", s)
  else if payload.length = 0 ∨ 256 * 1024 < payload.length ∨
      row.request.size < row.bytes + payload.length then
    (.error "Upload chunk exceeds declared size", s)
  else if maxChunks row.request.size < row.chunks + 1 then
    (.error "Upload chunk exceeds declared size", { s with maps := { s.maps with
      pending := s.maps.pending.set requestId { row with chunks := row.chunks + 1 } } })
  else
    (.ok (), { s with maps := { s.maps with
      pending := s.maps.pending.set requestId { row with
        chunks := row.chunks + 1
        buffer := bufferSet row.buffer payload row.bytes
        bytes := row.bytes + payload.length } } })

/-- The end of a row: it becomes a staged file. -/
def endFrame (stamp : Int) (uuid : String) (requestId : String) (row : Pending)
    (s : UploadStaging) : Except String UploadedFile × UploadStaging :=
  if ¬ row.begun then (.error "Upload begin frame required", s)
  else if (row.bytes : Int) ≠ row.request.size then
    (.error "Upload ended before declared size", s)
  else
    let file := uploadedFile row uuid
    (.ok file, { s with maps := {
      pending := s.maps.pending.delete requestId
      staged := s.maps.staged.set file.id
        ⟨file, row.buffer, row.request.modifiedAt, stamp + ttl⟩ } })

/-- What `binary` comes to: no frame of an upload, a frame accepted, or an upload that is
    complete and answered. -/
inductive Accepted where
  | noFrame
  | frame
  | complete (file : UploadedFile)
deriving DecidableEq

def binary (now stamp : Int) (uuid : String) (frame : Option Frame) (s : UploadStaging) :
    Except String Accepted × UploadStaging :=
  let s := s.expire now
  match frame with
  | none => (.ok .noFrame, s)
  | some frame =>
    match s.maps.pending.get frame.requestId with
    | none => (.error "Unknown or expired upload transfer", s)
    | some row =>
      match frame with
      | .fileBegin requestId metadata =>
        let out := s.beginFrame requestId metadata row
        (out.1.map fun _ => .frame, out.2)
      | .fileChunk requestId payload =>
        let out := s.chunkFrame requestId payload row
        (out.1.map fun _ => .frame, out.2)
      | .fileEnd requestId =>
        let out := s.endFrame stamp uuid requestId row
        (out.1.map .complete, out.2)

/-- The handle in an attachment is the staged one, unchanged. -/
def handleMatches (attachment : UploadedFile) (staged : Staged) : Bool :=
  uploadPrefix.toList.isPrefixOf attachment.id.toList &&
    attachment.fileName == staged.file.fileName && attachment.mimeType == staged.file.mimeType &&
    attachment.size == staged.file.size && attachment.path == staged.file.path

/-- Consume the staged file an attachment names. -/
def take (attachment : UploadedFile) (s : UploadStaging) :
    Except String Staged × UploadStaging :=
  match s.maps.staged.get attachment.id with
  | none => (.error "Uploaded file handle expired, unknown, or changed", s)
  | some staged =>
    if handleMatches attachment staged then
      (.ok staged, { s with maps := { s.maps with
        staged := s.maps.staged.delete attachment.id } })
    else (.error "Uploaded file handle expired, unknown, or changed", s)

def clear (s : UploadStaging) : UploadStaging where
  reservedBytes := s.reservedBytes - (s.maps.pending.values.map pendingSize).sum -
    (s.maps.staged.values.map stagedSize).sum
  maps := ⟨s.maps.pending.clear, s.maps.staged.clear⟩

end UploadStaging

/-! ### The system -/

inductive Err where
  | error (message : String)
  /-- an exception from outside: a failed check, a lost connection -/
  | thrown
deriving DecidableEq

/-- One object: the process and its number there. -/
structure Place where
  proc : Nat
  object : Nat
deriving DecidableEq

/-- What a backend is sent. -/
inductive Outgoing where
  | request (request : UploadRequest)
  | frame (frame : Frame)
deriving DecidableEq

inductive Note where
  /-- `expire` ran at this instant -/
  | expired (place : Place) (now : Int)
  | cleared (place : Place)
  /-- `begin` accepted a request -/
  | begun (place : Place) (request : UploadRequest)
  /-- `binary` accepted a chunk -/
  | chunk (place : Place) (requestId : String) (payload : List UInt8)
  /-- a `file.upload.response` was emitted, for a handle that expires at this instant -/
  | response (place : Place) (requestId : String) (file : UploadedFile) (expiresAt : Int)
  /-- `replace` consumed a handle -/
  | taken (place : Place) (attachment : UploadedFile) (staged : Staged)
  | uuid (text : String)
  /-- the bytes of a handle on their way to a backend -/
  | sent (handle : String) (requestId : String) (out : Outgoing)
  /-- an exception from outside reached the call -/
  | thrown
  /-- the backend answered the request of an upload -/
  | replied (file : Option UploadedFile)
  /-- the bytes of a consumed file were given back -/
  | released (staged : Staged)
deriving DecidableEq

inductive Ext where
  | construct
  | begin (object : Nat) (request : UploadRequest)
  | binary (object : Nat) (frame : Option Frame)
  | expire (object : Nat)
  | clear (object : Nat)
  | take (object : Nat) (attachment : UploadedFile)
  /-- `reservedBytes -= staged.file.size` -/
  | release (staged : Staged)
  | validate
  | randomUUID
  | send (handle : String) (requestId : String) (out : Outgoing)
  | close
  | reply
  | parse

def Ext.Res : Ext → Type
  | .construct => Unit
  | .expire _ => Unit
  | .clear _ => Unit
  | .release _ => Unit
  | .binary _ _ => Except Err UploadStaging.Accepted
  | .take _ _ => Except Err Staged
  | .randomUUID => String
  /- the file of the backend's response, none when it reports a failure -/
  | .reply => Except Err (Option UploadedFile)
  | _ => Except Err Unit

/-- The memory of a process: the static counter, its objects, and the files its replace calls
    hold, which are local variables of theirs. -/
structure Mem where
  reservedBytes : Int
  objects : List Maps
  held : List (Tid × Staged)

inductive Call where
  | construct
  | begin (object : Nat) (request : UploadRequest)
  | binary (object : Nat) (frame : Option Frame)
  /-- the timer -/
  | expire (object : Nat)
  | clear (object : Nat)
  | replace (object : Nat) (attachments : List Attachment)

@[reducible] def sys : Sys where
  Key := Empty
  Val := fun _ => Unit
  Note := Note
  Ext := Ext
  ExtRes := Ext.Res
  Mem := Mem
  Glob := Unit
  Call := Call
  Err := Err
  ofStore := fun _ => .thrown

/-! ### `replace` -/

/-- Pieces of so many bytes, the last one shorter; `rounds` bounds the loop. -/
def cut (size : Nat) : Nat → List UInt8 → List (List UInt8)
  | 0, _ => []
  | _ + 1, [] => []
  | rounds + 1, bytes => bytes.take size :: cut size rounds (bytes.drop size)

/-- The chunks of a file. -/
def chunksOf (bytes : List UInt8) : List (List UInt8) := cut (256 * 1024) bytes.length bytes

def exec (x : Ext) (h : x.Res = Except Err Unit) : sys.Task Unit := askOr (S := sys) x h

def send (handle requestId : String) (out : Outgoing) : sys.Task Unit :=
  exec (.send handle requestId out) rfl

def sendChunks (handle requestId : String) : Nat → List (List UInt8) → sys.Task Unit
  | _, [] => .ret ()
  | checkedBytes, chunk :: rest =>
    if 1024 * 1024 ≤ checkedBytes then do
      exec .validate rfl
      send handle requestId (.frame (.fileChunk requestId chunk))
      sendChunks handle requestId chunk.length rest
    else do
      send handle requestId (.frame (.fileChunk requestId chunk))
      sendChunks handle requestId (checkedBytes + chunk.length) rest

def outgoingRequest (staged : Staged) (requestId : String) : UploadRequest where
  requestId := requestId
  fileName := staged.file.fileName
  mimeType := staged.file.mimeType
  size := staged.file.size
  modifiedAt := staged.modifiedAt

def outgoingMetadata (staged : Staged) : BeginMetadata where
  mime := staged.file.mimeType
  size := staged.file.size
  encoding := "binary"
  modifiedAt := staged.modifiedAt
  fileName := staged.file.fileName

/-- The frames of a file, with the checks in between. -/
def sendFrames (staged : Staged) (requestId : String) : sys.Task Unit := do
  send staged.file.id requestId (.frame (.fileBegin requestId (outgoingMetadata staged)))
  sendChunks staged.file.id requestId 0 (chunksOf staged.bytes)
  exec .validate rfl
  send staged.file.id requestId (.frame (.fileEnd requestId))

/-- The transfer of a file that was consumed. -/
def transfer (staged : Staged) : sys.Task UploadedFile := do
  exec .validate rfl
  let requestId : String ← ask (S := sys) .randomUUID
  send staged.file.id requestId (.request (outgoingRequest staged requestId))
  match ← (sendFrames staged requestId).attempt with
  | .error e => do
    exec .close rfl
    .fail e
  | .ok () => do
    match ← askOr (S := sys) .reply rfl with
    | none => .fail (.error "Workspace upload failed; inspect before retrying")
    | some file => .ret file

/-- One uploaded attachment: consume, transfer, and give back its bytes in any case. -/
def replaceFile (object : Nat) (attachment : UploadedFile) : sys.Task UploadedFile := do
  let staged : Staged ← askOr (S := sys) (.take object attachment) rfl
  let result ← (transfer staged).attempt
  let _ ← ask (S := sys) (.release staged)
  .ofExcept result

def replaceAttachments (object : Nat) : List Attachment → sys.Task (List Attachment)
  | [] => .ret []
  | .other text :: rest => do
    let attachments ← replaceAttachments object rest
    .ret (.other text :: attachments)
  | .uploaded attachment :: rest => do
    let file ← replaceFile object attachment
    let attachments ← replaceAttachments object rest
    .ret (.uploaded file :: attachments)

def replace (object : Nat) (attachments : List Attachment) : sys.Task (List Attachment) :=
  if attachments = [] then .ret []
  else do
    let _ ← ask (S := sys) (.expire object)
    let replaced ← replaceAttachments object attachments
    exec .parse rfl
    .ret replaced

inductive Out where
  | done
  | binary (accepted : UploadStaging.Accepted)
  | replaced (attachments : List Attachment)

def program : Call → sys.Task Out
  | .construct => do
    let _ ← ask (S := sys) .construct
    .ret .done
  | .begin object request => do
    exec (.begin object request) rfl
    .ret .done
  | .binary object frame => do
    let accepted : UploadStaging.Accepted ← askOr (S := sys) (.binary object frame) rfl
    .ret (.binary accepted)
  | .expire object => do
    let _ ← ask (S := sys) (.expire object)
    .ret .done
  | .clear object => do
    let _ ← ask (S := sys) (.clear object)
    .ret .done
  | .replace object attachments => do
    let replaced ← replace object attachments
    .ret (.replaced replaced)

/-! ### The processes -/

/-- What the environment decides about one request. -/
structure Choice where
  now : Int := 0
  stamp : Int := 0
  uuid : String := ""
  failed : Bool := false
  file : Option UploadedFile := none

/-- An object of the process, with the counter. -/
def Mem.view (m : Mem) (object : Nat) : Option UploadStaging :=
  m.objects[object]?.map fun maps => ⟨m.reservedBytes, maps⟩

def Mem.put (m : Mem) (object : Nat) (s : UploadStaging) : Mem where
  reservedBytes := s.reservedBytes
  objects := m.objects.set object s.maps
  held := m.held

def ofMessage {α : Type} (r : Except String α) : Except Err α :=
  match r with
  | .ok a => .ok a
  | .error message => .error (.error message)

/-- An exception from outside, or none. -/
def outcome {α : Type} (c : Choice) (a : α) : Except Err α :=
  if c.failed then .error .thrown else .ok a

/-- What the exception is noted as. -/
def thrownNotes (c : Choice) : List Note := if c.failed then [.thrown] else []

abbrev History := Trace Empty (fun _ => Unit) Note

def isUuidNote (uuid : String) : Entry Empty (fun _ => Unit) Note → Bool
  | .note _ (.uuid text) => text == uuid
  | _ => false

/-- The UUID was never drawn. -/
def freshUuid (tr : History) (uuid : String) : Bool := !tr.any (isUuidNote uuid)

def beginNotes (place : Place) (request : UploadRequest) : Except String Unit → List Note
  | .ok _ => [.begun place request]
  | .error _ => []

/-- What an accepted frame is noted as, newest first. -/
def binaryNotes (place : Place) (stamp : Int) (uuid : String) (frame : Option Frame) :
    Except String UploadStaging.Accepted → List Note
  | .ok .frame => match frame with
    | some (.fileChunk requestId payload) => [.chunk place requestId payload]
    | _ => []
  | .ok (.complete file) => match frame with
    | some frame => [.response place frame.requestId file (stamp + ttl), .uuid uuid]
    | none => []
  | _ => []

def answer (c : Choice) (t : Tid) (x : Ext) (w : World sys) : Option (Answer sys x) :=
  let m : Mem := w.mem t.proc
  match x with
  | .construct => some {
      res := ()
      mem := { m with objects := m.objects ++ [⟨{}, {}⟩] }
      glob := () }
  | .begin object request => (m.view object).map fun s =>
    let out := s.beginUpload c.now c.stamp request
    { res := ofMessage out.1
      notes := beginNotes ⟨t.proc, object⟩ request out.1 ++ [.expired ⟨t.proc, object⟩ c.now]
      mem := m.put object out.2
      glob := () }
  | .binary object frame =>
    if freshUuid w.trace c.uuid then (m.view object).map fun s =>
      let out := s.binary c.now c.stamp c.uuid frame
      { res := ofMessage out.1
        notes := binaryNotes ⟨t.proc, object⟩ c.stamp c.uuid frame out.1 ++
          [.expired ⟨t.proc, object⟩ c.now]
        mem := m.put object out.2
        glob := () }
    else none
  | .expire object => (m.view object).map fun s =>
    { res := ()
      notes := [.expired ⟨t.proc, object⟩ c.now]
      mem := m.put object (s.expire c.now)
      glob := () }
  | .clear object => (m.view object).map fun s =>
    { res := ()
      notes := [.cleared ⟨t.proc, object⟩]
      mem := m.put object s.clear
      glob := () }
  | .take object attachment => (m.view object).map fun s =>
    let out := s.take attachment
    { res := ofMessage out.1
      notes := match out.1 with
        | .ok staged => [.taken ⟨t.proc, object⟩ attachment staged]
        | .error _ => []
      mem := match out.1 with
        | .ok staged => { m.put object out.2 with held := (t, staged) :: m.held }
        | .error _ => m.put object out.2
      glob := () }
  | .release staged => some {
      res := ()
      notes := [.released staged]
      mem := { m with
        reservedBytes := m.reservedBytes - staged.file.size
        held := m.held.erase (t, staged) }
      glob := () }
  | .randomUUID =>
    if freshUuid w.trace c.uuid then
      some { res := c.uuid, notes := [.uuid c.uuid], mem := m, glob := () }
    else none
  | .send handle requestId out => some {
      res := outcome c ()
      notes := thrownNotes c ++ [.sent handle requestId out]
      mem := m
      glob := () }
  | .validate => some { res := outcome c (), notes := thrownNotes c, mem := m, glob := () }
  | .close => some { res := outcome c (), notes := thrownNotes c, mem := m, glob := () }
  | .parse => some { res := outcome c (), notes := thrownNotes c, mem := m, glob := () }
  | .reply => some {
      res := outcome c c.file
      notes := if c.failed then [.thrown] else [.replied c.file]
      mem := m
      glob := () }

/-- Any number of objects in any number of processes, and any calls of their methods. -/
def machine : Machine sys where
  Out := Out
  Choice := Choice
  Env := Empty
  program := fun _ => program
  answer := answer
  entry := fun _ _ _ => true
  freshMem := ⟨0, [], []⟩
  afterCrash := fun _ g => g
  env := fun e => e.elim
  env_author := fun {e} => e.elim
  init := {
    trace := []
    mem := fun _ => ⟨0, [], []⟩
    glob := ()
    next := 0
    calls := fun _ => none }
  init_next := rfl
  init_calls := fun _ => rfl

end PaseoGateway.Uploads

/-
  PaseoGateway/UploadHistory.lean
  ===============================
  **The rows of an object and the history of its uploads.**

  The history says what the client sent for a request (`uploadOf`), which upload a handle
  stands for (`Waiting`), and what a backend was sent of it (`sentOf`).  The rows of every
  object agree with the history (`Rows`), so what `replace` consumes is an upload that is
  complete, under the handle it was answered with.
-/
import PaseoGateway.LegalHistory
import PaseoGateway.UploadAccounting

namespace PaseoGateway.Uploads

open Async

/-! ### What the history says -/

/-- What the client sent under a request: the request and the payloads in order. -/
structure Upload where
  request : UploadRequest
  payloads : List (List UInt8)

/-- The bytes of the upload. -/
def Upload.bytes (upload : Upload) : List UInt8 := upload.payloads.flatten

/-- The last accepted request of the client at a place with its chunks. -/
def uploadOf (place : Place) (requestId : String) : History → Option Upload
  | [] => none
  | .note _ (.begun place' request) :: older =>
    if place' = place ∧ request.requestId = requestId then some ⟨request, []⟩
    else uploadOf place requestId older
  | .note _ (.chunk place' requestId' payload) :: older =>
    if place' = place ∧ requestId' = requestId then
      (uploadOf place requestId older).map fun upload =>
        ⟨upload.request, upload.payloads ++ [payload]⟩
    else uploadOf place requestId older
  | _ :: older => uploadOf place requestId older

/-- The entry is no sweep that deletes what expires then, and no `clear`. -/
def Spares (place : Place) (expiresAt : Int) : Entry Empty (fun _ => Unit) Note → Prop
  | .note _ (.expired place' now) => place' = place → now < expiresAt
  | .note _ (.cleared place') => place' ≠ place
  | _ => True

/-- The upload was answered with the handle, and the object has not dropped it since then. -/
def Waiting (tr : History) (place : Place) (upload : Upload) (staged : Staged) : Prop :=
  ∃ newer t requestId older,
    tr = newer ++ .note t (.response place requestId staged.file staged.expiresAt) :: older ∧
    uploadOf place requestId older = some upload ∧
    staged.bytes = upload.bytes ∧ staged.modifiedAt = upload.request.modifiedAt ∧
    ∀ e ∈ newer, Spares place staged.expiresAt e

/-- Somebody consumed the handle. -/
def Consumed (tr : History) (handle : String) : Prop :=
  ∃ t place attachment staged, .note t (.taken place attachment staged) ∈ tr ∧
    attachment.id = handle

/-- What a backend was sent of a handle, in order, with its sender and the request id. -/
def sentOf (handle : String) : History → List (Option Tid × String × Outgoing)
  | [] => []
  | .note t (.sent handle' requestId out) :: older =>
    if handle' = handle then sentOf handle older ++ [(t, requestId, out)]
    else sentOf handle older
  | _ :: older => sentOf handle older

/-- All that is sent of a file. -/
def transferOf (staged : Staged) (requestId : String) : List Outgoing :=
  .request (outgoingRequest staged requestId) ::
    .frame (.fileBegin requestId (outgoingMetadata staged)) ::
    (chunksOf staged.bytes).map (fun chunk => .frame (.fileChunk requestId chunk)) ++
    [.frame (.fileEnd requestId)]

/-- The notes of so many steps of a transfer, newest first, with what came before. -/
def sending (handle requestId : String) (staged : Staged) (place : Place)
    (attachment : UploadedFile) (k : Nat) (before : List Note) : List Note :=
  (((transferOf staged requestId).take k).map (Note.sent handle requestId)).reverse ++
    .uuid requestId :: .taken place attachment staged :: before

/-- The file that a call with these notes (newest first) has consumed and not given back, and
    whether its transfer has come to an end: by an exception or by the backend's answer. -/
def inTransit : List Note → Option (Staged × Bool)
  | [] => none
  | .taken _ _ staged :: _ => some (staged, false)
  | .released _ :: _ => none
  | .thrown :: older => (inTransit older).map fun e => (e.1, true)
  | .replied _ :: older => (inTransit older).map fun e => (e.1, true)
  | _ :: older => inTransit older

abbrev transitOf (t : Tid) (tr : History) : Option (Staged × Bool) :=
  inTransit (notesOf (S := sys) t tr)

/-! ### The law -/

/-- What may be added to a history. -/
inductive Step (calls : Calls sys) (older : History) : Entry Empty (fun _ => Unit) Note → Prop where
  | expired {t : Option Tid} {place : Place} {now : Int} :
      Step calls older (.note t (.expired place now))
  | cleared {t : Option Tid} {place : Place} : Step calls older (.note t (.cleared place))
  | begun {t : Option Tid} {place : Place} {request : UploadRequest} :
      Step calls older (.note t (.begun place request))
  | chunk {t : Option Tid} {place : Place} {requestId : String} {payload : List UInt8} :
      Step calls older (.note t (.chunk place requestId payload))
  | uuid {t : Option Tid} {text : String} (fresh : freshUuid older text = true) :
      Step calls older (.note t (.uuid text))
  | response {t u : Option Tid} {place : Place} {requestId uuid : String} {file : UploadedFile}
      {expiresAt : Int} {upload : Upload} {before : History}
      (drawn : older = .note u (.uuid uuid) :: before) (fresh : freshUuid before uuid = true)
      (known : uploadOf place requestId older = some upload)
      (complete : (upload.bytes.length : Int) = upload.request.size)
      (named : file = ⟨uploadPrefix ++ uuid, upload.request.fileName, upload.request.mimeType,
        upload.request.size, uploadPrefix ++ uuid⟩) :
      Step calls older (.note t (.response place requestId file expiresAt))
  | taken {t : Tid} {object : Nat} {attachments : List Attachment} {attachment : UploadedFile}
      {staged : Staged} {height : Nat} {upload : Upload}
      (called : calls t = some ⟨.replace object attachments, height⟩)
      (named : .uploaded attachment ∈ attachments) (unchanged : staged.file = attachment)
      (swept : ∃ now, .note (some t) (.expired ⟨t.proc, object⟩ now) ∈ older)
      (waiting : Waiting older ⟨t.proc, object⟩ upload staged)
      (first : ¬ Consumed older attachment.id)
      (idle : transitOf t older = none) :
      Step calls older (.note (some t) (.taken ⟨t.proc, object⟩ attachment staged))
  | sent {t : Tid} {place : Place} {attachment : UploadedFile} {staged : Staged} {k : Nat}
      {requestId : String} {before : List Note} {out : Outgoing}
      (noted : notesOf (S := sys) t older =
        sending attachment.id requestId staged place attachment k before)
      (next : (transferOf staged requestId)[k]? = some out) :
      Step calls older (.note (some t) (.sent attachment.id requestId out))
  | thrown {t : Option Tid} : Step calls older (.note t .thrown)
  | replied {t : Option Tid} {file : Option UploadedFile} :
      Step calls older (.note t (.replied file))
  | released {t : Tid} {staged : Staged}
      (ended : transitOf t older = some (staged, true)) :
      Step calls older (.note (some t) (.released staged))

def law : Law sys where
  step calls older e := Step calls older e
  mono := by
    intro calls calls' older e hle h
    cases h with
    | expired => exact .expired
    | cleared => exact .cleared
    | begun => exact .begun
    | chunk => exact .chunk
    | uuid fresh => exact .uuid fresh
    | response drawn fresh known complete named => exact .response drawn fresh known complete named
    | taken called named unchanged swept waiting first idle =>
      exact .taken (hle _ _ called) named unchanged swept waiting first idle
    | sent noted next => exact .sent noted next
    | thrown => exact .thrown
    | replied => exact .replied
    | released ended => exact .released ended

/-! ### The rows of an object -/

/-- A row holds what the client has sent so far. -/
structure Filling (tr : History) (place : Place) (requestId : String) (row : Pending)
    (upload : Upload) : Prop where
  known : uploadOf place requestId tr = some upload
  request : row.request = upload.request
  count : row.bytes = upload.bytes.length
  filled : row.buffer.take row.bytes = upload.bytes
  room : row.buffer.length = row.request.size.toNat
  fits : (row.bytes : Int) ≤ row.request.size

/-- The rows agree with the history. -/
structure Rows (tr : History) (place : Place) (maps : Maps) : Prop where
  pending : ∀ requestId row, maps.pending.get requestId = some row →
    ∃ upload, Filling tr place requestId row upload
  staged : ∀ handle row, maps.staged.get handle = some row →
    row.file.id = handle ∧ ¬ Consumed tr handle ∧ ∃ upload, Waiting tr place upload row

/-- The entry says nothing about the request. -/
def Silent (place : Place) (requestId : String) : Entry Empty (fun _ => Unit) Note → Prop
  | .note _ (.begun place' request) => ¬ (place' = place ∧ request.requestId = requestId)
  | .note _ (.chunk place' requestId' _) => ¬ (place' = place ∧ requestId' = requestId)
  | _ => True

section History

variable {place : Place} {requestId : String} {tr : History} {upload : Upload}
  {staged : Staged}

theorem uploadOf_append {new : History} (h : ∀ e ∈ new, Silent place requestId e) :
    uploadOf place requestId (new ++ tr) = uploadOf place requestId tr := by
  induction new with
  | nil => rfl
  | cons e new ih =>
    have hrest := ih fun e' he' => h e' (List.mem_cons_of_mem _ he')
    have hsilent := h e List.mem_cons_self
    cases e with
    | create a k v => exact k.elim
    | update a k v => exact k.elim
    | delete a k => exact k.elim
    | note a n =>
      cases n with
      | begun place' request =>
        rw [List.cons_append, uploadOf, if_neg hsilent, hrest]
      | chunk place' requestId' payload =>
        rw [List.cons_append, uploadOf, if_neg hsilent, hrest]
      | _ => exact hrest

theorem Waiting.append (h : Waiting tr place upload staged) (new : History)
    (hnew : ∀ e ∈ new, Spares place staged.expiresAt e) :
    Waiting (new ++ tr) place upload staged := by
  obtain ⟨newer, t, requestId, older, rfl, hknown, hbytes, hmodified, hlive⟩ := h
  refine ⟨new ++ newer, t, requestId, older, by simp, hknown, hbytes, hmodified, ?_⟩
  intro e he
  rcases List.mem_append.mp he with hin | hin
  · exact hnew e hin
  · exact hlive e hin

theorem consumed_append (new : History) {handle : String} :
    Consumed (new ++ tr) handle ↔ Consumed new handle ∨ Consumed tr handle := by
  constructor
  · rintro ⟨t, place, attachment, staged, hmem, hid⟩
    rcases List.mem_append.mp hmem with hin | hin
    · exact .inl ⟨t, place, attachment, staged, hin, hid⟩
    · exact .inr ⟨t, place, attachment, staged, hin, hid⟩
  · rintro (⟨t, place, attachment, staged, hmem, hid⟩ | ⟨t, place, attachment, staged, hmem, hid⟩)
    · exact ⟨t, place, attachment, staged, List.mem_append_left _ hmem, hid⟩
    · exact ⟨t, place, attachment, staged, List.mem_append_right _ hmem, hid⟩

theorem Filling.append {row : Pending} (h : Filling tr place requestId row upload)
    (new : History) (hnew : ∀ e ∈ new, Silent place requestId e) :
    Filling (new ++ tr) place requestId row upload :=
  ⟨(uploadOf_append hnew).trans h.known, h.request, h.count, h.filled, h.room, h.fits⟩

end History

section Rows

variable {tr : History} {place : Place} {s : UploadStaging} {maps : Maps} {t : Option Tid}

/-- Entries that concern neither the rows of the place nor their handles. -/
theorem Rows.other (h : Rows tr place maps) (new : History)
    (hsilent : ∀ e ∈ new, ∀ requestId, Silent place requestId e)
    (hspares : ∀ e ∈ new, ∀ expiresAt, Spares place expiresAt e)
    (hconsumed : ∀ handle row, maps.staged.get handle = some row → ¬ Consumed new handle) :
    Rows (new ++ tr) place maps := by
  refine ⟨fun requestId row hrow => ?_, fun handle row hrow => ?_⟩
  · obtain ⟨upload, hfilling⟩ := h.pending requestId row hrow
    exact ⟨upload, hfilling.append _ fun e he => hsilent e he requestId⟩
  · obtain ⟨hid, hnot, upload, hwaiting⟩ := h.staged handle row hrow
    refine ⟨hid, fun hcons => ?_, upload, hwaiting.append _ fun e he => hspares e he _⟩
    rcases (consumed_append _).mp hcons with hin | hin
    · exact hconsumed handle row hrow hin
    · exact hnot hin

theorem not_consumed_cons {n : Note} {handle : String}
    (hn : ∀ place attachment staged, n ≠ .taken place attachment staged) :
    ¬ Consumed [.note t n] handle := by
  rintro ⟨u, place, attachment, staged, hmem, _⟩
  simp only [List.mem_singleton, Entry.note.injEq] at hmem
  exact hn place attachment staged hmem.2.symm

theorem Rows.expire (h : Rows tr place s.maps) (now : Int) :
    Rows (.note t (.expired place now) :: tr) place (s.expire now).maps := by
  refine ⟨fun requestId row hrow => ?_, fun handle row hrow => ?_⟩
  · have hold := ((swept _ _ _ s.maps.pending _).get requestId row hrow).1
    obtain ⟨upload, hfilling⟩ := h.pending requestId row hold
    exact ⟨upload, hfilling.append [_] (by simp [Silent])⟩
  · obtain ⟨hold, hlive⟩ := staged_expire hrow
    obtain ⟨hid, hnot, upload, hwaiting⟩ := h.staged handle row hold
    refine ⟨hid, fun hcons => ?_, upload, hwaiting.append [_] fun e he => ?_⟩
    · rcases (consumed_append [_]).mp hcons with hin | hin
      · exact not_consumed_cons (by simp) hin
      · exact hnot hin
    · rw [List.mem_singleton.mp he]
      exact fun _ => hlive

/-- A pending row is replaced; the client said something about its request, or nothing. -/
theorem Rows.set (h : Rows tr place maps) {requestId : String} {row : Pending} (upload : Upload)
    (new : History) (hsilent : ∀ e ∈ new, ∀ id, id ≠ requestId → Silent place id e)
    (hspares : ∀ e ∈ new, ∀ expiresAt, Spares place expiresAt e)
    (hconsumed : ∀ handle, ¬ Consumed new handle)
    (hrow : Filling (new ++ tr) place requestId row upload) :
    Rows (new ++ tr) place { maps with pending := maps.pending.set requestId row } := by
  refine ⟨fun id row' hrow' => ?_, fun handle row' hrow' => ?_⟩
  · rw [Js.Map.get_set] at hrow'
    by_cases hid : id = requestId
    · subst hid
      rw [if_pos rfl] at hrow'
      obtain rfl := Option.some.inj hrow'
      exact ⟨upload, hrow⟩
    · rw [if_neg hid] at hrow'
      obtain ⟨upload', hfilling⟩ := h.pending id row' hrow'
      exact ⟨upload', hfilling.append _ fun e he => hsilent e he id hid⟩
  · obtain ⟨hid, hnot, upload', hwaiting⟩ := h.staged handle row' hrow'
    refine ⟨hid, fun hcons => ?_, upload', hwaiting.append _ fun e he => hspares e he _⟩
    rcases (consumed_append _).mp hcons with hin | hin
    · exact hconsumed handle hin
    · exact hnot hin

theorem take_bufferSet {buffer payload : List UInt8} {offset : Nat}
    (h : offset ≤ buffer.length) :
    (bufferSet buffer payload offset).take (offset + payload.length) =
      buffer.take offset ++ payload := by
  have hlength : (buffer.take offset ++ payload).length = offset + payload.length := by
    simp [Nat.min_eq_left h]
  rw [bufferSet, ← hlength, List.take_left]

theorem length_bufferSet {buffer payload : List UInt8} {offset : Nat}
    (h : offset + payload.length ≤ buffer.length) :
    (bufferSet buffer payload offset).length = buffer.length := by
  simp only [bufferSet, List.length_append, List.length_take, List.length_drop]
  omega

/-- A request that is accepted begins an upload without bytes. -/
theorem Rows.begun (h : Rows tr place maps) {request : UploadRequest} (hsize : 0 ≤ request.size)
    (expiresAt : Int) :
    Rows (.note t (.begun place request) :: tr) place { maps with
      pending := maps.pending.set request.requestId
        ⟨request, false, List.replicate request.size.toNat 0, 0, 0, expiresAt⟩ } := by
  refine h.set ⟨request, []⟩ [_] ?_ (by simp [Spares])
    (fun _ => not_consumed_cons (by simp)) ⟨?_, rfl, rfl, rfl, by simp, by simpa using hsize⟩
  · intro e he id hid
    rw [List.mem_singleton.mp he]
    exact fun hsame => hid hsame.2.symm
  · simp [uploadOf]

theorem Rows.beginUpload (h : Rows tr place s.maps) (now stamp : Int) (request : UploadRequest) :
    Rows ((beginNotes place request (s.beginUpload now stamp request).1 ++
      [Note.expired place now]).map (.note t) ++ tr) place
      (s.beginUpload now stamp request).2.maps := by
  have hexpired := h.expire (t := t) now
  rcases opened now stamp request s with ⟨message, hout⟩ | ⟨_, hsize, _, _, hout⟩
  · rw [hout]
    exact hexpired
  · rw [hout]
    exact hexpired.begun hsize (stamp + ttl)

theorem Rows.received (h : Rows tr place s.maps) {stamp : Int} {uuid : String}
    {s' : UploadStaging} {notes : List Note} (hs : Received place stamp uuid s s' notes)
    (hnew : ¬ Consumed tr (uploadPrefix ++ uuid)) :
    Rows (notes.map (.note t) ++ tr) place s'.maps := by
  rcases hs with _ | hrow | ⟨hrow, hfits⟩ | ⟨hrow, hfull⟩
  · exact h
  · obtain ⟨upload, hfilling⟩ := h.pending _ _ hrow
    exact h.set upload [] (by simp) (by simp) (by rintro _ ⟨_, _, _, _, hmem, _⟩; simp at hmem)
      ⟨hfilling.known, hfilling.request, hfilling.count, hfilling.filled, hfilling.room,
        hfilling.fits⟩
  · rename_i requestId payload row chunks
    obtain ⟨upload, hfilling⟩ := h.pending _ _ hrow
    have hroom := hfilling.room
    have hbytes : (⟨upload.request, upload.payloads ++ [payload]⟩ : Upload).bytes =
        upload.bytes ++ payload := by simp [Upload.bytes]
    refine h.set ⟨upload.request, upload.payloads ++ [payload]⟩ [_] ?_
      (by simp [Spares]) (fun _ => not_consumed_cons (by simp))
      ⟨?_, hfilling.request, ?_, ?_, ?_, ?_⟩
    · intro e he id hid
      rw [List.mem_singleton.mp he]
      exact fun hsame => hid hsame.2.symm
    · simp [uploadOf, hfilling.known]
    · rw [hbytes, List.length_append, ← hfilling.count]
    · rw [hbytes, ← hfilling.filled]
      exact take_bufferSet (by omega)
    · exact (length_bufferSet (by omega)).trans hroom
    · dsimp only
      omega
  · rename_i requestId row
    obtain ⟨upload, hfilling⟩ := h.pending _ _ hrow
    have hbuffer : row.buffer = upload.bytes := by
      have hroom := hfilling.room
      rw [← hfilling.filled, List.take_of_length_le]
      omega
    have hnotes : ∀ {handle : String}, ¬ Consumed [.note t (.response place requestId
        (uploadedFile row uuid) (stamp + ttl)), .note t (.uuid uuid)] handle := by
      rintro handle ⟨u, place', attachment, staged, hmem, _⟩
      simp at hmem
    refine ⟨fun id row' hrow' => ?_, fun handle row' hrow' => ?_⟩
    · obtain ⟨upload', hfilling'⟩ := h.pending id row' (Js.Map.get_delete_of_some hrow')
      exact ⟨upload', hfilling'.append _ (by simp [Silent])⟩
    · rw [Js.Map.get_set] at hrow'
      by_cases hhandle : handle = uploadPrefix ++ uuid
      · subst hhandle
        rw [if_pos rfl] at hrow'
        obtain rfl := Option.some.inj hrow'
        refine ⟨rfl, fun hcons => ?_, upload, ?_⟩
        · rcases (consumed_append _).mp hcons with hin | hin
          · exact hnotes hin
          · exact hnew hin
        · exact ⟨[], t, requestId, .note t (.uuid uuid) :: tr, rfl, hfilling.known, hbuffer,
            congrArg UploadRequest.modifiedAt hfilling.request, by simp⟩
      · rw [if_neg hhandle] at hrow'
        obtain ⟨hid, hnot, upload', hwaiting⟩ := h.staged handle row' hrow'
        refine ⟨hid, fun hcons => ?_, upload', hwaiting.append _ (by simp [Spares])⟩
        rcases (consumed_append _).mp hcons with hin | hin
        · exact hnotes hin
        · exact hnot hin

theorem Rows.take (h : Rows tr place s.maps) {attachment : UploadedFile} {staged : Staged}
    {s' : UploadStaging} (hout : s.take attachment = (.ok staged, s')) :
    Rows (.note t (.taken place attachment staged) :: tr) place s'.maps ∧
      staged.file = attachment ∧ ¬ Consumed tr attachment.id ∧
      ∃ upload, Waiting tr place upload staged := by
  unfold UploadStaging.take at hout
  split at hout
  · simp at hout
  · rename_i row hrow
    split at hout
    · rename_i hmatches
      simp only [Prod.mk.injEq, Except.ok.injEq] at hout
      obtain ⟨rfl, rfl⟩ := hout
      obtain ⟨hid, hnot, upload, hwaiting⟩ := h.staged _ _ hrow
      refine ⟨⟨fun requestId row' hrow' => ?_, fun handle row' hrow' => ?_⟩, ?_, hnot, upload,
        hwaiting⟩
      · obtain ⟨upload', hfilling⟩ := h.pending requestId row' hrow'
        exact ⟨upload', hfilling.append [_] (by simp [Silent])⟩
      · have hne : handle ≠ attachment.id := by
          rintro rfl
          simp [Js.Map.get_delete] at hrow'
        obtain ⟨hid', hnot', upload', hwaiting'⟩ :=
          h.staged handle row' (Js.Map.get_delete_of_some hrow')
        refine ⟨hid', fun hcons => ?_, upload',
          hwaiting'.append [_] (by simp [Spares])⟩
        rcases (consumed_append [_]).mp hcons with hin | hin
        · obtain ⟨u, place', attachment', staged', hmem, hsame⟩ := hin
          simp only [List.mem_singleton, Entry.note.injEq, Note.taken.injEq] at hmem
          rw [← hsame, hmem.2.2.1] at hne
          exact hne rfl
        · exact hnot' hin
      · simp only [UploadStaging.handleMatches, Bool.and_eq_true, beq_iff_eq] at hmatches
        obtain ⟨⟨⟨⟨_, hname⟩, hmime⟩, hsize⟩, hpath⟩ := hmatches
        rcases attachment with ⟨id, fileName, mimeType, size, path⟩
        cases hfile : row.file
        simp_all
    · simp at hout

theorem Rows.empty : Rows tr place ⟨{}, {}⟩ := ⟨by simp, by simp⟩

theorem Rows.clear : Rows tr place s.clear.maps := by
  refine ⟨fun requestId row hrow => ?_, fun handle row hrow => ?_⟩
  · simp [UploadStaging.clear] at hrow
  · simp [UploadStaging.clear] at hrow

end Rows

/-! ### Handles are answered once -/

theorem uuid_inj {uuid uuid' : String} (h : uploadPrefix ++ uuid = uploadPrefix ++ uuid') :
    uuid = uuid' := by
  have hlists := congrArg String.toList h
  simp only [String.toList_append] at hlists
  exact String.toList_inj.mp (List.append_cancel_left hlists)

section Legal

variable {calls : Calls sys} {newer older tr : History} {place : Place} {file : UploadedFile}

theorem response_step {t : Option Tid} {requestId : String} {expiresAt : Int}
    (h : law.Legal calls (newer ++ .note t (.response place requestId file expiresAt) :: older)) :
    ∃ u uuid before, older = .note u (.uuid uuid) :: before ∧ freshUuid before uuid = true ∧
      file.id = uploadPrefix ++ uuid := by
  have hstep : Step calls older (.note t (.response place requestId file expiresAt)) := h.split.2
  cases hstep with
  | response drawn fresh _ _ named => exact ⟨_, _, _, drawn, fresh, by rw [named]⟩

/-- No earlier response named the handle. -/
theorem response_alone {t : Option Tid} {requestId : String} {expiresAt : Int}
    (h : law.Legal calls (newer ++ .note t (.response place requestId file expiresAt) :: older))
    {u : Option Tid} {place' : Place} {requestId' : String} {file' : UploadedFile}
    {expiresAt' : Int} (hmem : .note u (.response place' requestId' file' expiresAt') ∈ older) :
    file'.id ≠ file.id := by
  intro hsame
  obtain ⟨v, uuid, before, rfl, hfresh, hid⟩ := response_step h
  have hbefore : .note u (.response place' requestId' file' expiresAt') ∈ before := by
    simpa using hmem
  obtain ⟨middle, before', rfl⟩ := List.append_of_mem hbefore
  have hold : law.Legal calls (middle ++
      .note u (.response place' requestId' file' expiresAt') :: before') := h.split.1.1
  obtain ⟨v', uuid', before'', rfl, _, hid'⟩ := response_step hold
  have huuid : uuid' = uuid := uuid_inj (by rw [← hid', ← hid, hsame])
  subst huuid
  exact notMem_of_fresh hfresh v' (by simp)

/-- Two entries of a history, neither of them older than the other. -/
theorem split_unique {newer' older' : History} {e e' : Entry Empty (fun _ => Unit) Note}
    (h : newer ++ e :: older = newer' ++ e' :: older') (hne : e' ∉ older) (hne' : e ∉ older') :
    e = e' ∧ older = older' := by
  rcases List.append_eq_append_iff.mp h with ⟨middle, _, heq⟩ | ⟨middle, _, heq⟩
  · rcases List.cons_eq_append_iff.mp heq with ⟨rfl, heq'⟩ | ⟨middle', rfl, rfl⟩
    · simpa [eq_comm] using heq'
    · exact absurd (List.mem_append_right _ List.mem_cons_self) hne
  · rcases List.cons_eq_append_iff.mp heq with ⟨rfl, heq'⟩ | ⟨middle', rfl, rfl⟩
    · simpa [eq_comm] using heq'
    · exact absurd (List.mem_append_right _ List.mem_cons_self) hne'

/-- A handle stands in one response. -/
theorem response_unique (h : law.Legal calls tr) {newer' older' : History} {t t' : Option Tid}
    {place' : Place} {requestId requestId' : String} {file' : UploadedFile}
    {expiresAt expiresAt' : Int}
    (htr : tr = newer ++ .note t (.response place requestId file expiresAt) :: older)
    (htr' : tr = newer' ++ .note t' (.response place' requestId' file' expiresAt') :: older')
    (hid : file.id = file'.id) :
    (place, requestId, file, expiresAt, older) =
      (place', requestId', file', expiresAt', older') := by
  have hlegal := htr ▸ h
  have hlegal' := htr' ▸ h
  obtain ⟨heq, holder⟩ := split_unique (htr.symm.trans htr')
    (fun hmem => response_alone hlegal hmem hid.symm) fun hmem => response_alone hlegal' hmem hid
  simp only [Entry.note.injEq, Note.response.injEq] at heq
  obtain ⟨_, rfl, rfl, rfl, rfl⟩ := heq
  rw [holder]

/-- What waits under a handle is one upload, at one place. -/
theorem Waiting.unique (h : law.Legal calls tr) {place' : Place} {upload upload' : Upload}
    {staged staged' : Staged} (hw : Waiting tr place upload staged)
    (hw' : Waiting tr place' upload' staged') (hid : staged.file.id = staged'.file.id) :
    place = place' ∧ upload = upload' ∧ staged = staged' := by
  obtain ⟨newer, t, requestId, older, htr, hknown, hbytes, hmodified, _⟩ := hw
  obtain ⟨newer', t', requestId', older', htr', hknown', hbytes', hmodified', _⟩ := hw'
  have hsame := response_unique h htr htr' hid
  simp only [Prod.mk.injEq] at hsame
  obtain ⟨rfl, rfl, hfile, hexpires, rfl⟩ := hsame
  obtain rfl := Option.some.inj (hknown.symm.trans hknown')
  refine ⟨rfl, rfl, ?_⟩
  rcases staged with ⟨file, bytes, modifiedAt, expiresAt⟩
  rcases staged' with ⟨file', bytes', modifiedAt', expiresAt'⟩
  simp_all

/-- A handle that was consumed is one whose UUID was drawn. -/
theorem Consumed.drawn (h : law.Legal calls tr) {handle : String} (hcons : Consumed tr handle) :
    ∃ u uuid, handle = uploadPrefix ++ uuid ∧ .note u (.uuid uuid) ∈ tr := by
  obtain ⟨t, place, attachment, staged, hmem, rfl⟩ := hcons
  obtain ⟨newer, older, rfl⟩ := List.append_of_mem hmem
  have hstep : Step calls older (.note t (.taken place attachment staged)) := h.split.2
  cases hstep with
  | taken _ _ unchanged _ waiting _ _ =>
    obtain ⟨middle, u, requestId, before, rfl, _⟩ := waiting
    have hbefore := h.split.1
    obtain ⟨v, uuid, _, rfl, _, hid⟩ := response_step hbefore
    exact ⟨v, uuid, unchanged ▸ hid, by simp⟩

end Legal

/-! ### The invariant -/

/-- The history is legal, and every object agrees with it. -/
structure Coherent (w : World sys) : Prop where
  numbered : w.Numbered
  legal : law.Legal w.calls w.trace
  rows : ∀ p i maps, (w.mem p).objects[i]? = some maps → Rows w.trace ⟨p, i⟩ maps

/-- The note concerns the rows of no other place, and consumes nothing. -/
def Note.Local (place : Place) : Note → Prop
  | .expired place' _ => place' = place
  | .cleared place' => place' = place
  | .begun place' _ => place' = place
  | .chunk place' _ _ => place' = place
  | .taken _ _ _ => False
  | _ => True

theorem Rows.local {tr : History} (place : Place) {place' : Place} {maps : Maps} {t : Option Tid}
    {notes : List Note} (h : Rows tr place' maps) (hne : place' ≠ place)
    (hnotes : ∀ n ∈ notes, n.Local place) : Rows (notes.map (.note t) ++ tr) place' maps := by
  have hlocal : ∀ (u : Option Tid) (n : Note), .note u n ∈ (notes.map (.note t) : History) →
      n.Local place := by
    intro u n hmem
    obtain ⟨n', hn', heq⟩ := List.mem_map.mp hmem
    simp only [Entry.note.injEq] at heq
    exact heq.2 ▸ hnotes n' hn'
  refine h.other _ (fun e he requestId => ?_) (fun e he expiresAt => ?_) fun handle row _ hcons => ?_
  · obtain ⟨n, hn, rfl⟩ := List.mem_map.mp he
    have hplace := hnotes n hn
    cases n with
    | begun place'' request => exact fun hsame => hne (hsame.1.symm.trans hplace)
    | chunk place'' id payload => exact fun hsame => hne (hsame.1.symm.trans hplace)
    | _ => trivial
  · obtain ⟨n, hn, rfl⟩ := List.mem_map.mp he
    have hplace := hnotes n hn
    cases n with
    | expired place'' now => exact fun hsame => absurd (hsame.symm.trans hplace) hne
    | cleared place'' => exact fun hsame => hne (hsame.symm.trans hplace)
    | _ => trivial
  · obtain ⟨u, place'', attachment, staged, hmem, _⟩ := hcons
    exact hlocal u _ hmem

theorem local_beginNotes (place : Place) (request : UploadRequest) (r : Except String Unit) :
    ∀ n ∈ beginNotes place request r, n.Local place := by
  intro n hn
  cases r with
  | ok u =>
    rw [List.mem_singleton.mp hn]
    rfl
  | error message => simp [beginNotes] at hn

theorem local_thrownNotes (place : Place) (c : Choice) : ∀ n ∈ thrownNotes c, n.Local place := by
  intro n hn
  unfold thrownNotes at hn
  split at hn
  · rw [List.mem_singleton.mp hn]
    trivial
  · simp at hn

theorem local_received {place : Place} {stamp : Int} {uuid : String} {s s' : UploadStaging}
    {notes : List Note} (hs : Received place stamp uuid s s' notes) :
    ∀ n ∈ notes, n.Local place := by
  intro n hn
  rcases hs with _ | _ | _ | _
  · simp at hn
  · simp at hn
  · rw [List.mem_singleton.mp hn]
    rfl
  · rcases List.mem_cons.mp hn with rfl | hn
    · trivial
    · rw [List.mem_singleton.mp hn]
      trivial

section Answers

variable {w : World sys} {t : Tid} {x : Ext} {c : Choice} {a : Answer sys x}

/-- One object moved, and what was noted concerns it. -/
theorem Coherent.put (hi : Coherent w) {i : Nat} {s s' : UploadStaging}
    (hview : (w.mem t.proc).view i = some s)
    (hlegal : law.Legal w.calls (a.notes.map (.note (some t)) ++ w.trace))
    (hmem : a.mem.objects = ((w.mem t.proc).put i s').objects)
    (hown : Rows w.trace ⟨t.proc, i⟩ s.maps →
      Rows (a.notes.map (.note (some t)) ++ w.trace) ⟨t.proc, i⟩ s'.maps)
    (hothers : ∀ place maps, place ≠ ⟨t.proc, i⟩ → Rows w.trace place maps →
      Rows (a.notes.map (.note (some t)) ++ w.trace) place maps) : Coherent (w.answered t a) := by
  refine ⟨hi.numbered, hlegal, fun p j maps hmaps => ?_⟩
  by_cases hp : p = t.proc
  · subst hp
    rw [World.answered_mem_self, hmem] at hmaps
    change ((w.mem t.proc).objects.set i s'.maps)[j]? = some maps at hmaps
    by_cases hj : j = i
    · subst hj
      have hlt : j < (w.mem t.proc).objects.length := by
        obtain ⟨hget, _⟩ := Balanced.of_view hview
        exact (List.getElem?_eq_some_iff.mp hget).1
      rw [List.getElem?_set_self hlt] at hmaps
      obtain rfl := Option.some.inj hmaps
      exact hown (hi.rows t.proc j s.maps (Balanced.of_view hview).1)
    · rw [List.getElem?_set_ne (Ne.symm hj)] at hmaps
      exact hothers _ _ (by simpa using hj) (hi.rows t.proc j maps hmaps)
  · rw [World.answered_mem_ne hp] at hmaps
    exact hothers _ _ (by simp [hp]) (hi.rows p j maps hmaps)

/-- No object moved, and what was noted concerns none. -/
theorem Coherent.same (hi : Coherent w)
    (hlegal : law.Legal w.calls (a.notes.map (.note (some t)) ++ w.trace))
    (hmem : a.mem.objects = (w.mem t.proc).objects)
    (hnotes : ∀ n ∈ a.notes, ∀ place, n.Local place) : Coherent (w.answered t a) := by
  refine ⟨hi.numbered, hlegal, fun p j maps hmaps => ?_⟩
  have hrows : Rows w.trace ⟨p, j⟩ maps := by
    by_cases hp : p = t.proc
    · subst hp
      rw [World.answered_mem_self, hmem] at hmaps
      exact hi.rows t.proc j maps hmaps
    · rw [World.answered_mem_ne hp] at hmaps
      exact hi.rows p j maps hmaps
  exact hrows.local ⟨p, j + 1⟩ (by simp) fun n hn => hnotes n hn _

theorem forks_nil (ha : answer c t x w = some a) : a.forks = [] := by
  cases x with
  | construct =>
    obtain rfl := Option.some.inj ha
    rfl
  | begin object request =>
    obtain ⟨s, _, rfl⟩ := Option.map_eq_some_iff.mp ha
    rfl
  | binary object frame =>
    simp only [answer] at ha
    split at ha
    · obtain ⟨s, _, rfl⟩ := Option.map_eq_some_iff.mp ha
      rfl
    · simp at ha
  | expire object =>
    obtain ⟨s, _, rfl⟩ := Option.map_eq_some_iff.mp ha
    rfl
  | clear object =>
    obtain ⟨s, _, rfl⟩ := Option.map_eq_some_iff.mp ha
    rfl
  | take object attachment =>
    obtain ⟨s, _, rfl⟩ := Option.map_eq_some_iff.mp ha
    rfl
  | randomUUID =>
    simp only [answer] at ha
    split at ha
    · obtain rfl := Option.some.inj ha
      rfl
    · simp at ha
  | _ =>
    obtain rfl := Option.some.inj ha
    rfl

/-- A request keeps the invariant when its notes are legal. -/
theorem Coherent.answered (hi : Coherent w) (ha : answer c t x w = some a)
    (hlegal : law.Legal w.calls (a.notes.map (.note (some t)) ++ w.trace)) :
    Coherent (w.answered t a) := by
  cases x with
  | construct =>
    obtain rfl := Option.some.inj ha
    refine ⟨hi.numbered, hlegal, fun p j maps hmaps => ?_⟩
    by_cases hp : p = t.proc
    · subst hp
      rw [World.answered_mem_self] at hmaps
      by_cases hlt : j < (w.mem t.proc).objects.length
      · rw [List.getElem?_append_left hlt] at hmaps
        exact hi.rows t.proc j maps hmaps
      · rw [List.getElem?_append_right (Nat.le_of_not_lt hlt)] at hmaps
        rw [List.mem_singleton.mp (List.mem_of_getElem? hmaps)]
        exact Rows.empty
    · rw [World.answered_mem_ne hp] at hmaps
      exact hi.rows p j maps hmaps
  | begin object request =>
    obtain ⟨s, hview, rfl⟩ := Option.map_eq_some_iff.mp ha
    refine hi.put hview hlegal rfl (fun h => h.beginUpload c.now c.stamp request) ?_
    intro place maps hne h
    refine h.local _ hne fun n hn => ?_
    rcases List.mem_append.mp hn with hn | hn
    · exact local_beginNotes _ _ _ n hn
    · rw [List.mem_singleton.mp hn]
      rfl
  | binary object frame =>
    simp only [answer] at ha
    split at ha
    · rename_i hfresh
      obtain ⟨s, hview, rfl⟩ := Option.map_eq_some_iff.mp ha
      have hreceived := received ⟨t.proc, object⟩ c.now c.stamp c.uuid frame s
      refine hi.put hview hlegal rfl (fun h => ?_) fun place maps hne h => ?_
      · have hnew : ¬ Consumed (.note (some t) (.expired ⟨t.proc, object⟩ c.now) :: w.trace)
            (uploadPrefix ++ c.uuid) := by
          intro hcons
          rcases (consumed_append [_]).mp hcons with hin | hin
          · exact not_consumed_cons (by simp) hin
          · obtain ⟨u, uuid, heq, hmem⟩ := hin.drawn hi.legal
            obtain rfl := uuid_inj heq
            exact notMem_of_fresh hfresh u hmem
        have hrows := (h.expire (t := some t) c.now).received (t := some t) hreceived hnew
        simpa using hrows
      · refine h.local _ hne fun n hn => ?_
        rcases List.mem_append.mp hn with hn | hn
        · exact local_received hreceived n hn
        · rw [List.mem_singleton.mp hn]
          rfl
    · simp at ha
  | expire object =>
    obtain ⟨s, hview, rfl⟩ := Option.map_eq_some_iff.mp ha
    refine hi.put hview hlegal rfl (fun h => h.expire c.now) fun place maps hne h => ?_
    exact h.local _ hne (by simp [Note.Local])
  | clear object =>
    obtain ⟨s, hview, rfl⟩ := Option.map_eq_some_iff.mp ha
    refine hi.put hview hlegal rfl (fun _ => Rows.clear) fun place maps hne h => ?_
    exact h.local _ hne (by simp [Note.Local])
  | take object attachment =>
    obtain ⟨s, hview, ⟨message, hout, rfl⟩ | ⟨staged, hout, rfl⟩⟩ := answer_take (c := c) ha
    · refine hi.put hview hlegal rfl (fun h => ?_) fun place maps hne h => h
      have hsame : (s.take attachment).2 = s := by
        unfold UploadStaging.take at hout ⊢
        split at hout
        · rfl
        · split at hout
          · simp at hout
          · rename_i hmatches
            rw [if_neg hmatches]
      rw [hsame]
      exact h
    · have hrows := hi.rows t.proc object s.maps (Balanced.of_view hview).1
      have htake := hrows.take (t := some t) (Prod.ext hout rfl)
      refine hi.put hview hlegal rfl (fun _ => htake.1) fun place maps hne h => ?_
      obtain ⟨_, hunchanged, _, upload, hwaiting⟩ := htake
      refine h.other [_] (by simp [Silent]) (by simp [Spares])
        fun handle row hrow hcons => hne ?_
      -- a row of another place has another handle
      obtain ⟨u, place', attachment', staged', hmem, hid⟩ := hcons
      simp only [List.mem_singleton, Entry.note.injEq, Note.taken.injEq] at hmem
      obtain ⟨hrowid, _, upload', hwaiting'⟩ := h.staged handle row hrow
      refine (hwaiting'.unique hi.legal hwaiting ?_).1
      rw [hrowid, ← hid, hunchanged, hmem.2.2.1]
  | release staged =>
    obtain rfl := Option.some.inj ha
    exact hi.same hlegal rfl (by simp [Note.Local])
  | randomUUID =>
    simp only [answer] at ha
    split at ha
    · obtain rfl := Option.some.inj ha
      exact hi.same hlegal rfl (by simp [Note.Local])
    · simp at ha
  | send handle requestId out =>
    obtain rfl := Option.some.inj ha
    refine hi.same hlegal rfl fun n hn place => ?_
    rcases List.mem_append.mp hn with hn | hn
    · exact local_thrownNotes place c n hn
    · rw [List.mem_singleton.mp hn]
      trivial
  | reply =>
    obtain rfl := Option.some.inj ha
    refine hi.same hlegal rfl fun n hn place => ?_
    split at hn
    · rw [List.mem_singleton.mp hn]
      trivial
    · rw [List.mem_singleton.mp hn]
      trivial
  | _ =>
    obtain rfl := Option.some.inj ha
    exact hi.same hlegal rfl fun n hn place => local_thrownNotes place c n hn

/-- The request neither consumes a file, nor sends anything of it, nor gives it back. -/
def Ext.Free : Ext → Prop
  | .take _ _ => False
  | .send _ _ _ => False
  | .release _ => False
  | _ => True

theorem legal_received {tr : History} {calls : Calls sys} {place : Place} {stamp : Int}
    {uuid : String} {s s' : UploadStaging} {notes : List Note} {u : Option Tid}
    (hlegal : law.Legal calls tr) (hrows : Rows tr place s.maps)
    (hs : Received place stamp uuid s s' notes) (hfresh : freshUuid tr uuid = true) :
    law.Legal calls (notes.map (.note u) ++ tr) := by
  rcases hs with _ | _ | _ | ⟨hrow, hfull⟩
  · exact hlegal
  · exact hlegal
  · exact ⟨hlegal, .chunk⟩
  · rename_i requestId row
    obtain ⟨upload, hfilling⟩ := hrows.pending _ _ hrow
    have hcount := hfilling.count
    have hrequest := hfilling.request
    refine ⟨⟨hlegal, .uuid hfresh⟩, .response rfl hfresh hfilling.known ?_ ?_⟩
    · rw [← hrequest]
      omega
    · rw [← hrequest]
      simp [uploadedFile, hfull]

theorem legal_thrownNotes {tr : History} {calls : Calls sys} {u : Option Tid}
    (hlegal : law.Legal calls tr) (c : Choice) :
    law.Legal calls ((thrownNotes c).map (.note u) ++ tr) := by
  unfold thrownNotes
  split
  · exact ⟨hlegal, .thrown⟩
  · exact hlegal

theorem legal_free (hi : Coherent w) (hx : x.Free) (ha : answer c t x w = some a) :
    law.Legal w.calls (a.notes.map (.note (some t)) ++ w.trace) := by
  cases x with
  | begin object request =>
    obtain ⟨s, _, rfl⟩ := Option.map_eq_some_iff.mp ha
    rcases opened c.now c.stamp request s with ⟨message, hout⟩ | ⟨_, _, _, _, hout⟩
    · rw [hout]
      exact ⟨hi.legal, .expired⟩
    · rw [hout]
      exact ⟨⟨hi.legal, .expired⟩, .begun⟩
  | binary object frame =>
    simp only [answer] at ha
    split at ha
    · rename_i hfresh
      obtain ⟨s, hview, rfl⟩ := Option.map_eq_some_iff.mp ha
      have hrows := hi.rows t.proc object s.maps (Balanced.of_view hview).1
      have hlegal : law.Legal w.calls (.note (some t) (.expired ⟨t.proc, object⟩ c.now) :: w.trace) :=
        ⟨hi.legal, .expired⟩
      have hnotes := legal_received (u := some t) hlegal (hrows.expire c.now)
        (received ⟨t.proc, object⟩ c.now c.stamp c.uuid frame s)
        (by simpa [freshUuid, isUuidNote] using hfresh)
      simpa using hnotes
    · simp at ha
  | expire object =>
    obtain ⟨s, _, rfl⟩ := Option.map_eq_some_iff.mp ha
    exact ⟨hi.legal, .expired⟩
  | clear object =>
    obtain ⟨s, _, rfl⟩ := Option.map_eq_some_iff.mp ha
    exact ⟨hi.legal, .cleared⟩
  | take object attachment => exact hx.elim
  | send handle requestId out => exact hx.elim
  | release staged => exact hx.elim
  | randomUUID =>
    simp only [answer] at ha
    split at ha
    · rename_i hfresh
      obtain rfl := Option.some.inj ha
      exact ⟨hi.legal, .uuid hfresh⟩
    · simp at ha
  | construct =>
    obtain rfl := Option.some.inj ha
    exact hi.legal
  | reply =>
    obtain rfl := Option.some.inj ha
    by_cases hfailed : c.failed
    · rw [if_pos hfailed]
      exact ⟨hi.legal, .thrown⟩
    · rw [if_neg hfailed]
      exact ⟨hi.legal, .replied⟩
  | _ =>
    obtain rfl := Option.some.inj ha
    exact legal_thrownNotes hi.legal c

end Answers

end PaseoGateway.Uploads

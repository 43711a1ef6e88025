/-
  PaseoGateway/UploadTransfer.lean
  ================================
  **Uploaded bytes arrive intact and once.**

  A handle is consumed once, and the call that consumed it sends the frames of the transfer
  in order under a request id drawn for it (`Step.sent`); a call that returns has sent the
  last one.  The bytes are given back when the transfer has ended (`Step.released`), before
  the call consumes the next file.
-/
import PaseoGateway.UploadHistory

namespace PaseoGateway.Uploads

open Async

/-! ### The calls -/

/-- The last frame of a handle was sent by the thread. -/
def Ended (t : Tid) (handle : String) (tr : History) : Prop :=
  ∃ requestId, .note (some t) (.sent handle requestId (.frame (.fileEnd requestId))) ∈ tr

/-- A message that was replaced has had all its uploads sent. -/
def delivering : Protocol machine where
  inv := Coherent
  post t call _ _ w := ∀ object attachments, call = .replace object attachments →
    ∀ attachment, .uploaded attachment ∈ attachments → Ended t attachment.id w.trace

section Calls

variable {t : Tid} {w : World sys} {α β : Type}

theorem safe_answer {x : Ext} {k : x.Res → sys.Task α} {Q : α → World sys → Prop}
    {E : Err → World sys → Prop}
    (h : ∀ w' (c : Choice) a, Grows t w w' → Coherent w' → answer c t x w' = some a →
      law.Legal w'.calls (a.notes.map (.note (some t)) ++ w'.trace) ∧
        Safe delivering t (k a.res) Q E (w'.answered t a)) :
    Safe delivering t (.call (.ext x) k) Q E w := by
  refine Safe.ext fun w' hr hi c a ha => ?_
  obtain ⟨hlegal, hk⟩ := h w' c a hr.1 hi ha
  rw [forks_nil ha, World.spawnAll_nil]
  refine ⟨⟨hi.answered ha hlegal, fun _ _ _ => trivial, fun u s hnone hsome => ?_⟩, hk⟩
  rw [World.answered_calls, hnone] at hsome
  simp at hsome

def freeReq : Req sys → Prop
  | .ext x => x.Free
  | .store _ => False

theorem safe_free {p : sys.Task α} (hp : p.Only freeReq) :
    Safe delivering t p (fun _ _ => True) (fun _ _ => True) w := by
  induction p generalizing w with
  | ret a => exact fun _ _ _ => trivial
  | fail e => exact fun _ _ _ => trivial
  | call q k ih =>
    cases q with
    | store q => exact hp.1.elim
    | ext x => exact safe_answer fun w' c a _ hi ha => ⟨legal_free hi hp.1 ha, ih _ (hp.2 _)⟩

/-- The others leave alone what the thread has in transit. -/
theorem transitOf_grows {w' : World sys} (hg : Grows t w w') :
    transitOf t w'.trace = transitOf t w.trace := by
  rw [transitOf, hg.notesOf_eq]

/-- A request that can only fail, and says so. -/
theorem safe_outcome {x : Ext} (hx : x.Free) (hres : x.Res = Except Err Unit)
    (hanswer : ∀ (c : Choice) (w' : World sys) a, answer c t x w' = some a →
      a.notes = thrownNotes c ∧ (hres ▸ a.res : Except Err Unit) = outcome c ())
    {f : Unit → sys.Task β} {Q : β → World sys → Prop} {E : Err → World sys → Prop}
    (hf : ∀ w', Later w w' → notesOf (S := sys) t w'.trace = notesOf (S := sys) t w.trace →
      Safe delivering t (f ()) Q E w')
    (herr : ∀ w', notesOf (S := sys) t w'.trace = .thrown :: notesOf (S := sys) t w.trace →
      E .thrown w') :
    Safe delivering t (exec x hres >>= f) Q E w := by
  refine safe_answer fun w' c a hg hi ha => ⟨legal_free hi hx ha, ?_⟩
  obtain ⟨hnotes, hout⟩ := hanswer c w' a ha
  have hlater : Later w (w'.answered t a) := by
    have hl := Law.later_answered w' t a
    rw [forks_nil ha, World.spawnAll_nil] at hl
    exact hg.later.trans hl
  have hown : notesOf (S := sys) t (w'.answered t a).trace =
      thrownNotes c ++ notesOf (S := sys) t w.trace := by
    rw [World.answered_trace, notesOf_own, hnotes, hg.notesOf_eq]
  change Safe delivering t (Prog.ofExcept (hres ▸ a.res) >>= f) Q E _
  rw [hout]
  by_cases hfailed : c.failed
  · rw [thrownNotes, if_pos hfailed] at hown
    rw [outcome, if_pos hfailed]
    exact Safe.fail fun w'' hr _ => herr w'' (hr.1.notesOf_eq.trans hown)
  · rw [thrownNotes, if_neg hfailed] at hown
    rw [outcome, if_neg hfailed]
    exact hf _ hlater hown

theorem safe_validate {f : Unit → sys.Task β} {Q : β → World sys → Prop}
    {E : Err → World sys → Prop}
    (hf : ∀ w', Later w w' → notesOf (S := sys) t w'.trace = notesOf (S := sys) t w.trace →
      Safe delivering t (f ()) Q E w')
    (herr : ∀ w', notesOf (S := sys) t w'.trace = .thrown :: notesOf (S := sys) t w.trace →
      E .thrown w') :
    Safe delivering t (exec .validate rfl >>= f) Q E w := by
  refine safe_outcome (x := .validate) trivial rfl (fun c w' a ha => ?_) hf herr
  obtain rfl := Option.some.inj ha
  exact ⟨rfl, rfl⟩

section Transfer

variable {staged : Staged} {requestId : String} {place : Place} {before : List Note} {k : Nat}

theorem sending_succ {out : Outgoing} (h : (transferOf staged requestId)[k]? = some out) :
    sending staged.file.id requestId staged place staged.file (k + 1) before =
      .sent staged.file.id requestId out ::
        sending staged.file.id requestId staged place staged.file k before := by
  simp [sending, List.take_add_one, h]

theorem inTransit_sent {handle : String} (outs : List Outgoing) {older : List Note} :
    inTransit (outs.map (Note.sent handle requestId) ++ older) = inTransit older := by
  induction outs with
  | nil => rfl
  | cons out outs ih => exact ih

/-- The notes of a transfer that goes on say which file it is. -/
theorem inTransit_sending {attachment : UploadedFile} :
    inTransit (sending attachment.id requestId staged place attachment k before) =
      some (staged, false) := by
  rw [sending, ← List.map_reverse, inTransit_sent]
  rfl

/-- The transfer of a file has come to an end, and its bytes are still counted. -/
def Over (t : Tid) (staged : Staged) (w : World sys) : Prop :=
  transitOf t w.trace = some (staged, true)

theorem over_of_thrown (h : notesOf (S := sys) t w.trace = .thrown ::
    sending staged.file.id requestId staged place staged.file k before) : Over t staged w := by
  rw [Over, transitOf, h, inTransit, inTransit_sending]
  rfl

theorem safe_randomUUID {f : String → sys.Task β} {Q : β → World sys → Prop}
    {E : Err → World sys → Prop}
    (hf : ∀ uuid w', Later w w' →
      notesOf (S := sys) t w'.trace = .uuid uuid :: notesOf (S := sys) t w.trace →
      Safe delivering t (f uuid) Q E w') :
    Safe delivering t (ask (S := sys) .randomUUID >>= f) Q E w := by
  refine safe_answer fun w' c a hg hi ha => ⟨legal_free (c := c) hi trivial ha, ?_⟩
  simp only [answer] at ha
  split at ha
  · obtain rfl := Option.some.inj ha
    let a : Answer sys .randomUUID := ⟨c.uuid, [.uuid c.uuid], w'.mem t.proc, (), []⟩
    refine hf c.uuid _ (hg.later.trans (Law.later_answered w' t a)) ?_
    rw [World.answered_trace, notesOf_own, hg.notesOf_eq]
    rfl
  · simp at ha

/-- The next frame of a transfer. -/
theorem safe_send {out : Outgoing} {f : Unit → sys.Task β} {Q : β → World sys → Prop}
    (hnotes : notesOf (S := sys) t w.trace =
      sending staged.file.id requestId staged place staged.file k before)
    (hnext : (transferOf staged requestId)[k]? = some out)
    (hf : ∀ w', Later w w' → notesOf (S := sys) t w'.trace =
        sending staged.file.id requestId staged place staged.file (k + 1) before →
      Safe delivering t (f ()) Q (fun _ w'' => Over t staged w'') w') :
    Safe delivering t (send staged.file.id requestId out >>= f) Q
      (fun _ w' => Over t staged w') w := by
  refine safe_answer fun w' c a hg hi ha => ?_
  obtain rfl := Option.some.inj ha
  have hnotes' := hg.notesOf_eq.trans hnotes
  have hsent : law.Legal w'.calls
      (.note (some t) (.sent staged.file.id requestId out) :: w'.trace) :=
    ⟨hi.legal, .sent hnotes' hnext⟩
  let a : Answer sys (.send staged.file.id requestId out) :=
    ⟨outcome c (), thrownNotes c ++ [.sent staged.file.id requestId out], w'.mem t.proc, (), []⟩
  have hown : notesOf (S := sys) t (w'.answered t a).trace = thrownNotes c ++
      sending staged.file.id requestId staged place staged.file (k + 1) before := by
    rw [World.answered_trace, notesOf_own, hnotes', sending_succ hnext, List.append_assoc]
    rfl
  refine ⟨?_, ?_⟩
  · rw [List.map_append, List.append_assoc]
    exact legal_thrownNotes hsent c
  · change Safe delivering t (Prog.ofExcept (outcome c ()) >>= f) Q _ (w'.answered t a)
    by_cases hfailed : c.failed
    · rw [thrownNotes, if_pos hfailed] at hown
      rw [outcome, if_pos hfailed]
      exact Safe.fail fun w'' hr _ => over_of_thrown (hr.1.notesOf_eq.trans hown)
    · rw [thrownNotes, if_neg hfailed] at hown
      rw [outcome, if_neg hfailed]
      exact hf _ (hg.later.trans (Law.later_answered w' t a)) hown

theorem safe_sendChunks (pre : List Outgoing) {chunks : List (List UInt8)} (checkedBytes : Nat)
    (hsplit : transferOf staged requestId = pre ++
      chunks.map (fun chunk => .frame (.fileChunk requestId chunk)) ++ [.frame (.fileEnd requestId)])
    (hnotes : notesOf (S := sys) t w.trace =
      sending staged.file.id requestId staged place staged.file pre.length before) :
    Safe delivering t (sendChunks staged.file.id requestId checkedBytes chunks)
      (fun _ w' => notesOf (S := sys) t w'.trace = sending staged.file.id requestId staged place
        staged.file (pre.length + chunks.length) before) (fun _ w' => Over t staged w') w := by
  induction chunks generalizing pre checkedBytes w with
  | nil => exact Safe.ret fun w' hr _ => hr.1.notesOf_eq.trans hnotes
  | cons chunk rest ih =>
    have hnext : (transferOf staged requestId)[pre.length]? =
        some (.frame (.fileChunk requestId chunk)) := by simp [hsplit]
    -- the chunk and what follows it
    have hchunk : ∀ (checkedBytes' : Nat) (w' : World sys), notesOf (S := sys) t w'.trace =
        sending staged.file.id requestId staged place staged.file pre.length before →
        Safe delivering t (send staged.file.id requestId (.frame (.fileChunk requestId chunk)) >>=
          fun _ => sendChunks staged.file.id requestId checkedBytes' rest)
          (fun _ w'' => notesOf (S := sys) t w''.trace = sending staged.file.id requestId staged
            place staged.file (pre.length + (rest.length + 1)) before)
          (fun _ w'' => Over t staged w'') w' := by
      intro checkedBytes' w' hnotes'
      refine safe_send hnotes' hnext fun w'' _ hnotes'' => ?_
      have hrest := ih (pre ++ [.frame (.fileChunk requestId chunk)]) checkedBytes'
        (by simpa using hsplit) (by simpa using hnotes'')
      have hlength : (pre ++ [Outgoing.frame (.fileChunk requestId chunk)]).length + rest.length =
          pre.length + (rest.length + 1) := by
        simp only [List.length_append, List.length_singleton]
        omega
      rw [hlength] at hrest
      exact hrest
    unfold sendChunks
    split
    · refine safe_validate (fun w' _ hsame => ?_) fun w' hthrown => ?_
      · exact hchunk chunk.length w' (hsame.trans hnotes)
      · exact over_of_thrown (hnotes ▸ hthrown)
    · exact hchunk (checkedBytes + chunk.length) w hnotes

theorem ended_of_sending {tr : History} {k : Nat}
    (hnotes : notesOf (S := sys) t tr =
      .sent staged.file.id requestId (.frame (.fileEnd requestId)) ::
        sending staged.file.id requestId staged place staged.file k before) :
    Ended t staged.file.id tr := by
  refine ⟨requestId, (mem_notesOf (S := sys)).mp ?_⟩
  rw [hnotes]
  exact List.mem_cons_self

/-- After the request all frames are sent, the last one at the end. -/
theorem safe_sendFrames (hnotes : notesOf (S := sys) t w.trace =
      sending staged.file.id requestId staged place staged.file 1 before) :
    Safe delivering t (sendFrames staged requestId)
      (fun _ w' => Ended t staged.file.id w'.trace ∧ transitOf t w'.trace = some (staged, false))
      (fun _ w' => Over t staged w') w := by
  refine safe_send (k := 1) hnotes rfl fun w' _ hnotes' => ?_
  refine Safe.seq (safe_sendChunks [.request (outgoingRequest staged requestId),
    .frame (.fileBegin requestId (outgoingMetadata staged))] 0 rfl hnotes') ?_
    fun _ _ _ he => he
  intro _ w'' _ _ hnotes''
  refine safe_validate (fun w''' _ hsame => ?_) fun w''' hthrown =>
    over_of_thrown (hnotes'' ▸ hthrown)
  have hend : (transferOf staged requestId)[2 + (chunksOf staged.bytes).length]? =
      some (.frame (.fileEnd requestId)) := by
    simp [transferOf, Nat.add_comm 2]
  rw [← Prog.bind_ret (send _ _ _)]
  refine safe_send (hsame.trans hnotes'') hend fun w₄ _ hnotes₄ => ?_
  refine Safe.ret fun w₅ hr _ => ⟨?_, ?_⟩
  · exact ended_of_sending (hr.1.notesOf_eq.trans (hnotes₄.trans (sending_succ hend)))
  · rw [transitOf, hr.1.notesOf_eq, hnotes₄, inTransit_sending]

theorem Ended.later {handle : String} {w' : World sys} (h : Ended t handle w.trace)
    (hl : Later w w') : Ended t handle w'.trace := by
  obtain ⟨requestId, hmem⟩ := h
  exact ⟨requestId, hl.mem hmem⟩

theorem free_exec {x : Ext} (hx : x.Free) (h : x.Res = Except Err Unit) :
    (exec x h).Only freeReq := ⟨hx, fun _ => only_ofExcept _⟩

/-- A failed transfer closes the connection and passes the error on. -/
theorem safe_close {e : Err} {Q : β → World sys → Prop} (h : Over t staged w) :
    Safe delivering t (exec .close rfl >>= fun _ => .fail e) Q (fun _ w' => Over t staged w') w := by
  refine safe_outcome (x := .close) trivial rfl (fun c w' a ha => ?_) (fun w' _ hsame => ?_)
    fun w' hthrown => ?_
  · obtain rfl := Option.some.inj ha
    exact ⟨rfl, rfl⟩
  · refine Safe.fail fun w'' hr _ => ?_
    rw [Over, transitOf, hr.1.notesOf_eq, hsame]
    exact h
  · rw [Over, transitOf, hthrown, inTransit, ← transitOf, h]
    rfl

/-- The backend's answer ends a transfer. -/
theorem safe_reply {f : Option UploadedFile → sys.Task β} {Q : β → World sys → Prop}
    (h : transitOf t w.trace = some (staged, false))
    (hf : ∀ file w', Later w w' → Over t staged w' →
      Safe delivering t (f file) Q (fun _ w'' => Over t staged w'') w') :
    Safe delivering t (askOr (S := sys) .reply rfl >>= f) Q (fun _ w' => Over t staged w') w := by
  refine safe_answer fun w' c a hg hi ha => ⟨legal_free (c := c) hi trivial ha, ?_⟩
  obtain rfl := Option.some.inj ha
  let a : Answer sys .reply := ⟨outcome c c.file,
    if c.failed then [.thrown] else [.replied c.file], w'.mem t.proc, (), []⟩
  have hover : Over t staged (w'.answered t a) := by
    rw [Over, transitOf, World.answered_trace, notesOf_own, hg.notesOf_eq]
    by_cases hfailed : c.failed
    · simp [a, hfailed, inTransit, h]
    · simp [a, hfailed, inTransit, h]
  change Safe delivering t (Prog.ofExcept (outcome c c.file) >>= f) Q _ (w'.answered t a)
  cases outcome c c.file with
  | ok file => exact hf file _ (hg.later.trans (Law.later_answered w' t a)) hover
  | error e => exact Safe.fail fun w'' hr _ => (transitOf_grows hr.1).trans hover

theorem safe_transfer (place : Place) (before : List Note) (hnotes : notesOf (S := sys) t w.trace =
      .taken place staged.file staged :: before) :
    Safe delivering t (transfer staged)
      (fun _ w' => Ended t staged.file.id w'.trace ∧ Over t staged w')
      (fun _ w' => Over t staged w') w := by
  have hthrown : ∀ w', notesOf (S := sys) t w'.trace = .thrown :: notesOf (S := sys) t w.trace →
      Over t staged w' := by
    intro w' hthrown
    rw [Over, transitOf, hthrown, hnotes]
    rfl
  refine safe_validate (fun w₁ _ hsame => ?_) hthrown
  refine safe_randomUUID fun requestId w₂ _ hdrawn => ?_
  have hnotes₂ : notesOf (S := sys) t w₂.trace =
      sending staged.file.id requestId staged place staged.file 0 before := by
    rw [hdrawn, hsame, hnotes]
    rfl
  refine safe_send (k := 0) hnotes₂ rfl fun w₃ _ hnotes₃ => ?_
  have hframes : Safe delivering t (sendFrames staged requestId).attempt
      (fun r w₄ => (∀ u, r = .ok u → Ended t staged.file.id w₄.trace ∧
        transitOf t w₄.trace = some (staged, false)) ∧ ∀ e, r = .error e → Over t staged w₄)
      (fun _ w₄ => Over t staged w₄) w₃ :=
    Safe.attempt (Safe.mono (safe_sendFrames hnotes₃) (fun _ _ hsent => ⟨fun _ _ => hsent, by simp⟩)
      fun _ _ hover => ⟨by simp, fun _ _ => hover⟩)
  refine Safe.seq hframes ?_ fun _ _ _ he => he
  intro r w₄ _ _ hresult
  cases r with
  | error e => exact safe_close (hresult.2 e rfl)
  | ok u =>
    obtain ⟨hended, hmoving⟩ := hresult.1 u rfl
    refine safe_reply hmoving fun file w₅ hlater hover => ?_
    cases file with
    | none => exact Safe.fail fun w₆ hr _ => (transitOf_grows hr.1).trans hover
    | some file =>
      exact Safe.ret fun w₆ hr _ => ⟨hended.later (hlater.trans hr.1.later),
        (transitOf_grows hr.1).trans hover⟩

/-- The bytes of a file are given back after its transfer. -/
theorem safe_release_over {f : Unit → sys.Task β} {Q : β → World sys → Prop}
    {E : Err → World sys → Prop} (h : Over t staged w)
    (hf : ∀ w', Later w w' → transitOf t w'.trace = none → Safe delivering t (f ()) Q E w') :
    Safe delivering t (ask (S := sys) (.release staged) >>= f) Q E w := by
  refine safe_answer fun w' c a hg hi ha => ?_
  obtain rfl := Option.some.inj ha
  have hover : Over t staged w' := (transitOf_grows hg).trans h
  let a : Answer sys (.release staged) := ⟨(), [.released staged], { w'.mem t.proc with
    reservedBytes := (w'.mem t.proc).reservedBytes - staged.file.size
    held := (w'.mem t.proc).held.erase (t, staged) }, (), []⟩
  refine ⟨⟨hi.legal, .released hover⟩, hf _ (hg.later.trans (Law.later_answered w' t a)) ?_⟩
  rw [transitOf, World.answered_trace, notesOf_own]
  rfl

end Transfer

/-- The call of the thread, which has made its sweep. -/
structure Called (t : Tid) (object : Nat) (attachments : List Attachment) (w : World sys) :
    Prop where
  lt : t.idx < w.next
  call : ∃ height, w.calls t = some ⟨.replace object attachments, height⟩
  swept : ∃ now, .note (some t) (.expired ⟨t.proc, object⟩ now) ∈ w.trace

theorem Called.later {object : Nat} {attachments : List Attachment} {w' : World sys}
    (h : Called t object attachments w) (hl : Later w w') : Called t object attachments w' := by
  obtain ⟨hlt, ⟨height, hcall⟩, now, hswept⟩ := h
  exact ⟨Nat.lt_of_lt_of_le hlt hl.next, ⟨height, (hl.calls t hlt).trans hcall⟩, now,
    hl.mem hswept⟩

/-- An attachment that was replaced has been sent, and its bytes given back. -/
theorem safe_replaceFile_ended {object : Nat} {attachments : List Attachment}
    (hcalled : Called t object attachments w) (hidle : transitOf t w.trace = none)
    {attachment : UploadedFile} (hnamed : .uploaded attachment ∈ attachments) :
    Safe delivering t (replaceFile object attachment)
      (fun _ w' => Ended t attachment.id w'.trace ∧ transitOf t w'.trace = none)
      (fun _ _ => True) w := by
  refine safe_answer fun w₁ c a hg hi ha => ?_
  obtain ⟨s, hview, ⟨message, hout, rfl⟩ | ⟨staged, hout, rfl⟩⟩ := answer_take (c := c) ha
  · exact ⟨hi.legal, Safe.fail fun _ _ _ => trivial⟩
  · have hrows := hi.rows t.proc object s.maps (Balanced.of_view hview).1
    obtain ⟨_, hunchanged, hfirst, upload, hwaiting⟩ :=
      hrows.take (t := some t) (Prod.ext hout rfl)
    obtain ⟨_, ⟨height, hcall⟩, hswept⟩ := hcalled.later hg.later
    refine ⟨⟨hi.legal, .taken hcall hnamed hunchanged hswept hwaiting hfirst
      ((transitOf_grows hg).trans hidle)⟩, ?_⟩
    subst hunchanged
    change Safe delivering t ((transfer staged).attempt >>= fun result =>
      ask (S := sys) (.release staged) >>= fun _ => Prog.ofExcept result) _ _ _
    have htransfer : ∀ w₂, notesOf (S := sys) t w₂.trace =
        .taken ⟨t.proc, object⟩ staged.file staged :: notesOf (S := sys) t w₁.trace →
        Safe delivering t (transfer staged).attempt
          (fun r w₃ => (∀ file, r = .ok file → Ended t staged.file.id w₃.trace) ∧
            Over t staged w₃) (fun _ _ => True) w₂ := fun w₂ hnotes =>
      Safe.attempt (Safe.mono (safe_transfer _ _ hnotes)
        (fun _ _ hended => ⟨fun _ _ => hended.1, hended.2⟩) fun _ _ hover => ⟨by simp, hover⟩)
    refine Safe.seq (htransfer _ ?_) ?_ fun _ _ _ he => he
    · rw [World.answered_trace, notesOf_own]
      rfl
    · intro r w₂ _ _ hresult
      refine safe_release_over hresult.2 fun w₃ hl hidle₃ => ?_
      cases r with
      | ok file =>
        exact Safe.ret fun w₄ hr _ => ⟨(hresult.1 file rfl).later (hl.trans hr.1.later),
          (transitOf_grows hr.1).trans hidle₃⟩
      | error e => exact Safe.fail fun _ _ _ => trivial

/-- What is left of the attachments is replaced. -/
theorem safe_replaceAttachments_ended {object : Nat} {attachments rest : List Attachment}
    (hcalled : Called t object attachments w) (hidle : transitOf t w.trace = none)
    (hsub : ∀ a ∈ rest, a ∈ attachments) :
    Safe delivering t (replaceAttachments object rest)
      (fun _ w' => ∀ attachment, .uploaded attachment ∈ rest → Ended t attachment.id w'.trace)
      (fun _ _ => True) w := by
  induction rest generalizing w with
  | nil => exact Safe.ret fun w' _ _ => by simp
  | cons first rest ih =>
    have hrest : ∀ w', Called t object attachments w' → transitOf t w'.trace = none →
        Safe delivering t (replaceAttachments object rest) (fun _ w'' => ∀ attachment,
          .uploaded attachment ∈ rest → Ended t attachment.id w''.trace) (fun _ _ => True) w' :=
      fun w' hcalled' hidle' => ih hcalled' hidle' fun a ha => hsub a (List.mem_cons_of_mem _ ha)
    cases first with
    | other text =>
      refine Safe.seq (hrest w hcalled hidle) ?_ fun _ _ _ he => he
      intro replaced w' _ _ hended
      refine Safe.ret fun w'' hr _ attachment hmem => ?_
      exact (hended attachment (by simpa using hmem)).later hr.1.later
    | uploaded attachment =>
      refine Safe.seq (safe_replaceFile_ended hcalled hidle (hsub _ List.mem_cons_self)) ?_
        fun _ _ _ he => he
      intro file w' hl _ hfirst
      refine Safe.seq (hrest w' (hcalled.later hl) hfirst.2) ?_ fun _ _ _ he => he
      intro replaced w'' hl' _ hended
      refine Safe.ret fun w₃ hr _ attachment' hmem => ?_
      rcases List.mem_cons.mp hmem with heq | hmem
      · obtain rfl := Attachment.uploaded.inj heq
        exact hfirst.1.later (hl'.trans hr.1.later)
      · exact (hended attachment' hmem).later hr.1.later

theorem safe_replace_ended {object height : Nat} {attachments : List Attachment}
    (hlt : t.idx < w.next) (hcall : w.calls t = some ⟨.replace object attachments, height⟩)
    (hidle : transitOf t w.trace = none) :
    Safe delivering t (replace object attachments) (fun _ w' => ∀ attachment,
      .uploaded attachment ∈ attachments → Ended t attachment.id w'.trace) (fun _ _ => True) w := by
  unfold replace
  split
  · rename_i hnil
    exact Safe.ret fun w' _ _ => by simp [hnil]
  · refine safe_answer fun w₁ c a hg hi ha => ⟨legal_free (c := c) hi trivial ha, ?_⟩
    obtain ⟨s, _, rfl⟩ := Option.map_eq_some_iff.mp ha
    let a : Answer sys (.expire object) := ⟨(), [.expired ⟨t.proc, object⟩ c.now],
      (w₁.mem t.proc).put object (s.expire c.now), (), []⟩
    have hcalled : Called t object attachments (w₁.answered t a) :=
      ⟨Nat.lt_of_lt_of_le hlt hg.next, ⟨height, (hg.calls t hlt).trans hcall⟩, c.now, by simp [a]⟩
    have hidle₁ : transitOf t (w₁.answered t a).trace = none := by
      rw [transitOf, World.answered_trace, notesOf_own]
      exact (transitOf_grows hg).trans hidle
    change Safe delivering t (replaceAttachments object attachments >>= fun replaced =>
      exec .parse rfl >>= fun _ => .ret replaced) _ _ _
    refine Safe.seq (safe_replaceAttachments_ended hcalled hidle₁ fun _ ha => ha) ?_
      fun _ _ _ he => he
    intro replaced w₂ _ _ hended
    refine Safe.seq (safe_free (free_exec (x := .parse) trivial rfl)) ?_ fun _ _ _ he => he
    intro _ w₃ hl' _ _
    exact Safe.ret fun w₄ hr _ attachment hmem =>
      (hended attachment hmem).later (hl'.trans hr.1.later)

theorem safe_call (call : Call) (hlt : t.idx < w.next) {height : Nat}
    (hcall : w.calls t = some ⟨call, height⟩) (hidle : transitOf t w.trace = none) :
    Safe delivering t (program call) (fun _ w' => ∀ object attachments,
      call = .replace object attachments → ∀ attachment, .uploaded attachment ∈ attachments →
        Ended t attachment.id w'.trace) (fun _ _ => True) w := by
  have hfree : (∀ object attachments, call ≠ .replace object attachments) →
      (program call).Only freeReq → Safe delivering t (program call) (fun _ w' =>
        ∀ object attachments, call = .replace object attachments → ∀ attachment,
          .uploaded attachment ∈ attachments → Ended t attachment.id w'.trace)
        (fun _ _ => True) w := by
    intro hne hp
    exact Safe.mono (safe_free hp) (fun _ _ _ object attachments heq =>
      absurd heq (hne object attachments)) fun _ _ he => he
  cases call with
  | construct => exact hfree (by simp) ⟨trivial, fun _ => trivial⟩
  | begin object request =>
    exact hfree (by simp)
      ((free_exec (x := .begin object request) trivial rfl).bind fun _ => trivial)
  | binary object frame =>
    exact hfree (by simp) ⟨trivial, fun _ => (only_ofExcept _).bind fun _ => trivial⟩
  | expire object => exact hfree (by simp) ⟨trivial, fun _ => trivial⟩
  | clear object => exact hfree (by simp) ⟨trivial, fun _ => trivial⟩
  | replace object attachments =>
    refine Safe.seq (safe_replace_ended hlt hcall hidle) ?_ fun _ _ _ he => he
    intro replaced w' _ _ hended
    refine Safe.ret fun w'' hr _ object' attachments' heq attachment hmem => ?_
    obtain ⟨rfl, rfl⟩ := Call.replace.inj heq
    exact (hended attachment hmem).later hr.1.later

end Calls

theorem delivering_sound : delivering.Sound where
  init := ⟨fun _ _ => rfl, trivial, by simp [machine]⟩
  start := by
    intro w p c hi _
    refine ⟨⟨hi.numbered.spawn p c, ?_, hi.rows⟩, fun _ _ => trivial, trivial⟩
    apply hi.legal.mono
    intro u s hs
    have hlt : u.idx < w.next := by
      by_contra hge
      rw [hi.numbered u (by omega)] at hs
      simp at hs
    rw [World.spawn_calls_of_lt hlt]
    exact hs
  crash := by
    intro w p hi
    refine ⟨⟨hi.numbered, hi.legal, fun q i maps hmaps => ?_⟩, fun _ _ => trivial⟩
    by_cases hq : q = p
    · subst hq
      simp [Machine.crashed, machine] at hmaps
    · exact hi.rows q i maps (by simpa [Machine.crashed, hq] using hmaps)
  env := fun {_ e} => e.elim
  body := by
    intro w t c _ _ hcall hlt hnew
    refine safe_call c hlt hcall ?_
    rw [transitOf, notesOf_nil hnew]
    rfl

/-! ### What a backend was sent -/

/-- What the notes say was sent of a handle, in order. -/
def sentIn (handle : String) : List Note → List (String × Outgoing)
  | [] => []
  | .sent handle' requestId out :: older =>
    if handle' = handle then sentIn handle older ++ [(requestId, out)] else sentIn handle older
  | _ :: older => sentIn handle older

section Sent

variable {calls : Calls sys} {tr older : History} {handle : String} {u : Tid}

theorem sentOf_eq_nil : sentOf handle tr = [] ↔
    ∀ t requestId out, .note t (.sent handle requestId out) ∉ tr := by
  induction tr with
  | nil => simp [sentOf]
  | cons e tr ih =>
    cases e with
    | create a k v => exact k.elim
    | update a k v => exact k.elim
    | delete a k => exact k.elim
    | note a n =>
      cases n with
      | sent handle' requestId out =>
        by_cases hh : handle' = handle
        · subst hh
          simp only [sentOf, if_true, List.append_eq_nil_iff, List.cons_ne_self, and_false,
            false_iff, not_forall, not_not]
          exact ⟨a, requestId, out, List.mem_cons_self⟩
        · simp [sentOf, hh, ih, Ne.symm hh]
      | _ => simpa [sentOf] using ih

/-- When one thread sent all of a handle, its notes say what was sent. -/
theorem sentOf_eq_sentIn
    (h : ∀ t requestId out, .note t (.sent handle requestId out) ∈ tr → t = some u) :
    sentOf handle tr =
      (sentIn handle (notesOf (S := sys) u tr)).map fun s => (some u, s.1, s.2) := by
  induction tr with
  | nil => rfl
  | cons e tr ih =>
    have hrest := ih fun t requestId out hmem => h t requestId out (List.mem_cons_of_mem _ hmem)
    cases e with
    | create a k v => exact k.elim
    | update a k v => exact k.elim
    | delete a k => exact k.elim
    | note a n =>
      cases n with
      | sent handle' requestId out =>
        by_cases hh : handle' = handle
        · subst hh
          obtain rfl := h a requestId out List.mem_cons_self
          simp [sentOf, sentIn, notesOf, hrest]
        · by_cases ha : a = some u
          · simp [sentOf, sentIn, notesOf, hh, ha, hrest]
          · simp [sentOf, notesOf, hh, ha, hrest]
      | _ =>
        by_cases ha : a = some u
        · simp [sentOf, sentIn, notesOf, ha, hrest]
        · simp [sentOf, notesOf, ha, hrest]

theorem sentIn_append (newer before : List Note) :
    sentIn handle (newer ++ before) = sentIn handle before ++ sentIn handle newer := by
  induction newer with
  | nil => simp [sentIn]
  | cons n newer ih =>
    cases n with
    | sent handle' requestId out =>
      by_cases hh : handle' = handle
      · simp [sentIn, hh, ih]
      · simp [sentIn, hh, ih]
    | _ => simpa [sentIn] using ih

theorem sentIn_sending {requestId : String} {staged : Staged} {place : Place}
    {attachment : UploadedFile} {k : Nat} {before : List Note}
    (hbefore : sentIn attachment.id before = []) :
    sentIn attachment.id (sending attachment.id requestId staged place attachment k before) =
      ((transferOf staged requestId).take k).map fun out => (requestId, out) := by
  rw [sending, sentIn_append]
  simp only [sentIn, hbefore, List.nil_append]
  generalize (transferOf staged requestId).take k = outs
  induction outs with
  | nil => rfl
  | cons out outs ih => simp [sentIn_append, sentIn, ih]

/-- Where a note of a thread stands in the history. -/
theorem notesOf_split {newer before : List Note} {n : Note}
    (h : notesOf (S := sys) u tr = newer ++ n :: before) :
    ∃ later earlier, tr = later ++ .note (some u) n :: earlier ∧
      notesOf (S := sys) u earlier = before := by
  induction tr generalizing newer with
  | nil => simp [notesOf] at h
  | cons e tr ih =>
    have hskip : ∀ {newer : List Note}, notesOf (S := sys) u tr = newer ++ n :: before →
        ∃ later earlier, e :: tr = later ++ .note (some u) n :: earlier ∧
          notesOf (S := sys) u earlier = before := by
      intro newer hrest
      obtain ⟨later, earlier, rfl, hearlier⟩ := ih hrest
      exact ⟨e :: later, earlier, rfl, hearlier⟩
    cases e with
    | create a k v => exact k.elim
    | update a k v => exact k.elim
    | delete a k => exact k.elim
    | note a n' =>
      by_cases ha : a = some u
      · subst ha
        simp only [notesOf, if_true] at h
        cases newer with
        | nil =>
          obtain ⟨rfl, hbefore⟩ := List.cons.inj h
          exact ⟨[], tr, rfl, hbefore⟩
        | cons n'' newer => exact hskip (List.cons.inj h).2
      · simp only [notesOf, if_neg ha] at h
        exact hskip h

/-- A handle is consumed once. -/
theorem taken_unique (h : law.Legal calls tr) {t t' : Option Tid} {place place' : Place}
    {attachment attachment' : UploadedFile} {staged staged' : Staged}
    (hmem : .note t (.taken place attachment staged) ∈ tr)
    (hmem' : .note t' (.taken place' attachment' staged') ∈ tr)
    (hid : attachment.id = attachment'.id) :
    (t, place, attachment, staged) = (t', place', attachment', staged') := by
  induction tr with
  | nil => simp at hmem
  | cons e tr ih =>
    have hfirst : ∀ {t place attachment staged}, e = .note t (.taken place attachment staged) →
        ¬ Consumed tr attachment.id := by
      rintro t place attachment staged rfl
      have hstep : Step calls tr (.note t (.taken place attachment staged)) := h.2
      cases hstep with
      | taken _ _ _ _ _ first _ => exact first
    rcases List.mem_cons.mp hmem with heq | hold
    · rcases List.mem_cons.mp hmem' with heq' | hold'
      · simpa using heq.trans heq'.symm
      · exact absurd ⟨t', place', attachment', staged', hold', hid.symm⟩ (hfirst heq.symm)
    · rcases List.mem_cons.mp hmem' with heq' | hold'
      · exact absurd ⟨t, place, attachment, staged, hold, hid⟩ (hfirst heq'.symm)
      · exact ih h.1 hold hold'

/-- Who sends a handle has consumed it. -/
theorem taken_of_sent (h : law.Legal calls tr) {t : Option Tid} {requestId : String}
    {out : Outgoing} (hmem : .note t (.sent handle requestId out) ∈ tr) :
    ∃ v place attachment staged k before later earlier, t = some v ∧ attachment.id = handle ∧
      tr = later ++ .note t (.sent handle requestId out) :: earlier ∧
      notesOf (S := sys) v earlier =
        sending attachment.id requestId staged place attachment k before ∧
      (transferOf staged requestId)[k]? = some out ∧
      .note (some v) (.taken place attachment staged) ∈ earlier := by
  obtain ⟨later, earlier, rfl⟩ := List.append_of_mem hmem
  have hstep : Step calls earlier (.note t (.sent handle requestId out)) := h.split.2
  cases hstep with
  | @sent v place attachment staged k _ before _ noted next =>
    refine ⟨v, place, attachment, staged, k, before, later, earlier, rfl, rfl, rfl, noted, next, ?_⟩
    rw [← mem_notesOf (S := sys), noted, sending]
    simp

/-- In the middle of a transfer, what was sent of the handle is its beginning. -/
theorem sentOf_sending (h : law.Legal calls older) {requestId : String} {staged : Staged}
    {place : Place} {attachment : UploadedFile} {k : Nat} {before : List Note}
    (hnotes : notesOf (S := sys) u older =
      sending attachment.id requestId staged place attachment k before) :
    sentOf attachment.id older =
      ((transferOf staged requestId).take k).map fun out => (some u, requestId, out) := by
  rw [sending] at hnotes
  have htaken : .note (some u) (.taken place attachment staged) ∈ older := by
    rw [← mem_notesOf (S := sys), hnotes]
    simp
  have hnotes' : notesOf (S := sys) u older = ((((transferOf staged requestId).take k).map
      (Note.sent attachment.id requestId)).reverse ++ [.uuid requestId]) ++
      .taken place attachment staged :: before := by
    rw [hnotes]
    simp
  obtain ⟨later, earlier, hsplit, hbefore⟩ := notesOf_split hnotes'
  have hfirst : ¬ Consumed earlier attachment.id := by
    have hlegal := hsplit ▸ h
    have hstep : Step calls earlier (.note (some u) (.taken place attachment staged)) :=
      hlegal.split.2
    cases hstep with
    | taken _ _ _ _ _ first _ => exact first
  have hnone : sentIn attachment.id before = [] := by
    have hlegal : law.Legal calls earlier := by
      have hlegal := hsplit ▸ h
      exact hlegal.split.1
    -- a frame sent before would mean that the handle was consumed before
    have hearlier : sentOf attachment.id earlier = [] := by
      rw [sentOf_eq_nil]
      intro t requestId' out hmem
      obtain ⟨v, place', attachment', staged', _, _, _, earlier', rfl, hid, rfl, _, _, hin⟩ :=
        taken_of_sent hlegal hmem
      exact hfirst ⟨some v, place', attachment', staged',
        List.mem_append_right _ (List.mem_cons_of_mem _ hin), hid⟩
    have hown := sentOf_eq_sentIn (u := u)
      fun t requestId' out hmem => absurd hmem (sentOf_eq_nil.mp hearlier t requestId' out)
    rw [hearlier, hbefore] at hown
    exact List.map_eq_nil_iff.mp hown.symm
  have hall : ∀ t requestId' out, .note t (.sent attachment.id requestId' out) ∈ older →
      t = some u := by
    intro t requestId' out hmem
    obtain ⟨v, place', attachment', staged', _, _, _, earlier', rfl, hid, hsplit', _, _, hin⟩ :=
      taken_of_sent h hmem
    have hin' : .note (some v) (.taken place' attachment' staged') ∈ older := by
      rw [hsplit']
      exact List.mem_append_right _ (List.mem_cons_of_mem _ hin)
    exact (Prod.mk.inj (taken_unique h hin' htaken hid)).1
  rw [sentOf_eq_sentIn hall, hnotes, ← sending, sentIn_sending hnone, List.map_map]
  rfl

/-- A UUID is drawn once. -/
theorem uuid_unique (h : law.Legal calls tr) {later later' earlier earlier' : History}
    {t t' : Option Tid} {text : String} (htr : tr = later ++ .note t (.uuid text) :: earlier)
    (htr' : tr = later' ++ .note t' (.uuid text) :: earlier') : t = t' ∧ earlier = earlier' := by
  have hfresh : ∀ {later earlier t}, tr = later ++ .note t (.uuid text) :: earlier →
      ∀ v, .note v (.uuid text) ∉ earlier := by
    rintro later earlier t htr v hmem
    have hlegal := htr ▸ h
    have hstep : Step calls earlier (.note t (.uuid text)) := hlegal.split.2
    cases hstep with
    | uuid fresh => exact notMem_of_fresh fresh v hmem
  obtain ⟨heq, rfl⟩ := split_unique (htr.symm.trans htr') (hfresh htr t') (hfresh htr' t)
  simp only [Entry.note.injEq, and_true] at heq
  exact ⟨heq, rfl⟩

end Sent

/-! ### Every run -/

/-- The request, one begin frame, chunks of bounded size that make up the bytes of the upload
    and one end frame, all under one request id. -/
def Transfer (upload : Upload) (requestId : String) (outs : List Outgoing) : Prop :=
  ∃ chunks : List (List UInt8), (∀ chunk ∈ chunks, chunk.length ≤ 256 * 1024) ∧
    chunks.flatten = upload.bytes ∧
    outs = .request { upload.request with requestId := requestId } ::
      .frame (.fileBegin requestId ⟨upload.request.mimeType, upload.request.size, "binary",
        upload.request.modifiedAt, upload.request.fileName⟩) ::
      chunks.map (fun chunk => .frame (.fileChunk requestId chunk)) ++
      [.frame (.fileEnd requestId)]

/-- The first `k` steps of a transfer are what any backend was sent of the handle; the request id
    was drawn for it, and nothing else was sent under it. -/
structure SentOnce (tr : History) (handle : String) (t : Tid) (requestId : String)
    (upload : Upload) (k : Nat) : Prop where
  sent : ∃ outs, Transfer upload requestId outs ∧ k ≤ outs.length ∧
    sentOf handle tr = (outs.take k).map fun out => (some t, requestId, out)
  drawn : ∃ later earlier, tr = later ++ .note (some t) (.uuid requestId) :: earlier ∧
    freshUuid earlier requestId = true
  own : ∀ u handle' out, .note u (.sent handle' requestId out) ∈ tr → handle' = handle

/-- The handle was consumed by a replace call whose message named it as it was answered, before
    the object dropped it and for the first time. -/
structure Checked (calls : Calls sys) (tr : History) (t : Tid) (handle : String)
    (upload : Upload) : Prop where
  consumed : ∃ object attachments height attachment staged later earlier,
    calls t = some ⟨.replace object attachments, height⟩ ∧
    .uploaded attachment ∈ attachments ∧ attachment.id = handle ∧ staged.file = attachment ∧
    tr = later ++ .note (some t) (.taken ⟨t.proc, object⟩ attachment staged) :: earlier ∧
    Waiting earlier ⟨t.proc, object⟩ upload staged ∧ ¬ Consumed earlier handle ∧
    ∃ now, .note (some t) (.expired ⟨t.proc, object⟩ now) ∈ earlier

/-- What holds of the uploads of a run. -/
structure Delivered (c : machine.Config) : Prop where
  /-- an upload that is answered has its declared size -/
  complete : ∀ newer t place requestId file expiresAt older,
    c.world.trace = newer ++ .note t (.response place requestId file expiresAt) :: older →
    ∃ upload, uploadOf place requestId older = some upload ∧
      (upload.bytes.length : Int) = upload.request.size ∧ file.size = upload.request.size
  /-- of every handle at most one transfer was sent, and only after its check -/
  once : ∀ handle, sentOf handle c.world.trace = [] ∨ ∃ t requestId upload k,
    SentOnce c.world.trace handle t requestId upload k ∧
      Checked c.world.calls c.world.trace t handle upload
  /-- a message that was replaced has had each of its uploads sent -/
  replaced : ∀ t th object attachments out attachment, c.threads t = some th →
    th.call = .replace object attachments → th.prog = .ret out →
    .uploaded attachment ∈ attachments → ∃ requestId upload outs,
      SentOnce c.world.trace attachment.id t requestId upload outs.length ∧
      Transfer upload requestId outs ∧
      sentOf attachment.id c.world.trace = outs.map (fun out => (some t, requestId, out)) ∧
      Checked c.world.calls c.world.trace t attachment.id upload

theorem flatten_cut {size rounds : Nat} {bytes : List UInt8} (hsize : 0 < size)
    (hrounds : bytes.length ≤ rounds) : (cut size rounds bytes).flatten = bytes := by
  induction rounds generalizing bytes with
  | zero =>
    have hnil : bytes = [] := by simpa using hrounds
    subst hnil
    rfl
  | succ rounds ih =>
    cases bytes with
    | nil => rfl
    | cons b bytes =>
      have hrest : ((b :: bytes).drop size).length ≤ rounds := by
        simp only [List.length_cons, List.length_drop] at hrounds ⊢
        omega
      rw [cut, List.flatten_cons, ih hrest, List.take_append_drop]
      simp

theorem length_of_mem_cut {size rounds : Nat} {bytes chunk : List UInt8}
    (h : chunk ∈ cut size rounds bytes) : chunk.length ≤ size := by
  induction rounds generalizing bytes with
  | zero => simp [cut] at h
  | succ rounds ih =>
    cases bytes with
    | nil => simp [cut] at h
    | cons b bytes =>
      rw [cut] at h
      · rcases List.mem_cons.mp h with rfl | hmem
        · simp
        · exact ih hmem
      · simp

section Run

variable {calls : Calls sys} {tr : History}

theorem complete_of_response (h : law.Legal calls tr) {newer older : History} {t : Option Tid}
    {place : Place} {requestId : String} {file : UploadedFile} {expiresAt : Int}
    (htr : tr = newer ++ .note t (.response place requestId file expiresAt) :: older) :
    ∃ upload uuid, uploadOf place requestId older = some upload ∧
      (upload.bytes.length : Int) = upload.request.size ∧
      file = ⟨uploadPrefix ++ uuid, upload.request.fileName, upload.request.mimeType,
        upload.request.size, uploadPrefix ++ uuid⟩ := by
  have hlegal := htr ▸ h
  have hstep : Step calls older (.note t (.response place requestId file expiresAt)) :=
    hlegal.split.2
  cases hstep with
  | response _ _ known complete named => exact ⟨_, _, known, complete, named⟩

/-- What is sent of a consumed file is the client's upload. -/
theorem transfer_transferOf (h : law.Legal calls tr) {place : Place} {upload : Upload}
    {staged : Staged} (hwaiting : Waiting tr place upload staged) (requestId : String) :
    Transfer upload requestId (transferOf staged requestId) := by
  obtain ⟨newer, t, requestId', older, htr, hknown, hbytes, hmodified, _⟩ := hwaiting
  obtain ⟨upload', uuid, hknown', _, hfile⟩ := complete_of_response h htr
  obtain rfl := Option.some.inj (hknown.symm.trans hknown')
  refine ⟨chunksOf staged.bytes, fun chunk hmem => length_of_mem_cut hmem, ?_, ?_⟩
  · rw [chunksOf, flatten_cut (by decide) (Nat.le_refl _), hbytes]
  · simp [transferOf, outgoingRequest, outgoingMetadata, hfile, hmodified]

theorem checked_of_taken (h : law.Legal calls tr) {t : Tid} {place : Place}
    {attachment : UploadedFile} {staged : Staged}
    (hmem : .note (some t) (.taken place attachment staged) ∈ tr) :
    ∃ upload, Checked calls tr t attachment.id upload ∧
      ∀ requestId, Transfer upload requestId (transferOf staged requestId) := by
  obtain ⟨later, earlier, rfl⟩ := List.append_of_mem hmem
  have hstep : Step calls earlier (.note (some t) (.taken place attachment staged)) := h.split.2
  cases hstep with
  | taken called named unchanged swept waiting first _ =>
    exact ⟨_, ⟨_, _, _, _, _, later, earlier, called, named, rfl, unchanged, rfl, waiting, first,
      swept⟩, transfer_transferOf h.split.1 waiting⟩

/-- So far the transfer of a handle has come to its step `k`. -/
theorem sentOnce_of_notes (h : law.Legal calls tr) {older newer : History} (htr : tr = newer ++ older)
    {t : Tid} {requestId : String} {staged : Staged} {place : Place} {attachment : UploadedFile}
    {k : Nat} {before : List Note} (hk : k ≤ (transferOf staged requestId).length)
    (hnotes : notesOf (S := sys) t older =
      sending attachment.id requestId staged place attachment k before)
    (hsent : sentOf attachment.id tr =
      ((transferOf staged requestId).take k).map fun out => (some t, requestId, out)) :
    ∃ upload, SentOnce tr attachment.id t requestId upload k ∧
      Transfer upload requestId (transferOf staged requestId) ∧
      Checked calls tr t attachment.id upload := by
  have hin : ∀ n ∈ sending attachment.id requestId staged place attachment k before,
      .note (some t) n ∈ tr := by
    intro n hn
    rw [← hnotes, mem_notesOf (S := sys)] at hn
    rw [htr]
    exact List.mem_append_right _ hn
  have htaken := hin (.taken place attachment staged) (by simp [sending])
  obtain ⟨upload, hchecked, htransfer⟩ := checked_of_taken h htaken
  obtain ⟨later, earlier, hsplit, hbefore⟩ := notesOf_split hnotes
  have htr' : tr = (newer ++ later) ++ .note (some t) (.uuid requestId) :: earlier := by
    rw [htr, hsplit, List.append_assoc]
  refine ⟨upload, ⟨⟨_, htransfer requestId, hk, hsent⟩, ⟨_, earlier, htr', ?_⟩, ?_⟩,
    htransfer requestId, hchecked⟩
  · have hlegal := htr' ▸ h
    have hstep : Step calls earlier (.note (some t) (.uuid requestId)) := hlegal.split.2
    cases hstep with
    | uuid fresh => exact fresh
  · -- whoever sends under the request id drew it for the handle it had consumed just before
    intro u handle' out hmem
    obtain ⟨v, place', attachment', staged', k', before', later', older', rfl, rfl, hsplit',
      hnotes', _⟩ := taken_of_sent h hmem
    obtain ⟨middle, earlier', hsplit'', hbefore'⟩ := notesOf_split hnotes'
    have huuid : tr = (later' ++ .note (some v) (.sent attachment'.id requestId out) :: middle) ++
        .note (some v) (.uuid requestId) :: earlier' := by
      rw [hsplit', hsplit'', List.append_assoc, List.cons_append]
    obtain ⟨heq, rfl⟩ := uuid_unique h htr' huuid
    obtain rfl := Option.some.inj heq
    have hsame := hbefore.symm.trans hbefore'
    simp only [List.cons.injEq, Note.taken.injEq] at hsame
    rw [hsame.1.2.1]

/-- The last frame that was sent of a handle is a step of its transfer. -/
theorem last_sent (h : law.Legal calls tr) {handle : String} (hsome : sentOf handle tr ≠ []) :
    ∃ t requestId staged place attachment k before newer older, tr = newer ++ older ∧
      attachment.id = handle ∧ k ≤ (transferOf staged requestId).length ∧
      notesOf (S := sys) t older = sending attachment.id requestId staged place attachment k before ∧
      sentOf handle tr =
        ((transferOf staged requestId).take k).map fun out => (some t, requestId, out) := by
  induction tr with
  | nil => exact absurd rfl hsome
  | cons e tr ih =>
    by_cases hsame : sentOf handle (e :: tr) = sentOf handle tr
    · rw [hsame] at hsome ⊢
      obtain ⟨t, requestId, staged, place, attachment, k, before, newer, older, rfl, hrest⟩ :=
        ih h.1 hsome
      exact ⟨t, requestId, staged, place, attachment, k, before, e :: newer, older, rfl, hrest⟩
    · have hstep : Step calls tr e := h.2
      cases hstep with
      | @sent u place attachment staged k requestId before out noted next =>
        by_cases hh : attachment.id = handle
        · subst hh
          obtain ⟨hk, _⟩ := List.getElem?_eq_some_iff.mp next
          refine ⟨u, requestId, staged, place, attachment, k + 1, before, [], _, rfl, rfl, hk, ?_, ?_⟩
          · simp [notesOf, noted, sending, List.take_add_one, next]
          · simp [sentOf, sentOf_sending h.1 noted, List.take_add_one, next]
        · exact absurd (by simp [sentOf, hh]) hsame
      | _ => exact absurd rfl hsame

theorem mem_sentOf {handle requestId : String} {t : Option Tid} {out : Outgoing}
    (h : .note t (.sent handle requestId out) ∈ tr) :
    (t, requestId, out) ∈ sentOf handle tr := by
  induction tr with
  | nil => simp at h
  | cons e tr ih =>
    rcases List.mem_cons.mp h with rfl | hold
    · simp [sentOf]
    · have hin := ih hold
      cases e with
      | create a k v => exact k.elim
      | update a k v => exact k.elim
      | delete a k => exact k.elim
      | note a n =>
        cases n with
        | sent handle' requestId' out' =>
          by_cases hh : handle' = handle
          · simp [sentOf, hh, hin]
          · simpa [sentOf, hh] using hin
        | _ => exact hin

/-- The end frame is the last one of a transfer. -/
theorem length_le_of_end {staged : Staged} {requestId requestId' : String} {k : Nat}
    (h : .frame (.fileEnd requestId) ∈ (transferOf staged requestId').take k) :
    (transferOf staged requestId').length ≤ k := by
  by_contra hlt
  simp only [transferOf, List.length_append, List.length_singleton, not_le] at h hlt
  rw [List.take_append_of_le_length (by omega)] at h
  have hin := List.mem_of_mem_take h
  simp at hin

end Run

/-- **Uploaded bytes arrive intact and once.** -/
theorem uploads_delivered {c : machine.Config} (h : machine.Reachable c) : Delivered c := by
  have hholds := delivering_sound.reachable h
  have hinv : Coherent c.world := hholds.inv
  refine ⟨?_, fun handle => ?_, ?_⟩
  · intro newer t place requestId file expiresAt older htr
    obtain ⟨upload, uuid, hknown, hcomplete, rfl⟩ := complete_of_response hinv.legal htr
    exact ⟨upload, hknown, hcomplete, rfl⟩
  · by_cases hnone : sentOf handle c.world.trace = []
    · exact .inl hnone
    · obtain ⟨t, requestId, staged, place, attachment, k, before, newer, older, htr, rfl, hk,
        hnotes, hsent⟩ := last_sent hinv.legal hnone
      obtain ⟨upload, honce, _, hchecked⟩ :=
        sentOnce_of_notes hinv.legal htr hk hnotes hsent
      exact .inr ⟨t, requestId, upload, k, honce, hchecked⟩
  · intro t th object attachments out attachment ht hcall hprog hmem
    obtain ⟨requestId, hend⟩ := hholds.returned ht hprog object attachments hcall attachment hmem
    have hin := mem_sentOf hend
    obtain ⟨u, requestId', staged, place, attachment', k, before, newer, older, htr, hid, hk, hnotes,
      hsent⟩ := last_sent hinv.legal (List.ne_nil_of_mem hin)
    rw [← hid] at hsent ⊢
    rw [← hid, hsent] at hin
    obtain ⟨out', hout, heq⟩ := List.mem_map.mp hin
    simp only [Prod.mk.injEq, Option.some.injEq] at heq
    obtain ⟨rfl, rfl, rfl⟩ := heq
    have hk' : k = (transferOf staged requestId').length :=
      Nat.le_antisymm hk (length_le_of_end hout)
    obtain ⟨upload, honce, htransfer, hchecked⟩ :=
      sentOnce_of_notes hinv.legal htr hk hnotes hsent
    refine ⟨requestId', upload, transferOf staged requestId', hk' ▸ honce, htransfer, ?_, hchecked⟩
    rw [hsent, hk', List.take_length]

def smallUpload (requestId : String) (size : Int) : UploadRequest :=
  ⟨requestId, "notes.txt", "text/plain", size, ""⟩

def smallFile (uuid : String) (size : Int) : UploadedFile :=
  ⟨uploadPrefix ++ uuid, "notes.txt", "text/plain", size, uploadPrefix ++ uuid⟩

/-- A call and its one request. -/
def atOnce (idx : Nat) (call : Call) (choice : Choice) : List machine.Move :=
  [.start 0 call, .run ⟨0, idx⟩ (.ext choice)]

/-- The call has returned. -/
def returned (c : machine.Config) (t : Tid) : Bool :=
  match c.threads t with
  | some ⟨_, _, .ret _⟩ => true
  | _ => false

/-- Two files are uploaded in pieces and named by one message.  While the first one is on its way
    the clock passes the instant at which both handles expire, as the sweep of another object
    shows. -/
def lateRun : List machine.Move :=
  let metadata (size : Int) : BeginMetadata := ⟨"text/plain", size, "binary", "", "notes.txt"⟩
  let quiet : Choice := ⟨0, 0, "", false, none⟩
  let step (now : Int) (uuid : String) : machine.Move :=
    .run ⟨0, 11⟩ (.ext ⟨now, 0, uuid, false, some ⟨"f", "notes.txt", "text/plain", 0, "f"⟩⟩)
  atOnce 0 .construct quiet ++ atOnce 1 .construct quiet ++
  atOnce 2 (.begin 0 (smallUpload "r" 2)) quiet ++
  atOnce 3 (.binary 0 (some (.fileBegin "r" (metadata 2)))) quiet ++
  atOnce 4 (.binary 0 (some (.fileChunk "r" [7]))) quiet ++
  atOnce 5 (.binary 0 (some (.fileChunk "r" [8]))) quiet ++
  atOnce 6 (.binary 0 (some (.fileEnd "r"))) ⟨0, 0, "1", false, none⟩ ++
  atOnce 7 (.begin 0 (smallUpload "s" 1)) quiet ++
  atOnce 8 (.binary 0 (some (.fileBegin "s" (metadata 1)))) quiet ++
  atOnce 9 (.binary 0 (some (.fileChunk "s" [9]))) quiet ++
  atOnce 10 (.binary 0 (some (.fileEnd "s"))) ⟨0, 0, "2", false, none⟩ ++
  .start 0 (.replace 0 [.uploaded (smallFile "1" 2), .uploaded (smallFile "2" 1)]) ::
  -- sweep, consume, check, request id; request, begin, chunk, check, end
  (["", "", "", "3", "", "", "", "", ""].map (step 299999)) ++
  atOnce 12 (.expire 1) ⟨300001, 0, "", false, none⟩ ++
  -- reply, give back; the same for the second file; the parse
  ["", "", "", "", "4", "", "", "", "", "", "", "", ""].map (step 300001)

theorem uploads_delivered_late :
    ∃ c, machine.initial.moves lateRun = some c ∧ returned c ⟨0, 11⟩ = true ∧
      (sentOf (uploadPrefix ++ "1") c.world.trace).length = 4 ∧
      (sentOf (uploadPrefix ++ "2") c.world.trace).length = 4 ∧ Delivered c := by
  have hrun : ((machine.initial.moves lateRun).map fun c => (returned c ⟨0, 11⟩,
      (sentOf (uploadPrefix ++ "1") c.world.trace).length,
      (sentOf (uploadPrefix ++ "2") c.world.trace).length)) = some (true, 4, 4) := by
    rfl
  obtain ⟨c, hc, hsent⟩ := Option.map_eq_some_iff.mp hrun
  simp only [Prod.mk.injEq] at hsent
  exact ⟨c, hc, hsent.1, hsent.2.1, hsent.2.2, uploads_delivered (Machine.Reachable.init.moves hc)⟩

/-- A clock reading of the process that answered with the handle has passed its expiry. -/
def Expired (tr : History) (handle : String) : Prop :=
  ∃ u place id file expiresAt v place' now, .note u (.response place id file expiresAt) ∈ tr ∧
    file.id = handle ∧ .note v (.expired place' now) ∈ tr ∧ place'.proc = place.proc ∧
    expiresAt ≤ now

/-- Nothing is sent of a handle that has expired when a call consumes it. -/
def ExpiredSendsNothing (tr : History) : Prop :=
  ∀ newer t place attachment staged older,
    tr = newer ++ .note t (.taken place attachment staged) :: older →
    Expired older attachment.id → sentOf attachment.id tr = []

def isLate : Entry Empty (fun _ => Unit) Note → Bool
  | .note _ (.expired place now) => place.proc == 0 && 300000 ≤ now
  | _ => false

def isResponse (handle : String) : Entry Empty (fun _ => Unit) Note → Bool
  | .note _ (.response place _ file expiresAt) =>
    file.id == handle && place.proc == 0 && expiresAt == 300000
  | _ => false

/-- The handle, which was to expire at 300000, was consumed after a later reading. -/
def takenLate (handle : String) : History → Bool
  | [] => false
  | .note _ (.taken _ attachment _) :: older =>
    (attachment.id == handle && older.any (isResponse handle) && older.any isLate) ||
      takenLate handle older
  | _ :: older => takenLate handle older

theorem expired_of_any {tr : History} {handle : String} (hresponse : tr.any (isResponse handle))
    (hlate : tr.any isLate) : Expired tr handle := by
  simp only [List.any_eq_true] at hresponse hlate
  obtain ⟨e, he, hresponse⟩ := hresponse
  obtain ⟨e', he', hlate⟩ := hlate
  unfold isResponse at hresponse
  unfold isLate at hlate
  split at hresponse
  · split at hlate
    · simp only [Bool.and_eq_true, beq_iff_eq, decide_eq_true_eq] at hresponse hlate
      refine ⟨_, _, _, _, _, _, _, _, he, hresponse.1.1, he', hlate.1.trans hresponse.1.2.symm, ?_⟩
      omega
    · simp at hlate
  · simp at hresponse

theorem expired_of_takenLate {tr : History} {handle : String} (h : takenLate handle tr = true) :
    ∃ newer t place attachment staged older,
      tr = newer ++ .note t (.taken place attachment staged) :: older ∧ attachment.id = handle ∧
      Expired older handle := by
  induction tr with
  | nil => simp [takenLate] at h
  | cons e tr ih =>
    have hskip : takenLate handle tr = true → ∃ newer t place attachment staged older,
        e :: tr = newer ++ .note t (.taken place attachment staged) :: older ∧
        attachment.id = handle ∧ Expired older handle := by
      intro hrest
      obtain ⟨newer, t, place, attachment, staged, older, rfl, hexpired⟩ := ih hrest
      exact ⟨e :: newer, t, place, attachment, staged, older, rfl, hexpired⟩
    unfold takenLate at h
    split at h
    · simp at *
    · rename_i t place attachment staged older heq
      obtain ⟨rfl, rfl⟩ := List.cons.inj heq
      simp only [Bool.or_eq_true, Bool.and_eq_true, beq_iff_eq] at h
      rcases h with ⟨⟨hid, hresponse⟩, hlate⟩ | hrest
      · exact ⟨[], t, place, attachment, staged, tr, rfl, hid, expired_of_any hresponse hlate⟩
      · exact hskip hrest
    · rename_i heq
      obtain ⟨rfl, rfl⟩ := List.cons.inj heq
      exact hskip h

/-- A handle that expires while the message waits for an earlier file is sent. -/
theorem expired_handle_sent :
    ¬ ∀ c, machine.Reachable c → ExpiredSendsNothing c.world.trace := by
  intro hall
  have hrun : ((machine.initial.moves lateRun).map fun c =>
      (takenLate (uploadPrefix ++ "2") c.world.trace,
        (sentOf (uploadPrefix ++ "2") c.world.trace).length)) = some (true, 4) := by
    rfl
  obtain ⟨c, hc, hlate⟩ := Option.map_eq_some_iff.mp hrun
  simp only [Prod.mk.injEq] at hlate
  obtain ⟨newer, t, place, attachment, staged, older, htr, hid, hexpired⟩ :=
    expired_of_takenLate hlate.1
  have hnone := hall c (Machine.Reachable.init.moves hc) newer t place attachment staged older htr
    (hid ▸ hexpired)
  rw [hid] at hnone
  simp [hnone] at hlate

end PaseoGateway.Uploads

/-
  PaseoGateway/ScheduledTurn.lean
  ===============================
  **What the outcome of an existing-agent run depends on.**

  The daemon keeps the timeline of an agent in the order of its sequence numbers and
  serves it in pages of at most 200 entries, the newest first (`Daemon`).  The pages are
  read up to the one with the prompt, so the turn is judged by its own entries
  (`completed_iff`); but the outcome itself is the one the agent's latest turn has
  come to.
-/
import PaseoGateway.ScheduleObservation

namespace PaseoGateway.ScheduleObservation

/-! ### The daemon -/

/-- The newest entries of a timeline. -/
def newest (n : Nat) (timeline : List TimelineEntry) : List TimelineEntry :=
  timeline.drop (timeline.length - n)

/-- `limit: 200` -/
def pageLimit : Nat := 200

/-- The page that ends where the entries end. -/
def pageOf (epoch : String) (entries : List TimelineEntry) : TimelinePage :=
  { entries := newest pageLimit entries
    hasOlder := decide (pageLimit < entries.length)
    startCursor := (newest pageLimit entries).head?.map fun entry => ⟨epoch, entry.seqStart⟩ }

/-- Sequence numbers grow along the timeline. -/
structure Ordered (timeline : List TimelineEntry) : Prop where
  grow : timeline.Pairwise fun a b => a.seqEnd < b.seqStart
  within : ∀ entry ∈ timeline, entry.seqStart ≤ entry.seqEnd

/-- A daemon that answers: the timeline and the state of the agent are functions of its
    state. -/
structure Daemon {B : Type} (backend : Backend B) (timeline : B → List TimelineEntry)
    (latest : B → WaitReply) : Prop where
  ordered : ∀ b, Ordered (timeline b)
  connect : ∀ b, backend.connect b = .ok ()
  wait : ∀ b, backend.wait_for_finish b = .ok (latest b)
  close : ∀ b, backend.close b = .ok ()
  pages : ∃ epoch, ∀ b,
    backend.fetch_agent_timeline b none = .ok (pageOf epoch (timeline b)) ∧
    ∀ seq, backend.fetch_agent_timeline b (some ⟨epoch, seq⟩) =
      .ok (pageOf epoch ((timeline b).filter fun entry => decide (entry.seqStart < seq)))

/-- The timeline with the prompt of the run, the entries up to the next message of a
    user, and what follows. -/
structure Turn (runId : String) (prompt : TimelineEntry) (turn : List TimelineEntry)
    (timeline : List TimelineEntry) : Prop where
  is_prompt : isPrompt runId prompt = true
  split : ∃ earlier later, timeline = earlier ++ prompt :: turn ++ later ∧
    (∀ entry ∈ turn, isUser entry = false) ∧
    (∀ entry ∈ later.head?, isUser entry = true) ∧
    ∀ entry ∈ earlier ++ later, isPrompt runId entry = false

/-- The turn has come to a message of the assistant. -/
def answered (prompt : TimelineEntry) (turn : List TimelineEntry) : Bool :=
  turn.any fun entry => isAssistant entry && ofTurn prompt entry

/-! ### Reading the pages -/

theorem newest_eq (n : Nat) (timeline : List TimelineEntry) :
    ∃ older, timeline = older ++ newest n timeline ∧ older.length = timeline.length - n :=
  ⟨timeline.take (timeline.length - n), (List.take_append_drop _ _).symm, by simp⟩

theorem newest_append (n : Nat) (older recent : List TimelineEntry) :
    newest (recent.length + n) (older ++ recent) = newest n older ++ recent := by
  rw [newest, newest, List.length_append]
  have hle : older.length + recent.length - (recent.length + n) ≤ older.length := by omega
  rw [List.drop_append_of_le_length hle]
  congr 2
  omega

theorem newest_all {n : Nat} {timeline : List TimelineEntry} (h : timeline.length ≤ n) :
    newest n timeline = timeline := by
  rw [newest, Nat.sub_eq_zero_of_le h, List.drop_zero]

theorem newest_any {m n : Nat} {timeline : List TimelineEntry} {p : TimelineEntry → Bool}
    (h : n ≤ m) (hany : (newest n timeline).any p = true) : (newest m timeline).any p = true := by
  rw [List.any_eq_true] at hany ⊢
  obtain ⟨entry, he, hp⟩ := hany
  exact ⟨entry, (List.drop_suffix_drop_left timeline (by omega)).subset he, hp⟩

theorem isUser_of_isPrompt {runId : String} {entry : TimelineEntry}
    (h : isPrompt runId entry = true) : isUser entry = true := by
  simp only [isPrompt, beq_iff_eq] at h
  simp [isUser, h]

/-- Entries before an entry are those with smaller numbers. -/
theorem Ordered.before {older rest : List TimelineEntry} {entry : TimelineEntry}
    (h : Ordered (older ++ entry :: rest)) :
    (older ++ entry :: rest).filter (fun e => decide (e.seqStart < entry.seqStart)) = older := by
  obtain ⟨hgrow, hwithin⟩ := h
  rw [List.pairwise_append, List.pairwise_cons] at hgrow
  obtain ⟨-, ⟨hafter, -⟩, hbefore⟩ := hgrow
  rw [List.filter_append, List.filter_eq_self.mpr, List.filter_eq_nil_iff.mpr, List.append_nil]
  · intro e he
    rcases List.mem_cons.mp he with rfl | hrest
    · simp
    · have hlt := hafter e hrest
      have hle := hwithin entry (by simp)
      simp only [decide_eq_true_eq]
      omega
  · intro e he
    have hlt := hbefore e he entry List.mem_cons_self
    have hle := hwithin e (by simp [he])
    simp only [decide_eq_true_eq]
    omega

section Pages

variable {B : Type} {backend : Backend B} {timeline : B → List TimelineEntry}
variable {latest : B → WaitReply} {b : B} {runId : String}

/-- The cursor stands where `recent`, the end of the timeline, begins. -/
def Cursor.At (epoch : String) (recent : List TimelineEntry) (cursor : Option Cursor) : Prop :=
  cursor = recent.head?.map fun entry => ⟨epoch, entry.seqStart⟩

/-- What is done with a page. -/
theorem readTimeline_page {page : TimelinePage} {pages : Nat} {cursor : Option Cursor}
    {entries : List TimelineEntry} (hpage : backend.fetch_agent_timeline b cursor = .ok page)
    (herror : page.error = none) :
    readTimeline backend b runId (pages + 1) cursor entries =
      if (entries ++ page.entries).any (isPrompt runId) || !page.hasOlder ||
          page.startCursor.isNone
      then .ok (entries ++ page.entries, (entries ++ page.entries).any (isPrompt runId))
      else readTimeline backend b runId pages page.startCursor (entries ++ page.entries) := by
  rw [readTimeline, hpage]
  change (if (given page.error).isSome = true then _ else _) = _
  rw [herror, if_neg (by simp [given])]

/-- The pages read are the newest end of the timeline, and the prompt is found if it is in
    as many pages. -/
theorem readTimeline_spec {epoch : String} (hordered : Ordered (timeline b))
    (htail : backend.fetch_agent_timeline b none = .ok (pageOf epoch (timeline b)))
    (hbefore : ∀ seq, backend.fetch_agent_timeline b (some ⟨epoch, seq⟩) =
      .ok (pageOf epoch ((timeline b).filter fun entry => decide (entry.seqStart < seq))))
    (pages : Nat) {older recent entries : List TimelineEntry} {cursor : Option Cursor}
    (hsplit : timeline b = older ++ recent) (hcursor : Cursor.At epoch recent cursor)
    (hentries : ∀ entry, entry ∈ entries ↔ entry ∈ recent)
    (hnone : recent.any (isPrompt runId) = false) :
    ∃ older' recent' entries',
      readTimeline backend b runId pages cursor entries =
        .ok (entries', (newest (pageLimit * pages) older).any (isPrompt runId)) ∧
      timeline b = older' ++ recent' ∧ (∀ entry, entry ∈ entries' ↔ entry ∈ recent') ∧
      recent'.any (isPrompt runId) = (newest (pageLimit * pages) older).any (isPrompt runId) := by
  induction pages generalizing older recent entries cursor with
  | zero =>
    have hnew : newest (pageLimit * 0) older = [] := by simp [newest]
    rw [hnew]
    exact ⟨older, recent, entries, rfl, hsplit, hentries, hnone⟩
  | succ pages ih =>
    -- the page is the newest part of what has not been read
    have hpage : backend.fetch_agent_timeline b cursor = .ok (pageOf epoch older) := by
      cases recent with
      | nil =>
        rw [show cursor = none from hcursor, htail, hsplit, List.append_nil]
      | cons entry rest =>
        rw [show cursor = some ⟨epoch, entry.seqStart⟩ from hcursor, hbefore, hsplit]
        rw [hsplit] at hordered
        rw [hordered.before]
    obtain ⟨rest, hrest, hlength⟩ := newest_eq pageLimit older
    have hsplit' : timeline b = rest ++ (newest pageLimit older ++ recent) := by
      rw [hsplit, ← List.append_assoc, ← hrest]
    have hentries' : ∀ entry, entry ∈ entries ++ newest pageLimit older ↔
        entry ∈ newest pageLimit older ++ recent := by
      intro entry
      rw [List.mem_append, List.mem_append, hentries, or_comm]
    have hany : (entries ++ newest pageLimit older).any (isPrompt runId) =
        (newest pageLimit older).any (isPrompt runId) := by
      have hold : entries.any (isPrompt runId) = false := by
        rw [List.any_eq_false] at hnone ⊢
        exact fun entry he => hnone entry ((hentries entry).mp he)
      rw [List.any_append, hold, Bool.false_or]
    have hrecent : (newest pageLimit older ++ recent).any (isPrompt runId) =
        (newest pageLimit older).any (isPrompt runId) := by
      rw [List.any_append, hnone, Bool.or_false]
    have herror : (pageOf epoch older).error = none := by rw [pageOf]
    have hcontent : (pageOf epoch older).entries = newest pageLimit older := by rw [pageOf]
    have hmore : (pageOf epoch older).hasOlder = decide (pageLimit < older.length) := by
      rw [pageOf]
    rw [readTimeline_page hpage herror, hcontent, hmore, hany]
    by_cases hfound : (newest pageLimit older).any (isPrompt runId) = true
    · -- the prompt is on this page
      have hin : (newest (pageLimit * (pages + 1)) older).any (isPrompt runId) = true :=
        newest_any (by rw [Nat.mul_succ]; omega) hfound
      rw [hfound, hin, Bool.true_or, Bool.true_or, if_pos rfl]
      exact ⟨rest, _, _, rfl, hsplit', hentries', hrecent.trans hfound⟩
    by_cases hlast : older.length ≤ pageLimit
    · -- nothing older is left
      have hall : newest (pageLimit * (pages + 1)) older = newest pageLimit older := by
        rw [newest_all hlast, newest_all (by rw [Nat.mul_succ]; omega)]
      have hdone : (!decide (pageLimit < older.length)) = true := by simpa using hlast
      rw [hall, hdone, Bool.or_true, Bool.true_or, if_pos rfl]
      exact ⟨rest, _, _, rfl, hsplit', hentries', hrecent⟩
    -- the next page begins before this one
    have hne : newest pageLimit older ≠ [] := by
      intro hnil
      rw [hnil, List.append_nil] at hrest
      have hsame := congrArg List.length hrest
      have hpos : 0 < pageLimit := by decide
      omega
    obtain ⟨entry, page, hcons⟩ := List.exists_cons_of_ne_nil hne
    have hstart : (pageOf epoch older).startCursor = some ⟨epoch, entry.seqStart⟩ := by
      rw [pageOf, hcons]
      rfl
    have hrest' : (!decide (pageLimit < older.length)) = false := by simpa using hlast
    have hfound' : (newest pageLimit older).any (isPrompt runId) = false := by simpa using hfound
    rw [hfound', hrest', hstart]
    have hcursor' : Cursor.At epoch (newest pageLimit older ++ recent)
        (some ⟨epoch, entry.seqStart⟩) := by
      rw [hcons]
      rfl
    obtain ⟨older', recent', entries', hread, hread_split, hread_mem, hread_any⟩ :=
      ih hsplit' hcursor' hentries' (hrecent.trans hfound')
    have hnewest : (newest (pageLimit * pages) rest).any (isPrompt runId) =
        (newest (pageLimit * (pages + 1)) older).any (isPrompt runId) := by
      have hpages : newest ((newest pageLimit older).length + pageLimit * pages) older =
          newest (pageLimit * pages) rest ++ newest pageLimit older := by
        have happend := newest_append (pageLimit * pages) rest (newest pageLimit older)
        rw [← hrest] at happend
        exact happend
      have hlen : (newest pageLimit older).length + pageLimit * pages = pageLimit * (pages + 1) := by
        have hsum := congrArg List.length hrest
        rw [List.length_append] at hsum
        rw [Nat.mul_succ]
        omega
      rw [← hlen, hpages, List.any_append, hfound', Bool.or_false]
    rw [← hnewest]
    exact ⟨older', recent', entries', hread, hread_split, hread_mem, hread_any⟩

end Pages

/-! ### The entries of the turn -/

theorem nextUser_none {entries : List TimelineEntry} {prompt : TimelineEntry}
    (h : nextUser entries prompt = none) : ∀ entry ∈ entries, laterUser prompt entry = false := by
  rw [nextUser, List.head?_eq_none_iff] at h
  have hnil : entries.filter (laterUser prompt) = [] := by
    have hperm := List.perm_insertionSort (fun a b : TimelineEntry => a.seqStart ≤ b.seqStart)
      (entries.filter (laterUser prompt))
    rw [h] at hperm
    exact hperm.symm.eq_nil
  intro entry he
  simpa using List.filter_eq_nil_iff.mp hnil entry he

/-- The next message of a user comes before every other. -/
theorem nextUser_some {entries : List TimelineEntry} {prompt next : TimelineEntry}
    (h : nextUser entries prompt = some next) :
    next ∈ entries ∧ laterUser prompt next = true ∧
      ∀ entry ∈ entries, laterUser prompt entry = true → next.seqStart ≤ entry.seqStart := by
  let later := entries.filter (laterUser prompt)
  have hperm := List.perm_insertionSort (fun a b : TimelineEntry => a.seqStart ≤ b.seqStart) later
  have hsorted : (later.insertionSort fun a b => a.seqStart ≤ b.seqStart).Pairwise
      fun a b => a.seqStart ≤ b.seqStart := by
    have : Std.Total fun a b : TimelineEntry => a.seqStart ≤ b.seqStart :=
      ⟨fun a b => Nat.le_total a.seqStart b.seqStart⟩
    have : IsTrans TimelineEntry fun a b => a.seqStart ≤ b.seqStart :=
      ⟨fun _ _ _ hab hbc => Nat.le_trans hab hbc⟩
    exact List.pairwise_insertionSort _ later
  obtain ⟨rest, hrest⟩ : ∃ rest, later.insertionSort (fun a b => a.seqStart ≤ b.seqStart) =
      next :: rest := by
    have hhead : (later.insertionSort fun a b => a.seqStart ≤ b.seqStart).head? = some next := h
    exact List.head?_eq_some_iff.mp hhead
  have hmem : next ∈ later := hperm.subset (by rw [hrest]; exact List.mem_cons_self)
  rw [List.mem_filter] at hmem
  refine ⟨hmem.1, hmem.2, fun entry he huser => ?_⟩
  have hin : entry ∈ later.insertionSort fun a b => a.seqStart ≤ b.seqStart :=
    hperm.symm.subset (List.mem_filter.mpr ⟨he, huser⟩)
  rw [hrest] at hin hsorted
  rcases List.mem_cons.mp hin with rfl | hin'
  · exact Nat.le_refl _
  · exact (List.pairwise_cons.mp hsorted).1 entry hin'

section Completed

variable {runId : String} {prompt : TimelineEntry} {turn earlier later : List TimelineEntry}

/-- What comes after the prompt by its number comes after it in the timeline. -/
theorem Ordered.after (h : Ordered (earlier ++ prompt :: turn ++ later)) {entry : TimelineEntry}
    (he : entry ∈ earlier ++ prompt :: turn ++ later) (hlt : prompt.seqEnd < entry.seqStart) :
    entry ∈ turn ++ later := by
  obtain ⟨hgrow, hwithin⟩ := h
  rw [List.append_assoc, List.pairwise_append] at hgrow
  rw [List.append_assoc, List.mem_append, List.cons_append, List.mem_cons] at he
  rcases he with hbefore | rfl | hafter
  · have hprompt := hgrow.2.2 entry hbefore prompt List.mem_cons_self
    have hle := hwithin entry (by simp [hbefore])
    have hle' := hwithin prompt (by simp)
    omega
  · have hle := hwithin entry (by simp)
    omega
  · exact hafter

theorem Ordered.follows (h : Ordered (earlier ++ prompt :: turn ++ later)) {entry : TimelineEntry}
    (he : entry ∈ turn ++ later) : prompt.seqEnd < entry.seqStart := by
  have hgrow := h.grow
  rw [List.append_assoc, List.pairwise_append, List.cons_append, List.pairwise_cons] at hgrow
  exact hgrow.2.1.1 entry he

/-- The code's test of the entries read is about the entries of the turn. -/
theorem completed_eq (h : Ordered (earlier ++ prompt :: turn ++ later))
    (hturn : ∀ entry ∈ turn, isUser entry = false)
    (hlater : ∀ entry ∈ later.head?, isUser entry = true) {entries : List TimelineEntry}
    (hsub : ∀ entry ∈ entries, entry ∈ earlier ++ prompt :: turn ++ later)
    (hall : ∀ entry ∈ turn ++ later, entry ∈ entries) :
    completed entries prompt = answered prompt turn := by
  have hgrow := h.grow
  rw [List.pairwise_append] at hgrow
  obtain ⟨-, hgrow_later, hcross⟩ := hgrow
  rw [Bool.eq_iff_iff, completed, answered, List.any_eq_true, List.any_eq_true]
  constructor
  · rintro ⟨entry, he, hcond⟩
    simp only [Bool.and_eq_true, decide_eq_true_eq] at hcond
    obtain ⟨⟨⟨hlt, hnext⟩, hassistant⟩, hof⟩ := hcond
    refine ⟨entry, ?_, by rw [hassistant, hof]; rfl⟩
    rcases List.mem_append.mp (h.after (hsub entry he) hlt) with hin | hin
    · exact hin
    -- an entry behind the next message of a user is not before it
    exfalso
    obtain ⟨user, rest, rfl⟩ := List.exists_cons_of_ne_nil (List.ne_nil_of_mem hin)
    have huser : laterUser prompt user = true := by
      simp only [laterUser, Bool.and_eq_true, decide_eq_true_eq]
      exact ⟨h.follows (by simp), hlater user rfl⟩
    cases hfound : nextUser entries prompt with
    | none =>
      have hnone := nextUser_none hfound user (hall user (by simp))
      rw [huser] at hnone
      cases hnone
    | some next =>
      obtain ⟨-, -, hmin⟩ := nextUser_some hfound
      have hle := hmin user (hall user (by simp)) huser
      rw [hfound, Option.all_some, decide_eq_true_eq] at hnext
      rcases List.mem_cons.mp hin with rfl | hin'
      · omega
      · have hstep := (List.pairwise_cons.mp hgrow_later).1 entry hin'
        have hwithin := h.within user (by simp)
        omega
  · rintro ⟨entry, he, hcond⟩
    simp only [Bool.and_eq_true] at hcond
    refine ⟨entry, hall entry (List.mem_append_left _ he), ?_⟩
    simp only [Bool.and_eq_true, decide_eq_true_eq]
    refine ⟨⟨⟨h.follows (List.mem_append_left _ he), ?_⟩, hcond.1⟩, hcond.2⟩
    cases hfound : nextUser entries prompt with
    | none => rfl
    | some next =>
      obtain ⟨hmem, huser, -⟩ := nextUser_some hfound
      simp only [laterUser, Bool.and_eq_true, decide_eq_true_eq] at huser
      rw [Option.all_some, decide_eq_true_eq]
      rcases List.mem_append.mp (h.after (hsub next hmem) huser.1) with hin | hin
      · rw [hturn next hin] at huser
        cases huser.2
      · have hstep := hcross entry (by simp [he]) next hin
        have hwithin := h.within entry (by simp [he])
        omega

end Completed

/-! ### The outcome -/

/-- The workspace of the run is there and ready, so that the daemon is asked. -/
def Asked (workspaces : List Workspace) (input : Input) : Prop :=
  (given input.run.agentId).isSome = true ∧
    ∃ workspaceId workspace status, given input.run.workspaceId = some workspaceId ∧
      (workspaces.find? fun row => row.metadata.name == workspaceId) = some workspace ∧
      workspace.metadata.uid = given input.targetWorkspaceUid ∧
      workspace.status = some status ∧ status.phase = .Ready

/-- No outcome is recorded: the agent is at work, the prompt lies behind the pages that
    are read, or the agent is idle and its turn has come to no message. -/
def Silent (runId : String) (prompt : TimelineEntry) (turn timeline : List TimelineEntry)
    (reply : WaitReply) : Prop :=
  reply.status = .timeout ∨ (newest (pageLimit * 10) timeline).any (isPrompt runId) = false ∨
    (reply.status = .idle ∧ answered prompt turn = false)

section Outcome

variable {B : Type} {backend : Backend B} {timeline : B → List TimelineEntry}
variable {latest : B → WaitReply} {runId : String} {prompt : TimelineEntry}
variable {turn : List TimelineEntry}

theorem Turn.only {tl : List TimelineEntry} (h : Turn runId prompt turn tl)
    {entry : TimelineEntry} (he : entry ∈ tl) (hprompt : isPrompt runId entry = true) :
    entry = prompt := by
  obtain ⟨-, earlier, later, rfl, hturn, -, hothers⟩ := h
  have huser := isUser_of_isPrompt hprompt
  simp only [List.append_assoc, List.cons_append, List.mem_append, List.mem_cons] at he
  rcases he with hin | rfl | hin | hin
  · rw [hothers entry (List.mem_append_left _ hin)] at hprompt
    cases hprompt
  · rfl
  · rw [hturn entry hin] at huser
    cases huser
  · rw [hothers entry (List.mem_append_right _ hin)] at hprompt
    cases hprompt

theorem turnEnded_eq (hd : Daemon backend timeline latest) {b : B}
    (ht : Turn runId prompt turn (timeline b)) (status : WaitStatus) :
    turnEnded backend b runId status = .ok
      ((newest (pageLimit * 10) (timeline b)).any (isPrompt runId) &&
        !(status == .idle && !answered prompt turn)) := by
  obtain ⟨epoch, hpages⟩ := hd.pages
  obtain ⟨htail, hbefore⟩ := hpages b
  have hstart : Cursor.At epoch [] none := rfl
  have hnone : ([] : List TimelineEntry).any (isPrompt runId) = false := rfl
  obtain ⟨older, recent, entries, hread, hsplit, hmem, hany⟩ :=
    readTimeline_spec (hd.ordered b) htail hbefore 10 (List.append_nil (timeline b)).symm hstart
      (fun _ => Iff.rfl) hnone
  generalize (newest (pageLimit * 10) (timeline b)).any (isPrompt runId) = found at hread hany ⊢
  rw [turnEnded, hread]
  change (if (!found) = true then _ else _) = _
  by_cases hfound : found = true
  · rw [hfound] at hany ⊢
    rw [if_neg (by simp)]
    -- the prompt that is found is the one of the turn
    obtain ⟨entry, hentry, hprompt⟩ := List.any_eq_true.mp hany
    have hin : ∀ entry, entry ∈ entries → entry ∈ timeline b := by
      intro entry he
      rw [hsplit]
      exact List.mem_append_right _ ((hmem entry).mp he)
    have hsame : entry = prompt := ht.only (hin entry ((hmem entry).mpr hentry)) hprompt
    subst hsame
    have hfind : entries.find? (isPrompt runId) = some entry := by
      cases hfind : entries.find? (isPrompt runId) with
      | none =>
        rw [List.find?_eq_none] at hfind
        exact absurd hprompt (hfind entry ((hmem entry).mpr hentry))
      | some other =>
        have hother := ht.only (hin other (List.mem_of_find?_eq_some hfind)) (List.find?_some hfind)
        rw [hother]
    rw [hfind]
    have hcompleted : completed entries entry = answered entry turn := by
      obtain ⟨-, earlier, later, heq, hturn, hlater, -⟩ := ht
      have hordered := hd.ordered b
      have hgrow := hordered.grow
      have hwithin := hordered.within
      rw [hsplit, List.pairwise_append] at hgrow
      rw [heq] at hordered hin
      refine completed_eq hordered hturn hlater hin fun after hafter => ?_
      have hlt := hordered.follows hafter
      have hwhole : after ∈ older ++ recent := by
        rw [← hsplit, heq, List.append_assoc]
        exact List.mem_append_right _ (List.mem_cons_of_mem _ hafter)
      rcases List.mem_append.mp hwhole with hold | hrecent
      · -- what follows the prompt is not older than it
        exfalso
        have hstep := hgrow.2.2 after hold entry hentry
        have hle := hwithin after (by rw [hsplit]; exact hwhole)
        have hle' := hwithin entry (by rw [hsplit]; exact List.mem_append_right _ hentry)
        omega
      · exact (hmem after).mpr hrecent
    simp only [hcompleted, Bool.true_and]
  · have hfalse : found = false := by simpa using hfound
    rw [hfalse]
    rfl

theorem observe_eq (hd : Daemon backend timeline latest) {workspaces : List Workspace}
    {archive : Except String Unit} {input : Input} (hask : Asked workspaces input)
    (huid : (given input.targetWorkspaceUid).isSome = true) (b : B) :
    observeSchedule backend b workspaces archive input =
      observeBackend backend b archive input := by
  obtain ⟨hagent, workspaceId, workspace, status, hid, hfind, huids, hstatus, hready⟩ := hask
  obtain ⟨agentId, hagentId⟩ := Option.isSome_iff_exists.mp hagent
  obtain ⟨uid, huid'⟩ := Option.isSome_iff_exists.mp huid
  rw [huid'] at huids
  simp only [observeSchedule, hid, hagentId, hfind, huid', Option.isSome_some, true_and,
    Option.bind_some, huids, hstatus, hready, hd.connect, closing, hd.close]
  simp [bind, Except.bind]

/-- What the daemon is asked for decides the outcome only once it is asked. -/
theorem observe_unasked {workspaces : List Workspace} {archive : Except String Unit}
    {input : Input} (hask : ¬ Asked workspaces input)
    (huid : (given input.targetWorkspaceUid).isSome = true) (b b' : B) :
    observeSchedule backend b workspaces archive input =
      observeSchedule backend b' workspaces archive input := by
  obtain ⟨uid, huid'⟩ := Option.isSome_iff_exists.mp huid
  unfold observeSchedule
  split
  · rename_i workspaceId agentId hid hagent
    by_cases hreplaced : (given input.targetWorkspaceUid).isSome = true ∧
        (workspaces.find? fun row => row.metadata.name == workspaceId).bind (·.metadata.uid) ≠
          given input.targetWorkspaceUid
    · simp only [if_pos hreplaced]
    simp only [if_neg hreplaced]
    split
    · rfl
    · rename_i workspace hfind
      split
      · rename_i status hstatus
        by_cases hfailed : status.phase = .Failed
        · simp only [if_pos hfailed]
        simp only [if_neg hfailed]
        by_cases hready : status.phase = .Ready
        · refine absurd ⟨by rw [hagent]; rfl, workspaceId, workspace, status, hid, hfind, ?_,
            hstatus, hready⟩ hask
          rw [hfind] at hreplaced
          simpa [huid] using hreplaced
        · simp only [if_neg hready]
      · rfl
  · rfl

theorem recorded_silent (hd : Daemon backend timeline latest) {archive : Except String Unit}
    {input : Input} (huid : (given input.targetWorkspaceUid).isSome = true) {b : B}
    (ht : Turn input.run.id prompt turn (timeline b))
    (hsilent : Silent input.run.id prompt turn (timeline b) (latest b)) :
    recorded (observeBackend backend b archive input) = none := by
  obtain ⟨uid, huid'⟩ := Option.isSome_iff_exists.mp huid
  rw [observeBackend, hd.wait]
  change recorded (if (latest b).status = .timeout then _ else _) = none
  by_cases htimeout : (latest b).status = .timeout
  · rw [if_pos htimeout]
    rfl
  rw [if_neg htimeout]
  have hended := turnEnded_eq hd ht (latest b).status
  have hfalse : ((newest (pageLimit * 10) (timeline b)).any (isPrompt input.run.id) &&
      !((latest b).status == .idle && !answered prompt turn)) = false := by
    rcases hsilent with h | h | ⟨hidle, hanswered⟩
    · exact absurd h htimeout
    · rw [h, Bool.false_and]
    · simp [hidle, hanswered]
  rw [hfalse] at hended
  simp only [huid', hended]
  rfl

theorem recorded_outcome (hd : Daemon backend timeline latest) {archive : Except String Unit}
    {input : Input} (huid : (given input.targetWorkspaceUid).isSome = true) {b : B}
    (ht : Turn input.run.id prompt turn (timeline b))
    (hspeaks : ¬ Silent input.run.id prompt turn (timeline b) (latest b)) :
    recorded (observeBackend backend b archive input) =
      some ((outcomeOf (latest b)).status, (outcomeOf (latest b)).output) := by
  obtain ⟨uid, huid'⟩ := Option.isSome_iff_exists.mp huid
  rw [Silent, not_or, not_or, not_and] at hspeaks
  obtain ⟨htimeout, hfound, hanswered⟩ := hspeaks
  rw [observeBackend, hd.wait]
  change recorded (if (latest b).status = .timeout then _ else _) = _
  rw [if_neg htimeout]
  have hended := turnEnded_eq hd ht (latest b).status
  have htrue : ((newest (pageLimit * 10) (timeline b)).any (isPrompt input.run.id) &&
      !((latest b).status == .idle && !answered prompt turn)) = true := by
    by_cases hidle : (latest b).status = .idle
    · simpa [hidle, hanswered hidle] using hfound
    · simpa [hidle] using hfound
  rw [htrue] at hended
  simp only [huid', hended]
  rfl

theorem outcome_idle {reply : WaitReply} (h : reply.status = .idle) :
    outcomeOf reply = { status := .succeeded, output := reply.lastMessage } := if_pos h

theorem outcome_ended {reply : WaitReply} (h : reply.status ≠ .idle) :
    (outcomeOf reply).status = .failed ∧ (outcomeOf reply).output = none := by
  rw [outcomeOf, if_neg h]
  exact ⟨rfl, rfl⟩

/-- **What is recorded of an existing-agent run does not depend on its own turn alone.**
    Two states of the daemon whose timelines agree on the prompt of the run and on all up
    to the next message of a user are recorded alike exactly when the agent's latest turn
    is alike in them: no outcome in either; or idle in both, with the same last message;
    or ended otherwise in both. -/
theorem outcome_of_latest_turn (hd : Daemon backend timeline latest) {b b' : B}
    (workspaces : List Workspace) (archive : Except String Unit) (input : Input)
    (huid : (given input.targetWorkspaceUid).isSome = true)
    (ht : Turn input.run.id prompt turn (timeline b))
    (ht' : Turn input.run.id prompt turn (timeline b')) :
    recorded (observeSchedule backend b workspaces archive input) =
        recorded (observeSchedule backend b' workspaces archive input) ↔
      ¬ Asked workspaces input ∨
        (Silent input.run.id prompt turn (timeline b) (latest b) ∧
          Silent input.run.id prompt turn (timeline b') (latest b')) ∨
        (¬ Silent input.run.id prompt turn (timeline b) (latest b) ∧
          ¬ Silent input.run.id prompt turn (timeline b') (latest b') ∧
          (((latest b).status = .idle ∧ (latest b').status = .idle ∧
              (latest b).lastMessage = (latest b').lastMessage) ∨
            ((latest b).status ≠ .idle ∧ (latest b').status ≠ .idle))) := by
  by_cases hask : Asked workspaces input
  · rw [observe_eq hd hask huid b, observe_eq hd hask huid b']
    simp only [hask, not_true_eq_false, false_or]
    by_cases hs : Silent input.run.id prompt turn (timeline b) (latest b)
    · rw [recorded_silent hd huid ht hs]
      by_cases hs' : Silent input.run.id prompt turn (timeline b') (latest b')
      · rw [recorded_silent hd huid ht' hs']
        simp [hs, hs']
      · rw [recorded_outcome hd huid ht' hs']
        simp [hs, hs']
    · rw [recorded_outcome hd huid ht hs]
      by_cases hs' : Silent input.run.id prompt turn (timeline b') (latest b')
      · rw [recorded_silent hd huid ht' hs']
        simp [hs, hs']
      · rw [recorded_outcome hd huid ht' hs']
        by_cases hidle : (latest b).status = .idle
        · rw [outcome_idle hidle]
          by_cases hidle' : (latest b').status = .idle
          · rw [outcome_idle hidle']
            simp [hs, hs', hidle, hidle']
          · rw [(outcome_ended hidle').1, (outcome_ended hidle').2]
            simp [hs, hs', hidle, hidle']
        · rw [(outcome_ended hidle).1, (outcome_ended hidle).2]
          by_cases hidle' : (latest b').status = .idle
          · rw [outcome_idle hidle']
            simp [hs, hs', hidle, hidle']
          · rw [(outcome_ended hidle').1, (outcome_ended hidle').2]
            simp [hs, hs', hidle, hidle']
  · rw [observe_unasked hask huid b b']
    simp [hask]

end Outcome

/-! ### Two states -/

section Demo

/-- A daemon that keeps a timeline. -/
def serving {B : Type} (timeline : B → List TimelineEntry) (latest : B → WaitReply) :
    Backend B where
  connect := fun _ => .ok ()
  wait_for_finish := fun b => .ok (latest b)
  fetch_agent_timeline := fun b cursor => .ok <| match cursor with
    | none => pageOf "epoch" (timeline b)
    | some cursor =>
      pageOf "epoch" ((timeline b).filter fun entry => decide (entry.seqStart < cursor.seq))
  close := fun _ => .ok ()

theorem serving_daemon {B : Type} {timeline : B → List TimelineEntry} {latest : B → WaitReply}
    (h : ∀ b, Ordered (timeline b)) : Daemon (serving timeline latest) timeline latest where
  ordered := h
  connect := fun _ => rfl
  wait := fun _ => rfl
  close := fun _ => rfl
  pages := ⟨"epoch", fun _ => ⟨rfl, fun _ => rfl⟩⟩

def demoPrompt : TimelineEntry := ⟨.user_message (some "run"), 10, 10, some "turn"⟩
def demoAnswer : TimelineEntry := ⟨.assistant_message, 11, 11, some "turn"⟩

/-- In the second state another user has written to the agent, and it has answered. -/
def demoTimeline (later : Bool) : List TimelineEntry :=
  [demoPrompt, demoAnswer] ++
    if later then [⟨.user_message (some "other"), 12, 12, none⟩, ⟨.assistant_message, 13, 13, none⟩]
    else []

def demoLatest (later : Bool) : WaitReply :=
  { status := .idle, lastMessage := some (if later then "reply to another user" else "result") }

def demoInput : Input :=
  { run := ⟨"run", some "one", some "agent"⟩, targetWorkspaceUid := some "uid-one" }

def demoWorkspaces : List Workspace :=
  [{ metadata := { name := "one", uid := some "uid-one" },
     spec := { projectRef := "p", displayName := "One", credentialProfile := "default" },
     status := some { phase := .Ready, message := "", observedGeneration := 1 } }]

def demoObserve (later : Bool) : Option (OutcomeStatus × Option String) :=
  recorded (observeSchedule (serving demoTimeline demoLatest) later demoWorkspaces (.ok ())
    demoInput)

theorem demo_daemon : Daemon (serving demoTimeline demoLatest) demoTimeline demoLatest := by
  refine serving_daemon fun later => ⟨?_, ?_⟩
  · cases later <;> decide
  · cases later <;> decide

theorem demo_turn (later : Bool) :
    Turn demoInput.run.id demoPrompt [demoAnswer] (demoTimeline later) where
  is_prompt := rfl
  split := ⟨[], _, rfl, by decide, by cases later <;> decide, by cases later <;> decide⟩

theorem outcome_of_latest_turn_demo : demoObserve false ≠ demoObserve true := by
  intro hsame
  have hcondition := (outcome_of_latest_turn demo_daemon demoWorkspaces (.ok ()) demoInput rfl
    (demo_turn false) (demo_turn true)).mp hsame
  have hasked : Asked demoWorkspaces demoInput :=
    ⟨rfl, "one", _, _, rfl, rfl, rfl, rfl, rfl⟩
  have hspeaks : ¬ Silent demoInput.run.id demoPrompt [demoAnswer] (demoTimeline false)
      (demoLatest false) := by
    rintro (h | h | ⟨-, h⟩) <;> revert h <;> decide
  rcases hcondition with h | ⟨h, -⟩ | ⟨-, -, ⟨-, -, h⟩ | ⟨h, -⟩⟩
  · exact h hasked
  · exact hspeaks h
  · revert h
    decide
  · exact h rfl

/-- The run's own turn has ended alike in both states, and what is recorded as its output
    is the answer to another user in one of them. -/
theorem other_turn_recorded :
    Daemon (serving demoTimeline demoLatest) demoTimeline demoLatest ∧
      (∀ later, Turn demoInput.run.id demoPrompt [demoAnswer] (demoTimeline later)) ∧
      answered demoPrompt [demoAnswer] = true ∧
      demoObserve false = some (.succeeded, some "result") ∧
      demoObserve true = some (.succeeded, some "reply to another user") :=
  ⟨demo_daemon, demo_turn, by decide, by decide, by decide⟩

end Demo

end PaseoGateway.ScheduleObservation

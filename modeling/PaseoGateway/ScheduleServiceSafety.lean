/-
  PaseoGateway/ScheduleServiceSafety.lean
  =======================================
  **The schedule service keeps its law.**

  Every write of every call is a step of the law (`ScheduleLaw.lean`), whatever other
  calls and processes do between two awaits.  A thread carries what it has read as facts
  about the history, which only grow; what a dispatch needs on top is about the thread's
  own entries, which nobody else adds to (`Prepared.grows`).
-/
import PaseoGateway.ScheduleLaw

namespace PaseoGateway.ScheduleService

open Async

/-! ### Facts that stay -/

section Later

variable {o : Options} {t : Tid} {n : Nat} {x : Int} {tr tr' : History} {w w' : World sys}
  {runId : String} {s s' : ScheduleState}

theorem Finished.later (h : Finished runId w.trace) (hl : Later w w') :
    Finished runId w'.trace := by
  obtain ⟨n, state, hs, hphase⟩ := h
  exact ⟨n, state, hl.stored hs, hphase⟩

theorem ReadSince.mono (h : ReadSince t n x tr) (hs : tr <:+ tr') : ReadSince t n x tr' := by
  obtain ⟨new, rfl⟩ := hs
  obtain ⟨newer, older, rfl, hn⟩ := h
  exact ⟨new ++ newer, older, by rw [List.append_assoc], hn⟩

theorem ReadSince.later (h : ReadSince t n x w.trace) (hl : Later w w') :
    ReadSince t n x w'.trace := h.mono hl.suffix

theorem Entered.later (h : Entered t x w.trace) (hl : Later w w') : Entered t x w'.trace :=
  hl.mem h

theorem Next.later {old next : Option Int} (h : Next o t n w.trace old next) (hl : Later w w') :
    Next o t n w'.trace old next := by
  rcases h with _ | _ | ⟨hx, hnext⟩ | ⟨hx, hold, hdue, hnext⟩
  · exact .kept
  · exact .never
  · exact .read (hx.later hl) hnext
  · exact .entered (hx.later hl) hold hdue hnext

theorem Edits.later (h : Edits o t n w.trace s s') (hl : Later w w') :
    Edits o t n w'.trace s s' := by
  obtain ⟨gone, hfilter, hgone⟩ := h.reservations
  exact ⟨h.id, h.project, h.profile, h.target, h.totalRuns,
    ⟨gone, hfilter, fun r hr => (hgone r hr).later hl⟩, h.timed, h.next.later hl⟩

theorem later_le (hnum : w.Numbered) (hl : Later w w') : Calls.Le w.calls w'.calls :=
  Law.le_of_later hnum hl

end Later

/-! ### What is known -/

/-- The ids that were drawn are taken. -/
def Drawn (w : World sys) : Prop := ∀ a id, .note a (.drew id) ∈ w.trace → id ∈ w.glob

/-- What a call is owed that the service starts. -/
def Owed (_ : Tid) : Call → World sys → Prop
  | .settle _ runId persisted run, w =>
    Stored w.trace persisted (.scheduleRun runId) (.valid run) ∧ run.phase = .dispatching
  | _, _ => True

/-! ### Entries of one thread -/

section Own

variable {o : Options} {t : Tid} {x : Option Tid} {tr : History} {w w' : World sys}
  {runId : String} {calls : Calls sys} {e : ScheduleEntry}

theorem author_of_opener (h : opener runId e = some x) : e.author = x := by
  unfold opener at h
  split at h
  · split at h <;> cases h
    rfl
  · cases h

theorem author_of_sender (h : sender runId e = some x) : e.author = x := by
  unfold sender at h
  split at h
  · split at h <;> cases h
    rfl
  · cases h

theorem count_grows {f : ScheduleEntry → Option (Option Tid)}
    (hf : ∀ e x, f e = some x → e.author = x) (hg : Grows t w w') :
    (w'.trace.filterMap f).count (some t) = (w.trace.filterMap f).count (some t) := by
  obtain ⟨new, htr, hnew⟩ := hg.trace
  rw [htr, List.filterMap_append, List.count_append, Nat.add_eq_right, List.count_eq_zero]
  intro hmem
  obtain ⟨e, he, hfe⟩ := List.mem_filterMap.mp hmem
  exact hnew e he (hf e _ hfe)

theorem openers_cons (e : ScheduleEntry) (tr : History) :
    openers runId (e :: tr) = (opener runId e).toList ++ openers runId tr := by
  unfold openers
  cases h : opener runId e <;> simp [h]

theorem senders_cons (e : ScheduleEntry) (tr : History) :
    senders runId (e :: tr) = (sender runId e).toList ++ senders runId tr := by
  unfold senders
  cases h : sender runId e <;> simp [h]

/-- Nobody has dispatched a run more often than he opened its record. -/
theorem Legal.sent (h : Legal o calls tr) :
    (senders runId tr).count x ≤ (openers runId tr).count x := by
  induction tr with
  | nil => exact Nat.zero_le _
  | cons e older ih =>
    have hold := ih h.1
    rw [senders_cons, openers_cons, List.count_append, List.count_append]
    cases hsender : sender runId e with
    | none =>
      rw [Option.toList_none, List.count_nil, Nat.zero_add]
      exact hold.trans (Nat.le_add_left _ _)
    | some y =>
      cases h.2 with
      | @dispatch u input automatic hprepared =>
        simp only [sender] at hsender
        split at hsender
        · next hid =>
          cases hsender
          have hunsent := hprepared.unsent
          rw [hid] at hunsent
          rcases eq_or_ne (some u) x with rfl | hx
          · rw [Option.toList_some, List.count_singleton_self]
            omega
          · rw [Option.toList_some, List.count_singleton, if_neg (by simpa using hx)]
            omega
        · cases hsender
      | _ => cases hsender

theorem Took.grows {id : String} {run : RunState} {s s' : ScheduleState} {mid : History}
    (h : Took o t id run s s' mid w.trace) (hg : Grows t w w') :
    Took o t id run s s' mid w'.trace := by
  obtain ⟨new, htr, hnew⟩ := hg.trace
  obtain ⟨newer, hsplit, hquiet⟩ := h.split
  refine ⟨⟨new ++ newer, by rw [htr, hsplit, List.append_assoc], fun input automatic hmem => ?_⟩,
    h.holds⟩
  rcases List.mem_append.mp hmem with hmem | hmem
  · exact hnew _ hmem rfl
  · exact hquiet input automatic hmem

/-- A write of the thread itself is no dispatch. -/
theorem Took.push {id : String} {run : RunState} {s s' : ScheduleState} {mid : History}
    (h : Took o t id run s s' mid tr) (he : e.key?.isSome = true) :
    Took o t id run s s' mid (e :: tr) := by
  obtain ⟨newer, hsplit, hquiet⟩ := h.split
  refine ⟨⟨e :: newer, by rw [hsplit]; rfl, fun input automatic hmem => ?_⟩, h.holds⟩
  rcases List.mem_cons.mp hmem with rfl | hmem
  · cases he
  · exact hquiet input automatic hmem

theorem Prepared.grows {input : ScheduleDispatch} {automatic : Bool}
    (h : Prepared o w.calls t input automatic w.trace) (hnum : w.Numbered) (hg : Grows t w w') :
    Prepared o w'.calls t input automatic w'.trace := by
  obtain ⟨run, s, s', mid, htook, hid, hinput, ⟨n, hs⟩, hauto⟩ := h.took
  refine ⟨h.fires.mono (later_le hnum hg.later), ⟨run, s, s', mid, htook.grows hg, hid,
    hinput, ⟨n, hg.later.stored hs⟩, hauto⟩, ?_⟩
  rw [senders, openers, count_grows (fun _ _ => author_of_sender) hg,
    count_grows (fun _ _ => author_of_opener) hg]
  exact h.unsent

end Own

section Works

variable (o : Options)

abbrev Known (w : World sys) : Prop := ((law o).within (machine o) Drawn Owed).inv w

/-- Thread `t` may run `p` and end in `Q`, or throw. -/
abbrev Works (t : Tid) {α : Type} (p : Task α) (Q : α → World sys → Prop) (w : World sys) : Prop :=
  (law o).Complies (machine o) Drawn Owed t p Q w

variable {o} {t : Tid} {w w' : World sys} {α : Type} {Q : α → World sys → Prop}

theorem Drawn.push (h : Drawn w) {e : ScheduleEntry} (he : e.key?.isSome = true) :
    Drawn (w.push e) := by
  intro a id hmem
  rcases List.mem_cons.mp hmem with rfl | hmem
  · cases he
  · exact h a id hmem

/-- A request that starts no call and draws no id. -/
def Plain : Ext → Prop
  | .dispatch _ _ _ _ | .observe _ | .randomUUID => False
  | _ => True

/-- What such a request leaves in the history. -/
inductive Notes : Ext → List Note → Prop
  | none {x : Ext} : Notes x []
  | clock {instant : Int} : Notes .now [.clock instant]
  | entered {instant : Int} : Notes .entry [.entered instant, .clock instant]
  | outcome {runId : String} {result : Except Err Dispatched} :
      Notes (.outcome runId) [.outcome runId result]

theorem reply_plain {c : Choice} {mem : Mem} {drawn : List String} {x : Ext} (hx : Plain x)
    {r : x.Res × List Note × Mem × List Call} (h : reply o c mem drawn x = some r) :
    Notes x r.2.1 ∧ r.2.2.2 = [] := by
  cases x with
  | dispatch _ _ _ _ | observe _ | randomUUID => exact hx.elim
  | now =>
    cases h
    exact ⟨.clock, rfl⟩
  | entry =>
    cases h
    exact ⟨.entered, rfl⟩
  | outcome runId =>
    cases h
    exact ⟨.outcome, rfl⟩
  | initializeOnce | initialization | enterTick =>
    simp only [reply] at h
    split at h <;> cases h <;> exact ⟨.none, rfl⟩
  | fire id scheduledFor runId =>
    simp only [reply] at h
    split at h <;> cases h <;> exact ⟨.none, rfl⟩
  | preparation runId =>
    simp only [reply] at h
    split at h <;> cases h
    exact ⟨.none, rfl⟩
  | _ =>
    cases h
    exact ⟨.none, rfl⟩

theorem Notes.legal {x : Ext} {notes : List Note} (h : Notes x notes) {calls : Calls sys}
    {tr : History} (hlegal : Legal o calls tr) :
    Legal o calls (notes.map (.note (some t)) ++ tr) := by
  rcases h with _ | _ | _ | _
  · exact hlegal
  · exact ⟨hlegal, .clock⟩
  · exact ⟨⟨hlegal, .clock⟩, .entered rfl⟩
  · exact ⟨hlegal, .outcome⟩

theorem Notes.drew {x : Ext} {notes : List Note} (h : Notes x notes) {id : String} :
    .drew id ∉ notes := by
  rcases h with _ | _ | _ | _ <;> simp

theorem drawn_answered {x : Ext} {notes : List Note} (hd : Drawn w) (h : Notes x notes)
    {a : Answer sys x} (hnotes : a.notes = notes) (hglob : a.glob = w.glob) :
    Drawn (w.answered t a) := by
  intro author id hmem
  rw [World.answered_trace, hnotes] at hmem
  rw [World.answered_glob, hglob]
  rcases List.mem_append.mp hmem with hnew | hold
  · obtain ⟨n, hn, heq⟩ := List.mem_map.mp hnew
    cases heq
    exact absurd hn h.drew
  · exact hd author id hold

theorem answer_plain {c : Choice} {x : Ext} (hx : Plain x) {a : Answer sys x}
    (h : answer o c t x w = some a) : Notes x a.notes ∧ a.forks = [] ∧ a.glob = w.glob := by
  obtain ⟨r, hr, rfl⟩ := Option.map_eq_some_iff.mp h
  obtain ⟨hnotes, hforks⟩ := reply_plain hx hr
  refine ⟨hnotes, hforks, ?_⟩
  cases x with
  | randomUUID => exact hx.elim
  | _ => rfl

/-- A plain request; `Q` may speak of its notes. -/
theorem works_ask {x : Ext} (hx : Plain x) {k : x.Res → Task α}
    (hk : ∀ w' notes a, Grows t w w' → Known o w' → Notes x notes →
      (∃ c : Choice, answer o c t x w' = some a) → a.notes = notes →
      Works o t (k a.res) Q (w'.answered t a)) :
    Works o t (.call (.ext x) k) Q w := by
  refine Law.Complies.ask fun w' c a hg hi ha => ?_
  obtain ⟨hnotes, hforks, hglob⟩ := answer_plain hx ha
  exact ⟨hforks, hnotes.legal hi.1.legal, drawn_answered hi.2 hnotes rfl hglob,
    hk w' a.notes a hg hi hnotes ⟨c, ha⟩ rfl⟩

theorem works_quiet {x : Ext} (hx : Plain x) : Works o t (ask (S := sys) x) (fun _ _ => True) w :=
  works_ask hx fun _ _ _ _ _ _ _ _ => Law.Complies.ret fun _ _ _ => trivial

theorem works_askOr {x : Ext} (hx : Plain x) {h : x.Res = Except Err α} :
    Works o t (askOr (S := sys) x h) (fun _ _ => True) w := by
  refine works_ask hx fun w' notes a _ _ _ _ _ => ?_
  show Works o t (Prog.ofExcept (h ▸ a.res) : Task α) _ _
  rcases (h ▸ a.res : Except Err α) with e | a'
  · exact Law.Complies.fail
  · exact Law.Complies.ret fun _ _ _ => trivial

theorem works_ofExcept {result : Except Err α} :
    Works o t (Prog.ofExcept result : Task α) (fun a _ => result = .ok a) w := by
  rcases result with e | a
  · exact Law.Complies.fail
  · exact Law.Complies.ret fun _ _ _ => rfl

theorem works_now : Works o t now (fun x w' => ∀ n, n < w.trace.length → ReadSince t n x w'.trace)
    w := by
  refine works_ask (x := .now) trivial fun w' notes a hg hi hnotes ha hnotes' => ?_
  obtain ⟨c, ha⟩ := ha
  cases ha
  refine Law.Complies.ret fun w'' hg' hi' n hn => ?_
  obtain ⟨new, htr, -⟩ := hg.trace
  have hlen : n < w'.trace.length := by
    rw [htr, List.length_append]
    omega
  have hread : ReadSince t n c.instant (w'.answered t
      { res := c.instant, notes := [.clock c.instant], mem := w'.mem t.proc, glob := w'.glob,
        forks := [] : Answer sys .now }).trace := ⟨[], w'.trace, rfl, hlen⟩
  exact hread.later hg'.later

theorem works_any {p : Task α} (h : Works o t p Q w) : Works o t p (fun _ _ => True) w :=
  Safe.mono h (fun _ _ _ => trivial) fun _ _ _ => trivial

/-! ### Reading -/

theorem works_parse {raw : Raw α} : Works o t (parse raw) (fun v _ => raw = .valid v) w := by
  rcases raw with v | _
  · exact Law.Complies.ret fun _ _ _ => rfl
  · exact Law.Complies.fail

/-- A schedule as it was stored. -/
def Held (id : String) (n : Nat) (s : ScheduleState) (w : World sys) : Prop :=
  Stored w.trace n (.schedule id) (.valid s) ∧ WellKept id s

theorem Held.later {id : String} {n : Nat} {s : ScheduleState} (h : Held id n s w)
    (hl : Later w w') : Held id n s w' := ⟨hl.stored h.1, h.2⟩

theorem Held.lt {id : String} {n : Nat} {s : ScheduleState} (h : Held id n s w) :
    n < w.trace.length := h.1.lt

/-- A run record as it was stored. -/
def Filed (runId : String) (n : Nat) (v : RunState) (w : World sys) : Prop :=
  Stored w.trace n (.scheduleRun runId) (.valid v) ∧ v.run.id = runId

theorem Filed.later {runId : String} {n : Nat} {v : RunState} (h : Filed runId n v w)
    (hl : Later w w') : Filed runId n v w' := ⟨hl.stored h.1, h.2⟩

theorem works_read {id : String} : Works o t (read id) (fun r w' => Held id r.1 r.2 w') w := by
  refine Law.Complies.seq (Q := fun found w' => ∀ n raw, found = some (n, raw) →
    ∃ s, raw = .valid s ∧ Held id n s w') ?_ fun found w1 hl1 hi1 hfound => ?_
  · refine Law.Complies.get fun w1 hg hi w2 hg' hi' n raw hlook => ?_
    have hstored := hg'.later.stored (lookup_stored hlook)
    obtain ⟨s, rfl, hs⟩ := Legal.scheduled hi'.1.legal hstored
    exact ⟨s, rfl, hstored, hs⟩
  · rcases found with _ | ⟨n, raw⟩
    · exact Law.Complies.fail
    · obtain ⟨s, rfl, hs⟩ := hfound n raw rfl
      refine Law.Complies.seq works_parse fun v w2 hl2 _ hv => ?_
      cases hv
      exact Law.Complies.ret fun w3 hg3 _ => (hs.later hl2).later hg3.later

theorem works_record {runId : String} : Works o t (record runId) (fun found w' =>
    ∀ n raw, found = some (n, raw) → ∃ v, raw = .valid v ∧ Filed runId n v w') w := by
  refine Law.Complies.get fun w1 hg hi w2 hg' hi' n raw hlook => ?_
  have hstored := hg'.later.stored (lookup_stored hlook)
  obtain ⟨v, rfl, hv⟩ := Legal.recorded hi'.1.legal hstored
  exact ⟨v, rfl, hstored, hv⟩

theorem works_schedules : Works o t schedules (fun rows w' => ∀ row ∈ rows,
    ∃ s, row.value = .valid s ∧ Held row.id row.version s w') w := by
  refine Law.Complies.seq (Q := fun rows w' => ∀ row ∈ rows.filterMap scheduleRow,
    ∃ s, row.value = .valid s ∧ Held row.id row.version s w') ?_ fun rows w1 _ _ hrows => ?_
  · refine Law.Complies.list fun w1 rows hg hi hperm w2 hg' hi' row hrow => ?_
    obtain ⟨r, hr, hrow⟩ := List.mem_filterMap.mp hrow
    obtain ⟨-, hlook⟩ := mem_listing.mp (hperm.mem_iff.mp hr)
    obtain ⟨key, version, value⟩ := r
    rcases key with id | id
    · cases hrow
      have hstored := hg'.later.stored (lookup_stored hlook)
      obtain ⟨s, hs, hkept⟩ := Legal.scheduled hi'.1.legal hstored
      cases hs
      exact ⟨s, rfl, hstored, hkept⟩
    · cases hrow
  · exact Law.Complies.ret fun w2 hg _ row hrow =>
      (hrows row hrow).imp fun s hs => ⟨hs.1, hs.2.later hg.later⟩

/-- The rows are run records as they were stored. -/
def FiledAll (rows : List RunRow) (w : World sys) : Prop :=
  ∀ row ∈ rows, Filed row.id row.version row.value w

theorem FiledAll.later {rows : List RunRow} (h : FiledAll rows w) (hl : Later w w') :
    FiledAll rows w' := fun row hrow => (h row hrow).later hl

theorem works_parseRuns {rows : List (Row Key Val)}
    (hrows : ∀ id n raw, ⟨.scheduleRun id, n, raw⟩ ∈ rows → ∃ v, raw = .valid v ∧ Filed id n v w) :
    Works o t (parseRuns rows) FiledAll w := by
  induction rows generalizing w with
  | nil => exact Law.Complies.ret fun _ _ _ row hrow => nomatch hrow
  | cons row rows ih =>
    have hrest : ∀ {w'}, Later w w' → ∀ id n raw, ⟨.scheduleRun id, n, raw⟩ ∈ rows →
        ∃ v, raw = .valid v ∧ Filed id n v w' := fun hl id n raw hmem =>
      (hrows id n raw (List.mem_cons_of_mem _ hmem)).imp fun v hv => ⟨hv.1, hv.2.later hl⟩
    obtain ⟨key, version, value⟩ := row
    rcases key with id | id
    · exact ih (hrest (Later.refl w))
    · obtain ⟨v, hvalue, hfiled⟩ := hrows id version value List.mem_cons_self
      refine Law.Complies.seq works_parse fun v' w1 hl1 _ hv' => ?_
      refine Law.Complies.seq (ih (hrest hl1)) fun rest w2 hl2 _ hrest' => ?_
      refine Law.Complies.ret fun w3 hg _ => List.forall_mem_cons.mpr ⟨?_, hrest'.later hg.later⟩
      rw [hvalue] at hv'
      cases hv'
      exact ((hfiled.later hl1).later hl2).later hg.later

theorem works_runRows : Works o t runRows FiledAll w := by
  refine Law.Complies.seq (Q := fun rows w' => ∀ id n raw, ⟨.scheduleRun id, n, raw⟩ ∈ rows →
    ∃ v, raw = .valid v ∧ Filed id n v w') ?_ fun rows w1 _ _ hrows => works_parseRuns hrows
  refine Law.Complies.list fun w1 rows hg hi hperm w2 hg' hi' id n raw hrow => ?_
  obtain ⟨-, hlook⟩ := mem_listing.mp (hperm.mem_iff.mp hrow)
  have hstored := hg'.later.stored (lookup_stored hlook)
  obtain ⟨v, rfl, hv⟩ := Legal.recorded hi'.1.legal hstored
  exact ⟨v, rfl, hstored, hv⟩

theorem works_runs {id : String} : Works o t (runs id)
    (fun rows w' => FiledAll rows w' ∧ ∀ row ∈ rows, row.value.scheduleId = id) w := by
  refine Law.Complies.seq works_runRows fun rows w1 _ _ hrows => ?_
  refine Law.Complies.ret fun w2 hg _ => ⟨fun row hrow => ?_, fun row hrow => ?_⟩
  · have hmem := (List.perm_insertionSort _ _).mem_iff.mp hrow
    exact (hrows row (List.mem_of_mem_filter hmem)).later hg.later
  · have hmem := (List.perm_insertionSort _ _).mem_iff.mp hrow
    exact of_decide_eq_true (List.mem_filter.mp hmem).2

/-! ### Writing -/

theorem works_save {id : String} {n : Nat} {s s' : ScheduleState} (hs : Held id n s w)
    (h : Edits o t n w.trace s s') : Works o t (save id n s') (fun _ _ => True) w := by
  refine Law.Complies.seq (Q := fun _ _ => True) ?_
    fun _ _ _ _ _ => Law.Complies.ret fun _ _ _ => trivial
  refine Law.Complies.update fun w1 old hg hi hold => ?_
  have hsame := (hg.later.stored hs.1).eq_of_lookup hold
  subst hsame
  exact ⟨.edited hold (h.later hg.later), hi.2.push rfl, fun _ _ _ => trivial⟩

theorem works_updateRun {runId : String} {n : Nat} {v v' : RunState} (hv : Filed runId n v w)
    (h : ∀ w', Grows t w w' → Known o w' → Moves w'.calls t runId w'.trace v v') :
    Works o t (updateRun runId n v') (fun _ w' => ∃ m, Filed runId m v' w') w := by
  refine Law.Complies.seq (Q := fun _ w' => ∃ m, Filed runId m v' w') ?_
    fun _ w1 _ _ ⟨m, hm⟩ => Law.Complies.ret fun w2 hg _ => ⟨m, hm.later hg.later⟩
  refine Law.Complies.update fun w1 old hg hi hold => ?_
  have hfiled := hv.later hg.later
  have hsame := hfiled.1.eq_of_lookup hold
  subst hsame
  have hmoves := h w1 hg hi
  refine ⟨.moved hold hmoves, hi.2.push rfl, fun w2 hg2 hi2 => ⟨w1.trace.length, ?_⟩⟩
  refine Filed.later ⟨⟨[], _, w1.trace, rfl, rfl, Entry.puts_update_self _ _ _⟩, ?_⟩ hg2.later
  exact hmoves.same.id.trans hv.2

/-! ### Recovery -/

/-- Some of these reservations are gone, all of runs seen finished. -/
def Kept (reservations kept : List RunState) (w : World sys) : Prop :=
  ∃ gone : List String, kept = reservations.filter (fun r => decide (r.run.id ∉ gone)) ∧
    ∀ runId ∈ gone, Finished runId w.trace

theorem Kept.refl {reservations : List RunState} : Kept reservations reservations w :=
  ⟨[], by simp, by simp⟩

theorem Kept.later {reservations kept : List RunState} (h : Kept reservations kept w)
    (hl : Later w w') : Kept reservations kept w' := by
  obtain ⟨gone, hkept, hgone⟩ := h
  exact ⟨gone, hkept, fun r hr => (hgone r hr).later hl⟩

theorem Kept.trans {reservations kept kept' : List RunState} (h : Kept reservations kept w)
    (h' : Kept kept kept' w) : Kept reservations kept' w := by
  obtain ⟨gone, rfl, hgone⟩ := h
  obtain ⟨gone', rfl, hgone'⟩ := h'
  refine ⟨gone ++ gone', ?_, List.forall_mem_append.mpr ⟨hgone, hgone'⟩⟩
  rw [List.filter_filter]
  refine List.filter_congr fun r _ => ?_
  simp [not_or, Bool.and_comm]

theorem Kept.drop {reservations : List RunState} {runId : String} (h : Finished runId w.trace) :
    Kept reservations (reservations.filter (·.run.id ≠ runId)) w :=
  ⟨[runId], by simp, by simpa using h⟩

theorem works_unknown {state : RunState} : Works o t (unknown state)
    (fun v _ => v.phase = .unknown ∧ SameRun state v) w := by
  refine Law.Complies.seq works_now fun endedAt w1 _ _ _ => ?_
  exact Law.Complies.ret fun _ _ _ => ⟨rfl, rfl, rfl, rfl, rfl, rfl, rfl, rfl, rfl⟩

theorem works_markUnknown {id : String} {n : Nat} {s : ScheduleState} {reservation state : RunState}
    {stored : Option (Nat × Raw RunState)} (hs : Held id n s w) (hmem : reservation ∈ s.reservations)
    (hnone : stored = none → state = reservation)
    (hsome : ∀ m raw, stored = some (m, raw) → Filed reservation.run.id m state w)
    (hphase : state.phase = .dispatching) :
    Works o t (markUnknown reservation state stored) (fun _ _ => True) w := by
  refine Law.Complies.seq works_unknown fun v w1 hl1 _ ⟨hv, hsame⟩ => ?_
  rcases stored with _ | ⟨m, raw⟩
  · obtain rfl := hnone rfl
    refine Law.Complies.seq (Q := fun _ _ => True) ?_
      fun _ _ _ _ _ => Law.Complies.ret fun _ _ _ => trivial
    refine Law.Complies.create fun w2 hg hi hfree => ⟨?_, hi.2.push rfl, fun _ _ _ => trivial⟩
    exact .presumed hfree (hg.later.stored (hl1.stored hs.1)) hmem rfl hv hsame
  · exact works_any (works_updateRun ((hsome m raw rfl).later hl1)
      fun w2 _ _ => .unknown hphase hv hsame)

theorem works_recoverReservation {id : String} {n : Nat} {s : ScheduleState}
    {reservation : RunState} {kept : List RunState} (hs : Held id n s w)
    (hmem : reservation ∈ s.reservations) :
    Works o t (recoverReservation reservation kept) (fun kept' w' => Kept kept kept' w') w := by
  refine Law.Complies.seq works_record fun stored w1 hl1 _ hstored => ?_
  refine Law.Complies.seq (Q := fun state w' => (stored = none → state = reservation) ∧
      ∀ m raw, stored = some (m, raw) → Filed reservation.run.id m state w') ?_
    fun state w2 hl2 _ hstate => ?_
  · rcases stored with _ | ⟨m, raw⟩
    · exact Law.Complies.ret fun _ _ _ => ⟨fun _ => rfl, fun _ _ h => nomatch h⟩
    · obtain ⟨v, rfl, hv⟩ := hstored m raw rfl
      refine Law.Complies.ret fun w2 hg _ => ⟨fun h => (nomatch h), fun m' raw' h => ?_⟩
      cases h
      exact hv.later hg.later
  · split
    · next hphase =>
      refine Law.Complies.seq (works_markUnknown ((hs.later hl1).later hl2) hmem hstate.1 hstate.2
        hphase) fun _ w3 _ _ _ => Law.Complies.ret fun _ _ _ => Kept.refl
    · split
      · next hphase =>
        refine Law.Complies.ret fun w3 hg _ => Kept.drop ?_
        rcases stored with _ | ⟨m, raw⟩
        · have hown := (hs.2.own _ hmem).2
          rw [hstate.1 rfl, hown] at hphase
          cases hphase
        · have hfiled := hstate.2 m raw rfl
          rw [hfiled.2]
          exact Finished.later ⟨m, state, hfiled.1, hphase⟩ hg.later
      · exact Law.Complies.ret fun _ _ _ => Kept.refl

theorem works_recoverReservations {id : String} {n : Nat} {s : ScheduleState}
    {reservations kept : List RunState} (hs : Held id n s w)
    (hmem : ∀ r ∈ reservations, r ∈ s.reservations) :
    Works o t (recoverReservations reservations kept) (fun kept' w' => Kept kept kept' w') w := by
  induction reservations generalizing kept w with
  | nil => exact Law.Complies.ret fun _ _ _ => Kept.refl
  | cons reservation rest ih =>
    obtain ⟨hfirst, hrest⟩ := List.forall_mem_cons.mp hmem
    refine Law.Complies.seq (works_recoverReservation hs hfirst) fun kept' w1 hl1 _ hkept => ?_
    exact Safe.mono (Safe.later (ih (hs.later hl1) hrest))
      (fun _ w2 h => (hkept.later h.1).trans h.2) fun _ _ _ => trivial

/-- A next time that keeps the schedule timed. -/
def Renewed (o : Options) (t : Tid) (n : Nat) (schedule : StoredSchedule) (next : Option Int)
    (w : World sys) : Prop :=
  Next o t n w.trace schedule.nextRunAt next ∧
    (Timed schedule → (schedule.status = .active ↔ next.isSome = true))

theorem Renewed.kept {n : Nat} {schedule : StoredSchedule} :
    Renewed o t n schedule schedule.nextRunAt w := ⟨.kept, id⟩

theorem Renewed.read {n : Nat} {schedule : StoredSchedule} {cadence : Cadence} {x next : Int}
    (hstatus : schedule.status = .active) (hx : ReadSince t n x w.trace)
    (hnext : nextScheduleTime o cadence x = .ok next) : Renewed o t n schedule (some next) w :=
  ⟨.read hx hnext, fun _ => by simp [hstatus]⟩

theorem works_recoverTime {n : Nat} {schedule : StoredSchedule} (hn : n < w.trace.length) :
    Works o t (recoverTime o schedule) (Renewed o t n schedule) w := by
  unfold recoverTime
  split
  · next due hstatus hdue =>
    refine Law.Complies.seq works_now fun instant w1 hl1 _ _ => ?_
    split
    · refine Law.Complies.seq works_now fun after w2 hl2 _ hafter => ?_
      refine Law.Complies.seq works_ofExcept fun next w3 hl3 _ hnext => ?_
      refine Law.Complies.ret fun w4 hg _ => Renewed.read hstatus ?_ hnext
      refine ((hafter n ?_).later hl3).later hg.later
      exact hn.trans_le (hl1.suffix.length_le)
    · rw [← hdue]
      exact Law.Complies.ret fun _ _ _ => Renewed.kept
  · exact Law.Complies.ret fun _ _ _ => Renewed.kept

theorem works_recoverSchedule {row : ScheduleRow} {s : ScheduleState} (hrow : row.value = .valid s)
    (hs : Held row.id row.version s w) :
    Works o t (recoverSchedule o row) (fun _ _ => True) w := by
  refine Law.Complies.seq works_parse fun state w1 hl1 _ hstate => ?_
  rw [hrow] at hstate
  cases hstate
  refine Law.Complies.seq (works_recoverReservations (hs.later hl1) fun r hr => hr)
    fun reservations w2 hl2 _ hkept => ?_
  have hs2 := (hs.later hl1).later hl2
  refine Law.Complies.seq (works_recoverTime hs2.lt) fun nextRunAt w3 hl3 _ hnext => ?_
  refine works_save (hs2.later hl3) ⟨rfl, rfl, rfl, rfl, rfl, hkept.later hl3, ?_, hnext.1⟩
  exact hnext.2

theorem works_recoverSchedules {rows : List ScheduleRow}
    (hrows : ∀ row ∈ rows, ∃ s, row.value = .valid s ∧ Held row.id row.version s w) :
    Works o t (recoverSchedules o rows) (fun _ _ => True) w := by
  induction rows generalizing w with
  | nil => exact Law.Complies.ret fun _ _ _ => trivial
  | cons row rest ih =>
    obtain ⟨⟨s, hrow, hs⟩, hrest⟩ := List.forall_mem_cons.mp hrows
    refine Law.Complies.seq (works_recoverSchedule hrow hs) fun _ w1 hl1 _ _ => ih ?_
    exact fun row' hmem => (hrest row' hmem).imp fun s' hs' => ⟨hs'.1, hs'.2.later hl1⟩

theorem works_recover : Works o t (recover o) (fun _ _ => True) w :=
  Law.Complies.seq works_schedules fun _ _ _ _ hrows => works_recoverSchedules hrows

theorem works_initializeOnce : Works o t (initializeOnce o) (fun _ _ => True) w := by
  refine Law.Complies.seq (works_quiet trivial) fun first w1 _ _ _ => ?_
  split
  · refine Law.Complies.seq (Law.Complies.attempt_any (Q := fun _ _ => True)
      (works_any works_recover) fun _ _ _ => trivial)
      fun result w2 _ _ _ => ?_
    refine Law.Complies.seq (works_quiet trivial) fun _ w3 _ _ _ => ?_
    exact works_any works_ofExcept
  · exact works_askOr (x := .initialization) trivial

/-! ### Firing -/

theorem works_expired {n : Nat} {schedule : StoredSchedule} (hn : n < w.trace.length) :
    Works o t (expired schedule) (fun late w' => late = false → ∀ e, schedule.expiresAt = some e →
      ∃ x, ReadSince t n x w'.trace ∧ x < e) w := by
  unfold expired
  split
  · next hnone =>
    refine Law.Complies.ret fun _ _ _ _ e he => ?_
    rw [hnone] at he
    cases he
  · next expiresAt hsome =>
    refine Law.Complies.seq works_now fun instant w1 hl1 _ hread => ?_
    refine Law.Complies.ret fun w2 hg _ hlate e he => ⟨instant, (hread n hn).later hg.later, ?_⟩
    rw [hsome] at he
    cases he
    exact not_le.mp (of_decide_eq_false hlate)

theorem works_nextTime {schedule : StoredSchedule} :
    Works o t (nextTime o schedule) (fun next w' =>
      (schedule.status = .active → ∃ x time, (∀ n, n < w.trace.length → ReadSince t n x w'.trace) ∧
        nextScheduleTime o schedule.cadence x = .ok time ∧ next = some time) ∧
      (schedule.status ≠ .active → next = schedule.nextRunAt)) w := by
  unfold nextTime
  split
  · next hactive =>
    refine Law.Complies.seq works_now fun after w1 hl1 _ hread => ?_
    refine Law.Complies.seq works_ofExcept fun next w2 hl2 _ hnext => ?_
    exact Law.Complies.ret fun w3 hg _ => ⟨fun _ =>
      ⟨after, next, fun n hn => ((hread n hn).later hl2).later hg.later, hnext, rfl⟩,
      fun h => absurd hactive h⟩
  · next hother => exact Law.Complies.ret fun _ _ _ => ⟨fun h => absurd h hother, fun _ => rfl⟩

/-- The slot is taken and the record of the run is there. -/
structure Slot (o : Options) (t : Tid) (automatic : Bool) (runId : String) (slot : Reserved)
    (w : World sys) : Prop where
  prepared : Prepared o w.calls t (dispatchOf slot.state runId) automatic w.trace
  persisted : Stored w.trace slot.persisted (.scheduleRun runId) (.valid slot.run)
  phase : slot.run.phase = .dispatching

theorem Slot.grows {automatic : Bool} {runId : String} {slot : Reserved}
    (h : Slot o t automatic runId slot w) (hnum : w.Numbered) (hg : Grows t w w') :
    Slot o t automatic runId slot w' :=
  ⟨h.prepared.grows hnum hg, hg.later.stored h.persisted, h.phase⟩

theorem works_take {id : String} {n : Nat} {s s' : ScheduleState} {run : RunState}
    (hs : Held id n s w)
    (h : ∀ w', Grows t w w' → Reserves o t n w'.trace s s' run) :
    Works o t (save id n s') (fun _ w' => ∃ mid, w.trace <:+ mid ∧
      Took o t id run s s' mid w'.trace) w := by
  refine Law.Complies.seq (Q := fun _ w' => ∃ mid, w.trace <:+ mid ∧
      Took o t id run s s' mid w'.trace) ?_
    fun _ w1 _ _ ⟨mid, hmid, htook⟩ => Law.Complies.ret fun w2 hg _ =>
      ⟨mid, hmid, htook.grows hg⟩
  refine Law.Complies.update fun w1 old hg hi hold => ?_
  have hsame := (hg.later.stored hs.1).eq_of_lookup hold
  subst hsame
  refine ⟨.reserved hold (h w1 hg), hi.2.push rfl, fun w2 hg2 hi2 =>
    ⟨w1.trace, hg.later.suffix, Took.grows ⟨⟨[], rfl, ?_⟩, n, hold, h w1 hg⟩ hg2⟩⟩
  exact fun _ _ => List.not_mem_nil

/-- What the fire of a tick has seen. -/
def Due (t : Tid) (s : ScheduleState) (scheduledFor : Int) (w : World sys) : Prop :=
  s.schedule.status = .active ∧ s.schedule.nextRunAt = some scheduledFor ∧
    ∃ x, Entered t x w.trace ∧ scheduledFor ≤ x ∧ x ≤ scheduledFor + 1000

/-- A due run that is reserved with a time read since is punctual. -/
theorem Due.punctual {s : ScheduleState} {scheduledFor startedAt updatedAt : Int} {id runId : String}
    {nextRunAt : Option Int} {mid : History} (h : Due t s scheduledFor w) (hmid : w'.trace <:+ mid)
    (hl : Later w w')
    (hnext : s.schedule.status = .active → ∃ x time,
      (∀ n, n < w.trace.length → ReadSince t n x w'.trace) ∧
        nextScheduleTime o s.schedule.cadence x = .ok time ∧ nextRunAt = some time) :
    Punctual o t s (reserved s (newRun id scheduledFor runId s startedAt) updatedAt nextRunAt)
      (newRun id scheduledFor runId s startedAt) mid := by
  obtain ⟨hactive, hdue, x, hx, hle, hlt⟩ := h
  obtain ⟨newer, older, htr⟩ := List.append_of_mem hx
  obtain ⟨y, time, hy, htime, rfl⟩ := hnext hactive
  obtain ⟨new, hnew⟩ := hl.suffix.trans hmid
  refine ⟨hactive, hdue, new ++ newer, x, older, ?_, hle, hlt, fun time' htime' => ?_⟩
  · rw [← hnew, htr, List.append_assoc]
  · refine ⟨s.schedule.cadence, y, (hy older.length ?_).mono hmid, ?_⟩
    · rw [htr, List.length_append, List.length_cons]
      omega
    · rcases reserved_timed (s := s) (newRun id scheduledFor runId s startedAt) updatedAt (some time)
        with ⟨-, hsome⟩ | ⟨-, hnone⟩
      · rw [hsome] at htime'
        cases htime'
        exact htime
      · rw [hnone] at htime'
        cases htime'

theorem works_takeSlot {id runId : String} {n : Nat} {s : ScheduleState} {scheduledFor : Int}
    {automatic : Bool} (hs : Held id n s w) (hfires : Fires w.calls t) (hnum : w.Numbered)
    (hfresh : ∀ r ∈ s.reservations, r.run.id ≠ runId) (hfree : blocked s = false)
    (hunspent : spent s = false)
    (hunexpired : ∀ e, s.schedule.expiresAt = some e → ∃ x, ReadSince t n x w.trace ∧ x < e)
    (hdue : automatic = true → Due t s scheduledFor w) :
    Works o t (takeSlot o id n s scheduledFor runId)
      (fun slot w' => Slot o t automatic runId slot w') w := by
  refine Law.Complies.seq works_now fun startedAt w1 hl1 _ _ => ?_
  refine Law.Complies.seq works_now fun updatedAt w2 hl2 _ _ => ?_
  have hl12 := hl1.trans hl2
  refine Law.Complies.seq works_nextTime fun nextRunAt w3 hl3 _ hnext => ?_
  have hs3 := (hs.later hl12).later hl3
  have hl := hl12.trans hl3
  have hread {m : Nat} (hm : m < w.trace.length) : m < w2.trace.length :=
    hm.trans_le hl12.suffix.length_le
  have hreserves (w' : World sys) (hl' : Later w3 w') : Reserves o t n w'.trace s
      (reserved s (newRun id scheduledFor runId s startedAt) updatedAt nextRunAt)
      (newRun id scheduledFor runId s startedAt) := by
    refine ⟨⟨scheduledFor, startedAt, by rw [hs.2.id]; rfl⟩,
      ⟨updatedAt, nextRunAt, rfl, ?_, hnext.2⟩, hfresh, hfree, hunspent, fun e he => ?_⟩
    · intro hactive
      obtain ⟨x, time, hx, htime, rfl⟩ := hnext.1 hactive
      exact ⟨x, time, (hx n (hread hs.lt)).later hl', htime, rfl⟩
    · obtain ⟨x, hx, hlt⟩ := hunexpired e he
      exact ⟨x, (hx.later hl).later hl', hlt⟩
  refine Law.Complies.seq (works_take hs3 fun w' hg => hreserves w' hg.later)
    fun _ w4 hl4 hi4 ⟨mid, hmid, htook⟩ => ?_
  refine Law.Complies.seq (Q := fun persisted w' => Slot o t automatic runId
    ⟨reserved s (newRun id scheduledFor runId s startedAt) updatedAt nextRunAt,
      newRun id scheduledFor runId s startedAt, persisted⟩ w') ?_
    fun persisted w5 hl5 hi5 hslot => Law.Complies.ret fun w6 hg _ => hslot.grows hi5.1.numbered hg
  refine Law.Complies.create fun w5 hg hi hvacant => ?_
  have htook5 := htook.grows hg
  refine ⟨.opened hvacant htook5 rfl, hi.2.push rfl, fun w6 hg6 hi6 => ?_⟩
  have hnum5 : (w5.push (.create (some t) (.scheduleRun runId)
      (.valid (newRun id scheduledFor runId s startedAt)))).Numbered := hi.1.numbered
  refine Slot.grows ⟨⟨?_, ?_, ?_⟩, ?_, rfl⟩ hnum5 hg6
  · exact hfires.mono (later_le hnum ((hl.trans hl4).trans hg.later))
  · refine ⟨newRun id scheduledFor runId s startedAt, s, _, mid, ?_, rfl, rfl,
      ⟨w5.trace.length, ?_⟩, fun hauto => ?_⟩
    · rw [hs.2.id]
      exact htook5.push rfl
    · exact ⟨[], _, w5.trace, rfl, rfl, Entry.puts_create_self _ _ _⟩
    · refine (hdue hauto).punctual hmid hl fun hactive => ?_
      obtain ⟨x, time, hx, htime⟩ := hnext.1 hactive
      exact ⟨x, time, fun m hm => hx m (hread hm), htime⟩
  · have hsent : (senders runId w5.trace).count (some t) ≤
        (openers runId w5.trace).count (some t) := Legal.sent hi.1.legal
    show (senders runId (_ :: w5.trace)).count (some t) <
      (openers runId (_ :: w5.trace)).count (some t)
    rw [senders_cons, openers_cons]
    simp only [sender, opener, newRun, and_self, if_true, Option.toList_none, Option.toList_some,
      List.nil_append, List.singleton_append, List.count_cons_self]
    omega
  · exact ⟨[], _, w5.trace, rfl, rfl, Entry.puts_create_self _ _ _⟩

theorem works_reserve {id runId : String} {scheduledFor : Int} {automatic : Bool}
    (hfires : Fires w.calls t) (hnum : w.Numbered)
    (hauto : automatic = true →
      ∃ x, Entered t x w.trace ∧ scheduledFor ≤ x ∧ x ≤ scheduledFor + 1000) :
    Works o t (reserve o id scheduledFor runId automatic)
      (fun found w' => ∀ slot, found = some slot → Slot o t automatic runId slot w') w := by
  refine Law.Complies.seq works_record fun stored w1 hl1 hi1 _ => ?_
  rcases stored with _ | _
  swap
  · exact Law.Complies.ret fun _ _ _ _ h => nomatch h
  refine Law.Complies.seq works_read fun ⟨n, s⟩ w2 hl2 hi2 hs => ?_
  have hl := hl1.trans hl2
  show Works o t (ite _ _ _) _ _
  split
  · exact Law.Complies.ret fun _ _ _ _ h => nomatch h
  next hwanted =>
  split
  · exact Law.Complies.ret fun _ _ _ _ h => nomatch h
  next hfresh =>
  refine Law.Complies.seq (works_expired hs.lt) fun late w3 hl3 hi3 hlate => ?_
  split
  · exact Law.Complies.fail
  next hopen =>
  split
  · exact Law.Complies.fail
  next hfree =>
  obtain ⟨hnotLate, hunspent⟩ := not_or.mp hopen
  have hl' := hl.trans hl3
  have hslot : Works o t (takeSlot o id n s scheduledFor runId)
      (fun slot w' => Slot o t automatic runId slot w') w3 := by
    refine works_takeSlot (hs.later hl3) (hfires.mono (later_le hnum hl')) hi3.1.numbered
      (fun r hr heq => hfresh (List.any_eq_true.mpr ⟨r, hr, decide_eq_true heq⟩))
      (Bool.eq_false_iff.mpr hfree) (Bool.eq_false_iff.mpr hunspent)
      (hlate (Bool.eq_false_iff.mpr hnotLate)) fun h => ?_
    obtain ⟨x, hx, hle, hlt⟩ := hauto h
    have hdue := not_or.mp (not_and.mp hwanted h)
    exact ⟨not_not.mp hdue.1, not_not.mp hdue.2, x, hx.later hl', hle, hlt⟩
  refine Law.Complies.seq hslot fun slot w4 _ hi4 hslot4 => ?_
  refine Law.Complies.ret fun w5 hg _ slot' heq => ?_
  cases heq
  exact hslot4.grows hi4.1.numbered hg

/-- `prepared()`: the dispatch is noted and the rest of the fire is owed its record. -/
theorem works_dispatch {automatic : Bool} {runId : String} {slot : Reserved}
    (h : Slot o t automatic runId slot w) (hnum : w.Numbered) :
    Works o t (ask (S := sys)
      (.dispatch (dispatchOf slot.state runId) automatic slot.persisted slot.run))
      (fun _ _ => True) w := by
  refine Law.Complies.ext fun w1 c a hg hi ha => ?_
  have hslot := h.grows hnum hg
  cases ha
  refine ⟨⟨hi.1.legal, .dispatch hslot.prepared⟩, ?_, fun u s hnone hs => ?_,
    Law.Complies.ret fun _ _ _ => trivial⟩
  · intro author id hmem
    rcases List.mem_cons.mp hmem with heq | hmem
    · cases heq
    · exact hi.2 author id hmem
  · rcases World.spawnAll_height hs with hold | ⟨-, hcall, -⟩
    · rw [World.answered_calls, hnone] at hold
      cases hold
    · rw [List.mem_singleton.mp hcall]
      exact ⟨hslot.persisted.mono [_], hslot.phase⟩

theorem works_fire {id key : String} {scheduledFor : Int} {automatic : Bool}
    (hfires : Fires w.calls t) (hnum : w.Numbered)
    (hauto : automatic = true →
      ∃ x, Entered t x w.trace ∧ scheduledFor ≤ x ∧ x ≤ scheduledFor + 1000) :
    Works o t (fire o id scheduledFor key automatic) (fun _ _ => True) w := by
  refine Law.Complies.seq (works_quiet trivial) fun ticket w1 hl1 hi1 _ => ?_
  rcases ticket with _ | _ | _ | _
  · exact Law.Complies.fail
  · exact works_askOr (x := .preparation _) trivial
  · exact Law.Complies.fail
  · refine Law.Complies.seq (Law.Complies.attempt_any (Q := fun result w' =>
      ∀ slot, result = .ok (some slot) →
        Slot o t automatic (o.sha256 (id ++ ":" ++ key)) slot w') ?_ fun _ _ _ _ h => nomatch h)
      fun result w2 hl2 hi2 hslot => ?_
    · refine Safe.mono (works_reserve (hfires.mono (later_le hnum hl1)) hi1.1.numbered
        fun h => ?_) (fun found w' hfound slot heq => hfound slot ?_) fun _ _ _ => trivial
      · exact (hauto h).imp fun x hx => ⟨hx.1.later hl1, hx.2⟩
      · exact Except.ok.inj heq
    · rcases result with e | found
      · exact Law.Complies.seq (works_quiet trivial) fun _ _ _ _ _ => Law.Complies.fail
      · rcases found with _ | slot
        · exact works_quiet trivial
        · exact works_dispatch (hslot slot rfl) hi2.1.numbered

/-! ### Settling -/

theorem Filed.finished {runId : String} {n : Nat} {v : RunState} (h : Filed runId n v w)
    (hphase : v.phase = .finished) : Finished runId w.trace := ⟨n, v, h.1, hphase⟩

theorem works_release {id runId : String} {left : Nat} (hfinished : Finished runId w.trace) :
    Works o t (releaseAttempts id runId left) (fun _ _ => True) w := by
  induction left generalizing w with
  | zero => exact Law.Complies.ret fun _ _ _ => trivial
  | succ left ih =>
    refine Law.Complies.seq works_read fun ⟨n, s⟩ w1 hl1 _ hs => ?_
    have hfin := hfinished.later hl1
    refine Law.Complies.seq (Law.Complies.attempt_any (Q := fun _ _ => True) (works_save hs
      ⟨rfl, rfl, rfl, rfl, rfl, Kept.drop hfin, fun h => h, .kept⟩) fun _ _ _ => trivial)
      fun result w2 hl2 _ _ => ?_
    rcases result with e | _
    · show Works o t (ite _ _ _) _ _
      split
      · exact Law.Complies.fail
      · exact ih (hfin.later hl2)
    · exact Law.Complies.ret fun _ _ _ => trivial

/-- Only finished records go, or those of a schedule that this thread has deleted. -/
theorem works_deleteRuns {rows : List RunRow} (hrows : FiledAll rows w)
    (hdone : ∀ row ∈ rows, row.value.phase = .finished ∨
      .delete (some t) (.schedule row.value.scheduleId) ∈ w.trace) :
    Works o t (deleteRuns rows) (fun _ _ => True) w := by
  induction rows generalizing w with
  | nil => exact Law.Complies.ret fun _ _ _ => trivial
  | cons row rest ih =>
    obtain ⟨hrow, hrest⟩ := List.forall_mem_cons.mp hrows
    obtain ⟨hfirst, hothers⟩ := List.forall_mem_cons.mp hdone
    refine Law.Complies.seq (Q := fun _ _ => True) (Law.Complies.delete fun w1 old hg hi hold => ?_)
      fun _ w1 hl1 _ _ => ih (FiledAll.later hrest hl1) fun row' hmem =>
        (hothers row' hmem).imp_right hl1.mem
    have hsame := (hg.later.stored hrow.1).eq_of_lookup hold
    subst hsame
    exact ⟨.removed hold (hfirst.imp_right hg.later.mem), hi.2.push rfl, fun _ _ _ => trivial⟩

theorem works_prune {id : String} : Works o t (prune o id) (fun _ _ => True) w := by
  refine Law.Complies.seq works_runs fun rows w1 _ _ ⟨hrows, _⟩ => ?_
  have hmem (row : RunRow)
      (h : row ∈ (rows.filter (·.value.phase = .finished)).drop o.historyLimit) :=
    List.mem_filter.mp (List.mem_of_mem_drop h)
  exact works_deleteRuns (fun row h => hrows row (hmem row h).1)
    fun row h => .inl (of_decide_eq_true (hmem row h).2)

theorem SameRun.trans {v v' v'' : RunState} (h : SameRun v v') (h' : SameRun v' v'') :
    SameRun v v'' :=
  ⟨h'.1.trans h.1, h'.2.trans h.2, h'.3.trans h.3, h'.4.trans h.4, h'.5.trans h.5,
    h'.6.trans h.6, h'.7.trans h.7, h'.8.trans h.8⟩

/-- The dispatching record is closed, or its outcome stays unknown. -/
theorem works_recordFailure {id runId : String} {persisted : Nat} {run run' : RunState} {e : Err}
    (hrun : Filed runId persisted run w) (hphase : run.phase = .dispatching)
    (hsame : SameRun run run')
    (hnote : e = .rejected → .note (some t) (.outcome runId (.error .rejected)) ∈ w.trace) :
    Works o t (recordFailure id runId persisted run' e) (fun _ _ => True) w := by
  unfold recordFailure
  split
  · next hrejected =>
    refine Law.Complies.seq works_now fun endedAt w1 hl1 _ _ => ?_
    refine Law.Complies.seq (works_updateRun (hrun.later hl1) fun w2 hg _ =>
      .rejected hphase (hg.later.mem (hl1.mem (hnote hrejected))) rfl
        ⟨hsame.1, hsame.2, hsame.3, hsame.4, hsame.5, hsame.6, hsame.7, hsame.8⟩)
      fun _ w2 _ _ ⟨m, hm⟩ => ?_
    exact works_release (hm.finished rfl)
  · refine Law.Complies.seq works_unknown fun v w1 hl1 _ ⟨hv, hsame'⟩ => ?_
    exact works_any (works_updateRun (hrun.later hl1) fun w2 _ _ =>
      .unknown hphase hv (hsame.trans hsame'))

theorem updateRun_throws {runId : String} {n : Nat} {v : RunState} :
    (updateRun runId n v).Keeps (fun _ => True) fun e => e ≠ .rejected := by
  refine Prog.Keeps.bind ⟨trivial, fun r => ?_⟩ fun _ => trivial
  rcases r with e | _
  · exact nofun
  · trivial

theorem works_recordOutcome {id runId : String} {persisted : Nat} {run : RunState}
    {result : Except Err Dispatched} (hrun : Filed runId persisted run w)
    (hphase : run.phase = .dispatching)
    (hnote : .note (some t) (.outcome runId result) ∈ w.trace) :
    Works o t (recordOutcome id runId persisted run result) (fun _ _ => True) w := by
  rcases result with e | dispatched
  · refine works_recordFailure hrun hphase ⟨rfl, rfl, rfl, rfl, rfl, rfl, rfl, rfl⟩ ?_
    rintro rfl
    exact hnote
  · have hattempt : Works o t (updateRun runId persisted (started run dispatched)).attempt
        (fun result _ => ∀ e, result = .error e → e ≠ .rejected) w := by
      refine Law.Complies.attempt ?_ updateRun_throws fun e w1 _ he e' heq => ?_
      · exact Safe.mono (works_updateRun hrun fun w1 hg _ =>
          .started hphase (hg.later.mem hnote) rfl) (fun _ _ _ e h => nomatch h)
          fun _ _ _ => trivial
      · cases heq
        exact he
    refine Law.Complies.seq hattempt fun result w1 hl1 _ hresult => ?_
    · rcases result with e | _
      · exact works_recordFailure (hrun.later hl1) hphase ⟨rfl, rfl, rfl, rfl, rfl, rfl, rfl, rfl⟩
          fun h => absurd h (hresult e rfl)
      · exact Law.Complies.ret fun _ _ _ => trivial

theorem works_settle {id runId : String} {persisted : Nat} {run : RunState}
    (hrun : Filed runId persisted run w) (hphase : run.phase = .dispatching) :
    Works o t (settle o id runId persisted run) (fun _ _ => True) w := by
  refine Law.Complies.seq (Q := fun result w' =>
    .note (some t) (.outcome runId result) ∈ w'.trace) ?_ fun result w1 hl1 _ hnote => ?_
  · refine works_ask (x := .outcome runId) trivial fun w1 notes a _ _ _ ⟨c, ha⟩ _ => ?_
    cases ha
    exact Law.Complies.ret fun w2 hg _ => hg.later.mem List.mem_cons_self
  · exact Law.Complies.seq (works_recordOutcome (hrun.later hl1) hphase hnote)
      fun _ _ _ _ _ => works_prune

theorem works_completeRun {runId : String} {outcome : ScheduleOutcome}
    (hcall : Completes w.calls t runId) (hnum : w.Numbered) :
    Works o t (completeRun o runId outcome) (fun _ _ => True) w := by
  refine Law.Complies.seq works_record fun stored w1 hl1 hi1 hstored => ?_
  rcases stored with _ | ⟨n, raw⟩
  · exact Law.Complies.fail
  obtain ⟨v, rfl, hv⟩ := hstored n raw rfl
  refine Law.Complies.seq works_parse fun v' w2 hl2 hi2 heq => ?_
  cases heq
  split
  · next hphase =>
    exact Law.Complies.seq (works_release ((hv.later hl2).finished hphase))
      fun _ _ _ _ _ => works_prune
  · next hphase =>
    refine Law.Complies.seq works_now fun endedAt w3 hl3 hi3 _ => ?_
    have hl := (hl1.trans hl2).trans hl3
    refine Law.Complies.seq (works_updateRun ((hv.later hl2).later hl3) fun w4 hg _ =>
      .completed hphase (hcall.mono (later_le hnum (hl.trans hg.later))) rfl)
      fun _ w4 _ _ ⟨m, hm⟩ => ?_
    exact Law.Complies.seq (works_release (hm.finished rfl)) fun _ _ _ _ _ => works_prune

theorem works_observation {state : RunState} (hcall : Completes w.calls t state.run.id)
    (hnum : w.Numbered) : Works o t (observation o state) (fun _ _ => True) w := by
  refine Law.Complies.seq (works_askOr (x := .observed state) trivial) fun found w1 hl1 hi1 _ => ?_
  rcases found with _ | outcome
  · exact Law.Complies.ret fun _ _ _ => trivial
  · exact works_completeRun (hcall.mono (later_le hnum hl1)) hi1.1.numbered

/-! ### The tick -/

theorem works_saveQuietly {id : String} {n : Nat} {s s' : ScheduleState} (hs : Held id n s w)
    (h : Edits o t n w.trace s s') : Works o t (saveQuietly id n s') (fun _ _ => True) w := by
  refine Law.Complies.seq (Law.Complies.attempt_any (Q := fun _ _ => True) (works_save hs h)
    fun _ _ _ => trivial) fun result w1 _ _ _ => ?_
  rcases result with e | _
  · show Works o t (ite _ _ _) _ _
    split
    · exact Law.Complies.ret fun _ _ _ => trivial
    · exact Law.Complies.fail
  · exact Law.Complies.ret fun _ _ _ => trivial

theorem dueAt_some {tickTime due : Int} {schedule : StoredSchedule}
    (h : dueAt tickTime schedule = some due) :
    schedule.status = .active ∧ schedule.nextRunAt = some due ∧ due ≤ tickTime := by
  unfold dueAt at h
  split at h
  · next hstatus hnext =>
    split at h
    · cases h
    · next hle =>
      cases h
      exact ⟨hstatus, hnext, not_lt.mp hle⟩
  · cases h

theorem works_visit {tickTime : Int} {row : ScheduleRow} {s : ScheduleState}
    (hrow : row.value = .valid s) (hs : Held row.id row.version s w) (hfires : Fires w.calls t)
    (hnum : w.Numbered) (hentered : Entered t tickTime w.trace) :
    Works o t (visit o tickTime row) (fun _ _ => True) w := by
  refine Law.Complies.seq works_parse fun s' w1 hl1 hi1 heq => ?_
  rw [hrow] at heq
  cases heq
  have hs1 := hs.later hl1
  dsimp only
  split
  · exact Law.Complies.ret fun _ _ _ => trivial
  next due hdue =>
  obtain ⟨hactive, hnextRun, hle⟩ := dueAt_some hdue
  split
  · refine Law.Complies.seq (works_saveQuietly hs1 ⟨rfl, rfl, rfl, rfl, rfl, Kept.refl, ?_, .never⟩)
      fun _ _ _ _ _ => Law.Complies.ret fun _ _ _ => trivial
    exact fun _ => by simp [Timed]
  refine Law.Complies.seq (works_quiet trivial) fun saturated w2 hl2 hi2 _ => ?_
  have hl := hl1.trans hl2
  split
  · refine Law.Complies.seq works_ofExcept fun next w3 hl3 _ hnext => ?_
    refine Law.Complies.seq (works_saveQuietly ((hs1.later hl2).later hl3)
      ⟨rfl, rfl, rfl, rfl, rfl, Kept.refl, ?_,
        .entered ((hentered.later hl).later hl3) hnextRun hle hnext⟩)
      fun _ _ _ _ _ => Law.Complies.ret fun _ _ _ => trivial
    exact fun _ => by simp [Timed, hactive]
  next htimely =>
  have hlate := not_lt.mp (not_or.mp htimely).1
  refine Law.Complies.seq (Law.Complies.attempt_any (Q := fun _ _ => True)
    (works_fire (hfires.mono (later_le hnum hl)) hi2.1.numbered
      fun _ => ⟨tickTime, hentered.later hl, hle, by omega⟩) fun _ _ _ => trivial)
    fun result w3 _ _ _ => ?_
  rcases result with e | _
  · refine Law.Complies.seq (works_quiet trivial) fun stopping w4 _ _ _ => ?_
    split
    · exact Law.Complies.ret fun _ _ _ => trivial
    · split
      · exact Law.Complies.ret fun _ _ _ => trivial
      · exact Law.Complies.fail
  · exact Law.Complies.ret fun _ _ _ => trivial

theorem works_eachSchedule {tickTime : Int} {rows : List ScheduleRow}
    (hrows : ∀ row ∈ rows, ∃ s, row.value = .valid s ∧ Held row.id row.version s w)
    (hfires : Fires w.calls t) (hnum : w.Numbered) (hentered : Entered t tickTime w.trace) :
    Works o t (eachSchedule o tickTime rows) (fun _ _ => True) w := by
  induction rows generalizing w with
  | nil => exact Law.Complies.ret fun _ _ _ => trivial
  | cons row rest ih =>
    obtain ⟨⟨s, hrow, hs⟩, hrest⟩ := List.forall_mem_cons.mp hrows
    refine Law.Complies.seq (works_quiet trivial) fun stopping w1 hl1 hi1 _ => ?_
    split
    · exact Law.Complies.ret fun _ _ _ => trivial
    refine Law.Complies.seq (works_visit hrow (hs.later hl1) (hfires.mono (later_le hnum hl1))
      hi1.1.numbered (hentered.later hl1)) fun go w2 hl2 hi2 _ => ?_
    have hl := hl1.trans hl2
    split
    · refine ih (fun row' hmem => ?_) (hfires.mono (later_le hnum hl)) hi2.1.numbered
        (hentered.later hl)
      exact (hrest row' hmem).imp fun s' hs' => ⟨hs'.1, hs'.2.later hl⟩
    · exact Law.Complies.ret fun _ _ _ => trivial

theorem works_entry : Works o t (ask (S := sys) .entry) (fun x w' => Entered t x w'.trace) w := by
  refine works_ask (x := .entry) trivial fun w1 notes a _ _ _ ⟨c, ha⟩ _ => ?_
  cases ha
  exact Law.Complies.ret fun w2 hg _ => hg.later.mem List.mem_cons_self

/-- The observations that start are owed nothing. -/
theorem works_observe {states : List RunState} :
    Works o t (ask (S := sys) (.observe states)) (fun _ _ => True) w := by
  refine Law.Complies.ext fun w1 c a hg hi ha => ?_
  cases ha
  refine ⟨hi.1.legal, ?_, fun u s hnone hs => ?_, Law.Complies.ret fun _ _ _ => trivial⟩
  · intro author id hmem
    rw [World.spawnAll_trace] at hmem
    rw [World.spawnAll_glob]
    exact hi.2 author id hmem
  · rcases World.spawnAll_height hs with hold | ⟨-, hcall, -⟩
    · rw [World.answered_calls, hnone] at hold
      cases hold
    · obtain ⟨id, -, hstate⟩ := List.mem_filterMap.mp hcall
      obtain ⟨state, -, heq⟩ := Option.map_eq_some_iff.mp hstate
      rw [← heq]
      trivial

theorem works_beginTick : Works o t (beginTick o)
    (fun found w' => ∀ x, found = some x → Entered t x w'.trace) w := by
  refine Law.Complies.seq works_initializeOnce fun _ w1 _ _ _ => ?_
  refine Law.Complies.seq (works_quiet trivial) fun stopping w2 _ _ _ => ?_
  split
  · exact Law.Complies.ret fun _ _ _ _ h => nomatch h
  refine Law.Complies.seq works_entry fun tickTime w3 _ _ hentered => ?_
  refine Law.Complies.seq works_runRows fun rows w4 hl4 _ _ => ?_
  refine Law.Complies.seq works_observe fun _ w5 hl5 _ _ => ?_
  refine Law.Complies.ret fun w6 hg _ x heq => ?_
  cases heq
  exact ((hentered.later hl4).later hl5).later hg.later

theorem works_tickOnce (hfires : Fires w.calls t) (hnum : w.Numbered) :
    Works o t (tickOnce o) (fun _ _ => True) w := by
  refine Law.Complies.seq works_beginTick fun found w1 hl1 hi1 hentered => ?_
  rcases found with _ | tickTime
  · exact Law.Complies.ret fun _ _ _ => trivial
  refine Law.Complies.seq works_schedules fun rows w2 hl2 hi2 hrows => ?_
  exact works_eachSchedule hrows (hfires.mono (later_le hnum (hl1.trans hl2))) hi2.1.numbered
    ((hentered tickTime rfl).later hl2)

theorem works_tick (hfires : Fires w.calls t) (hnum : w.Numbered) :
    Works o t (tick o) (fun _ _ => True) w := by
  refine Law.Complies.seq (works_quiet trivial) fun first w1 hl1 hi1 _ => ?_
  split
  · exact Law.Complies.andFinally (works_tickOnce (hfires.mono (later_le hnum hl1)) hi1.1.numbered)
      fun _ _ => works_quiet trivial
  · exact Law.Complies.ret fun _ _ _ => trivial

/-! ### Messages -/

theorem works_readAllowed {id : String} {principal : GatewayPrincipal} :
    Works o t (readAllowed id principal) (fun r w' => Held id r.1 r.2 w') w := by
  refine Law.Complies.seq works_read fun ⟨n, s⟩ w1 _ _ hs => ?_
  show Works o t (ite _ _ _) _ _
  split
  · exact Law.Complies.ret fun w2 hg _ => hs.later hg.later
  · exact Law.Complies.fail

/-- Thread `t` has stored nothing under the id that it drew. -/
structure Claimed (t : Tid) (id : String) (w : World sys) : Prop where
  drew : .note (some t) (.drew id) ∈ w.trace
  unused : ∀ e ∈ w.trace, e.author = some t → e.key? ≠ some (.schedule id)

theorem Claimed.grows {id : String} (h : Claimed t id w) (hg : Grows t w w') :
    Claimed t id w' :=
  ⟨hg.later.mem h.drew, fun e he hown => h.unused e ((hg.mem_own hown).mp he) hown⟩

theorem Claimed.answered {id : String} (h : Claimed t id w) {x : Ext} (a : Answer sys x) :
    Claimed t id (w.answered t a) := by
  refine ⟨List.mem_append_right _ h.drew, fun e he hown => ?_⟩
  rcases List.mem_append.mp he with hnew | hold
  · obtain ⟨n, -, rfl⟩ := List.mem_map.mp hnew
    exact nofun
  · exact h.unused e hold hown

theorem works_claiming {id : String} {x : Ext} (hx : Plain x) (h : Claimed t id w)
    {k : x.Res → Task α} (hk : ∀ r w', Claimed t id w' → Works o t (k r) Q w') :
    Works o t (.call (.ext x) k) Q w := by
  refine Law.Complies.ask fun w' c a hg hi ha => ?_
  obtain ⟨hnotes, hforks, hglob⟩ := answer_plain hx ha
  exact ⟨hforks, hnotes.legal hi.1.legal, drawn_answered hi.2 hnotes rfl hglob,
    hk a.res _ ((h.grows hg).answered a)⟩

theorem works_claimingNow {id : String} (h : Claimed t id w) :
    Works o t now (fun _ w' => Claimed t id w') w :=
  works_claiming (x := .now) trivial h fun _ _ h' => Law.Complies.ret fun _ hg _ => h'.grows hg

theorem works_claimingOr {id : String} {x : Ext} (hx : Plain x) {heq : x.Res = Except Err α}
    (h : Claimed t id w) : Works o t (askOr (S := sys) x heq) (fun _ w' => Claimed t id w') w := by
  refine works_claiming hx h fun r w' h' => ?_
  show Works o t (Prog.ofExcept (heq ▸ r) : Task α) _ _
  rcases (heq ▸ r : Except Err α) with e | a
  · exact Law.Complies.fail
  · exact Law.Complies.ret fun _ hg _ => h'.grows hg

/-- What is drawn was never drawn, so nothing is stored under it. -/
theorem works_randomUUID : Works o t (ask (S := sys) .randomUUID) (fun id w' => Claimed t id w')
    w := by
  refine Law.Complies.ask fun w1 c a hg hi ha => ?_
  obtain ⟨r, hr, rfl⟩ := Option.map_eq_some_iff.mp ha
  simp only [reply] at hr
  split at hr
  · cases hr
  next hnew =>
  cases hr
  have hfree (u : Option Tid) : .note u (.drew c.uuid) ∉ w1.trace := fun hmem =>
    hnew (hi.2 u _ hmem)
  refine ⟨rfl, ⟨hi.1.legal, .drew hfree⟩, fun u id hmem => ?_, Law.Complies.ret fun w2 hg2 _ =>
    Claimed.grows ⟨List.mem_cons_self, fun e he _ hkey => ?_⟩ hg2⟩
  · rcases List.mem_cons.mp hmem with heq | hold
    · cases heq
      exact List.mem_cons_self
    · exact List.mem_cons_of_mem _ (hi.2 u id hold)
  · rcases List.mem_cons.mp he with rfl | hold
    · cases hkey
    · obtain ⟨u, s, -, hdrew⟩ := Legal.drawn hi.1.legal hold hkey
      exact hfree _ hdrew

theorem Claimed.vacant {id : String} (h : Claimed t id w) (hi : Known o w) :
    ∀ e ∈ w.trace, e.key? ≠ some (.schedule id) := by
  intro e he hkey
  obtain ⟨u, s, hcreate, hdrew⟩ := Legal.drawn hi.1.legal he hkey
  obtain rfl := Legal.drew_unique hi.1.legal h.drew hdrew
  exact h.unused _ hcreate rfl rfl

theorem works_store {id : String} {s : ScheduleState} (h : Claimed t id w) (hs : Fresh id s) :
    Works o t (await (S := sys) (.create (.schedule id) (.valid s))) (fun _ _ => True) w :=
  Law.Complies.create fun _ hg hi _ =>
    ⟨.created (h.grows hg).drew ((h.grows hg).vacant hi) hs, hi.2.push rfl, fun _ _ _ => trivial⟩

theorem works_create {input : NewSchedule} {requestId : String} {principal : GatewayPrincipal}
    (hfires : Fires w.calls t) (hnum : w.Numbered) :
    Works o t (create o input requestId principal) (fun _ _ => True) w := by
  refine Law.Complies.seq works_now fun instant w1 hl1 _ _ => ?_
  refine Law.Complies.seq works_randomUUID fun id w2 hl2 _ hclaimed => ?_
  refine Law.Complies.seq (works_claimingNow hclaimed) fun after w3 hl3 _ hclaimed3 => ?_
  show Works o t (Prog.ofExcept (nextScheduleTime o input.cadence after) >>= _) _ _
  rcases nextScheduleTime o input.cadence after with e | next
  · exact Law.Complies.fail
  show Works o t (bind _ principal >>= _) _ _
  refine Law.Complies.seq (works_claimingOr (x := .bind _ _) trivial hclaimed3)
    fun binding w4 hl4 _ hclaimed4 => ?_
  refine Law.Complies.seq (works_store hclaimed4 ⟨rfl, rfl, rfl, ?_⟩) fun _ w5 hl5 hi5 _ => ?_
  · simp [Timed]
  split
  · have hl := ((hl1.trans hl2).trans (hl3.trans hl4)).trans hl5
    exact works_fire (hfires.mono (later_le hnum hl)) hi5.1.numbered (by simp)
  · exact Law.Complies.ret fun _ _ _ => trivial

theorem works_delete {id : String} {principal : GatewayPrincipal} :
    Works o t (delete id principal) (fun _ _ => True) w := by
  refine Law.Complies.seq works_readAllowed fun ⟨n, s⟩ w1 _ _ hs => ?_
  show Works o t (ite _ _ _) _ _
  split
  · exact Law.Complies.fail
  next hnone =>
  refine Law.Complies.seq (Q := fun _ w' => .delete (some t) (.schedule id) ∈ w'.trace)
    (Law.Complies.delete fun w2 old hg hi hold => ?_) fun _ w2 _ _ hdeleted => ?_
  · have hsame := (hg.later.stored hs.1).eq_of_lookup hold
    subst hsame
    exact ⟨.deleted hold (not_not.mp hnone), hi.2.push rfl,
      fun w3 hg3 _ => hg3.later.mem List.mem_cons_self⟩
  · refine Law.Complies.seq works_runs fun rows w3 hl3 _ ⟨hrows, hown⟩ => ?_
    refine works_deleteRuns hrows fun row hrow => .inr ?_
    rw [hown row hrow, hs.2.id]
    exact hl3.mem hdeleted

theorem works_pause {id : String} {principal : GatewayPrincipal} :
    Works o t (pause id principal) (fun _ _ => True) w := by
  refine Law.Complies.seq works_readAllowed fun ⟨n, s⟩ w1 _ _ hs => ?_
  refine Law.Complies.seq works_now fun pausedAt w2 hl2 _ _ => ?_
  refine Law.Complies.seq works_now fun updatedAt w3 hl3 _ _ => ?_
  refine works_save ((hs.later hl2).later hl3)
    ⟨rfl, rfl, rfl, rfl, rfl, Kept.refl, fun _ => ?_, .never⟩
  simp [Timed]

theorem works_resume {id : String} {principal : GatewayPrincipal} :
    Works o t (resume o id principal) (fun _ _ => True) w := by
  refine Law.Complies.seq works_readAllowed fun ⟨n, s⟩ w1 _ _ hs => ?_
  refine Law.Complies.seq works_now fun after w2 hl2 _ hread => ?_
  refine Law.Complies.seq works_ofExcept fun next w3 hl3 _ hnext => ?_
  refine Law.Complies.seq works_now fun updatedAt w4 hl4 _ _ => ?_
  refine works_save (((hs.later hl2).later hl3).later hl4)
    ⟨rfl, rfl, rfl, rfl, rfl, Kept.refl, fun _ => ?_,
      .read (((hread n hs.lt).later hl3).later hl4) hnext⟩
  simp [Timed]

theorem works_renew {n : Nat} {schedule : StoredSchedule} (hn : n < w.trace.length) :
    Works o t (nextTime o schedule) (Renewed o t n schedule) w := by
  refine Safe.mono works_nextTime (fun next w' ⟨hactive, hother⟩ => ?_) fun _ _ _ => trivial
  by_cases hstatus : schedule.status = .active
  · obtain ⟨x, time, hx, hnext, rfl⟩ := hactive hstatus
    exact Renewed.read hstatus (hx n hn) hnext
  · rw [hother hstatus]
    exact Renewed.kept

theorem works_update {id : String} {changes : Changes} {principal : GatewayPrincipal} :
    Works o t (update o id changes principal) (fun _ _ => True) w := by
  refine Law.Complies.seq works_readAllowed fun ⟨n, s⟩ w1 _ _ hs => ?_
  refine Law.Complies.seq works_ofExcept fun target w2 hl2 _ _ => ?_
  refine Law.Complies.seq (works_askOr (x := .bind _ _) trivial) fun binding w3 hl3 _ _ => ?_
  show Works o t (ite _ _ _) _ _
  split
  · exact Law.Complies.fail
  refine Law.Complies.seq works_now fun updatedAt w4 hl4 _ _ => ?_
  have hs4 := ((hs.later hl2).later hl3).later hl4
  split
  · refine Law.Complies.seq (works_renew hs4.lt) fun nextRunAt w5 hl5 _ hnext => ?_
    exact works_save (hs4.later hl5) ⟨rfl, rfl, rfl, rfl, rfl, Kept.refl, hnext.2, hnext.1⟩
  · exact works_save hs4 ⟨rfl, rfl, rfl, rfl, rfl, Kept.refl, fun h => h, .kept⟩

theorem works_setConcurrency {id : String} {concurrency : Concurrency}
    {principal : GatewayPrincipal} :
    Works o t (setConcurrency id concurrency principal) (fun _ _ => True) w := by
  refine Law.Complies.seq works_readAllowed fun ⟨n, s⟩ w1 _ _ hs => ?_
  exact works_save hs ⟨rfl, rfl, rfl, rfl, rfl, Kept.refl, fun h => h, .kept⟩

theorem works_handle {message : Message} {principal : GatewayPrincipal} {height : Nat}
    (hcall : w.calls t = some ⟨.handle message principal, height⟩) (hnum : w.Numbered) :
    Works o t (handle o message principal) (fun _ _ => True) w := by
  refine Law.Complies.seq (works_quiet trivial) fun stopping w1 hl1 _ _ => ?_
  split
  · exact Law.Complies.fail
  refine Law.Complies.seq works_initializeOnce fun _ w2 hl2 hi2 _ => ?_
  have hl := hl1.trans hl2
  have hcall2 := later_le hnum hl _ _ hcall
  rcases message with ⟨input, requestId⟩ | id | id | id | ⟨id, changes⟩ | ⟨id, requestId⟩
  · exact works_create ⟨height, .inr (.inl ⟨input, requestId, principal, hcall2⟩)⟩ hi2.1.numbered
  · exact works_delete
  · exact works_pause
  · exact works_resume
  · exact works_update
  · refine Law.Complies.seq works_readAllowed fun ⟨n, s⟩ w3 hl3 hi3 _ => ?_
    refine Law.Complies.seq works_now fun instant w4 hl4 hi4 _ => ?_
    have hcall4 := later_le hi2.1.numbered (hl3.trans hl4) _ _ hcall2
    exact works_fire ⟨height, .inr (.inr ⟨id, requestId, principal, hcall4⟩)⟩ hi4.1.numbered nofun

/-! ### Every run -/

theorem works_program {c : Call} (hi : Known o w) (hpre : Owed t c w)
    (hcall : w.calls t = some ⟨c, w.trace.length⟩) :
    Works o t (program o t c) (fun _ _ => True) w := by
  have hnum := hi.1.numbered
  rcases c with _ | _ | ⟨message, principal⟩ | ⟨id, concurrency, principal⟩ | ⟨runId, outcome⟩ | _ |
    ⟨id, runId, persisted, run⟩ | state
  · exact works_initializeOnce
  · exact works_tick ⟨_, .inl hcall⟩ hnum
  · exact works_handle hcall hnum
  · exact works_setConcurrency
  · exact works_completeRun ⟨_, .inl ⟨outcome, hcall⟩⟩ hnum
  · exact works_quiet trivial
  · obtain ⟨hstored, hphase⟩ := hpre
    obtain ⟨v, heq, hv⟩ := Legal.recorded hi.1.legal hstored
    cases heq
    exact Law.Complies.andFinally (works_settle ⟨hstored, hv⟩ hphase)
      fun _ _ => works_quiet trivial
  · exact Law.Complies.andFinally (works_observation ⟨_, .inr ⟨state, hcall, rfl⟩⟩ hnum)
      fun _ _ => works_quiet trivial

theorem sound (o : Options) : ((law o).within (machine o) Drawn Owed).Sound := by
  refine Law.within_sound trivial nofun (fun {w p c} hi hentry => ⟨hi.2, ?_⟩)
    (fun p hknown => hknown) nofun fun hi hpre hcall _ _ => works_program hi hpre hcall
  rcases c with _ | _ | _ | _ | _ | _ | ⟨id, runId, persisted, run⟩ | state
  · trivial
  · trivial
  · trivial
  · trivial
  · trivial
  · trivial
  · cases hentry
  · cases hentry

theorem reachable_legal {c : (machine o).Config} (h : (machine o).Reachable c) :
    Legal o c.world.calls c.world.trace :=
  Law.within_reachable (sound o) h

end Works

end PaseoGateway.ScheduleService

/-
  PaseoGateway/RefQueueSafety.lean
  ================================
  **No permit is lost or given twice.**

  A handed-over permit stays counted in `active` while its call is between the queue and
  the run, so the counter is the number of calls in these two phases (`Inv.active`), and a
  call is among the waiters exactly while its timer is set (`Inv.waiters`, `Inv.timers`).
  Each kind of step preserves the invariant; `queue_sound` reads the claims off it.
-/
import PaseoGateway.RefQueue

namespace PaseoGateway.RefQueue

open StepRuns

/-! ### Lists of phases -/

section Calls

variable {calls : List Phase} {call i : Nat} {phase new : Phase}

theorem getElem?_set_call (h : calls[call]? = some phase) :
    (calls.set call new)[i]? = if i = call then some new else calls[i]? := by
  obtain ⟨hlt, -⟩ := List.getElem?_eq_some_iff.mp h
  by_cases hi : i = call
  · simp [hi, hlt]
  · simp [hi, List.getElem?_set_ne (Ne.symm hi)]

theorem getElem?_append_call :
    (calls ++ [new])[i]? = if i = calls.length then some new else calls[i]? := by
  rcases Nat.lt_trichotomy i calls.length with hi | hi | hi
  · simp [List.getElem?_append_left hi, Nat.ne_of_lt hi]
  · simp [hi]
  · have hnone : calls[i]? = none := by simp [Nat.le_of_lt hi]
    have hlen : (calls ++ [new]).length ≤ i := by simpa using Nat.succ_le_of_lt hi
    rw [List.getElem?_eq_none hlen, if_neg (Nat.ne_of_gt hi), hnone]

/-- One call moves from one phase to another. -/
theorem count_set_call (h : calls[call]? = some phase) (new p : Phase) :
    (calls.set call new).count p + (if phase = p then 1 else 0) =
      calls.count p + (if new = p then 1 else 0) := by
  obtain ⟨hlt, hget⟩ := List.getElem?_eq_some_iff.mp h
  rw [List.count_set hlt, hget]
  have hpos : phase = p → 1 ≤ calls.count p := by
    rintro rfl
    exact List.one_le_count_iff.mpr (hget ▸ List.getElem_mem hlt)
  simp only [beq_iff_eq]
  split <;> split <;> simp_all

/-- The same for the four phases that are counted. -/
theorem counts_set_call (h : calls[call]? = some phase) (new : Phase) :
    (calls.set call new).count .running + (if phase = .running then 1 else 0) =
        calls.count .running + (if new = .running then 1 else 0) ∧
      (calls.set call new).count .accepted + (if phase = .accepted then 1 else 0) =
        calls.count .accepted + (if new = .accepted then 1 else 0) ∧
      (calls.set call new).count .waiting + (if phase = .waiting then 1 else 0) =
        calls.count .waiting + (if new = .waiting then 1 else 0) ∧
      (calls.set call new).count .expired + (if phase = .expired then 1 else 0) =
        calls.count .expired + (if new = .expired then 1 else 0) :=
  ⟨count_set_call h new _, count_set_call h new _, count_set_call h new _, count_set_call h new _⟩

/-- A call that is turned away, or that starts at once, waits nowhere. -/
theorem waiting_append_call (hnew : new ≠ .waiting) :
    (calls ++ [new])[i]? = some .waiting ↔ calls[i]? = some .waiting := by
  rw [getElem?_append_call]
  split
  · next hi => simp [hi, hnew]
  · rfl

theorem waiting_set_call (h : calls[call]? = some phase) (hnew : new ≠ .waiting) :
    (calls.set call new)[i]? = some .waiting ↔ i ≠ call ∧ calls[i]? = some .waiting := by
  rw [getElem?_set_call h]
  split
  · next hi => simp [hi, hnew]
  · next hi => simp [hi]

theorem waiting_set_other (h : calls[call]? = some phase) (hphase : phase ≠ .waiting)
    (hnew : new ≠ .waiting) :
    (calls.set call new)[i]? = some .waiting ↔ calls[i]? = some .waiting := by
  rw [waiting_set_call h hnew]
  refine and_iff_right_of_imp ?_
  rintro hi rfl
  exact hphase (Option.some.inj (h.symm.trans hi))

end Calls

theorem splice_eq_erase {waiters : List Nat} {call : Nat} (h : call ∈ waiters) :
    splice waiters call = waiters.erase call := by
  rw [splice, List.erase_eq_eraseIdx]
  rcases hidx : waiters.idxOf? call with _ | index
  · exact absurd h (List.idxOf?_eq_none_iff.mp hidx)
  · rfl

/-! ### The invariant -/

structure Inv (s : State) : Prop where
  /-- permits are held by running calls and by those that were handed one -/
  active : s.inspector.active = s.calls.count .running + s.calls.count .accepted
  /-- the count of the queue lags behind: it goes down when the call resumes -/
  waiting : s.inspector.waiting =
    s.calls.count .waiting + s.calls.count .accepted + s.calls.count .expired
  limit : s.inspector.active ≤ MAX_ACTIVE
  capacity : s.inspector.waiting ≤ MAX_WAITING
  waiters : ∀ i, i ∈ s.inspector.waiters ↔ s.calls[i]? = some .waiting
  timers : ∀ i, i ∈ s.timers ↔ s.calls[i]? = some .waiting
  timersOnce : s.timers.Nodup
  order : (s.served ++ s.inspector.waiters).Pairwise (· < ·)
  served : ∀ i ∈ s.served, s.calls[i]? = some .accepted ∨ s.calls[i]? = some .running ∨
    s.calls[i]? = some .finished
  /-- nobody waits while a permit is free -/
  full : s.inspector.waiters ≠ [] → s.inspector.active = MAX_ACTIVE

theorem Inv.initial : Inv initial := by
  constructor <;> simp [RefQueue.initial, MAX_ACTIVE, MAX_WAITING]

section Invariant

variable {s s' : State} {call : Nat}

theorem Inv.waitersOnce (h : Inv s) : s.inspector.waiters.Nodup :=
  ((List.pairwise_append.mp h.order).2.1).imp Nat.ne_of_lt

theorem Inv.query (h : Inv s) (input : ProjectRefQuery) : Inv (query s input) := by
  have hserved : ∀ new : Phase, ∀ i ∈ s.served, (s.calls ++ [new])[i]? = s.calls[i]? := by
    intro new i hi
    rw [getElem?_append_call, if_neg]
    rintro rfl
    simpa using h.served _ hi
  have hrefused : ∀ error, Inv { s with calls := s.calls ++ [.refused error] } := fun error =>
    { h with
      active := by simp [h.active]
      waiting := by simp [h.waiting]
      waiters := fun i => (h.waiters i).trans (waiting_append_call (by simp)).symm
      timers := fun i => (h.timers i).trans (waiting_append_call (by simp)).symm
      served := fun i hi => by rw [hserved _ i hi]; exact h.served i hi }
  unfold RefQueue.query
  split
  · exact hrefused _
  split
  · next hfull =>
    split
    · exact hrefused _
    · next hroom =>
      -- the call joins the queue at its end, and its position is above all others
      have hnew : ∀ {l : List Nat}, (∀ i, i ∈ l ↔ s.calls[i]? = some .waiting) → ∀ i,
          i ∈ l ++ [s.calls.length] ↔ (s.calls ++ [.waiting])[i]? = some .waiting := by
        intro l hl i
        rw [getElem?_append_call, List.mem_append, List.mem_singleton, hl]
        split
        · next hi => simp [hi]
        · next hi => simp [hi]
      have hlast : s.calls.length ∉ s.timers := by simp [h.timers]
      have hbelow : ∀ i ∈ s.served ++ s.inspector.waiters, i < s.calls.length := by
        intro i hi
        rcases List.mem_append.mp hi with hi | hi
        · rcases h.served i hi with hp | hp | hp <;> exact (List.getElem?_eq_some_iff.mp hp).1
        · exact (List.getElem?_eq_some_iff.mp ((h.waiters i).mp hi)).1
      exact
        { active := by simp [h.active]
          waiting := by simp [h.waiting]; omega
          limit := h.limit
          capacity := by simp only at hroom ⊢; omega
          waiters := hnew h.waiters
          timers := hnew h.timers
          timersOnce := List.nodup_append.mpr ⟨h.timersOnce, by simp, by
            rintro i hi j hj rfl
            exact hlast (List.mem_singleton.mp hj ▸ hi)⟩
          order := by
            rw [← List.append_assoc]
            exact List.pairwise_append.mpr ⟨h.order, by simp, by simpa using hbelow⟩
          served := fun i hi => by rw [hserved _ i hi]; exact h.served i hi
          full := fun _ => le_antisymm h.limit hfull }
  · next hfree =>
    have hempty : s.inspector.waiters = [] := by
      by_contra hne
      exact hfree (ge_of_eq (h.full hne))
    exact
      { active := by simp [h.active]; omega
        waiting := by simp [h.waiting]
        limit := by simp only [MAX_ACTIVE] at hfree ⊢; omega
        capacity := h.capacity
        waiters := fun i => (h.waiters i).trans (waiting_append_call (by simp)).symm
        timers := fun i => (h.timers i).trans (waiting_append_call (by simp)).symm
        timersOnce := h.timersOnce
        order := h.order
        served := fun i hi => by rw [hserved _ i hi]; exact h.served i hi
        full := fun hne => absurd hempty hne }

/-- A call leaves the queue, by its timer or by a permit. -/
theorem mem_erase_call (hcall : s.calls[call]? = some .waiting) {new : Phase}
    (hnew : new ≠ .waiting) {l : List Nat} (hl : ∀ i, i ∈ l ↔ s.calls[i]? = some .waiting)
    (honce : l.Nodup) (i : Nat) :
    i ∈ l.erase call ↔ (s.calls.set call new)[i]? = some .waiting := by
  rw [honce.mem_erase_iff, waiting_set_call hcall hnew, hl]

theorem Inv.timeout (h : Inv s) (hstep : timeout s call = some s') : Inv s' := by
  unfold RefQueue.timeout at hstep
  split at hstep
  · next htimer =>
    cases hstep
    have hcall := (h.timers call).mp htimer
    have hactive := h.active
    have hwaiting := h.waiting
    obtain ⟨hrunning, haccepted, hstill, hexpired⟩ := counts_set_call hcall .expired
    simp only [reduceCtorEq, if_true, if_false] at hrunning haccepted hstill hexpired
    rw [splice_eq_erase ((h.waiters call).mpr hcall), settlePromise, if_pos hcall]
    exact
      { active := by simp only; omega
        waiting := by simp only; omega
        limit := h.limit
        capacity := h.capacity
        waiters := mem_erase_call hcall (by simp) h.waiters h.waitersOnce
        timers := mem_erase_call hcall (by simp) h.timers h.timersOnce
        timersOnce := h.timersOnce.erase call
        order := h.order.sublist (List.Sublist.append_left List.erase_sublist _)
        served := by
          intro i hi
          rw [getElem?_set_call hcall, if_neg]
          · exact h.served i hi
          · rintro rfl
            simpa [hcall] using h.served _ hi
        full := fun hne => h.full fun hnil => hne (by simp [hnil]) }
  · cases hstep

theorem Inv.resume (h : Inv s) (hstep : resume s call = some s') : Inv s' := by
  have hactive := h.active
  have hwaiting := h.waiting
  have hcapacity := h.capacity
  simp only [RefQueue.resume] at hstep
  split at hstep
  · next hcall =>
    cases hstep
    obtain ⟨hrunning, haccepted, hstill, hexpired⟩ := counts_set_call hcall .running
    simp only [reduceCtorEq, if_true, if_false] at hrunning haccepted hstill hexpired
    exact
      { active := by simp only; omega
        waiting := by simp only; omega
        limit := h.limit
        capacity := by simp only; omega
        waiters := fun i => (h.waiters i).trans (waiting_set_other hcall (by simp) (by simp)).symm
        timers := fun i => (h.timers i).trans (waiting_set_other hcall (by simp) (by simp)).symm
        timersOnce := h.timersOnce
        order := h.order
        served := by
          intro i hi
          rw [getElem?_set_call hcall]
          split
          · exact .inr (.inl rfl)
          · exact h.served i hi
        full := h.full }
  split at hstep
  · next hcall =>
    cases hstep
    obtain ⟨hrunning, haccepted, hstill, hexpired⟩ := counts_set_call hcall (.timedOut busy)
    simp only [reduceCtorEq, if_true, if_false] at hrunning haccepted hstill hexpired
    exact
      { active := by simp only; omega
        waiting := by simp only; omega
        limit := h.limit
        capacity := by simp only; omega
        waiters := fun i => (h.waiters i).trans (waiting_set_other hcall (by simp) (by simp)).symm
        timers := fun i => (h.timers i).trans (waiting_set_other hcall (by simp) (by simp)).symm
        timersOnce := h.timersOnce
        order := h.order
        served := by
          intro i hi
          rw [getElem?_set_call hcall, if_neg]
          · exact h.served i hi
          · rintro rfl
            simpa [hcall] using h.served _ hi
        full := h.full }
  · cases hstep

theorem Inv.settle (h : Inv s) (hstep : settle s call = some s') : Inv s' := by
  have hactive := h.active
  have hwaiting := h.waiting
  have hlimit := h.limit
  unfold RefQueue.settle at hstep
  split at hstep
  · next hcall =>
    obtain ⟨hrunning, haccepted, hstill, hexpired⟩ := counts_set_call hcall .finished
    simp only [reduceCtorEq, if_true, if_false] at hrunning haccepted hstill hexpired
    have hserved : ∀ i ∈ s.served, (s.calls.set call .finished)[i]? = some .accepted ∨
        (s.calls.set call .finished)[i]? = some .running ∨
        (s.calls.set call .finished)[i]? = some .finished := by
      intro i hi
      rw [getElem?_set_call hcall]
      split
      · exact .inr (.inr rfl)
      · exact h.served i hi
    have hsame : ∀ i : Nat, (s.calls.set call .finished)[i]? = some .waiting ↔
        s.calls[i]? = some .waiting := fun i => waiting_set_other hcall (by simp) (by simp)
    dsimp only at hstep
    split at hstep
    · next next rest hwaiters =>
      -- the permit goes to the first waiter and stays counted
      cases hstep
      have hnext : (s.calls.set call .finished)[next]? = some .waiting :=
        (hsame next).mpr ((h.waiters next).mp (by simp [hwaiters]))
      obtain ⟨hrunning', haccepted', hstill', hexpired'⟩ := counts_set_call hnext .accepted
      simp only [reduceCtorEq, if_true, if_false] at hrunning' haccepted' hstill' hexpired'
      have hrest : rest = s.inspector.waiters.erase next := by simp [hwaiters]
      rw [accept, settlePromise, if_pos hnext]
      exact
        { active := by simp only; omega
          waiting := by simp only; omega
          limit := h.limit
          capacity := h.capacity
          waiters := fun i => hrest ▸ mem_erase_call hnext (by simp)
            (fun i => (h.waiters i).trans (hsame i).symm) h.waitersOnce i
          timers := mem_erase_call hnext (by simp)
            (fun i => (h.timers i).trans (hsame i).symm) h.timersOnce
          timersOnce := h.timersOnce.erase next
          order := by
            have horder := h.order
            rw [hwaiters] at horder
            simpa using horder
          served := by
            intro i hi
            simp only
            rw [getElem?_set_call hnext]
            split
            · exact .inl rfl
            · next hne => exact hserved i (by simpa [hne] using hi)
          full := fun _ => h.full (by simp [hwaiters]) }
    · next hwaiters =>
      cases hstep
      exact
        { active := by simp only; omega
          waiting := by simp only; omega
          limit := by simp only; omega
          capacity := h.capacity
          waiters := fun i => (h.waiters i).trans (hsame i).symm
          timers := fun i => (h.timers i).trans (hsame i).symm
          timersOnce := h.timersOnce
          order := h.order
          served := hserved
          full := fun hne => absurd hwaiters hne }
  · cases hstep

theorem Inv.step {e : Event} (hstep : step s e = some s') (h : Inv s) : Inv s' := by
  rcases e with input | call | call | call
  · cases hstep
    exact h.query input
  · exact h.timeout hstep
  · exact h.resume hstep
  · exact h.settle hstep

theorem inv_of_run {events : List Event} (hrun : run step initial events = some s) : Inv s :=
  run_invariant (fun hstep h => Inv.step hstep h) hrun Inv.initial

/-! ### Waiters whose time is up -/

def TimedOut (s : State) (call : Nat) : Prop :=
  s.calls[call]? = some .expired ∨ ∃ error, s.calls[call]? = some (.timedOut error)

theorem timedOut_set {phase new : Phase} {i : Nat} (hcall : s.calls[call]? = some phase)
    (hphase : phase ≠ .expired ∧ ∀ error, phase ≠ .timedOut error) (h : TimedOut s i) :
    (s.calls.set call new)[i]? = s.calls[i]? := by
  rw [getElem?_set_call hcall, if_neg]
  rintro rfl
  rcases h with h | ⟨error, h⟩
  · exact hphase.1 (Option.some.inj (hcall.symm.trans h))
  · exact hphase.2 error (Option.some.inj (hcall.symm.trans h))

theorem timedOut_settlePromise {new : Phase} {i : Nat} (h : TimedOut s i) :
    (settlePromise s.calls call new)[i]? = s.calls[i]? := by
  unfold settlePromise
  split
  · next hcall => exact timedOut_set hcall (by simp) h
  · rfl

theorem timedOut_of_eq {i : Nat} (hsame : s'.calls[i]? = s.calls[i]?) (h : TimedOut s i) :
    TimedOut s' i := by
  unfold TimedOut
  rw [hsame]
  exact h

theorem timedOut_query {i : Nat} (input : ProjectRefQuery) (h : TimedOut s i) :
    TimedOut (query s input) i := by
  have happend : ∀ new : Phase, (s.calls ++ [new])[i]? = s.calls[i]? := by
    intro new
    rw [getElem?_append_call, if_neg]
    rintro rfl
    simp [TimedOut] at h
  unfold query
  split
  · exact timedOut_of_eq (happend _) h
  split
  · split
    · exact timedOut_of_eq (happend _) h
    · exact timedOut_of_eq (happend _) h
  · exact timedOut_of_eq (happend _) h

theorem timedOut_step {e : Event} {i : Nat} (hstep : step s e = some s') (h : TimedOut s i) :
    TimedOut s' i := by
  rcases e with input | call | call | call
  · cases hstep
    exact timedOut_query input h
  · simp only [step, timeout] at hstep
    split at hstep
    · cases hstep
      exact timedOut_of_eq (timedOut_settlePromise h) h
    · cases hstep
  · simp only [step, resume] at hstep
    split at hstep
    · next hcall =>
      cases hstep
      exact timedOut_of_eq (timedOut_set hcall (by simp) h) h
    split at hstep
    · next hcall =>
      cases hstep
      unfold TimedOut
      rw [getElem?_set_call hcall]
      split
      · exact .inr ⟨busy, rfl⟩
      · exact h
    · cases hstep
  · simp only [step, settle] at hstep
    split at hstep
    · next hcall =>
      have hset := @timedOut_set _ _ _ .finished _ hcall (by simp) h
      split at hstep
      · cases hstep
        have h' : TimedOut { s with calls := s.calls.set call .finished } i := timedOut_of_eq hset h
        exact timedOut_of_eq (timedOut_settlePromise h') h'
      · cases hstep
        exact timedOut_of_eq hset h
    · cases hstep

theorem Inv.removed (h : Inv s) {i : Nat} (ht : TimedOut s i) :
    i ∉ s.inspector.waiters ∧ i ∉ s.served := by
  constructor
  · intro hi
    have hwaiting := (h.waiters i).mp hi
    rcases ht with ht | ⟨error, ht⟩ <;> simp [hwaiting] at ht
  · intro hi
    rcases h.served i hi with hp | hp | hp <;> rcases ht with ht | ⟨error, ht⟩ <;> simp [hp] at ht

theorem Inv.quiet (h : Inv s) (hsettled : ∀ phase ∈ s.calls, phase.Settled) :
    s.inspector.active = 0 ∧ s.inspector.waiting = 0 := by
  have hnone : ∀ phase : Phase, ¬ phase.Settled → s.calls.count phase = 0 := fun phase hphase =>
    List.count_eq_zero.mpr fun hmem => hphase (hsettled phase hmem)
  rw [h.active, h.waiting, hnone .running (by simp [Phase.Settled]),
    hnone .accepted (by simp [Phase.Settled]), hnone .waiting (by simp [Phase.Settled]),
    hnone .expired (by simp [Phase.Settled])]
  exact ⟨rfl, rfl⟩

end Invariant

/-! ### The queue -/

/-- What holds of the inspector between any two stretches of code. -/
structure Sound (s : State) : Prop where
  permits : s.inspector.active = s.calls.count .running + s.calls.count .accepted
  limit : s.inspector.active ≤ MAX_ACTIVE
  removed : ∀ i, TimedOut s i → i ∉ s.inspector.waiters ∧ i ∉ s.served
  order : (s.served ++ s.inspector.waiters).Pairwise (· < ·)
  awake : s.inspector.active < MAX_ACTIVE → ∀ i : Nat, s.calls[i]? ≠ some .waiting
  capacity : s.inspector.waiting ≤ MAX_WAITING
  quiet : (∀ phase ∈ s.calls, phase.Settled) →
    s.inspector.active = 0 ∧ s.inspector.waiting = 0

/-- Every schedule leaves the inspector sound, and who has timed out is never served. -/
theorem queue_sound {events : List Event} {s : State}
    (hrun : run step initial events = some s) :
    Sound s ∧ ∀ later s', run step s later = some s' →
      ∀ i, TimedOut s i → TimedOut s' i ∧ i ∉ s'.served := by
  have h : Inv s := inv_of_run hrun
  constructor
  · exact
      { permits := h.active
        limit := h.limit
        removed := fun i => h.removed
        order := h.order
        awake := fun hfree i hi =>
          absurd (h.full (List.ne_nil_of_mem ((h.waiters i).mpr hi))) (Int.ne_of_lt hfree)
        capacity := h.capacity
        quiet := h.quiet }
  · intro later s' hlater i ht
    have ht' : TimedOut s' i := run_invariant (fun hstep => timedOut_step hstep) hlater ht
    have h' : Inv s' := run_invariant (fun hstep h => Inv.step hstep h) hlater h
    exact ⟨ht', (h'.removed ht').2⟩

/-- Two runs, two calls in the queue: one times out while the other is handed a permit. -/
def sampleEvents : List Event :=
  let input := ProjectRefQuery.validate "main"
  [.query input, .query input, .query input, .query input, .timeout 2, .settle 0, .resume 3,
    .resume 2]

theorem queue_sound_sample : ∃ s, run step initial sampleEvents = some s ∧ s.served = [3] ∧
    TimedOut s 2 ∧ Sound s := by
  have hrun : run step initial sampleEvents = some
      ⟨⟨2, 0, []⟩, [], [.finished, .running, .timedOut busy, .running], [3]⟩ := by
    rfl
  exact ⟨_, hrun, rfl, .inr ⟨busy, rfl⟩, (queue_sound hrun).1⟩

end PaseoGateway.RefQueue

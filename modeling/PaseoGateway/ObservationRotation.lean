/-
  PaseoGateway/ObservationRotation.lean
  =====================================
  **Which running runs a tick observes.**

  Mirrors `observe`, `track` and the observation loop of `tickOnce` in
  `src/src/gateway/schedules.ts`.  The loop awaits nothing, so a tick is one step; it is
  given the rows that were read for it.  When an observation settles is left to the
  schedule of steps.
-/
import PaseoGateway.StepRuns

namespace PaseoGateway.ObservationRotation

inductive RunPhase where
  | dispatching
  | running
  | finished
  | unknown
deriving DecidableEq, Repr

/-- A row of kind `schedule-run`, as far as the loop reads it. -/
structure RunState where
  id : String
  phase : RunPhase
deriving DecidableEq, Repr

/-- The scheduler: the options, the keys of the map `observations`, the cursor and the
    stop flag; then the observations that are in flight, whatever the map says, and all
    that were ever started. -/
structure State where
  observer : Bool
  maxInflightObservations : Nat
  observations : List String
  observationCursor : Nat
  stopping : Bool
  inflight : List String
  started : List String
deriving DecidableEq, Repr

def initial (observer : Bool) (maxInflightObservations : Nat) : State :=
  ⟨observer, maxInflightObservations, [], 0, false, [], []⟩

/-- `tasks.set(id, task)`, of the keys -/
def setKey (keys : List String) (id : String) : List String :=
  if id ∈ keys then keys else keys ++ [id]

def observe (s : State) (state : RunState) : State :=
  if !s.observer || s.stopping || s.observations.contains state.id ||
      s.observations.length ≥ s.maxInflightObservations then s
  else
    { s with
      observations := setKey s.observations state.id
      inflight := s.inflight ++ [state.id]
      started := s.started ++ [state.id] }

/-- One turn of the loop. -/
def visit (running : List RunState) (index : Nat) (s : State) : State :=
  let s := match running[index]? with
    | some state => observe s state
    | none => s
  { s with observationCursor := index + 1 }

/-- The loop from an offset on, with the number of offsets that are left. -/
def observeLoop (running : List RunState) (start : Nat) : Nat → Nat → State → State
  | 0, _, s => s
  | left + 1, offset, s =>
    if s.observations.length < s.maxInflightObservations then
      observeLoop running start left (offset + 1)
        (visit running ((start + offset) % running.length) s)
    else s

/-- `tickOnce` from its first read to the end of the loop. -/
def tick (s : State) (rows : List RunState) : State :=
  if s.stopping then s
  else
    let running := rows.filter (·.phase == .running)
    let start := s.observationCursor % max running.length 1
    observeLoop running start running.length 0 s

inductive Event where
  | tick (rows : List RunState)
  /-- the observation of a run settles, either way, and `track` forgets it -/
  | settle (id : String)
  | stop
deriving DecidableEq, Repr

def settle (s : State) (id : String) : Option State :=
  if id ∈ s.inflight then
    some { s with inflight := s.inflight.erase id, observations := s.observations.erase id }
  else none

def step (s : State) : Event → Option State
  | .tick rows => some (tick s rows)
  | .settle id => settle s id
  | .stop => some { s with stopping := true }

/-! ### At most `k` observations, each of another run -/

section Inflight

variable {k : Nat} {s s' : State}

structure Inv (k : Nat) (s : State) : Prop where
  size : s.maxInflightObservations = k
  keys : s.observations = s.inflight
  once : s.inflight.Nodup
  limit : s.inflight.length ≤ k

/-- With nothing in flight there is nothing to ask of the state. -/
theorem Inv.idle (hobservations : s.observations = []) (hinflight : s.inflight = []) :
    Inv s.maxInflightObservations s where
  size := rfl
  keys := hobservations.trans hinflight.symm
  once := by simp [hinflight]
  limit := by simp [hinflight]

/-- An observation starts for a run that has none, while there is room. -/
theorem observe_cases (s : State) (state : RunState) : observe s state = s ∨
    state.id ∉ s.observations ∧ s.observations.length < s.maxInflightObservations ∧
      observe s state =
        { s with
          observations := s.observations ++ [state.id]
          inflight := s.inflight ++ [state.id]
          started := s.started ++ [state.id] } := by
  unfold observe
  split
  · exact .inl rfl
  · next h =>
    simp only [Bool.or_eq_true, List.contains_eq_mem, decide_eq_true_eq, not_or, Nat.not_le, ge_iff_le] at h
    exact .inr ⟨h.1.2, h.2, by rw [setKey, if_neg h.1.2]⟩

theorem Inv.observe (h : Inv k s) (state : RunState) : Inv k (observe s state) := by
  rcases observe_cases s state with heq | ⟨hnew, hroom, heq⟩
  · rwa [heq]
  · rw [heq]
    rw [h.keys] at hnew hroom
    rw [h.size] at hroom
    exact
      { size := h.size
        keys := by simp [h.keys]
        once := List.nodup_append.mpr ⟨h.once, by simp, by
          rintro a ha b hb rfl
          exact hnew (List.mem_singleton.mp hb ▸ ha)⟩
        limit := by simpa using Nat.succ_le_of_lt hroom }

theorem Inv.visit (h : Inv k s) (running : List RunState) (index : Nat) :
    Inv k (visit running index s) := by
  unfold ObservationRotation.visit
  rcases running[index]? with _ | state
  · exact ⟨h.size, h.keys, h.once, h.limit⟩
  · have h' := h.observe state
    exact ⟨h'.size, h'.keys, h'.once, h'.limit⟩

theorem Inv.observeLoop (running : List RunState) (start left : Nat) :
    ∀ offset s, Inv k s → Inv k (observeLoop running start left offset s) := by
  induction left with
  | zero => exact fun _ _ h => h
  | succ left ih =>
    intro offset s h
    unfold ObservationRotation.observeLoop
    split
    · exact ih _ _ (h.visit running _)
    · exact h

theorem Inv.step {e : Event} (hstep : step s e = some s') (h : Inv k s) : Inv k s' := by
  rcases e with rows | id | _
  · cases hstep
    unfold tick
    split
    · exact h
    · exact Inv.observeLoop _ _ _ _ _ h
  · simp only [ObservationRotation.step, settle] at hstep
    split at hstep
    · cases hstep
      exact
        { size := h.size
          keys := by simp [h.keys]
          once := h.once.erase id
          limit := Nat.le_trans List.length_erase_le h.limit }
    · cases hstep
  · cases hstep
    exact ⟨h.size, h.keys, h.once, h.limit⟩

end Inflight

/-! ### What a tick covers -/

section Rotation

variable {s s' : State} {running : List RunState}

/-- The id of the run at a position of the rotation has an observation. -/
def ObservedAt (running : List RunState) (ids : List String) (position : Nat) : Prop :=
  ∀ state, running[position % running.length]? = some state → state.id ∈ ids

/-- What a stretch of the loop does that begins at a position of the rotation: it visits
    `m` positions and starts the observations `new`. -/
structure Covers (running : List RunState) (position m : Nat) (new : List String) (s s' : State) :
    Prop where
  observations : s'.observations = s.observations ++ new
  started : s'.started = s.started ++ new
  observer : s'.observer = s.observer
  stopping : s'.stopping = s.stopping
  limit : s'.maxInflightObservations = s.maxInflightObservations
  few : new.length ≤ m
  observed : ∀ o < m, ObservedAt running s'.observations (position + o)
  cursor : s'.observationCursor =
    if m = 0 then s.observationCursor else (position + (m - 1)) % running.length + 1

theorem Covers.trans {t : State} {position m m' : Nat} {new new' : List String}
    (h : Covers running position m new s t) (h' : Covers running (position + m) m' new' t s') :
    Covers running position (m + m') (new ++ new') s s' where
  observations := by rw [h'.observations, h.observations, List.append_assoc]
  started := by rw [h'.started, h.started, List.append_assoc]
  observer := h'.observer.trans h.observer
  stopping := h'.stopping.trans h.stopping
  limit := h'.limit.trans h.limit
  few := by
    rw [List.length_append]
    exact Nat.add_le_add h.few h'.few
  observed := by
    intro o ho state hstate
    by_cases hlt : o < m
    · rw [h'.observations]
      exact List.mem_append_left _ (h.observed o hlt state hstate)
    · refine h'.observed (o - m) (by omega) state ?_
      rwa [show position + m + (o - m) = position + o by omega]
  cursor := by
    rw [h'.cursor, h.cursor]
    by_cases hm' : m' = 0
    · simp [hm']
    · have hsum : position + m + (m' - 1) = position + (m + m' - 1) := by omega
      rw [if_neg hm', if_neg (by omega), hsum]

/-- With room, the run is observed after `observe`, whether it was before or not. -/
theorem observe_room (hobserver : s.observer = true) (hstopping : s.stopping = false)
    (hroom : s.observations.length < s.maxInflightObservations) (state : RunState) :
    ∃ new : List String, new.length ≤ 1 ∧ state.id ∈ s.observations ++ new ∧
      observe s state =
        { s with
          observations := s.observations ++ new
          inflight := s.inflight ++ new
          started := s.started ++ new } := by
  by_cases hin : state.id ∈ s.observations
  · refine ⟨[], by simp, by simpa using hin, ?_⟩
    simp [observe, hin]
  · refine ⟨[state.id], by simp, by simp, ?_⟩
    simp [observe, setKey, hobserver, hstopping, hin, Nat.not_le.mpr hroom]

theorem visit_covers (hobserver : s.observer = true) (hstopping : s.stopping = false)
    (hroom : s.observations.length < s.maxInflightObservations) (position : Nat) :
    ∃ new, Covers running position 1 new s
      (visit running (position % running.length) s) := by
  unfold visit
  rcases hrun : running[position % running.length]? with _ | state
  · refine ⟨[], ?_⟩
    constructor <;> simp [ObservedAt, hrun]
  · obtain ⟨new, hfew, hin, hobserve⟩ := observe_room hobserver hstopping hroom state
    refine ⟨new, ?_⟩
    simp only [hobserve]
    exact
      { observations := rfl
        started := rfl
        observer := rfl
        stopping := rfl
        limit := rfl
        few := hfew
        observed := by
          intro o ho other hother
          obtain rfl : o = 0 := by omega
          rw [Nat.add_zero, hrun] at hother
          cases hother
          exact hin
        cursor := by simp }

/-- The loop goes on until nothing is left or there is no more room. -/
theorem observeLoop_covers (start left : Nat) : ∀ offset s, s.observer = true →
    s.stopping = false → ∃ m new, m ≤ left ∧
      Covers running (start + offset) m new s (observeLoop running start left offset s) ∧
      (m < left → s.maxInflightObservations ≤ s.observations.length + new.length) := by
  induction left with
  | zero =>
    intro offset s _ _
    refine ⟨0, [], Nat.le_refl 0, ?_, nofun⟩
    constructor <;> simp [observeLoop]
  | succ left ih =>
    intro offset s hobserver hstopping
    unfold observeLoop
    split
    · next hroom =>
      obtain ⟨new, hvisit⟩ := @visit_covers _ running hobserver hstopping hroom
        (start + offset)
      obtain ⟨m, new', hm, hrest, hfull⟩ := ih (offset + 1) _ (hvisit.observer.trans hobserver)
        (hvisit.stopping.trans hstopping)
      refine ⟨1 + m, new ++ new', by omega, hvisit.trans hrest, fun hlt => ?_⟩
      have hmore := hfull (by omega)
      rw [hvisit.limit, hvisit.observations, List.length_append] at hmore
      rw [List.length_append]
      omega
    · next hroom =>
      refine ⟨0, [], Nat.zero_le _, ?_, fun _ => by simpa using hroom⟩
      constructor <;> simp

/-- A tick that finds no observation in flight covers `k` positions from the cursor on, or
    every run where there are fewer. -/
theorem tick_covers {rows : List RunState} (hrows : rows.filter (·.phase == .running) = running)
    (hobserver : s.observer = true) (hstopping : s.stopping = false)
    (hidle : s.observations = []) :
    ∃ m new, min s.maxInflightObservations running.length ≤ m ∧
      Covers running (s.observationCursor % max running.length 1) m new s (tick s rows) := by
  obtain ⟨m, new, hm, hcovers, hfull⟩ :=
    @observeLoop_covers running (s.observationCursor % max running.length 1)
      running.length 0 s hobserver hstopping
  refine ⟨m, new, ?_, ?_⟩
  · rcases Nat.lt_or_ge m running.length with hlt | hge
    · have hk := hfull hlt
      rw [hidle, List.length_nil, Nat.zero_add] at hk
      exact Nat.le_trans (Nat.min_le_left _ _) (Nat.le_trans hk hcovers.few)
    · exact Nat.le_trans (Nat.min_le_right _ _) hge
  · simpa [tick, hstopping, hrows] using hcovers

/-! ### Rounds -/

/-- Ticks over the same running runs, where every observation that one starts settles
    before the next. -/
inductive Rounds (running : List RunState) (s : State) : Nat → State → Prop where
  | none : Rounds running s 0 s
  | round {ticks : Nat} {t u v : State} {rows : List RunState} {settled : List String}
      (before : Rounds running s ticks t)
      (hrows : rows.filter (·.phase == .running) = running)
      (htick : step t (.tick rows) = some u)
      (hsettled : StepRuns.run step u (settled.map .settle) = some v)
      (hidle : v.inflight = []) : Rounds running s (ticks + 1) v

/-- Settlements start nothing and leave the cursor where it is. -/
structure Onward (s s' : State) : Prop where
  observer : s'.observer = s.observer
  stopping : s'.stopping = s.stopping
  limit : s'.maxInflightObservations = s.maxInflightObservations
  cursor : s'.observationCursor = s.observationCursor
  started : s'.started = s.started

theorem settle_onward {id : String} (h : settle s id = some s') : Onward s s' := by
  unfold settle at h
  split at h
  · cases h
    exact ⟨rfl, rfl, rfl, rfl, rfl⟩
  · cases h

theorem settled_onward {ids : List String}
    (h : StepRuns.run step s (ids.map .settle) = some s') : Onward s s' := by
  induction ids generalizing s with
  | nil =>
    cases h
    exact ⟨rfl, rfl, rfl, rfl, rfl⟩
  | cons id ids ih =>
    rw [List.map_cons] at h
    obtain ⟨t, ht, h⟩ := StepRuns.run_cons.mp h
    have hfirst : Onward s t := settle_onward ht
    have hrest := ih h
    exact
      ⟨hrest.observer.trans hfirst.observer, hrest.stopping.trans hfirst.stopping,
        hrest.limit.trans hfirst.limit, hrest.cursor.trans hfirst.cursor,
        hrest.started.trans hfirst.started⟩

/-- The rotation so far: `total` positions from the cursor of `s` on were covered, `k` a
    tick, unless every run was. -/
structure Rotated (running : List RunState) (s : State) (ticks : Nat) (s' : State) (total : Nat)
    (new : List String) : Prop where
  inv : Inv s.maxInflightObservations s'
  idle : s'.inflight = []
  observer : s'.observer = true
  stopping : s'.stopping = false
  started : s'.started = s.started ++ new
  enough : ticks * s.maxInflightObservations ≤ total ∨ running.length ≤ total
  cursor : s'.observationCursor % running.length =
    (s.observationCursor + total) % running.length
  observed : ∀ o < total, ObservedAt running new (s.observationCursor + o)

theorem rounds_rotated {ticks : Nat} (hne : running ≠ []) (h : Rounds running s ticks s')
    (hinv : Inv s.maxInflightObservations s) (hidle : s.inflight = [])
    (hobserver : s.observer = true) (hstopping : s.stopping = false) : ∃ total new, Rotated running s ticks s' total new := by
  have hpos : 0 < running.length := List.length_pos_of_ne_nil hne
  induction h with
  | none =>
    exact ⟨0, [], hinv, hidle, hobserver, hstopping, by simp, .inl (by simp), by simp, nofun⟩
  | @round ticks t u v rows settled _ hrows htick hsettled hdone ih =>
    obtain ⟨total, new, hrot⟩ := ih
    have hu := Inv.step htick hrot.inv
    have hv : Inv s.maxInflightObservations v := StepRuns.run_invariant (fun hstep h => Inv.step hstep h) hsettled hu
    have honward := settled_onward hsettled
    cases htick
    obtain ⟨m, more, hm, hcovers⟩ := tick_covers hrows hrot.observer hrot.stopping
      (hrot.inv.keys.trans hrot.idle)
    rw [Nat.max_eq_left hpos] at hcovers
    rw [hrot.inv.size] at hm
    have hobs : (tick t rows).observations = more := by
      rw [hcovers.observations, hrot.inv.keys, hrot.idle, List.nil_append]
    refine ⟨total + m, new ++ more, hv, hdone, ?_, ?_, ?_, ?_, ?_, ?_⟩
    · rw [honward.observer, hcovers.observer, hrot.observer]
    · rw [honward.stopping, hcovers.stopping, hrot.stopping]
    · rw [honward.started, hcovers.started, hrot.started, List.append_assoc]
    · -- either bound on what was covered grows with what this tick covers
      rw [Nat.add_one_mul]
      rcases hrot.enough with htotal | htotal
      · rcases Nat.le_total s.maxInflightObservations running.length with hk | hk
        · rw [Nat.min_eq_left hk] at hm
          exact .inl (Nat.add_le_add htotal hm)
        · rw [Nat.min_eq_right hk] at hm
          exact .inr (Nat.le_trans hm (Nat.le_add_left m total))
      · exact .inr (Nat.le_trans htotal (Nat.le_add_right total m))
    · rw [honward.cursor, hcovers.cursor]
      split
      · next hzero => rw [hzero, Nat.add_zero, hrot.cursor]
      · next hsome =>
        have hsum : t.observationCursor % running.length + (m - 1) + 1 =
            t.observationCursor % running.length + m := by omega
        rw [Nat.mod_add_mod, hsum, hrot.cursor, Nat.mod_add_mod, Nat.add_assoc]
    · intro o ho state hstate
      by_cases hlt : o < total
      · exact List.mem_append_left _ (hrot.observed o hlt state hstate)
      · refine List.mem_append_right _ (hobs ▸ hcovers.observed (o - total) (by omega) state ?_)
        have hpos' : (t.observationCursor % running.length + (o - total)) % running.length =
            (s.observationCursor + o) % running.length := by
          have hsum : s.observationCursor + total + (o - total) = s.observationCursor + o := by omega
          rw [hrot.cursor, Nat.mod_add_mod, hsum]
        rwa [hpos']

/-- Every position is some way on from any cursor, less than once around. -/
theorem exists_offset {n i : Nat} (cursor : Nat) (hi : i < n) : ∃ o < n, (cursor + o) % n = i := by
  refine ⟨(i + (n - cursor % n)) % n, Nat.mod_lt _ (by omega), ?_⟩
  have hlt : cursor % n < n := Nat.mod_lt _ (by omega)
  have hsum : cursor + (i + (n - cursor % n)) = i + n * (cursor / n + 1) := by
    have hdiv := Nat.div_add_mod cursor n
    rw [Nat.mul_add, Nat.mul_one]
    omega
  rw [Nat.add_mod_mod, hsum, Nat.add_mul_mod_self_left, Nat.mod_eq_of_lt hi]

/-- The observations that were started between two states. -/
def startedSince (s s' : State) : List String := s'.started.drop s.started.length

theorem rotation {ticks : Nat} (h : Rounds running s ticks s')
    (hinv : Inv s.maxInflightObservations s) (hidle : s.inflight = []) (hobserver : s.observer = true) (hstopping : s.stopping = false)
    (hticks : running.length ≤ ticks * s.maxInflightObservations) :
    ∀ state ∈ running, state.id ∈ startedSince s s' := by
  intro state hstate
  have hne : running ≠ [] := List.ne_nil_of_mem hstate
  obtain ⟨total, new, hrot⟩ := rounds_rotated hne h hinv hidle hobserver hstopping
  obtain ⟨i, hi, hget⟩ := List.getElem_of_mem hstate
  obtain ⟨o, ho, hpos⟩ := exists_offset s.observationCursor hi
  have htotal : running.length ≤ total := by
    rcases hrot.enough with htotal | htotal
    · exact Nat.le_trans hticks htotal
    · exact htotal
  have hnew : state.id ∈ new := by
    refine hrot.observed o (Nat.lt_of_lt_of_le ho htotal) state ?_
    rw [hpos, List.getElem?_eq_getElem hi, hget]
  rwa [startedSince, hrot.started, List.drop_left]

end Rotation

/-- Whatever the schedule, a run has at most one observation and the scheduler at most `k`;
    and `⌈n / k⌉` ticks that find their observations settled observe each of `n` runs. -/
theorem observation_rotates {k : Nat} (hk : 1 ≤ k) :
    (∀ observer events s, StepRuns.run step (initial observer k) events = some s →
      s.inflight.Nodup ∧ s.inflight.length ≤ k) ∧
    ∀ running s s', s.maxInflightObservations = k → s.observer = true → s.stopping = false →
      s.observations = [] → s.inflight = [] →
      Rounds running s ((running.length + k - 1) / k) s' →
      ∀ state ∈ running, state.id ∈ startedSince s s' := by
  constructor
  · intro observer events s hrun
    have hinit : Inv k (initial observer k) := @Inv.idle (initial observer k) rfl rfl
    have h : Inv k s := StepRuns.run_invariant (fun hstep h => Inv.step hstep h) hrun hinit
    exact ⟨h.once, h.limit⟩
  · rintro running s s' rfl hobserver hstopping hobservations hinflight hrounds
    refine rotation hrounds (Inv.idle hobservations hinflight) hinflight hobserver hstopping ?_
    have hdiv := Nat.div_add_mod (running.length + s.maxInflightObservations - 1)
      s.maxInflightObservations
    have hmod := Nat.mod_lt (running.length + s.maxInflightObservations - 1) hk
    rw [Nat.mul_comm]
    omega

/-- Three runs, two at a time, with the cursor at the last: the second tick comes around. -/
def sampleRuns : List RunState :=
  [⟨"a", .running⟩, ⟨"done", .finished⟩, ⟨"b", .running⟩, ⟨"c", .running⟩]

def sampleStart : State := ⟨true, 2, [], 2, false, [], []⟩

theorem observation_rotates_sample :
    "a" ∈ ["c", "a", "b", "c"] ∧ "b" ∈ ["c", "a", "b", "c"] ∧ "c" ∈ ["c", "a", "b", "c"] := by
  have hfirst : Rounds (sampleRuns.filter (·.phase == .running)) sampleStart 1
      ⟨true, 2, [], 1, false, [], ["c", "a"]⟩ :=
    @Rounds.round _ _ 0 _ _ _ sampleRuns ["a", "c"] .none rfl rfl rfl rfl
  have hsecond : Rounds (sampleRuns.filter (·.phase == .running)) sampleStart 2
      ⟨true, 2, [], 3, false, [], ["c", "a", "b", "c"]⟩ :=
    @Rounds.round _ _ 1 _ _ _ sampleRuns ["b", "c"] hfirst rfl rfl rfl rfl
  have hall := (observation_rotates (k := 2) (by decide)).2 _ sampleStart _ rfl rfl rfl rfl rfl
    hsecond
  exact ⟨hall ⟨"a", .running⟩ (by decide), hall ⟨"b", .running⟩ (by decide),
    hall ⟨"c", .running⟩ (by decide)⟩

end PaseoGateway.ObservationRotation

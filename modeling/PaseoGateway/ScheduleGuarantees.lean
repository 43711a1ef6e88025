/-
  PaseoGateway/ScheduleGuarantees.lean
  ====================================
  **What the schedule service promises over whole runs.**

  A run is dispatched at most once for each time its record is created, and only behind a
  durable reservation and record (`dispatched_at_most_once`).  A run record goes forward and
  stays what it is once finished (`record_goes_forward`).  Reservations are distinct and few,
  and each is admitted (`reservations_admitted`); a run that is not finished keeps its own,
  unless its record was created twice (`unfinished_reserved`).

  All of it holds for any number of processes, whatever fails.
-/
import PaseoGateway.ScheduleServiceSafety
import PaseoGateway.ScheduleTicks

namespace PaseoGateway.ScheduleService

open Async

variable {o : Options} {calls : Calls sys} {tr older : History} {id runId : String} {n : Nat}

/-! ### At most one dispatch -/

theorem Legal.run_created (h : Legal o calls tr) (newer older : History) (a : Option Tid)
    (raw : Raw RunState) (htr : tr = newer ++ .create a (.scheduleRun runId) raw :: older) :
    lookup (.scheduleRun runId) older = none := by
  subst htr
  rcases Step.run (Law.Legal.split h).2 rfl with
    ⟨hfree, -⟩ | ⟨_, _, -, ⟨_, heq, -⟩ | ⟨_, _, heq, -⟩⟩
  · exact hfree
  · cases heq
  · cases heq

theorem Legal.run_updated (h : Legal o calls tr) (newer older : History) (a : Option Tid)
    (raw : Raw RunState) (htr : tr = newer ++ .update a (.scheduleRun runId) raw :: older) :
    (lookup (.scheduleRun runId) older).isSome = true := by
  subst htr
  rcases Step.run (Law.Legal.split h).2 rfl with ⟨-, _, _, heq, -⟩ | ⟨_, _, hold, -⟩
  · cases heq
  · rw [hold]
    rfl

theorem creates_of_opener {x : Option Tid} {e : ScheduleEntry} (h : opener runId e = some x) :
    e.creates (.scheduleRun runId) = true := by
  unfold opener at h
  split at h
  · split at h
    · next hopen => exact decide_eq_true (congrArg Key.scheduleRun hopen.1)
    · cases h
  · cases h

theorem openers_le (tr : History) :
    (openers runId tr).length ≤ tr.countP (Entry.creates (.scheduleRun runId)) := by
  rw [openers, List.length_filterMap_eq_countP]
  refine List.countP_mono_left fun e _ he => ?_
  obtain ⟨x, hx⟩ := Option.isSome_iff_exists.mp he
  exact creates_of_opener hx

theorem Legal.senders_le (h : Legal o calls tr) :
    (senders runId tr).length ≤ (openers runId tr).length :=
  (List.subperm_ext_iff.mpr fun _ _ => h.sent).length_le

/-- What is durable when a dispatch goes out. -/
structure Backed (calls : Calls sys) (t : Tid) (input : ScheduleDispatch) (older : History) :
    Prop where
  fires : Fires calls t
  reserved : ∃ s, .update (some t) (.schedule s.schedule.id) (.valid s) ∈ older ∧
    (∃ r ∈ s.reservations, r.run.id = input.runId) ∧ input = dispatchOf s input.runId
  recorded : ∃ n run, Stored older n (.scheduleRun input.runId) (.valid run) ∧
    run.phase = .dispatching

theorem Prepared.backed {t : Tid} {input : ScheduleDispatch} {automatic : Bool}
    (h : Prepared o calls t input automatic older) : Backed calls t input older := by
  obtain ⟨run, s, s', mid, htook, hid, hinput, ⟨n, hs⟩, -⟩ := h.took
  obtain ⟨newer, hsplit, -⟩ := htook.split
  obtain ⟨_, -, hreserves⟩ := htook.holds
  obtain ⟨updatedAt, nextRunAt, hs', -⟩ := hreserves.state
  obtain ⟨scheduledFor, startedAt, hrun⟩ := hreserves.made
  have hsame : s'.schedule.id = s.schedule.id := by rw [hs', reserved_id]
  refine ⟨h.fires, ⟨s', ?_, ⟨run, ?_, hid⟩, hinput⟩, ⟨n, run, hs, ?_⟩⟩
  · rw [hsplit, hsame]
    simp
  · rw [hs', reserved_reservations]
    simp
  · rw [hrun]
    rfl

/-- A run id is dispatched at most once more than its record was deleted, and at most once while
    its record is retained; each dispatch is sent by a tick, a create or a run-once and follows
    the reservation, written by the same call, and the run record. -/
theorem dispatched_at_most_once {c : (machine o).Config} (h : (machine o).Reachable c)
    (runId : String) :
    (senders runId c.world.trace).length ≤
      c.world.trace.countP (Entry.deletes (.scheduleRun runId)) +
        (if (lookup (.scheduleRun runId) c.world.trace).isSome then 1 else 0) ∧
    ∀ newer older a input automatic,
      c.world.trace = newer ++ .note a (.dispatch input automatic) :: older →
      ∃ t, a = some t ∧ Backed c.world.calls t input older := by
  have hlegal := reachable_legal h
  refine ⟨?_, fun newer older a input automatic htr => ?_⟩
  · calc (senders runId c.world.trace).length
        ≤ (openers runId c.world.trace).length := hlegal.senders_le
      _ ≤ c.world.trace.countP (Entry.creates (.scheduleRun runId)) := openers_le _
      _ ≤ _ := countP_creates hlegal.run_created
  · rw [htr] at hlegal
    cases (Law.Legal.split hlegal).2 with
    | dispatch hprepared => exact ⟨_, rfl, hprepared.backed⟩

/-! ### The phases of a run -/

/-- A phase that may come later, or the same. -/
def Follows (phase phase' : ObservationRotation.RunPhase) : Prop :=
  phase' = phase ∨ phase = .dispatching ∨ phase' = .finished

theorem Follows.trans {p q r : ObservationRotation.RunPhase} (h : Follows p q) (h' : Follows q r) :
    Follows p r := by
  rcases h with rfl | rfl | rfl
  · exact h'
  · exact .inr (.inl rfl)
  · rcases h' with rfl | h | rfl
    · exact .inr (.inr rfl)
    · cases h
    · exact .inr (.inr rfl)

theorem Follows.antisymm {p q : ObservationRotation.RunPhase} (h : Follows p q)
    (h' : Follows q p) : q = p := by
  rcases h with rfl | rfl | rfl
  · rfl
  · rcases h' with h | h | h
    · exact h.symm
    · exact h
    · cases h
  · rcases h' with h | h | h
    · exact h.symm
    · cases h
    · exact h.symm

/-- Why a run is where it is. -/
structure Accounted (calls : Calls sys) (runId : String) (v v' : RunState) (tr : History) :
    Prop where
  same : SameRun v v'
  follows : Follows v.phase v'.phase
  kept : v'.phase = v.phase → v' = v
  running : v'.phase = .running → v.phase = .running ∨
    ∃ t d, .note (some t) (.outcome runId (.ok d)) ∈ tr ∧
      v'.run.agentId = some d.agentId ∧ v'.run.workspaceId = some d.workspaceId
  finished : v'.phase = .finished → v.phase = .finished ∨
    ∃ t, .note (some t) (.outcome runId (.error .rejected)) ∈ tr ∨ Completes calls t runId

theorem Accounted.refl (v : RunState) : Accounted calls runId v v tr where
  same := ⟨rfl, rfl, rfl, rfl, rfl, rfl, rfl, rfl⟩
  follows := .inl rfl
  kept := fun _ => rfl
  running := .inl
  finished := .inl

theorem Accounted.cons {v v' : RunState} (h : Accounted calls runId v v' tr) (e : ScheduleEntry) :
    Accounted calls runId v v' (e :: tr) where
  same := h.same
  follows := h.follows
  kept := h.kept
  running := fun hv => (h.running hv).imp_right fun ⟨t, d, hnote, hagent⟩ =>
    ⟨t, d, List.mem_cons_of_mem _ hnote, hagent⟩
  finished := fun hv => (h.finished hv).imp_right fun ⟨t, ht⟩ =>
    ⟨t, ht.imp_left (List.mem_cons_of_mem _)⟩

theorem Moves.unfinished {t : Tid} {v v' : RunState} (h : Moves calls t runId tr v v') :
    v.phase ≠ .finished := by
  rcases h with ⟨hv, -, -⟩ | ⟨hv, -, -, -⟩ | ⟨hv, -, -⟩ | ⟨hv, -, -⟩
  · simp [hv]
  · simp [hv]
  · simp [hv]
  · exact hv

theorem Moves.accounted {t : Tid} {v v' : RunState} (h : Moves calls t runId tr v v') :
    Accounted calls runId v v' tr := by
  refine ⟨h.same, ?_, fun hsame => ?_, fun hrun => ?_, fun hfin => ?_⟩
  · rcases h with ⟨hv, -, -⟩ | ⟨hv, -, -, -⟩ | ⟨hv, -, -⟩ | ⟨-, -, rfl⟩
    · exact .inr (.inl hv)
    · exact .inr (.inl hv)
    · exact .inr (.inl hv)
    · exact .inr (.inr rfl)
  · rcases h with ⟨hv, -, rfl⟩ | ⟨hv, -, hv', -⟩ | ⟨hv, hv', -⟩ | ⟨hv, -, rfl⟩
    · rw [hv] at hsame
      cases hsame
    · rw [hv, hv'] at hsame
      cases hsame
    · rw [hv, hv'] at hsame
      cases hsame
    · exact absurd hsame.symm hv
  · rcases h with ⟨-, hnote, rfl⟩ | ⟨-, -, hv', -⟩ | ⟨-, hv', -⟩ | ⟨-, -, rfl⟩
    · exact .inr ⟨t, _, hnote, rfl, rfl⟩
    · rw [hv'] at hrun
      cases hrun
    · rw [hv'] at hrun
      cases hrun
    · cases hrun
  · rcases h with ⟨-, -, rfl⟩ | ⟨-, hnote, -, -⟩ | ⟨-, hv', -⟩ | ⟨-, hcall, -⟩
    · cases hfin
    · exact .inr ⟨t, .inl hnote⟩
    · rw [hv'] at hfin
      cases hfin
    · exact .inr ⟨t, .inr hcall⟩

theorem Accounted.trans {v v' v'' : RunState} (h : Accounted calls runId v v' tr)
    (h' : Accounted calls runId v' v'' tr) : Accounted calls runId v v'' tr where
  same := h.same.trans h'.same
  follows := h.follows.trans h'.follows
  kept := fun hsame => by
    have hback : Follows v'.phase v.phase := hsame ▸ h'.follows
    have hv := h.follows.antisymm hback
    rw [h'.kept (hsame.trans hv.symm), h.kept hv]
  running := fun hrun => by
    rcases h'.running hrun with hv' | hnew
    · rw [h'.kept (hrun.trans hv'.symm)]
      exact h.running hv'
    · exact .inr hnew
  finished := fun hfin => (h'.finished hfin).elim h.finished .inr

theorem Legal.goes_forward {newer : History} (h : Legal o calls (newer ++ older))
    (hnone : ∀ e ∈ newer, e.deletes (.scheduleRun runId) = false) {v : RunState}
    (hold : lookup (.scheduleRun runId) older = some (n, .valid v)) :
    ∃ m v', lookup (.scheduleRun runId) (newer ++ older) = some (m, .valid v') ∧
      Accounted calls runId v v' (newer ++ older) := by
  induction newer with
  | nil => exact ⟨n, v, hold, .refl v⟩
  | cons e newer ih =>
    obtain ⟨hfirst, hrest⟩ := List.forall_mem_cons.mp hnone
    obtain ⟨m, v', hlook, hacc⟩ := ih h.1 hrest
    have hstep : Step o calls (newer ++ older) e := h.2
    by_cases hkey : e.key? = some (.scheduleRun runId)
    · rcases hstep.run hkey with
        ⟨hfree, -⟩ | ⟨k, w, hcur, ⟨t, rfl, -⟩ | ⟨t, v'', rfl, hmoves⟩⟩
      · rw [hlook] at hfree
        cases hfree
      · simp [Entry.deletes] at hfirst
      · rw [hlook] at hcur
        cases hcur
        exact ⟨_, v'', lookup_update_self _ _ _ _, (hacc.trans hmoves.accounted).cons _⟩
    · exact ⟨m, v', (lookup_cons_of_ne hkey).trans hlook, hacc.cons e⟩

/-- A run record that is not deleted goes forward from `dispatching` to `running` or `unknown`
    and from there to `finished`, or is as it was.  It is running with the agent that its
    dispatch has answered, and finished because its dispatch was rejected or a call has completed
    it; once finished it is never replaced. -/
theorem record_goes_forward {c : (machine o).Config} (h : (machine o).Reachable c)
    {newer older : History} (htr : c.world.trace = newer ++ older)
    (hnone : ∀ e ∈ newer, e.deletes (.scheduleRun runId) = false) {v : RunState}
    (hold : lookup (.scheduleRun runId) older = some (n, .valid v)) :
    ∃ m v', lookup (.scheduleRun runId) c.world.trace = some (m, .valid v') ∧
      Accounted c.world.calls runId v v' c.world.trace := by
  have hlegal := reachable_legal h
  rw [htr] at hlegal ⊢
  exact hlegal.goes_forward hnone hold

/-! ### Admission -/

/-- What a write may do to a schedule that is there. -/
inductive Rewrites (t : Tid) (n : Nat) (tr : History) (s s' : ScheduleState) : Prop
  | released {gone : List String} (htotal : s'.totalRuns = s.totalRuns)
      (hfilter : s'.reservations = s.reservations.filter fun r => decide (r.run.id ∉ gone))
      (hgone : ∀ runId ∈ gone, Finished runId tr) : Rewrites t n tr s s'
  | admitted {run : RunState} (htotal : s'.totalRuns = s.totalRuns + 1)
      (happend : s'.reservations = s.reservations ++ [run])
      (hforbid : s.concurrency = .Forbid → s.reservations = [])
      (hallow : s.reservations.length < 16)
      (hmax : ∀ max, s.schedule.maxRuns = some max → max ≠ 0 → s.totalRuns < max)
      (hexpires : ∀ e, s.schedule.expiresAt = some e → ∃ x, ReadSince t n x tr ∧ x < e) :
      Rewrites t n tr s s'

theorem Reserves.rewrites {t : Tid} {s s' : ScheduleState} {run : RunState}
    (h : Reserves o t n tr s s' run) : Rewrites t n tr s s' := by
  obtain ⟨updatedAt, nextRunAt, rfl, -⟩ := h.state
  refine .admitted (reserved_totalRuns run updatedAt nextRunAt)
    (reserved_reservations run updatedAt nextRunAt) (fun hforbid => ?_) (blocked_lt h.free)
    (fun max hmax hne => ?_) h.unexpired
  · have hfree := h.free
    simpa [blocked, hforbid] using (Bool.or_eq_false_iff.mp hfree).2
  · have hunspent := h.unspent
    simp only [spent, hmax, Option.any_some, decide_eq_false_iff_not] at hunspent
    omega

/-- Every stored schedule has few reservations of distinct runs, and is active exactly when it
    has a next time.  A reservation is added one by one, each counted, where the policy, the limit
    and the expiration admit it, and is dropped when its run was seen finished; a schedule with
    reservations is never deleted. -/
theorem reservations_admitted {c : (machine o).Config} (h : (machine o).Reachable c) (id : String) :
    (∀ n raw, Stored c.world.trace n (.schedule id) raw → ∃ s, raw = .valid s ∧
      (s.reservations.map (·.run.id)).Nodup ∧ s.reservations.length ≤ 16 ∧
      (s.schedule.status = .active ↔ s.schedule.nextRunAt.isSome = true)) ∧
    ∀ newer e older, c.world.trace = newer ++ e :: older → e.key? = some (.schedule id) →
      (∃ t s, e = .create (some t) (.schedule id) (.valid s) ∧ s.totalRuns = 0 ∧
        s.reservations = []) ∨
      ∃ n s, lookup (.schedule id) older = some (n, .valid s) ∧
        ((∃ t, e = .delete (some t) (.schedule id) ∧ s.reservations = []) ∨
          ∃ t s', e = .update (some t) (.schedule id) (.valid s') ∧ Rewrites t n older s s') := by
  have hlegal := reachable_legal h
  refine ⟨fun n raw hs => ?_, fun newer e older htr hkey => ?_⟩
  · obtain ⟨s, rfl, hkept⟩ := hlegal.scheduled hs
    exact ⟨s, rfl, hkept.distinct, hkept.few, hkept.timed⟩
  · rw [htr] at hlegal
    rcases Step.schedule (Law.Legal.split hlegal).2 hkey with
      ⟨t, s, rfl, -, -, hfresh⟩ | ⟨n, s, hold, ⟨t, rfl, hempty⟩ | ⟨t, s', rfl, hstep⟩⟩
    · exact .inl ⟨t, s, rfl, hfresh.totalRuns, hfresh.reservations⟩
    · exact .inr ⟨n, s, hold, .inl ⟨t, rfl, hempty⟩⟩
    · refine .inr ⟨n, s, hold, .inr ⟨t, s', rfl, ?_⟩⟩
      rcases hstep with hedits | ⟨run, hreserves⟩
      · obtain ⟨gone, hfilter, hgone⟩ := hedits.reservations
        exact .released hedits.totalRuns hfilter hgone
      · exact hreserves.rewrites

/-! ### Reservations of runs that are not finished -/

theorem Finished.cons (h : Finished runId tr) (e : ScheduleEntry) : Finished runId (e :: tr) :=
  h.imp fun _ h => h.imp fun _ h => ⟨h.1.cons e, h.2⟩

/-- A stored reservation stays until its run was seen finished. -/
theorem Legal.keeps_reservation (h : Legal o calls tr) {s : ScheduleState} {r : RunState}
    (hs : Stored tr n (.schedule id) (.valid s)) (hmem : r ∈ s.reservations)
    (hunfinished : ¬ Finished r.run.id tr) :
    ∃ m s', lookup (.schedule id) tr = some (m, .valid s') ∧ r ∈ s'.reservations := by
  induction tr generalizing n s with
  | nil =>
    obtain ⟨newer, e, older, htr, -, -⟩ := hs
    cases newer <;> cases htr
  | cons e older ih =>
    have hold : ¬ Finished r.run.id older := fun hf => hunfinished (hf.cons e)
    by_cases hkey : e.key? = some (.schedule id)
    · rcases hs.cons_cases with ⟨hputs, -⟩ | hs
      · exact ⟨older.length, s, by simp [lookup, hkey, hputs], hmem⟩
      obtain ⟨m, s₁, hlook, hmem₁⟩ := ih h.1 hs hmem hold
      rcases Step.schedule h.2 hkey with
        ⟨t, s₂, rfl, -, hnew, -⟩ | ⟨k, s₂, hcur, ⟨t, rfl, hempty⟩ | ⟨t, s', rfl, hstep⟩⟩
      · obtain ⟨newer, e', older', rfl, -, hputs⟩ := lookup_stored hlook
        exact absurd (Entry.key_of_puts hputs) (hnew e' (by simp))
      · rw [hlook] at hcur
        cases hcur
        rw [hempty] at hmem₁
        cases hmem₁
      · rw [hlook] at hcur
        cases hcur
        refine ⟨_, s', lookup_update_self _ _ _ _, ?_⟩
        rcases hstep with hedits | ⟨run, hreserves⟩
        · obtain ⟨gone, hfilter, hgone⟩ := hedits.reservations
          rw [hfilter]
          exact List.mem_filter.mpr ⟨hmem₁, decide_eq_true fun hin => hold (hgone _ hin)⟩
        · obtain ⟨updatedAt, nextRunAt, rfl, -⟩ := hreserves.state
          rw [reserved_reservations]
          exact List.mem_append_left _ hmem₁
    · rw [lookup_cons_of_ne hkey]
      rcases hs.cons_cases with ⟨hputs, -⟩ | hs
      · exact absurd (Entry.key_of_puts hputs) hkey
      · exact ih h.1 hs hmem hold

/-- Behind every run record there is a stored reservation of the run. -/
theorem Legal.reserved_once (h : Legal o calls tr) {v : RunState}
    (hs : Stored tr n (.scheduleRun runId) (.valid v)) :
    ∃ m s r, Stored tr m (.schedule v.scheduleId) (.valid s) ∧ r ∈ s.reservations ∧
      r.run.id = runId := by
  induction tr generalizing n v with
  | nil =>
    obtain ⟨newer, e, older, htr, -, -⟩ := hs
    cases newer <;> cases htr
  | cons e older ih =>
    have hlater {scheduleId : String} (h : ∃ m s r,
        Stored older m (.schedule scheduleId) (.valid s) ∧ r ∈ s.reservations ∧ r.run.id = runId) :
        ∃ m s r, Stored (e :: older) m (.schedule scheduleId) (.valid s) ∧ r ∈ s.reservations ∧
          r.run.id = runId :=
      h.imp fun m h => h.imp fun s h => h.imp fun r h => ⟨h.1.cons e, h.2⟩
    rcases hs.cons_cases with ⟨hputs, -⟩ | hs
    · refine hlater ?_
      rcases Step.run h.2 (Entry.key_of_puts hputs) with
        ⟨-, t, run, rfl, hopens⟩ | ⟨m, w, hold, ⟨t, rfl, -⟩ | ⟨t, v', rfl, hmoves⟩⟩
      · cases Entry.puts_create hputs
        obtain ⟨m, id, s, r, hs, hmem, hid, hsame⟩ := hopens.reserved
        obtain ⟨_, heq, hkept⟩ := Legal.scheduled h.1 hs
        cases heq
        refine ⟨m, s, r, ?_, hmem, hid⟩
        rw [hsame.scheduleId, (hkept.own r hmem).1, hkept.id]
        exact hs
      · cases hputs
      · cases Entry.puts_update hputs
        rw [hmoves.same.scheduleId]
        exact ih h.1 (lookup_stored hold)
    · exact hlater (ih h.1 hs)

/-- A record that was created once and seen finished is finished, or gone. -/
theorem Legal.finished_stays (h : Legal o calls tr)
    (honce : tr.countP (Entry.creates (.scheduleRun runId)) ≤ 1) (hfinished : Finished runId tr)
    {v : RunState} (hlook : lookup (.scheduleRun runId) tr = some (n, .valid v)) :
    v.phase = .finished := by
  induction tr generalizing n v with
  | nil => cases hlook
  | cons e older ih =>
    have hfewer : older.countP (Entry.creates (.scheduleRun runId)) ≤ 1 := by
      rw [List.countP_cons] at honce
      omega
    obtain ⟨m, state, hs, hphase⟩ := hfinished
    by_cases hkey : e.key? = some (.scheduleRun runId)
    · rcases hs.cons_cases with ⟨hputs, -⟩ | hs
      · have hcur : lookup (.scheduleRun runId) (e :: older) = some (older.length, .valid state) := by
          simp [lookup, hkey, hputs]
        rw [hcur] at hlook
        cases hlook
        exact hphase
      have hcreated := creates_of_stored (Legal.run_updated h.1) hs
      have hfin : Finished runId older := ⟨m, state, hs, hphase⟩
      rcases Step.run h.2 hkey with
        ⟨-, t, run, rfl, -⟩ | ⟨k, w, hcur, ⟨t, rfl, -⟩ | ⟨t, v', rfl, hmoves⟩⟩
      · rw [List.countP_cons] at honce
        simp only [Entry.creates, decide_true, if_true] at honce
        omega
      · rw [lookup_delete_self] at hlook
        cases hlook
      · exact absurd (ih h.1 hfewer hfin hcur) hmoves.unfinished
    · rw [lookup_cons_of_ne hkey] at hlook
      rcases hs.cons_cases with ⟨hputs, -⟩ | hs
      · exact absurd (Entry.key_of_puts hputs) hkey
      · exact ih h.1 hfewer ⟨m, state, hs, hphase⟩ hlook

/-- A run that is not finished, and whose record was created once, has a schedule that still
    reserves it. -/
theorem unfinished_reserved {c : (machine o).Config} (h : (machine o).Reachable c)
    (honce : c.world.trace.countP (Entry.creates (.scheduleRun runId)) ≤ 1) {v : RunState}
    (hlook : lookup (.scheduleRun runId) c.world.trace = some (n, .valid v))
    (hphase : v.phase ≠ .finished) :
    ∃ m s r, lookup (.schedule v.scheduleId) c.world.trace = some (m, .valid s) ∧
      r ∈ s.reservations ∧ r.run.id = runId := by
  have hlegal := reachable_legal h
  obtain ⟨m, s, r, hs, hmem, rfl⟩ := hlegal.reserved_once (lookup_stored hlook)
  have hunfinished : ¬ Finished r.run.id c.world.trace := fun hf =>
    hphase (hlegal.finished_stays honce hf hlook)
  obtain ⟨m', s', hlook', hmem'⟩ := hlegal.keeps_reservation hs hmem hunfinished
  exact ⟨m', s', r, hlook', hmem', rfl⟩

/-! ### A run of one process -/

section Demo

abbrev demoMachine : Machine sys := machine demoOptions

def demoInput : NewSchedule where
  name := none
  prompt := "prompt"
  cadence := .cron "* * * * *" none
  target := .newAgent "/work" none
  expiresAt := none
  maxRuns := none
  runOnCreate := true

/-- Some requests of one call: of the store where it says so, else answered at this time. -/
def demoTurns (t : Tid) (instant : Int) (kinds : List Bool) : List demoMachine.Move :=
  kinds.map fun stored =>
    if stored then .run t (.store ⟨.none, fun _ => 0⟩)
    else .run t (.ext ⟨instant, .ok (), .ok ⟨"agent", "workspace"⟩, .ok none, "s",
      .ok ⟨"project", "profile", none, none⟩⟩)

/-- A schedule is created and run at once, up to the dispatch. -/
def demoCreate : List demoMachine.Move :=
  .start 0 (.handle (.create demoInput "r") .owner) :: demoTurns ⟨0, 0⟩ 0
    [false, false, true, false, false, false, false, false, true, false, true, true, false, false,
      false, true, true, false]

/-- The dispatch is accepted, and the run completed. -/
def demoComplete (runId : String) (t u : Tid) (instant : Int) : List demoMachine.Move :=
  demoTurns t instant [false, true, true, false] ++
    .start 0 (.completeRun runId ⟨true, none, none⟩) ::
      demoTurns u instant [true, false, true, true, true, true]

/-- A reachable configuration with a computed property. -/
theorem demo_reachable (moves : List demoMachine.Move) (P : demoMachine.Config → Bool)
    (h : (demoMachine.initial.moves moves).any P = true) :
    ∃ c, demoMachine.Reachable c ∧ P c = true := by
  obtain ⟨c, hc, hP⟩ := (Option.any_eq_true _ _).mp h
  exact ⟨c, Machine.Reachable.init.moves hc, hP⟩

theorem dispatched_at_most_once_demo : ∃ c : demoMachine.Config,
    (senders "s:create:r" c.world.trace).length = 1 ∧
      (senders "s:create:r" c.world.trace).length ≤
        c.world.trace.countP (Entry.deletes (.scheduleRun "s:create:r")) +
          (if (lookup (.scheduleRun "s:create:r") c.world.trace).isSome then 1 else 0) := by
  obtain ⟨c, hreach, hsent⟩ := demo_reachable demoCreate
    (fun c => decide ((senders "s:create:r" c.world.trace).length = 1)) (by rfl)
  exact ⟨c, of_decide_eq_true hsent, (dispatched_at_most_once hreach "s:create:r").1⟩

/-- The record of the run is there, in this phase. -/
def inPhase (phase : ObservationRotation.RunPhase) (runId : String) (tr : History) : Bool :=
  match lookup (Key.scheduleRun runId) tr with
  | some (_, Raw.valid v) => v.phase = phase
  | _ => false

theorem inPhase_iff {phase : ObservationRotation.RunPhase} {tr : History} :
    inPhase phase runId tr = true ↔
      ∃ n v, lookup (.scheduleRun runId) tr = some (n, .valid v) ∧ v.phase = phase := by
  unfold inPhase
  split
  · next n v heq => simp [heq]
  · next hother =>
    refine iff_of_false (by simp) ?_
    rintro ⟨n, v, heq, -⟩
    exact hother n v heq

theorem record_goes_forward_demo : ∃ (c : demoMachine.Config) (v v' : RunState),
    v.phase = .dispatching ∧
      Accounted c.world.calls "s:create:r" v v' c.world.trace ∧ v'.phase = .finished := by
  obtain ⟨c, hreach, hc⟩ := demo_reachable
    (demoCreate ++ demoComplete "s:create:r" ⟨0, 1⟩ ⟨0, 2⟩ 1)
    (fun c => (c.world.trace.take 6).all
        (fun e => !e.deletes (.scheduleRun "s:create:r")) &&
      inPhase .dispatching "s:create:r" (c.world.trace.drop 6) &&
      inPhase .finished "s:create:r" c.world.trace) (by rfl)
  simp only [Bool.and_eq_true, List.all_eq_true, Bool.not_eq_true', inPhase_iff] at hc
  obtain ⟨⟨hnone, n, v, hold, hphase⟩, k, w, hnow, hw⟩ := hc
  obtain ⟨m, v', hlook, hacc⟩ := record_goes_forward hreach
    (List.take_append_drop 6 c.world.trace).symm hnone hold
  rw [hnow] at hlook
  cases hlook
  exact ⟨c, v, w, hphase, hacc, hw⟩

/-- The schedule is there and reserves so many runs. -/
def reserves (count : Nat) (id : String) (tr : History) : Bool :=
  match lookup (Key.schedule id) tr with
  | some (_, Raw.valid s) => s.reservations.length = count
  | _ => false

theorem reservations_admitted_demo : ∃ (c : demoMachine.Config) (n : Nat) (s : ScheduleState),
    Stored c.world.trace n (.schedule "s") (.valid s) ∧ s.reservations.length = 1 ∧
      (s.reservations.map (·.run.id)).Nodup := by
  obtain ⟨c, hreach, hc⟩ := demo_reachable demoCreate
    (fun c => reserves 1 "s" c.world.trace) (by rfl)
  unfold reserves at hc
  split at hc
  · next n s hlook =>
    have hs := lookup_stored hlook
    obtain ⟨s', heq, hdistinct, -⟩ := (reservations_admitted hreach "s").1 n _ hs
    cases heq
    exact ⟨c, n, s, hs, of_decide_eq_true hc, hdistinct⟩
  · cases hc

theorem unfinished_reserved_demo : ∃ (c : demoMachine.Config) (v : RunState) (m : Nat)
    (s : ScheduleState) (r : RunState), v.phase = .dispatching ∧
      lookup (.schedule v.scheduleId) c.world.trace = some (m, .valid s) ∧
      r ∈ s.reservations ∧ r.run.id = "s:create:r" := by
  obtain ⟨c, hreach, hc⟩ := demo_reachable demoCreate
    (fun c => decide (c.world.trace.countP (Entry.creates (.scheduleRun "s:create:r")) ≤ 1) &&
      inPhase .dispatching "s:create:r" c.world.trace) (by rfl)
  simp only [Bool.and_eq_true, decide_eq_true_eq, inPhase_iff] at hc
  obtain ⟨honce, n, v, hlook, hphase⟩ := hc
  obtain ⟨m, s, r, hs, hmem, hid⟩ := unfinished_reserved hreach honce hlook
    (by simp [hphase])
  exact ⟨c, v, m, s, r, hphase, hs, hmem, hid⟩

end Demo

end PaseoGateway.ScheduleService

/-
  PaseoGateway/ScheduleLaw.lean
  =============================
  **What the schedule service may write.**

  A schedule record is created once, replaced by an edit or by a reservation, and deleted
  only without reservations.  An edit drops a reservation only after the run was seen
  finished; a reservation is added before the record of its run exists, and a dispatch
  follows both.  A run record moves from `dispatching` to `running`, `unknown` or
  `finished`, and from the first two to `finished`.

  The law is about any number of processes; each step names what its author has read.
-/
import PaseoGateway.LegalCalls
import PaseoGateway.ScheduleService

namespace PaseoGateway.ScheduleService

open Async

abbrev History : Type := Trace Key Val Note

abbrev ScheduleEntry : Type := Entry Key Val Note

/-! ### What a write rests on -/

/-- The run was seen finished. -/
def Finished (runId : String) (tr : History) : Prop :=
  ∃ n state, Stored tr n (.scheduleRun runId) (.valid state) ∧ state.phase = .finished

/-- Thread `t` has read the clock since version `n` was written. -/
def ReadSince (t : Tid) (n : Nat) (x : Int) (tr : History) : Prop :=
  ∃ newer older, tr = newer ++ .note (some t) (.clock x) :: older ∧ n < older.length

/-- Thread `t` runs a tick that began at `x`. -/
def Entered (t : Tid) (x : Int) (tr : History) : Prop := .note (some t) (.entered x) ∈ tr

section Law

variable (o : Options)

/-- Where the next time of a schedule comes from. -/
inductive Next (t : Tid) (n : Nat) (tr : History) (old : Option Int) : Option Int → Prop
  | kept : Next t n tr old old
  | never : Next t n tr old none
  | read {cadence : Cadence} {x next : Int} (hx : ReadSince t n x tr)
      (hnext : nextScheduleTime o cadence x = .ok next) : Next t n tr old (some next)
  | entered {cadence : Cadence} {x due next : Int} (hx : Entered t x tr) (hold : old = some due)
      (hdue : due ≤ x) (hnext : nextScheduleTime o cadence x = .ok next) : Next t n tr old (some next)

/-- The schedule is active exactly when it has a next time. -/
def Timed (schedule : StoredSchedule) : Prop :=
  schedule.status = .active ↔ schedule.nextRunAt.isSome = true

/-- A write that reserves nothing. -/
structure Edits (t : Tid) (n : Nat) (tr : History) (s s' : ScheduleState) : Prop where
  id : s'.schedule.id = s.schedule.id
  project : s'.projectId = s.projectId
  profile : s'.credentialProfile = s.credentialProfile
  target : s'.targetWorkspaceUid = s.targetWorkspaceUid
  totalRuns : s'.totalRuns = s.totalRuns
  reservations : ∃ gone : List String,
    s'.reservations = s.reservations.filter (fun r => decide (r.run.id ∉ gone)) ∧
      ∀ runId ∈ gone, Finished runId tr
  timed : Timed s.schedule → Timed s'.schedule
  next : Next o t n tr s.schedule.nextRunAt s'.schedule.nextRunAt

/-- A write that reserves a run. -/
structure Reserves (t : Tid) (n : Nat) (tr : History) (s s' : ScheduleState) (run : RunState) :
    Prop where
  made : ∃ scheduledFor startedAt, run = newRun s.schedule.id scheduledFor run.run.id s startedAt
  state : ∃ updatedAt nextRunAt, s' = reserved s run updatedAt nextRunAt ∧
    (s.schedule.status = .active → ∃ x next, ReadSince t n x tr ∧
      nextScheduleTime o s.schedule.cadence x = .ok next ∧ nextRunAt = some next) ∧
    (s.schedule.status ≠ .active → nextRunAt = s.schedule.nextRunAt)
  fresh : ∀ r ∈ s.reservations, r.run.id ≠ run.run.id
  free : blocked s = false
  unspent : spent s = false
  unexpired : ∀ e, s.schedule.expiresAt = some e → ∃ x, ReadSince t n x tr ∧ x < e

/-- Thread `t` has reserved the run over the state `s` of the history `mid`, and has dispatched
    nothing since. -/
structure Took (t : Tid) (id : String) (run : RunState) (s s' : ScheduleState)
    (mid tr : History) : Prop where
  split : ∃ newer, tr = newer ++ .update (some t) (.schedule id) (.valid s') :: mid ∧
    ∀ input automatic, .note (some t) (.dispatch input automatic) ∉ newer
  holds : ∃ n, lookup (.schedule id) mid = some (n, .valid s) ∧ Reserves o t n mid s s' run

/-- The reserved run was due, by the tick of thread `t`, and a next time was read behind the
    entry of the tick. -/
structure Punctual (t : Tid) (s s' : ScheduleState) (run : RunState) (tr : History) : Prop where
  active : s.schedule.status = .active
  next : s.schedule.nextRunAt = some run.run.scheduledFor
  entered : ∃ newer x older, tr = newer ++ .note (some t) (.entered x) :: older ∧
    run.run.scheduledFor ≤ x ∧ x ≤ run.run.scheduledFor + 1000 ∧
    ∀ time, s'.schedule.nextRunAt = some time → ∃ cadence y, ReadSince t older.length y tr ∧
      nextScheduleTime o cadence y = .ok time

/-- Who has opened the record of a run for its dispatch. -/
def opener (runId : String) : ScheduleEntry → Option (Option Tid)
  | .create a (.scheduleRun r) (.valid v) =>
    if r = runId ∧ v.phase = .dispatching then some a else none
  | _ => none

/-- Who has dispatched a run. -/
def sender (runId : String) : ScheduleEntry → Option (Option Tid)
  | .note a (.dispatch input _) => if input.runId = runId then some a else none
  | _ => none

def openers (runId : String) (tr : History) : List (Option Tid) := tr.filterMap (opener runId)

def senders (runId : String) (tr : History) : List (Option Tid) := tr.filterMap (sender runId)

/-- A call that fires. -/
def Fires (calls : Calls sys) (t : Tid) : Prop :=
  ∃ height, calls t = some ⟨.tick, height⟩ ∨
    (∃ input requestId principal,
      calls t = some ⟨.handle (.create input requestId) principal, height⟩) ∨
    ∃ id requestId principal, calls t = some ⟨.handle (.runOnce id requestId) principal, height⟩

/-- A call that completes this run. -/
def Completes (calls : Calls sys) (t : Tid) (runId : String) : Prop :=
  ∃ height, (∃ outcome, calls t = some ⟨.completeRun runId outcome, height⟩) ∨
    ∃ state, calls t = some ⟨.observation state, height⟩ ∧ state.run.id = runId

/-- What stands behind a dispatch: the reservation and the record of the run, both written by the
    same thread, and no dispatch for this record yet. -/
structure Prepared (calls : Calls sys) (t : Tid) (input : ScheduleDispatch) (automatic : Bool)
    (tr : History) : Prop where
  fires : Fires calls t
  took : ∃ run s s' mid, Took o t s.schedule.id run s s' mid tr ∧
    run.run.id = input.runId ∧ input = dispatchOf s' input.runId ∧
    (∃ n, Stored tr n (.scheduleRun input.runId) (.valid run)) ∧
    (automatic = true → Punctual o t s s' run mid)
  unsent : (senders input.runId tr).count (some t) < (openers input.runId tr).count (some t)

/-- What stays of a run. -/
structure SameRun (v v' : RunState) : Prop where
  scheduleId : v'.scheduleId = v.scheduleId
  projectId : v'.projectId = v.projectId
  credentialProfile : v'.credentialProfile = v.credentialProfile
  targetWorkspaceUid : v'.targetWorkspaceUid = v.targetWorkspaceUid
  archiveOnFinish : v'.archiveOnFinish = v.archiveOnFinish
  id : v'.run.id = v.run.id
  scheduledFor : v'.run.scheduledFor = v.run.scheduledFor
  startedAt : v'.run.startedAt = v.run.startedAt

/-- How a run record changes. -/
inductive Moves (calls : Calls sys) (t : Tid) (runId : String) (tr : History) (v v' : RunState) :
    Prop
  | started {dispatched : Dispatched} (hv : v.phase = .dispatching)
      (hnote : .note (some t) (.outcome runId (.ok dispatched)) ∈ tr)
      (hv' : v' = started v dispatched) : Moves calls t runId tr v v'
  | rejected (hv : v.phase = .dispatching)
      (hnote : .note (some t) (.outcome runId (.error .rejected)) ∈ tr)
      (hv' : v'.phase = .finished) (hsame : SameRun v v') : Moves calls t runId tr v v'
  | unknown (hv : v.phase = .dispatching) (hv' : v'.phase = .unknown) (hsame : SameRun v v') :
      Moves calls t runId tr v v'
  | completed {outcome : ScheduleOutcome} {endedAt : Int} (hv : v.phase ≠ .finished)
      (hcall : Completes calls t runId) (hv' : v' = complete v outcome endedAt) :
      Moves calls t runId tr v v'

/-- A schedule as `create` stores it. -/
structure Fresh (id : String) (s : ScheduleState) : Prop where
  id : s.schedule.id = id
  totalRuns : s.totalRuns = 0
  reservations : s.reservations = []
  timed : Timed s.schedule

inductive Step (calls : Calls sys) (older : History) : ScheduleEntry → Prop
  | clock {t : Tid} {x : Int} : Step calls older (.note (some t) (.clock x))
  | entered {t : Tid} {x : Int} {before : History}
      (hclock : older = .note (some t) (.clock x) :: before) :
      Step calls older (.note (some t) (.entered x))
  | drew {t : Tid} {id : String} (hnew : ∀ a, .note a (.drew id) ∉ older) :
      Step calls older (.note (some t) (.drew id))
  | outcome {t : Tid} {runId : String} {result : Except Err Dispatched} :
      Step calls older (.note (some t) (.outcome runId result))
  | dispatch {t : Tid} {input : ScheduleDispatch} {automatic : Bool}
      (h : Prepared o calls t input automatic older) :
      Step calls older (.note (some t) (.dispatch input automatic))
  | created {t : Tid} {id : String} {s : ScheduleState}
      (hdrew : .note (some t) (.drew id) ∈ older)
      (hnew : ∀ e ∈ older, e.key? ≠ some (.schedule id)) (h : Fresh id s) :
      Step calls older (.create (some t) (.schedule id) (.valid s))
  | edited {t : Tid} {id : String} {n : Nat} {s s' : ScheduleState}
      (hold : lookup (.schedule id) older = some (n, .valid s)) (h : Edits o t n older s s') :
      Step calls older (.update (some t) (.schedule id) (.valid s'))
  | reserved {t : Tid} {id : String} {n : Nat} {s s' : ScheduleState} {run : RunState}
      (hold : lookup (.schedule id) older = some (n, .valid s))
      (h : Reserves o t n older s s' run) :
      Step calls older (.update (some t) (.schedule id) (.valid s'))
  | deleted {t : Tid} {id : String} {n : Nat} {s : ScheduleState}
      (hold : lookup (.schedule id) older = some (n, .valid s)) (h : s.reservations = []) :
      Step calls older (.delete (some t) (.schedule id))
  | opened {t : Tid} {id runId : String} {run : RunState} {s s' : ScheduleState} {mid : History}
      (hfree : lookup (.scheduleRun runId) older = none) (h : Took o t id run s s' mid older)
      (hid : run.run.id = runId) :
      Step calls older (.create (some t) (.scheduleRun runId) (.valid run))
  | presumed {t : Tid} {id runId : String} {n : Nat} {s : ScheduleState}
      {reservation run : RunState} (hfree : lookup (.scheduleRun runId) older = none)
      (hs : Stored older n (.schedule id) (.valid s)) (hmem : reservation ∈ s.reservations)
      (hid : reservation.run.id = runId)
      (hrun : run.phase = .unknown) (hsame : SameRun reservation run) :
      Step calls older (.create (some t) (.scheduleRun runId) (.valid run))
  | moved {t : Tid} {runId : String} {n : Nat} {v v' : RunState}
      (hold : lookup (.scheduleRun runId) older = some (n, .valid v))
      (h : Moves calls t runId older v v') :
      Step calls older (.update (some t) (.scheduleRun runId) (.valid v'))
  | removed {t : Tid} {runId : String} {n : Nat} {v : RunState}
      (hold : lookup (.scheduleRun runId) older = some (n, .valid v))
      (h : v.phase = .finished ∨ .delete (some t) (.schedule v.scheduleId) ∈ older) :
      Step calls older (.delete (some t) (.scheduleRun runId))

variable {o}

theorem Fires.mono {calls calls' : Calls sys} (hle : calls.Le calls') {t : Tid}
    (h : Fires calls t) : Fires calls' t := by
  obtain ⟨height, h | ⟨input, requestId, principal, h⟩ | ⟨id, requestId, principal, h⟩⟩ := h
  · exact ⟨height, .inl (hle _ _ h)⟩
  · exact ⟨height, .inr (.inl ⟨input, requestId, principal, hle _ _ h⟩)⟩
  · exact ⟨height, .inr (.inr ⟨id, requestId, principal, hle _ _ h⟩)⟩

theorem Completes.mono {calls calls' : Calls sys} (hle : calls.Le calls') {t : Tid}
    {runId : String} (h : Completes calls t runId) : Completes calls' t runId := by
  obtain ⟨height, ⟨outcome, h⟩ | ⟨state, h, hid⟩⟩ := h
  · exact ⟨height, .inl ⟨outcome, hle _ _ h⟩⟩
  · exact ⟨height, .inr ⟨state, hle _ _ h, hid⟩⟩

theorem Moves.mono {calls calls' : Calls sys} (hle : calls.Le calls') {t : Tid} {runId : String}
    {tr : History} {v v' : RunState} (h : Moves calls t runId tr v v') :
    Moves calls' t runId tr v v' := by
  rcases h with ⟨hv, hnote, hv'⟩ | ⟨hv, hnote, hv', hsame⟩ | ⟨hv, hv', hsame⟩ | ⟨hv, hcall, hv'⟩
  · exact .started hv hnote hv'
  · exact .rejected hv hnote hv' hsame
  · exact .unknown hv hv' hsame
  · exact .completed hv (hcall.mono hle) hv'

variable (o)

def law : Law sys where
  step := Step o
  mono := by
    intro calls calls' older e hle h
    cases h with
    | clock => exact .clock
    | entered hclock => exact .entered hclock
    | drew hnew => exact .drew hnew
    | outcome => exact .outcome
    | dispatch h => exact .dispatch ⟨h.fires.mono hle, h.took, h.unsent⟩
    | created hdrew hnew h => exact .created hdrew hnew h
    | edited hold h => exact .edited hold h
    | reserved hold h => exact .reserved hold h
    | deleted hold h => exact .deleted hold h
    | opened hfree h hid => exact .opened hfree h hid
    | presumed hfree hs hmem hid hrun hsame => exact .presumed hfree hs hmem hid hrun hsame
    | moved hold h => exact .moved hold (h.mono hle)
    | removed hold h => exact .removed hold h

abbrev Legal (calls : Calls sys) (tr : History) : Prop := (law o).Legal calls tr

end Law

/-! ### What a step does to one record -/

section Inversion

variable {o : Options} {calls : Calls sys} {older : History} {e : ScheduleEntry}
  {id runId : String}

/-- What the law lets happen to a schedule. -/
theorem Step.schedule (h : Step o calls older e) (hkey : e.key? = some (.schedule id)) :
    (∃ t s, e = .create (some t) (.schedule id) (.valid s) ∧ .note (some t) (.drew id) ∈ older ∧
      (∀ e ∈ older, e.key? ≠ some (.schedule id)) ∧ Fresh id s) ∨
    ∃ n s, lookup (.schedule id) older = some (n, .valid s) ∧
      ((∃ t, e = .delete (some t) (.schedule id) ∧ s.reservations = []) ∨
        ∃ t s', e = .update (some t) (.schedule id) (.valid s') ∧
          (Edits o t n older s s' ∨ ∃ run, Reserves o t n older s s' run)) := by
  cases h with
  | clock | entered _ | drew _ | outcome | dispatch _ => cases hkey
  | created hdrew hnew hfresh =>
    cases hkey
    exact .inl ⟨_, _, rfl, hdrew, hnew, hfresh⟩
  | edited hold hedits =>
    cases hkey
    exact .inr ⟨_, _, hold, .inr ⟨_, _, rfl, .inl hedits⟩⟩
  | reserved hold hreserves =>
    cases hkey
    exact .inr ⟨_, _, hold, .inr ⟨_, _, rfl, .inr ⟨_, hreserves⟩⟩⟩
  | deleted hold hnone =>
    cases hkey
    exact .inr ⟨_, _, hold, .inl ⟨_, rfl, hnone⟩⟩
  | opened _ _ _ => cases hkey
  | presumed _ _ _ _ _ _ => cases hkey
  | moved _ _ => cases hkey
  | removed _ _ => cases hkey

/-- What a run record is opened with: a reservation of the run that was stored. -/
structure Opens (runId : String) (older : History) (run : RunState) : Prop where
  reserved : ∃ n id s reservation, Stored older n (.schedule id) (.valid s) ∧
    reservation ∈ s.reservations ∧ reservation.run.id = runId ∧ SameRun reservation run
  phase : run.phase = .dispatching ∨ run.phase = .unknown

theorem Took.opens {t : Tid} {run : RunState} {s s' : ScheduleState} {mid : History}
    (h : Took o t id run s s' mid older) : Opens run.run.id older run := by
  obtain ⟨newer, hsplit, -⟩ := h.split
  obtain ⟨n, -, hreserves⟩ := h.holds
  obtain ⟨updatedAt, nextRunAt, hs', -⟩ := hreserves.state
  obtain ⟨scheduledFor, startedAt, hrun⟩ := hreserves.made
  refine ⟨⟨mid.length, id, s', run, ⟨newer, _, mid, hsplit, rfl, Entry.puts_update_self _ _ _⟩, ?_,
    rfl, rfl, rfl, rfl, rfl, rfl, rfl, rfl, rfl⟩, .inl ?_⟩
  · rw [hs']
    simp only [reserved]
    split <;> simp
  · rw [hrun]
    rfl

/-- What the law lets happen to a run record. -/
theorem Step.run (h : Step o calls older e) (hkey : e.key? = some (.scheduleRun runId)) :
    (lookup (.scheduleRun runId) older = none ∧ ∃ t run,
      e = .create (some t) (.scheduleRun runId) (.valid run) ∧ Opens runId older run) ∨
    ∃ n v, lookup (.scheduleRun runId) older = some (n, .valid v) ∧
      ((∃ t, e = .delete (some t) (.scheduleRun runId) ∧
          (v.phase = .finished ∨ .delete (some t) (.schedule v.scheduleId) ∈ older)) ∨
        ∃ t v', e = .update (some t) (.scheduleRun runId) (.valid v') ∧
          Moves calls t runId older v v') := by
  cases h with
  | clock | entered _ | drew _ | outcome | dispatch _ => cases hkey
  | created _ _ _ => cases hkey
  | edited _ _ => cases hkey
  | reserved _ _ => cases hkey
  | deleted _ _ => cases hkey
  | opened hfree htook hid =>
    cases hkey
    exact .inl ⟨hfree, _, _, rfl, hid ▸ htook.opens⟩
  | presumed hfree hs hmem hid hrun hsame =>
    cases hkey
    exact .inl ⟨hfree, _, _, rfl, ⟨_, _, _, _, hs, hmem, hid, hsame⟩, .inr hrun⟩
  | moved hold hmoves =>
    cases hkey
    exact .inr ⟨_, _, hold, .inr ⟨_, _, rfl, hmoves⟩⟩
  | removed hold hdone =>
    cases hkey
    exact .inr ⟨_, _, hold, .inl ⟨_, rfl, hdone⟩⟩

end Inversion

/-! ### What is stored -/

/-- What holds of every stored schedule. -/
structure WellKept (id : String) (s : ScheduleState) : Prop where
  id : s.schedule.id = id
  distinct : (s.reservations.map (·.run.id)).Nodup
  few : s.reservations.length ≤ 16
  own : ∀ r ∈ s.reservations, r.scheduleId = s.schedule.id ∧ r.phase = .dispatching
  timed : Timed s.schedule

theorem Fresh.wellKept {id : String} {s : ScheduleState} (h : Fresh id s) : WellKept id s where
  id := h.id
  distinct := by simp [h.reservations]
  few := by simp [h.reservations]
  own := by simp [h.reservations]
  timed := h.timed

section Facts

variable {o : Options} {calls : Calls sys} {tr older : History} {t : Tid} {id : String}
  {n : Nat} {s s' : ScheduleState} {run : RunState}

theorem Edits.wellKept (h : Edits o t n older s s') (hs : WellKept id s) : WellKept id s' := by
  obtain ⟨gone, hfilter, -⟩ := h.reservations
  refine ⟨h.id.trans hs.id, ?_, ?_, ?_, h.timed hs.timed⟩
  · rw [hfilter]
    exact hs.distinct.sublist (List.filter_sublist.map _)
  · rw [hfilter]
    exact (List.length_filter_le _ _).trans hs.few
  · rw [hfilter]
    exact fun r hr => h.id ▸ hs.own r (List.mem_of_mem_filter hr)

@[simp] theorem reserved_reservations (run : RunState) (updatedAt : Int) (nextRunAt : Option Int) :
    (reserved s run updatedAt nextRunAt).reservations = s.reservations ++ [run] := by
  simp only [reserved]
  split <;> rfl

@[simp] theorem reserved_totalRuns (run : RunState) (updatedAt : Int) (nextRunAt : Option Int) :
    (reserved s run updatedAt nextRunAt).totalRuns = s.totalRuns + 1 := by
  simp only [reserved]
  split <;> rfl

@[simp] theorem reserved_id (run : RunState) (updatedAt : Int) (nextRunAt : Option Int) :
    (reserved s run updatedAt nextRunAt).schedule.id = s.schedule.id := by
  simp only [reserved]
  split <;> rfl

/-- The reserved state keeps the status and has the next time, or it is completed. -/
theorem reserved_timed (run : RunState) (updatedAt : Int) (nextRunAt : Option Int) :
    ((reserved s run updatedAt nextRunAt).schedule.status = s.schedule.status ∧
      (reserved s run updatedAt nextRunAt).schedule.nextRunAt = nextRunAt) ∨
    ((reserved s run updatedAt nextRunAt).schedule.status = .completed ∧
      (reserved s run updatedAt nextRunAt).schedule.nextRunAt = none) := by
  simp only [reserved]
  split
  · exact .inr ⟨rfl, rfl⟩
  · exact .inl ⟨rfl, rfl⟩

theorem Reserves.timed (h : Reserves o t n older s s' run) (hs : Timed s.schedule) :
    Timed s'.schedule := by
  obtain ⟨updatedAt, nextRunAt, rfl, hactive, hother⟩ := h.state
  rcases reserved_timed (s := s) run updatedAt nextRunAt with ⟨hstatus, hnext⟩ | ⟨hstatus, hnext⟩
  · rw [Timed, hstatus, hnext]
    by_cases hwas : s.schedule.status = .active
    · obtain ⟨x, next, -, -, rfl⟩ := hactive hwas
      simp [hwas]
    · rw [hother hwas]
      exact hs
  · simp [Timed, hstatus, hnext]

theorem blocked_lt (h : blocked s = false) : s.reservations.length < 16 := by
  simp only [blocked, Bool.or_eq_false_iff, decide_eq_false_iff_not] at h
  omega

theorem Reserves.wellKept (h : Reserves o t n older s s' run) (hs : WellKept id s) :
    WellKept id s' := by
  have htimed := h.timed hs.timed
  obtain ⟨scheduledFor, startedAt, hrun⟩ := h.made
  obtain ⟨updatedAt, nextRunAt, rfl, -, -⟩ := h.state
  refine ⟨(reserved_id run updatedAt nextRunAt).trans hs.id, ?_, ?_, ?_, htimed⟩
  · rw [reserved_reservations, List.map_append, List.nodup_append]
    refine ⟨hs.distinct, by simp, ?_⟩
    intro a ha b hb
    obtain ⟨r, hr, rfl⟩ := List.mem_map.mp ha
    obtain rfl : b = run.run.id := by simpa using hb
    exact h.fresh r hr
  · rw [reserved_reservations, List.length_append]
    exact blocked_lt h.free
  · rw [reserved_reservations]
    intro r hr
    rw [reserved_id]
    rcases List.mem_append.mp hr with hold | hnew
    · exact hs.own r hold
    · obtain rfl := List.mem_singleton.mp hnew
      rw [hrun]
      exact ⟨rfl, rfl⟩

/-- Every stored schedule is well kept. -/
theorem Legal.scheduled (h : Legal o calls tr) {raw : Raw ScheduleState}
    (hs : Stored tr n (.schedule id) raw) : ∃ s, raw = .valid s ∧ WellKept id s := by
  induction tr generalizing n raw with
  | nil =>
    obtain ⟨newer, e, older, htr, -, -⟩ := hs
    cases newer <;> cases htr
  | cons e older ih =>
    rcases hs.cons_cases with ⟨hputs, -⟩ | hs
    · rcases Step.schedule h.2 (Entry.key_of_puts hputs) with
        ⟨t, s, rfl, -, -, hfresh⟩ | ⟨m, s, hold, ⟨t, rfl, -⟩ | ⟨t, s', rfl, hstep⟩⟩
      · cases Entry.puts_create hputs
        exact ⟨s, rfl, hfresh.wellKept⟩
      · cases hputs
      · cases Entry.puts_update hputs
        obtain ⟨_, heq, hkept⟩ := ih h.1 (lookup_stored hold)
        cases heq
        rcases hstep with hedits | ⟨run, hreserves⟩
        · exact ⟨s', rfl, hedits.wellKept hkept⟩
        · exact ⟨s', rfl, hreserves.wellKept hkept⟩
    · exact ih h.1 hs

theorem Moves.same {runId : String} {v v' : RunState} (h : Moves calls t runId tr v v') :
    SameRun v v' := by
  rcases h with ⟨-, -, rfl⟩ | ⟨-, -, -, hsame⟩ | ⟨-, -, hsame⟩ | ⟨-, -, rfl⟩
  · exact ⟨rfl, rfl, rfl, rfl, rfl, rfl, rfl, rfl⟩
  · exact hsame
  · exact hsame
  · exact ⟨rfl, rfl, rfl, rfl, rfl, rfl, rfl, rfl⟩

/-- Every stored run record is stored under its run id. -/
theorem Legal.recorded (h : Legal o calls tr) {runId : String} {raw : Raw RunState}
    (hs : Stored tr n (.scheduleRun runId) raw) : ∃ v, raw = .valid v ∧ v.run.id = runId := by
  induction tr generalizing n raw with
  | nil =>
    obtain ⟨newer, e, older, htr, -, -⟩ := hs
    cases newer <;> cases htr
  | cons e older ih =>
    rcases hs.cons_cases with ⟨hputs, -⟩ | hs
    · rcases Step.run h.2 (Entry.key_of_puts hputs) with
        ⟨-, t, run, rfl, hopens⟩ | ⟨m, v, hold, ⟨t, rfl, -⟩ | ⟨t, v', rfl, hmoves⟩⟩
      · cases Entry.puts_create hputs
        obtain ⟨_, _, _, reservation, -, -, hid, hsame⟩ := hopens.reserved
        exact ⟨run, rfl, hsame.id.trans hid⟩
      · cases hputs
      · cases Entry.puts_update hputs
        obtain ⟨_, heq, hv⟩ := ih h.1 (lookup_stored hold)
        cases heq
        exact ⟨v', rfl, hmoves.same.id.trans hv⟩
    · exact ih h.1 hs

/-- The id of a schedule was drawn before anything was stored under it. -/
theorem Legal.drawn (h : Legal o calls tr) {e : ScheduleEntry} (he : e ∈ tr)
    (hkey : e.key? = some (.schedule id)) :
    ∃ u s, .create (some u) (.schedule id) (.valid s) ∈ tr ∧ .note (some u) (.drew id) ∈ tr := by
  induction tr generalizing e with
  | nil => cases he
  | cons e' older ih =>
    have hlater (h : ∃ u s, .create (some u) (.schedule id) (.valid s) ∈ older ∧
        .note (some u) (.drew id) ∈ older) :
        ∃ u s, .create (some u) (.schedule id) (.valid s) ∈ e' :: older ∧
          .note (some u) (.drew id) ∈ e' :: older :=
      h.imp fun u h => h.imp fun s h =>
        ⟨List.mem_cons_of_mem _ h.1, List.mem_cons_of_mem _ h.2⟩
    rcases List.mem_cons.mp he with rfl | he
    · rcases Step.schedule h.2 hkey with ⟨t, s, rfl, hdrew, -, -⟩ | ⟨n, s, hold, -⟩
      · exact ⟨t, s, List.mem_cons_self, List.mem_cons_of_mem _ hdrew⟩
      · obtain ⟨newer, e'', older', rfl, -, hputs⟩ := lookup_stored hold
        exact hlater (ih h.1 (e := e'') (by simp) (Entry.key_of_puts hputs))
    · exact hlater (ih h.1 he hkey)

/-- An id is drawn once. -/
theorem Legal.drew_unique (h : Legal o calls tr) {u : Tid} (ht : .note (some t) (.drew id) ∈ tr)
    (hu : .note (some u) (.drew id) ∈ tr) : t = u := by
  induction tr with
  | nil => cases ht
  | cons e older ih =>
    rcases List.mem_cons.mp ht with rfl | ht' <;> rcases List.mem_cons.mp hu with heq | hu'
    · cases heq
      rfl
    · cases h.2 with
      | drew hnew => exact absurd hu' (hnew _)
    · subst heq
      cases h.2 with
      | drew hnew => exact absurd ht' (hnew _)
    · exact ih h.1 ht' hu'

end Facts

end PaseoGateway.ScheduleService

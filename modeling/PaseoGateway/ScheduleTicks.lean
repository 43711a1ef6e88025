/-
  PaseoGateway/ScheduleTicks.lean
  ===============================
  **What one schedule's turn costs the schedules behind it.**

  A tick takes its schedules one after the other, and what is thrown in the turn of one ends
  the tick.  `Passes` says from the answers given in a turn whether the tick goes on
  (`visit_passes`), and `Taken` whether the run of the schedule is dispatched in it
  (`visit_fires`); the loop fires a schedule exactly when it is taken in its turn and all turns
  before it have passed (`eachSchedule_fires`).
-/
import PaseoGateway.AsyncRuns
import PaseoGateway.ScheduleService

namespace PaseoGateway.ScheduleService

open Async Prog

abbrev Log : Type := List (Event sys.iface)

/-! ### Runs of one request -/

section Requests

variable {α : Type} {log : Log}

/-- What is left to run behind a store request, or the error it ends with. -/
def Then {q : StoreReq Key Val} (f : q.Ans → Task α) (rest : Log) (out : Except Err α) :
    q.Res → Prop
  | .error e => rest = [] ∧ out = .error (.store e)
  | .ok a => Ran (f a) rest out

theorem ran_await_bind {q : StoreReq Key Val} {f : q.Ans → Task α} {out : Except Err α} :
    Ran (await (S := sys) q >>= f) log out ↔
      ∃ r rest, log = ⟨.store q, r⟩ :: rest ∧ Then f rest out r := by
  simp only [await, call_bind, ran_call]
  refine exists_congr fun r => exists_congr fun rest => and_congr_right fun _ => ?_
  rcases r with e | a
  · exact ran_fail
  · exact Iff.rfl

theorem ran_ask_bind {x : Ext} {f : x.Res → Task α} {out : Except Err α} :
    Ran (ask (S := sys) x >>= f) log out ↔
      ∃ r rest, log = ⟨.ext x, r⟩ :: rest ∧ Ran (f r) rest out := by
  simp only [ask, call_bind, ran_call, ret_bind]

theorem ran_ask {x : Ext} {out : Except Err x.Res} :
    Ran (ask (S := sys) x) log out ↔ ∃ r, log = [⟨.ext x, r⟩] ∧ out = .ok r := by
  simp only [ask, ran_call, ran_ret]
  constructor
  · rintro ⟨r, rest, rfl, rfl, rfl⟩
    exact ⟨r, rfl, rfl⟩
  · rintro ⟨r, rfl, rfl⟩
    exact ⟨r, [], rfl, rfl, rfl⟩

theorem ran_save {id : String} {version : Nat} {state : ScheduleState} {out : Except Err Unit} :
    Ran (save id version state) log out ↔
      ∃ r : Except StoreErr Nat,
        log = [⟨.store (.update (.schedule id) version (.valid state)), r⟩] ∧
          out = (r.mapError .store).map fun _ => () := by
  rw [save, ran_await_bind]
  constructor
  · rintro ⟨r, rest, rfl, h⟩
    rcases r with e | n
    · obtain ⟨rfl, rfl⟩ := h
      exact ⟨.error e, rfl, rfl⟩
    · obtain ⟨rfl, rfl⟩ := ran_ret.mp h
      exact ⟨.ok n, rfl, rfl⟩
  · rintro ⟨r, rfl, rfl⟩
    rcases r with e | n
    · exact ⟨.error e, [], rfl, rfl, rfl⟩
    · exact ⟨.ok n, [], rfl, .ret ()⟩

theorem ran_save_bind {id : String} {version : Nat} {state : ScheduleState} {f : Unit → Task α}
    {out : Except Err α} :
    Ran (save id version state >>= f) log out ↔
      ∃ (r : Except StoreErr Nat) (rest : Log),
        log = ⟨.store (.update (.schedule id) version (.valid state)), r⟩ :: rest ∧
          match r with
          | .error e => rest = [] ∧ out = .error (.store e)
          | .ok _ => Ran (f ()) rest out := by
  rw [save, bind_assoc', ran_await_bind]
  refine exists_congr fun r => exists_congr fun rest => and_congr_right fun _ => ?_
  rcases r with e | n <;> exact Iff.rfl

end Requests

/-! ### The answers given in a fire -/

variable {o : Options} {tickTime due : Int} {id key runId : String}

/-- The readings of the clock. -/
def instants (log : Log) : List Int :=
  log.filterMap fun
    | ⟨.ext .now, instant⟩ => some instant
    | _ => none

theorem instants_append (before after : Log) :
    instants (before ++ after) = instants before ++ instants after :=
  List.filterMap_append

/-- The occurrence is gone from the record, or reserved already. -/
def Over (due : Int) (runId : String) (state : ScheduleState) : Prop :=
  state.schedule.status ≠ .active ∨ state.schedule.nextRunAt ≠ some due ∨
    state.reservations.any (·.run.id = runId) = true

/-- The record admits a run and has a next time. -/
def Clear (o : Options) (clock : List Int) (state : ScheduleState) : Prop :=
  (∀ instant, clock.head? = some instant → expiredAt state.schedule instant = false) ∧
    spent state = false ∧ blocked state = false ∧
    ∀ instant, clock.getLast? = some instant →
      ∃ next, nextScheduleTime o state.schedule.cadence instant = .ok next

/-- An answer that does not end the tick. -/
def Fine (o : Options) (due : Int) (runId : String) (clock : List Int) : Event sys.iface → Prop
  | ⟨.store (.get (.schedule _)), .ok found⟩ =>
    ∃ version state, found = some (version, .valid state) ∧
      (Over due runId state ∨ Clear o clock state)
  | ⟨.store _, .error e⟩ => e = .conflict
  | ⟨.ext (.fire _ _ _), found⟩ => found ≠ .stopping
  | ⟨.ext (.preparation _), .error e⟩ => e = .capacity ∨ e.isConflict = true
  | ⟨.ext .stopping, stopping⟩ => stopping = false
  | _ => True

/-- An answer that lets a due schedule come to its dispatch. -/
def Granted (o : Options) (due : Int) (runId : String) (clock : List Int) :
    Event sys.iface → Prop
  | ⟨.store (.get (.scheduleRun _)), .ok found⟩ => found = none
  | ⟨.store (.get (.schedule _)), .ok found⟩ =>
    ∃ version state, found = some (version, .valid state) ∧
      ¬ Over due runId state ∧ Clear o clock state
  | ⟨.store _, .error _⟩ => False
  | ⟨.ext .saturated, saturated⟩ => saturated = false
  | ⟨.ext (.fire _ _ _), found⟩ => found = .go
  | _ => True

section Fire

variable {log : Log}

theorem ran_now_bind {α : Type} {f : Int → Task α} {out : Except Err α} :
    Ran (now >>= f) log out ↔
      ∃ (instant : Int) (rest : Log), log = ⟨.ext .now, instant⟩ :: rest ∧
        Ran (f instant) rest out := ran_ask_bind

/-- An error of a cadence is none of the store. -/
theorem nextScheduleTime_error {cadence : Cadence} {after : Int} {e : Err}
    (h : nextScheduleTime o cadence after = .error e) : ∃ message, e = .error message := by
  unfold nextScheduleTime at h
  split at h
  · split at h
    · cases h
      exact ⟨_, rfl⟩
    · split at h
      · cases h
        exact ⟨_, rfl⟩
      · cases h
  · split at h
    · cases h
    · cases h
      exact ⟨_, rfl⟩

/-- Only readings of the clock. -/
def Nows (log : Log) : Prop := ∀ event ∈ log, event.1 = .ext .now

theorem Nows.append {before after : Log} (h : Nows before) (h' : Nows after) :
    Nows (before ++ after) :=
  List.forall_mem_append.mpr ⟨h, h'⟩

theorem nows_nil : Nows [] := by simp [Nows]

theorem Nows.cons {instant : Int} (h : Nows log) : Nows (⟨.ext .now, instant⟩ :: log) :=
  List.forall_mem_cons.mpr ⟨rfl, h⟩

theorem Nows.fine (h : Nows log) (clock : List Int) :
    ∀ event ∈ log, Fine o due runId clock event := by
  rintro ⟨q, r⟩ hmem
  obtain rfl : q = .ext .now := h _ hmem
  trivial

theorem Nows.granted (h : Nows log) (clock : List Int) :
    ∀ event ∈ log, Granted o due runId clock event := by
  rintro ⟨q, r⟩ hmem
  obtain rfl : q = .ext .now := h _ hmem
  trivial

theorem ran_expired {schedule : StoredSchedule} {out : Except Err Bool}
    (h : Ran (expired schedule) log out) : ∃ late, out = .ok late ∧ Nows log ∧
      ∀ rest, (∀ instant, (instants (log ++ rest)).head? = some instant →
        expiredAt schedule instant = false) ↔ late = false := by
  unfold expired at h
  split at h
  · next hnone =>
    obtain ⟨rfl, rfl⟩ := ran_ret.mp h
    exact ⟨false, rfl, nows_nil, fun rest => by simp [expiredAt, hnone]⟩
  · next expiresAt hsome =>
    obtain ⟨instant, rest, rfl, hret⟩ := ran_now_bind.mp h
    obtain ⟨rfl, rfl⟩ := ran_ret.mp hret
    exact ⟨_, rfl, nows_nil.cons, fun rest => by simp [instants, expiredAt, hsome]⟩

/-- Errors that a tick passes over. -/
def Passing {α : Type} (out : Except Err α) : Prop :=
  ∀ e, out = .error e → e = .capacity ∨ e.isConflict = true

theorem passing_ok {α : Type} (a : α) : Passing (.ok a) := by
  rintro e ⟨⟩

theorem passing_store {α : Type} {e : StoreErr} :
    Passing (.error (.store e) : Except Err α) ↔ e = .conflict := by
  simp [Passing, Err.isConflict]

theorem not_passing {α : Type} {message : String} :
    ¬ Passing (.error (.error message) : Except Err α) := by
  simp [Passing, Err.isConflict]

/-- The two writes that take the slot. -/
inductive Writes (id : String) (due : Int) (runId : String) : Log → Except Err Reserved → Prop
  | unsaved {version : Nat} {state : ScheduleState} (e : StoreErr) :
      Writes id due runId [⟨.store (.update (.schedule id) version (.valid state)), .error e⟩]
        (.error (.store e))
  | uncreated {version written : Nat} {state : ScheduleState} {run : RunState} (e : StoreErr) :
      Writes id due runId [⟨.store (.update (.schedule id) version (.valid state)), .ok written⟩,
        ⟨.store (.create (.scheduleRun runId) (.valid run)), .error e⟩] (.error (.store e))
  | both {version written : Nat} (slot : Reserved) (schedule : slot.run.scheduleId = id)
      (occurrence : slot.run.run.scheduledFor = due) :
      Writes id due runId
        [⟨.store (.update (.schedule id) version (.valid slot.state)), .ok written⟩,
          ⟨.store (.create (.scheduleRun runId) (.valid slot.run)), .ok slot.persisted⟩] (.ok slot)

section Writes

variable {out : Except Err Reserved}

theorem Writes.instants_eq (h : Writes id due runId log out) : instants log = [] := by
  cases h <;> rfl

theorem Writes.fine (h : Writes id due runId log out) (clock : List Int) :
    Passing out ↔ ∀ event ∈ log, Fine o due runId clock event := by
  cases h <;> simp [passing_store, passing_ok, Fine]

theorem Writes.granted (h : Writes id due runId log out) (clock : List Int) :
    (∃ slot, out = .ok slot) ↔ ∀ event ∈ log, Granted o due runId clock event := by
  cases h <;> simp [Granted]

/-- Taking the slot fails only through the cadence or the store. -/
theorem ran_takeSlot {version : Nat} {state : ScheduleState}
    (h : Ran (takeSlot o id version state due runId) log out)
    (hactive : state.schedule.status = .active) :
    ∃ (clock rest : Log) (after : Int), log = clock ++ rest ∧ Nows clock ∧
      (instants clock).getLast? = some after ∧
      ((∃ message, nextScheduleTime o state.schedule.cadence after = .error (.error message) ∧
          rest = [] ∧ out = .error (.error message)) ∨
        ∃ next, nextScheduleTime o state.schedule.cadence after = .ok next ∧
          Writes id due runId rest out) := by
  obtain ⟨started, _, rfl, hupdated⟩ := ran_now_bind.mp h
  obtain ⟨updated, _, rfl, htime⟩ := ran_now_bind.mp hupdated
  rw [nextTime, if_pos hactive, bind_assoc'] at htime
  obtain ⟨after, rest, rfl, hrest⟩ := ran_now_bind.mp htime
  refine ⟨[⟨.ext .now, started⟩, ⟨.ext .now, updated⟩, ⟨.ext .now, after⟩], rest, after, rfl,
    nows_nil.cons.cons.cons, rfl, ?_⟩
  rcases hnext : nextScheduleTime o state.schedule.cadence after with e | next
  · rw [hnext] at hrest
    obtain ⟨message, rfl⟩ := nextScheduleTime_error hnext
    obtain ⟨rfl, rfl⟩ := ran_fail.mp hrest
    exact .inl ⟨message, rfl, rfl, rfl⟩
  · rw [hnext] at hrest
    simp only [Prog.ofExcept, ret_bind] at hrest
    refine .inr ⟨next, rfl, ?_⟩
    obtain ⟨r, last, rfl, hsaved⟩ := ran_save_bind.mp hrest
    rcases r with e | n
    · obtain ⟨rfl, rfl⟩ := hsaved
      exact .unsaved e
    · obtain ⟨r, last', rfl, hcreated⟩ := ran_await_bind.mp hsaved
      rcases r with e | persisted
      · obtain ⟨rfl, rfl⟩ := hcreated
        exact .uncreated e
      · obtain ⟨rfl, rfl⟩ := ran_ret.mp hcreated
        exact .both ⟨_, _, persisted⟩ rfl rfl

end Writes

/-- How the reservation of an automatic fire ends. -/
inductive Reserving (o : Options) (id : String) (due : Int) (runId : String) :
    Log → Except Err (Option Reserved) → Prop
  | unlooked (e : StoreErr) :
      Reserving o id due runId [⟨.store (.get (.scheduleRun runId)), .error e⟩] (.error (.store e))
  | recorded (found : Nat × Raw RunState) :
      Reserving o id due runId [⟨.store (.get (.scheduleRun runId)), .ok (some found)⟩] (.ok none)
  | unread (e : StoreErr) :
      Reserving o id due runId [⟨.store (.get (.scheduleRun runId)), .ok none⟩,
        ⟨.store (.get (.schedule id)), .error e⟩] (.error (.store e))
  | missing :
      Reserving o id due runId [⟨.store (.get (.scheduleRun runId)), .ok none⟩,
        ⟨.store (.get (.schedule id)), .ok none⟩] (.error (.error "Schedule does not exist"))
  | malformed (version : Nat) :
      Reserving o id due runId [⟨.store (.get (.scheduleRun runId)), .ok none⟩,
        ⟨.store (.get (.schedule id)), .ok (some (version, .malformed))⟩]
        (.error (.error "Invalid record"))
  | passed (version : Nat) (state : ScheduleState) (h : Over due runId state) :
      Reserving o id due runId [⟨.store (.get (.scheduleRun runId)), .ok none⟩,
        ⟨.store (.get (.schedule id)), .ok (some (version, .valid state))⟩] (.ok none)
  | refused (version : Nat) (state : ScheduleState) (clock : Log) (message : String)
      (still : ¬ Over due runId state) (nows : Nows clock)
      (unclear : ¬ Clear o (instants clock) state) :
      Reserving o id due runId (⟨.store (.get (.scheduleRun runId)), .ok none⟩ ::
        ⟨.store (.get (.schedule id)), .ok (some (version, .valid state))⟩ :: clock)
        (.error (.error message))
  | written (version : Nat) (state : ScheduleState) (clock writes : Log)
      (slot : Except Err Reserved) (still : ¬ Over due runId state) (nows : Nows clock)
      (clear : Clear o (instants clock) state) (h : Writes id due runId writes slot) :
      Reserving o id due runId (⟨.store (.get (.scheduleRun runId)), .ok none⟩ ::
        ⟨.store (.get (.schedule id)), .ok (some (version, .valid state))⟩ :: (clock ++ writes))
        (slot.map some)

section Reserving

variable {out : Except Err (Option Reserved)}

/-- The checks refuse, or the slot is taken. -/
theorem admitted {version : Nat} {state : ScheduleState} {late : Bool}
    (h : Ran (if late = true ∨ spent state = true then
        .fail (.error "Schedule has reached its expiration or run limit")
      else if blocked state = true then
        .fail (.error
          "Schedule has an active or unknown run; concurrency policy forbids dispatch")
      else do
        let slot ← takeSlot o id version state due runId
        .ret (some slot)) log out) :
    ((late = true ∨ spent state = true ∨ blocked state = true) ∧ log = [] ∧
        ∃ message, out = .error (.error message)) ∨
      late = false ∧ spent state = false ∧ blocked state = false ∧
        ∃ slot, Ran (takeSlot o id version state due runId) log slot ∧ out = slot.map some := by
  split at h
  · next hover =>
    obtain ⟨rfl, rfl⟩ := ran_fail.mp h
    exact .inl ⟨hover.imp_right .inl, rfl, _, rfl⟩
  next hover =>
  simp only [not_or, Bool.not_eq_true] at hover
  split at h
  · next hblocked =>
    obtain ⟨rfl, rfl⟩ := ran_fail.mp h
    exact .inl ⟨.inr (.inr hblocked), rfl, _, rfl⟩
  next hblocked =>
  refine .inr ⟨hover.1, hover.2, by simpa using hblocked, ?_⟩
  rcases ran_bind.mp h with ⟨e, rfl, hslot⟩ | ⟨slot, before, after, rfl, hslot, hret⟩
  · exact ⟨_, hslot, rfl⟩
  · obtain ⟨rfl, rfl⟩ := ran_ret.mp hret
    exact ⟨_, by simpa using hslot, rfl⟩

/-- The checks behind a record that still has the occurrence. -/
theorem reserving_checked {version : Nat} {state : ScheduleState} {rest : Log}
    (hstill : ¬ Over due runId state)
    (h : Ran (do
      let late ← expired state.schedule
      if late = true ∨ spent state = true then
        .fail (.error "Schedule has reached its expiration or run limit")
      else if blocked state = true then
        .fail (.error
          "Schedule has an active or unknown run; concurrency policy forbids dispatch")
      else do
        let slot ← takeSlot o id version state due runId
        .ret (some slot)) rest out) :
    Reserving o id due runId (⟨.store (.get (.scheduleRun runId)), .ok none⟩ ::
      ⟨.store (.get (.schedule id)), .ok (some (version, .valid state))⟩ :: rest) out := by
  rcases ran_bind.mp h with ⟨e, rfl, hclock⟩ | ⟨late, first, last, rfl, hclock, hover⟩
  · obtain ⟨late, he, -⟩ := ran_expired hclock
    cases he
  obtain ⟨late', heq, hnows, hhead⟩ := ran_expired hclock
  cases heq
  have hopen := hhead []
  rw [List.append_nil] at hopen
  rcases admitted hover with ⟨hrefused, rfl, message, rfl⟩ |
    ⟨hlate, hspent, hblocked, slot, hslot, rfl⟩
  · rw [List.append_nil]
    refine .refused version state first message hstill hnows fun hclear => ?_
    simp [hopen.mp hclear.1, hclear.2.1, hclear.2.2.1] at hrefused
  obtain ⟨clock, writes, after, rfl, hclock', hlast, hwrites⟩ :=
    ran_takeSlot hslot (by simpa [Over] using fun h => hstill (.inl h))
  have hlast' : (instants (first ++ clock)).getLast? = some after := by
    simp [instants_append, List.getLast?_append, hlast]
  rcases hwrites with ⟨message, hnext, rfl, rfl⟩ | ⟨next, hnext, hwrites⟩
  · rw [List.append_nil]
    refine .refused version state _ message hstill (hnows.append hclock') fun hclear => ?_
    obtain ⟨next, hnext'⟩ := hclear.2.2.2 after hlast'
    cases hnext.symm.trans hnext'
  · rw [← List.append_assoc]
    refine .written version state _ writes slot hstill (hnows.append hclock')
      ⟨(hhead clock).mpr hlate, hspent, hblocked, fun instant hinstant => ?_⟩ hwrites
    cases hlast'.symm.trans hinstant
    exact ⟨next, hnext⟩

theorem ran_reserve (h : Ran (reserve o id due runId true) log out) :
    Reserving o id due runId log out := by
  obtain ⟨r, rest, rfl, hfound⟩ := ran_await_bind.mp h
  rcases r with e | found
  · obtain ⟨rfl, rfl⟩ := hfound
    exact .unlooked e
  rcases found with _ | found
  swap
  · obtain ⟨rfl, rfl⟩ := ran_ret.mp hfound
    exact .recorded found
  simp only [Then, read, bind_assoc'] at hfound
  obtain ⟨r, rest', rfl, hread⟩ := ran_await_bind.mp hfound
  rcases r with e | found
  · obtain ⟨rfl, rfl⟩ := hread
    exact .unread e
  rcases found with _ | ⟨version, raw⟩
  · obtain ⟨rfl, rfl⟩ := ran_fail.mp hread
    exact .missing
  rcases raw with state | _
  swap
  · obtain ⟨rfl, rfl⟩ := ran_fail.mp hread
    exact .malformed version
  simp only [Then, parse, ret_bind] at hread
  split at hread
  · next hgone =>
    obtain ⟨rfl, rfl⟩ := ran_ret.mp hread
    exact .passed version state (hgone.2.imp_right .inl)
  next hdue =>
  split at hread
  · next hreserved =>
    obtain ⟨rfl, rfl⟩ := ran_ret.mp hread
    exact .passed version state (.inr (.inr hreserved))
  next hnew =>
  refine reserving_checked (fun hover => ?_) hread
  rcases hover with hover | hover | hover
  · exact hdue ⟨trivial, .inl hover⟩
  · exact hdue ⟨trivial, .inr hover⟩
  · exact hnew hover

theorem Reserving.fine (h : Reserving o id due runId log out) :
    Passing out ↔ ∀ event ∈ log, Fine o due runId (instants log) event := by
  cases h with
  | unlooked e => simp [passing_store, Fine]
  | recorded found => simp [passing_ok, Fine]
  | unread e => simp [passing_store, Fine]
  | missing => simp [not_passing, Fine]
  | malformed version => simp [not_passing, Fine]
  | passed version state hover => simp [passing_ok, Fine, hover]
  | refused version state clock message hstill hnows hclear =>
    refine iff_of_false not_passing fun hall => ?_
    obtain ⟨version', state', heq, hgo⟩ := (List.forall_mem_cons.mp
      (List.forall_mem_cons.mp hall).2).1
    cases heq
    exact hgo.elim hstill hclear
  | written version state clock writes slot hstill hnows hclear hwrites =>
    have hinstants : instants (⟨.store (.get (.scheduleRun runId)), .ok none⟩ ::
        ⟨.store (.get (.schedule id)), .ok (some (version, .valid state))⟩ ::
          (clock ++ writes)) = instants clock := by
      show instants (clock ++ writes) = instants clock
      rw [instants_append, hwrites.instants_eq, List.append_nil]
    have hslot : Passing (slot.map some) ↔ Passing slot := by
      rcases slot with e | slot <;> simp [Passing, Except.map]
    rw [hinstants, hslot, hwrites.fine (instants clock)]
    simp only [List.forall_mem_cons, List.forall_mem_append]
    constructor
    · exact fun hlast => ⟨trivial, ⟨version, state, rfl, .inr hclear⟩, hnows.fine _, hlast⟩
    · exact fun hall => hall.2.2.2

theorem Reserving.granted (h : Reserving o id due runId log out) :
    (∃ slot, out = .ok (some slot)) ↔
      ∀ event ∈ log, Granted o due runId (instants log) event := by
  cases h with
  | unlooked e => simp [Granted]
  | recorded found => simp [Granted]
  | unread e => simp [Granted]
  | missing => simp [Granted]
  | malformed version => simp [Granted]
  | passed version state hover => simp [Granted, hover]
  | refused version state clock message hstill hnows hclear =>
    refine iff_of_false (by simp) fun hall => ?_
    obtain ⟨version', state', heq, -, hclear'⟩ := (List.forall_mem_cons.mp
      (List.forall_mem_cons.mp hall).2).1
    cases heq
    exact hclear hclear'
  | written version state clock writes slot hstill hnows hclear hwrites =>
    have hinstants : instants (⟨.store (.get (.scheduleRun runId)), .ok none⟩ ::
        ⟨.store (.get (.schedule id)), .ok (some (version, .valid state))⟩ ::
          (clock ++ writes)) = instants clock := by
      show instants (clock ++ writes) = instants clock
      rw [instants_append, hwrites.instants_eq, List.append_nil]
    have hslot : (∃ s, slot.map some = .ok (some s)) ↔ ∃ s, slot = .ok s := by
      rcases slot with e | slot <;> simp [Except.map]
    rw [hinstants, hslot, hwrites.granted (instants clock)]
    simp only [List.forall_mem_cons, List.forall_mem_append]
    constructor
    · exact fun hlast => ⟨rfl, ⟨version, state, rfl, hstill, hclear⟩, hnows.granted _, hlast⟩
    · exact fun hall => hall.2.2.2

/-- The run in a slot is the one of the occurrence. -/
theorem Reserving.run {slot : Reserved} (h : Reserving o id due runId log (.ok (some slot))) :
    slot.run.scheduleId = id ∧ slot.run.run.scheduledFor = due := by
  generalize hout : (.ok (some slot) : Except Err (Option Reserved)) = out at h
  cases h with
  | written version state clock writes slot' hstill hnows hclear hwrites =>
    cases hwrites with
    | both slot' hid hdue =>
      cases hout
      exact ⟨hid, hdue⟩
    | _ => cases hout
  | _ => cases hout

end Reserving

/-- The request that a fire ends with: it dispatches what it has reserved. -/
def closing (runId : String) : Except Err (Option Reserved) → Req sys
  | .ok (some r) => .ext (.dispatch (dispatchOf r.state runId) true r.persisted r.run)
  | _ => .ext (.unfire runId)

theorem ran_fire_go {out : Except Err Unit}
    (h : Ran (fire o id due key true)
      (⟨.ext (.fire id due (o.sha256 (id ++ ":" ++ key))), .go⟩ :: log) out) :
    ∃ (result : Except Err (Option Reserved)) (first : Log) (last : Event sys.iface),
      log = first ++ [last] ∧ Reserving o id due (o.sha256 (id ++ ":" ++ key)) first result ∧
        (Passing out ↔ Passing result) ∧ last.1 = closing (o.sha256 (id ++ ":" ++ key)) result := by
  obtain ⟨found, rest, heq, hfound⟩ := ran_ask_bind.mp h
  cases heq
  rcases ran_bind.mp hfound with ⟨e, rfl, htried⟩ | ⟨result, first, last, rfl, htried, hlast⟩
  · obtain ⟨_, he, -⟩ := ran_attempt.mp htried
    cases he
  obtain ⟨_, heq, hreserve⟩ := ran_attempt.mp htried
  cases heq
  refine ⟨result, first, ?_⟩
  rcases result with e | slot
  · obtain ⟨r, rest, rfl, hfail⟩ := ran_ask_bind.mp hlast
    obtain ⟨rfl, rfl⟩ := ran_fail.mp hfail
    exact ⟨_, rfl, ran_reserve hreserve, by simp [Passing], rfl⟩
  · rcases slot with _ | slot
    · obtain ⟨r, rfl, rfl⟩ := ran_ask.mp hlast
      exact ⟨_, rfl, ran_reserve hreserve, by simp [Passing], rfl⟩
    · obtain ⟨r, rfl, rfl⟩ := ran_ask.mp hlast
      exact ⟨_, rfl, ran_reserve hreserve, by simp [Passing], rfl⟩

theorem instants_closing {event : Event sys.iface} {result : Except Err (Option Reserved)}
    (h : event.1 = closing runId result) : instants [event] = [] := by
  obtain ⟨q, r⟩ := event
  obtain rfl : q = closing runId result := h
  rcases result with e | _ | slot <;> rfl

theorem fine_closing {event : Event sys.iface} {result : Except Err (Option Reserved)}
    (h : event.1 = closing runId result) (clock : List Int) : Fine o due runId clock event := by
  obtain ⟨q, r⟩ := event
  obtain rfl : q = closing runId result := h
  rcases result with e | _ | slot <;> trivial

theorem granted_closing {event : Event sys.iface} {result : Except Err (Option Reserved)}
    (h : event.1 = closing runId result) (clock : List Int) :
    Granted o due runId clock event := by
  obtain ⟨q, r⟩ := event
  obtain rfl : q = closing runId result := h
  rcases result with e | _ | slot <;> trivial

/-- The clock of a fire is read in its reservation. -/
theorem instants_fire {first : Log} {last : Event sys.iface}
    {result : Except Err (Option Reserved)} (h : last.1 = closing runId result) :
    instants (⟨.ext (.fire id due runId), .go⟩ :: (first ++ [last])) = instants first := by
  show instants (first ++ [last]) = instants first
  rw [instants_append, instants_closing h, List.append_nil]

theorem fire_fine {out : Except Err Unit} (h : Ran (fire o id due key true) log out) :
    Passing out ↔ ∀ event ∈ log, Fine o due (o.sha256 (id ++ ":" ++ key)) (instants log) event := by
  obtain ⟨found, rest, rfl, hfound⟩ := ran_ask_bind.mp h
  rcases found with _ | _ | _ | _
  · obtain ⟨rfl, rfl⟩ := ran_fail.mp hfound
    simp [shuttingDown, not_passing, Fine]
  · obtain ⟨r, last, rfl, hlast⟩ := ran_call.mp hfound
    obtain ⟨rfl, rfl⟩ := ran_ofExcept.mp hlast
    rcases out with e | _
    · simp [Passing, Fine]
    · simp [passing_ok, Fine]
  · obtain ⟨rfl, rfl⟩ := ran_fail.mp hfound
    simp [Passing, Fine]
  · obtain ⟨result, first, last, rfl, hreserve, hout, hlast⟩ := ran_fire_go h
    rw [hout, hreserve.fine, instants_fire hlast]
    simp only [List.forall_mem_cons, List.forall_mem_append]
    constructor
    · intro hfirst
      exact ⟨by simp [Fine], hfirst, fine_closing hlast _, by simp⟩
    · intro hall
      exact hall.2.1

end Fire

/-! ### One turn -/

/-- The run of the occurrence. -/
def runIdOf (o : Options) (schedule : StoredSchedule) (due : Int) : String :=
  o.sha256 (schedule.id ++ ":" ++ Iso.toISOString due)

def postponed (tickTime due : Int) (state : ScheduleState) (saturated : Bool) : Prop :=
  tickTime - due > 1000 ∨ blocked state = true ∨ saturated = true

/-- Neither an answer in the turn of a due schedule nor the time it is postponed to ends the
    tick. -/
def Spares (o : Options) (tickTime due : Int) (state : ScheduleState) (turn : Log) : Prop :=
  (∀ event ∈ turn, Fine o due (runIdOf o state.schedule due) (instants turn) event) ∧
    ∀ saturated : Bool, turn.head? = some ⟨.ext .saturated, saturated⟩ →
      postponed tickTime due state saturated →
        ∃ next, nextScheduleTime o state.schedule.cadence tickTime = .ok next

/-- The record is accepted by its schema, and when it is due its turn spares the others. -/
def Passes (o : Options) (tickTime : Int) (row : ScheduleRow) (turn : Log) : Prop :=
  ∃ state, row.value = .valid state ∧
    ∀ due, dueAt tickTime state.schedule = some due → Spares o tickTime due state turn

section Turn

variable {row : ScheduleRow} {turn : Log}

theorem ran_saveQuietly {version : Nat} {state : ScheduleState} {out : Except Err Unit}
    {log : Log} (h : Ran (saveQuietly id version state) log out) :
    ∃ r : Except StoreErr Nat,
      log = [⟨.store (.update (.schedule id) version (.valid state)), r⟩] ∧
        (out = .ok () ↔ ∀ e, r = .error e → e = .conflict) := by
  rcases ran_bind.mp h with ⟨e, rfl, htried⟩ | ⟨result, first, last, rfl, htried, hlast⟩
  · obtain ⟨_, he, -⟩ := ran_attempt.mp htried
    cases he
  obtain ⟨_, heq, hsave⟩ := ran_attempt.mp htried
  cases heq
  obtain ⟨r, rfl, rfl⟩ := ran_save.mp hsave
  rcases r with e | n
  · have hlast' : Ran (if (Err.store e).isConflict = true then .ret ()
        else .fail (.store e) : Task Unit) last out := hlast
    split at hlast'
    · next hconflict =>
      obtain ⟨rfl, rfl⟩ := ran_ret.mp hlast'
      exact ⟨.error e, rfl, by simpa [Err.isConflict] using hconflict⟩
    · next hconflict =>
      obtain ⟨rfl, rfl⟩ := ran_fail.mp hlast'
      exact ⟨.error e, rfl, by simpa [Err.isConflict] using hconflict⟩
  · obtain ⟨rfl, rfl⟩ := ran_ret.mp hlast
    exact ⟨.ok n, rfl, by simp⟩

theorem passes_iff {state : ScheduleState} (hvalue : row.value = .valid state) :
    Passes o tickTime row turn ↔
      ∀ due, dueAt tickTime state.schedule = some due → Spares o tickTime due state turn := by
  constructor
  · rintro ⟨state', heq, hall⟩
    cases hvalue.symm.trans heq
    exact hall
  · exact fun hall => ⟨state, hvalue, hall⟩

/-- A save between two steps of a turn, a conflict passed over. -/
theorem ran_saveQuietly_bind {version : Nat} {state : ScheduleState} {out : Except Err Bool}
    {log : Log} (h : Ran (saveQuietly id version state >>= fun _ => .ret true) log out) :
    ∃ r : Except StoreErr Nat,
      log = [⟨.store (.update (.schedule id) version (.valid state)), r⟩] ∧
        (out = .ok true ↔ ∀ e, r = .error e → e = .conflict) := by
  rcases ran_bind.mp h with ⟨e, rfl, hsave⟩ | ⟨_, first, last, rfl, hsave, hret⟩
  · obtain ⟨r, rfl, hr⟩ := ran_saveQuietly hsave
    exact ⟨r, rfl, by simpa using hr⟩
  · obtain ⟨r, rfl, hr⟩ := ran_saveQuietly hsave
    obtain ⟨rfl, rfl⟩ := ran_ret.mp hret
    exact ⟨r, rfl, by simpa using hr⟩

theorem fine_update {version : Nat} {state : ScheduleState} {clock : List Int}
    {r : Except StoreErr Nat} :
    Fine o due runId clock ⟨.store (.update (.schedule id) version (.valid state)), r⟩ ↔
      ∀ e, r = .error e → e = .conflict := by
  rcases r with e | n <;> simp [Fine]

/-- The turn of a schedule that is fired. -/
theorem spares_fire {state : ScheduleState} {saturated : Bool} {first last : Log}
    (hpost : ¬ postponed tickTime due state saturated) (hlast : instants last = []) :
    Spares o tickTime due state (⟨.ext .saturated, saturated⟩ :: (first ++ last)) ↔
      (∀ event ∈ first, Fine o due (runIdOf o state.schedule due) (instants first) event) ∧
        ∀ event ∈ last, Fine o due (runIdOf o state.schedule due) (instants first) event := by
  have hinstants : instants (⟨.ext .saturated, saturated⟩ :: (first ++ last)) =
      instants first := by
    show instants (first ++ last) = instants first
    rw [instants_append, hlast, List.append_nil]
  rw [Spares, hinstants]
  simp only [List.forall_mem_cons, List.forall_mem_append]
  constructor
  · intro h
    exact h.1.2
  · intro h
    refine ⟨⟨trivial, h⟩, fun saturated' heq hpost' => ?_⟩
    cases heq
    exact absurd hpost' hpost

theorem visit_passes {out : Except Err Bool} (h : Ran (visit o tickTime row) turn out) :
    out = .ok true ↔ Passes o tickTime row turn := by
  rw [visit] at h
  rcases hvalue : row.value with state | _
  swap
  · rw [hvalue] at h
    obtain ⟨rfl, rfl⟩ := ran_fail.mp h
    simp [Passes, hvalue]
  rw [hvalue] at h
  simp only [parse, ret_bind] at h
  rw [passes_iff hvalue]
  rcases hdue : dueAt tickTime state.schedule with _ | due
  · rw [hdue] at h
    obtain ⟨rfl, rfl⟩ := ran_ret.mp h
    simp
  rw [hdue] at h
  simp only [Option.some.injEq, forall_eq'] at h ⊢
  split at h
  · obtain ⟨r, rfl, hout⟩ := ran_saveQuietly_bind h
    rw [hout]
    simpa [Spares] using fine_update.symm
  obtain ⟨saturated, rest, rfl, hrest⟩ := ran_ask_bind.mp h
  simp only at hrest
  split at hrest
  · next hpostponed =>
    have hpost : postponed tickTime due state saturated := by simpa [postponed] using hpostponed
    rcases hnext : nextScheduleTime o state.schedule.cadence tickTime with e | next
    · rw [hnext] at hrest
      obtain ⟨rfl, rfl⟩ := ran_fail.mp hrest
      simp [Spares, hnext, hpost]
    · rw [hnext] at hrest
      obtain ⟨r, rfl, hout⟩ := ran_saveQuietly_bind hrest
      rw [hout]
      simpa [Spares, hnext, Fine] using fine_update.symm
  · next hpostponed =>
    have hpost : ¬ postponed tickTime due state saturated := by simpa [postponed] using hpostponed
    rcases ran_bind.mp hrest with ⟨e, rfl, htried⟩ | ⟨result, first, last, rfl, htried, hlast⟩
    · obtain ⟨_, he, -⟩ := ran_attempt.mp htried
      cases he
    obtain ⟨_, heq, hfire⟩ := ran_attempt.mp htried
    cases heq
    have hiff : Passing result ↔ ∀ event ∈ first,
        Fine o due (runIdOf o state.schedule due) (instants first) event := fire_fine hfire
    rcases result with e | _
    · obtain ⟨stopping, last', rfl, hlast'⟩ := ran_ask_bind.mp hlast
      have hturn : last' = [] ∧
          (out = .ok true ↔ stopping = false ∧ (e = .capacity ∨ e.isConflict = true)) := by
        split at hlast'
        · next hstop =>
          obtain ⟨rfl, rfl⟩ := ran_ret.mp hlast'
          simp [hstop]
        · next hstop =>
          split at hlast'
          · next hpass =>
            obtain ⟨rfl, rfl⟩ := ran_ret.mp hlast'
            simpa [hstop] using hpass
          · next hpass =>
            obtain ⟨rfl, rfl⟩ := ran_fail.mp hlast'
            simpa [hstop] using hpass
      obtain ⟨rfl, hout⟩ := hturn
      rw [hout, spares_fire hpost rfl, ← hiff]
      simp [Passing, Fine, and_comm]
    · obtain ⟨rfl, rfl⟩ := ran_ret.mp hlast
      rw [spares_fire hpost rfl, ← hiff]
      simp [passing_ok]

/-- The tick fires the occurrence: its run, reserved and recorded, is dispatched. -/
def Fired (o : Options) (id : String) (due : Int) (log : Log) : Prop :=
  ∃ (input : ScheduleDispatch) (persisted : Nat) (run : RunState) (answer : Unit),
    (⟨.ext (.dispatch input true persisted run), answer⟩ : Event sys.iface) ∈ log ∧
      input.runId = o.sha256 (id ++ ":" ++ Iso.toISOString due) ∧
      run.scheduleId = id ∧ run.run.scheduledFor = due

/-- Due, not late, and free to run at the time of the tick. -/
structure Ready (tickTime : Int) (state : ScheduleState) (due : Int) : Prop where
  isDue : dueAt tickTime state.schedule = some due
  onTime : tickTime - due ≤ 1000
  unexpired : expiredAt state.schedule tickTime = false
  unspent : spent state = false
  free : blocked state = false

/-- Due and free, and every answer of the turn lets the schedule go. -/
def Taken (o : Options) (tickTime : Int) (id : String) (due : Int) (row : ScheduleRow)
    (turn : Log) : Prop :=
  ∃ state, row.value = .valid state ∧ state.schedule.id = id ∧ Ready tickTime state due ∧
    ∀ event ∈ turn, Granted o due (runIdOf o state.schedule due) (instants turn) event

/-- No dispatch. -/
def Quiet (q : Req sys) : Prop :=
  ∀ input automatic persisted run, q ≠ .ext (.dispatch input automatic persisted run)

theorem not_fired {log : Log} (h : ∀ event ∈ log, Quiet event.1) : ¬ Fired o id due log := by
  rintro ⟨input, persisted, run, answer, hmem, -⟩
  exact h _ hmem _ _ _ _ rfl

theorem fired_append {turn later : Log} :
    Fired o id due (turn ++ later) ↔ Fired o id due turn ∨ Fired o id due later := by
  simp only [Fired, List.mem_append, or_and_right, exists_or]

theorem fired_cons {event : Event sys.iface} {log : Log} (h : Quiet event.1) :
    Fired o id due (event :: log) ↔ Fired o id due log := by
  rw [← List.singleton_append, fired_append, or_iff_right (not_fired (by simpa using h))]

theorem keeps_await {q : StoreReq Key Val} :
    (await (S := sys) q).Keeps Quiet fun _ => True := by
  refine ⟨fun _ _ _ _ h => (nomatch h), fun r => ?_⟩
  rcases r with e | a <;> trivial

theorem quiet_ext {x : Ext}
    (hx : ∀ input automatic persisted run, x ≠ .dispatch input automatic persisted run) :
    Quiet (.ext x) :=
  fun input automatic persisted run h => hx input automatic persisted run (Req.ext.inj h)

theorem keeps_ask {x : Ext}
    (hx : ∀ input automatic persisted run, x ≠ .dispatch input automatic persisted run) :
    (ask (S := sys) x : Task x.Res).Keeps Quiet fun _ => True :=
  ⟨quiet_ext hx, fun _ => trivial⟩

theorem keeps_save {version : Nat} {state : ScheduleState} :
    (save id version state).Keeps Quiet fun _ => True :=
  keeps_await.bind fun _ => trivial

theorem keeps_now : now.Keeps Quiet fun _ => True := keeps_ask (by simp)

theorem Nows.quiet {log : Log} (h : Nows log) : ∀ event ∈ log, Quiet event.1 := by
  intro event hmem
  rw [h event hmem]
  exact quiet_ext (by simp)

theorem quiet_store {q : StoreReq Key Val} : Quiet (.store q) := by
  simp [Quiet]

theorem Reserving.quiet {log : Log} {out : Except Err (Option Reserved)}
    (h : Reserving o id due runId log out) : ∀ event ∈ log, Quiet event.1 := by
  cases h with
  | refused version state clock message hstill hnows hclear =>
    simp only [List.forall_mem_cons]
    exact ⟨quiet_store, quiet_store, hnows.quiet⟩
  | written version state clock writes slot hstill hnows hclear hwrites =>
    simp only [List.forall_mem_cons, List.forall_mem_append]
    refine ⟨quiet_store, quiet_store, hnows.quiet, ?_⟩
    cases hwrites <;> simp [quiet_store]
  | _ => simp [quiet_store]

/-- A fire dispatches when all its answers let it. -/
theorem fire_fires {log : Log} {out : Except Err Unit} {id' : String} {due' : Int}
    (h : Ran (fire o id due (Iso.toISOString due) true) log out) :
    Fired o id' due' log ↔ id = id' ∧ due = due' ∧
      ∀ event ∈ log, Granted o due (o.sha256 (id ++ ":" ++ Iso.toISOString due))
        (instants log) event := by
  obtain ⟨found, rest, rfl, hfound⟩ := ran_ask_bind.mp h
  rw [fired_cons (quiet_ext (by simp))]
  rcases found with _ | _ | _ | _
  · obtain ⟨rfl, rfl⟩ := ran_fail.mp hfound
    simp [Fired, Granted]
  · obtain ⟨r, last, rfl, hlast⟩ := ran_call.mp hfound
    obtain ⟨rfl, rfl⟩ := ran_ofExcept.mp hlast
    simp [Fired, Granted]
  · obtain ⟨rfl, rfl⟩ := ran_fail.mp hfound
    simp [Fired, Granted]
  obtain ⟨result, first, last, rfl, hreserve, -, hlast⟩ := ran_fire_go h
  have hgranted : (∀ event ∈ (⟨.ext (.fire id due
      (o.sha256 (id ++ ":" ++ Iso.toISOString due))), .go⟩ :: (first ++ [last]) : Log),
        Granted o due (o.sha256 (id ++ ":" ++ Iso.toISOString due)) (instants first) event) ↔
      ∃ slot, result = .ok (some slot) := by
    rw [hreserve.granted]
    simp only [List.forall_mem_cons, List.forall_mem_append]
    constructor
    · exact fun hall => hall.2.1
    · exact fun hall => ⟨rfl, hall, granted_closing hlast _, by simp⟩
  rw [instants_fire hlast, hgranted, fired_append, or_iff_right (not_fired hreserve.quiet)]
  obtain ⟨q, r⟩ := last
  obtain rfl : q = closing _ result := hlast
  rcases result with e | _ | slot
  · exact iff_of_false (not_fired (List.forall_mem_singleton.mpr (quiet_ext (by simp)))) (by simp)
  · exact iff_of_false (not_fired (List.forall_mem_singleton.mpr (quiet_ext (by simp)))) (by simp)
  · obtain ⟨hid, hdue⟩ := hreserve.run
    constructor
    · rintro ⟨input, persisted, run, answer, hmem, -, hid', hdue'⟩
      cases List.mem_singleton.mp hmem
      exact ⟨hid.symm.trans hid', hdue.symm.trans hdue', slot, rfl⟩
    · rintro ⟨rfl, rfl, -⟩
      exact ⟨_, _, _, _, List.mem_singleton.mpr rfl, rfl, hid, hdue⟩

theorem keeps_saveQuietly {version : Nat} {state : ScheduleState} :
    (saveQuietly id version state).Keeps Quiet fun _ => True := by
  refine Keeps.catch keeps_save (fun _ => trivial) fun e _ => ?_
  simp only
  split <;> trivial

theorem keeps_skip {version : Nat} {state : ScheduleState} :
    (saveQuietly id version state >>= fun _ => .ret true : Task Bool).Keeps Quiet
      fun _ => True :=
  keeps_saveQuietly.bind fun _ => trivial

/-- The turn of a schedule that is neither over nor postponed. -/
theorem taken_iff {state : ScheduleState} {due' : Int} {first last : Log}
    (hvalue : row.value = .valid state) (hready : Ready tickTime state due')
    (hlast : ∀ event ∈ last, event.1 = .ext .stopping) :
    Taken o tickTime id due row (⟨.ext .saturated, false⟩ :: (first ++ last)) ↔
      state.schedule.id = id ∧ due' = due ∧
        ∀ event ∈ first, Granted o due' (runIdOf o state.schedule due') (instants first) event := by
  have hclock : instants last = [] :=
    List.filterMap_eq_nil_iff.mpr fun ⟨q, r⟩ hmem => by
      obtain rfl : q = .ext .stopping := hlast _ hmem
      rfl
  have hinstants : instants (⟨.ext .saturated, false⟩ :: (first ++ last)) = instants first := by
    show instants (first ++ last) = instants first
    rw [instants_append, hclock, List.append_nil]
  have hgranted : ∀ event ∈ last,
      Granted o due' (runIdOf o state.schedule due') (instants first) event := by
    rintro ⟨q, r⟩ hmem
    obtain rfl : q = .ext .stopping := hlast _ hmem
    trivial
  simp only [Taken, hinstants, List.forall_mem_cons, List.forall_mem_append]
  constructor
  · rintro ⟨state', hvalue', hid, hready', -, hfirst, -⟩
    cases hvalue.symm.trans hvalue'
    cases hready.isDue.symm.trans hready'.isDue
    exact ⟨hid, rfl, hfirst⟩
  · rintro ⟨hid, rfl, hfirst⟩
    exact ⟨state, hvalue, hid, hready, rfl, hfirst, hgranted⟩

theorem visit_fires {out : Except Err Bool} (h : Ran (visit o tickTime row) turn out) :
    Fired o id due turn ↔ Taken o tickTime id due row turn := by
  rw [visit] at h
  rcases hvalue : row.value with state | _
  swap
  · rw [hvalue] at h
    obtain ⟨rfl, rfl⟩ := ran_fail.mp h
    simp [Fired, Taken, hvalue]
  rw [hvalue] at h
  simp only [parse, ret_bind] at h
  have hstate : Taken o tickTime id due row turn → Ready tickTime state due ∧
      ∀ event ∈ turn, Granted o due (runIdOf o state.schedule due) (instants turn) event := by
    rintro ⟨state', hvalue', -, hready, hturn⟩
    cases hvalue.symm.trans hvalue'
    exact ⟨hready, hturn⟩
  rcases hdue : dueAt tickTime state.schedule with _ | due'
  · rw [hdue] at h
    obtain ⟨rfl, rfl⟩ := ran_ret.mp h
    refine iff_of_false (by simp [Fired]) fun htaken => ?_
    cases hdue.symm.trans (hstate htaken).1.isDue
  rw [hdue] at h
  simp only at h
  split at h
  · next hclosed =>
    refine iff_of_false (not_fired (keeps_skip.log h)) fun htaken => ?_
    simp [(hstate htaken).1.unexpired, (hstate htaken).1.unspent] at hclosed
  next hopen =>
  simp only [not_or, Bool.not_eq_true] at hopen
  obtain ⟨saturated, rest, rfl, hrest⟩ := ran_ask_bind.mp h
  have hask : Quiet (.ext .saturated) := quiet_ext (by simp)
  simp only at hrest
  split at hrest
  · next hpostponed =>
    refine iff_of_false (not_fired ?_) fun htaken => ?_
    · refine List.forall_mem_cons.mpr ⟨hask, ?_⟩
      exact Keeps.log ((Keeps.ofExcept fun _ _ => trivial).bind fun _ => keeps_skip) hrest
    · obtain ⟨⟨hdue', hontime, -, -, hfree⟩, hturn⟩ := hstate htaken
      obtain rfl : saturated = false := (List.forall_mem_cons.mp hturn).1
      cases hdue.symm.trans hdue'
      simp only [hfree, Bool.false_eq_true, or_self, or_false] at hpostponed
      omega
  · next hpostponed =>
    obtain ⟨hontime, hfree, rfl⟩ : ¬ tickTime - due' > 1000 ∧ blocked state = false ∧
        saturated = false := by simpa [not_or] using hpostponed
    rcases ran_bind.mp hrest with ⟨e, rfl, htried⟩ | ⟨result, first, last, rfl, htried, hlast⟩
    · obtain ⟨_, he, -⟩ := ran_attempt.mp htried
      cases he
    obtain ⟨_, heq, hfire⟩ := ran_attempt.mp htried
    cases heq
    have hstops : ∀ event ∈ last, event.1 = .ext .stopping := by
      rcases result with e | _
      · obtain ⟨stopping, last', rfl, hlast'⟩ := ran_ask_bind.mp hlast
        have hend : last' = [] := by
          split at hlast'
          · exact (ran_ret.mp hlast').1
          · split at hlast'
            · exact (ran_ret.mp hlast').1
            · exact (ran_fail.mp hlast').1
        simp [hend]
      · obtain ⟨rfl, -⟩ := ran_ret.mp hlast
        simp
    have hlastQuiet : ∀ event ∈ last, Quiet event.1 := by
      intro event hmem
      rw [hstops event hmem]
      exact quiet_ext (by simp)
    rw [fired_cons hask, fired_append, or_iff_left (not_fired hlastQuiet), fire_fires hfire,
      taken_iff hvalue ⟨hdue, by omega, hopen.1, hopen.2, hfree⟩ hstops]
    rfl

end Turn

/-! ### The loop -/

/-- The turns of these schedules pass, and the rest of the log is what follows them. -/
def SparedBy (o : Options) (tickTime : Int) : List ScheduleRow → Log → Log → Prop
  | [], log, rest => log = rest
  | row :: rows, log, rest => ∃ turn later out,
    log = ⟨.ext .stopping, false⟩ :: (turn ++ later) ∧ Ran (visit o tickTime row) turn out ∧
      Passes o tickTime row turn ∧ SparedBy o tickTime rows later rest

/-- A schedule whose turn comes with the service running, and that is taken in it. -/
def Comes (o : Options) (tickTime : Int) (id : String) (due : Int) (rows : List ScheduleRow)
    (log : Log) : Prop :=
  ∃ before entry after turn later out, rows = before ++ entry :: after ∧
    Ran (visit o tickTime entry) turn out ∧ Taken o tickTime id due entry turn ∧
    SparedBy o tickTime before log (⟨.ext .stopping, false⟩ :: (turn ++ later))

section Loop

variable {row : ScheduleRow} {rows : List ScheduleRow} {turn later log : Log}

/-- The turn of the first schedule is its own, or it passes and the turn of another comes. -/
theorem comes_cons {out : Except Err Bool} (hturn : Ran (visit o tickTime row) turn out) :
    Comes o tickTime id due (row :: rows) (⟨.ext .stopping, false⟩ :: (turn ++ later)) ↔
      Fired o id due turn ∨
        (Passes o tickTime row turn ∧ Comes o tickTime id due rows later) := by
  constructor
  · rintro ⟨before, entry, after, turn', later', out', heq, hturn', htaken, hspared⟩
    rcases before with _ | ⟨first, before⟩
    · obtain ⟨rfl, rfl⟩ := List.cons.inj heq
      obtain ⟨-, hrest⟩ := List.cons.inj hspared
      obtain ⟨rfl, -⟩ := hturn.prefix_unique hturn' hrest
      exact .inl ((visit_fires hturn).mpr htaken)
    · obtain ⟨rfl, rfl⟩ := List.cons.inj heq
      obtain ⟨passed, rest, out'', hlog, hpassed, hpasses, hspared⟩ := hspared
      obtain ⟨-, htail⟩ := List.cons.inj hlog
      obtain ⟨rfl, -⟩ := hturn.prefix_unique hpassed htail
      obtain rfl := List.append_cancel_left htail
      exact .inr ⟨hpasses, before, entry, after, turn', later', out', rfl, hturn', htaken, hspared⟩
  · rintro (hfired | ⟨hpasses, before, entry, after, turn', later', out', rfl, hturn', htaken,
      hspared⟩)
    · exact ⟨[], row, rows, turn, later, out, rfl, hturn, (visit_fires hturn).mp hfired, rfl⟩
    · exact ⟨row :: before, entry, after, turn', later', out', rfl, hturn', htaken,
        turn, later, out, rfl, hturn, hpasses, hspared⟩

theorem eachSchedule_fires {out : Except Err Unit}
    (h : Ran (eachSchedule o tickTime rows) log out) :
    Fired o id due log ↔ Comes o tickTime id due rows log := by
  induction rows generalizing log with
  | nil =>
    obtain ⟨rfl, -⟩ := ran_ret.mp h
    simp [Fired, Comes]
  | cons row rows ih =>
    obtain ⟨stopping, rest, rfl, hrest⟩ := ran_ask_bind.mp h
    rw [fired_cons (quiet_ext (by simp))]
    rcases stopping with _ | _
    · simp only [Bool.false_eq_true, if_false] at hrest
      rcases ran_bind.mp hrest with ⟨e, rfl, hturn⟩ | ⟨go, turn, later, rfl, hturn, hlater⟩
      · have hpasses := visit_passes hturn
        rw [← List.append_nil rest, comes_cons hturn, ← hpasses]
        simp
      · have hpasses := visit_passes hturn
        rw [comes_cons hturn, ← hpasses, fired_append]
        rcases go with _ | _
        · obtain ⟨rfl, -⟩ := ran_ret.mp hlater
          simp [Fired]
        · simp [ih hlater]
    · obtain ⟨rfl, -⟩ := ran_ret.mp hrest
      refine iff_of_false (by simp [Fired]) ?_
      rintro ⟨before, entry, after, turn', later', out', -, -, -, hspared⟩
      rcases before with _ | ⟨first, before⟩
      · cases hspared
      · obtain ⟨turn, later, out', hlog, -⟩ := hspared
        cases hlog

end Loop

/-! ### The tick -/

/-- The tick comes to its list of schedules, and the turn of a schedule in it comes. -/
inductive Reached (o : Options) (id : String) (due : Int) : Log → Prop
  | turn {start later : Log} {listed : List (Row Key Val)} {tickTime : Int} :
      Ran (beginTick o) start (.ok (some tickTime)) →
      Comes o tickTime id due (listed.filterMap scheduleRow) later →
      Reached o id due (start ++ ⟨.store (.list isSchedule), .ok listed⟩ :: later)

theorem keeps_parse {α : Type} (raw : Raw α) : (parse raw).Keeps Quiet fun _ => True := by
  rcases raw with _ | _ <;> trivial

theorem keeps_record : (record runId).Keeps Quiet fun _ => True := keeps_await

theorem keeps_updateRun {version : Nat} {state : RunState} :
    (updateRun runId version state).Keeps Quiet fun _ => True :=
  keeps_await.bind fun _ => trivial

theorem keeps_unknown {state : RunState} : (unknown state).Keeps Quiet fun _ => True :=
  keeps_now.bind fun _ => trivial

theorem keeps_schedules : schedules.Keeps Quiet fun _ => True := keeps_await.bind fun _ => trivial

theorem keeps_recoverReservation {reservation : RunState} {kept : List RunState} :
    (recoverReservation reservation kept).Keeps Quiet fun _ => True := by
  refine keeps_record.bind fun stored => Keeps.bind ?_ fun state => ?_
  · rcases stored with _ | ⟨version, raw⟩
    · trivial
    · exact keeps_parse raw
  · split
    · refine Keeps.bind (keeps_unknown.bind fun value => ?_) fun _ => trivial
      rcases stored with _ | ⟨version, raw⟩
      · exact keeps_await.bind fun _ => trivial
      · exact keeps_updateRun
    · split <;> trivial

theorem keeps_recoverReservations {reservations kept : List RunState} :
    (recoverReservations reservations kept).Keeps Quiet fun _ => True := by
  induction reservations generalizing kept with
  | nil => trivial
  | cons reservation rest ih => exact keeps_recoverReservation.bind fun _ => ih

theorem keeps_recoverTime {schedule : StoredSchedule} :
    (recoverTime o schedule).Keeps Quiet fun _ => True := by
  unfold recoverTime
  split
  · refine keeps_now.bind fun instant => ?_
    split
    · exact keeps_now.bind fun _ => (Keeps.ofExcept fun _ _ => trivial).bind fun _ => trivial
    · trivial
  · trivial

theorem keeps_recoverSchedules {rows : List ScheduleRow} :
    (recoverSchedules o rows).Keeps Quiet fun _ => True := by
  induction rows with
  | nil => trivial
  | cons row rest ih =>
    refine Keeps.bind ?_ fun _ => ih
    exact (keeps_parse row.value).bind fun _ => keeps_recoverReservations.bind fun _ =>
      keeps_recoverTime.bind fun _ => keeps_save

theorem keeps_initializeOnce : (initializeOnce o).Keeps Quiet fun _ => True := by
  refine (keeps_ask (by simp)).bind fun first => ?_
  split
  · have hrecover : (recover o).Keeps Quiet fun _ => True :=
      keeps_schedules.bind fun rows => keeps_recoverSchedules
    refine Keeps.catch hrecover (fun _ => ?_) fun _ _ => ?_
    · exact (keeps_ask (by simp)).bind fun _ => trivial
    · exact (keeps_ask (by simp)).bind fun _ => trivial
  · exact ⟨quiet_ext (by simp), fun r => Keeps.ofExcept fun _ _ => trivial⟩

theorem keeps_parseRuns {rows : List (Row Key Val)} :
    (parseRuns rows).Keeps Quiet fun _ => True := by
  induction rows with
  | nil => trivial
  | cons row rows ih =>
    rcases row with ⟨id | id, version, raw⟩
    · exact ih
    · exact (keeps_parse raw).bind fun _ => ih.bind fun _ => trivial

theorem keeps_beginTick : (beginTick o).Keeps Quiet fun _ => True := by
  refine keeps_initializeOnce.bind fun _ => (keeps_ask (by simp)).bind fun stopping => ?_
  split
  · trivial
  · exact (keeps_ask (by simp)).bind fun _ => (keeps_await.bind fun _ => keeps_parseRuns).bind
      fun _ => (keeps_ask (by simp)).bind fun _ => trivial

section Demo

def demoOptions : Options where
  cron := fun _ _ after => .ok (after + 60000)
  sha256 := fun text => text
  historyLimit := 50
  maxInflightDispatches := 8
  maxInflightObservations := 8
  observer := false
  defaultConcurrency := .Forbid

def demoSchedule (id : String) : ScheduleState where
  schedule := ⟨id, none, "prompt", .every 60000, .agent "agent", .active, 0, 0, some 60000, none,
    none, none, none⟩
  projectId := "project"
  credentialProfile := "profile"
  targetWorkspaceId := none
  targetWorkspaceUid := none
  origin := none
  concurrency := .Forbid
  totalRuns := 0
  reservations := []

/-- The rows that the tick lists, the records that its fires read again, and the schedules whose
    saves meet a conflict. -/
def demoAnswer (ids : List String) (reread : String → Option (Nat × Raw ScheduleState))
    (conflicts : List String) : (q : Req sys) → Option q.Res
  | .store (.list sel) =>
    some (.ok (if sel (.schedule "") then
      ids.map fun id => ⟨.schedule id, 0, .valid (demoSchedule id)⟩ else []))
  | .store (.get (.schedule id)) => some (.ok (reread id))
  | .store (.get (.scheduleRun _)) => some (.ok none)
  | .store (.update (.schedule id) _ _) =>
    some (if conflicts.contains id then .error .conflict else .ok 1)
  | .store (.create (.scheduleRun _) _) => some (.ok 0)
  | .store _ => none
  | .ext .now => some (60000 : Int)
  | .ext .entry => some (60000 : Int)
  | .ext .stopping => some false
  | .ext .saturated => some false
  | .ext .initializeOnce => some false
  | .ext .initialization => some (.ok ())
  | .ext (.fire _ _ _) => some Ticket.go
  | .ext (.unfire _) => some ()
  | .ext (.dispatch _ _ _ _) => some ()
  | .ext (.observe _) => some ()
  | .ext _ => none

/-- The occurrences that a log dispatches. -/
def dispatches (log : Log) : List (String × Int × String) :=
  log.filterMap fun
    | ⟨.ext (.dispatch input true _ run), _⟩ =>
      some (run.scheduleId, run.run.scheduledFor, input.runId)
    | _ => none

theorem fired_iff {log : Log} : Fired o id due log ↔
    (id, due, o.sha256 (id ++ ":" ++ Iso.toISOString due)) ∈ dispatches log := by
  constructor
  · rintro ⟨input, persisted, run, answer, hmem, hrun, rfl, rfl⟩
    exact List.mem_filterMap.mpr ⟨_, hmem, by simp [hrun]⟩
  · intro hmem
    obtain ⟨⟨q, r⟩, hmem, heq⟩ := List.mem_filterMap.mp hmem
    split at heq
    · next input persisted run answer hevent =>
      cases hevent
      simp only [Option.some.injEq, Prod.mk.injEq] at heq
      exact ⟨input, persisted, run, _, hmem, heq.2.2, heq.1, heq.2.1⟩
    · cases heq

/-- The fires that a log begins. -/
def fires (log : Log) : List String :=
  log.filterMap fun
    | ⟨.ext (.fire id _ _), _⟩ => some id
    | _ => none

def listings (log : Log) : List (List ScheduleRow) :=
  log.filterMap fun
    | ⟨.store (.list _), .ok rows⟩ => some (rows.filterMap scheduleRow)
    | _ => none

def demoRow (id : String) : ScheduleRow := ⟨id, 0, .valid (demoSchedule id)⟩

def gone : Err := .error "Schedule does not exist"

end Demo

end PaseoGateway.ScheduleService

/-
  PaseoGateway/ScheduleOccurrences.lean
  =====================================
  **Every occurrence once, in order, on time.**

  A tick fires an occurrence that is due, at most a second late, and the reservation sets a
  next time behind it; every later write keeps that time, clears it or sets one that was
  read since.  So the occurrences of one schedule are reserved in increasing order by any
  number of processes (`Legal.reserved_in_order`), as long as the clock does not go back and
  the next time of a cadence lies behind the instant asked for.  In one process the ticks
  exclude one another, and the dispatches come in that order too (`occurrences_increase`).
-/
import PaseoGateway.Latch
import PaseoGateway.ScheduleGuarantees

namespace PaseoGateway.ScheduleService

open Async Prog

variable {o : Options} {id runId : String} {n : Nat}

/-! ### Requests of a tick only -/

/-- Neither takes the latch of the tick nor gives it back. -/
def Within (q : Req sys) : Prop := q ≠ .ext .enterTick ∧ q ≠ .ext .leaveTick

/-- Nor is it the entry of a tick. -/
def Apart (q : Req sys) : Prop := Within q ∧ q ≠ .ext .entry

abbrev Aside {α : Type} (p : Task α) : Prop := p.Keeps Apart fun _ => True

section Aside

variable {α : Type}

theorem aside_await {q : StoreReq Key Val} : Aside (await (S := sys) q) := by
  refine ⟨by simp [Apart, Within], fun r => ?_⟩
  rcases r with e | a <;> trivial

theorem aside_ask {x : Ext} (hx : Apart (.ext x)) : Aside (ask (S := sys) x) :=
  ⟨hx, fun _ => trivial⟩

theorem aside_ofExcept {result : Except Err α} : Aside (Prog.ofExcept result : Task α) :=
  Keeps.ofExcept fun _ _ => trivial

theorem aside_askOr {x : Ext} {h : x.Res = Except Err α} (hx : Apart (.ext x)) :
    Aside (askOr (S := sys) x h) := ⟨hx, fun _ => aside_ofExcept⟩

theorem aside_attempt {p : Task α} (h : Aside p) : Aside p.attempt := by
  induction p with
  | ret a => trivial
  | fail e => trivial
  | call q k ih => exact ⟨h.1, fun r => ih r (h.2 r)⟩

theorem aside_now : Aside now := aside_ask (by simp [Apart, Within])

theorem aside_parse {raw : Raw α} : Aside (parse raw) := by
  rcases raw with _ | _ <;> trivial

theorem aside_read : Aside (read id) := by
  refine aside_await.bind fun found => ?_
  rcases found with _ | ⟨version, raw⟩
  · trivial
  · exact aside_parse.bind fun _ => trivial

theorem aside_save {s : ScheduleState} : Aside (save id n s) := aside_await.bind fun _ => trivial

theorem aside_updateRun {v : RunState} : Aside (updateRun runId n v) :=
  aside_await.bind fun _ => trivial

theorem aside_unknown {v : RunState} : Aside (unknown v) := aside_now.bind fun _ => trivial

theorem aside_schedules : Aside schedules := aside_await.bind fun _ => trivial

theorem aside_parseRuns {rows : List (Row Key Val)} : Aside (parseRuns rows) := by
  induction rows with
  | nil => trivial
  | cons row rows ih =>
    rcases row with ⟨id | id, version, raw⟩
    · exact ih
    · exact Keeps.bind aside_parse fun _ => ih.bind fun _ => trivial

theorem aside_runRows : Aside runRows := aside_await.bind fun _ => aside_parseRuns

theorem aside_recoverReservation {reservation : RunState} {kept : List RunState} :
    Aside (recoverReservation reservation kept) := by
  refine Keeps.bind aside_await fun stored => Keeps.bind ?_ fun state => ?_
  · rcases stored with _ | ⟨version, raw⟩
    · trivial
    · exact aside_parse
  · split
    · refine Keeps.bind (aside_unknown.bind fun value => ?_) fun _ => trivial
      rcases stored with _ | ⟨version, raw⟩
      · exact aside_await.bind fun _ => trivial
      · exact aside_updateRun
    · split <;> trivial

theorem aside_recoverReservations {reservations kept : List RunState} :
    Aside (recoverReservations reservations kept) := by
  induction reservations generalizing kept with
  | nil => trivial
  | cons reservation rest ih => exact aside_recoverReservation.bind fun _ => ih

theorem aside_recoverTime {schedule : StoredSchedule} : Aside (recoverTime o schedule) := by
  unfold recoverTime
  split
  · refine aside_now.bind fun instant => ?_
    split
    · exact aside_now.bind fun _ => aside_ofExcept.bind fun _ => trivial
    · trivial
  · trivial

theorem aside_recoverSchedules {rows : List ScheduleRow} : Aside (recoverSchedules o rows) := by
  induction rows with
  | nil => trivial
  | cons row rest ih =>
    refine Keeps.bind ?_ fun _ => ih
    exact Keeps.bind aside_parse fun _ => aside_recoverReservations.bind fun _ =>
      aside_recoverTime.bind fun _ => aside_save

theorem aside_initializeOnce : Aside (initializeOnce o) := by
  refine Keeps.bind (aside_ask (by simp [Apart, Within])) fun first => ?_
  split
  · have hrecover : Aside (recover o) := aside_schedules.bind fun rows => aside_recoverSchedules
    refine Keeps.bind (aside_attempt hrecover) fun result => ?_
    exact Keeps.bind (aside_ask (by simp [Apart, Within])) fun _ => aside_ofExcept
  · exact aside_askOr (by simp [Apart, Within])

theorem aside_nextTime {schedule : StoredSchedule} : Aside (nextTime o schedule) := by
  unfold nextTime
  split
  · exact aside_now.bind fun _ => aside_ofExcept.bind fun _ => trivial
  · trivial

theorem aside_takeSlot {s : ScheduleState} {due : Int} : Aside (takeSlot o id n s due runId) :=
  aside_now.bind fun _ => aside_now.bind fun _ => aside_nextTime.bind fun _ =>
    aside_save.bind fun _ => aside_await.bind fun _ => trivial

theorem aside_expired {schedule : StoredSchedule} : Aside (expired schedule) := by
  unfold expired
  split
  · trivial
  · exact aside_now.bind fun _ => trivial

theorem aside_reserve {due : Int} {automatic : Bool} : Aside (reserve o id due runId automatic) := by
  refine Keeps.bind aside_await fun found => ?_
  rcases found with _ | _
  swap
  · trivial
  refine aside_read.bind fun ⟨version, state⟩ => ?_
  simp only
  split
  · trivial
  split
  · trivial
  refine aside_expired.bind fun late => ?_
  split
  · trivial
  split
  · trivial
  · exact aside_takeSlot.bind fun _ => trivial

theorem aside_fire {due : Int} {key : String} {automatic : Bool} :
    Aside (fire o id due key automatic) := by
  refine Keeps.bind (aside_ask (by simp [Apart, Within])) fun ticket => ?_
  rcases ticket with _ | _ | _ | _
  · trivial
  · exact aside_askOr (by simp [Apart, Within])
  · trivial
  · refine Keeps.bind (aside_attempt aside_reserve) fun result => ?_
    rcases result with e | found
    · exact Keeps.bind (aside_ask (by simp [Apart, Within])) fun _ => trivial
    · rcases found with _ | slot
      · exact aside_ask (by simp [Apart, Within])
      · exact aside_ask (by simp [Apart, Within])

theorem aside_releaseAttempts {left : Nat} : Aside (releaseAttempts id runId left) := by
  induction left with
  | zero => trivial
  | succ left ih =>
    refine aside_read.bind fun ⟨version, state⟩ => ?_
    refine Keeps.bind (aside_attempt aside_save) fun result => ?_
    rcases result with e | _
    · simp only
      split
      · trivial
      · exact ih
    · trivial

theorem aside_deleteRuns {rows : List RunRow} : Aside (deleteRuns rows) := by
  induction rows with
  | nil => trivial
  | cons row rest ih => exact aside_await.bind fun _ => ih

theorem aside_runs : Aside (runs id) := aside_runRows.bind fun _ => trivial

theorem aside_prune : Aside (prune o id) := aside_runs.bind fun _ => aside_deleteRuns

theorem aside_recordFailure {v : RunState} {e : Err} : Aside (recordFailure id runId n v e) := by
  unfold recordFailure
  split
  · exact aside_now.bind fun _ => aside_updateRun.bind fun _ => aside_releaseAttempts
  · exact aside_unknown.bind fun _ => aside_updateRun

theorem aside_settle {v : RunState} : Aside (settle o id runId n v) := by
  refine Keeps.bind (aside_ask (by simp [Apart, Within])) fun result =>
    Keeps.bind ?_ fun _ => aside_prune
  rcases result with e | dispatched
  · exact aside_recordFailure
  · refine Keeps.bind (aside_attempt aside_updateRun) fun result => ?_
    rcases result with e | _
    · exact aside_recordFailure
    · trivial

theorem aside_completeRun {outcome : ScheduleOutcome} : Aside (completeRun o runId outcome) := by
  refine Keeps.bind aside_await fun found => ?_
  rcases found with _ | ⟨version, raw⟩
  · trivial
  refine aside_parse.bind fun state => ?_
  simp only
  split
  · exact aside_releaseAttempts.bind fun _ => aside_prune
  · exact aside_now.bind fun _ => aside_updateRun.bind fun _ =>
      aside_releaseAttempts.bind fun _ => aside_prune

theorem aside_observation {v : RunState} : Aside (observation o v) := by
  refine Keeps.bind (aside_askOr (by simp [Apart, Within])) fun found => ?_
  rcases found with _ | outcome
  · trivial
  · exact aside_completeRun

theorem aside_saveQuietly {s : ScheduleState} : Aside (saveQuietly id n s) := by
  refine Keeps.bind (aside_attempt aside_save) fun result => ?_
  rcases result with e | _
  · simp only
    split <;> trivial
  · trivial

theorem aside_visit {tickTime : Int} {row : ScheduleRow} : Aside (visit o tickTime row) := by
  refine aside_parse.bind fun state => ?_
  simp only
  split
  · trivial
  split
  · exact aside_saveQuietly.bind fun _ => trivial
  refine Keeps.bind (aside_ask (by simp [Apart, Within])) fun saturated => ?_
  split
  · exact aside_ofExcept.bind fun _ => aside_saveQuietly.bind fun _ => trivial
  refine Keeps.bind (aside_attempt aside_fire) fun result => ?_
  rcases result with e | _
  · refine Keeps.bind (aside_ask (by simp [Apart, Within])) fun stopping => ?_
    split
    · trivial
    · split <;> trivial
  · trivial

theorem aside_eachSchedule {tickTime : Int} {rows : List ScheduleRow} :
    Aside (eachSchedule o tickTime rows) := by
  induction rows with
  | nil => trivial
  | cons row rest ih =>
    refine Keeps.bind (aside_ask (by simp [Apart, Within])) fun stopping => ?_
    split
    · trivial
    refine aside_visit.bind fun go => ?_
    split
    · exact ih
    · trivial

theorem Keeps.within {p : Task α} (h : Aside p) : p.Keeps Within fun _ => True :=
  h.mono (fun _ hq => hq.1) fun _ _ => trivial

theorem within_tickOnce : (tickOnce o).Keeps Within fun _ => True := by
  have hbegin : (beginTick o).Keeps Within fun _ => True := by
    refine Keeps.bind (Keeps.within aside_initializeOnce) fun _ =>
      Keeps.bind (Keeps.within (aside_ask (by simp [Apart, Within]))) fun stopping => ?_
    split
    · trivial
    · have hentry : (ask (S := sys) .entry).Keeps Within fun _ => True :=
        ⟨by simp [Within], fun _ => trivial⟩
      exact hentry.bind fun tickTime => Keeps.bind (Keeps.within aside_runRows) fun rows =>
        Keeps.bind (Keeps.within (aside_ask (by simp [Apart, Within]))) fun _ => trivial
  refine hbegin.bind fun found => ?_
  rcases found with _ | tickTime
  · trivial
  · exact Keeps.within (aside_schedules.bind fun _ => aside_eachSchedule)

theorem aside_readAllowed {principal : GatewayPrincipal} : Aside (readAllowed id principal) := by
  refine aside_read.bind fun ⟨version, state⟩ => ?_
  simp only
  split <;> trivial

theorem aside_create {input : NewSchedule} {requestId : String} {principal : GatewayPrincipal} :
    Aside (create o input requestId principal) := by
  refine aside_now.bind fun _ => Keeps.bind (aside_ask (by simp [Apart, Within])) fun _ =>
    aside_now.bind fun _ => aside_ofExcept.bind fun _ =>
      Keeps.bind (aside_askOr (by simp [Apart, Within])) fun _ => aside_await.bind fun _ => ?_
  split
  · exact aside_fire
  · trivial

theorem aside_delete {principal : GatewayPrincipal} : Aside (delete id principal) := by
  refine aside_readAllowed.bind fun ⟨version, state⟩ => ?_
  simp only
  split
  · trivial
  · exact aside_await.bind fun _ => aside_runs.bind fun _ => aside_deleteRuns

theorem aside_update {changes : Changes} {principal : GatewayPrincipal} :
    Aside (update o id changes principal) := by
  refine aside_readAllowed.bind fun ⟨version, state⟩ => aside_ofExcept.bind fun target =>
    Keeps.bind (aside_askOr (by simp [Apart, Within])) fun binding => ?_
  simp only
  split
  · trivial
  refine aside_now.bind fun updatedAt => ?_
  split
  · exact aside_nextTime.bind fun _ => aside_save
  · exact aside_save

theorem aside_handle {message : Message} {principal : GatewayPrincipal} :
    Aside (handle o message principal) := by
  refine Keeps.bind (aside_ask (by simp [Apart, Within])) fun stopping => ?_
  split
  · trivial
  refine aside_initializeOnce.bind fun _ => ?_
  rcases message with ⟨input, requestId⟩ | id | id | id | ⟨id, changes⟩ | ⟨id, requestId⟩
  · exact aside_create
  · exact aside_delete
  · exact aside_readAllowed.bind fun _ => aside_now.bind fun _ => aside_now.bind fun _ => aside_save
  · exact aside_readAllowed.bind fun _ => aside_now.bind fun _ => aside_ofExcept.bind fun _ =>
      aside_now.bind fun _ => aside_save
  · exact aside_update
  · exact aside_readAllowed.bind fun _ => aside_now.bind fun _ => aside_fire

/-- Only a tick enters, takes the latch or gives it back. -/
theorem aside_program {t : Tid} {call : Call} (h : call ≠ .tick) : Aside (program o t call) := by
  rcases call with _ | _ | ⟨message, principal⟩ | ⟨id, concurrency, principal⟩ | ⟨runId, outcome⟩ |
    _ | ⟨id, runId, persisted, run⟩ | state
  · exact aside_initializeOnce
  · exact absurd rfl h
  · exact aside_handle
  · exact aside_readAllowed.bind fun _ => aside_save
  · exact aside_completeRun
  · exact aside_ask (by simp [Apart, Within])
  · exact Keeps.andFinally aside_settle (aside_ask (by simp [Apart, Within]))
  · exact Keeps.andFinally aside_observation (aside_ask (by simp [Apart, Within]))

end Aside

/-! ### The latch of the tick -/

/-- A tick that has been let in and has not left. -/
def Inside : Task Unit → Prop
  | .ret _ => False
  | .fail _ => False
  | .call q k => (Within q ∧ ∀ r, Inside (k r) ∨ (k r).settled = true) ∨
      (q = .ext .leaveTick ∧ ∀ r, (k r).settled = true)

theorem inside_andFinally {p : Task Unit} (h : p.Keeps Within fun _ => True) :
    Inside (p.andFinally (ask (S := sys) .leaveTick)) := by
  induction p with
  | ret a => exact .inr ⟨rfl, fun _ => rfl⟩
  | fail e => exact .inr ⟨rfl, fun _ => rfl⟩
  | call q k ih => exact .inl ⟨h.1, fun r => .inl (ih r (h.2 r))⟩

theorem Inside.answer {q : Req sys} {k : q.Res → Task Unit} (h : Inside (.call q k)) (r : q.Res) :
    Inside (k r) ∨ (k r).settled = true := by
  rcases h with ⟨-, h⟩ | ⟨-, h⟩
  · exact h r
  · exact .inr (h r)

theorem not_inside_of_settled {p : Task Unit} (h : p.settled = true) : ¬ Inside p := by
  rcases p with a | e | ⟨q, k⟩
  · exact fun h => h
  · exact fun h => h
  · cases h

/-- A tick waits to be let in, is inside or is over. -/
theorem tick_leads {p : Task Unit} (h : (tick o).Leads p) :
    p = tick o ∨ Inside p ∨ p.settled = true := by
  have hinside {p p' : Task Unit} (hp : Inside p ∨ p.settled = true) (h : p.Leads p') :
      Inside p' ∨ p'.settled = true := by
    induction h with
    | refl p => exact hp
    | step r _ ih =>
      rcases hp with hp | hp
      · exact ih (hp.answer r)
      · cases hp
  rcases h.of_call with rfl | ⟨first, h⟩
  · exact .inl rfl
  · refine .inr (hinside ?_ h)
    rcases first with _ | _
    · exact .inr rfl
    · exact .inl (inside_andFinally within_tickOnce)

theorem reply_ticking {c : Choice} {mem : Mem} {drawn : List String} {x : Ext}
    (hx : Within (.ext x)) {r : x.Res × List Note × Mem × List Call}
    (h : reply o c mem drawn x = some r) : r.2.2.1.ticking = mem.ticking := by
  cases x with
  | enterTick => exact absurd rfl hx.1
  | leaveTick => exact absurd rfl hx.2
  | initializeOnce | initialization =>
    simp only [reply] at h
    split at h <;> cases h <;> rfl
  | fire id scheduledFor runId =>
    simp only [reply] at h
    split at h <;> cases h <;> rfl
  | preparation runId =>
    simp only [reply] at h
    split at h <;> cases h
    rfl
  | randomUUID =>
    simp only [reply] at h
    split at h <;> cases h
    rfl
  | _ =>
    cases h
    rfl

/-- A request that leaves the latch alone keeps the flag. -/
theorem perform_ticking {t : Tid} {w w' : World sys} {pick : Pick (machine o)} {q : Req sys}
    {r : q.Res} (hq : Within q) (h : (machine o).perform t w pick q = some (r, w')) :
    (w'.mem t.proc).ticking = (w.mem t.proc).ticking := by
  rcases pick with c | c <;> rcases q with q | x
  · cases h
    rfl
  · cases h
  · cases h
  · obtain ⟨a, ha, heq⟩ := Option.map_eq_some_iff.mp h
    obtain ⟨reply, hreply, rfl⟩ := Option.map_eq_some_iff.mp ha
    cases heq
    rw [World.spawnAll_mem, World.answered_mem_self]
    exact reply_ticking hq hreply

/-- A tick that is let in finds the flag clear and sets it. -/
theorem perform_enterTick {t : Tid} {w w' : World sys} {pick : Pick (machine o)}
    {first : Bool} (h : (machine o).perform t w pick (.ext .enterTick) = some (first, w')) :
    (first = true → (w.mem t.proc).ticking = false ∧ (w'.mem t.proc).ticking = true) ∧
      (first = false → (w'.mem t.proc).ticking = (w.mem t.proc).ticking) := by
  rcases pick with c | c
  · cases h
  · obtain ⟨a, ha, heq⟩ := Option.map_eq_some_iff.mp h
    obtain ⟨r, hr, rfl⟩ := Option.map_eq_some_iff.mp ha
    cases heq
    simp only [reply] at hr
    split at hr <;> cases hr
    · refine ⟨by simp, fun _ => ?_⟩
      rw [World.spawnAll_mem, World.answered_mem_self]
    · next hopen =>
      refine ⟨fun _ => ⟨by simpa using (not_or.mp hopen).2, ?_⟩, by simp⟩
      rw [World.spawnAll_mem, World.answered_mem_self]

/-- Only the entry of a tick is noted as one. -/
theorem reply_entered {c : Choice} {mem : Mem} {drawn : List String} {x : Ext} {instant : Int}
    {r : x.Res × List Note × Mem × List Call} (h : reply o c mem drawn x = some r)
    (hmem : .entered instant ∈ r.2.1) : x = .entry := by
  by_cases hplain : Plain x
  · have hnotes := (reply_plain hplain h).1
    generalize hn : r.2.1 = notes at hnotes hmem
    rcases hnotes with _ | _ | _ | _ <;> simp at hmem
    rfl
  · cases x with
    | dispatch input automatic persisted run =>
      cases h
      simp at hmem
    | observe states =>
      cases h
      simp at hmem
    | randomUUID =>
      simp only [reply] at h
      split at h <;> cases h
      simp at hmem
    | _ => exact absurd trivial hplain

theorem perform_entered {t u : Tid} {w w' : World sys} {pick : Pick (machine o)} {q : Req sys}
    {r : q.Res} {new : History} {x : Int}
    (h : (machine o).perform t w pick q = some (r, w')) (htr : w'.trace = new ++ w.trace)
    (he : .note (some u) (.entered x) ∈ new) : q = .ext .entry := by
  rcases q with q | y
  · obtain ⟨new', htr', hwrites⟩ := Machine.perform_store h
    rw [htr] at htr'
    obtain rfl := List.append_cancel_right htr'
    cases hwrites _ he
  rcases pick with c | c
  · cases h
  · obtain ⟨a, ha, heq⟩ := Option.map_eq_some_iff.mp h
    obtain ⟨r, hr, rfl⟩ := Option.map_eq_some_iff.mp ha
    cases heq
    rw [World.spawnAll_trace, World.answered_trace] at htr
    rw [← List.append_cancel_right htr] at he
    obtain ⟨note, hnote, heq⟩ := List.mem_map.mp he
    cases heq
    rw [reply_entered hr hnote]

/-- The ticks of a process exclude one another. -/
def tickLatch (o : Options) : Latch (machine o) where
  flag := Mem.ticking
  Holding := fun call p => call = .tick ∧ Inside p
  Marks := fun e => ∃ u x, e = .note (some u) (.entered x)
  opening := by
    rintro t call ⟨rfl, h⟩
    rcases h with ⟨hwithin, -⟩ | ⟨heq, -⟩
    · exact hwithin.1 rfl
    · cases heq
  taken := by
    intro t call q k w pick r w' hleads hperf hbefore hafter
    obtain ⟨rfl, hinside⟩ := hafter
    rcases tick_leads hleads with heq | hin | hover
    · cases heq
      obtain ⟨hentered, -⟩ := perform_enterTick hperf
      rcases r with _ | _
      · exact hinside.elim
      · exact hentered rfl
    · exact absurd ⟨rfl, hin⟩ hbefore
    · cases hover
  kept := by
    intro t call q k w pick r w' hleads hperf hsame
    by_cases hcall : call = .tick
    · subst hcall
      rcases tick_leads hleads with heq | hin | hover
      · cases heq
        obtain ⟨-, hrefused⟩ := perform_enterTick hperf
        rcases r with _ | _
        · exact hrefused rfl
        · exact absurd (hsame.mpr ⟨rfl, inside_andFinally within_tickOnce⟩).2
            (fun h => by rcases h with ⟨hwithin, -⟩ | ⟨heq, -⟩; exact hwithin.1 rfl; cases heq)
      · have hstill := (hsame.mp ⟨rfl, hin⟩).2
        rcases hin with ⟨hwithin, -⟩ | ⟨-, hover⟩
        · exact perform_ticking hwithin hperf
        · exact absurd hstill (not_inside_of_settled (hover r))
      · cases hover
    · have hkeeps := (aside_program (o := o) (t := t) hcall).leads hleads
      exact perform_ticking hkeeps.1.1 hperf
  left := by
    rintro t call q k hleads ⟨rfl, hin⟩ r
    exact (hin.answer r).imp_left fun h => ⟨rfl, h⟩
  marked := by
    rintro t call q k w pick r w' new hleads hperf htr e he ⟨u, x, rfl⟩
    obtain rfl := perform_entered hperf htr he
    by_cases hcall : call = .tick
    · subst hcall
      rcases tick_leads hleads with heq | hin | hover
      · cases heq
      · exact ⟨rfl, hin⟩
      · cases hover
    · exact absurd rfl ((aside_program (o := o) (t := t) hcall).leads hleads).1.2

/-! ### Time -/

def clock : ScheduleEntry → Option Int
  | .note _ (.clock x) => some x
  | _ => none

/-- The clock never goes back. -/
def Steady (tr : History) : Prop := (tr.filterMap clock).Pairwise (· ≥ ·)

/-- The next time of a cron expression lies behind the instant asked for. -/
def Forward (o : Options) : Prop :=
  ∀ expression timezone x next, o.cron expression timezone x = .ok next → x < next

section Time

variable {tr older : History} {t : Tid} {x y : Int}

theorem Steady.suffix (h : Steady tr) (hs : older <:+ tr) : Steady older :=
  List.Pairwise.sublist (hs.sublist.filterMap clock) h

/-- What is read later is not earlier. -/
theorem Steady.le_of_read (h : Steady tr) (hread : ReadSince t n y tr) (hs : older <:+ tr)
    (hn : older.length ≤ n) {a : Option Tid} (hx : .note a (.clock x) ∈ older) : x ≤ y := by
  obtain ⟨newer, before, rfl, hlt⟩ := hread
  have hbefore : older <:+ before := List.suffix_of_suffix_length_le hs
    ((List.suffix_cons _ _).trans (List.suffix_append _ _)) (by omega)
  have hsteady := h.suffix (List.suffix_append newer _)
  have hpair : List.Pairwise (· ≥ ·) (y :: before.filterMap clock) := hsteady
  exact List.rel_of_pairwise_cons hpair
    (List.mem_filterMap.mpr ⟨_, hbefore.subset hx, rfl⟩)

theorem Forward.lt (h : Forward o) {cadence : Cadence}
    (hnext : nextScheduleTime o cadence x = .ok y) : x < y := by
  rcases cadence with everyMs | ⟨expression, timezone⟩
  · simp only [nextScheduleTime] at hnext
    split at hnext
    · cases hnext
    next hrange =>
    split at hnext
    · cases hnext
    · cases hnext
      omega
  · simp only [nextScheduleTime] at hnext
    split at hnext
    · next hcron =>
      cases hnext
      exact h _ _ _ _ hcron
    · cases hnext

end Time

/-! ### The order of reservations -/

section Order

variable {calls : Calls sys} {tr mid : History} {t : Tid} {s s' : ScheduleState} {run : RunState}

/-- The clock was read at the entry of a tick. -/
theorem Legal.entered (h : Legal o calls tr) {newer older : History} {x : Int}
    (htr : tr = newer ++ .note (some t) (.entered x) :: older) :
    .note (some t) (.clock x) ∈ older := by
  subst htr
  cases (Law.Legal.split h).2 with
  | entered hclock =>
    rw [hclock]
    exact List.mem_cons_self

/-- The time that a punctual reservation sets lies behind its occurrence. -/
theorem Punctual.lt (h : Punctual o t s s' run mid) (hforward : Forward o)
    (hlegal : Legal o calls mid) (hsteady : Steady mid) {next : Int}
    (hnext : s'.schedule.nextRunAt = some next) : run.run.scheduledFor < next := by
  obtain ⟨newer, x, older, hmid, hle, -, hread⟩ := h.entered
  obtain ⟨cadence, y, hy, htime⟩ := hread next hnext
  have hxy : x ≤ y := by
    refine hsteady.le_of_read hy ?_ (Nat.le_refl _) (Legal.entered hlegal hmid)
    rw [hmid]
    exact (List.suffix_cons _ _).trans (List.suffix_append _ _)
  have hlt := hforward.lt htime
  omega

/-- Behind a punctual reservation, every later next time lies behind its occurrence. -/
theorem Legal.next_behind {newer : History} (hforward : Forward o)
    (h : Legal o calls (newer ++ .update (some t) (.schedule id) (.valid s') :: mid))
    (hsteady : Steady (newer ++ .update (some t) (.schedule id) (.valid s') :: mid))
    (hpunctual : Punctual o t s s' run mid) {s'' : ScheduleState}
    (hlook : lookup (.schedule id) (newer ++ .update (some t) (.schedule id) (.valid s') :: mid) =
      some (n, .valid s'')) {next : Int} (hnext : s''.schedule.nextRunAt = some next) :
    run.run.scheduledFor < next := by
  induction newer generalizing n s'' next with
  | nil =>
    have hcur : lookup (.schedule id) (.update (some t) (.schedule id) (.valid s') :: mid) =
        some (mid.length, .valid s') := lookup_update_self _ _ _ _
    rw [List.nil_append, hcur] at hlook
    cases hlook
    exact hpunctual.lt hforward h.1 (hsteady.suffix (List.suffix_cons _ _)) hnext
  | cons e newer ih =>
    obtain ⟨older, hold⟩ : ∃ older, older =
      newer ++ .update (some t) (.schedule id) (.valid s') :: mid := ⟨_, rfl⟩
    rw [List.cons_append, ← hold] at h hsteady hlook
    have hrest : Steady older := hsteady.suffix (List.suffix_cons _ _)
    rw [← hold] at ih
    -- what is read after the current version was written is read after the entry of the tick
    have hlater {u : Tid} {m : Nat} {s₁ : ScheduleState} {y : Int}
        (hcur : lookup (.schedule id) older = some (m, .valid s₁)) (hread : ReadSince u m y older) :
        run.run.scheduledFor ≤ y := by
      obtain ⟨nw, x, od, hmid, hle, -⟩ := hpunctual.entered
      have hentered : .note (some t) (.clock x) ∈ mid := by
        have hlegal : Legal o calls mid := (Law.Legal.split (hold ▸ h.1)).1
        rw [hmid]
        exact List.mem_append_right _ (List.mem_cons_of_mem _ (Legal.entered hlegal hmid))
      have hversion : mid.length ≤ m := length_le_version rfl (hold ▸ hcur)
      have hsuffix : mid <:+ older := by
        rw [hold]
        exact (List.suffix_cons _ _).trans (List.suffix_append _ _)
      exact hle.trans (hrest.le_of_read hread hsuffix hversion hentered)
    by_cases hkey : e.key? = some (.schedule id)
    · rcases Step.schedule h.2 hkey with
        ⟨u, s₁, rfl, -, hnew, -⟩ | ⟨m, s₁, hcur, ⟨u, rfl, -⟩ | ⟨u, s₂, rfl, hstep⟩⟩
      · refine absurd ?_ (hnew (.update (some t) (.schedule id) (.valid s')) (by rw [hold]; simp))
        simp [Entry.key?]
      · rw [lookup_delete_self] at hlook
        cases hlook
      rw [lookup_update_self] at hlook
      cases hlook
      rcases hstep with hedits | ⟨run', hreserves⟩
      · have hn := hedits.next
        rw [hnext] at hn
        generalize hprev : s₁.schedule.nextRunAt = prev at hn
        generalize hsome : some next = now at hn
        rcases hn with _ | _ | ⟨hx, htime⟩ | ⟨hx, hdue, hle, htime⟩
        · exact ih h.1 hrest hcur (hprev.trans hsome.symm)
        · cases hsome
        · cases hsome
          exact (hlater hcur hx).trans_lt (hforward.lt htime)
        · cases hsome
          exact (ih h.1 hrest hcur (hprev.trans hdue)).trans_le (hle.trans (hforward.lt htime).le)
      · obtain ⟨updatedAt, nextRunAt, rfl, hactive, hother⟩ := hreserves.state
        rcases reserved_timed (s := s₁) run' updatedAt nextRunAt with ⟨-, hset⟩ | ⟨-, hnone⟩
        · rw [hset] at hnext
          by_cases hstatus : s₁.schedule.status = .active
          · obtain ⟨y, time, hread, htime, rfl⟩ := hactive hstatus
            cases hnext
            exact (hlater hcur hread).trans_lt (hforward.lt htime)
          · exact ih h.1 hrest hcur ((hother hstatus).symm.trans hnext)
        · rw [hnone] at hnext
          cases hnext
    · rw [lookup_cons_of_ne hkey] at hlook
      exact ih h.1 hrest hlook hnext

end Order

/-! ### The order of dispatches -/

/-- The occurrence of the schedule that an automatic dispatch is for. -/
def occurrence (id : String) : ScheduleEntry → Option Int
  | .note _ (.dispatch input true) =>
    if input.schedule.id = id then input.schedule.lastRunAt else none
  | _ => none

section Dispatches

variable {calls : Calls sys} {tr older : History} {t : Tid} {input : ScheduleDispatch}

/-- What an automatic dispatch goes back to. -/
structure Reservation (o : Options) (t : Tid) (id : String) (due : Int) (mid older : History) :
    Prop where
  split : ∃ s' newer, older = newer ++ .update (some t) (.schedule id) (.valid s') :: mid ∧
    (∀ input automatic, .note (some t) (.dispatch input automatic) ∉ newer) ∧
    ∃ n s run, lookup (.schedule id) mid = some (n, .valid s) ∧ Punctual o t s s' run mid ∧
      run.run.scheduledFor = due

@[simp] theorem reserved_lastRunAt {s : ScheduleState} (run : RunState) (updatedAt : Int)
    (nextRunAt : Option Int) :
    (reserved s run updatedAt nextRunAt).schedule.lastRunAt = some run.run.scheduledFor := by
  simp only [reserved]
  split <;> rfl

theorem occurrence_some {e : ScheduleEntry} {due : Int} (h : occurrence id e = some due) :
    ∃ a input, e = .note a (.dispatch input true) ∧ input.schedule.id = id ∧
      input.schedule.lastRunAt = some due := by
  unfold occurrence at h
  split at h
  · split at h
    · next hid => exact ⟨_, _, rfl, hid, h⟩
    · cases h
  · cases h

theorem Prepared.reservation (h : Prepared o calls t input true older) :
    ∃ due mid, input.schedule.lastRunAt = some due ∧
      Reservation o t input.schedule.id due mid older := by
  obtain ⟨run, s, s', mid, htook, hid, hinput, -, hauto⟩ := h.took
  obtain ⟨newer, hsplit, hquiet⟩ := htook.split
  obtain ⟨n, hlook, hreserves⟩ := htook.holds
  obtain ⟨updatedAt, nextRunAt, hs', -⟩ := hreserves.state
  have hschedule : input.schedule = s'.schedule := by rw [hinput]; rfl
  refine ⟨run.run.scheduledFor, mid, ?_, ?_⟩
  · rw [hschedule, hs', reserved_lastRunAt]
  · rw [hschedule, hs', reserved_id]
    exact ⟨⟨s', newer, hsplit, hquiet, n, s, run, hlook, hauto rfl, rfl⟩⟩

/-- Among two reservations of a schedule, the later one is for a later occurrence. -/
theorem Reservation.lt {t₁ t₂ : Tid} {due₁ due₂ : Int} {mid₁ mid₂ older₁ older₂ : History}
    (h₁ : Reservation o t₁ id due₁ mid₁ older₁) (h₂ : Reservation o t₂ id due₂ mid₂ older₂)
    (hforward : Forward o) (hlegal : Legal o calls mid₂) (hsteady : Steady mid₂)
    (hbefore : ∀ s, .update (some t₁) (.schedule id) (.valid s) :: mid₁ <:+ older₁ →
      .update (some t₁) (.schedule id) (.valid s) :: mid₁ <:+ mid₂) : due₁ < due₂ := by
  obtain ⟨s₁', newer₁, rfl, -, _, _, _, -, hpunctual₁, rfl⟩ := h₁.split
  obtain ⟨s₂', newer₂, -, -, n, s₂, run₂, hlook, hpunctual₂, rfl⟩ := h₂.split
  obtain ⟨newer, rfl⟩ := hbefore s₁' (List.suffix_append _ _)
  exact Legal.next_behind hforward hlegal hsteady hpunctual₁ hlook hpunctual₂.next

theorem Reservation.entered {due : Int} {mid : History} (h : Reservation o t id due mid older) :
    ∃ x before, .note (some t) (.entered x) :: before <:+ mid ∧ due ≤ x ∧ x ≤ due + 1000 := by
  obtain ⟨_, _, -, -, _, _, _, -, hpunctual, rfl⟩ := h.split
  obtain ⟨newer, x, before, hmid, hle, hlt, -⟩ := hpunctual.entered
  exact ⟨x, before, ⟨newer, hmid.symm⟩, hle, hlt⟩

theorem passed_of {u : Tid} {x y : Int} {newer before tr : History} (hne : t ≠ u)
    (hproc : t.proc = u.proc) (htr : tr = newer ++ .note (some u) (.entered y) :: before)
    (hmem : .note (some t) (.entered x) ∈ before) : (tickLatch o).Passed t newer tr :=
  ⟨_, before, u, htr, ⟨u, y, rfl⟩, rfl, hne, hproc, _, hmem, ⟨t, x, rfl⟩, rfl⟩

/-- Where the ticks exclude one another, a reservation behind a dispatch lies behind the one of
    that dispatch. -/
theorem Reservation.follows {t₁ t₂ : Tid} {due₁ due₂ : Int} {mid₁ mid₂ older₁ older₂ : History}
    {input₁ input₂ : ScheduleDispatch} (h₁ : Reservation o t₁ id due₁ mid₁ older₁)
    (h₂ : Reservation o t₂ id due₂ mid₂ older₂) (hproc : t₁.proc = t₂.proc)
    (hserial : ∀ t newer, (tickLatch o).Passed t newer
      (.note (some t₂) (.dispatch input₂ true) :: older₂) → ∀ e ∈ newer, e.author ≠ some t)
    (hold : .note (some t₁) (.dispatch input₁ true) :: older₁ <:+ older₂) :
    .note (some t₁) (.dispatch input₁ true) :: older₁ <:+ mid₂ := by
  obtain ⟨s₂', newer₂, hsplit₂, hquiet, -⟩ := h₂.split
  have hreserved : .update (some t₂) (.schedule id) (.valid s₂') :: mid₂ <:+ older₂ :=
    ⟨newer₂, hsplit₂.symm⟩
  rcases List.suffix_or_suffix_of_suffix hold hreserved with hbefore | hafter
  · rcases List.suffix_cons_iff.mp hbefore with heq | hbefore
    · cases heq
    · exact hbefore
  rcases List.suffix_cons_iff.mp hafter with heq | hafter
  · cases heq
  -- the dispatch lies between the reservation and its own dispatch
  obtain ⟨between, hbetween⟩ := hold
  obtain ⟨rest, hrest⟩ := hafter
  have hmem : .note (some t₁) (.dispatch input₁ true) ∈ newer₂ := by
    have heq : newer₂ = between ++ .note (some t₁) (.dispatch input₁ true) :: rest := by
      have hboth : newer₂ ++ .update (some t₂) (.schedule id) (.valid s₂') :: mid₂ =
          (between ++ .note (some t₁) (.dispatch input₁ true) :: rest) ++
            .update (some t₂) (.schedule id) (.valid s₂') :: mid₂ := by
        rw [← hsplit₂, ← hbetween, ← hrest]
        simp
      exact List.append_cancel_right hboth
    rw [heq]
    simp
  by_cases hsame : t₁ = t₂
  · subst hsame
    exact absurd hmem (hquiet _ _)
  obtain ⟨x₁, before₁, hentered₁, -, -⟩ := h₁.entered
  obtain ⟨x₂, before₂, hentered₂, -, -⟩ := h₂.entered
  obtain ⟨s₁', newer₁, hsplit₁, -⟩ := h₁.split
  have hin₁ : .note (some t₁) (.entered x₁) :: before₁ <:+ older₁ := by
    rw [hsplit₁]
    exact hentered₁.trans ((List.suffix_cons _ _).trans (List.suffix_append _ _))
  have hin₂ : .note (some t₂) (.entered x₂) :: before₂ <:+ older₁ := by
    rw [← hrest]
    exact hentered₂.trans ((List.suffix_cons _ _).trans (List.suffix_append _ _))
  rcases List.suffix_or_suffix_of_suffix hin₁ hin₂ with hfirst | hfirst
  · rcases List.suffix_cons_iff.mp hfirst with heq | hfirst
    · cases heq
      exact absurd rfl hsame
    obtain ⟨newer, rfl⟩ := hin₂
    refine absurd rfl (hserial t₁ (.note (some t₂) (.dispatch input₂ true) :: (between ++
      .note (some t₁) (.dispatch input₁ true) :: newer)) (passed_of (y := x₂) hsame hproc ?_
      (hfirst.subset List.mem_cons_self)) (.note (some t₁) (.dispatch input₁ true)) (by simp))
    rw [← hbetween]
    simp
  · rcases List.suffix_cons_iff.mp hfirst with heq | hfirst
    · cases heq
      exact absurd rfl hsame
    obtain ⟨newer, rfl⟩ := hin₁
    refine absurd rfl (hserial t₂ (.note (some t₂) (.dispatch input₂ true) :: (between ++
      .note (some t₁) (.dispatch input₁ true) :: newer)) (passed_of (y := x₁) (Ne.symm hsame)
      hproc.symm ?_
      (hfirst.subset List.mem_cons_self)) (.note (some t₂) (.dispatch input₂ true)) (by simp))
    rw [← hbetween]
    simp

theorem Legal.dispatched (h : Legal o calls tr) {newer : History} {a : Option Tid}
    (htr : tr = newer ++ .note a (.dispatch input true) :: older) :
    ∃ t, a = some t ∧ Prepared o calls t input true older := by
  subst htr
  cases (Law.Legal.split h).2 with
  | dispatch hprepared => exact ⟨_, rfl, hprepared⟩

/-- Each occurrence is dispatched once and they come in order, where the ticks exclude one
    another and the dispatches are all of one process. -/
theorem Legal.increase (h : Legal o calls tr) (hforward : Forward o) (hsteady : Steady tr)
    (hserial : ∀ t newer, (tickLatch o).Passed t newer tr → ∀ e ∈ newer, e.author ≠ some t)
    {p : Nat} (hproc : ∀ t, Fires calls t → t.proc = p) :
    (tr.filterMap (occurrence id)).Pairwise (· > ·) := by
  induction tr with
  | nil => exact List.Pairwise.nil
  | cons e older ih =>
    have hbefore := ih h.1 (hsteady.suffix (List.suffix_cons _ _)) fun t newer hpassed x hx => by
      obtain ⟨e', before, u, rfl, hrest⟩ := hpassed
      exact hserial t (e :: newer) ⟨e', before, u, rfl, hrest⟩ x (List.mem_cons_of_mem _ hx)
    rw [List.filterMap_cons]
    split
    · exact hbefore
    next due₂ hdue₂ =>
    refine List.pairwise_cons.mpr ⟨fun due₁ hdue₁ => ?_, hbefore⟩
    obtain ⟨e₁, he₁, hoccurrence₁⟩ := List.mem_filterMap.mp hdue₁
    obtain ⟨a₁, input₁, rfl, rfl, hlast₁⟩ := occurrence_some hoccurrence₁
    obtain ⟨a₂, input₂, rfl, hid, hlast₂⟩ := occurrence_some hdue₂
    obtain ⟨between, older₁, hsplit⟩ := List.append_of_mem he₁
    obtain ⟨t₁, rfl, hprepared₁⟩ := Legal.dispatched h.1 hsplit
    obtain ⟨t₂, rfl, hprepared₂⟩ := Legal.dispatched h (List.nil_append _).symm
    obtain ⟨_, mid₁, hsome₁, h₁⟩ := hprepared₁.reservation
    obtain ⟨_, mid₂, hsome₂, h₂⟩ := hprepared₂.reservation
    rw [hlast₁] at hsome₁
    rw [hlast₂] at hsome₂
    cases hsome₁
    cases hsome₂
    rw [hid] at h₂
    have hsuffix := Reservation.follows h₁ h₂
      ((hproc t₁ hprepared₁.fires).trans (hproc t₂ hprepared₂.fires).symm) hserial
      ⟨between, hsplit.symm⟩
    obtain ⟨s₂', newer₂, hsplit₂, -⟩ := h₂.split
    have hlegal : Legal o calls mid₂ := (Law.Legal.split (hsplit₂ ▸ h.1)).1
    have hmid : mid₂ <:+ .note (some t₂) (.dispatch input₂ true) :: older := by
      rw [hsplit₂]
      exact ⟨.note (some t₂) (.dispatch input₂ true) :: (newer₂ ++
        [.update (some t₂) (.schedule input₁.schedule.id) (.valid s₂')]), by simp⟩
    exact h₁.lt h₂ hforward hlegal (hsteady.suffix hmid) fun s hs =>
      (hs.trans (List.suffix_cons _ _)).trans hsuffix

end Dispatches

/-- Every automatic dispatch is for an occurrence that was due when its tick was entered, and by
    no more than a second. -/
theorem dispatched_on_time {c : (machine o).Config} (h : (machine o).Reachable c)
    {newer older : History} {a : Option Tid} {input : ScheduleDispatch}
    (htr : c.world.trace = newer ++ .note a (.dispatch input true) :: older) :
    ∃ t due x, a = some t ∧ input.schedule.lastRunAt = some due ∧
      .note (some t) (.entered x) ∈ older ∧ due ≤ x ∧ x ≤ due + 1000 := by
  obtain ⟨t, rfl, hprepared⟩ := (reachable_legal h).dispatched htr
  obtain ⟨due, mid, hlast, hreservation⟩ := hprepared.reservation
  obtain ⟨x, before, hentered, hle, hlt⟩ := hreservation.entered
  obtain ⟨s', newer', hsplit, -⟩ := hreservation.split
  refine ⟨t, due, x, rfl, hlast, ?_, hle, hlt⟩
  rw [hsplit]
  exact List.mem_append_right _ (List.mem_cons_of_mem _ (hentered.subset List.mem_cons_self))

/-- In a process whose clock does not go back, the automatic dispatches of a schedule are for
    strictly increasing occurrences, whatever ticks, recoveries, manual fires and edits run in
    between and wherever the process dies. -/
theorem occurrences_increase (hforward : Forward o) {ms : List (machine o).Move}
    {c : (machine o).Config} (hms : (machine o).initial.moves ms = some c) {p : Nat}
    (hone : ms.all (·.within p) = true) (hsteady : Steady c.world.trace) (id : String) :
    (c.world.trace.filterMap (occurrence id)).Pairwise (· > ·) := by
  have hreach := Machine.Reachable.init.moves hms
  have hwithin := (Machine.Config.Within.initial p).moves hone hms
  refine (reachable_legal hreach).increase hforward hsteady
    (Latch.reachable (sound o) (tickLatch o) hreach).serial (p := p) fun t hfires => ?_
  obtain ⟨height, hcall | ⟨_, _, _, hcall⟩ | ⟨_, _, _, hcall⟩⟩ := hfires
  · exact hwithin.calls t _ hcall
  · exact hwithin.calls t _ hcall
  · exact hwithin.calls t _ hcall

/-! ### Two ticks -/

section Demo

/-- A tick that fires, up to its end. -/
def demoTick (t : Tid) (instant : Int) : List demoMachine.Move :=
  .start 0 .tick :: demoTurns t instant
    [false, false, false, false, false, true, false, true, false, false, false, true, true, false,
      false, false, true, true, false, false]

def demoTicks : List demoMachine.Move :=
  demoCreate ++ demoComplete "s:create:r" ⟨0, 1⟩ ⟨0, 2⟩ 1 ++ demoTick ⟨0, 3⟩ 60500 ++
    demoComplete "s:1970-01-01T00:01:00.000Z" ⟨0, 4⟩ ⟨0, 5⟩ 60600 ++ demoTick ⟨0, 6⟩ 121000

theorem demo_forward : Forward demoOptions := by
  intro expression timezone x next h
  cases h
  omega

instance (tr : History) : Decidable (Steady tr) := inferInstanceAs (Decidable (List.Pairwise _ _))

theorem occurrences_increase_demo : ∃ c : demoMachine.Config,
    c.world.trace.filterMap (occurrence "s") = [120500, 60000] ∧
      (c.world.trace.filterMap (occurrence "s")).Pairwise (· > ·) := by
  have hrun : (demoMachine.initial.moves demoTicks).any (fun c =>
      decide (Steady c.world.trace ∧ c.world.trace.filterMap (occurrence "s") = [120500, 60000])) =
        true := by decide +kernel
  obtain ⟨c, hc, hfacts⟩ := (Option.any_eq_true _ _).mp hrun
  obtain ⟨hsteady, htwo⟩ := of_decide_eq_true hfacts
  exact ⟨c, htwo, occurrences_increase demo_forward hc (p := 0) (by rfl) hsteady "s"⟩

/-- The history ends with an automatic dispatch of the run. -/
def sentLast (runId : String) : History → Bool
  | .note _ (.dispatch input true) :: _ => decide (input.runId = runId)
  | _ => false

theorem dispatched_on_time_demo : ∃ (older : History) (input : ScheduleDispatch) (t : Tid)
    (due x : Int), input.runId = "s:1970-01-01T00:02:00.500Z" ∧
      input.schedule.lastRunAt = some due ∧ .note (some t) (.entered x) ∈ older ∧ due ≤ x ∧
        x ≤ due + 1000 := by
  obtain ⟨c, hreach, hc⟩ := demo_reachable demoTicks
    (fun c => sentLast "s:1970-01-01T00:02:00.500Z" c.world.trace) (by decide +kernel)
  unfold sentLast at hc
  split at hc
  · next a input older htrace =>
    have htr : c.world.trace = [] ++ .note a (.dispatch input true) :: older := htrace
    obtain ⟨t, due, x, -, hlast, hentered, hle, hlt⟩ := dispatched_on_time hreach htr
    exact ⟨older, input, t, due, x, of_decide_eq_true hc, hlast, hentered, hle, hlt⟩
  · cases hc

end Demo

end PaseoGateway.ScheduleService

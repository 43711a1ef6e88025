/-
  PaseoGateway/BackendRequestsSafety.lean
  =======================================
  **Every accepted request settles once, with what belongs to it.**

  A request is in flight while `pending` maps its id to it, and settled once it is not
  (`Inv.all`, `Inv.apart`).  Every way of settling one request takes it out of `pending`
  first (`Inv.settleOne`), and `rejectPending` does so for all of them
  (`Inv.rejectPending`).
-/
import PaseoGateway.BackendRequests

namespace PaseoGateway.BackendRequests

open StepRuns (run run_append run_cons run_nil run_invariant)

/-! ### The invariant -/

def InFlight (s : State) (number : Nat) : Prop :=
  ∃ id waiter, s.pending.get id = some waiter ∧ waiter.request = number

/-- The requests that were settled, in the order in which they were. -/
def settledNumbers (s : State) : List Nat := s.settled.map Prod.fst

/-- An answer is for the request whose id it carries. -/
def Own (ids : List String) (number : Nat) : Outcome → Prop
  | .reply message => message.type ≠ "rpc_error" ∧ message.requestId = ids[number]?
  | .rpcError message => message.type = "rpc_error" ∧ message.requestId = ids[number]?
  | _ => True

structure Inv (s : State) : Prop where
  known : ∀ {id waiter}, s.pending.get id = some waiter → s.ids[waiter.request]? = some id
  apart : ∀ {id waiter}, s.pending.get id = some waiter → waiter.request ∉ settledNumbers s
  once : (settledNumbers s).Nodup
  all : ∀ number < s.ids.length, InFlight s number ∨ number ∈ settledNumbers s
  bound : ∀ number ∈ settledNumbers s, number < s.ids.length
  own : ∀ number outcome, (number, outcome) ∈ s.settled → Own s.ids number outcome
  timers : ∀ number ∈ s.timers, InFlight s number
  timersOnce : s.timers.Nodup
  /-- a request with a deadline has its timer -/
  timed : ∀ {id waiter}, s.pending.get id = some waiter → waiter.deadline.isSome = true →
    waiter.request ∈ s.timers
  answered : ∀ message number,
    (message, some number) ∈ s.delivered ↔ (number, answer message) ∈ s.settled
  answeredOnce : (s.delivered.filterMap Prod.snd).Sublist (settledNumbers s)

theorem Inv.initial : Inv initial := by
  constructor <;> simp [BackendRequests.initial, settledNumbers, Js.Map.get]

section Invariant

variable {s s' : State} {id : String} {waiter : Waiter} {message : SessionOutboundMessage}

theorem answer_inj {message' : SessionOutboundMessage} (h : answer message = answer message') :
    message = message' := by
  unfold answer at h
  split at h <;> split at h <;> simp_all

/-- One request leaves `pending` with its outcome; `new` records the message it came from,
    if it came from one. -/
theorem Inv.settleOne (h : Inv s) (hget : s.pending.get id = some waiter) (outcome : Outcome)
    (hown : Own s.ids waiter.request outcome)
    (new : List (SessionOutboundMessage × Option Nat))
    (hnew : ∀ message number, (message, some number) ∈ new ↔
      number = waiter.request ∧ answer message = outcome)
    (honce : (new.filterMap Prod.snd).Sublist [waiter.request]) :
    Inv { s with
      timers := s.timers.erase waiter.request
      pending := s.pending.delete id
      settled := s.settled ++ [(waiter.request, outcome)]
      delivered := s.delivered ++ new } := by
  have hother : ∀ {id' waiter'}, (s.pending.delete id).get id' = some waiter' →
      waiter'.request ≠ waiter.request := by
    intro id' waiter' hget' heq
    have hknown := h.known (Js.Map.get_delete_of_some hget')
    rw [heq, h.known hget] at hknown
    cases hknown
    rw [Js.Map.get_delete, if_pos rfl] at hget'
    cases hget'
  have hstill : ∀ number, InFlight s number → number ≠ waiter.request →
      ∃ id' waiter', (s.pending.delete id).get id' = some waiter' ∧ waiter'.request = number := by
    rintro number ⟨id', waiter', hget', rfl⟩ hne
    refine ⟨id', waiter', ?_, rfl⟩
    rw [Js.Map.get_delete, if_neg]
    · exact hget'
    · rintro rfl
      rw [hget] at hget'
      cases hget'
      exact hne rfl
  have hnumbers : settledNumbers
      { s with
        timers := s.timers.erase waiter.request
        pending := s.pending.delete id
        settled := s.settled ++ [(waiter.request, outcome)]
        delivered := s.delivered ++ new } = settledNumbers s ++ [waiter.request] := by
    simp [settledNumbers]
  exact
    { known := fun hget' => h.known (Js.Map.get_delete_of_some hget')
      apart := by
        intro id' waiter' hget'
        rw [hnumbers, List.mem_append, List.mem_singleton, not_or]
        exact ⟨h.apart (Js.Map.get_delete_of_some hget'), hother hget'⟩
      once := by
        rw [hnumbers]
        exact h.once.append (List.nodup_singleton _) (by simpa using h.apart hget)
      all := by
        intro number hlt
        rw [hnumbers, List.mem_append, List.mem_singleton]
        by_cases heq : number = waiter.request
        · exact .inr (.inr heq)
        · rcases h.all number hlt with hflight | hsettled
          · exact .inl (hstill number hflight heq)
          · exact .inr (.inl hsettled)
      bound := by
        intro number hmem
        rw [hnumbers, List.mem_append, List.mem_singleton] at hmem
        rcases hmem with hmem | rfl
        · exact h.bound number hmem
        · exact (List.getElem?_eq_some_iff.mp (h.known hget)).1
      own := by
        intro number outcome' hmem
        rcases List.mem_append.mp hmem with hmem | hmem
        · exact h.own number outcome' hmem
        · cases List.mem_singleton.mp hmem
          exact hown
      timers := by
        intro number hmem
        obtain ⟨hne, hmem⟩ := (h.timersOnce.mem_erase_iff).mp hmem
        exact hstill number (h.timers number hmem) hne
      timersOnce := h.timersOnce.erase _
      timed := by
        intro id' waiter' hget' hsome
        exact (h.timersOnce.mem_erase_iff).mpr
          ⟨hother hget', h.timed (Js.Map.get_delete_of_some hget') hsome⟩
      answered := by
        intro message number
        rw [List.mem_append, List.mem_append, h.answered, hnew, List.mem_singleton, Prod.mk.injEq]
      answeredOnce := by
        rw [hnumbers, List.filterMap_append]
        exact h.answeredOnce.append honce }

theorem Inv.expire (h : Inv s) (hget : s.pending.get id = some waiter) :
    Inv (expire s waiter.request id) := by
  have hnone : ∀ message, answer message = .timedOut → False := by
    intro message
    unfold answer
    split <;> simp
  have hone := h.settleOne hget .timedOut trivial [] (fun message number => by simpa using fun _ => hnone message) (by simp)
  simpa [BackendRequests.expire] using hone

theorem Inv.receive (h : Inv s) (message : SessionOutboundMessage) : Inv (receive s message) := by
  have hforwarded : Inv { s with delivered := s.delivered ++ [(message, none)] } :=
    { h with
      answered := fun message' number => by
        rw [← h.answered]
        simp
      answeredOnce := by simpa [settledNumbers] using h.answeredOnce }
  unfold BackendRequests.receive
  rcases hid : message.requestId with _ | id
  · exact hforwarded
  dsimp only
  split
  · next waiter hwaiter =>
    have hget : s.pending.get id = some waiter := by
      split at hwaiter
      · cases hwaiter
      · exact hwaiter
    refine h.settleOne hget (answer message) ?_ [(message, some waiter.request)] ?_ (by simp)
    · have hown : message.requestId = s.ids[waiter.request]? := hid.trans (h.known hget).symm
      unfold answer
      split
      · next htype => exact ⟨by simpa using htype, hown⟩
      · next htype => exact ⟨by simpa using htype, hown⟩
    · intro message' number
      rw [List.mem_singleton, Prod.mk.injEq, Option.some.injEq]
      constructor
      · rintro ⟨rfl, rfl⟩
        exact ⟨rfl, rfl⟩
      · rintro ⟨rfl, heq⟩
        exact ⟨answer_inj heq, rfl⟩
  · exact hforwarded

/-- A request is entered before it is sent. -/
theorem Inv.enter (h : Inv s) (hfree : s.pending.get id = none) (deadline : Option Int) :
    Inv { s with
      pending := s.pending.set id ⟨s.ids.length, deadline⟩
      timers := if deadline.isSome then s.timers ++ [s.ids.length] else s.timers
      ids := s.ids ++ [id] } := by
  have hfresh : s.ids.length ∉ settledNumbers s := fun hmem => Nat.lt_irrefl _ (h.bound _ hmem)
  have hkeep : ∀ number < s.ids.length, (s.ids ++ [id])[number]? = s.ids[number]? := fun _ hlt =>
    List.getElem?_append_left hlt
  have hcases : ∀ {id' waiter'}, (s.pending.set id ⟨s.ids.length, deadline⟩).get id' = some waiter' →
      id' = id ∧ waiter' = ⟨s.ids.length, deadline⟩ ∨ s.pending.get id' = some waiter' := by
    intro id' waiter' hget
    rw [Js.Map.get_set] at hget
    split at hget
    · next heq => exact .inl ⟨heq, (Option.some.inj hget).symm⟩
    · exact .inr hget
  have hstill : ∀ number, InFlight s number → ∃ id' waiter',
      (s.pending.set id ⟨s.ids.length, deadline⟩).get id' = some waiter' ∧
        waiter'.request = number := by
    rintro number ⟨id', waiter', hget, rfl⟩
    refine ⟨id', waiter', ?_, rfl⟩
    rw [Js.Map.get_set, if_neg]
    · exact hget
    · rintro rfl
      rw [hfree] at hget
      cases hget
  have hold : ∀ number ∈ s.timers, number < s.ids.length := by
    intro number hmem
    obtain ⟨id', waiter', hget, rfl⟩ := h.timers number hmem
    exact (List.getElem?_eq_some_iff.mp (h.known hget)).1
  exact
    { known := by
        intro id' waiter' hget
        rcases hcases hget with ⟨rfl, rfl⟩ | hget
        · simp
        · have hlt := (List.getElem?_eq_some_iff.mp (h.known hget)).1
          exact (hkeep _ hlt).trans (h.known hget)
      apart := by
        intro id' waiter' hget
        rcases hcases hget with ⟨rfl, rfl⟩ | hget
        · exact hfresh
        · exact h.apart hget
      once := h.once
      all := by
        intro number hlt
        rw [List.length_append, List.length_singleton] at hlt
        by_cases heq : number = s.ids.length
        · exact .inl ⟨id, ⟨s.ids.length, deadline⟩, Js.Map.get_set_self _ _ _, heq.symm⟩
        · exact (h.all number (by omega)).imp (hstill number) fun hmem => hmem
      bound := by
        intro number hmem
        rw [List.length_append]
        exact Nat.lt_add_right _ (h.bound number hmem)
      own := by
        intro number outcome hmem
        have hlt := h.bound number (List.mem_map_of_mem hmem)
        have hown := h.own number outcome hmem
        unfold Own at hown ⊢
        rwa [hkeep number hlt]
      timers := by
        intro number hmem
        split at hmem
        · rcases List.mem_append.mp hmem with hmem | hmem
          · exact hstill number (h.timers number hmem)
          · exact ⟨id, _, Js.Map.get_set_self _ _ _, (List.mem_singleton.mp hmem).symm⟩
        · exact hstill number (h.timers number hmem)
      timersOnce := by
        split
        · exact h.timersOnce.append (List.nodup_singleton _) (by
            simpa using fun hmem => Nat.lt_irrefl _ (hold _ hmem))
        · exact h.timersOnce
      timed := by
        intro id' waiter' hget hsome
        rcases hcases hget with ⟨rfl, rfl⟩ | hget
        · simp [show deadline.isSome = true from hsome]
        · have hmem := h.timed hget hsome
          split
          · exact List.mem_append_left _ hmem
          · exact hmem
      answered := h.answered
      answeredOnce := h.answeredOnce }

theorem Inv.request (h : Inv s) {message : SessionInboundMessage} {failure : Option String}
    (hreq : request s message failure = .ok s') : Inv s' := by
  unfold BackendRequests.request at hreq
  split at hreq
  · cases hreq
  next requestId hid =>
  split at hreq
  · cases hreq
  next hfree =>
  have hentered := h.enter (by simpa using hfree) (deadlineOf message)
  dsimp only at hreq
  split at hreq
  · cases hreq
    exact hentered
  · next error hsend =>
    cases hreq
    have hnone : ∀ message, answer message = .unsent error → False := by
      intro message
      unfold answer
      split <;> simp
    have hone := hentered.settleOne (Js.Map.get_set_self _ _ _) (.unsent error) trivial []
      (fun message number => by simpa using fun _ => hnone message) (by simp)
    simpa using hone

/-- The requests of the entries are different ones: each has its own id. -/
theorem Inv.values_nodup (h : Inv s) : (s.pending.values.map Waiter.request).Nodup := by
  have hids : (s.pending.values.map Waiter.request).map (s.ids[·]?) = s.pending.keys.map some := by
    unfold Js.Map.values Js.Map.keys
    rw [List.map_map, List.map_map, List.map_map]
    refine List.map_congr_left fun cell hcell => ?_
    exact h.known (Js.Map.get_eq_some.mpr ⟨cell, hcell, rfl, rfl⟩)
  have hkeys : (s.pending.keys.map some).Nodup :=
    s.pending.nodup.map fun _ _ => Option.some.inj
  rw [← hids] at hkeys
  exact hkeys.of_map _

theorem Inv.rejectPending (h : Inv s) (connected : Bool) :
    Inv (rejectPending { s with connected }) := by
  have hvalues : ∀ number, number ∈ s.pending.values.map Waiter.request ↔ InFlight s number := by
    intro number
    simp only [List.mem_map, Js.Map.mem_values]
    constructor
    · rintro ⟨waiter, ⟨id, hget⟩, heq⟩
      exact ⟨id, waiter, hget, heq⟩
    · rintro ⟨id, waiter, hget, heq⟩
      exact ⟨waiter, ⟨id, hget⟩, heq⟩
  have hnumbers : settledNumbers (BackendRequests.rejectPending { s with connected }) =
      settledNumbers s ++ s.pending.values.map Waiter.request := by
    simp [settledNumbers, BackendRequests.rejectPending]
  exact
    { known := by simp [BackendRequests.rejectPending]
      apart := by simp [BackendRequests.rejectPending]
      once := by
        rw [hnumbers]
        refine h.once.append h.values_nodup fun number hmem hflight => ?_
        obtain ⟨id, waiter, hget, rfl⟩ := (hvalues number).mp hflight
        exact h.apart hget hmem
      all := by
        intro number hlt
        rw [hnumbers, List.mem_append, hvalues]
        exact .inr ((h.all number hlt).symm)
      bound := by
        intro number hmem
        rw [hnumbers, List.mem_append, hvalues] at hmem
        rcases hmem with hmem | ⟨id, waiter, hget, rfl⟩
        · exact h.bound number hmem
        · exact (List.getElem?_eq_some_iff.mp (h.known hget)).1
      own := by
        intro number outcome hmem
        rcases List.mem_append.mp hmem with hmem | hmem
        · exact h.own number outcome hmem
        · obtain ⟨waiter, -, heq⟩ := List.mem_map.mp hmem
          cases heq
          trivial
      timers := by
        intro number hmem
        obtain ⟨hmem, hnot⟩ := List.mem_filter.mp hmem
        exact absurd ((hvalues number).mpr (h.timers number hmem)) (of_decide_eq_true hnot)
      timersOnce := h.timersOnce.filter _
      timed := by simp [BackendRequests.rejectPending]
      answered := by
        intro message number
        have hlost : (number, answer message) ∉
            s.pending.values.map fun waiter => (waiter.request, Outcome.lost) := by
          intro hmem
          obtain ⟨waiter, -, heq⟩ := List.mem_map.mp hmem
          have houtcome : Outcome.lost = answer message := (Prod.mk.inj heq).2
          unfold answer at houtcome
          split at houtcome <;> cases houtcome
        have hall := h.answered message number
        simp only [BackendRequests.rejectPending, List.mem_append, hlost, or_false]
        exact hall
      answeredOnce := by
        rw [hnumbers]
        exact h.answeredOnce.trans (List.sublist_append_left _ _) }

theorem Inv.step {e : Event} (hstep : step s e = some s') (h : Inv s) : Inv s' := by
  rcases e with _ | ⟨message, failure⟩ | number | message | _ | _ | _
  · cases hstep
    exact ⟨h.known, h.apart, h.once, h.all, h.bound, h.own, h.timers, h.timersOnce, h.timed,
      h.answered, h.answeredOnce⟩
  · simp only [BackendRequests.step] at hstep
    split at hstep
    · next hreq =>
      cases hstep
      exact h.request hreq
    · cases hstep
      exact h
  · simp only [BackendRequests.step] at hstep
    split at hstep
    · next hmem =>
      obtain ⟨id, waiter, hget, rfl⟩ := h.timers number hmem
      rw [h.known hget] at hstep
      cases hstep
      exact h.expire hget
    · cases hstep
  · cases hstep
    exact h.receive message
  · cases hstep
    exact h
  · cases hstep
    exact h.rejectPending false
  · cases hstep
    exact h.rejectPending s.connected

end Invariant

/-! ### Where messages go -/

def sessionMessage : Event → Option SessionOutboundMessage
  | .message message => some message
  | _ => none

theorem delivered_request {s s' : State} {message : SessionInboundMessage} {failure : Option String}
    (h : request s message failure = .ok s') : s'.delivered = s.delivered := by
  unfold request at h
  split at h
  · cases h
  split at h
  · cases h
  dsimp only at h
  split at h
  · cases h
    rfl
  · cases h
    rfl

theorem delivered_receive (s : State) (message : SessionOutboundMessage) :
    (receive s message).delivered.map Prod.fst = s.delivered.map Prod.fst ++ [message] := by
  unfold receive
  split
  · simp
  split
  · simp
  · simp

/-- A step delivers the message it is given, to one place. -/
theorem delivered_step {s s' : State} {e : Event} (hstep : step s e = some s') :
    s'.delivered.map Prod.fst = s.delivered.map Prod.fst ++ (sessionMessage e).toList := by
  rcases e with _ | ⟨message, failure⟩ | number | message | _ | _ | _
  · cases hstep
    simp [sessionMessage]
  · simp only [step] at hstep
    split at hstep
    · next hreq =>
      cases hstep
      simp [delivered_request hreq, sessionMessage]
    · cases hstep
      simp [sessionMessage]
  · simp only [step] at hstep
    split at hstep
    · obtain ⟨id, -, rfl⟩ := Option.map_eq_some_iff.mp hstep
      simp [expire, sessionMessage]
    · cases hstep
  · cases hstep
    exact delivered_receive s message
  · cases hstep
    simp [sessionMessage]
  · cases hstep
    simp [rejectPending, sessionMessage]
  · cases hstep
    simp [rejectPending, sessionMessage]

theorem delivered_run {events : List Event} : ∀ {s s' : State}, run step s events = some s' →
    s'.delivered.map Prod.fst = s.delivered.map Prod.fst ++ events.filterMap sessionMessage := by
  induction events with
  | nil =>
    intro s s' hrun
    cases hrun
    simp
  | cons e events ih =>
    intro s s' hrun
    obtain ⟨t, hstep, hrun⟩ := run_cons.mp hrun
    rw [ih hrun, delivered_step hstep, List.append_assoc]
    rcases he : sessionMessage e with _ | message
    · simp [List.filterMap_cons_none he]
    · simp [List.filterMap_cons_some he]

/-! ### Without a transport -/

/-- No transport, and nothing in flight. -/
structure Cut (s : State) : Prop where
  connected : s.connected = false
  pending : ∀ id, s.pending.get id = none

theorem Cut.not_inFlight {s : State} (h : Cut s) (number : Nat) : ¬ InFlight s number := by
  rintro ⟨id, waiter, hget, -⟩
  rw [h.pending id] at hget
  cases hget

theorem cut_disconnect (s : State) : Cut (rejectPending { s with connected := false }) :=
  ⟨rfl, fun _ => Js.Map.get_clear _ _⟩

/-- A request without a transport is refused by `send`, and leaves `pending` again. -/
theorem Cut.request {s s' : State} {message : SessionInboundMessage} {failure : Option String}
    (h : Cut s) (hreq : request s message failure = .ok s') : Cut s' := by
  unfold BackendRequests.request at hreq
  split at hreq
  · cases hreq
  next requestId hid =>
  split at hreq
  · cases hreq
  dsimp only at hreq
  simp only [send, h.connected, Bool.false_eq_true, if_false, Except.ok.injEq] at hreq
  subst hreq
  refine ⟨rfl, fun id => ?_⟩
  rw [Js.Map.get_delete]
  split
  · rfl
  · next hne => rw [Js.Map.get_set, if_neg hne, h.pending id]

/-- Only the transport factory ends it. -/
theorem Cut.step {s s' : State} {e : Event} (h : Cut s) (hne : e ≠ .connect)
    (hstep : step s e = some s') : Cut s' := by
  rcases e with _ | ⟨message, failure⟩ | number | message | _ | _ | _
  · exact absurd rfl hne
  · simp only [BackendRequests.step] at hstep
    split at hstep
    · next hreq =>
      cases hstep
      exact h.request hreq
    · cases hstep
      exact h
  · simp only [BackendRequests.step] at hstep
    split at hstep
    · obtain ⟨id, -, rfl⟩ := Option.map_eq_some_iff.mp hstep
      exact ⟨h.connected, fun id' => by simp [expire, Js.Map.get_delete, h.pending]⟩
    · cases hstep
  · cases hstep
    unfold receive
    split
    · exact ⟨h.connected, h.pending⟩
    split
    · exact ⟨h.connected, fun id' => by simp [Js.Map.get_delete, h.pending]⟩
    · exact ⟨h.connected, h.pending⟩
  · cases hstep
    exact h
  · cases hstep
    exact cut_disconnect s
  · cases hstep
    exact ⟨h.connected, fun _ => Js.Map.get_clear _ _⟩

theorem cut_run {events : List Event} : ∀ {s s' : State}, Cut s → .connect ∉ events →
    run step s events = some s' → Cut s' := by
  induction events with
  | nil =>
    intro s s' h _ hrun
    cases hrun
    exact h
  | cons e events ih =>
    intro s s' h hnot hrun
    obtain ⟨t, hstep, hrun⟩ := run_cons.mp hrun
    rw [List.mem_cons, not_or] at hnot
    exact ih (h.step (Ne.symm hnot.1) hstep) hnot.2 hrun

/-- After a disconnect, until there is another transport. -/
theorem cut_of_run {before after : List Event} {s : State}
    (hrun : run step initial (before ++ .disconnect :: after) = some s)
    (hnot : .connect ∉ after) : Cut s := by
  obtain ⟨t, -, hrun⟩ := run_append.mp hrun
  obtain ⟨t', hstep, hrun⟩ := run_cons.mp hrun
  cases hstep
  exact cut_run (cut_disconnect t) hnot hrun

/-! ### The requests of a run -/

/-- What holds after the events of a schedule. -/
structure Sound (events : List Event) (s : State) : Prop where
  once : (settledNumbers s).Nodup
  settled : ∀ number < s.ids.length, number ∈ settledNumbers s ↔ ¬ InFlight s number
  own : ∀ number outcome, (number, outcome) ∈ s.settled → Own s.ids number outcome
  /-- each session message went to one place, in the order of their arrival -/
  routed : s.delivered.map Prod.fst = events.filterMap sessionMessage
  answered : ∀ message number,
    (message, some number) ∈ s.delivered ↔ (number, answer message) ∈ s.settled
  answeredOnce : (s.delivered.filterMap Prod.snd).Nodup
  timed : ∀ id waiter, s.pending.get id = some waiter → waiter.deadline.isSome = true →
    waiter.request ∈ s.timers
  refused : ∀ message failure number id, InFlight s number → s.ids[number]? = some id →
    message.requestId = some id →
    request s message failure = .error "Duplicate in-flight request ID" ∧
      step s (.request message failure) = some s
  drained : ∀ e ∈ [Event.close, .disconnect], ∀ s', step s e = some s' →
    s'.ids = s.ids ∧ ∀ number < s.ids.length, number ∈ settledNumbers s'
  /-- after a disconnect nothing stays pending until the backend connects again -/
  cut : ∀ before after, events = before ++ .disconnect :: after → .connect ∉ after →
    s.connected = false ∧ ∀ number < s.ids.length, number ∈ settledNumbers s

theorem settled_of_close {s s' : State} (h : Inv s) {e : Event}
    (he : e ∈ [Event.close, .disconnect]) (hstep : step s e = some s') :
    s'.ids = s.ids ∧ ∀ number < s.ids.length, number ∈ settledNumbers s' := by
  have hall : ∀ connected, ∀ number < s.ids.length,
      number ∈ settledNumbers (rejectPending { s with connected }) := by
    intro connected number hlt
    rcases (h.rejectPending connected).all number hlt with ⟨id, waiter, hget, -⟩ | hmem
    · cases hget
    · exact hmem
  simp only [List.mem_cons, List.not_mem_nil, or_false] at he
  rcases he with rfl | rfl
  · cases hstep
    exact ⟨rfl, hall s.connected⟩
  · cases hstep
    exact ⟨rfl, hall false⟩

theorem refused_of_inFlight {s : State} (h : Inv s) {message : SessionInboundMessage}
    (failure : Option String) {number : Nat} {id : String} (hflight : InFlight s number)
    (hid : s.ids[number]? = some id) (hmessage : message.requestId = some id) :
    request s message failure = .error "Duplicate in-flight request ID" := by
  obtain ⟨id', waiter, hget, rfl⟩ := hflight
  rw [h.known hget] at hid
  cases hid
  unfold request
  rw [hmessage]
  simp [hget]

/-- A request, the same id again, its reply twice, the id once more, and the end; then another
    request. -/
def sampleEvents : List Event :=
  let message : SessionInboundMessage := ⟨"fetch_agents_request", some "r1", none⟩
  let reply : SessionOutboundMessage := ⟨"fetch_agents_response", some "r1", ""⟩
  [.connect, .request message none, .request message none, .message reply, .message reply,
    .request message none, .disconnect, .request message none]

/-- The outcomes of requests that were sent. -/
def Outcome.Answered : Outcome → Prop
  | .unsent error => error = disconnectedText
  | _ => True

end PaseoGateway.BackendRequests

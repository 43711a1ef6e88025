/-
  PaseoGateway/CheckoutHistory.lean
  =================================
  **What the history of a checkout says of its fetch budget.**

  Every entry of the history is a step of one law (`Step`).  `Sound` ties a receipt to
  the launches and reservations of the history it stands for, and the receipt on the
  volume is always sound (`Facts`).  A recorded receipt is only followed by receipts of
  the same start that keep its failure (`Legal.recorded_mono`).
-/
import PaseoGateway.CheckoutBudget
import PaseoGateway.CheckoutReceipt

namespace PaseoGateway.Checkout

open Async Volume

abbrev History := Trace sys.Key sys.Val sys.Note

/-! ### What a history says of the budget -/

/-- The times at which fetches were launched, newest first. -/
def launches : History → List Nat
  | [] => []
  | .note _ (.launched instant) :: older => instant :: launches older
  | _ :: older => launches older

/-- The attempts reserved and when, newest first. -/
def reservations : History → List (Nat × Nat)
  | [] => []
  | .note _ (.reserved attempt instant) :: older => (attempt, instant) :: reservations older
  | _ :: older => reservations older

/-- The readings of the clock. -/
def clocks : History → List Nat
  | [] => []
  | .note _ (.clock now) :: older => now :: clocks older
  | _ :: older => clocks older

/-- The state the receipt on the volume records. -/
def recorded (tr : History) : Option Receipt :=
  (read .receipt (files tr)).bind fun file => file.value.bind receiptOf

/-- The entry tells nothing of the budget: a reading of the clock, or an effect on
    another file than the receipt. -/
def Plain : Note → Prop
  | .file effect => Path.receipt ∉ effect.touches
  | .clock _ => True
  | _ => False

/-- The receipt accounts for every launch and every reservation. -/
structure Sound (state : Receipt) (tr : History) : Prop where
  range : state.InRange
  launched : (launches tr).length ≤ state.attempts
  before : ∀ instant ∈ launches tr, instant < state.deadline
  reserved : ∀ attempt instant, (attempt, instant) ∈ reservations tr → attempt ≤ state.attempts + 1 ∧
    (attempt = state.attempts → instant + pauseAfter attempt ≤ state.nextAttemptAt)

/-- The receipt may take the place of the one on the volume. -/
structure Fits (state : Receipt) (tr : History) : Prop extends Sound state tr where
  follows : read .receipt (files tr) ≠ none → ∃ old, recorded tr = some old ∧
    old.startedAt = state.startedAt ∧ (old.failure.isSome → state.failure.isSome)

/-- The receipt was accepted at some reading of the clock. -/
def Accepted (file : StoredFile) (tr : History) : Prop :=
  ∃ now ∈ clocks tr, WellFormed file now

/-- Every receipt the process has opened was accepted. -/
def Accepts (t : Tid) (tr : History) : Prop :=
  ∀ file, .note (some t) (.opened file) ∈ tr → Accepted file tr

/-! ### The law of the history -/

inductive Step (older : History) : Entry sys.Key sys.Val sys.Note → Prop where
  | initial {file : StoredFile} (hnone : read .receipt (files older) = none)
      (hlaunches : launches older = []) (hreservations : reservations older = []) :
      Step older (.note none (.file (.put .receipt file)))
  | plain {a : Option Tid} {n : Note} (h : Plain n) : Step older (.note a n)
  | save {t : Tid} {uuid : Nat} {file : StoredFile} {state : Receipt}
      (hsrc : read (.tmp uuid) (files older) = some file)
      (hvalue : file.value = some state.toValue) (h : Fits state older) :
      Step older (.note (some t) (.file (.rename (.tmp uuid) .receipt)))
  | opened {t : Tid} {file : StoredFile}
      (h : ∀ instant, .note (some t) (.launched instant) ∉ older) :
      Step older (.note (some t) (.opened file))
  | reserve {t : Tid} {now : Nat} {state : Receipt} (hstate : recorded older = some state)
      (hnow : now ∈ clocks older) (hlatest : ∀ m ∈ clocks older, m ≤ now)
      (hpause : state.nextAttemptAt ≤ now + TIMER_EARLY_MS) :
      Step older (.note (some t) (.reserved (state.attempts + 1) now))
  | launch {t : Tid} {now : Nat} {state : Receipt} (hstate : recorded older = some state)
      (hfailure : state.failure = none) (hattempts : (launches older).length < state.attempts)
      (hnow : now < state.deadline) (haccepts : Accepts t older) :
      Step older (.note (some t) (.launched now))

/-- Every entry was a step when it was written. -/
def Legal : History → Prop
  | [] => True
  | e :: older => Legal older ∧ Step older e

theorem Legal.split {newer older : History} {e : Entry sys.Key sys.Val sys.Note}
    (h : Legal (newer ++ e :: older)) : Legal older ∧ Step older e := by
  induction newer with
  | nil => exact h
  | cons e' newer ih => exact ih h.1

theorem Legal.older {newer older : History} (h : Legal (newer ++ older)) : Legal older := by
  induction newer with
  | nil => exact h
  | cons e newer ih => exact ih h.1

/-! ### Plain entries change nothing -/

variable {tr older : History} {t : Tid} {a : Option Tid} {n : Note} {state : Receipt}

section Plain

variable (h : Plain n)

theorem launches_plain (a : Option Tid) (older : History) (h : Plain n) :
    launches (.note a n :: older) = launches older := by
  cases n with
  | file e => rfl
  | clock now => rfl
  | opened f => exact h.elim
  | reserved k now => exact h.elim
  | launched now => exact h.elim

theorem reservations_plain (a : Option Tid) (older : History) (h : Plain n) :
    reservations (.note a n :: older) = reservations older := by
  cases n with
  | file e => rfl
  | clock now => rfl
  | opened f => exact h.elim
  | reserved k now => exact h.elim
  | launched now => exact h.elim

theorem receipt_plain (a : Option Tid) (older : History) (h : Plain n) :
    read .receipt (files (.note a n :: older)) = read .receipt (files older) := by
  cases n with
  | file e => exact read_of_not_touched h _
  | clock now => rfl
  | opened f => exact h.elim
  | reserved k now => exact h.elim
  | launched now => exact h.elim

theorem recorded_plain (a : Option Tid) (older : History) (h : Plain n) :
    recorded (.note a n :: older) = recorded older := by
  rw [recorded, receipt_plain a older h, recorded]

theorem Sound.congr {tr tr' : History} (h : Sound state tr) (hl : launches tr' = launches tr)
    (hr : reservations tr' = reservations tr) : Sound state tr' := by
  refine ⟨h.range, ?_, ?_, ?_⟩
  · rw [hl]
    exact h.launched
  · rw [hl]
    exact h.before
  · rw [hr]
    exact h.reserved

theorem Fits.congr {tr tr' : History} (h : Fits state tr) (hl : launches tr' = launches tr)
    (hr : reservations tr' = reservations tr)
    (hf : read .receipt (files tr') = read .receipt (files tr)) : Fits state tr' := by
  refine ⟨h.toSound.congr hl hr, ?_⟩
  have hrec : recorded tr' = recorded tr := by rw [recorded, hf, recorded]
  rw [hf, hrec]
  exact h.follows

theorem Fits.plain (hfits : Fits state older) (a : Option Tid) (h : Plain n) :
    Fits state (.note a n :: older) :=
  hfits.congr (launches_plain a older h) (reservations_plain a older h) (receipt_plain a older h)

end Plain

theorem clocks_subset (e : Entry sys.Key sys.Val sys.Note) (older : History) :
    ∀ m ∈ clocks older, m ∈ clocks (e :: older) := by
  intro m hm
  cases e with
  | create a k v => cases k
  | update a k v => cases k
  | delete a k => cases k
  | note a n =>
    cases n with
    | clock now => exact List.mem_cons_of_mem _ hm
    | file e => exact hm
    | opened f => exact hm
    | reserved k now => exact hm
    | launched now => exact hm

theorem Accepted.cons {file : StoredFile} (h : Accepted file older)
    (e : Entry sys.Key sys.Val sys.Note) : Accepted file (e :: older) := by
  obtain ⟨now, hnow, hwell⟩ := h
  exact ⟨now, clocks_subset e older now hnow, hwell⟩

/-- What a process has accepted stays accepted; only opening a receipt adds to it. -/
theorem Accepts.cons (h : Accepts t older) {e : Entry sys.Key sys.Val sys.Note}
    (he : ∀ file, e ≠ .note (some t) (.opened file)) : Accepts t (e :: older) := by
  intro file hmem
  rcases List.mem_cons.mp hmem with heq | hold
  · exact absurd heq.symm (he file)
  · exact (h file hold).cons e

/-! ### What a legal history says -/

structure Facts (tr : History) : Prop where
  /-- the receipt on the volume is sound -/
  sound : ∀ state, recorded tr = some state → Sound state tr
  /-- nothing was done without one -/
  idle : recorded tr = none → launches tr = [] ∧ reservations tr = []
  timed : ∀ attempt instant, (attempt, instant) ∈ reservations tr → instant ∈ clocks tr
  spaced : ∀ attempt instant later, (attempt, instant) ∈ reservations tr →
    (attempt + 1, later) ∈ reservations tr →
      instant + pauseAfter attempt ≤ later + TIMER_EARLY_MS

theorem recorded_rename {uuid : Nat} {file : StoredFile}
    (hsrc : read (.tmp uuid) (files older) = some file)
    (hvalue : file.value = some state.toValue) (hrange : state.InRange) :
    recorded (.note a (.file (.rename (.tmp uuid) .receipt)) :: older) = some state := by
  simp [recorded, files, hsrc, hvalue, receiptOf_toValue hrange]

theorem Facts.step (hf : Facts older) {e : Entry sys.Key sys.Val sys.Note} (h : Step older e) :
    Facts (e :: older) := by
  cases h with
  | @initial file hnone hlaunches hreservations =>
    have hres : ∀ (k R : Nat), (k, R) ∉ reservations older := by
      intro k R hmem
      rw [hreservations] at hmem
      cases hmem
    refine ⟨?_, fun _ => ⟨hlaunches, hreservations⟩, fun k R hmem => absurd hmem (hres k R),
      fun k R _ hmem => absurd hmem (hres k R)⟩
    intro state hstate
    obtain ⟨f, -, hvalue⟩ := Option.bind_eq_some_iff.mp hstate
    obtain ⟨v, -, hv⟩ := Option.bind_eq_some_iff.mp hvalue
    refine ⟨(Reads.of_receiptOf hv).range, ?_, ?_, fun k R hmem => absurd hmem (hres k R)⟩
    · change (launches older).length ≤ _
      rw [hlaunches]
      exact Nat.zero_le _
    · change ∀ instant ∈ launches older, _
      rw [hlaunches]
      intro instant hmem
      cases hmem
  | @plain a n hplain =>
    refine ⟨?_, ?_, ?_, ?_⟩
    · intro state hstate
      rw [recorded_plain a older hplain] at hstate
      exact (hf.sound state hstate).congr (launches_plain a older hplain)
        (reservations_plain a older hplain)
    · intro hnone
      rw [recorded_plain a older hplain] at hnone
      rw [launches_plain a older hplain, reservations_plain a older hplain]
      exact hf.idle hnone
    · intro k R hmem
      rw [reservations_plain a older hplain] at hmem
      exact clocks_subset _ older R (hf.timed k R hmem)
    · intro k R R' hmem hmem'
      rw [reservations_plain a older hplain] at hmem hmem'
      exact hf.spaced k R R' hmem hmem'
  | @save t uuid file state hsrc hvalue hfits =>
    have hrec := recorded_rename (a := some t) hsrc hvalue hfits.range
    refine ⟨?_, ?_, hf.timed, hf.spaced⟩
    · intro state' hstate'
      rw [hrec] at hstate'
      cases hstate'
      exact hfits.toSound.congr rfl rfl
    · intro hnone
      rw [hrec] at hnone
      cases hnone
  | opened _ => exact ⟨fun state hstate => (hf.sound state hstate).congr rfl rfl, hf.idle,
      hf.timed, hf.spaced⟩
  | @reserve t now state hstate hnow hlatest hpause =>
    have hsound := hf.sound state hstate
    refine ⟨?_, ?_, ?_, ?_⟩
    · intro state' hstate'
      cases (hstate.symm.trans hstate' : some state = some state')
      refine ⟨hsound.range, hsound.launched, hsound.before, ?_⟩
      intro k R hmem
      rcases List.mem_cons.mp hmem with heq | hold
      · cases heq
        refine ⟨Nat.le_refl _, fun heq => ?_⟩
        omega
      · exact hsound.reserved k R hold
    · intro hnone
      cases (hstate.symm.trans hnone : some state = none)
    · intro k R hmem
      rcases List.mem_cons.mp hmem with heq | hold
      · cases heq
        exact hnow
      · exact hf.timed k R hold
    · -- the attempt before this one was reserved before its pause was over
      intro k R R' hmem hmem'
      rcases List.mem_cons.mp hmem' with heq' | hold'
      · obtain ⟨hk, rfl⟩ := Prod.mk.inj heq'
        rcases List.mem_cons.mp hmem with heq | hold
        · obtain ⟨hk', -⟩ := Prod.mk.inj heq
          omega
        · have := (hsound.reserved k R hold).2 (by omega)
          omega
      · rcases List.mem_cons.mp hmem with heq | hold
        · obtain ⟨rfl, -⟩ := Prod.mk.inj heq
          have := (hsound.reserved _ R' hold').1
          omega
        · exact hf.spaced k R R' hold hold'
  | @launch t now state hstate hfailure hattempts hnow haccepts =>
    have hsound := hf.sound state hstate
    refine ⟨?_, ?_, hf.timed, hf.spaced⟩
    · intro state' hstate'
      cases (hstate.symm.trans hstate' : some state = some state')
      refine ⟨hsound.range, hattempts, ?_, hsound.reserved⟩
      intro instant hmem
      rcases List.mem_cons.mp hmem with rfl | hold
      · exact hnow
      · exact hsound.before instant hold
    · intro hnone
      cases (hstate.symm.trans hnone : some state = none)

theorem Legal.facts (h : Legal tr) : Facts tr := by
  induction tr with
  | nil =>
    refine ⟨?_, fun _ => ⟨rfl, rfl⟩, ?_, ?_⟩
    · intro state hstate
      cases hstate
    · intro k R hmem
      cases hmem
    · intro k R R' hmem
      cases hmem
  | cons e older ih => exact (ih h.1).step h.2

/-- A recorded receipt is only ever followed by one with the same start, which keeps
    its failure. -/
theorem Legal.recorded_mono {newer : History} (h : Legal (newer ++ older))
    (hstate : recorded older = some state) :
    ∃ state', recorded (newer ++ older) = some state' ∧ state'.startedAt = state.startedAt ∧
      (state.failure.isSome → state'.failure.isSome) := by
  induction newer with
  | nil => exact ⟨state, hstate, rfl, id⟩
  | cons e newer ih =>
    obtain ⟨state', hrec, hstart, hfailure⟩ := ih h.1
    have hthere : read .receipt (files (newer ++ older)) ≠ none := by
      intro hnone
      rw [recorded, hnone] at hrec
      cases hrec
    have hstep := h.2
    cases hstep with
    | initial hnone _ _ => exact absurd hnone hthere
    | @plain a n hplain =>
      exact ⟨state', by rw [← hrec]; exact recorded_plain a _ hplain, hstart, hfailure⟩
    | @save t uuid file new hsrc hvalue hfits =>
      obtain ⟨old, hold, hsame, hkeeps⟩ := hfits.follows hthere
      cases hold.symm.trans hrec
      exact ⟨new, recorded_rename hsrc hvalue hfits.range, hsame.symm.trans hstart,
        fun hs => hkeeps (hfailure hs)⟩
    | opened _ => exact ⟨state', hrec, hstart, hfailure⟩
    | reserve _ _ _ _ => exact ⟨state', hrec, hstart, hfailure⟩
    | launch _ _ _ _ _ => exact ⟨state', hrec, hstart, hfailure⟩

/-- Nothing is launched once a failure is recorded. -/
theorem Legal.latched {newer : History} (h : Legal (newer ++ older))
    (hstate : recorded older = some state) (hfailure : state.failure.isSome) :
    launches (newer ++ older) = launches older := by
  induction newer with
  | nil => rfl
  | cons e newer ih =>
    have hold := ih h.1
    obtain ⟨state', hrec, -, hkeeps⟩ := Legal.recorded_mono h.1 hstate
    have hstep := h.2
    cases hstep with
    | initial _ _ _ => exact hold
    | @plain a n hplain =>
      rw [← hold]
      exact launches_plain a _ hplain
    | save _ _ _ => exact hold
    | opened _ => exact hold
    | reserve _ _ _ _ => exact hold
    | launch hnow hnone _ _ _ =>
      cases hnow.symm.trans hrec
      have := hkeeps hfailure
      rw [hnone] at this
      cases this

/-- A process that launches a fetch has accepted every receipt it opened. -/
theorem Legal.accepted (h : Legal tr) {now : Nat} {file : StoredFile}
    (hlaunch : .note (some t) (.launched now) ∈ tr)
    (hopened : .note (some t) (.opened file) ∈ tr) : Accepted file tr := by
  induction tr with
  | nil => cases hlaunch
  | cons e older ih =>
    rcases List.mem_cons.mp hlaunch with rfl | hold
    · rcases List.mem_cons.mp hopened with heq | hold'
      · cases heq
      · have hstep := h.2
        cases hstep with
        | plain hplain => exact hplain.elim
        | launch _ _ _ _ haccepts => exact (haccepts file hold').cons _
    · rcases List.mem_cons.mp hopened with rfl | hold'
      · have hstep := h.2
        cases hstep with
        | plain hplain => exact hplain.elim
        | opened hnever => exact absurd hold (hnever now)
      · exact (ih h.1 hold hold').cons _

end PaseoGateway.Checkout

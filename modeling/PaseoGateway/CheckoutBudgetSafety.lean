/-
  PaseoGateway/CheckoutBudgetSafety.lean
  ======================================
  **The fetch budget holds across crashes.**

  A running process of the container has the volume to itself, so what it knows is a
  statement about the history that only its own requests change (`Runs`).  It writes
  only receipts that are sound, takes an attempt or launches a fetch only against the
  receipt it has just saved, and a process that is killed leaves the receipt to the
  next one.
-/
import PaseoGateway.CheckoutHistory
import PaseoGateway.RelyGuarantee

namespace PaseoGateway.Checkout

open Async Volume

variable {size : Receipt → Nat} {checkRepository : Option String → Option Bool}
variable {initial : Initial} {t : Tid}

/-! ### The process that runs -/

/-- What holds in every world: a legal history and a clock no reading is ahead of. -/
structure Inv (w : World sys) : Prop where
  legal : Legal w.trace
  clock : ∀ n ∈ clocks w.trace, n ≤ w.glob.clock
  positive : 0 < w.glob.clock
  bounded : w.glob.clock ≤ MAX_TIME

/-- Nobody else touches the history while a process runs, and a call that returns has
    accepted every receipt it opened. -/
@[reducible] def proto (size : Receipt → Nat) (checkRepository : Option String → Option Bool)
    (initial : Initial) : Protocol (machine size checkRepository initial) where
  inv := Inv
  extra := fun t w w' => w.glob.owner = some t → w'.glob.owner = some t ∧ w'.trace = w.trace
  extra_refl := fun _ _ h => ⟨h, rfl⟩
  extra_trans := by
    intro t w w' w'' h h' ho
    obtain ⟨ho', htr⟩ := h ho
    obtain ⟨ho'', htr'⟩ := h' ho'
    exact ⟨ho'', htr'.trans htr⟩
  post := fun t _ _ _ w => Accepts t w.trace

/-- The running process `t` may run `p` where `F` holds of the history, and ends where
    `G` holds or throws where `E` does. -/
def Runs (size : Receipt → Nat) (checkRepository : Option String → Option Bool)
    (initial : Initial) (t : Tid) {α : Type} (p : sys.Task α) (F : History → Prop)
    (G : α → History → Prop) (E : Err → History → Prop) : Prop :=
  ∀ w, Inv w → w.glob.owner = some t → F w.trace →
    Safe (proto size checkRepository initial) t p
      (fun a w' => w'.glob.owner = some t ∧ G a w'.trace)
      (fun e w' => w'.glob.owner = some t ∧ E e w'.trace) w

namespace Runs

variable {α β : Type} {p : sys.Task α} {F F' : History → Prop} {G G' : α → History → Prop}
variable {E E' : Err → History → Prop}

theorem bind {f : α → sys.Task β} {H : β → History → Prop}
    (h : Runs size checkRepository initial t p F G E)
    (hf : ∀ a, Runs size checkRepository initial t (f a) (G a) H E) :
    Runs size checkRepository initial t (p >>= f) F H E := by
  intro w hi ho hF
  apply Safe.bind
  refine Safe.mono (h w hi ho hF) ?_ fun _ _ h => h
  rintro a w' ⟨ho', hG⟩ hi'
  exact hf a w' hi' ho' hG

theorem ret {a : α} (h : ∀ tr, F tr → G a tr) :
    Runs size checkRepository initial t (.ret a : sys.Task α) F G E := by
  intro w _ ho hF
  refine Safe.ret fun w' hr _ => ?_
  obtain ⟨ho', htr⟩ := hr.2 ho
  exact ⟨ho', h _ (by rw [htr]; exact hF)⟩

theorem fail {e : Err} (h : ∀ tr, F tr → E e tr) :
    Runs size checkRepository initial t (.fail e : sys.Task α) F G E := by
  intro w _ ho hF
  refine Safe.fail fun w' hr _ => ?_
  obtain ⟨ho', htr⟩ := hr.2 ho
  exact ⟨ho', h _ (by rw [htr]; exact hF)⟩

theorem mono (h : Runs size checkRepository initial t p F G E) (hF : ∀ tr, F' tr → F tr)
    (hG : ∀ a tr, G a tr → G' a tr) (hE : ∀ e tr, E e tr → E' e tr) :
    Runs size checkRepository initial t p F' G' E' := by
  intro w hi ho hF'
  refine Safe.mono (h w hi ho (hF _ hF')) ?_ ?_
  · exact fun a w' hw => ⟨hw.1, hG a _ hw.2⟩
  · exact fun e w' hw => ⟨hw.1, hE e _ hw.2⟩

theorem weaken (h : Runs size checkRepository initial t p F G E) (hF : ∀ tr, F' tr → F tr) :
    Runs size checkRepository initial t p F' G E :=
  h.mono hF (fun _ _ h => h) fun _ _ h => h

theorem attempt {D : Err → History → Prop} (h : Runs size checkRepository initial t p F G E) :
    Runs size checkRepository initial t p.attempt F
      (fun r tr => match r with
        | .ok a => G a tr
        | .error e => E e tr) D :=
  fun w hi ho hF => Safe.attempt (h w hi ho hF)

/-- What is known of the history apart from the history itself. -/
theorem given {q : Prop} (h : q → Runs size checkRepository initial t p F G E) :
    Runs size checkRepository initial t p (fun tr => q ∧ F tr) G E :=
  fun w hi ho hF => h hF.1 w hi ho hF.2

/-- The history is legal wherever the process stands. -/
theorem known (h : Runs size checkRepository initial t p (fun tr => Legal tr ∧ F tr) G E) :
    Runs size checkRepository initial t p F G E :=
  fun w hi ho hF => h w hi ho ⟨hi.legal, hF⟩

theorem forSome {γ : Type} {K : γ → History → Prop}
    (h : ∀ x, Runs size checkRepository initial t p (K x) G E) :
    Runs size checkRepository initial t p (fun tr => ∃ x, K x tr) G E := by
  rintro w hi ho ⟨x, hK⟩
  exact h x w hi ho hK

end Runs

/-! ### Requests -/

theorem answer_owner {c : Choice} {x : Ext} {w : World sys} (ho : w.glob.owner = some t) :
    answer c t x w = serveOwner c x w := by
  cases x <;> simp [answer, ho]

theorem runs_ask {x : Ext} {F : History → Prop} {G : ExtRes x → History → Prop}
    {E : Err → History → Prop}
    (h : ∀ c w a, Inv w → F w.trace → serveOwner c x w = some a →
      a.glob = w.glob ∧ Legal (a.notes.map (.note (some t)) ++ w.trace) ∧
        (∀ n ∈ clocks (a.notes.map (.note (some t)) ++ w.trace), n ≤ w.glob.clock) ∧
          G a.res (a.notes.map (.note (some t)) ++ w.trace)) :
    Runs size checkRepository initial t (ask (S := sys) x) F G E := by
  intro w hi ho hF
  refine Safe.ext fun w1 hr hi1 c a ha => ?_
  obtain ⟨ho1, htr⟩ := hr.2 ho
  rw [← htr] at hF
  change answer c t x w1 = some a at ha
  rw [answer_owner ho1] at ha
  obtain ⟨hglob, hlegal, hclock, hG⟩ := h c w1 a hi1 hF ha
  have htrace : ((w1.answered t a).spawnAll t.proc a.forks).trace =
      a.notes.map (.note (some t)) ++ w1.trace := by
    rw [World.spawnAll_trace, World.answered_trace]
  have hglob' : ((w1.answered t a).spawnAll t.proc a.forks).glob = w1.glob := by
    rw [World.spawnAll_glob, World.answered_glob, hglob]
  refine ⟨⟨⟨?_, ?_, ?_, ?_⟩, ?_, fun _ _ _ _ => trivial⟩, ?_⟩
  · rw [htrace]
    exact hlegal
  · rw [htrace, hglob']
    exact hclock
  · rw [hglob']
    exact hi1.positive
  · rw [hglob']
    exact hi1.bounded
  · intro u hut _ hu
    rw [ho1] at hu
    exact absurd (Option.some.inj hu).symm hut
  · refine Safe.ret fun w2 hr2 _ => ?_
    obtain ⟨ho2, htr2⟩ := hr2.2 (by rw [hglob', ho1])
    refine ⟨ho2, ?_⟩
    rw [htr2, htrace]
    exact hG

/-- A request that is answered without a trace. -/
theorem runs_quiet {x : Ext} {F : History → Prop} {R : ExtRes x → Prop}
    {E : Err → History → Prop}
    (h : ∀ c w a, serveOwner c x w = some a → a.glob = w.glob ∧ a.notes = [] ∧ R a.res) :
    Runs size checkRepository initial t (ask (S := sys) x) F (fun r tr => F tr ∧ R r) E := by
  refine runs_ask fun c w a hi hF ha => ?_
  obtain ⟨hglob, hnotes, hR⟩ := h c w a ha
  rw [hnotes]
  exact ⟨hglob, hi.legal, hi.clock, hF, hR⟩

theorem runs_orThrow {α : Type} {r : Except String α} {F : History → Prop}
    {G : α → History → Prop} {E : Err → History → Prop} (hG : ∀ a tr, r = .ok a → F tr → G a tr)
    (hE : ∀ code tr, r = .error code → F tr → E (.code code) tr) :
    Runs size checkRepository initial t (orThrow r) F G E := by
  cases r with
  | ok a => exact Runs.ret fun tr hF => hG a tr rfl hF
  | error code => exact Runs.fail fun tr hF => hE code tr rfl hF

/-- The fetch failed for the reference cache. -/
def CacheFailure : Err → Prop
  | .failure failure => failure.code = .CheckoutCacheInvalid
  | _ => False

/-- Another error than a failure of the cache was thrown where `F` holds. -/
def Thrown (F : History → Prop) (e : Err) (tr : History) : Prop := ¬ CacheFailure e ∧ F tr

theorem runs_settle {F : History → Prop} :
    Runs size checkRepository initial t settle F (fun _ => F) (Thrown F) := by
  apply Runs.bind (G := fun _ tr => F tr ∧ True)
  · refine runs_quiet fun c w a ha => ?_
    cases ha
    exact ⟨rfl, rfl, trivial⟩
  · exact fun r => runs_orThrow (fun _ _ _ hF => hF.1) fun _ _ _ hF => ⟨id, hF.1⟩

theorem runs_handle {F : History → Prop} :
    Runs size checkRepository initial t handle F (fun _ => F)
      fun e tr => e ≠ .code "ENOENT" ∧ Thrown F e tr := by
  apply Runs.bind (G := fun r tr => F tr ∧ r ≠ .error "ENOENT")
  · refine runs_quiet fun c w a ha => ?_
    simp only [serveOwner] at ha
    by_cases hcode : c.fate.error = some "ENOENT"
    · rw [if_pos hcode] at ha
      cases ha
    · rw [if_neg hcode] at ha
      cases ha
      refine ⟨rfl, rfl, ?_⟩
      intro hres
      simp only [settled] at hres
      split at hres
      · cases hres
      · rename_i code hfate
        cases hres
        exact hcode hfate
  · intro r
    refine runs_orThrow (fun _ _ _ hF => hF.1) ?_
    rintro code tr rfl ⟨hF, hne⟩
    refine ⟨?_, id, hF⟩
    rintro ⟨⟩
    exact hne rfl

theorem runs_stat {F : History → Prop} {E : Err → History → Prop} :
    Runs size checkRepository initial t (ask (S := sys) .stat) F (fun _ => F) E := by
  refine runs_ask fun c w a hi hF ha => ?_
  cases ha
  exact ⟨rfl, hi.legal, hi.clock, hF⟩

/-! ### Assertions that plain entries keep -/

/-- The assertion survives readings of the clock and effects on other files. -/
def Closed (t : Tid) (F : History → Prop) : Prop :=
  ∀ n tr, Plain n → F tr → F (.note (some t) n :: tr)

theorem Closed.and {F F' : History → Prop} (h : Closed t F) (h' : Closed t F') :
    Closed t fun tr => F tr ∧ F' tr :=
  fun n tr hn hF => ⟨h n tr hn hF.1, h' n tr hn hF.2⟩

theorem closed_const (q : Prop) : Closed t fun _ => q := fun _ _ _ hq => hq

/-- What a reading of the clock tells at the time it is made. -/
structure Reading (n : Nat) (tr : History) : Prop where
  positive : 0 < n
  bounded : n ≤ MAX_TIME
  noted : n ∈ clocks tr
  latest : ∀ m ∈ clocks tr, m ≤ n

theorem runs_now {F : History → Prop} {E : Err → History → Prop} (hF : Closed t F) :
    Runs size checkRepository initial t now F (fun n tr => F tr ∧ Reading n tr) E := by
  refine runs_ask fun c w a hi h ha => ?_
  cases ha
  have hclock : ∀ m ∈ clocks (.note (some t) (.clock w.glob.clock) :: w.trace),
      m ≤ w.glob.clock := by
    intro m hm
    rcases List.mem_cons.mp hm with rfl | hold
    · exact Nat.le_refl _
    · exact hi.clock m hold
  exact ⟨rfl, ⟨hi.legal, .plain trivial⟩, hclock, hF _ _ trivial h, hi.positive, hi.bounded,
    List.mem_cons_self, hclock⟩

/-- The clock has reached `m`. -/
def Passed (m : Nat) (tr : History) : Prop := ∃ k ∈ clocks tr, m ≤ k

theorem closed_passed (m : Nat) : Closed t (Passed m) := by
  rintro n tr hn ⟨k, hk, hle⟩
  exact ⟨k, clocks_subset _ tr k hk, hle⟩

/-- A pause is over when the clock has reached its end, or a little before. -/
theorem runs_delay {since ms : Nat} {F : History → Prop} {E : Err → History → Prop}
    (hF : Closed t F) :
    Runs size checkRepository initial t (delay since ms) F
      (fun _ tr => F tr ∧ Passed (since + ms - TIMER_EARLY_MS) tr) E := by
  refine runs_ask fun c w a hi h ha => ?_
  simp only [serveOwner] at ha
  by_cases hdone : since + ms ≤ w.glob.clock + TIMER_EARLY_MS
  · rw [if_pos hdone] at ha
    cases ha
    refine ⟨rfl, ⟨hi.legal, .plain trivial⟩, ?_, hF _ _ trivial h, w.glob.clock,
      List.mem_cons_self, by omega⟩
    intro m hm
    rcases List.mem_cons.mp hm with rfl | hold
    · exact Nat.le_refl _
    · exact hi.clock m hold
  · rw [if_neg hdone] at ha
    cases ha

/-! ### Requests to the volume -/

theorem clocks_files (a : Option Tid) (effects : List (Effect Path StoredFile))
    (older : History) :
    clocks (effects.map (fun e => .note a (.file e)) ++ older) = clocks older := by
  induction effects with
  | nil => rfl
  | cons e effects ih => simpa [clocks] using ih

theorem files_notes (a : Option Tid) (effects : List (Effect Path StoredFile))
    (older : History) :
    files (effects.map (fun e => .note a (.file e)) ++ older) = effects ++ files older := by
  induction effects with
  | nil => rfl
  | cons e effects ih => simpa [files] using ih

theorem runs_fs {op : Op Path StoredFile} {F : History → Prop} {G : op.Ans → History → Prop}
    {E : Err → History → Prop}
    (h : ∀ f w r effects, Inv w → F w.trace → serve f (files w.trace) op = some (r, effects) →
      Legal (effects.map (fun e => .note (some t) (.file e)) ++ w.trace) ∧
        (∀ a, r = .ok a → G a (effects.map (fun e => .note (some t) (.file e)) ++ w.trace)) ∧
          ∀ code, r = .error code →
            E (.code code) (effects.map (fun e => .note (some t) (.file e)) ++ w.trace)) :
    Runs size checkRepository initial t (fs op) F G E := by
  apply Runs.bind (G := fun r tr => (∀ a, r = .ok a → G a tr) ∧
    ∀ code, r = .error code → E (.code code) tr)
  · refine runs_ask fun c w a hi hF ha => ?_
    obtain ⟨⟨r, effects⟩, hserve, rfl⟩ := Option.map_eq_some_iff.mp ha
    have hmap : (effects.map Note.file).map (Entry.note (some t)) =
        (effects.map (fun e => .note (some t) (.file e)) : History) := by
      rw [List.map_map]
      rfl
    obtain ⟨hlegal, hpost⟩ := h c.fate w r effects hi hF hserve
    simp only [hmap]
    refine ⟨trivial, hlegal, ?_, hpost⟩
    rw [clocks_files]
    exact hi.clock
  · exact fun r => runs_orThrow (fun a tr hr hG => hG.1 a hr) fun code tr hr hG => hG.2 code hr

/-- Effects on other files than the receipt are legal and keep what is closed. -/
theorem closed_effects {F : History → Prop} (hF : Closed t F)
    {effects : List (Effect Path StoredFile)} (hplain : ∀ e ∈ effects, Plain (.file e))
    {tr : History} (hlegal : Legal tr) (h : F tr) :
    Legal (effects.map (fun e => .note (some t) (.file e)) ++ tr) ∧
      F (effects.map (fun e => .note (some t) (.file e)) ++ tr) := by
  induction effects with
  | nil => exact ⟨hlegal, h⟩
  | cons e effects ih =>
    obtain ⟨hlegal', hF'⟩ := ih fun e' he' => hplain e' (List.mem_cons_of_mem _ he')
    have he := hplain e List.mem_cons_self
    exact ⟨⟨hlegal', .plain he⟩, hF _ _ he hF'⟩

theorem runs_other {op : Op Path StoredFile} {F : History → Prop} (hF : Closed t F)
    (hop : Path.receipt ∉ op.paths) :
    Runs size checkRepository initial t (fs op) F (fun _ => F) (Thrown F) := by
  refine runs_fs fun f w r effects hi h hserve => ?_
  have hplain : ∀ e ∈ effects, Plain (.file e) := by
    intro e he
    change Path.receipt ∉ e.touches
    rw [serve_touches hserve he]
    exact hop
  obtain ⟨hlegal, hF'⟩ := closed_effects hF hplain hi.legal h
  exact ⟨hlegal, fun _ _ => hF', fun _ _ => ⟨id, hF'⟩⟩

/-! ### Small programs -/

theorem runs_throwIf {condition : Bool} {error : Err} {F : History → Prop} :
    Runs size checkRepository initial t (throwIf condition error) F
      (fun _ tr => F tr ∧ condition = false) fun e tr => F tr ∧ e = error := by
  unfold throwIf
  by_cases hc : condition = true
  · rw [if_pos hc]
    exact Runs.fail fun _ hF => ⟨hF, rfl⟩
  · rw [if_neg hc]
    exact Runs.ret fun _ hF => ⟨hF, by simpa using hc⟩

theorem runs_privateParent {create : Bool} {F : History → Prop} :
    Runs size checkRepository initial t (privateParent create) F (fun _ => F) (Thrown F) := by
  have hcheck : Runs size checkRepository initial t (do
      let ok : Bool ← orThrow (← ask (S := sys) .stat)
      throwIf (!ok) invalid) F (fun _ => F) (Thrown F) := by
    apply Runs.bind runs_stat
    intro r
    apply Runs.bind (G := fun _ => F) (runs_orThrow (fun _ _ _ h => h) fun _ _ _ h => ⟨id, h⟩)
    intro ok
    refine runs_throwIf.mono (fun _ h => h) (fun _ _ h => h.1) ?_
    rintro _ tr ⟨hF, rfl⟩
    exact ⟨nofun, hF⟩
  unfold privateParent
  by_cases hc : create = true
  · rw [if_pos hc]
    exact Runs.bind runs_settle fun _ => hcheck
  · rw [if_neg hc]
    exact hcheck

theorem runs_andFinally {α : Type} {body : sys.Task α} {last : sys.Task Unit}
    {F : History → Prop} {G : α → History → Prop} {E E' : Err → History → Prop} {B : Err → Prop}
    (h : Runs size checkRepository initial t body F G E)
    (hlast : ∀ F', Runs size checkRepository initial t last F' (fun _ => F')
      fun e tr => B e ∧ F' tr)
    (hE : ∀ e tr, E e tr → E' e tr) (hG' : ∀ a e tr, B e → G a tr → E' e tr)
    (hE' : ∀ e₀ e tr, B e → E e₀ tr → E' e tr) :
    Runs size checkRepository initial t (body.andFinally last) F G E' := by
  apply Runs.bind (Runs.attempt h)
  intro r
  cases r with
  | ok a =>
    apply Runs.bind ((hlast (G a)).mono (fun _ h => h) (fun _ _ h => h) fun e tr h =>
      hG' a e tr h.1 h.2)
    exact fun _ => Runs.ret fun _ h => h
  | error e₀ =>
    apply Runs.bind ((hlast (E e₀)).mono (fun _ h => h) (fun _ _ h => h) fun e tr h =>
      hE' e₀ e tr h.1 h.2)
    exact fun _ => Runs.fail fun tr h => hE e₀ tr h

/-! ### Saving a receipt -/

/-- What the process knows of the state it holds. -/
structure Holds (t : Tid) (state : Receipt) (launched : List Nat) (tr : History) : Prop where
  fits : Fits state tr
  accepts : Accepts t tr
  launches : launches tr = launched

/-- The state the process holds is the one on the volume. -/
structure Saved (t : Tid) (state : Receipt) (launched : List Nat) (tr : History) : Prop
    extends Holds t state launched tr where
  recorded : recorded tr = some state

theorem closed_accepts : Closed t (Accepts t) := by
  intro n tr hn h
  refine h.cons fun file heq => ?_
  cases heq
  exact hn

variable {state : Receipt} {launched : List Nat}

theorem closed_holds : Closed t (Holds t state launched) :=
  fun n tr hn h => ⟨h.fits.plain _ hn, closed_accepts n tr hn h.accepts,
    (launches_plain _ _ hn).trans h.launches⟩

theorem closed_saved : Closed t (Saved t state launched) :=
  fun n tr hn h => ⟨closed_holds n tr hn h.toHolds, (recorded_plain _ _ hn).trans h.recorded⟩

theorem runs_writeTmp {uuid : Nat} :
    Runs size checkRepository initial t (fs (.writeFile (.tmp uuid) (fileOf size state)))
      (fun tr => Holds t state launched tr ∧ present (.tmp uuid) (files tr) = true)
      (fun _ tr => Holds t state launched tr ∧
        read (.tmp uuid) (files tr) = some (fileOf size state))
      (Thrown (Holds t state launched)) := by
  refine runs_fs fun f w r effects hi hF hserve => ?_
  obtain ⟨hholds, hthere⟩ := hF
  have hplain : ∀ e ∈ effects, Plain (.file e) := by
    intro e he
    change Path.receipt ∉ e.touches
    rw [serve_touches hserve he]
    simp [Op.paths]
  obtain ⟨hlegal, hholds'⟩ := closed_effects closed_holds hplain hi.legal hholds
  refine ⟨hlegal, ?_, fun _ _ => ⟨id, hholds'⟩⟩
  rintro _ rfl
  refine ⟨hholds', ?_⟩
  rw [files_notes, serve_writeFile_ok hserve hthere]
  simp

/-- The rename puts the state on the volume, also when it reports an error. -/
theorem runs_install {uuid : Nat} :
    Runs size checkRepository initial t (fs (.rename (.tmp uuid) .receipt))
      (fun tr => Holds t state launched tr ∧
        read (.tmp uuid) (files tr) = some (fileOf size state))
      (fun _ => Saved t state launched) (Thrown (Holds t state launched)) := by
  refine runs_fs fun f w r effects hi hF hserve => ?_
  obtain ⟨hholds, hsrc⟩ := hF
  rcases serve_rename hserve with ⟨rfl, hrefused⟩ | ⟨-, rfl⟩
  · exact ⟨hi.legal, fun _ hr => absurd hr hrefused, fun _ _ => ⟨id, hholds⟩⟩
  · have hrec := recorded_rename (a := some t) hsrc rfl hholds.fits.range
    have hsaved : Saved t state launched
        (.note (some t) (.file (.rename (.tmp uuid) .receipt)) :: w.trace) := by
      refine ⟨⟨⟨hholds.fits.toSound.congr rfl rfl, ?_⟩, ?_, hholds.launches⟩, hrec⟩
      · exact fun _ => ⟨state, hrec, rfl, id⟩
      · exact hholds.accepts.cons fun file heq => by cases heq
    exact ⟨⟨hi.legal, .save hsrc rfl hholds.fits⟩, fun _ _ => hsaved,
      fun _ _ => ⟨id, hsaved.toHolds⟩⟩

theorem runs_writeReceipt {uuid : Nat} :
    Runs size checkRepository initial t (writeReceipt size (.tmp uuid) state)
      (fun tr => Holds t state launched tr ∧ present (.tmp uuid) (files tr) = true)
      (fun _ => Saved t state launched) (Thrown (Holds t state launched)) := by
  apply Runs.bind (G := fun _ tr => Holds t state launched tr ∧
    read (.tmp uuid) (files tr) = some (fileOf size state)) _ fun _ => runs_install
  apply runs_andFinally (B := fun e => ¬ CacheFailure e) (E := Thrown (Holds t state launched))
  · apply Runs.bind runs_writeTmp
    exact fun _ => runs_handle.mono (fun _ h => h) (fun _ _ h => h) fun _ _ h =>
      ⟨h.2.1, h.2.2.1⟩
  · exact fun F' => runs_handle.mono (fun _ h => h) (fun _ _ h => h) fun _ _ h => h.2
  · exact fun _ _ h => h
  · exact fun _ _ _ hB h => ⟨hB, h.1⟩
  · exact fun _ _ _ hB h => ⟨hB, h.2⟩

theorem runs_save :
    Runs size checkRepository initial t (save size state) (Holds t state launched)
      (fun _ => Saved t state launched) (Thrown (Holds t state launched)) := by
  apply Runs.bind runs_privateParent
  intro _
  apply Runs.bind (G := fun _ => Holds t state launched)
  · refine runs_ask fun c w a hi hF ha => ?_
    cases ha
    exact ⟨rfl, hi.legal, hi.clock, hF⟩
  intro uuid
  apply Runs.bind (G := fun _ tr => Holds t state launched tr ∧
    present (.tmp uuid) (files tr) = true)
  · refine runs_fs fun f w r effects hi hF hserve => ?_
    have hplain : ∀ e ∈ effects, Plain (.file e) := by
      intro e he
      change Path.receipt ∉ e.touches
      rw [serve_touches hserve he]
      simp [Op.paths]
    obtain ⟨hlegal, hholds⟩ := closed_effects closed_holds hplain hi.legal hF
    refine ⟨hlegal, ?_, fun _ _ => ⟨id, hholds⟩⟩
    rintro _ rfl
    rcases serve_openNew hserve with ⟨-, hrefused⟩ | ⟨-, rfl⟩
    · exact absurd rfl hrefused
    · exact ⟨hholds, by simp [files, present]⟩
  intro _
  apply Runs.bind (Runs.attempt runs_writeReceipt)
  intro r
  cases r with
  | ok _ => exact Runs.ret fun _ h => h
  | error e =>
    -- the error is thrown again once the temporary file is gone, or not
    apply Runs.bind (G := fun _ => Thrown (Holds t state launched) e)
    · have hunlink : Runs size checkRepository initial t (fs (.unlink (.tmp uuid)))
          (Thrown (Holds t state launched) e) (fun _ => Thrown (Holds t state launched) e)
          (Thrown (Thrown (Holds t state launched) e)) :=
        runs_other ((closed_const _).and closed_holds) (by simp [Op.paths])
      refine hunlink.attempt.mono (fun _ h => h) ?_ fun _ _ h => h
      intro r tr h
      cases r with
      | ok _ => exact h
      | error _ => exact h.2
    · exact fun _ => Runs.fail fun _ h => h

/-! ### Fetching -/

/-- What a part of the initializer leaves behind: a state it may save, which is the
    saved one unless it was stopped by another error than a failure of the cache. -/
def After (t : Tid) {α : Type} (out : Receipt × Except Err α) (tr : History) : Prop :=
  out.1.failure = none ∧ ∃ launched, Holds t out.1 launched tr ∧
    ((∀ e, out.2 = .error e → CacheFailure e) → recorded tr = some out.1)

theorem After.stopped {α : Type} {tr : History} (hnone : state.failure = none)
    (h : Holds t state launched tr) {e : Err} (he : ¬ CacheFailure e) :
    After t ((state, .error e) : Receipt × Except Err α) tr :=
  ⟨hnone, launched, h, fun hall => absurd (hall e rfl) he⟩

theorem After.done {α : Type} {tr : History} (hnone : state.failure = none)
    (h : Saved t state launched tr) (r : Except Err α) :
    After t ((state, r) : Receipt × Except Err α) tr :=
  ⟨hnone, launched, h.toHolds, fun _ => h.recorded⟩

theorem failureOf_ordinary (hnone : state.failure = none) : ¬ CacheFailure (failureOf state) := by
  simp only [failureOf, hnone]
  by_cases hmax : MAX_FETCH_ATTEMPTS ≤ state.attempts
  · rw [if_pos hmax]
    exact nofun
  · rw [if_neg hmax]
    exact nofun

theorem pauseAfter_le (attempts : Nat) : pauseAfter attempts ≤ 2000 := by
  unfold pauseAfter
  by_cases h : attempts = 1
  · rw [if_pos h]
    decide
  · rw [if_neg h]

theorem runs_reserve {E : Err → History → Prop} (hnone : state.failure = none)
    (hleft : state.attempts < MAX_FETCH_ATTEMPTS) :
    Runs size checkRepository initial t (ask (S := sys) (.reserve (state.attempts + 1)))
      (fun tr => Saved t state launched tr ∧ Passed (state.nextAttemptAt - TIMER_EARLY_MS) tr)
      (fun instant tr => Holds t (state.reserve instant) launched tr) E := by
  refine runs_ask fun c w a hi hF ha => ?_
  obtain ⟨hsaved, k, hk, hpassed⟩ := hF
  cases ha
  have hlatest : ∀ m ∈ clocks (.note (some t) (.clock w.glob.clock) :: w.trace),
      m ≤ w.glob.clock := by
    intro m hm
    rcases List.mem_cons.mp hm with rfl | hold
    · exact Nat.le_refl _
    · exact hi.clock m hold
  have hfacts := Legal.facts hi.legal
  have hsound := hsaved.fits.toSound
  have hpause := pauseAfter_le (state.attempts + 1)
  have hnext : state.nextAttemptAt ≤ w.glob.clock + TIMER_EARLY_MS := by
    have := hi.clock k hk
    omega
  refine ⟨rfl, ⟨⟨hi.legal, .plain trivial⟩,
    .reserve hsaved.recorded List.mem_cons_self hlatest hnext⟩, hlatest, ?_⟩
  have hrange : (state.reserve w.glob.clock).InRange := by
    refine ⟨hsound.range.positive, hsound.range.deadline, hsound.range.safe, hleft, ?_⟩
    have hb := hi.bounded
    change w.glob.clock + pauseAfter (state.attempts + 1) ≤ MAX_SAFE_INTEGER
    unfold MAX_TIME at hb
    unfold MAX_SAFE_INTEGER
    omega
  refine ⟨⟨⟨hrange, ?_, hsound.before, ?_⟩, ?_⟩, ?_, hsaved.launches⟩
  · exact Nat.le_succ_of_le hsound.launched
  · intro attempt instant hmem
    rcases List.mem_cons.mp hmem with heq | hold
    · cases heq
      exact ⟨Nat.le_succ _, fun _ => Nat.le_refl _⟩
    · refine ⟨Nat.le_succ_of_le (hsound.reserved attempt instant hold).1, ?_⟩
      -- an attempt of this number that was lost was reserved before
      intro heq
      have hbefore := hi.clock instant (hfacts.timed attempt instant hold)
      rw [heq]
      exact Nat.add_le_add_right hbefore _
  · intro _
    refine ⟨state, hsaved.recorded, rfl, ?_⟩
    rw [hnone]
    exact nofun
  · refine (closed_accepts (.clock _) _ trivial hsaved.accepts).cons fun file heq => ?_
    cases heq

/-- An attempt that was saved may launch its fetch. -/
theorem runs_launch {args : List String} {remaining instant : Nat} {E : Err → History → Prop}
    (hnone : state.failure = none) (hspare : launched.length < state.attempts)
    (hnow : instant < state.deadline) :
    Runs size checkRepository initial t (ask (S := sys) (.launch args remaining instant))
      (Saved t state launched) (fun _ => Saved t state (instant :: launched)) E := by
  refine runs_ask fun c w a hi hF ha => ?_
  cases ha
  have hsound := hF.fits.toSound
  have hlen : (launches w.trace).length < state.attempts := by
    rw [hF.launches]
    exact hspare
  refine ⟨rfl, ⟨hi.legal, .launch hF.recorded hnone hlen hnow hF.accepts⟩, hi.clock,
    ⟨⟨⟨hsound.range, hlen, ?_, hsound.reserved⟩, hF.fits.follows⟩, ?_, ?_⟩, hF.recorded⟩
  · intro instant' hmem
    rcases List.mem_cons.mp hmem with rfl | hold
    · exact hnow
    · exact hsound.before instant' hold
  · exact hF.accepts.cons fun file heq => by cases heq
  · change instant :: launches w.trace = _
    rw [hF.launches]

/-- After a fetch the state puts off its next attempt. -/
theorem runs_postpone {E : Err → History → Prop} :
    Runs size checkRepository initial t now (Saved t state launched)
      (fun instant tr => Holds t (state.postpone instant) launched tr) E := by
  refine runs_ask fun c w a hi hF ha => ?_
  cases ha
  have hlatest : ∀ m ∈ clocks (.note (some t) (.clock w.glob.clock) :: w.trace),
      m ≤ w.glob.clock := by
    intro m hm
    rcases List.mem_cons.mp hm with rfl | hold
    · exact Nat.le_refl _
    · exact hi.clock m hold
  have hsound := hF.fits.toSound
  refine ⟨rfl, ⟨hi.legal, .plain trivial⟩, hlatest, ⟨⟨?_, hsound.launched, hsound.before, ?_⟩,
    hF.fits.follows⟩, closed_accepts (.clock _) _ trivial hF.accepts, hF.launches⟩
  · refine ⟨hsound.range.positive, hsound.range.deadline, hsound.range.safe,
      hsound.range.attempts, ?_⟩
    have hb := hi.bounded
    have hpause := pauseAfter_le state.attempts
    change w.glob.clock + pauseAfter state.attempts ≤ MAX_SAFE_INTEGER
    unfold MAX_TIME at hb
    unfold MAX_SAFE_INTEGER
    omega
  · intro attempt instant hmem
    refine ⟨(hsound.reserved attempt instant hmem).1, fun heq => ?_⟩
    have := hi.clock instant ((Legal.facts hi.legal).timed attempt instant hmem)
    rw [heq]
    exact Nat.add_le_add_right this _

theorem runs_runReserved {args : List String} {E : Err → History → Prop}
    (hnone : state.failure = none) (hspare : launched.length < state.attempts) :
    Runs size checkRepository initial t (runReserved size args state)
      (Holds t state launched) (After t) E := by
  apply Runs.bind (Runs.attempt runs_save)
  intro r
  cases r with
  | error e => exact Runs.ret fun tr h => After.stopped hnone h.2 h.1
  | ok _ =>
    apply Runs.bind (runs_now closed_saved)
    intro instant
    by_cases hlate : state.deadline ≤ instant
    · rw [if_pos hlate]
      exact Runs.ret fun tr h => After.done hnone h.1 _
    rw [if_neg hlate]
    apply Runs.bind ((runs_launch hnone hspare (by omega)).weaken fun _ h => h.1)
    intro _
    apply Runs.bind (G := fun _ => Saved t state (instant :: launched))
    · refine runs_ask fun c w a hi hF ha => ?_
      cases ha
      exact ⟨rfl, hi.legal, hi.clock, hF⟩
    intro result
    apply Runs.bind runs_postpone
    intro later
    apply Runs.bind (Runs.attempt runs_save)
    intro r
    cases r with
    | ok _ =>
      have hnone' : (state.postpone later).failure = none := hnone
      exact Runs.ret fun tr h => After.done hnone' h _
    | error e =>
      have hnone' : (state.postpone later).failure = none := hnone
      exact Runs.ret fun tr h => After.stopped hnone' h.2 h.1

/-- The pause of the attempt before is over when this one is reserved. -/
theorem runs_pause {i2 i3 : Nat} {E : Err → History → Prop} :
    Runs size checkRepository initial t (pause i3 (state.nextAttemptAt - i2))
      (fun tr => (Saved t state launched tr ∧ Passed i2 tr) ∧ i2 ≤ i3)
      (fun _ tr => Saved t state launched tr ∧
        Passed (state.nextAttemptAt - TIMER_EARLY_MS) tr) E := by
  unfold pause
  by_cases hwait : state.nextAttemptAt - i2 = 0
  · rw [if_pos hwait]
    refine Runs.ret ?_
    rintro tr ⟨⟨hsaved, k, hk, hle⟩, -⟩
    exact ⟨hsaved, k, hk, by omega⟩
  · rw [if_neg hwait]
    have hclosed : Closed t fun tr => (Saved t state launched tr ∧ Passed i2 tr) ∧ i2 ≤ i3 :=
      (closed_saved.and (closed_passed i2)).and (closed_const (i2 ≤ i3))
    refine (runs_delay hclosed).mono (fun _ h => h) ?_ fun _ _ h => h
    rintro _ tr ⟨⟨⟨hsaved, -⟩, hle⟩, k, hk, hdone⟩
    exact ⟨hsaved, k, hk, by omega⟩

theorem runs_run {args : List String} {E : Err → History → Prop} (hnone : state.failure = none) :
    Runs size checkRepository initial t (run size args state)
      (Saved t state launched) (After t) E := by
  apply Runs.bind (runs_now closed_saved)
  intro i1
  by_cases hex : exhausted state i1 = true
  · rw [if_pos hex]
    exact Runs.ret fun tr h => After.stopped hnone h.1.toHolds (failureOf_ordinary hnone)
  rw [if_neg hex]
  have hleft : state.attempts < MAX_FETCH_ATTEMPTS := by
    simp only [exhausted, Bool.or_eq_true, decide_eq_true_eq, not_or] at hex
    omega
  have hpast : ∀ m : Nat, Closed t fun tr => Saved t state launched tr ∧ Passed m tr := fun m =>
    closed_saved.and (closed_passed m)
  apply Runs.bind (G := fun i2 tr => Saved t state launched tr ∧ Passed i2 tr)
  · refine (runs_now closed_saved).mono (fun _ h => h.1) ?_ fun _ _ h => h
    exact fun i2 tr h => ⟨h.1, i2, h.2.noted, Nat.le_refl _⟩
  intro i2
  apply Runs.bind (G := fun i3 tr => (Saved t state launched tr ∧ Passed i2 tr) ∧ i2 ≤ i3)
  · refine (runs_now (hpast i2)).mono (fun _ h => h) ?_ fun _ _ h => h
    rintro i3 tr ⟨h, hreading⟩
    obtain ⟨k, hk, hle⟩ := h.2
    exact ⟨h, Nat.le_trans hle (hreading.latest k hk)⟩
  intro i3
  by_cases hshort : state.deadline ≤ i3 + (state.nextAttemptAt - i2)
  · simp only [if_pos hshort]
    exact Runs.ret fun tr h => After.stopped hnone h.1.1.toHolds nofun
  simp only [if_neg hshort]
  apply Runs.bind runs_pause
  intro _
  apply Runs.bind (G := fun _ tr => Saved t state launched tr ∧
    Passed (state.nextAttemptAt - TIMER_EARLY_MS) tr)
  · exact (runs_now (hpast _)).mono (fun _ h => h) (fun _ _ h => h.1) fun _ _ h => h
  intro i4
  by_cases hlate : state.deadline ≤ i4
  · rw [if_pos hlate]
    exact Runs.ret fun tr h => After.stopped hnone h.1.toHolds nofun
  rw [if_neg hlate]
  -- the attempts before this one count every launch so far
  intro w hi ho hF
  have hspare : launched.length < state.attempts + 1 := by
    have := hF.1.fits.launched
    rw [hF.1.launches] at this
    omega
  have hrun : ∀ instant, Runs size checkRepository initial t
      (runReserved size args (state.reserve instant)) (Holds t (state.reserve instant) launched)
        (After t) E :=
    fun instant => runs_runReserved hnone hspare
  exact Runs.bind (runs_reserve hnone hleft) hrun w hi ho hF

theorem After.failed {α β : Type} {tr : History} {state : Receipt} {e : Err}
    (h : After t ((state, .error e) : Receipt × Except Err α) tr) :
    After t ((state, .error e) : Receipt × Except Err β) tr := by
  obtain ⟨hnone, launched, hholds, hrec⟩ := h
  refine ⟨hnone, launched, hholds, fun hall => hrec fun e' he' => ?_⟩
  cases he'
  exact hall e rfl

/-- Where the state held is the one on the volume, fetching may go on from it. -/
theorem After.resume {α β : Type} {out : Receipt × Except Err α} {p : sys.Task β}
    {G : β → History → Prop} {E : Err → History → Prop}
    (hok : ∀ e, out.2 = .error e → CacheFailure e)
    (h : out.1.failure = none → ∀ launched,
      Runs size checkRepository initial t p (Saved t out.1 launched) G E) :
    Runs size checkRepository initial t p (After t out) G E := by
  have hrun : Runs size checkRepository initial t p
      (fun tr => out.1.failure = none ∧ ∃ launched, Saved t out.1 launched tr) G E :=
    Runs.given fun hnone => Runs.forSome (h hnone)
  refine hrun.weaken ?_
  rintro tr ⟨hnone, launched, hholds, hrec⟩
  exact ⟨hnone, launched, hholds, hrec hok⟩

theorem runs_attemptsFrom {args : List String} {E : Err → History → Prop} (left : Nat) :
    ∀ (attempt : Nat) (state : Receipt) (launched : List Nat), state.failure = none →
      Runs size checkRepository initial t (attemptsFrom size args left attempt state)
        (Saved t state launched) (After t) E := by
  induction left with
  | zero => exact fun attempt state launched hnone => Runs.ret fun tr h => After.done hnone h _
  | succ left ih =>
    intro attempt state launched hnone
    apply Runs.bind (runs_now closed_saved)
    intro i1
    by_cases hlate : state.deadline ≤ i1
    · rw [if_pos hlate]
      exact Runs.ret fun tr h => After.done hnone h.1 _
    rw [if_neg hlate]
    apply Runs.bind ((runs_run hnone).weaken fun _ h => h.1)
    rintro ⟨state', r⟩
    cases r with
    | error e => exact Runs.ret fun tr h => h.failed
    | ok result =>
      have hok : ∀ e, ((state', .ok result) : Receipt × Except Err GitResult).2 = .error e →
          CacheFailure e := nofun
      apply After.resume hok
      intro hnone' launched'
      by_cases hzero : result.status = some 0
      · simp only [if_pos hzero]
        apply Runs.bind (runs_now closed_saved)
        intro i2
        by_cases hover : state'.deadline < i2
        · rw [if_pos hover]
          exact Runs.ret fun tr h => After.done hnone' h.1 _
        · rw [if_neg hover]
          exact Runs.ret fun tr h => After.done hnone' h.1 _
      simp only [if_neg hzero]
      by_cases hgive : (!transient (classifyGitFailure result .fetch attempt).code ||
          attempt == MAX_FETCH_ATTEMPTS) = true
      · rw [if_pos hgive]
        exact Runs.ret fun tr h => After.done hnone' h _
      rw [if_neg hgive]
      apply Runs.bind (runs_now closed_saved)
      intro i2
      by_cases hshort : state'.deadline ≤ i2 + pauseAfter attempt
      · rw [if_pos hshort]
        exact Runs.ret fun tr h => After.done hnone' h.1 _
      rw [if_neg hshort]
      apply Runs.bind ((runs_delay closed_saved).weaken fun _ h => h.1)
      exact fun _ => (ih (attempt + 1) state' launched' hnone').weaken fun _ h => h.1

theorem runs_fetch {args : List String} {E : Err → History → Prop} (hnone : state.failure = none) :
    Runs size checkRepository initial t (fetch size args state) (Saved t state launched)
      (After t) E := by
  unfold fetch
  by_cases hmax : MAX_FETCH_ATTEMPTS ≤ state.attempts
  · rw [if_pos hmax]
    exact Runs.ret fun tr h => After.done hnone h _
  · rw [if_neg hmax]
    exact runs_attemptsFrom _ _ state launched hnone

theorem cacheFailure_of_cacheFailed {usingCache : Bool} {e : Err}
    (h : cacheFailed usingCache e = true) : CacheFailure e := by
  cases e with
  | failure failure =>
    simp only [cacheFailed, Bool.and_eq_true, beq_iff_eq] at h
    exact h.1.2
  | code code => cases h
  | other => cases h

/-- The second fetch goes on from the state the first one saved. -/
theorem runs_fetchPhases {args : List String} {usingCache : Bool} {E : Err → History → Prop}
    (hnone : state.failure = none) :
    Runs size checkRepository initial t (fetchPhases size args usingCache state)
      (Saved t state launched) (After t) E := by
  apply Runs.bind (runs_fetch hnone)
  rintro ⟨state', r⟩
  cases r with
  | ok attempt => exact Runs.ret fun tr h => h
  | error e =>
    by_cases hcache : cacheFailed usingCache e = true
    · have hfailure := cacheFailure_of_cacheFailed hcache
      simp only [hcache, Bool.not_true, Bool.false_eq_true, if_false]
      have herror : ∀ e', ((state', .error e) : Receipt × Except Err Nat).2 = .error e' →
          CacheFailure e' := by
        rintro _ ⟨⟩
        exact hfailure
      apply After.resume herror
      intro hnone' launched'
      apply Runs.bind (Runs.attempt runs_settle)
      intro r
      cases r with
      | error e' => exact Runs.ret fun tr h => After.done hnone' h.2 _
      | ok _ => exact runs_fetch hnone'
    · simp only [hcache, Bool.not_false, if_true]
      exact Runs.ret fun tr h => h

/-! ### The rest of the initializer -/

/-- Requests that have nothing to do with the budget. -/
def Idle : Req sys → Prop
  | .ext .settle | .ext (.git _) | .ext .stat => True
  | .ext (.fs op) => Path.receipt ∉ op.paths
  | _ => False

/-- A program of such requests keeps every closed assertion. -/
theorem runs_idle {α : Type} {p : sys.Task α} (hp : p.Only Idle) {F : History → Prop}
    (hF : Closed t F) : Runs size checkRepository initial t p F (fun _ => F) fun _ => F := by
  induction p with
  | ret a => exact Runs.ret fun _ h => h
  | fail e => exact Runs.fail fun _ h => h
  | call q k ih =>
    obtain ⟨hq, hk⟩ := hp
    cases q with
    | store q => exact hq.elim
    | ext x =>
      refine Runs.bind (p := ask (S := sys) x) (f := k) (G := fun _ => F) ?_
        fun r => ih r (hk r)
      refine runs_ask fun c w a hi h ha => ?_
      cases x with
      | settle =>
        cases ha
        exact ⟨rfl, hi.legal, hi.clock, h⟩
      | git args =>
        cases ha
        exact ⟨rfl, hi.legal, hi.clock, h⟩
      | stat =>
        cases ha
        exact ⟨rfl, hi.legal, hi.clock, h⟩
      | fs op =>
        obtain ⟨⟨r, effects⟩, hserve, rfl⟩ := Option.map_eq_some_iff.mp ha
        have hplain : ∀ e ∈ effects, Plain (.file e) := by
          intro e he
          change Path.receipt ∉ e.touches
          rw [serve_touches hserve he]
          exact hq
        have hmap : (effects.map Note.file).map (Entry.note (some t)) =
            (effects.map (fun e => .note (some t) (.file e)) : History) := by
          rw [List.map_map]
          rfl
        obtain ⟨hlegal, hF'⟩ := closed_effects hF hplain hi.legal h
        simp only [hmap]
        refine ⟨trivial, hlegal, ?_, hF'⟩
        rw [clocks_files]
        exact hi.clock
      | enter => exact hq.elim
      | exit => exact hq.elim
      | openReceipt => exact hq.elim
      | handle => exact hq.elim
      | now => exact hq.elim
      | randomUUID => exact hq.elim
      | reserve attempt => exact hq.elim
      | delay since ms => exact hq.elim
      | launch args remaining instant => exact hq.elim
      | fetched => exact hq.elim

theorem only_ask {x : Ext} (hx : Idle (.ext x)) : (ask (S := sys) x).Only Idle :=
  ⟨hx, fun _ => trivial⟩

theorem only_orThrow {α : Type} (r : Except String α) : (orThrow r).Only Idle := by
  cases r <;> trivial

theorem only_settle : settle.Only Idle :=
  (only_ask (x := .settle) trivial).bind fun r => only_orThrow r

theorem only_fs {op : Op Path StoredFile} (h : Path.receipt ∉ op.paths) : (fs op).Only Idle :=
  (only_ask (x := .fs op) h).bind fun r => only_orThrow r

theorem only_askGit (args : List String) : (ask (S := sys) (.git args)).Only Idle :=
  only_ask (x := .git args) trivial

theorem only_git (args : List String) (stage : Stage) : (git args stage).Only Idle := by
  apply (only_askGit _).bind
  intro result
  by_cases hzero : result.status = some 0
  · rw [if_pos hzero]
    trivial
  · rw [if_neg hzero]
    trivial

theorem only_throwIf (condition : Bool) (error : Err) : (throwIf condition error).Only Idle := by
  unfold throwIf
  cases condition <;> trivial

theorem only_attachReferenceCache : attachReferenceCache.Only Idle := by
  apply (only_askGit _).bind
  intro reference
  apply (only_askGit _).bind
  intro shallow
  by_cases hcold : reference.status ≠ some 0 ∨ shallow.status ≠ some 0 ∨
      Js.trim shallow.stdout ≠ "false"
  · rw [if_pos hcold]
    trivial
  rw [if_neg hcold]
  apply (only_ask (x := .stat) trivial).bind
  intro directory
  by_cases hdir : directory = .ok true
  · rw [if_pos hdir]
    exact only_settle.bind fun _ => only_settle.bind fun _ => trivial
  · rw [if_neg hdir]
    trivial

theorem only_setRemote (remote : GitResult) (repository : Option String) :
    (setRemote remote repository).Only Idle := by
  unfold setRemote
  by_cases hnew : remote.status ≠ some 0
  · rw [if_pos hnew]
    exact only_git _ _
  · rw [if_neg hnew]
    exact only_throwIf _ _

theorem only_prepare (settings : Settings) : (prepare checkRepository settings).Only Idle := by
  unfold prepare
  cases checkRepository settings.repository with
  | none => trivial
  | some valid =>
    apply (only_throwIf _ _).bind
    intro _
    apply (only_git _ _).bind
    intro _
    apply (only_askGit _).bind
    intro remote
    apply (only_setRemote _ _).bind
    intro _
    apply (only_throwIf _ _).bind
    intro _
    apply (only_throwIf _ _).bind
    intro _
    apply (only_throwIf _ _).bind
    intro _
    exact only_attachReferenceCache.bind fun _ => trivial

theorem only_switchBranch (branch : Option String) : (switchBranch branch).Only Idle := by
  cases branch with
  | none => trivial
  | some branch =>
    apply (only_git _ _).bind
    intro _
    apply (only_askGit _).bind
    exact fun _ => only_git _ _

theorem only_finish (settings : Settings) (usingCache : Bool) :
    (finish settings usingCache).Only Idle := by
  apply (only_git _ _).bind
  intro _
  apply (only_switchBranch _).bind
  intro _
  have hdrop : (dropCache usingCache).Only Idle := by
    cases usingCache with
    | false => trivial
    | true => exact (only_git _ _).bind fun _ => only_settle
  apply hdrop.bind
  intro _
  apply (only_fs (by simp [Op.paths])).bind
  exact fun _ => only_fs (by simp [Op.paths])

/-- The state the process holds may be saved, whatever was launched. -/
def Held (t : Tid) (state : Receipt) (tr : History) : Prop :=
  ∃ launched, Holds t state launched tr

theorem closed_held : Closed t (Held t state) := by
  rintro n tr hn ⟨launched, h⟩
  exact ⟨launched, closed_holds n tr hn h⟩

theorem runs_checkout {settings : Settings} {E : Err → History → Prop}
    (hnone : state.failure = none) :
    Runs size checkRepository initial t (checkout size checkRepository settings state)
      (Saved t state launched) (fun out => Held t out.1) E := by
  apply Runs.bind (Runs.attempt (runs_idle (only_prepare settings) closed_saved))
  intro r
  cases r with
  | error e => exact Runs.ret fun tr h => ⟨launched, h.toHolds⟩
  | ok planned =>
    obtain ⟨args, usingCache⟩ := planned
    apply Runs.bind (runs_fetchPhases hnone)
    rintro ⟨state', fetched⟩
    have hheld : ∀ tr, After t (state', fetched) tr → Held t state' tr := by
      rintro tr ⟨-, launched', hholds, -⟩
      exact ⟨launched', hholds⟩
    cases fetched with
    | error e => exact Runs.ret fun tr h => hheld tr h
    | ok attempt =>
      apply Runs.bind (Runs.attempt ((runs_idle (only_finish settings usingCache)
        closed_held).weaken hheld))
      intro r
      cases r with
      | ok _ => exact Runs.ret fun tr h => h
      | error e => exact Runs.ret fun tr h => h

/-! ### Opening the budget -/

/-- The process has neither opened a receipt nor launched anything. -/
structure Untouched (t : Tid) (tr : History) : Prop where
  opened : ∀ file, .note (some t) (.opened file) ∉ tr
  launched : ∀ instant, .note (some t) (.launched instant) ∉ tr

theorem Untouched.accepts {tr : History} (h : Untouched t tr) : Accepts t tr :=
  fun file hmem => absurd hmem (h.opened file)

theorem closed_untouched : Closed t (Untouched t) := by
  intro n tr hn h
  refine ⟨fun file hmem => ?_, fun instant hmem => ?_⟩
  · rcases List.mem_cons.mp hmem with heq | hold
    · cases heq
      exact hn
    · exact h.opened file hold
  · rcases List.mem_cons.mp hmem with heq | hold
    · cases heq
      exact hn
    · exact h.launched instant hold

/-- The process has opened `file`, which is the receipt, and no other one. -/
structure Opened (t : Tid) (file : StoredFile) (tr : History) : Prop where
  only : ∀ f, .note (some t) (.opened f) ∈ tr → f = file
  receipt : read .receipt (files tr) = some file

theorem closed_opened {file : StoredFile} : Closed t (Opened t file) := by
  intro n tr hn h
  refine ⟨fun f hmem => ?_, (receipt_plain _ _ hn).trans h.receipt⟩
  rcases List.mem_cons.mp hmem with heq | hold
  · cases heq
    exact hn.elim
  · exact h.only f hold

theorem runs_openReceipt :
    Runs size checkRepository initial t openReceipt (Untouched t) (Opened t)
      fun e tr => e = .code "ENOENT" → Untouched t tr ∧ read .receipt (files tr) = none := by
  apply Runs.bind (G := fun r tr => match r with
    | .ok file => Opened t file tr
    | .error code => code = "ENOENT" → Untouched t tr ∧ read .receipt (files tr) = none)
  · refine runs_ask fun c w a hi h ha => ?_
    obtain ⟨⟨r, effects⟩, hserve, rfl⟩ := Option.map_eq_some_iff.mp ha
    cases r with
    | ok file =>
      have hread := (serve_readFile hserve).2 file rfl
      refine ⟨rfl, ⟨hi.legal, .opened h.launched⟩, hi.clock, ?_, hread⟩
      intro f hmem
      rcases List.mem_cons.mp hmem with heq | hold
      · cases heq
        rfl
      · exact absurd hold (h.opened f)
    | error code =>
      refine ⟨rfl, hi.legal, hi.clock, ?_⟩
      rintro rfl
      exact ⟨h, serve_readFile_missing hserve⟩
  · intro r
    cases r with
    | ok file => exact Runs.ret fun _ h => h
    | error code =>
      refine Runs.fail fun tr h he => ?_
      cases he
      exact h rfl

theorem runs_readValue {file : StoredFile} :
    Runs size checkRepository initial t (readValue file) (Opened t file)
      (fun v tr => Opened t file tr ∧ file.isPrivate = true ∧ file.bytes ≤ 2048 ∧
        file.value = some v)
      fun e _ => e ≠ .code "ENOENT" := by
  have hthrow : ∀ (condition : Bool) (F : History → Prop),
      Runs size checkRepository initial t (throwIf condition invalid) F
        (fun _ tr => F tr ∧ condition = false) fun e _ => e ≠ .code "ENOENT" := by
    intro condition F
    refine runs_throwIf.mono (fun _ h => h) (fun _ _ h => h) ?_
    rintro _ tr ⟨-, rfl⟩
    exact nofun
  have hhandle : ∀ F : History → Prop,
      Runs size checkRepository initial t handle F (fun _ => F) fun e _ => e ≠ .code "ENOENT" :=
    fun F => runs_handle.mono (fun _ h => h) (fun _ _ h => h) fun _ _ h => h.1
  apply Runs.bind (hhandle _)
  intro _
  apply Runs.bind (hthrow _ _)
  intro _
  apply Runs.bind (hhandle _)
  intro _
  apply Runs.bind (hthrow _ _)
  intro _
  cases hvalue : file.value with
  | none => exact Runs.fail fun _ _ => nofun
  | some v =>
    refine Runs.ret ?_
    rintro tr ⟨⟨hopened, hprivate⟩, hbytes⟩
    exact ⟨hopened, by simpa using hprivate, by simpa using hbytes, rfl⟩

/-- A state that is read is the one on the volume, and its receipt is accepted. -/
theorem runs_readState :
    Runs size checkRepository initial t readState (Untouched t)
      (fun state tr => Accepts t tr ∧ recorded tr = some state)
      fun e tr => e = .code "ENOENT" → Untouched t tr ∧ read .receipt (files tr) = none := by
  apply Runs.bind runs_openReceipt
  intro file
  apply Runs.bind (G := fun v tr => Opened t file tr ∧ file.isPrivate = true ∧
    file.bytes ≤ 2048 ∧ file.value = some v)
  · apply runs_andFinally (B := fun e => e ≠ .code "ENOENT") runs_readValue
    · exact fun F' => runs_handle.mono (fun _ h => h) (fun _ _ h => h) fun _ _ h =>
        ⟨h.1, h.2.2⟩
    · exact fun e tr hne he => absurd he hne
    · exact fun _ e tr hne _ he => absurd he hne
    · exact fun _ e tr hne _ he => absurd he hne
  intro v
  apply Runs.bind (runs_now (closed_opened.and (closed_const _)))
  intro instant
  cases hstate : receiptOf v with
  | none =>
    exact Runs.fail fun _ _ he => nomatch he
  | some state =>
    dsimp only
    by_cases hfuture : instant < state.startedAt
    · rw [if_pos hfuture]
      exact Runs.fail fun _ _ he => nomatch he
    rw [if_neg hfuture]
    refine Runs.ret ?_
    rintro tr ⟨⟨hopened, hprivate, hbytes, hvalue⟩, hreading⟩
    refine ⟨fun f hmem => ?_, ?_⟩
    · rw [hopened.only f hmem]
      exact ⟨instant, hreading.noted, hprivate, hbytes, v, state.startedAt, hvalue,
        receiptOf_iff_shape.mp ⟨state, hstate, rfl⟩, by omega⟩
    · simp [recorded, hopened.receipt, hvalue, hstate]

/-- The budget of a volume without a receipt. -/
theorem held_fresh {tr : History} {startedAt : Nat} (hlegal : Legal tr) (h : Untouched t tr)
    (hnone : read .receipt (files tr) = none) (hreading : Reading startedAt tr) :
    Held t ⟨startedAt, startedAt + FETCH_DEADLINE_MS, 0, 0, none⟩ tr := by
  have hrec : recorded tr = none := by rw [recorded, hnone]; rfl
  obtain ⟨hlaunches, hreservations⟩ := (Legal.facts hlegal).idle hrec
  refine ⟨[], ⟨⟨⟨hreading.positive, rfl, ?_, Nat.zero_le _, Nat.zero_le _⟩, ?_, ?_, ?_⟩, ?_⟩,
    h.accepts, hlaunches⟩
  · have hb := hreading.bounded
    change startedAt + FETCH_DEADLINE_MS ≤ MAX_SAFE_INTEGER
    unfold MAX_TIME at hb
    unfold MAX_SAFE_INTEGER FETCH_DEADLINE_MS
    omega
  · rw [hlaunches]
    exact Nat.zero_le _
  · rw [hlaunches]
    intro instant hmem
    cases hmem
  · rw [hreservations]
    intro attempt instant hmem
    cases hmem
  · exact fun hthere => absurd hnone hthere

theorem runs_loadState {E : Err → History → Prop} (hE : ∀ e tr, E e tr) :
    Runs size checkRepository initial t loadState (Untouched t) (Held t) E := by
  apply Runs.bind (Runs.attempt runs_readState)
  intro r
  cases r with
  | ok state =>
    refine Runs.known (Runs.ret ?_)
    rintro tr ⟨hlegal, haccepts, hrec⟩
    exact ⟨launches tr, ⟨(Legal.facts hlegal).sound state hrec, fun _ => ⟨state, hrec, rfl, id⟩⟩,
      haccepts, rfl⟩
  | error e =>
    by_cases he : e = .code "ENOENT"
    · simp only [he, ne_eq, not_true_eq_false, if_false]
      have hclosed : Closed t fun tr => Untouched t tr ∧ read .receipt (files tr) = none :=
        closed_untouched.and fun n tr hn h => (receipt_plain _ _ hn).trans h
      apply Runs.bind ((runs_now hclosed).weaken fun tr h => h trivial)
      intro startedAt
      refine Runs.known (Runs.ret ?_)
      rintro tr ⟨hlegal, ⟨huntouched, hnone⟩, hreading⟩
      exact held_fresh hlegal huntouched hnone hreading
    · simp only [ne_eq, he, not_false_eq_true, if_true]
      exact Runs.fail fun tr _ => hE _ tr

theorem runs_checkoutBudget {E : Err → History → Prop} (hE : ∀ e tr, E e tr) :
    Runs size checkRepository initial t (checkoutBudget size) (Untouched t)
      (fun state tr => state.failure = none ∧ ∃ launched, Saved t state launched tr) E := by
  apply Runs.bind (Runs.attempt runs_privateParent)
  intro r
  cases r with
  | error e => exact Runs.fail fun tr _ => hE _ tr
  | ok _ =>
    apply Runs.bind (runs_loadState hE)
    intro state
    apply Runs.bind (runs_now closed_held)
    intro instant
    by_cases hex : exhausted state instant = true
    · rw [if_pos hex]
      exact Runs.fail fun tr _ => hE _ tr
    rw [if_neg hex]
    have hnone : state.failure = none := by
      simp only [exhausted, Bool.or_eq_true, not_or] at hex
      simpa using hex.1.1
    apply Runs.bind (G := fun _ tr => ∃ launched, Saved t state launched tr)
    · refine (Runs.forSome (K := fun launched => Holds t state launched) fun launched => ?_).weaken
        fun _ h => h.1
      exact runs_save.mono (fun _ h => h) (fun _ tr h => ⟨launched, h⟩) fun e tr _ => hE e tr
    · exact fun _ => Runs.ret fun tr h => ⟨hnone, h⟩

/-! ### One process of the container -/

/-- A failure may be latched in any state that may be saved. -/
theorem Held.fail {tr : History} (h : Held t state tr) (failure : Stage × Code) :
    Held t { state with failure := some failure } tr := by
  obtain ⟨launched, hfits, haccepts, hlaunches⟩ := h
  have hsound := hfits.toSound
  have hrange := hsound.range
  refine ⟨launched, ⟨⟨⟨hrange.positive, hrange.deadline, hrange.safe, hrange.attempts,
    hrange.nextAttemptAt⟩, hsound.launched, hsound.before, hsound.reserved⟩, ?_⟩, haccepts,
    hlaunches⟩
  intro hthere
  obtain ⟨old, hold, hstart, -⟩ := hfits.follows hthere
  exact ⟨old, hold, hstart, fun _ => rfl⟩

theorem runs_saveHeld {E : Err → History → Prop} (hE : ∀ e tr, E e tr) :
    Runs size checkRepository initial t (save size state) (Held t state) (fun _ _ => True) E :=
  Runs.forSome fun _ => runs_save.mono (fun _ h => h) (fun _ _ _ => trivial) fun e tr _ => hE e tr

theorem runs_checkoutWithin {settings : Settings} {E : Err → History → Prop}
    (hE : ∀ e tr, E e tr) :
    Runs size checkRepository initial t (checkoutWithin size checkRepository settings)
      (Untouched t) (fun _ => Accepts t) E := by
  apply Runs.bind (runs_checkoutBudget hE)
  intro state
  refine Runs.given fun hnone => Runs.forSome fun launched => ?_
  apply Runs.bind (runs_checkout hnone)
  rintro ⟨state', done⟩
  cases done with
  | ok _ =>
    refine Runs.ret ?_
    rintro tr ⟨launched', h⟩
    exact h.accepts
  | error e =>
    apply Runs.bind (G := fun _ _ => True)
    · exact (runs_saveHeld hE).weaken fun tr h => Held.fail h _
    · exact fun _ => Runs.fail fun tr _ => hE _ tr

theorem runs_initializeInternal {settings : Settings} {E : Err → History → Prop}
    (hE : ∀ e tr, E e tr) :
    Runs size checkRepository initial t (initializeInternal size checkRepository settings)
      (Untouched t) (fun _ => Accepts t) E := by
  have hsettle : ∀ F : History → Prop,
      Runs size checkRepository initial t settle F (fun _ => F) E :=
    fun F => runs_settle.mono (fun _ h => h) (fun _ _ h => h) fun e tr _ => hE e tr
  apply Runs.bind (hsettle _)
  intro _
  apply Runs.bind (hsettle _)
  intro _
  apply Runs.bind (hsettle _)
  intro _
  apply Runs.bind (G := fun _ => Accepts t)
  · have hready : Runs size checkRepository initial t (fs (.readFile .ready)) (Untouched t)
        (fun _ => Untouched t) (Thrown (Untouched t)) :=
      runs_other closed_untouched (by simp [Op.paths])
    apply Runs.bind (Runs.attempt hready)
    intro r
    cases r with
    | ok _ => exact Runs.ret fun tr h => h.accepts
    | error e =>
      by_cases he : e = .code "ENOENT"
      · simp only [he, ne_eq, not_true_eq_false, if_false]
        exact (runs_checkoutWithin hE).weaken fun _ h => h.2
      · simp only [ne_eq, he, not_false_eq_true, if_true]
        exact Runs.fail fun tr _ => hE _ tr
  intro _
  apply Runs.bind (hsettle _)
  exact fun _ => hsettle _

/-! ### All runs -/

theorem obeys_container {settings : Settings} {w : World sys}
    (hnew : ∀ e ∈ w.trace, e.author ≠ some t) :
    Safe (proto size checkRepository initial) t (container size checkRepository settings)
      (fun _ w' => Accepts t w'.trace) (fun _ _ => True) w := by
  -- entering: the process has done nothing yet and is alone from now on
  refine Safe.ext fun w1 hr hi1 c a ha => ?_
  have hnew1 : ∀ e ∈ w1.trace, e.author ≠ some t := by
    intro e he hauthor
    exact hnew e ((hr.1.mem_own hauthor).mp he) hauthor
  have huntouched : Untouched t w1.trace :=
    ⟨fun file hmem => hnew1 _ hmem rfl, fun instant hmem => hnew1 _ hmem rfl⟩
  change answer c t .enter w1 = some a at ha
  have hfree : w1.glob.owner = none ∧ a.notes = [] ∧
      a.glob = { w1.glob with owner := some t } := by
    cases howner : w1.glob.owner with
    | none =>
      simp only [answer, howner] at ha
      cases ha
      exact ⟨rfl, rfl, rfl⟩
    | some owner =>
      simp only [answer, howner] at ha
      by_cases hme : owner = t
      · rw [if_pos hme] at ha
        cases ha
      · rw [if_neg hme] at ha
        cases ha
  obtain ⟨hfree, hnotes, hglob⟩ := hfree
  have htrace : ((w1.answered t a).spawnAll t.proc a.forks).trace = w1.trace := by
    rw [World.spawnAll_trace, World.answered_trace, hnotes]
    rfl
  have hglob' : ((w1.answered t a).spawnAll t.proc a.forks).glob =
      { w1.glob with owner := some t } := by
    rw [World.spawnAll_glob, World.answered_glob, hglob]
  have hinv : Inv ((w1.answered t a).spawnAll t.proc a.forks) := by
    refine ⟨?_, ?_, ?_, ?_⟩
    · rw [htrace]
      exact hi1.legal
    · rw [htrace, hglob']
      exact hi1.clock
    · rw [hglob']
      exact hi1.positive
    · rw [hglob']
      exact hi1.bounded
  refine ⟨⟨hinv, fun u _ _ hu => ?_, fun _ _ _ _ => trivial⟩, ?_⟩
  · rw [hfree] at hu
    cases hu
  have hinit : Runs size checkRepository initial t
      (initializeInternal size checkRepository settings) (Untouched t) (fun _ => Accepts t)
      fun _ _ => True := runs_initializeInternal fun _ _ => trivial
  have hrun := Runs.attempt (D := fun _ _ => True) hinit
  change Safe _ t ((initializeInternal size checkRepository settings).attempt >>= _) _ _ _
  apply Safe.bind
  refine Safe.mono (hrun _ hinv (by rw [hglob']) (by rw [htrace]; exact huntouched)) ?_
    fun _ _ _ => trivial
  rintro r w2 ⟨ho2, hr2⟩ hi2
  -- leaving: nothing is written any more
  refine Safe.ext fun w3 hr3 hi3 c a ha => ?_
  obtain ⟨ho3, htr3⟩ := hr3.2 ho2
  change answer c t .exit w3 = some a at ha
  rw [answer_owner ho3] at ha
  cases ha
  refine ⟨⟨⟨hi3.legal, hi3.clock, hi3.positive, hi3.bounded⟩, ?_, fun _ _ _ _ => trivial⟩, ?_⟩
  · intro u hut _ hu
    rw [ho3] at hu
    exact absurd (Option.some.inj hu).symm hut
  cases r with
  | error e => exact Safe.fail fun _ _ _ => trivial
  | ok _ =>
    refine Safe.ret fun w4 hr4 _ => ?_
    have hlater : w3.trace <:+ w4.trace := hr4.1.later.suffix
    intro file hmem
    have hold := (hr4.1.mem_own (e := .note (some t) (.opened file)) rfl).mp hmem
    rw [← htr3] at hr2
    obtain ⟨instant, hinstant, hwell⟩ := hr2 file hold
    obtain ⟨new, hnew⟩ := hlater
    refine ⟨instant, ?_, hwell⟩
    rw [← hnew]
    clear * - hinstant
    induction new with
    | nil => exact hinstant
    | cons e new ih => exact clocks_subset e _ instant ih

theorem inv_init : Inv (machine size checkRepository initial).init := by
  have hbound : 1 ≤ MAX_TIME := by decide
  refine ⟨?_, ?_, Nat.one_pos, hbound⟩
  · obtain ⟨receipt, ready⟩ := initial
    have hready : Legal ((if ready then [Effect.put Path.ready ({} : StoredFile)] else []).map
        fun effect => (.note none (.file effect) : Entry sys.Key sys.Val sys.Note)) := by
      cases ready with
      | false => trivial
      | true => exact ⟨trivial, .plain (by simp [Plain, Effect.touches])⟩
    cases receipt with
    | none => exact hready
    | some file =>
      refine ⟨hready, .initial ?_ ?_ ?_⟩ <;> cases ready <;> rfl
  · obtain ⟨receipt, ready⟩ := initial
    intro n hn
    exfalso
    cases receipt <;> cases ready <;> cases hn

theorem sound : (proto size checkRepository initial).Sound where
  init := inv_init
  start := fun hi _ => ⟨⟨hi.legal, hi.clock, hi.positive, hi.bounded⟩,
    fun _ _ ho => ⟨ho, rfl⟩, trivial⟩
  crash := by
    intro w p hi
    refine ⟨⟨hi.legal, hi.clock, hi.positive, hi.bounded⟩, fun u hu ho => ⟨?_, rfl⟩⟩
    change Option.filter _ w.glob.owner = some u
    rw [ho]
    simp [Option.filter, hu]
  env := by
    intro w e new g hi he
    change (if _ then _ else none) = _ at he
    by_cases hms : w.glob.clock + e ≤ MAX_TIME
    · rw [if_pos hms] at he
      cases he
      refine ⟨⟨hi.legal, fun n hn => ?_, ?_, hms⟩, fun _ ho => ⟨ho, rfl⟩⟩
      · exact Nat.le_trans (hi.clock n hn) (Nat.le_add_right _ _)
      · exact Nat.lt_of_lt_of_le hi.positive (Nat.le_add_right _ _)
    · rw [if_neg hms] at he
      cases he
  body := by
    intro w t call _ _ _ _ hnew
    cases call with
    | container settings => exact obeys_container hnew

/-- **The fetch budget holds across crashes.**  At most three fetches are launched; each
    of them before the deadline of every receipt the volume ever held, and none once one
    of these latched a failure.  The second attempt is reserved one second after the
    first and the third two seconds after the second, less the millisecond that a timer
    may end early.  A process that opened a
    receipt of another than the exact shape launches nothing and does not return. -/
theorem fetch_budget {c : (machine size checkRepository initial).Config}
    (h : (machine size checkRepository initial).Reachable c) :
    (launches c.world.trace).length ≤ 3 ∧
      (∀ instant ∈ launches c.world.trace, (∃ state, recorded c.world.trace = some state) ∧
        ∀ older state, older <:+ c.world.trace → recorded older = some state →
          instant < state.startedAt + 150000) ∧
      (∀ older state, older <:+ c.world.trace → recorded older = some state →
        state.failure.isSome → launches c.world.trace = launches older) ∧
      (∀ first second, (1, first) ∈ reservations c.world.trace →
        (2, second) ∈ reservations c.world.trace → first + 999 ≤ second) ∧
      (∀ second third, (2, second) ∈ reservations c.world.trace →
        (3, third) ∈ reservations c.world.trace → second + 1999 ≤ third) ∧
      (∀ t file, .note (some t) (.opened file) ∈ c.world.trace →
        ¬ WellFormed file c.world.glob.clock →
          (∀ instant, .note (some t) (.launched instant) ∉ c.world.trace) ∧
            ∀ th, c.threads t = some th → th.prog ≠ .ret ()) := by
  have hholds := sound.reachable h
  have hinv : Inv c.world := hholds.inv
  have hfacts := Legal.facts hinv.legal
  -- an accepted receipt is still of the exact shape
  have haccepted : ∀ file, Accepted file c.world.trace → WellFormed file c.world.glob.clock := by
    rintro file ⟨instant, hinstant, hprivate, hbytes, v, startedAt, hvalue, hshape, hle⟩
    exact ⟨hprivate, hbytes, v, startedAt, hvalue, hshape,
      Nat.le_trans hle (hinv.clock instant hinstant)⟩
  refine ⟨?_, ?_, ?_, ?_, ?_, ?_⟩
  · cases hrec : recorded c.world.trace with
    | none =>
      rw [(hfacts.idle hrec).1]
      exact Nat.zero_le _
    | some state =>
      have hsound := hfacts.sound state hrec
      exact Nat.le_trans hsound.launched hsound.range.attempts
  · intro instant hmem
    cases hrec : recorded c.world.trace with
    | none =>
      rw [(hfacts.idle hrec).1] at hmem
      cases hmem
    | some state =>
      refine ⟨⟨state, rfl⟩, ?_⟩
      rintro older old ⟨newer, hnewer⟩ hold
      have hlegal : Legal (newer ++ older) := by
        rw [hnewer]
        exact hinv.legal
      obtain ⟨state', hrec', hstart, -⟩ := Legal.recorded_mono hlegal hold
      rw [hnewer, hrec] at hrec'
      cases hrec'
      have hsound := hfacts.sound state hrec
      have hbefore := hsound.before instant hmem
      rw [hsound.range.deadline, hstart] at hbefore
      exact hbefore
  · rintro older old ⟨newer, hnewer⟩ hold hfailure
    rw [← hnewer]
    apply Legal.latched _ hold hfailure
    rw [hnewer]
    exact hinv.legal
  · intro first second h1 h2
    have hspaced : first + 1000 ≤ second + 1 := hfacts.spaced 1 first second h1 h2
    omega
  · intro second third h2 h3
    have hspaced : second + 2000 ≤ third + 1 := hfacts.spaced 2 second third h2 h3
    omega
  · intro t file hmem hnot
    refine ⟨fun instant hlaunch => ?_, fun th hth hp => ?_⟩
    · exact hnot (haccepted file (Legal.accepted hinv.legal hlaunch hmem))
    · have haccepts : Accepts t c.world.trace := hholds.returned hth hp
      exact hnot (haccepted file (haccepts file hmem))

/-! ### Runs -/

section Demo

@[reducible] def demo (initial : Initial) : Machine sys :=
  machine (fun _ => 100) (fun _ => some true) initial

def demoSettings : Settings := { repository := some "https://git.example/demo.git" }

/-- The `t`-th process answers `n` requests; Git prints the URL of the repository. -/
def demoSteps (initial : Initial) (t n : Nat) : List (demo initial).Move :=
  List.replicate n (.run ⟨t, t⟩ (.ext
    { uuid := t, result := ⟨some 0, "https://git.example/demo.git", "", none⟩ }))

/-- The first process is killed while it fetches; the second goes on a second later. -/
def demoRun : List (demo {}).Move :=
  [.start 0 (.container demoSettings)] ++ demoSteps {} 0 43 ++
  [.crash 0, .env (1000 : Nat), .start 1 (.container demoSettings)] ++ demoSteps {} 1 42

theorem fetch_budget_demo : ∃ c, (demo {}).Reachable c ∧
    reservations c.world.trace = [(2, 1001), (1, 1)] ∧ launches c.world.trace = [1001, 1] ∧
    (launches c.world.trace).length ≤ 3 ∧
    ∀ first second, (1, first) ∈ reservations c.world.trace →
      (2, second) ∈ reservations c.world.trace → first + 999 ≤ second := by
  have hrun : ((demo {}).initial.moves demoRun).map (fun c =>
      (reservations c.world.trace, launches c.world.trace)) =
        some ([(2, 1001), (1, 1)], [1001, 1]) := by rfl
  obtain ⟨c, hc, hpair⟩ := Option.map_eq_some_iff.mp hrun
  simp only [Prod.mk.injEq] at hpair
  obtain ⟨hreservations, hlaunches⟩ := hpair
  have hbudget := fetch_budget (Machine.Reachable.init.moves hc)
  exact ⟨c, Machine.Reachable.init.moves hc, hreservations, hlaunches, hbudget.1,
    hbudget.2.2.2.1⟩

/-- The first process is killed once it has read the clock; the second starts late. -/
def lateRun : List (demo {}).Move :=
  [.start 0 (.container demoSettings)] ++ demoSteps {} 0 9 ++
  [.crash 0, .env (200000 : Nat), .start 1 (.container demoSettings)] ++ demoSteps {} 1 42

/-- The second process waits for the last millisecond of the pause, by a timer that ends
    early. -/
def earlyRun : List (demo {}).Move :=
  [.start 0 (.container demoSettings)] ++ demoSteps {} 0 43 ++
  [.crash 0, .env (999 : Nat), .start 1 (.container demoSettings)] ++ demoSteps {} 1 43

def hasReturned : sys.Task Unit → Bool
  | .ret _ => true
  | _ => false

theorem prog_of_hasReturned {p : sys.Task Unit} (h : hasReturned p = true) : p = .ret () := by
  cases p with
  | ret a => rfl
  | fail e => cases h
  | call q k => cases h

/-- A volume with a ready marker and a receipt that is not one. -/
def readyVolume : Initial := { receipt := some { bytes := 5, value := none }, ready := true }

/-- The deadline counts from the first receipt that was saved, not from the first start; a
    timer that ends early brings an attempt forward; and a workspace that is ready is
    initialized whatever its receipt is. -/
theorem receipt_not_consulted :
    (∃ c, (demo {}).Reachable c ∧ (clocks c.world.trace).getLast? = some 1 ∧
      launches c.world.trace = [200001] ∧ 1 + 150000 ≤ 200001) ∧
    (∃ c, (demo {}).Reachable c ∧ reservations c.world.trace = [(2, 1000), (1, 1)] ∧
      ¬ 1 + 1000 ≤ 1000) ∧
    ∃ c file th, (demo readyVolume).Reachable c ∧
      read .receipt (files c.world.trace) = some file ∧ ¬ WellFormed file c.world.glob.clock ∧
      c.threads ⟨0, 0⟩ = some th ∧ th.prog = .ret () := by
  refine ⟨?_, ?_, ?_⟩
  · have hrun : ((demo {}).initial.moves lateRun).map (fun c =>
        ((clocks c.world.trace).getLast?, launches c.world.trace)) =
          some (some 1, [200001]) := by rfl
    obtain ⟨c, hc, hpair⟩ := Option.map_eq_some_iff.mp hrun
    simp only [Prod.mk.injEq] at hpair
    exact ⟨c, Machine.Reachable.init.moves hc, hpair.1, hpair.2, by decide⟩
  · have hrun : ((demo {}).initial.moves earlyRun).map (fun c => reservations c.world.trace) =
        some [(2, 1000), (1, 1)] := by rfl
    obtain ⟨c, hc, hreserved⟩ := Option.map_eq_some_iff.mp hrun
    exact ⟨c, Machine.Reachable.init.moves hc, hreserved, by decide⟩
  · have hrun : ((demo readyVolume).initial.moves
        ([.start 0 (.container demoSettings)] ++ demoSteps readyVolume 0 8)).map (fun c =>
          ((read .receipt (files c.world.trace)).map fun file => file.value.isNone,
            (c.threads ⟨0, 0⟩).map fun th => hasReturned th.prog)) =
              some (some true, some true) := by rfl
    obtain ⟨c, hc, hpair⟩ := Option.map_eq_some_iff.mp hrun
    simp only [Prod.mk.injEq, Option.map_eq_some_iff] at hpair
    obtain ⟨⟨file, hfile, hvalue⟩, th, hth, hprog⟩ := hpair
    refine ⟨c, file, th, Machine.Reachable.init.moves hc, hfile, ?_, hth, ?_⟩
    · rintro ⟨-, -, v, -, hv, -⟩
      simp [hv] at hvalue
    · exact prog_of_hasReturned hprog

end Demo

end PaseoGateway.Checkout

/-
  PaseoGateway/LegalHistory.lean
  ==============================
  **Invariants that are a law about single entries.**

  Many invariants of a system of processes say only which entries may be added to
  which history: every entry was legal when it was written.  A `Law` is that relation,
  together with what was known of the calls; it may not depend on a call being absent,
  so starting one never makes an old entry illegal.

  `Law.sound` reduces the whole machine to one obligation per entry: a thread shows
  for each of its writes that it is a step of the law, in the rules below.
-/
import PaseoGateway.RelyGuarantee

namespace PaseoGateway.Async

/-- The calls started so far. -/
abbrev Calls (S : Sys) := Tid → Option (Started S)

/-- Every call of the first is a call of the second. -/
def Calls.Le {S : Sys} (calls calls' : Calls S) : Prop :=
  ∀ t s, calls t = some s → calls' t = some s

structure Law (S : Sys) where
  step : Calls S → Trace S.Key S.Val S.Note → Entry S.Key S.Val S.Note → Prop
  mono : ∀ {calls calls' : Calls S} {older e}, calls.Le calls' → step calls older e →
    step calls' older e

namespace Law

variable {S : Sys} (L : Law S)

/-- Every entry was a step of the law when it was written. -/
def Legal (calls : Calls S) : Trace S.Key S.Val S.Note → Prop
  | [] => True
  | e :: older => Legal calls older ∧ L.step calls older e

variable {L} {calls calls' : Calls S} {w w' : World S} {m : Machine S} {t : Tid}

theorem Legal.mono (hle : calls.Le calls') {tr : Trace S.Key S.Val S.Note}
    (h : L.Legal calls tr) : L.Legal calls' tr := by
  induction tr with
  | nil => trivial
  | cons e older ih => exact ⟨ih h.1, L.mono hle h.2⟩

theorem Legal.split {newer older : Trace S.Key S.Val S.Note} {e : Entry S.Key S.Val S.Note}
    (h : L.Legal calls (newer ++ e :: older)) : L.Legal calls older ∧ L.step calls older e := by
  induction newer with
  | nil => exact h
  | cons e' newer ih => exact ih h.1

/-- What is known of a legal history. -/
structure Inv (L : Law S) (w : World S) : Prop where
  numbered : w.Numbered
  legal : L.Legal w.calls w.trace

theorem le_of_later (hnum : w.Numbered) (h : Later w w') :
    Calls.Le w.calls w'.calls := by
  intro t s hs
  have hlt : t.idx < w.next := by
    by_contra hge
    rw [hnum t (by omega)] at hs
    cases hs
  rw [h.calls t hlt]
  exact hs

theorem Inv.push (h : L.Inv w) {e : Entry S.Key S.Val S.Note} (he : L.step w.calls w.trace e) :
    L.Inv (w.push e) := ⟨h.numbered, h.legal, he⟩

/-- The protocol that keeps the law. -/
def protocol (L : Law S) (m : Machine S) : Protocol m where
  inv := L.Inv

theorem keeps_push (h : L.Inv w) {e : Entry S.Key S.Val S.Note} (he : L.step w.calls w.trace e) :
    (L.protocol m).Keeps t w (w.push e) := ⟨h.push he, fun _ _ _ => trivial⟩

/-- Thread `t` may run `p`, and ends in `Q` or throws. -/
abbrev Obeys (L : Law S) (m : Machine S) (t : Tid) {α : Type} (p : S.Task α)
    (Q : α → World S → Prop) (w : World S) : Prop :=
  Safe (L.protocol m) t p Q (fun _ _ => True) w

/-- The world after an answer has grown out of the one before. -/
theorem later_answered (w : World S) (t : Tid) {x : S.Ext} (a : Answer S x) :
    Later w ((w.answered t a).spawnAll t.proc a.forks) := by
  refine ⟨⟨a.notes.map (.note (some t)), ?_⟩, ?_, ?_⟩
  · rw [World.spawnAll_trace, World.answered_trace]
  · exact World.le_spawnAll_next (w.answered t a) t.proc a.forks
  · intro u hu
    rw [World.spawnAll_calls_of_lt (by simpa using hu), World.answered_calls]

section Rules

variable {α β : Type} {Q : α → World S → Prop}

theorem Obeys.seq {p : S.Task α} {f : α → S.Task β} {Q' : β → World S → Prop}
    (h : L.Obeys m t p Q w)
    (hf : ∀ a w', Later w w' → L.Inv w' → Q a w' → L.Obeys m t (f a) Q' w') :
    L.Obeys m t (p >>= f) Q' w :=
  Safe.seq h hf fun _ _ _ _ => trivial

theorem Obeys.fail {e : S.Err} : L.Obeys m t (.fail e : S.Task α) Q w :=
  Safe.fail fun _ _ _ => trivial

/-- A request outside the store: its notes are steps of the law. -/
theorem safe_ext {E : S.Err → World S → Prop} {x : S.Ext} {k : S.ExtRes x → S.Task α}
    (h : ∀ w' c a, Grows t w w' → L.Inv w' → m.answer c t x w' = some a →
      L.Legal w'.calls (a.notes.map (.note (some t)) ++ w'.trace) ∧
        Safe (L.protocol m) t (k a.res) Q E ((w'.answered t a).spawnAll t.proc a.forks)) :
    Safe (L.protocol m) t (.call (.ext x) k) Q E w := by
  refine Safe.ext fun w' hr hi c a ha => ?_
  obtain ⟨hlegal, hk⟩ := h w' c a hr.1 hi ha
  refine ⟨⟨⟨?_, ?_⟩, fun _ _ _ => trivial, fun _ _ _ _ => trivial⟩, hk⟩
  · exact World.Numbered.spawnAll (w := w'.answered t a) hi.numbered t.proc a.forks
  · rw [World.spawnAll_trace, World.answered_trace]
    apply hlegal.mono
    intro u s hs
    have hlt : u.idx < (w'.answered t a).next := by
      by_contra hge
      rw [hi.numbered u (by simpa using hge)] at hs
      cases hs
    rw [World.spawnAll_calls_of_lt hlt, World.answered_calls]
    exact hs

theorem Obeys.ext {x : S.Ext} {k : S.ExtRes x → S.Task α}
    (h : ∀ w' c a, Grows t w w' → L.Inv w' → m.answer c t x w' = some a →
      L.Legal w'.calls (a.notes.map (.note (some t)) ++ w'.trace) ∧
        L.Obeys m t (k a.res) Q ((w'.answered t a).spawnAll t.proc a.forks)) :
    L.Obeys m t (.call (.ext x) k) Q w := safe_ext h

end Rules

/-- The law holds in every run when it holds at first, the environment keeps it, and
    every call obeys it. -/
theorem sound {L : Law S} {m : Machine S} (hinit : L.Legal (fun _ => none) m.init.trace)
    (henv : ∀ {w e new g}, L.Inv w → m.env e w = some (new, g) →
      L.Legal w.calls (new ++ w.trace))
    (hbody : ∀ {w t c}, L.Inv w → w.calls t = some ⟨c, w.trace.length⟩ → t.idx < w.next →
      (∀ e ∈ w.trace, e.author ≠ some t) →
      L.Obeys m t (m.program t c) (fun _ _ => True) w) : (L.protocol m).Sound where
  init := by
    refine ⟨fun u _ => m.init_calls u, ?_⟩
    apply hinit.mono
    intro t s hs
    cases hs
  start := by
    intro w p c hi _
    refine ⟨⟨hi.numbered.spawn p c, ?_⟩, fun _ _ => trivial, trivial⟩
    apply hi.legal.mono
    intro u s hs
    have hlt : u.idx < w.next := by
      by_contra hge
      rw [hi.numbered u (by omega)] at hs
      cases hs
    rw [World.spawn_calls_of_lt hlt]
    exact hs
  crash := fun _ hi => ⟨⟨hi.numbered, hi.legal⟩, fun _ _ => trivial⟩
  env := fun hi he => ⟨⟨hi.numbered, henv hi he⟩, fun _ => trivial⟩
  body := fun hi _ hcall hlt hnew => hbody hi hcall hlt hnew

theorem reachable (hs : (L.protocol m).Sound) {c : m.Config} (h : m.Reachable c) :
    L.Legal c.world.calls c.world.trace :=
  have hinv : L.Inv c.world := (hs.reachable h).inv
  hinv.legal

/-- The protocol that keeps the law and promises `post` of every call that returns. -/
def promising (L : Law S) (m : Machine S)
    (post : Tid → S.Call → World S → m.Out → World S → Prop) : Protocol m where
  inv := L.Inv
  post := post

theorem Obeys.promising {post : Tid → S.Call → World S → m.Out → World S → Prop}
    {α : Type} {p : S.Task α} {Q : α → World S → Prop} (h : L.Obeys m t p Q w) :
    Safe (L.promising m post) t p Q (fun _ _ => True) w := by
  induction p generalizing w with
  | ret a => exact fun w' hr hi => h w' hr hi
  | fail e => exact fun _ _ _ => trivial
  | call q k ih =>
    intro w' hr hi pick r w'' hp
    obtain ⟨hpays, hk⟩ := h w' hr hi pick r w'' hp
    exact ⟨⟨hpays.inv, hpays.extra, hpays.pre⟩, ih r hk⟩

/-- What every call that returns has ended in. -/
theorem returned {L : Law S} {m : Machine S}
    {P : Tid → S.Call → World S → m.Out → World S → Prop}
    (hinit : L.Legal (fun _ => none) m.init.trace)
    (henv : ∀ {w e new g}, L.Inv w → m.env e w = some (new, g) →
      L.Legal w.calls (new ++ w.trace))
    (hbody : ∀ {w t c}, L.Inv w → w.calls t = some ⟨c, w.trace.length⟩ → t.idx < w.next →
      (∀ e ∈ w.trace, e.author ≠ some t) → L.Obeys m t (m.program t c) (P t c w) w)
    {c : m.Config} (h : m.Reachable c) {t : Tid} {th : m.Thread} {a : m.Out}
    (ht : c.threads t = some th) (hp : th.prog = .ret a) : P t th.call th.start a c.world := by
  have hlaw : (L.protocol m).Sound := sound hinit henv fun hi hcall hlt hnew =>
    Safe.mono (hbody hi hcall hlt hnew) (fun _ _ _ => trivial) fun _ _ _ => trivial
  have hs : (L.promising m P).Sound := by
    refine ⟨hlaw.init, ?_, ?_, ?_, ?_⟩
    · exact fun hi he => hlaw.start hi he
    · exact fun p hi => hlaw.crash p hi
    · exact fun hi he => hlaw.env hi he
    · exact fun hi _ hcall hlt hnew => (hbody hi hcall hlt hnew).promising
  exact (hs.reachable h).returned ht hp

end Law

/-! ### The notes of one thread -/

section Notes

variable {S : Sys} {t : Tid} {w w' : World S}

/-- What the thread noted, newest first. -/
def notesOf (t : Tid) : Trace S.Key S.Val S.Note → List S.Note
  | [] => []
  | .note a n :: older => if a = some t then n :: notesOf t older else notesOf t older
  | .create _ _ _ :: older => notesOf t older
  | .update _ _ _ :: older => notesOf t older
  | .delete _ _ :: older => notesOf t older

theorem notesOf_append (newer older : Trace S.Key S.Val S.Note) :
    notesOf t (newer ++ older) = notesOf t newer ++ notesOf t older := by
  induction newer with
  | nil => rfl
  | cons e newer ih =>
    cases e with
    | create a k v => simpa [notesOf] using ih
    | update a k v => simpa [notesOf] using ih
    | delete a k => simpa [notesOf] using ih
    | note a n => by_cases ha : a = some t <;> simp [notesOf, ha, ih]

@[simp] theorem notesOf_own (notes : List S.Note) (older : Trace S.Key S.Val S.Note) :
    notesOf t (notes.map (.note (some t)) ++ older) = notes ++ notesOf t older := by
  rw [notesOf_append]
  congr 1
  induction notes with
  | nil => rfl
  | cons n notes ih => simp [notesOf, ih]

/-- A thread noted what stands in the history under its name. -/
theorem mem_notesOf {n : S.Note} {tr : Trace S.Key S.Val S.Note} :
    n ∈ notesOf t tr ↔ .note (some t) n ∈ tr := by
  induction tr with
  | nil => simp [notesOf]
  | cons e older ih =>
    cases e with
    | create a k v => simp [notesOf, ih]
    | update a k v => simp [notesOf, ih]
    | delete a k => simp [notesOf, ih]
    | note a m => by_cases ha : a = some t <;> simp [notesOf, ha, ih, eq_comm]

/-- A thread that has written nothing has noted nothing. -/
theorem notesOf_nil {tr : Trace S.Key S.Val S.Note} (h : ∀ e ∈ tr, e.author ≠ some t) :
    notesOf t tr = [] := by
  rw [List.eq_nil_iff_forall_not_mem]
  intro n hn
  exact h _ (mem_notesOf.mp hn) rfl

/-- The others add nothing to the notes of a thread. -/
theorem Grows.notesOf_eq (h : Grows t w w') : notesOf t w'.trace = notesOf t w.trace := by
  obtain ⟨new, htr, hnew⟩ := h.trace
  rw [htr, notesOf_append, notesOf_nil hnew, List.nil_append]

/-- Nothing was noted in between where nothing was noted in all. -/
theorem notesOf_between {older middle newer : Trace S.Key S.Val S.Note} (hfrom : older <:+ middle)
    (hto : middle <:+ newer) (h : notesOf t newer = notesOf t older) :
    notesOf t newer = notesOf t middle := by
  obtain ⟨front, rfl⟩ := hfrom
  obtain ⟨last, rfl⟩ := hto
  rw [notesOf_append, notesOf_append] at h
  have hlength := congrArg List.length h
  simp only [List.length_append] at hlength
  have hlast : notesOf t last = [] := List.eq_nil_of_length_eq_zero (by omega)
  rw [notesOf_append, hlast, List.nil_append]

end Notes

end PaseoGateway.Async

/-
  PaseoGateway/LegalCalls.lean
  ============================
  **A law with more known of the world.**

  A law (`LegalHistory.lean`) sees the history and the calls.  Where a thread also needs a
  fact about the rest of the world, or a call that a request starts is owed something by
  the thread that starts it, the invariant is the law together with `known`, and `pre` is
  what a starting call may assume.
-/
import PaseoGateway.AsyncRuns
import PaseoGateway.LegalHistory

namespace PaseoGateway.Async

open Prog

/-! ### What one entry stores -/

section Puts

variable {κ : Type} [DecidableEq κ] {ν : κ → Type} {η : Type}

theorem Entry.puts_create {a : Option Tid} {k k' : κ} {v : ν k} {v' : ν k'}
    (h : (create a k v : Entry κ ν η).puts k' = some v') :
    (⟨k, v⟩ : (k : κ) × ν k) = ⟨k', v'⟩ := by
  obtain rfl := Option.some.inj (key_of_puts h)
  rw [puts_create_self] at h
  rw [Option.some.inj h]

theorem Entry.puts_update {a : Option Tid} {k k' : κ} {v : ν k} {v' : ν k'}
    (h : (update a k v : Entry κ ν η).puts k' = some v') :
    (⟨k, v⟩ : (k : κ) × ν k) = ⟨k', v'⟩ := by
  obtain rfl := Option.some.inj (key_of_puts h)
  rw [puts_update_self] at h
  rw [Option.some.inj h]

end Puts

/-! ### How often a record is created -/

section Counts

variable {κ : Type} [DecidableEq κ] {ν : κ → Type} {η : Type} {k : κ} {tr : Trace κ ν η}

/-- The entry creates the record of `k`. -/
def Entry.creates (k : κ) : Entry κ ν η → Bool
  | .create _ k' _ => k' = k
  | _ => false

/-- The entry deletes the record of `k`. -/
def Entry.deletes (k : κ) : Entry κ ν η → Bool
  | .delete _ k' => k' = k
  | _ => false

/-- A record that is created only where there is none was deleted before each further creation. -/
theorem countP_creates (h : ∀ (newer older : Trace κ ν η) (a : Option Tid) (v : ν k),
      tr = newer ++ .create a k v :: older → lookup k older = none) :
    tr.countP (Entry.creates k) ≤
      tr.countP (Entry.deletes k) + if (lookup k tr).isSome then 1 else 0 := by
  induction tr with
  | nil => simp
  | cons e older ih =>
    have hold := ih fun newer older' a v htr => h (e :: newer) older' a v (by rw [htr]; rfl)
    rw [List.countP_cons, List.countP_cons]
    by_cases hkey : e.key? = some k
    · rcases e with ⟨a, k', v⟩ | ⟨a, k', v⟩ | ⟨a, k'⟩ | ⟨a, n⟩
      · cases hkey
        rw [h [] older a v rfl] at hold
        simpa [Entry.creates, Entry.deletes] using hold
      · cases hkey
        simp only [Entry.creates, Entry.deletes, lookup_update_self]
        split at hold <;> simp <;> omega
      · cases hkey
        simp only [Entry.creates, Entry.deletes, lookup_delete_self]
        split at hold <;> simp <;> omega
      · cases hkey
    · rw [lookup_cons_of_ne hkey]
      rcases e with ⟨a, k', v⟩ | ⟨a, k', v⟩ | ⟨a, k'⟩ | ⟨a, n⟩
      · have hne : k' ≠ k := fun heq => hkey (congrArg some heq)
        simpa [Entry.creates, Entry.deletes, hne] using hold
      · simpa [Entry.creates, Entry.deletes] using hold
      · have hne : k' ≠ k := fun heq => hkey (congrArg some heq)
        simpa [Entry.creates, Entry.deletes, hne] using hold
      · simpa [Entry.creates, Entry.deletes] using hold

/-- A stored version goes back to a creation, where a write needs a current value. -/
theorem creates_of_stored (h : ∀ (newer older : Trace κ ν η) (a : Option Tid) (v : ν k),
      tr = newer ++ .update a k v :: older → (lookup k older).isSome = true) {n : Nat} {v : ν k}
    (hs : Stored tr n k v) :
    0 < tr.countP (Entry.creates k) := by
  induction tr generalizing n v with
  | nil =>
    obtain ⟨newer, e, older, htr, -, -⟩ := hs
    cases newer <;> cases htr
  | cons e older ih =>
    have hmore {m : Nat} {old : ν k} (hold : Stored older m k old) :
        0 < (e :: older).countP (Entry.creates k) := by
      have hpos := ih (fun newer older' a v htr => h (e :: newer) older' a v (by rw [htr]; rfl))
        hold
      rw [List.countP_cons]
      omega
    rcases hs.cons_cases with ⟨hputs, -⟩ | hs
    · have hkey := Entry.key_of_puts hputs
      rcases e with ⟨a, k', v'⟩ | ⟨a, k', v'⟩ | ⟨a, k'⟩ | ⟨a, n'⟩
      · cases hkey
        simp [Entry.creates]
      · cases hkey
        obtain ⟨⟨m, old⟩, hold⟩ := Option.isSome_iff_exists.mp (h [] older a v' rfl)
        exact hmore (lookup_stored hold)
      · cases hputs
      · cases hputs
    · exact hmore hs

/-- The current version of a key that an entry is about is not older than the entry. -/
theorem length_le_version {newer older : Trace κ ν η} {e : Entry κ ν η} (he : e.key? = some k)
    {n : Nat} {v : ν k} (h : lookup k (newer ++ e :: older) = some (n, v)) : older.length ≤ n := by
  induction newer with
  | nil =>
    obtain ⟨_, -, heq⟩ := Option.map_eq_some_iff.mp ((if_pos he).symm.trans h)
    cases heq
    exact Nat.le_refl _
  | cons e' newer ih =>
    by_cases hkey : e'.key? = some k
    · obtain ⟨_, -, heq⟩ := Option.map_eq_some_iff.mp ((if_pos hkey).symm.trans h)
      cases heq
      simp only [List.append_eq, List.length_append, List.length_cons]
      omega
    · exact ih ((lookup_cons_of_ne hkey).symm.trans h)

end Counts

/-! ### The protocol -/

variable {S : Sys} {L : Law S} {m : Machine S} {known : World S → Prop}
  {pre : Tid → S.Call → World S → Prop} {t : Tid} {w w' : World S}

namespace Law

/-- The protocol that keeps the law and `known`, and owes a call that starts `pre`. -/
def within (L : Law S) (m : Machine S) (known : World S → Prop)
    (pre : Tid → S.Call → World S → Prop) : Protocol m where
  inv := fun w => L.Inv w ∧ known w
  pre := pre

/-- Thread `t` may run `p` under the law, and ends in `Q` or throws. -/
abbrev Complies (L : Law S) (m : Machine S) (known : World S → Prop)
    (pre : Tid → S.Call → World S → Prop) (t : Tid) {α : Type} (p : S.Task α)
    (Q : α → World S → Prop) (w : World S) : Prop :=
  Safe (L.within m known pre) t p Q (fun _ _ => True) w

theorem within_push (h : (L.within m known pre).inv w) {e : Entry S.Key S.Val S.Note}
    (he : L.step w.calls w.trace e) (hknown : known (w.push e)) :
    (L.within m known pre).Keeps t w (w.push e) :=
  ⟨⟨h.1.push he, hknown⟩, fun _ _ _ => trivial⟩

namespace Complies

variable {α β : Type} {Q : α → World S → Prop}

theorem seq {p : S.Task α} {f : α → S.Task β} {Q' : β → World S → Prop}
    (h : L.Complies m known pre t p Q w)
    (hf : ∀ a w', Later w w' → (L.within m known pre).inv w' → Q a w' →
      L.Complies m known pre t (f a) Q' w') :
    L.Complies m known pre t (p >>= f) Q' w :=
  Safe.seq h hf fun _ _ _ _ => trivial

theorem fail {e : S.Err} : L.Complies m known pre t (.fail e : S.Task α) Q w :=
  Safe.fail fun _ _ _ => trivial

/-- A request outside the store: its notes are steps of the law, and the calls it starts get
    what they are owed. -/
theorem ext {x : S.Ext} {k : S.ExtRes x → S.Task α}
    (h : ∀ w' c a, Grows t w w' → (L.within m known pre).inv w' → m.answer c t x w' = some a →
      L.Legal w'.calls (a.notes.map (.note (some t)) ++ w'.trace) ∧
        known ((w'.answered t a).spawnAll t.proc a.forks) ∧
        (∀ u s, w'.calls u = none →
          ((w'.answered t a).spawnAll t.proc a.forks).calls u = some s →
          pre u s.call ((w'.answered t a).spawnAll t.proc a.forks)) ∧
        L.Complies m known pre t (k a.res) Q ((w'.answered t a).spawnAll t.proc a.forks)) :
    L.Complies m known pre t (.call (.ext x) k) Q w := by
  refine Safe.ext fun w' hr hi c a ha => ?_
  obtain ⟨hlegal, hknown, hpre, hk⟩ := h w' c a hr.1 hi ha
  refine ⟨⟨⟨⟨?_, ?_⟩, hknown⟩, fun _ _ _ => trivial, hpre⟩, hk⟩
  · exact World.Numbered.spawnAll (w := w'.answered t a) hi.1.numbered t.proc a.forks
  · rw [World.spawnAll_trace, World.answered_trace]
    apply hlegal.mono
    intro u s hs
    have hlt : u.idx < (w'.answered t a).next := by
      by_contra hge
      rw [hi.1.numbered u (by simpa using hge)] at hs
      cases hs
    rw [World.spawnAll_calls_of_lt hlt, World.answered_calls]
    exact hs

/-- A request that starts no call. -/
theorem ask {x : S.Ext} {k : S.ExtRes x → S.Task α}
    (h : ∀ w' c a, Grows t w w' → (L.within m known pre).inv w' → m.answer c t x w' = some a →
      a.forks = [] ∧ L.Legal w'.calls (a.notes.map (.note (some t)) ++ w'.trace) ∧
        known (w'.answered t a) ∧
        L.Complies m known pre t (k a.res) Q (w'.answered t a)) :
    L.Complies m known pre t (.call (.ext x) k) Q w := by
  refine ext fun w' c a hg hi ha => ?_
  obtain ⟨hforks, hlegal, hknown, hk⟩ := h w' c a hg hi ha
  rw [hforks]
  refine ⟨hlegal, hknown, fun u s hnone hs => ?_, hk⟩
  change (w'.answered t a).calls u = some s at hs
  rw [World.answered_calls, hnone] at hs
  cases hs

/-! ### Awaited store requests

What is known of the answer has to survive the others, who may run before it is used. -/

theorem ret {a : α} (h : ∀ w', Grows t w w' → (L.within m known pre).inv w' → Q a w') :
    L.Complies m known pre t (.ret a) Q w :=
  Safe.ret fun w' hr hi => h w' hr.1 hi

theorem get {key : S.Key} {Q : Option (Nat × S.Val key) → World S → Prop}
    (h : ∀ w', Grows t w w' → (L.within m known pre).inv w' →
      ∀ w'', Grows t w' w'' → (L.within m known pre).inv w'' → Q (lookup key w'.trace) w'') :
    L.Complies m known pre t (await (.get key)) Q w := by
  refine Safe.store fun w' hr hi c r tr hs => ?_
  obtain ⟨rfl, rfl | rfl⟩ := serve_get hs
  · exact ⟨Protocol.keeps_same hi, ret (h w' hr.1 hi)⟩
  · exact ⟨Protocol.keeps_same hi, fail⟩

theorem list {sel : S.Key → Bool} {Q : List (Row S.Key S.Val) → World S → Prop}
    (h : ∀ w' rows, Grows t w w' → (L.within m known pre).inv w' →
      rows.Perm (listing sel w'.trace) →
      ∀ w'', Grows t w' w'' → (L.within m known pre).inv w'' → Q rows w'') :
    L.Complies m known pre t (await (.list sel)) Q w := by
  refine Safe.store fun w' hr hi c r tr hs => ?_
  obtain ⟨rfl, ⟨rows, rfl, hperm⟩ | rfl⟩ := serve_list hs
  · exact ⟨Protocol.keeps_same hi, ret (h w' rows hr.1 hi hperm)⟩
  · exact ⟨Protocol.keeps_same hi, fail⟩

/-- The write is a step of the law wherever it takes effect. -/
theorem create {key : S.Key} {v : S.Val key} {Q : Nat → World S → Prop}
    (h : ∀ w', Grows t w w' → (L.within m known pre).inv w' → lookup key w'.trace = none →
      L.step w'.calls w'.trace (.create (some t) key v) ∧
        known (w'.push (.create (some t) key v)) ∧
        ∀ w'', Grows t (w'.push (.create (some t) key v)) w'' →
          (L.within m known pre).inv w'' → Q w'.trace.length w'') :
    L.Complies m known pre t (await (.create key v)) Q w := by
  refine Safe.create fun w' hr hi => ⟨fun hnone => ?_, fun p hp => fail, fail⟩
  obtain ⟨hstep, hknown, hQ⟩ := h w' hr.1 hi hnone
  exact ⟨within_push hi hstep hknown, ret hQ, fail⟩

theorem update {key : S.Key} {n : Nat} {v : S.Val key} {Q : Nat → World S → Prop}
    (h : ∀ w' old, Grows t w w' → (L.within m known pre).inv w' →
      lookup key w'.trace = some (n, old) →
      L.step w'.calls w'.trace (.update (some t) key v) ∧
        known (w'.push (.update (some t) key v)) ∧
        ∀ w'', Grows t (w'.push (.update (some t) key v)) w'' →
          (L.within m known pre).inv w'' → Q w'.trace.length w'') :
    L.Complies m known pre t (await (.update key n v)) Q w := by
  refine Safe.update fun w' hr hi => ⟨fun old hold => ?_, fun e => fail⟩
  obtain ⟨hstep, hknown, hQ⟩ := h w' old hr.1 hi hold
  exact ⟨within_push hi hstep hknown, ret hQ, fail⟩

theorem delete {key : S.Key} {n : Nat} {Q : Unit → World S → Prop}
    (h : ∀ w' old, Grows t w w' → (L.within m known pre).inv w' →
      lookup key w'.trace = some (n, old) →
      L.step w'.calls w'.trace (.delete (some t) key) ∧
        known (w'.push (.delete (some t) key)) ∧
        ∀ w'', Grows t (w'.push (.delete (some t) key)) w'' →
          (L.within m known pre).inv w'' → Q () w'') :
    L.Complies m known pre t (await (.delete key n)) Q w := by
  refine Safe.delete fun w' hr hi => ⟨fun old hold => ?_, fun e => fail⟩
  obtain ⟨hstep, hknown, hQ⟩ := h w' old hr.1 hi hold
  exact ⟨within_push hi hstep hknown, ret hQ, fail⟩

/-- What the program can throw is known of what it throws. -/
theorem throwing {thrown : S.Err → Prop} {p : S.Task α} (h : L.Complies m known pre t p Q w)
    (hp : p.Keeps (fun _ => True) thrown) :
    Safe (L.within m known pre) t p Q (fun e _ => thrown e) w := by
  induction p generalizing w with
  | ret a => exact h
  | fail e => exact fun _ _ _ => hp
  | call q k ih =>
    intro w' hr hi pick r w'' hperform
    obtain ⟨hpays, hk⟩ := h w' hr hi pick r w'' hperform
    exact ⟨hpays, ih r hk (hp.2 r)⟩

/-- What is thrown ends the program normally. -/
theorem attempt {thrown : S.Err → Prop} {p : S.Task α} {Q : Except S.Err α → World S → Prop}
    (h : L.Complies m known pre t p (fun a => Q (.ok a)) w)
    (hp : p.Keeps (fun _ => True) thrown)
    (herror : ∀ e w', Later w w' → thrown e → Q (.error e) w') :
    L.Complies m known pre t p.attempt Q w := by
  refine Safe.attempt (Safe.mono (Safe.later (h.throwing hp)) ?_ ?_)
  · exact fun _ _ hq => hq.2
  · exact fun e w' hl => herror e w' hl.1 hl.2

/-- Where nothing has to be known of what is thrown. -/
theorem attempt_any {p : S.Task α} {Q : Except S.Err α → World S → Prop}
    (h : L.Complies m known pre t p (fun a => Q (.ok a)) w)
    (herror : ∀ e w', Later w w' → Q (.error e) w') :
    L.Complies m known pre t p.attempt Q w := by
  refine Safe.attempt (Safe.mono (Safe.later h) ?_ ?_)
  · exact fun _ _ hq => hq.2
  · exact fun e w' hl => herror e w' hl.1

theorem andFinally {p : S.Task α} {last : S.Task Unit}
    (hp : L.Complies m known pre t p (fun _ _ => True) w)
    (hlast : ∀ w', Later w w' → L.Complies m known pre t last (fun _ _ => True) w') :
    L.Complies m known pre t (p.andFinally last) (fun _ _ => True) w := by
  refine seq (attempt_any (Q := fun _ _ => True) hp fun _ _ _ => trivial) fun result w1 hl _ _ => ?_
  refine seq (hlast w1 hl) fun _ w2 _ _ _ => ?_
  rcases result with e | a
  · exact fail
  · exact ret fun _ _ _ => trivial

end Complies

/-- The law holds in every run when it holds at first, the environment keeps it, and every call
    obeys it. -/
theorem within_sound {L : Law S} {m : Machine S} {known : World S → Prop}
    {pre : Tid → S.Call → World S → Prop} (hinit : L.Legal (fun _ => none) m.init.trace)
    (hknown : known m.init)
    (hstart : ∀ {w p c}, (L.within m known pre).inv w → m.entry p c w = true →
      known (w.spawn p c) ∧ pre ⟨p, w.next⟩ c (w.spawn p c))
    (hcrash : ∀ {w} p, known w → known (m.crashed p w))
    (henv : ∀ {w e new g}, (L.within m known pre).inv w → m.env e w = some (new, g) →
      L.Legal w.calls (new ++ w.trace) ∧ known { w with trace := new ++ w.trace, glob := g })
    (hbody : ∀ {w t c}, (L.within m known pre).inv w → pre t c w →
      w.calls t = some ⟨c, w.trace.length⟩ → t.idx < w.next →
      (∀ e ∈ w.trace, e.author ≠ some t) →
      L.Complies m known pre t (m.program t c) (fun _ _ => True) w) :
    (L.within m known pre).Sound where
  init := by
    refine ⟨⟨fun u _ => m.init_calls u, ?_⟩, hknown⟩
    apply hinit.mono
    intro t s hs
    cases hs
  start := by
    intro w p c hi hentry
    obtain ⟨hk, hpre⟩ := hstart hi hentry
    refine ⟨⟨⟨hi.1.numbered.spawn p c, ?_⟩, hk⟩, fun _ _ => trivial, hpre⟩
    apply hi.1.legal.mono
    intro u s hs
    have hlt : u.idx < w.next := by
      by_contra hge
      rw [hi.1.numbered u (by omega)] at hs
      cases hs
    rw [World.spawn_calls_of_lt hlt]
    exact hs
  crash := fun p hi => ⟨⟨⟨hi.1.numbered, hi.1.legal⟩, hcrash p hi.2⟩, fun _ _ => trivial⟩
  env := fun hi he => ⟨⟨⟨hi.1.numbered, (henv hi he).1⟩, (henv hi he).2⟩, fun _ => trivial⟩
  body := fun hi hpre hcall hlt hnew => hbody hi hpre hcall hlt hnew

theorem within_reachable (hs : (L.within m known pre).Sound) {c : m.Config}
    (h : m.Reachable c) : L.Legal c.world.calls c.world.trace :=
  have hinv : (L.within m known pre).inv c.world := (hs.reachable h).inv
  hinv.1.legal

end Law

end PaseoGateway.Async

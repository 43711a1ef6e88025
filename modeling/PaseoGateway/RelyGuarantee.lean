/-
  PaseoGateway/RelyGuarantee.lean
  ===============================
  **Rely/guarantee reasoning for asynchronous programs.**

  A `Protocol` for a machine names a global invariant, what a call may assume
  when it starts (`pre`), and what its result means (`post`, `err`).  Between two
  awaits of one thread the others may do anything that keeps the invariant and
  only grows the history (`Grows`); a protocol may promise more about process
  memory through `extra`.

  `Safe P t p Q E w` says that thread `t`, about to run `p` in the world `w`,
  keeps the invariant at every request it makes, whatever the others do in
  between, and ends in `Q` or `E`.  It is defined by recursion on the program,
  so a proof of `Safe` walks through the code request by request.

  `Sound.reachable` is the point of the module: when every call is safe, the
  invariant and every thread's assertion hold in every reachable configuration.
-/
import PaseoGateway.AsyncPool

namespace PaseoGateway.Async

variable {S : Sys}

/-! ### What the others may do -/

/-- The world as thread `t` finds it after others have run: the history grew by
    entries of other authors and no call was forgotten. -/
structure Grows (t : Tid) (w w' : World S) : Prop where
  trace : ∃ new, w'.trace = new ++ w.trace ∧ ∀ e ∈ new, e.author ≠ some t
  next : w.next ≤ w'.next
  calls : ∀ u : Tid, u.idx < w.next → w'.calls u = w.calls u

/-- The same including steps of the thread itself. -/
structure Later (w w' : World S) : Prop where
  trace : ∃ new, w'.trace = new ++ w.trace
  next : w.next ≤ w'.next
  calls : ∀ u : Tid, u.idx < w.next → w'.calls u = w.calls u

namespace Grows

variable {t : Tid} {w w' w'' : World S}

theorem refl (t : Tid) (w : World S) : Grows t w w :=
  ⟨⟨[], rfl, by simp⟩, Nat.le_refl _, fun _ _ => rfl⟩

theorem trans (h : Grows t w w') (h' : Grows t w' w'') : Grows t w w'' := by
  obtain ⟨new, htr, hnew⟩ := h.trace
  obtain ⟨new', htr', hnew'⟩ := h'.trace
  refine ⟨⟨new' ++ new, by rw [htr', htr, List.append_assoc], ?_⟩,
    Nat.le_trans h.next h'.next, ?_⟩
  · intro e he
    rcases List.mem_append.mp he with h1 | h1
    · exact hnew' e h1
    · exact hnew e h1
  · intro u hu
    rw [h'.calls u (Nat.lt_of_lt_of_le hu h.next), h.calls u hu]

theorem later (h : Grows t w w') : Later w w' := by
  obtain ⟨new, htr, _⟩ := h.trace
  exact ⟨⟨new, htr⟩, h.next, h.calls⟩

/-- The others never write in the name of `t`. -/
theorem mem_own (h : Grows t w w') {e : Entry S.Key S.Val S.Note} (he : e.author = some t) :
    e ∈ w'.trace ↔ e ∈ w.trace := by
  obtain ⟨new, htr, hnew⟩ := h.trace
  rw [htr, List.mem_append]
  constructor
  · rintro (h | h)
    · exact absurd he (hnew e h)
    · exact h
  · exact .inr

end Grows

namespace Later

variable {w w' w'' : World S}

theorem refl (w : World S) : Later w w := ⟨⟨[], rfl⟩, Nat.le_refl _, fun _ _ => rfl⟩

theorem trans (h : Later w w') (h' : Later w' w'') : Later w w'' := by
  obtain ⟨new, htr⟩ := h.trace
  obtain ⟨new', htr'⟩ := h'.trace
  refine ⟨⟨new' ++ new, by rw [htr', htr, List.append_assoc]⟩,
    Nat.le_trans h.next h'.next, ?_⟩
  intro u hu
  rw [h'.calls u (Nat.lt_of_lt_of_le hu h.next), h.calls u hu]

theorem stored (h : Later w w') {n : Nat} {k : S.Key} {v : S.Val k}
    (hs : Stored w.trace n k v) : Stored w'.trace n k v := by
  obtain ⟨new, htr⟩ := h.trace
  rw [htr]
  exact hs.mono new

theorem mem (h : Later w w') {e : Entry S.Key S.Val S.Note} (he : e ∈ w.trace) :
    e ∈ w'.trace := by
  obtain ⟨new, htr⟩ := h.trace
  rw [htr]
  exact List.mem_append_right _ he

theorem suffix (h : Later w w') : w.trace <:+ w'.trace := by
  obtain ⟨new, htr⟩ := h.trace
  exact ⟨new, htr.symm⟩

end Later

/-- `A` held of the history at some moment between two worlds. -/
def During (w w' : World S) (A : Trace S.Key S.Val S.Note → Prop) : Prop :=
  ∃ tr, w.trace <:+ tr ∧ tr <:+ w'.trace ∧ A tr

namespace During

variable {w w' w'' : World S} {A : Trace S.Key S.Val S.Note → Prop}

theorem now (h : Later w w') (hA : A w'.trace) : During w w' A :=
  ⟨w'.trace, h.suffix, List.suffix_refl _, hA⟩

theorem later (h : During w w' A) (hl : Later w' w'') : During w w'' A := by
  obtain ⟨tr, hfrom, hto, hA⟩ := h
  exact ⟨tr, hfrom, hto.trans hl.suffix, hA⟩

theorem earlier (h : During w' w'' A) (hl : Later w w') : During w w'' A := by
  obtain ⟨tr, hfrom, hto, hA⟩ := h
  exact ⟨tr, hl.suffix.trans hfrom, hto, hA⟩

end During

/-! ### Protocols -/

structure Protocol (m : Machine S) where
  inv : World S → Prop
  extra : Tid → World S → World S → Prop := fun _ _ _ => True
  extra_refl : ∀ t w, extra t w w := by intros; trivial
  extra_trans : ∀ {t w w' w''}, extra t w w' → extra t w' w'' → extra t w w'' := by
    intros; trivial
  pre : Tid → S.Call → World S → Prop := fun _ _ _ => True
  post : Tid → S.Call → World S → m.Out → World S → Prop := fun _ _ _ _ _ => True
  err : Tid → S.Call → World S → S.Err → World S → Prop := fun _ _ _ _ _ => True

namespace Protocol

variable {m : Machine S} (P : Protocol m)

def rely (t : Tid) (w w' : World S) : Prop := Grows t w w' ∧ P.extra t w w'

theorem rely_refl (t : Tid) (w : World S) : P.rely t w w :=
  ⟨Grows.refl t w, P.extra_refl t w⟩

variable {P}

theorem rely.trans {t : Tid} {w w' w'' : World S} (h : P.rely t w w')
    (h' : P.rely t w' w'') : P.rely t w w'' :=
  ⟨h.1.trans h'.1, P.extra_trans h.2 h'.2⟩

variable (P)

/-- What thread `t` owes the others for the step from `w` to `w'`. -/
structure Pays (t : Tid) (w w' : World S) : Prop where
  inv : P.inv w'
  extra : ∀ u, u ≠ t → u.idx < w.next → P.extra u w w'
  pre : ∀ u s, w.calls u = none → w'.calls u = some s → P.pre u s.call w'

end Protocol

/-- Thread `t` may run `p` from `w` and end in `Q` or `E`. -/
def Safe {m : Machine S} (P : Protocol m) (t : Tid) {α : Type} :
    S.Task α → (α → World S → Prop) → (S.Err → World S → Prop) → World S → Prop
  | .ret a, Q, _, w => ∀ w', P.rely t w w' → P.inv w' → Q a w'
  | .fail e, _, E, w => ∀ w', P.rely t w w' → P.inv w' → E e w'
  | .call q k, Q, E, w => ∀ w', P.rely t w w' → P.inv w' →
      ∀ pick r w'', m.perform t w' pick q = some (r, w'') →
        P.Pays t w' w'' ∧ Safe P t (k r) Q E w''

namespace Safe

variable {m : Machine S} {P : Protocol m} {t : Tid} {α β : Type}
variable {Q : α → World S → Prop} {E : S.Err → World S → Prop} {w w' : World S}

theorem of_rely {p : S.Task α} (h : Safe P t p Q E w) (hr : P.rely t w w') :
    Safe P t p Q E w' := by
  cases p with
  | ret a => exact fun w'' hr' hi => h w'' (hr.trans hr') hi
  | fail e => exact fun w'' hr' hi => h w'' (hr.trans hr') hi
  | call q k => exact fun w'' hr' hi => h w'' (hr.trans hr') hi

theorem mono {p : S.Task α} {Q' : α → World S → Prop} {E' : S.Err → World S → Prop}
    (h : Safe P t p Q E w) (hQ : ∀ a w, Q a w → Q' a w) (hE : ∀ e w, E e w → E' e w) :
    Safe P t p Q' E' w := by
  induction p generalizing w with
  | ret a => exact fun w' hr hi => hQ a w' (h w' hr hi)
  | fail e => exact fun w' hr hi => hE e w' (h w' hr hi)
  | call q k ih =>
    intro w' hr hi pick r w'' hp
    obtain ⟨hpays, hk⟩ := h w' hr hi pick r w'' hp
    exact ⟨hpays, ih r hk⟩

/-- Sequencing: the second program is safe wherever the first one ends. -/
theorem bind {p : S.Task α} {f : α → S.Task β} {Q' : β → World S → Prop}
    (h : Safe P t p (fun a w => P.inv w → Safe P t (f a) Q' E w) E w) :
    Safe P t (p >>= f) Q' E w := by
  induction p generalizing w with
  | ret a =>
    change Safe P t (f a) Q' E w
    generalize hp : f a = p'
    cases p' with
    | ret b =>
      intro w' hr hi
      have hs := h w' hr hi hi
      rw [hp] at hs
      exact hs w' (P.rely_refl t w') hi
    | fail e =>
      intro w' hr hi
      have hs := h w' hr hi hi
      rw [hp] at hs
      exact hs w' (P.rely_refl t w') hi
    | call q k =>
      intro w' hr hi
      have hs := h w' hr hi hi
      rw [hp] at hs
      exact hs w' (P.rely_refl t w') hi
  | fail e => exact h
  | call q k ih =>
    intro w' hr hi pick r w'' hp
    obtain ⟨hpays, hk⟩ := h w' hr hi pick r w'' hp
    exact ⟨hpays, ih r hk⟩

/-- `try`: a thrown exception ends the program normally. -/
theorem attempt {p : S.Task α} {Q' : Except S.Err α → World S → Prop}
    (h : Safe P t p (fun a => Q' (.ok a)) (fun e => Q' (.error e)) w) :
    Safe P t p.attempt Q' E w := by
  induction p generalizing w with
  | ret a => exact h
  | fail e => exact h
  | call q k ih =>
    intro w' hr hi pick r w'' hp
    obtain ⟨hpays, hk⟩ := h w' hr hi pick r w'' hp
    exact ⟨hpays, ih r hk⟩

theorem ret {a : α} (h : ∀ w', P.rely t w w' → P.inv w' → Q a w') :
    Safe P t (.ret a) Q E w := h

theorem fail {e : S.Err} (h : ∀ w', P.rely t w w' → P.inv w' → E e w') :
    Safe P t (.fail e : S.Task α) Q E w := h

end Safe

/-! ### Steps and growth -/

/-- Calls are numbered below `next`. -/
def World.Numbered (w : World S) : Prop := ∀ u : Tid, w.next ≤ u.idx → w.calls u = none

namespace World.Numbered

variable {w : World S}

theorem spawn (h : w.Numbered) (p : Nat) (c : S.Call) : (w.spawn p c).Numbered := by
  intro u hu
  simp only [World.spawn_next] at hu
  have hne : u ≠ ⟨p, w.next⟩ := by
    rintro rfl
    simp only at hu
    omega
  simp only [World.spawn, Function.update_of_ne hne]
  exact h u (by omega)

theorem spawnAll (h : w.Numbered) (p : Nat) (cs : List S.Call) :
    (w.spawnAll p cs).Numbered := by
  induction cs generalizing w with
  | nil => exact h
  | cons c cs ih => exact ih (h.spawn p c)

end World.Numbered

/-- The authors of all entries are numbered below `next`. -/
def World.Authored (w : World S) : Prop :=
  ∀ e ∈ w.trace, ∀ u, e.author = some u → u.idx < w.next

theorem Machine.perform_numbered {m : Machine S} {t : Tid} {w w' : World S}
    {pick : Pick m} {q : Req S} {r : q.Res} (hw : w.Numbered)
    (h : m.perform t w pick q = some (r, w')) : w'.Numbered := by
  cases pick with
  | store c =>
    cases q with
    | store q =>
      simp only [Machine.perform, Option.some.injEq, Prod.mk.injEq] at h
      obtain ⟨_, rfl⟩ := h
      exact hw
    | ext x => cases h
  | ext c =>
    cases q with
    | store q => cases h
    | ext x =>
      simp only [Machine.perform, Option.map_eq_some_iff, Prod.mk.injEq] at h
      obtain ⟨a, _, _, rfl⟩ := h
      exact World.Numbered.spawnAll (w := w.answered t a) hw _ _

/-- A call forked by a request starts at the length the history then has. -/
theorem Machine.perform_height {m : Machine S} {t u : Tid} {w w' : World S}
    {pick : Pick m} {q : Req S} {r : q.Res} {s : Started S}
    (h : m.perform t w pick q = some (r, w')) (hnone : w.calls u = none)
    (hs : w'.calls u = some s) : s.height = w'.trace.length := by
  cases pick with
  | store c =>
    cases q with
    | store q =>
      simp only [Machine.perform, Option.some.injEq, Prod.mk.injEq] at h
      obtain ⟨_, rfl⟩ := h
      rw [hnone] at hs
      cases hs
    | ext x => cases h
  | ext c =>
    cases q with
    | store q => cases h
    | ext x =>
      simp only [Machine.perform, Option.map_eq_some_iff, Prod.mk.injEq] at h
      obtain ⟨a, _, _, rfl⟩ := h
      rcases World.spawnAll_height hs with hold | ⟨_, _, hheight⟩
      · rw [World.answered_calls, hnone] at hold
        cases hold
      · rw [hheight, World.spawnAll_trace]

/-- Whatever a thread does, the others only see the history grow. -/
theorem Machine.perform_grows {m : Machine S} {t u : Tid} {w w' : World S}
    {pick : Pick m} {q : Req S} {r : q.Res} (hu : u ≠ t)
    (h : m.perform t w pick q = some (r, w')) : Grows u w w' := by
  have hne : some t ≠ some u := fun heq => hu (Option.some.inj heq).symm
  cases pick with
  | store c =>
    cases q with
    | store q =>
      simp only [Machine.perform, Option.some.injEq, Prod.mk.injEq] at h
      obtain ⟨_, rfl⟩ := h
      obtain ⟨new, htr, hnew⟩ := serve_grows c (some t) q w.trace
      exact ⟨⟨new, htr, fun e he => by rw [hnew e he]; exact hne⟩,
        Nat.le_refl _, fun _ _ => rfl⟩
    | ext x => cases h
  | ext c =>
    cases q with
    | store q => cases h
    | ext x =>
      simp only [Machine.perform, Option.map_eq_some_iff, Prod.mk.injEq] at h
      obtain ⟨a, _, _, rfl⟩ := h
      refine ⟨⟨a.notes.map (.note (some t)), by simp, ?_⟩, ?_, ?_⟩
      · intro e he
        obtain ⟨n, _, rfl⟩ := List.mem_map.mp he
        exact hne
      · exact World.le_spawnAll_next (w.answered t a) t.proc a.forks
      · intro v hv
        rw [World.spawnAll_calls_of_lt (by simpa using hv)]
        rfl

theorem Machine.perform_later {m : Machine S} {t : Tid} {w w' : World S}
    {pick : Pick m} {q : Req S} {r : q.Res}
    (h : m.perform t w pick q = some (r, w')) : Later w w' :=
  -- any other thread sees the step as growth
  (Machine.perform_grows (u := ⟨t.proc, t.idx + 1⟩)
    (by intro heq; simpa using congrArg Tid.idx heq) h).later

theorem Machine.perform_authored {m : Machine S} {t : Tid} {w w' : World S}
    {pick : Pick m} {q : Req S} {r : q.Res} (h : m.perform t w pick q = some (r, w')) :
    ∀ e ∈ w'.trace, e ∈ w.trace ∨ e.author = some t := by
  intro e he
  cases pick with
  | store c =>
    cases q with
    | store q =>
      simp only [Machine.perform, Option.some.injEq, Prod.mk.injEq] at h
      obtain ⟨_, rfl⟩ := h
      obtain ⟨new, htr, hnew⟩ := serve_grows c (some t) q w.trace
      simp only [htr, List.mem_append] at he
      exact he.symm.imp id (hnew e)
    | ext x => cases h
  | ext c =>
    cases q with
    | store q => cases h
    | ext x =>
      simp only [Machine.perform, Option.map_eq_some_iff, Prod.mk.injEq] at h
      obtain ⟨a, _, _, rfl⟩ := h
      rw [World.spawnAll_trace, World.answered_trace, List.mem_append] at he
      refine he.symm.imp id fun hnew => ?_
      obtain ⟨n, _, rfl⟩ := List.mem_map.mp hnew
      rfl

/-! ### Requests, one rule each

A store request changes nothing but the history, so the rules below ask only for
the invariant (and `extra`) after a write, and for the rest of the program at
every answer the store can give. -/

/-- The world with one more entry. -/
def World.push (w : World S) (e : Entry S.Key S.Val S.Note) : World S :=
  { w with trace := e :: w.trace }

@[simp] theorem World.push_trace (w : World S) (e : Entry S.Key S.Val S.Note) :
    (w.push e).trace = e :: w.trace := rfl
@[simp] theorem World.push_mem (w : World S) (e : Entry S.Key S.Val S.Note) :
    (w.push e).mem = w.mem := rfl
@[simp] theorem World.push_glob (w : World S) (e : Entry S.Key S.Val S.Note) :
    (w.push e).glob = w.glob := rfl
@[simp] theorem World.push_next (w : World S) (e : Entry S.Key S.Val S.Note) :
    (w.push e).next = w.next := rfl
@[simp] theorem World.push_calls (w : World S) (e : Entry S.Key S.Val S.Note) :
    (w.push e).calls = w.calls := rfl

theorem World.later_push (w : World S) (e : Entry S.Key S.Val S.Note) :
    Later w (w.push e) := ⟨⟨[e], rfl⟩, Nat.le_refl _, fun _ _ => rfl⟩

/-- What a thread owes for a step that starts no call. -/
structure Protocol.Keeps {m : Machine S} (P : Protocol m) (t : Tid) (w w' : World S) :
    Prop where
  inv : P.inv w'
  extra : ∀ u, u ≠ t → u.idx < w.next → P.extra u w w'

theorem Protocol.Keeps.pays {m : Machine S} {P : Protocol m} {t : Tid} {w w' : World S}
    (h : P.Keeps t w w') (hc : w'.calls = w.calls) : P.Pays t w w' := by
  refine ⟨h.inv, h.extra, ?_⟩
  intro u c hnone hsome
  rw [hc, hnone] at hsome
  cases hsome

theorem Protocol.keeps_same {m : Machine S} {P : Protocol m} {t : Tid} {w : World S}
    (hi : P.inv w) : P.Keeps t w w := ⟨hi, fun u _ _ => P.extra_refl u w⟩

namespace Safe

variable {m : Machine S} {P : Protocol m} {t : Tid} {α : Type}
variable {Q : α → World S → Prop} {E : S.Err → World S → Prop} {w : World S}

theorem store {q : StoreReq S.Key S.Val} {k : q.Res → S.Task α}
    (h : ∀ w', P.rely t w w' → P.inv w' → ∀ c r tr,
      serve c (some t) q w'.trace = (r, tr) →
      P.Keeps t w' { w' with trace := tr } ∧ Safe P t (k r) Q E { w' with trace := tr }) :
    Safe P t (.call (.store q) k) Q E w := by
  intro w' hr hi pick r w'' hp
  cases pick with
  | store c =>
    simp only [Machine.perform, Option.some.injEq, Prod.mk.injEq] at hp
    obtain ⟨rfl, rfl⟩ := hp
    obtain ⟨hkeep, hk⟩ := h w' hr hi c _ _ rfl
    exact ⟨hkeep.pays rfl, hk⟩
  | ext c => cases hp

theorem get {key : S.Key} {k : (StoreReq.get key : StoreReq S.Key S.Val).Res → S.Task α}
    (h : ∀ w', P.rely t w w' → P.inv w' →
      Safe P t (k (.ok (lookup key w'.trace))) Q E w' ∧
        Safe P t (k (.error .unavailable)) Q E w') :
    Safe P t (.call (.store (.get key)) k) Q E w := by
  refine store fun w' hr hi c r tr hs => ?_
  obtain ⟨rfl, hres⟩ := serve_get hs
  obtain ⟨hok, herr⟩ := h w' hr hi
  refine ⟨Protocol.keeps_same hi, ?_⟩
  rcases hres with rfl | rfl
  · exact hok
  · exact herr

theorem await_get {β : Type} {key : S.Key} {f : Option (Nat × S.Val key) → S.Task β}
    {Q : β → World S → Prop}
    (h : ∀ w', P.rely t w w' → P.inv w' → Safe P t (f (lookup key w'.trace)) Q E w')
    (hdown : ∀ w', Later w w' → E (S.ofStore .unavailable) w') :
    Safe P t (await (.get key) >>= f) Q E w :=
  Safe.get fun w' hr hi =>
    ⟨h w' hr hi, Safe.fail fun w'' hr' _ => hdown w'' (hr.1.later.trans hr'.1.later)⟩

theorem list {sel : S.Key → Bool}
    {k : (StoreReq.list sel : StoreReq S.Key S.Val).Res → S.Task α}
    (h : ∀ w', P.rely t w w' → P.inv w' →
      (∀ rows : List (Row S.Key S.Val), rows.Perm (listing sel w'.trace) →
        Safe P t (k (.ok rows)) Q E w') ∧ Safe P t (k (.error .unavailable)) Q E w') :
    Safe P t (.call (.store (.list sel)) k) Q E w := by
  refine store fun w' hr hi c r tr hs => ?_
  obtain ⟨rfl, hres⟩ := serve_list hs
  obtain ⟨hok, herr⟩ := h w' hr hi
  refine ⟨Protocol.keeps_same hi, ?_⟩
  rcases hres with ⟨rows, rfl, hperm⟩ | rfl
  · exact hok rows hperm
  · exact herr

theorem create {key : S.Key} {v : S.Val key}
    {k : (StoreReq.create key v).Res → S.Task α}
    (h : ∀ w', P.rely t w w' → P.inv w' →
      (lookup key w'.trace = none →
        P.Keeps t w' (w'.push (.create (some t) key v)) ∧
        Safe P t (k (.ok w'.trace.length)) Q E (w'.push (.create (some t) key v)) ∧
        Safe P t (k (.error .unavailable)) Q E (w'.push (.create (some t) key v))) ∧
      (∀ p, lookup key w'.trace = some p → Safe P t (k (.error .conflict)) Q E w') ∧
      Safe P t (k (.error .unavailable)) Q E w') :
    Safe P t (.call (.store (.create key v)) k) Q E w := by
  refine store fun w' hr hi c r tr hs => ?_
  obtain ⟨hnew, hconf, hdown⟩ := h w' hr hi
  rcases serve_create hs with ⟨hnone, rfl, hres⟩ | ⟨rfl, hres⟩
  · obtain ⟨hkeep, hok, hlost⟩ := hnew hnone
    refine ⟨hkeep, ?_⟩
    rcases hres with rfl | rfl
    · exact hok
    · exact hlost
  · refine ⟨Protocol.keeps_same hi, ?_⟩
    rcases hres with rfl | ⟨rfl, p, hp⟩
    · exact hdown
    · exact hconf p hp

theorem update {key : S.Key} {n : Nat} {v : S.Val key}
    {k : (StoreReq.update key n v).Res → S.Task α}
    (h : ∀ w', P.rely t w w' → P.inv w' →
      (∀ old, lookup key w'.trace = some (n, old) →
        P.Keeps t w' (w'.push (.update (some t) key v)) ∧
        Safe P t (k (.ok w'.trace.length)) Q E (w'.push (.update (some t) key v)) ∧
        Safe P t (k (.error .unavailable)) Q E (w'.push (.update (some t) key v))) ∧
      (∀ e, Safe P t (k (.error e)) Q E w')) :
    Safe P t (.call (.store (.update key n v)) k) Q E w := by
  refine store fun w' hr hi c r tr hs => ?_
  obtain ⟨hnew, hrefused⟩ := h w' hr hi
  rcases serve_update hs with ⟨old, hold, rfl, hres⟩ | ⟨rfl, e, rfl, _⟩
  · obtain ⟨hkeep, hok, hlost⟩ := hnew old hold
    refine ⟨hkeep, ?_⟩
    rcases hres with rfl | rfl
    · exact hok
    · exact hlost
  · exact ⟨Protocol.keeps_same hi, hrefused e⟩

theorem delete {key : S.Key} {n : Nat}
    {k : (StoreReq.delete key n : StoreReq S.Key S.Val).Res → S.Task α}
    (h : ∀ w', P.rely t w w' → P.inv w' →
      (∀ old, lookup key w'.trace = some (n, old) →
        P.Keeps t w' (w'.push (.delete (some t) key)) ∧
        Safe P t (k (.ok ())) Q E (w'.push (.delete (some t) key)) ∧
        Safe P t (k (.error .unavailable)) Q E (w'.push (.delete (some t) key))) ∧
      (∀ e, Safe P t (k (.error e)) Q E w')) :
    Safe P t (.call (.store (.delete key n)) k) Q E w := by
  refine store fun w' hr hi c r tr hs => ?_
  obtain ⟨hnew, hrefused⟩ := h w' hr hi
  rcases serve_delete hs with ⟨old, hold, rfl, hres⟩ | ⟨rfl, e, rfl⟩
  · obtain ⟨hkeep, hok, hlost⟩ := hnew old hold
    refine ⟨hkeep, ?_⟩
    rcases hres with rfl | rfl
    · exact hok
    · exact hlost
  · exact ⟨Protocol.keeps_same hi, hrefused e⟩

theorem ext {x : S.Ext} {k : S.ExtRes x → S.Task α}
    (h : ∀ w', P.rely t w w' → P.inv w' → ∀ c a, m.answer c t x w' = some a →
      P.Pays t w' ((w'.answered t a).spawnAll t.proc a.forks) ∧
        Safe P t (k a.res) Q E ((w'.answered t a).spawnAll t.proc a.forks)) :
    Safe P t (.call (.ext x) k) Q E w := by
  intro w' hr hi pick r w'' hp
  cases pick with
  | store c => cases hp
  | ext c =>
    simp only [Machine.perform, Option.map_eq_some_iff, Prod.mk.injEq] at hp
    obtain ⟨a, ha, rfl, rfl⟩ := hp
    exact h w' hr hi c a ha

/-- Whatever holds between the worlds around each step of `t` and of the others
    holds between the start and the end of a program. -/
theorem along {R : World S → World S → Prop} {p : S.Task α} (hrefl : ∀ w, R w w)
    (htrans : ∀ {w w' w''}, R w w' → R w' w'' → R w w'')
    (hrely : ∀ {w w'}, P.rely t w w' → R w w')
    (hperform : ∀ {w pick q r w'}, m.perform t w pick q = some (r, w') → R w w')
    (h : Safe P t p Q E w) :
    Safe P t p (fun a w' => R w w' ∧ Q a w') (fun e w' => R w w' ∧ E e w') w := by
  -- the start of the whole program stays fixed while the induction moves on
  have hfrom : ∀ w0, R w0 w →
      Safe P t p (fun a w' => R w0 w' ∧ Q a w') (fun e w' => R w0 w' ∧ E e w') w := by
    induction p generalizing w with
    | ret a => exact fun w0 h0 w' hr hi => ⟨htrans h0 (hrely hr), h w' hr hi⟩
    | fail e => exact fun w0 h0 w' hr hi => ⟨htrans h0 (hrely hr), h w' hr hi⟩
    | call q k ih =>
      intro w0 h0 w' hr hi pick r w'' hp
      obtain ⟨hpays, hk⟩ := h w' hr hi pick r w'' hp
      exact ⟨hpays, ih r hk w0 (htrans (htrans h0 (hrely hr)) (hperform hp))⟩
  exact hfrom w (hrefl w)

theorem later {p : S.Task α} (h : Safe P t p Q E w) :
    Safe P t p (fun a w' => Later w w' ∧ Q a w') (fun e w' => Later w w' ∧ E e w') w :=
  along Later.refl Later.trans (fun hr => hr.1.later) Machine.perform_later h

/-- Sequencing with what is known of the start. -/
theorem seq {β : Type} {p : S.Task α} {f : α → S.Task β} {Q' : β → World S → Prop}
    {E' : S.Err → World S → Prop} (h : Safe P t p Q E' w)
    (hf : ∀ a w', Later w w' → P.inv w' → Q a w' → Safe P t (f a) Q' E w')
    (he : ∀ e w', Later w w' → E' e w' → E e w') : Safe P t (p >>= f) Q' E w := by
  apply bind
  apply mono (later h)
  · rintro a w' ⟨hl, hq⟩ hi
    exact hf a w' hl hi hq
  · rintro e w' ⟨hl, hE⟩
    exact he e w' hl hE

/-- The invariant holds where a program ends. -/
theorem with_inv {p : S.Task α} (h : Safe P t p Q E w) :
    Safe P t p (fun a w' => P.inv w' ∧ Q a w') (fun e w' => P.inv w' ∧ E e w') w := by
  induction p generalizing w with
  | ret a => exact fun w' hr hi => ⟨hi, h w' hr hi⟩
  | fail e => exact fun w' hr hi => ⟨hi, h w' hr hi⟩
  | call q k ih =>
    intro w' hr hi pick r w'' hp
    obtain ⟨hpays, hk⟩ := h w' hr hi pick r w'' hp
    exact ⟨hpays, ih r hk⟩

/-- A program all of whose requests keep the protocol is safe, with no more known
    about its result. -/
theorem of_only {ok : Req S → Prop} {p : S.Task α}
    (hok : ∀ q, ok q → ∀ w, P.inv w → ∀ pick r w', m.perform t w pick q = some (r, w') →
      P.Pays t w w') (hp : p.Only ok) (w : World S) :
    Safe P t p (fun _ _ => True) (fun _ _ => True) w := by
  induction p generalizing w with
  | ret a => exact fun _ _ _ => trivial
  | fail e => exact fun _ _ _ => trivial
  | call q k ih =>
    intro w' _ hi pick r w'' hperf
    exact ⟨hok q hp.1 w' hi pick r w'' hperf, ih r (hp.2 r) w''⟩

end Safe

/-! ### Adequacy -/

/-- Everything a protocol has to show about its machine. -/
structure Protocol.Sound {m : Machine S} (P : Protocol m) : Prop where
  init : P.inv m.init
  start : ∀ {w p c}, P.inv w → m.entry p c w = true →
    P.inv (w.spawn p c) ∧ (∀ u : Tid, u.idx < w.next → P.extra u w (w.spawn p c)) ∧
      P.pre ⟨p, w.next⟩ c (w.spawn p c)
  crash : ∀ {w} p, P.inv w →
    P.inv (m.crashed p w) ∧ ∀ u : Tid, u.proc ≠ p → P.extra u w (m.crashed p w)
  env : ∀ {w e new g}, P.inv w → m.env e w = some (new, g) →
    P.inv { w with trace := new ++ w.trace, glob := g } ∧
      ∀ u, P.extra u w { w with trace := new ++ w.trace, glob := g }
  body : ∀ {w t c}, P.inv w → P.pre t c w → w.calls t = some ⟨c, w.trace.length⟩ →
    t.idx < w.next → (∀ e ∈ w.trace, e.author ≠ some t) →
    Safe P t (m.program t c) (P.post t c w) (P.err t c w) w

namespace Protocol

variable {m : Machine S} {P : Protocol m}

/-- What holds of a configuration in every run. -/
structure Holds (P : Protocol m) (c : m.Config) : Prop where
  inv : P.inv c.world
  numbered : c.world.Numbered
  authored : c.world.Authored
  below : ∀ u th, c.threads u = some th → u.idx < c.world.next
  called : ∀ u th, c.threads u = some th →
    c.world.calls u = some ⟨th.call, th.start.trace.length⟩
  since : ∀ u th, c.threads u = some th → Later th.start c.world
  safe : ∀ u th, c.threads u = some th →
    Safe P u th.prog (P.post u th.call th.start) (P.err u th.call th.start) c.world

/-- A step of the world carries the untouched threads along and starts the new
    ones. -/
private theorem Holds.adopt (hs : P.Sound) {c : m.Config}
    {w' : World S} {threads : Tid → Option m.Thread} (hi : P.inv w')
    (hnum : w'.Numbered) (hlater : Later c.world w')
    (hbelow : ∀ e ∈ w'.trace, ∀ u, e.author = some u → u.idx < c.world.next)
    (hpre : ∀ u s, c.world.next ≤ u.idx → w'.calls u = some s →
      P.pre u s.call w' ∧ s.height = w'.trace.length)
    (hold : ∀ u th, u.idx < c.world.next → threads u = some th →
      c.world.calls u = some ⟨th.call, th.start.trace.length⟩ ∧ Later th.start w' ∧
        Safe P u th.prog (P.post u th.call th.start) (P.err u th.call th.start) w') :
    P.Holds ⟨w', Machine.adopt c.world w' threads⟩ := by
  have hcase : ∀ u th, Machine.adopt c.world w' threads u = some th →
      (u.idx < c.world.next ∧ threads u = some th) ∨
        (c.world.next ≤ u.idx ∧ ∃ s, w'.calls u = some s ∧
          th = ⟨s.call, w', m.program u s.call⟩) := by
    intro u th hth
    unfold Machine.adopt at hth
    by_cases hu : u.idx < c.world.next
    · rw [if_pos hu] at hth
      exact .inl ⟨hu, hth⟩
    · rw [if_neg hu] at hth
      obtain ⟨s, hcall, rfl⟩ := Option.map_eq_some_iff.mp hth
      exact .inr ⟨by omega, s, hcall, rfl⟩
  have hlt : ∀ (u : Tid) k, w'.calls u = some k → u.idx < w'.next := by
    intro u k hk
    by_contra hge
    rw [hnum u (by omega)] at hk
    cases hk
  refine ⟨hi, hnum, ?_, ?_, ?_, ?_, ?_⟩
  · exact fun e he u hu => Nat.lt_of_lt_of_le (hbelow e he u hu) hlater.next
  · intro u th hth
    rcases hcase u th hth with ⟨hu, _⟩ | ⟨_, k, hk, _⟩
    · exact Nat.lt_of_lt_of_le hu hlater.next
    · exact hlt u k hk
  · intro u th hth
    rcases hcase u th hth with ⟨hu, hth'⟩ | ⟨hge, k, hk, rfl⟩
    · rw [hlater.calls u hu]
      exact (hold u th hu hth').1
    · rw [hk, ← (hpre u k hge hk).2]
  · intro u th hth
    rcases hcase u th hth with ⟨hu, hth'⟩ | ⟨_, k, _, rfl⟩
    · exact (hold u th hu hth').2.1
    · exact Later.refl w'
  · intro u th hth
    rcases hcase u th hth with ⟨hu, hth'⟩ | ⟨hge, k, hk, rfl⟩
    · exact (hold u th hu hth').2.2
    · obtain ⟨hpre', hheight⟩ := hpre u k hge hk
      refine hs.body hi hpre' ?_ (hlt u k hk) ?_
      · rw [hk, ← hheight]
      · intro e he hauthor
        have := hbelow e he u hauthor
        omega

theorem Holds.move (hs : P.Sound) {c c' : m.Config} {mv : m.Move} (h : P.Holds c)
    (hmv : c.move mv = some c') : P.Holds c' := by
  cases mv with
  | run t pick =>
    simp only [Machine.Config.move] at hmv
    split at hmv
    · rename_i call start q k hth
      simp only [Option.map_eq_some_iff] at hmv
      obtain ⟨⟨r, w'⟩, hperf, rfl⟩ := hmv
      obtain ⟨hpays, hk⟩ := h.safe t _ hth c.world (P.rely_refl t _) h.inv pick r w' hperf
      have hlater := Machine.perform_later hperf
      have hbelow : ∀ e ∈ w'.trace, ∀ u, e.author = some u → u.idx < c.world.next := by
        intro e he u hu
        rcases Machine.perform_authored hperf e he with hold | hnew
        · exact h.authored e hold u hu
        · rw [hnew] at hu
          cases hu
          exact h.below t _ hth
      refine Holds.adopt hs hpays.inv (Machine.perform_numbered h.numbered hperf) hlater hbelow
        (fun u s hu hs => ⟨hpays.pre u s (h.numbered u hu) hs,
          Machine.perform_height hperf (h.numbered u hu) hs⟩) ?_
      intro u th hu hth'
      by_cases hut : u = t
      · subst hut
        rw [Function.update_self] at hth'
        cases hth'
        have hcalled := h.called u _ hth
        have hsince := h.since u _ hth
        exact ⟨hcalled, hsince.trans hlater, hk⟩
      · rw [Function.update_of_ne hut] at hth'
        refine ⟨h.called u th hth', (h.since u th hth').trans hlater, ?_⟩
        exact (h.safe u th hth').of_rely
          ⟨Machine.perform_grows hut hperf, hpays.extra u hut hu⟩
    · cases hmv
  | start p call =>
    simp only [Machine.Config.move] at hmv
    split at hmv
    · rename_i hentry
      cases hmv
      obtain ⟨hi, hextra, hpre⟩ := hs.start h.inv hentry
      have hgrows : ∀ u : Tid, Grows u c.world (c.world.spawn p call) := fun u =>
        ⟨⟨[], rfl, by simp⟩, Nat.le_succ _, fun v hv => World.spawn_calls_of_lt hv p call⟩
      refine Holds.adopt hs hi (h.numbered.spawn p call) (hgrows ⟨p, 0⟩).later h.authored ?_ ?_
      · intro u k hu hk
        have hup : u = ⟨p, c.world.next⟩ := by
          by_contra hne
          simp only [World.spawn, Function.update_of_ne hne] at hk
          rw [h.numbered u hu] at hk
          cases hk
        subst hup
        simp only [World.spawn, Function.update_self, Option.some.injEq] at hk
        subst hk
        exact ⟨hpre, rfl⟩
      · intro u th hu hth
        exact ⟨h.called u th hth, (h.since u th hth).trans (hgrows u).later,
          (h.safe u th hth).of_rely ⟨hgrows u, hextra u hu⟩⟩
    · cases hmv
  | crash p =>
    simp only [Machine.Config.move, Option.some.injEq] at hmv
    subst hmv
    obtain ⟨hi, hextra⟩ := hs.crash p h.inv
    have hgrows : ∀ u : Tid, Grows u c.world (m.crashed p c.world) := fun u =>
      ⟨⟨[], rfl, by simp⟩, Nat.le_refl _, fun _ _ => rfl⟩
    have hkeep : ∀ u th, (if u.proc = p then none else c.threads u) = some th →
        u.proc ≠ p ∧ c.threads u = some th := by
      intro u th hth
      by_cases hu : u.proc = p
      · rw [if_pos hu] at hth; cases hth
      · rw [if_neg hu] at hth; exact ⟨hu, hth⟩
    refine ⟨hi, h.numbered, h.authored, ?_, ?_, ?_, ?_⟩
    · exact fun u th hth => h.below u th (hkeep u th hth).2
    · exact fun u th hth => h.called u th (hkeep u th hth).2
    · exact fun u th hth => (h.since u th (hkeep u th hth).2).trans (hgrows u).later
    · intro u th hth
      obtain ⟨hu, hth'⟩ := hkeep u th hth
      exact (h.safe u th hth').of_rely ⟨hgrows u, hextra u hu⟩
  | env e =>
    simp only [Machine.Config.move, Option.map_eq_some_iff] at hmv
    obtain ⟨⟨new, g⟩, henv, rfl⟩ := hmv
    obtain ⟨hi, hextra⟩ := hs.env h.inv henv
    have hgrows : ∀ u : Tid, Grows u c.world
        { c.world with trace := new ++ c.world.trace, glob := g } := fun u =>
      ⟨⟨new, rfl, fun x hx => by rw [m.env_author henv x hx]; simp⟩,
        Nat.le_refl _, fun _ _ => rfl⟩
    refine ⟨hi, h.numbered, ?_, h.below, h.called, ?_, ?_⟩
    · intro e he u hu
      rcases List.mem_append.mp he with hnew | hold
      · rw [m.env_author henv e hnew] at hu
        cases hu
      · exact h.authored e hold u hu
    · exact fun u th hth => (h.since u th hth).trans (hgrows u).later
    · exact fun u th hth => (h.safe u th hth).of_rely ⟨hgrows u, hextra u⟩

/-- **Adequacy.**  In every reachable configuration the invariant holds and every
    thread is safe from where it stands. -/
theorem Sound.reachable (hs : P.Sound) {c : m.Config} (h : m.Reachable c) :
    P.Holds c := by
  induction h with
  | init =>
    refine ⟨hs.init, fun u _ => m.init_calls u, ?_, ?_, ?_, ?_, ?_⟩
    · intro e he u hu
      exact absurd hu (by rw [m.init_author e he]; simp)
    · intro u th hth; cases hth
    · intro u th hth; cases hth
    · intro u th hth; cases hth
    · intro u th hth; cases hth
  | move _ hmv ih => exact ih.move hs hmv

/-- A call that has returned satisfies its postcondition. -/
theorem Holds.returned {c : m.Config} (h : P.Holds c) {t : Tid} {th : m.Thread}
    {a : m.Out} (ht : c.threads t = some th) (hp : th.prog = .ret a) :
    P.post t th.call th.start a c.world := by
  have hsafe := h.safe t th ht
  rw [hp] at hsafe
  exact hsafe c.world (P.rely_refl t _) h.inv

/-- A call that has thrown satisfies its exceptional postcondition. -/
theorem Holds.threw {c : m.Config} (h : P.Holds c) {t : Tid} {th : m.Thread}
    {e : S.Err} (ht : c.threads t = some th) (hp : th.prog = .fail e) :
    P.err t th.call th.start e c.world := by
  have hsafe := h.safe t th ht
  rw [hp] at hsafe
  exact hsafe c.world (P.rely_refl t _) h.inv

end Protocol

end PaseoGateway.Async

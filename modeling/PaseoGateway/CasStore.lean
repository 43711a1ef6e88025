/-
  PaseoGateway/CasStore.lean
  ==========================
  **A compare-and-swap record store as its write log.**

  A store such as the Kubernetes API keeps one current value per key and stamps
  every write with a version that no other write ever carries.  Updates and
  deletes name the version they replace and are refused when it is no longer
  current.  Here the whole history is kept: a `Trace` lists the entries newest
  first, the version of a write is the number of entries below it, and the
  current value of a key is the newest entry that touches it (`lookup`).

  External effects that share the time line with the writes (a message sent to a
  backend, a clock reading) are entries too (`note`), so "before" and "after"
  have one meaning for writes and effects alike.  Every entry names its author.

  The two facts every user of the store rests on are `Stored.unique` (a version
  pins its value for ever) and `lookup_stored`.
-/
import Mathlib

namespace PaseoGateway.Async

/-- One running call: the process it belongs to and a number never reused. -/
structure Tid where
  proc : Nat
  idx : Nat
deriving DecidableEq, Repr

/-- One entry of the time line; the author is `none` for the environment. -/
inductive Entry (κ : Type) (ν : κ → Type) (η : Type) where
  | create (author : Option Tid) (k : κ) (v : ν k)
  | update (author : Option Tid) (k : κ) (v : ν k)
  | delete (author : Option Tid) (k : κ)
  | note (author : Option Tid) (n : η)

abbrev Trace (κ : Type) (ν : κ → Type) (η : Type) := List (Entry κ ν η)

section Store

variable {κ : Type} [DecidableEq κ] {ν : κ → Type} {η : Type}

namespace Entry

def author : Entry κ ν η → Option Tid
  | .create a _ _ => a
  | .update a _ _ => a
  | .delete a _ => a
  | .note a _ => a

/-- The key an entry writes or deletes. -/
def key? : Entry κ ν η → Option κ
  | .create _ k _ => some k
  | .update _ k _ => some k
  | .delete _ k => some k
  | .note _ _ => none

/-- The value an entry stores under `k`. -/
def puts (k : κ) : Entry κ ν η → Option (ν k)
  | .create _ k' v => if h : k' = k then some (h ▸ v) else none
  | .update _ k' v => if h : k' = k then some (h ▸ v) else none
  | .delete _ _ => none
  | .note _ _ => none

@[simp] theorem puts_create_self (a : Option Tid) (k : κ) (v : ν k) :
    (create a k v : Entry κ ν η).puts k = some v := by simp [puts]
@[simp] theorem puts_update_self (a : Option Tid) (k : κ) (v : ν k) :
    (update a k v : Entry κ ν η).puts k = some v := by simp [puts]
@[simp] theorem puts_delete (a : Option Tid) (k k' : κ) :
    (delete a k' : Entry κ ν η).puts k = none := rfl
@[simp] theorem puts_note (a : Option Tid) (k : κ) (n : η) :
    (note a n : Entry κ ν η).puts k = none := rfl

theorem puts_create_ne {a : Option Tid} {k k' : κ} {v : ν k'} (h : k' ≠ k) :
    (create a k' v : Entry κ ν η).puts k = none := by simp [puts, h]

theorem puts_update_ne {a : Option Tid} {k k' : κ} {v : ν k'} (h : k' ≠ k) :
    (update a k' v : Entry κ ν η).puts k = none := by simp [puts, h]

/-- Only an entry about `k` stores a value under `k`. -/
theorem key_of_puts {e : Entry κ ν η} {k : κ} {v : ν k} (h : e.puts k = some v) :
    e.key? = some k := by
  cases e with
  | create a k' v' =>
    by_cases hk : k' = k
    · subst hk; rfl
    · rw [puts_create_ne hk] at h; cases h
  | update a k' v' =>
    by_cases hk : k' = k
    · subst hk; rfl
    · rw [puts_update_ne hk] at h; cases h
  | delete a k' => cases h
  | note a n => cases h

end Entry

/-! ### The current value of a key -/

/-- The version and value a read of `k` returns. -/
def lookup (k : κ) : Trace κ ν η → Option (Nat × ν k)
  | [] => none
  | e :: older =>
    if e.key? = some k then (e.puts k).map fun v => (older.length, v)
    else lookup k older

@[simp] theorem lookup_nil (k : κ) : lookup k ([] : Trace κ ν η) = none := rfl

@[simp] theorem lookup_note (k : κ) (a : Option Tid) (n : η) (tr : Trace κ ν η) :
    lookup k (.note a n :: tr) = lookup k tr := by simp [lookup, Entry.key?]

@[simp] theorem lookup_create_self (k : κ) (a : Option Tid) (v : ν k) (tr : Trace κ ν η) :
    lookup k (.create a k v :: tr) = some (tr.length, v) := by
  simp [lookup, Entry.key?]

@[simp] theorem lookup_update_self (k : κ) (a : Option Tid) (v : ν k) (tr : Trace κ ν η) :
    lookup k (.update a k v :: tr) = some (tr.length, v) := by
  simp [lookup, Entry.key?]

@[simp] theorem lookup_delete_self (k : κ) (a : Option Tid) (tr : Trace κ ν η) :
    lookup k (.delete a k :: tr) = none := by simp [lookup, Entry.key?]

/-- An entry about another key leaves `k` as it was. -/
theorem lookup_cons_of_ne {k : κ} {e : Entry κ ν η} {tr : Trace κ ν η}
    (h : e.key? ≠ some k) : lookup k (e :: tr) = lookup k tr := by simp [lookup, h]

/-! ### What a version pins -/

/-- Version `n` of the history stored `v` under `k`. -/
def Stored (tr : Trace κ ν η) (n : Nat) (k : κ) (v : ν k) : Prop :=
  ∃ newer e older, tr = newer ++ e :: older ∧ older.length = n ∧ e.puts k = some v

theorem lookup_stored {k : κ} {tr : Trace κ ν η} {n : Nat} {v : ν k}
    (h : lookup k tr = some (n, v)) : Stored tr n k v := by
  induction tr with
  | nil => cases h
  | cons e older ih =>
    by_cases he : e.key? = some k
    · simp only [lookup, he, if_true] at h
      obtain ⟨w, hw, hpair⟩ := Option.map_eq_some_iff.mp h
      cases hpair
      exact ⟨[], e, older, rfl, rfl, hw⟩
    · rw [lookup_cons_of_ne he] at h
      obtain ⟨newer, e', older', htr, hlen, hputs⟩ := ih h
      exact ⟨e :: newer, e', older', by rw [htr]; rfl, hlen, hputs⟩

theorem stored_of_mem {tr : Trace κ ν η} {e : Entry κ ν η} {k : κ} {v : ν k} (he : e ∈ tr)
    (hputs : e.puts k = some v) : ∃ n, Stored tr n k v := by
  obtain ⟨newer, older, rfl⟩ := List.append_of_mem he
  exact ⟨older.length, newer, e, older, rfl, rfl, hputs⟩

theorem Stored.mono {tr : Trace κ ν η} {n : Nat} {k : κ} {v : ν k}
    (h : Stored tr n k v) (new : Trace κ ν η) : Stored (new ++ tr) n k v := by
  obtain ⟨newer, e, older, rfl, hlen, hputs⟩ := h
  exact ⟨new ++ newer, e, older, by simp, hlen, hputs⟩

theorem Stored.cons {tr : Trace κ ν η} {n : Nat} {k : κ} {v : ν k}
    (h : Stored tr n k v) (e : Entry κ ν η) : Stored (e :: tr) n k v :=
  h.mono [e]

theorem Stored.lt {tr : Trace κ ν η} {n : Nat} {k : κ} {v : ν k}
    (h : Stored tr n k v) : n < tr.length := by
  obtain ⟨newer, e, older, rfl, hlen, _⟩ := h
  simp only [List.length_append, List.length_cons]
  omega

/-- A version was written once, so it stores one value. -/
theorem Stored.unique {tr : Trace κ ν η} {n : Nat} {k : κ} {v w : ν k}
    (hv : Stored tr n k v) (hw : Stored tr n k w) : v = w := by
  obtain ⟨newer, e, older, rfl, hlen, hputs⟩ := hv
  obtain ⟨newer', e', older', htr, hlen', hputs'⟩ := hw
  have hlens : (e :: older).length = (e' :: older').length := by simp [hlen, hlen']
  have hsame := (List.append_inj' htr hlens).2
  cases hsame
  rw [hputs] at hputs'
  exact Option.some.inj hputs'

/-- The value behind a version read earlier, when that version is still current. -/
theorem Stored.eq_of_lookup {tr : Trace κ ν η} {n : Nat} {k : κ} {v w : ν k}
    (hv : Stored tr n k v) (hw : lookup k tr = some (n, w)) : v = w :=
  hv.unique (lookup_stored hw)

/-- A version of a longer history is its newest entry or one of the older ones. -/
theorem Stored.cons_cases {e : Entry κ ν η} {older : Trace κ ν η} {n : Nat} {k : κ} {v : ν k}
    (h : Stored (e :: older) n k v) :
    (e.puts k = some v ∧ n = older.length) ∨ Stored older n k v := by
  obtain ⟨newer, e', older', htr, hlen, hputs⟩ := h
  cases newer with
  | nil =>
    cases htr
    exact .inl ⟨hputs, hlen.symm⟩
  | cons e'' newer' =>
    cases htr
    exact .inr ⟨newer', e', older', rfl, hlen, hputs⟩

/-! ### Disciplines

A record that is never deleted, starts in `ok` and is only replaced along `R`. -/

/-- The entry `e` keeps the discipline of `k` after the history `older`. -/
def Entry.Keeps (k : κ) (ok : ν k → Prop) (R : ν k → ν k → Prop) (older : Trace κ ν η)
    (e : Entry κ ν η) : Prop :=
  e.key? = some k → ∃ v, e.puts k = some v ∧
    ((lookup k older = none ∧ ok v) ∨ ∃ n old, lookup k older = some (n, old) ∧ R old v)

def Disciplined (k : κ) (ok : ν k → Prop) (R : ν k → ν k → Prop) : Trace κ ν η → Prop
  | [] => True
  | e :: older => Disciplined k ok R older ∧ e.Keeps k ok R older

variable {k : κ} {ok : ν k → Prop} {R : ν k → ν k → Prop}

theorem Entry.keeps_of_ne {older : Trace κ ν η} {e : Entry κ ν η} (h : e.key? ≠ some k) :
    e.Keeps k ok R older := fun hkey => absurd hkey h

theorem Entry.keeps_create {older : Trace κ ν η} {a : Option Tid} {v : ν k}
    (hnone : lookup k older = none) (hv : ok v) :
    (Entry.create a k v : Entry κ ν η).Keeps k ok R older :=
  fun _ => ⟨v, puts_create_self a k v, .inl ⟨hnone, hv⟩⟩

theorem Entry.keeps_update {older : Trace κ ν η} {a : Option Tid} {v old : ν k} {n : Nat}
    (hold : lookup k older = some (n, old)) (hv : R old v) :
    (Entry.update a k v : Entry κ ν η).Keeps k ok R older :=
  fun _ => ⟨v, puts_update_self a k v, .inr ⟨n, old, hold, hv⟩⟩

/-- Whatever was stored is still there, or was replaced along `R`. -/
theorem Disciplined.current (htrans : ∀ a b c, R a b → R b c → R a c) {tr : Trace κ ν η}
    (h : Disciplined k ok R tr) {n : Nat} {v : ν k} (hs : Stored tr n k v) :
    ∃ m v', lookup k tr = some (m, v') ∧ (v' = v ∨ R v v') := by
  induction tr generalizing n v with
  | nil =>
    obtain ⟨newer, e, older, htr, _, _⟩ := hs
    cases newer <;> cases htr
  | cons e older ih =>
    obtain ⟨hold, hkeeps⟩ := h
    by_cases hkey : e.key? = some k
    · obtain ⟨w, hw, hstep⟩ := hkeeps hkey
      have hlook : lookup k (e :: older) = some (older.length, w) := by
        simp [lookup, hkey, hw]
      refine ⟨_, w, hlook, ?_⟩
      rcases hs.cons_cases with ⟨hputs, _⟩ | hstored
      · rw [hw] at hputs
        exact .inl (Option.some.inj hputs)
      · -- the value was there before: it is the replaced one or older than it
        obtain ⟨m, old, hprev, hrel⟩ := ih hold hstored
        rcases hstep with ⟨hnone, _⟩ | ⟨m', old', hprev', hR⟩
        · rw [hnone] at hprev
          cases hprev
        · rw [hprev] at hprev'
          cases hprev'
          rcases hrel with rfl | hrel
          · exact .inr hR
          · exact .inr (htrans _ _ _ hrel hR)
    · rw [lookup_cons_of_ne hkey]
      rcases hs.cons_cases with ⟨hputs, _⟩ | hstored
      · exact absurd (Entry.key_of_puts hputs) hkey
      · exact ih hold hstored

/-- A property of first values that `R` keeps holds of every stored value. -/
theorem Disciplined.stored {P : ν k → Prop} (hok : ∀ v, ok v → P v)
    (hstep : ∀ v w, P v → R v w → P w) {tr : Trace κ ν η} (h : Disciplined k ok R tr)
    {n : Nat} {v : ν k} (hs : Stored tr n k v) : P v := by
  induction tr generalizing n v with
  | nil =>
    obtain ⟨newer, e, older, htr, _, _⟩ := hs
    cases newer <;> cases htr
  | cons e older ih =>
    obtain ⟨hold, hkeeps⟩ := h
    rcases hs.cons_cases with ⟨hputs, _⟩ | hstored
    · obtain ⟨w, hw, hcase⟩ := hkeeps (Entry.key_of_puts hputs)
      rw [hputs] at hw
      cases hw
      rcases hcase with ⟨_, hv⟩ | ⟨m, old, hprev, hR⟩
      · exact hok _ hv
      · exact hstep _ _ (ih hold (lookup_stored hprev)) hR
    · exact ih hold hstored

/-! ### Requests and answers -/

/-- One row of a listing. -/
structure Row (κ : Type) (ν : κ → Type) where
  key : κ
  version : Nat
  value : ν key

def keysOf (tr : Trace κ ν η) : List κ := (tr.filterMap Entry.key?).dedup

/-- The current rows whose key is selected. -/
def listing (sel : κ → Bool) (tr : Trace κ ν η) : List (Row κ ν) :=
  ((keysOf tr).filter sel).filterMap fun k => (lookup k tr).map fun p => ⟨k, p.1, p.2⟩

theorem mem_keysOf_of_lookup {k : κ} {tr : Trace κ ν η} {p : Nat × ν k}
    (h : lookup k tr = some p) : k ∈ keysOf tr := by
  obtain ⟨newer, e, older, rfl, _, hputs⟩ := lookup_stored h
  rw [keysOf, List.mem_dedup, List.mem_filterMap]
  exact ⟨e, by simp, Entry.key_of_puts hputs⟩

theorem mem_listing {sel : κ → Bool} {tr : Trace κ ν η} {row : Row κ ν} :
    row ∈ listing sel tr ↔
      sel row.key = true ∧ lookup row.key tr = some (row.version, row.value) := by
  simp only [listing, List.mem_filterMap, List.mem_filter, Option.map_eq_some_iff]
  constructor
  · rintro ⟨k, ⟨_, hsel⟩, p, hp, rfl⟩
    exact ⟨hsel, hp⟩
  · rintro ⟨hsel, hlook⟩
    exact ⟨row.key, ⟨mem_keysOf_of_lookup hlook, hsel⟩, _, hlook, rfl⟩

inductive StoreReq (κ : Type) (ν : κ → Type) where
  | get (k : κ)
  | list (sel : κ → Bool)
  | create (k : κ) (v : ν k)
  | update (k : κ) (version : Nat) (v : ν k)
  | delete (k : κ) (version : Nat)

/-- Why the store refused or lost a request: 409, 404, or no usable answer. -/
inductive StoreErr where
  | conflict
  | notFound
  | unavailable
deriving DecidableEq, Repr

/-- What a healthy store answers.  Creates and updates return the new version. -/
abbrev StoreReq.Ans {κ : Type} {ν : κ → Type} : StoreReq κ ν → Type
  | .get k => Option (Nat × ν k)
  | .list _ => List (Row κ ν)
  | .create _ _ => Nat
  | .update _ _ _ => Nat
  | .delete _ _ => Unit

abbrev StoreReq.Res {κ : Type} {ν : κ → Type} (q : StoreReq κ ν) : Type :=
  Except StoreErr q.Ans

/-- How one request fares: served, lost before it took effect, or applied with
    its answer lost. -/
inductive Fault where
  | none
  | before
  | after
deriving DecidableEq, Repr

/-- The weather one request meets: a fault, and the order a listing comes in. -/
structure Weather (κ : Type) where
  fault : Fault := .none
  rank : κ → Nat := fun _ => 0

/-- The effect of a request on a healthy store. -/
def apply (a : Option Tid) (rank : κ → Nat) (tr : Trace κ ν η) :
    (q : StoreReq κ ν) → q.Res × Trace κ ν η
  | .get k => (.ok (lookup k tr), tr)
  | .list sel =>
    (.ok ((listing sel tr).insertionSort fun x y => rank x.key ≤ rank y.key), tr)
  | .create k v =>
    match lookup k tr with
    | some _ => (.error .conflict, tr)
    | none => (.ok tr.length, .create a k v :: tr)
  | .update k n v =>
    match lookup k tr with
    | none => (.error .notFound, tr)
    | some p => if p.1 = n then (.ok tr.length, .update a k v :: tr) else (.error .conflict, tr)
  | .delete k n =>
    match lookup k tr with
    | none => (.error .notFound, tr)
    | some p => if p.1 = n then (.ok (), .delete a k :: tr) else (.error .conflict, tr)

/-- One request served under the given weather. -/
def serve (c : Weather κ) (a : Option Tid) (q : StoreReq κ ν) (tr : Trace κ ν η) :
    q.Res × Trace κ ν η :=
  match c.fault with
  | .before => (.error .unavailable, tr)
  | .none => apply a c.rank tr q
  | .after => (.error .unavailable, (apply a c.rank tr q).2)

/-! ### What each request can do

One lemma per request: the pairs of answer and new history that `serve` allows. -/

theorem serve_get {c : Weather κ} {a : Option Tid} {k : κ} {tr tr' : Trace κ ν η}
    {r : (StoreReq.get k : StoreReq κ ν).Res}
    (h : serve c a (.get k) tr = (r, tr')) :
    tr' = tr ∧ (r = .ok (lookup k tr) ∨ r = .error .unavailable) := by
  unfold serve at h
  cases hc : c.fault <;> rw [hc] at h <;> cases h <;> simp [apply]

theorem serve_list {c : Weather κ} {a : Option Tid} {sel : κ → Bool}
    {tr tr' : Trace κ ν η} {r : (StoreReq.list sel : StoreReq κ ν).Res}
    (h : serve c a (.list sel) tr = (r, tr')) :
    tr' = tr ∧ ((∃ rows, r = .ok rows ∧ rows.Perm (listing sel tr)) ∨
      r = .error .unavailable) := by
  unfold serve at h
  cases hc : c.fault <;> rw [hc] at h <;> cases h
  · exact ⟨rfl, .inl ⟨_, rfl, List.perm_insertionSort _ _⟩⟩
  · exact ⟨rfl, .inr rfl⟩
  · exact ⟨rfl, .inr rfl⟩

theorem serve_create {c : Weather κ} {a : Option Tid} {k : κ} {v : ν k}
    {tr tr' : Trace κ ν η} {r : (StoreReq.create k v).Res}
    (h : serve c a (.create k v) tr = (r, tr')) :
    (lookup k tr = none ∧ tr' = .create a k v :: tr ∧
        (r = .ok tr.length ∨ r = .error .unavailable)) ∨
      (tr' = tr ∧ (r = .error .unavailable ∨
        (r = .error .conflict ∧ ∃ p, lookup k tr = some p))) := by
  cases hl : lookup k tr with
  | none => cases hc : c.fault <;> simp_all [serve, apply]
  | some p => cases hc : c.fault <;> simp_all [serve, apply]

theorem serve_update {c : Weather κ} {a : Option Tid} {k : κ} {n : Nat} {v : ν k}
    {tr tr' : Trace κ ν η} {r : (StoreReq.update k n v).Res}
    (h : serve c a (.update k n v) tr = (r, tr')) :
    (∃ w, lookup k tr = some (n, w) ∧ tr' = .update a k v :: tr ∧
        (r = .ok tr.length ∨ r = .error .unavailable)) ∨
      (tr' = tr ∧ ∃ e, r = .error e ∧
        (e = .conflict → ∃ p, lookup k tr = some p ∧ p.1 ≠ n)) := by
  unfold serve at h
  cases hl : lookup k tr with
  | none =>
    refine .inr ?_
    cases hc : c.fault <;> simp only [hc, apply, hl] at h <;> cases h <;>
      exact ⟨rfl, _, rfl, by simp⟩
  | some p =>
    obtain ⟨m, w⟩ := p
    by_cases hm : m = n
    · subst hm
      cases hc : c.fault <;> simp only [hc, apply, hl, if_true] at h <;> cases h
      · exact .inl ⟨w, rfl, rfl, .inl rfl⟩
      · exact .inr ⟨rfl, _, rfl, by simp⟩
      · exact .inl ⟨w, rfl, rfl, .inr rfl⟩
    · refine .inr ?_
      cases hc : c.fault <;> simp only [hc, apply, hl, if_neg hm] at h <;> cases h
      · exact ⟨rfl, _, rfl, fun _ => ⟨_, rfl, hm⟩⟩
      · exact ⟨rfl, _, rfl, by simp⟩
      · exact ⟨rfl, _, rfl, by simp⟩

theorem serve_delete {c : Weather κ} {a : Option Tid} {k : κ} {n : Nat}
    {tr tr' : Trace κ ν η} {r : (StoreReq.delete k n : StoreReq κ ν).Res}
    (h : serve c a (.delete k n) tr = (r, tr')) :
    (∃ w, lookup k tr = some (n, w) ∧ tr' = .delete a k :: tr ∧
        (r = .ok () ∨ r = .error .unavailable)) ∨
      (tr' = tr ∧ ∃ e, r = .error e) := by
  unfold serve at h
  cases hl : lookup k tr with
  | none =>
    refine .inr ?_
    cases hc : c.fault <;> simp only [hc, apply, hl] at h <;> cases h <;>
      exact ⟨rfl, _, rfl⟩
  | some p =>
    obtain ⟨m, w⟩ := p
    by_cases hm : m = n
    · subst hm
      cases hc : c.fault <;> simp only [hc, apply, hl, if_true] at h <;> cases h
      · exact .inl ⟨w, rfl, rfl, .inl rfl⟩
      · exact .inr ⟨rfl, _, rfl⟩
      · exact .inl ⟨w, rfl, rfl, .inr rfl⟩
    · refine .inr ?_
      cases hc : c.fault <;> simp only [hc, apply, hl, if_neg hm] at h <;> cases h <;>
        exact ⟨rfl, _, rfl⟩

/-- Serving a request only ever adds entries of its author. -/
theorem serve_grows (c : Weather κ) (a : Option Tid) (q : StoreReq κ ν)
    (tr : Trace κ ν η) :
    ∃ new, (serve c a q tr).2 = new ++ tr ∧ ∀ e ∈ new, Entry.author e = a := by
  rcases hr : serve c a q tr with ⟨r, tr'⟩
  cases q with
  | get k => exact ⟨[], by simp [(serve_get hr).1], by simp⟩
  | list sel => exact ⟨[], by simp [(serve_list hr).1], by simp⟩
  | create k v =>
    rcases serve_create hr with ⟨_, rfl, _⟩ | ⟨rfl, _⟩
    · exact ⟨[.create a k v], rfl, by simp [Entry.author]⟩
    · exact ⟨[], rfl, by simp⟩
  | update k n v =>
    rcases serve_update hr with ⟨_, _, rfl, _⟩ | ⟨rfl, _⟩
    · exact ⟨[.update a k v], rfl, by simp [Entry.author]⟩
    · exact ⟨[], rfl, by simp⟩
  | delete k n =>
    rcases serve_delete hr with ⟨_, _, rfl, _⟩ | ⟨rfl, _⟩
    · exact ⟨[.delete a k], rfl, by simp [Entry.author]⟩
    · exact ⟨[], rfl, by simp⟩

end Store

end PaseoGateway.Async

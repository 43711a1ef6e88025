/-
  PaseoGateway/JsMap.lean
  =======================
  **The JavaScript `Map`: keys in insertion order, iterated while it changes.**

  A cell keeps the position at which its key was inserted; setting a key that is
  there keeps the position, deleting and setting again takes a new one.  A loop
  over a live map visits the first cell from a position on (`nextFrom`) and goes
  on behind it, so it sees cells added while it runs and misses cells deleted
  before it reaches them.
-/
import Mathlib

namespace PaseoGateway.Js

/-- Where keys are unique, a search by key finds the element that has it. -/
theorem find?_of_nodup {α κ : Type} [DecidableEq κ] {key : α → κ} {l : List α}
    (hn : (l.map key).Nodup) {a : α} (ha : a ∈ l) : l.find? (key · = key a) = some a := by
  cases hf : l.find? (key · = key a) with
  | none =>
    rw [List.find?_eq_none] at hf
    exact absurd (decide_eq_true rfl) (hf a ha)
  | some b =>
    have hb : key b = key a := by simpa using List.find?_some hf
    rw [List.inj_on_of_nodup_map hn (List.mem_of_find?_eq_some hf) ha hb]

structure Cell (κ ν : Type) where
  position : Nat
  key : κ
  value : ν
deriving DecidableEq, Repr

/-- A `Map`; no two cells carry one key. -/
structure Map (κ ν : Type) where
  cells : List (Cell κ ν) := []
  positions : Nat := 0
  nodup : (cells.map Cell.key).Nodup := by simp

namespace Map

variable {κ ν : Type} [DecidableEq κ]

def get (m : Map κ ν) (k : κ) : Option ν := (m.cells.find? (·.key = k)).map Cell.value

def keys (m : Map κ ν) : List κ := m.cells.map Cell.key

def values (m : Map κ ν) : List ν := m.cells.map Cell.value

/-- The first cell at this position or behind it. -/
def nextFrom (m : Map κ ν) (position : Nat) : Option (Cell κ ν) :=
  m.cells.find? (position ≤ ·.position)

def put (k : κ) (v : ν) (c : Cell κ ν) : Cell κ ν := if c.key = k then { c with value := v } else c

theorem put_key (k : κ) (v : ν) (c : Cell κ ν) : (put k v c).key = c.key := by
  unfold put
  split <;> rfl

def set (m : Map κ ν) (k : κ) (v : ν) : Map κ ν :=
  if h : k ∈ m.cells.map Cell.key then
    { m with
      cells := m.cells.map (put k v)
      nodup := by simpa [Function.comp_def, put_key] using m.nodup }
  else
    { cells := m.cells ++ [⟨m.positions, k, v⟩]
      positions := m.positions + 1
      nodup := by
        simp only [List.map_append, List.map_cons, List.map_nil]
        exact m.nodup.append (List.nodup_singleton k) (by simpa using h) }

def delete (m : Map κ ν) (k : κ) : Map κ ν :=
  { m with
    cells := m.cells.filter (·.key ≠ k)
    nodup := m.nodup.sublist ((List.filter_sublist).map Cell.key) }

/-- `clear`, which does not reset the positions. -/
def clear (m : Map κ ν) : Map κ ν := { positions := m.positions }

/-! ### What a key is mapped to -/

variable {m : Map κ ν} {k k' : κ} {v : ν}

@[simp] theorem get_empty (k : κ) : ({} : Map κ ν).get k = none := rfl

@[simp] theorem get_clear (m : Map κ ν) (k : κ) : m.clear.get k = none := rfl

theorem get_eq_none : m.get k = none ↔ k ∉ m.keys := by
  simp [get, keys]

/-- A key is mapped to the value of its cell, and to no other. -/
theorem get_eq_some : m.get k = some v ↔ ∃ c ∈ m.cells, c.key = k ∧ c.value = v := by
  unfold get
  rw [Option.map_eq_some_iff]
  constructor
  · rintro ⟨c, hc, rfl⟩
    exact ⟨c, List.mem_of_find?_eq_some hc, by simpa using List.find?_some hc, rfl⟩
  · rintro ⟨c, hc, rfl, rfl⟩
    exact ⟨c, find?_of_nodup m.nodup hc, rfl⟩

theorem get_set_self (m : Map κ ν) (k : κ) (v : ν) : (m.set k v).get k = some v := by
  rw [get_eq_some]
  unfold set
  split
  · rename_i h
    obtain ⟨c, hc, hkey⟩ := List.mem_map.mp h
    exact ⟨put k v c, List.mem_map_of_mem hc, by rw [put_key, hkey], by simp [put, hkey]⟩
  · exact ⟨⟨m.positions, k, v⟩, by simp, rfl, rfl⟩

theorem get_set_ne (h : k' ≠ k) (v : ν) : (m.set k v).get k' = m.get k' := by
  apply Option.ext
  intro a
  rw [get_eq_some, get_eq_some]
  unfold set
  split
  · simp only [List.mem_map]
    constructor
    · rintro ⟨_, ⟨c, hc, rfl⟩, hkey, hval⟩
      rw [put_key] at hkey
      have hne : c.key ≠ k := by rw [hkey]; exact h
      exact ⟨c, hc, hkey, by simpa [put, hne] using hval⟩
    · rintro ⟨c, hc, hkey, hval⟩
      have hne : c.key ≠ k := by rw [hkey]; exact h
      exact ⟨c, ⟨c, hc, by simp [put, hne]⟩, hkey, hval⟩
  · constructor
    · rintro ⟨c, hc, hkey, hval⟩
      rcases List.mem_append.mp hc with hold | hnew
      · exact ⟨c, hold, hkey, hval⟩
      · rw [List.mem_singleton.mp hnew] at hkey
        exact absurd hkey.symm h
    · rintro ⟨c, hc, hkey, hval⟩
      exact ⟨c, List.mem_append_left _ hc, hkey, hval⟩

theorem get_set (m : Map κ ν) (k k' : κ) (v : ν) :
    (m.set k v).get k' = if k' = k then some v else m.get k' := by
  by_cases h : k' = k
  · subst h
    rw [get_set_self, if_pos rfl]
  · rw [get_set_ne h, if_neg h]

theorem get_delete (m : Map κ ν) (k k' : κ) :
    (m.delete k).get k' = if k' = k then none else m.get k' := by
  apply Option.ext
  intro a
  rw [get_eq_some]
  by_cases h : k' = k
  · simp only [delete, List.mem_filter, if_pos h, reduceCtorEq, iff_false]
    rintro ⟨c, ⟨_, hne⟩, hkey, _⟩
    rw [h] at hkey
    exact of_decide_eq_true hne hkey
  · rw [if_neg h, get_eq_some]
    constructor
    · rintro ⟨c, hc, hkey, hval⟩
      exact ⟨c, List.mem_of_mem_filter hc, hkey, hval⟩
    · rintro ⟨c, hc, hkey, hval⟩
      refine ⟨c, List.mem_filter.mpr ⟨hc, ?_⟩, hkey, hval⟩
      simpa [hkey] using h

theorem get_delete_of_some (h : (m.delete k).get k' = some v) : m.get k' = some v := by
  rw [get_delete] at h
  split at h
  · cases h
  · exact h

/-- The values of a map are those its keys are mapped to. -/
theorem mem_values : v ∈ m.values ↔ ∃ k, m.get k = some v := by
  unfold values
  simp only [List.mem_map, get_eq_some]
  constructor
  · rintro ⟨c, hc, hval⟩
    exact ⟨c.key, c, hc, rfl, hval⟩
  · rintro ⟨k, c, hc, _, hval⟩
    exact ⟨c, hc, hval⟩

/-! ### Sums over the values -/

theorem sum_map_eq_add_filter {α : Type} {key : α → κ} {g : α → Int} {l : List α}
    (hn : (l.map key).Nodup) {a : α} (ha : a ∈ l) :
    (l.map g).sum = g a + ((l.filter (key · ≠ key a)).map g).sum := by
  induction l with
  | nil => simp at ha
  | cons b l ih =>
    simp only [List.map_cons, List.nodup_cons] at hn
    rcases List.mem_cons.mp ha with rfl | hmem
    · have hrest : l.filter (key · ≠ key a) = l := by
        rw [List.filter_eq_self]
        intro c hc
        have hne : key c ≠ key a := fun heq => hn.1 (heq ▸ List.mem_map_of_mem hc)
        simpa using hne
      rw [List.filter_cons_of_neg (by simp), hrest, List.map_cons, List.sum_cons]
    · have hne : key b ≠ key a := fun heq => hn.1 (heq ▸ List.mem_map_of_mem hmem)
      have hrest := ih hn.2 hmem
      simp only [List.map_cons, List.sum_cons, hrest, hne, ne_eq, not_false_eq_true, decide_true,
        List.filter_cons_of_pos]
      omega

theorem sum_delete {f : ν → Int} (h : m.get k = some v) :
    (m.values.map f).sum = f v + ((m.delete k).values.map f).sum := by
  obtain ⟨c, hc, rfl, rfl⟩ := get_eq_some.mp h
  simpa [values, delete, List.map_map, Function.comp_def] using
    sum_map_eq_add_filter (g := fun c => f c.value) m.nodup hc

theorem cells_set_new (h : m.get k = none) (v : ν) :
    ∃ position, (m.set k v).cells = m.cells ++ [⟨position, k, v⟩] := by
  rw [get_eq_none] at h
  refine ⟨m.positions, ?_⟩
  unfold set
  rw [dif_neg (by simpa [keys] using h)]

theorem values_set_new (h : m.get k = none) (v : ν) : (m.set k v).values = m.values ++ [v] := by
  obtain ⟨position, hcells⟩ := cells_set_new h v
  simp [values, hcells]

/-- Where a key is there, setting it changes its own value only. -/
theorem cells_set_old {old : ν} (h : m.get k = some old) (v : ν) :
    (m.set k v).cells = m.cells.map (put k v) := by
  obtain ⟨c, hc, hkey, _⟩ := get_eq_some.mp h
  unfold set
  rw [dif_pos (hkey ▸ List.mem_map_of_mem hc)]

theorem map_values_set_old {β : Type} {f : ν → β} {old : ν} (h : m.get k = some old)
    (hf : f v = f old) : (m.set k v).values.map f = m.values.map f := by
  simp only [values, cells_set_old h, List.map_map]
  apply List.map_congr_left
  intro c hc
  simp only [Function.comp_apply, put]
  split
  · rename_i hkey
    have hold : m.get k = some c.value := get_eq_some.mpr ⟨c, hc, hkey, rfl⟩
    rw [h] at hold
    rw [hf, Option.some.inj hold]
  · rfl

theorem length_delete (h : m.get k = some v) :
    (m.delete k).cells.length < m.cells.length := by
  obtain ⟨c, hc, rfl, _⟩ := get_eq_some.mp h
  exact List.length_filter_lt_length_iff_exists.mpr ⟨c, hc, by simp⟩

theorem length_delete_le (m : Map κ ν) (k : κ) : (m.delete k).cells.length ≤ m.cells.length :=
  List.length_filter_le _ _

theorem mem_values_set {w : ν} (h : w ∈ (m.set k v).values) : w = v ∨ w ∈ m.values := by
  obtain ⟨k', hk'⟩ := mem_values.mp h
  rw [get_set] at hk'
  split at hk'
  · exact .inl (Option.some.inj hk').symm
  · exact .inr (mem_values.mpr ⟨k', hk'⟩)

theorem mem_values_delete {w : ν} (h : w ∈ (m.delete k).values) : w ∈ m.values := by
  obtain ⟨k', hk'⟩ := mem_values.mp h
  exact mem_values.mpr ⟨k', get_delete_of_some hk'⟩

end Map

end PaseoGateway.Js

/-
  PaseoGateway/LabelCatalog.lean
  ==============================
  **The two lists of the label catalog agree.**

  A catalog is `Consistent` when its label names are distinct, its assignments name
  existing labels only, and there is one assignment per workspace identity, without
  repetitions.  Every change of `WorkspaceLabels.lean` keeps that, from whatever
  catalog it finds, and so does the collection of assignments before it.

  A catalog is stored after a parse whose result is thrown away.  That is harmless
  because every name in it is already the trimmed one (`Canonical`): parsing such a
  catalog gives it back or refuses it (`Canonical.parse`).
-/
import PaseoGateway.WorkspaceLabels

namespace PaseoGateway.WorkspaceLabels

/-! ### Consistency -/

/-- The identity an assignment belongs to. -/
def Assignment.key (row : Assignment) : String × String := (row.workspaceId, row.workspaceUid)

structure Consistent (state : CatalogState) : Prop where
  names : (state.labels.map Label.name).Nodup
  exist : ∀ row ∈ state.assignments, ∀ l ∈ row.labels, l ∈ state.labels.map Label.name
  single : (state.assignments.map Assignment.key).Nodup
  distinct : ∀ row ∈ state.assignments, row.labels.Nodup

structure WellFormed (state : CatalogState) : Prop extends Consistent state where
  short : ∀ row ∈ state.assignments, row.labels.length ≤ 16

structure Canonical (rt : Runtime) (state : CatalogState) : Prop where
  labels : ∀ label ∈ state.labels, parseDefinition rt label = some label
  assigned : ∀ row ∈ state.assignments, ∀ l ∈ row.labels, parseName l = some l

theorem consistent_empty : Consistent {} := by
  constructor <;> simp

theorem canonical_empty (rt : Runtime) : Canonical rt {} := by
  constructor <;> simp

/-! ### Parsing -/

theorem parseName_parseName {s name : String} (h : parseName s = some name) :
    parseName name = some name := by
  unfold parseName at h
  simp only at h
  split at h
  · rename_i hok
    cases h
    simp only [parseName, Js.trim_trim]
    rw [if_pos hok]
  · cases h

theorem parseDefinition_parseDefinition {rt : Runtime} {label parsed : Label}
    (h : parseDefinition rt label = some parsed) : parseDefinition rt parsed = some parsed := by
  unfold parseDefinition at h
  split at h
  · rename_i hcolor
    obtain ⟨name, hname, rfl⟩ := Option.map_eq_some_iff.mp h
    simp [parseDefinition, hcolor, parseName_parseName hname]
  · cases h

theorem parseName_of_parseDefinition {rt : Runtime} {label : Label}
    (h : parseDefinition rt label = some label) : parseName label.name = some label.name := by
  unfold parseDefinition at h
  split at h
  · obtain ⟨name, hname, hlabel⟩ := Option.map_eq_some_iff.mp h
    rw [← hlabel]
    exact parseName_parseName hname
  · cases h

private theorem mapM_some {α : Type} {f : α → Option α} {l : List α}
    (h : ∀ a ∈ l, f a = some a) : l.mapM f = some l := by
  induction l with
  | nil => rfl
  | cons a l ih =>
    have hl := ih fun b hb => h b (List.mem_cons_of_mem a hb)
    simp [List.mapM_cons, h a List.mem_cons_self, hl]

private theorem of_mapM_isSome {α β : Type} {f : α → Option β} {l : List α}
    (h : (l.mapM f).isSome) : ∀ a ∈ l, (f a).isSome := by
  induction l with
  | nil => simp
  | cons a l ih =>
    simp only [List.mapM_cons] at h
    cases ha : f a with
    | none => simp [ha] at h
    | some b =>
      intro c hc
      rcases List.mem_cons.mp hc with rfl | hc
      · simp [ha]
      · refine ih ?_ c hc
        cases hl : l.mapM f with
        | none => simp [ha, hl] at h
        | some _ => rfl

/-- A stored catalog that parses at all parses to itself, and holds no long row. -/
theorem Canonical.parse {rt : Runtime} {state : CatalogState} (h : Canonical rt state)
    (hparse : (parseCatalog rt state).isSome) :
    parseCatalog rt state = some state ∧ ∀ row ∈ state.assignments, row.labels.length ≤ 16 := by
  have hlabels := mapM_some h.labels
  have hnames : ∀ row ∈ state.assignments, row.labels.mapM parseName = some row.labels :=
    fun row hrow => mapM_some (h.assigned row hrow)
  unfold parseCatalog at hparse ⊢
  split at hparse
  · rename_i hsize
    rw [if_pos hsize]
    simp only [hlabels, Option.bind_eq_bind, Option.bind_some] at hparse ⊢
    have hrows : (state.assignments.mapM parseAssignment).isSome := by
      cases hr : state.assignments.mapM parseAssignment with
      | none => simp [hr] at hparse
      | some _ => rfl
    have hshort : ∀ row ∈ state.assignments, row.labels.length ≤ 16 := by
      intro row hrow
      have hsome := of_mapM_isSome hrows row hrow
      unfold parseAssignment at hsome
      split at hsome
      · assumption
      · simp at hsome
    have hkeep : ∀ row ∈ state.assignments, parseAssignment row = some row := by
      intro row hrow
      simp [parseAssignment, hshort row hrow, hnames row hrow]
    rw [mapM_some hkeep]
    exact ⟨rfl, hshort⟩
  · simp at hparse

/-! ### Lists -/

private theorem nodup_eraseDups {α : Type} [BEq α] [LawfulBEq α] (l : List α) :
    l.eraseDups.Nodup := by
  generalize hn : l.length = n
  induction n using Nat.strong_induction_on generalizing l with
  | _ n ih =>
    cases l with
    | nil => simp
    | cons a l =>
      rw [List.eraseDups_cons, List.nodup_cons]
      constructor
      · simp
      · refine ih _ ?_ _ rfl
        have := List.length_filter_le (fun b => !b == a) l
        simp only [List.length_cons] at hn
        omega

private theorem map_same {α : Type} {f : α → α} {l : List α} (h : ∀ a ∈ l, f a = a) :
    l.map f = l := by
  rw [List.map_congr_left h, List.map_id']

theorem mem_replaceF {α : Type} {f : α → Option α} {l : List α} {b : α}
    (h : b ∈ l.replaceF f) : b ∈ l ∨ ∃ a ∈ l, f a = some b := by
  induction l with
  | nil => simp at h
  | cons a l ih =>
    cases ha : f a with
    | none =>
      rw [List.replaceF_cons_of_none _ ha, List.mem_cons] at h
      rcases h with rfl | h
      · exact .inl List.mem_cons_self
      · rcases ih h with h | ⟨c, hc, hfc⟩
        · exact .inl (List.mem_cons_of_mem a h)
        · exact .inr ⟨c, List.mem_cons_of_mem a hc, hfc⟩
    | some a' =>
      rw [List.replaceF_cons_of_some _ ha, List.mem_cons] at h
      rcases h with rfl | h
      · exact .inr ⟨a, List.mem_cons_self, ha⟩
      · exact .inl (List.mem_cons_of_mem a h)

private theorem map_replaceF {α β : Type} {f : α → Option α} {key : α → β} {l : List α}
    (h : ∀ a b, f a = some b → key b = key a) : (l.replaceF f).map key = l.map key := by
  induction l with
  | nil => rfl
  | cons a l ih =>
    cases ha : f a with
    | none => rw [List.replaceF_cons_of_none _ ha, List.map_cons, ih, List.map_cons]
    | some b => rw [List.replaceF_cons_of_some _ ha, List.map_cons, h a b ha, List.map_cons]

/-! ### Assigning -/

section Assign

variable {workspaceId workspaceUid name : String} {assigned : Bool} {rows : List Assignment}

theorem mem_relabel {labels : List String} {l : String} (h : l ∈ relabel name assigned labels) :
    (assigned = true ∧ l = name) ∨ l ∈ labels := by
  cases assigned with
  | true =>
    simp only [relabel, if_true, List.mem_eraseDups, List.mem_append, List.mem_singleton] at h
    rcases h with h | rfl
    · exact .inr h
    · exact .inl ⟨rfl, rfl⟩
  | false => exact .inr (List.mem_filter.mp h).1

theorem relabel_nodup {labels : List String} (h : labels.Nodup) :
    (relabel name assigned labels).Nodup := by
  cases assigned with
  | true => exact nodup_eraseDups _
  | false => exact h.filter _

/-- A row after an assignment was there before or is the one assigned. -/
theorem mem_assign {row : Assignment}
    (h : row ∈ (assign workspaceId workspaceUid name assigned rows).2)
    (hdistinct : ∀ r ∈ rows, r.labels.Nodup) :
    row ∈ rows ∨ (row.labels.Nodup ∧
      ∀ l ∈ row.labels, (assigned = true ∧ l = name) ∨ ∃ old ∈ rows, l ∈ old.labels) := by
  unfold assign at h
  simp only at h
  split at h
  · rename_i old hold
    have hmem : old ∈ rows := List.mem_of_find?_eq_some hold
    split at h
    · exact .inl (List.eraseP_subset h)
    · rcases mem_replaceF h with h | ⟨r, hr, hrow⟩
      · exact .inl h
      · simp only [Option.ite_none_right_eq_some, Option.some.injEq] at hrow
        obtain ⟨-, rfl⟩ := hrow
        refine .inr ⟨relabel_nodup (hdistinct old hmem), ?_⟩
        intro l hl
        exact (mem_relabel hl).imp id fun hold => ⟨old, hmem, hold⟩
  · split at h
    · rename_i hassigned
      rcases List.mem_append.mp h with h | h
      · exact .inl (List.mem_filter.mp h).1
      · obtain rfl := List.mem_singleton.mp h
        right
        constructor
        · simp
        · intro l hl
          exact .inl ⟨hassigned, List.mem_singleton.mp hl⟩
    · exact .inl h

theorem assign_single (h : (rows.map Assignment.key).Nodup) :
    ((assign workspaceId workspaceUid name assigned rows).2.map Assignment.key).Nodup := by
  unfold assign
  simp only
  split
  · split
    · exact h.sublist (List.eraseP_sublist.map _)
    · rw [map_replaceF]
      · exact h
      · intro a b hab
        simp only [Option.ite_none_right_eq_some, Option.some.injEq] at hab
        obtain ⟨-, rfl⟩ := hab
        rfl
  · split
    · rw [List.map_append, List.nodup_append]
      refine ⟨h.sublist (List.filter_sublist.map _), by simp, ?_⟩
      -- the rows kept are of workspaces of another name
      intro k hk k' hk'
      obtain ⟨row, hrow, rfl⟩ := List.mem_map.mp hk
      have hother := (List.mem_filter.mp hrow).2
      obtain rfl := List.mem_singleton.mp hk'
      intro heq
      have hname : row.workspaceId = workspaceId := congrArg Prod.fst heq
      simp [hname] at hother
    · exact h

end Assign

/-! ### Changes

One lemma per change: what it does to a consistent and canonical catalog. -/

/-- A change keeps the two lists in agreement. -/
def KeepsCatalog (rt : Runtime) (fn : Change) : Prop :=
  ∀ {state workspaces result state'}, Consistent state → Canonical rt state →
    fn state workspaces = .ok (result, state') → Consistent state' ∧ Canonical rt state'

theorem Consistent.collect {state : CatalogState} (h : Consistent state)
    (workspaces : List Workspace) : Consistent (collect workspaces state) := by
  constructor
  · exact h.names
  · exact fun row hrow => h.exist row (List.mem_filter.mp hrow).1
  · exact h.single.sublist (List.filter_sublist.map _)
  · exact fun row hrow => h.distinct row (List.mem_filter.mp hrow).1

theorem Canonical.collect {rt : Runtime} {state : CatalogState} (h : Canonical rt state)
    (workspaces : List Workspace) : Canonical rt (collect workspaces state) :=
  ⟨h.labels, fun row hrow => h.assigned row (List.mem_filter.mp hrow).1⟩

/-- The labels of a catalog once `label` is set or unset. -/
private theorem mem_names_of_set {labels : List Label} {label : Label} {assigned : Bool}
    {l : String}
    (h : (assigned = true ∧ l = label.name) ∨ l ∈ labels.map Label.name) :
    l ∈ (if (labels.find? fun row => row.name == label.name).isNone && assigned
      then labels ++ [label] else labels).map Label.name := by
  split
  · rw [List.map_append, List.mem_append]
    rcases h with ⟨-, rfl⟩ | h
    · exact .inr List.mem_cons_self
    · exact .inl h
  · rename_i hkept
    rcases h with ⟨hassigned, rfl⟩ | h
    · rw [hassigned, Bool.and_true, Option.isNone_iff_eq_none, List.find?_eq_none] at hkept
      push Not at hkept
      obtain ⟨row, hrow, hname⟩ := hkept
      rw [← beq_iff_eq.mp hname]
      exact List.mem_map_of_mem hrow
    · exact h

theorem setAssignment_keeps {rt : Runtime} (principal : GatewayPrincipal) (workspace : Workspace)
    (uid : String) {label : Label} (assigned : Bool) (hlabel : parseDefinition rt label = some label) :
    KeepsCatalog rt (setAssignment principal workspace uid label assigned) := by
  intro state workspaces result state' hcons hcanon hfn
  unfold setAssignment at hfn
  simp only at hfn
  split at hfn
  · cases hfn
  split at hfn
  · cases hfn
  split at hfn
  · cases hfn
  cases hfn
  have hrows : ∀ row ∈ (assign workspace.metadata.name uid label.name assigned
      state.assignments).2, row ∈ state.assignments ∨ (row.labels.Nodup ∧
        ∀ l ∈ row.labels, (assigned = true ∧ l = label.name) ∨
          ∃ old ∈ state.assignments, l ∈ old.labels) :=
    fun row hrow => mem_assign hrow hcons.distinct
  constructor
  · constructor
    · show (List.map Label.name _).Nodup
      split
      · rename_i hnew
        simp only [Bool.and_eq_true, Option.isNone_iff_eq_none, List.find?_eq_none] at hnew
        rw [List.map_append, List.nodup_append]
        refine ⟨hcons.names, by simp, ?_⟩
        intro n hn n' hn'
        obtain ⟨row, hrow, rfl⟩ := List.mem_map.mp hn
        obtain rfl := List.mem_singleton.mp hn'
        exact fun heq => hnew.1 row hrow (beq_iff_eq.mpr heq)
      · exact hcons.names
    · intro row hrow l hl
      apply mem_names_of_set
      rcases hrows row hrow with hold | ⟨-, hnew⟩
      · exact .inr (hcons.exist row hold l hl)
      · rcases hnew l hl with h | ⟨old, hold, hl'⟩
        · exact .inl h
        · exact .inr (hcons.exist old hold l hl')
    · exact assign_single hcons.single
    · intro row hrow
      rcases hrows row hrow with hold | ⟨hnodup, -⟩
      · exact hcons.distinct row hold
      · exact hnodup
  · constructor
    · intro row hrow
      simp only at hrow
      split at hrow
      · rcases List.mem_append.mp hrow with h | h
        · exact hcanon.labels row h
        · obtain rfl := List.mem_singleton.mp h
          exact hlabel
      · exact hcanon.labels row hrow
    · intro row hrow l hl
      rcases hrows row hrow with hold | ⟨-, hnew⟩
      · exact hcanon.assigned row hold l hl
      · rcases hnew l hl with ⟨-, rfl⟩ | ⟨old, hold, hl'⟩
        · exact parseName_of_parseDefinition hlabel
        · exact hcanon.assigned old hold l hl'

theorem deleteLabel_keeps {rt : Runtime} (labelName : String) :
    KeepsCatalog rt (deleteLabel labelName) := by
  intro state workspaces result state' hcons hcanon hfn
  cases hfn
  constructor
  · constructor
    · exact hcons.names.sublist (List.filter_sublist.map _)
    · intro row hrow l hl
      obtain ⟨old, hold, rfl⟩ := List.mem_map.mp hrow
      obtain ⟨hl, hne⟩ := List.mem_filter.mp hl
      obtain ⟨label, hlabel, rfl⟩ := List.mem_map.mp (hcons.exist old hold l hl)
      exact List.mem_map_of_mem (List.mem_filter.mpr ⟨hlabel, hne⟩)
    · rw [List.map_map]
      exact hcons.single
    · intro row hrow
      obtain ⟨old, hold, rfl⟩ := List.mem_map.mp hrow
      exact (hcons.distinct old hold).filter _
  · constructor
    · exact fun label hlabel => hcanon.labels label (List.mem_filter.mp hlabel).1
    · intro row hrow l hl
      obtain ⟨old, hold, rfl⟩ := List.mem_map.mp hrow
      exact hcanon.assigned old hold l (List.mem_filter.mp hl).1

/-! #### Renaming -/

def rename (current next value : String) : String := if value = current then next else value

theorem rename_of_ne {current next value : String} (h : value ≠ current) :
    rename current next value = value := if_neg h

/-- Nothing is called `next` yet, so renaming keeps different names different. -/
theorem rename_inj {current next : String} {names : List String}
    (hnext : next = current ∨ next ∉ names) {a b : String} (ha : a ∈ names) (hb : b ∈ names)
    (h : rename current next a = rename current next b) : a = b := by
  unfold rename at h
  by_cases hac : a = current
  · by_cases hbc : b = current
    · rw [hac, hbc]
    · rw [if_pos hac, if_neg hbc] at h
      subst h
      rcases hnext with hnext | hnext
      · exact absurd hnext hbc
      · exact absurd hb hnext
  · by_cases hbc : b = current
    · rw [if_neg hac, if_pos hbc] at h
      subst h
      rcases hnext with hnext | hnext
      · exact absurd hnext hac
      · exact absurd ha hnext
    · rwa [if_neg hac, if_neg hbc] at h

/-- Names are distinct, so replacing the first label of a name replaces the only one. -/
private theorem names_replaceF {labels : List Label} {current : String} {updated : Label}
    (h : (labels.map Label.name).Nodup) :
    (labels.replaceF fun row => if row.name == current then some updated else none).map Label.name
      = (labels.map Label.name).map (rename current updated.name) := by
  induction labels with
  | nil => rfl
  | cons label labels ih =>
    rw [List.map_cons, List.nodup_cons] at h
    by_cases hname : label.name = current
    · have hfound : (if label.name == current then some updated else none) = some updated := by
        simp [hname]
      rw [List.replaceF_cons_of_some _ hfound]
      have hrest : (labels.map Label.name).map (rename current updated.name)
          = labels.map Label.name := by
        apply map_same
        intro n hn
        apply rename_of_ne
        rintro rfl
        exact h.1 (hname ▸ hn)
      rw [List.map_cons, List.map_cons, List.map_cons, hrest]
      simp [rename, hname]
    · rw [List.replaceF_cons_of_none _ (by simp [hname]), List.map_cons, List.map_cons,
        List.map_cons, ih h.2, rename_of_ne hname]

theorem renamed_labels (current next : String) (row : Assignment) :
    (renamed current next row).labels = row.labels.map (rename current next) := rfl

/-- Renaming the labels of the assignments, when nothing is called `next` yet. -/
theorem Consistent.renamed {state : CatalogState} (h : Consistent state) {current next : String}
    (hnext : next = current ∨ next ∉ state.labels.map Label.name) {labels : List Label}
    (hlabels : (labels.map Label.name).Nodup)
    (hrenamed : ∀ l ∈ state.labels.map Label.name,
      (∃ row ∈ state.assignments, l ∈ row.labels) →
      rename current next l ∈ labels.map Label.name) :
    Consistent { labels, assignments := state.assignments.map (renamed current next) } := by
  constructor
  · exact hlabels
  · intro row hrow l hl
    obtain ⟨old, hold, rfl⟩ := List.mem_map.mp hrow
    rw [renamed_labels] at hl
    obtain ⟨l', hl', rfl⟩ := List.mem_map.mp hl
    exact hrenamed l' (h.exist old hold l' hl') ⟨old, hold, hl'⟩
  · rw [List.map_map]
    exact h.single
  · intro row hrow
    obtain ⟨old, hold, rfl⟩ := List.mem_map.mp hrow
    rw [renamed_labels]
    apply List.Nodup.map_on _ (h.distinct old hold)
    intro a ha b hb hab
    exact rename_inj hnext (h.exist old hold a ha) (h.exist old hold b hb) hab

theorem renamed_self (current : String) (row : Assignment) : renamed current current row = row := by
  have hid : ∀ l ∈ row.labels, rename current current l = l := by
    intro l _
    unfold rename
    split
    · rename_i h
      exact h.symm
    · rfl
  show { row with labels := row.labels.map (rename current current) } = row
  rw [map_same hid]

theorem updateLabel_keeps {rt : Runtime} {current next : String} (color : Option String)
    (hnext : parseName next = some next) : KeepsCatalog rt (updateLabel rt current next color) := by
  intro state workspaces result state' hcons hcanon hfn
  unfold updateLabel at hfn
  simp only at hfn
  split at hfn
  · cases hfn
  split at hfn
  · cases hfn
  rename_i hexists hfree
  split at hfn
  · cases hfn
  rename_i updated hparsed
  cases hfn
  -- the label written is called `next` and is a canonical one
  obtain ⟨c, -, hc⟩ := Option.bind_eq_some_iff.mp hparsed
  have hcanonical := parseDefinition_parseDefinition hc
  have hname : updated.name = next := by
    unfold parseDefinition at hc
    rw [hnext] at hc
    split at hc
    · cases hc
      rfl
    · cases hc
  have hfresh : next = current ∨ next ∉ state.labels.map Label.name := by
    by_cases heq : next = current
    · exact .inl heq
    · right
      intro hmem
      obtain ⟨row, hrow, rfl⟩ := List.mem_map.mp hmem
      exact hfree ⟨heq, List.any_eq_true.mpr ⟨row, hrow, beq_self_eq_true _⟩⟩
  have hrows : (if next ≠ current then state.assignments.map (renamed current next)
      else state.assignments) = state.assignments.map (renamed current next) := by
    split
    · rfl
    · rename_i heq
      rw [not_ne_iff] at heq
      subst heq
      exact (map_same fun row _ => renamed_self next row).symm
  rw [hrows]
  constructor
  · apply hcons.renamed hfresh
    · show (List.map Label.name _).Nodup
      split
      · rw [names_replaceF hcons.names, hname]
        apply List.Nodup.map_on _ hcons.names
        intro a ha b hb hab
        exact rename_inj hfresh ha hb hab
      · rename_i hnone
        rw [Bool.not_eq_true, Option.isSome_eq_false_iff, Option.isNone_iff_eq_none,
          List.find?_eq_none] at hnone
        rw [List.map_append, List.nodup_append]
        refine ⟨hcons.names, by simp, ?_⟩
        intro n hn n' hn'
        obtain rfl := List.mem_singleton.mp hn'
        rw [hname]
        rintro rfl
        rcases hfresh with rfl | hfresh
        · obtain ⟨row, hrow, hrow'⟩ := List.mem_map.mp hn
          exact hnone row hrow (beq_iff_eq.mpr hrow')
        · exact hfresh hn
    · intro l hl _
      split
      · rw [names_replaceF hcons.names, hname]
        exact List.mem_map_of_mem hl
      · -- a label that does not exist is assigned to no workspace
        rename_i hnone
        rw [Bool.not_eq_true, Option.isSome_eq_false_iff, Option.isNone_iff_eq_none,
          List.find?_eq_none] at hnone
        have hne : l ≠ current := by
          rintro rfl
          obtain ⟨row, hrow, hrow'⟩ := List.mem_map.mp hl
          exact hnone row hrow (beq_iff_eq.mpr hrow')
        rw [rename_of_ne hne, List.map_append, List.mem_append]
        exact .inl hl
  · constructor
    · intro label hlabel
      simp only at hlabel
      split at hlabel
      · rcases mem_replaceF hlabel with hold | ⟨row, hrow, hupdated⟩
        · exact hcanon.labels label hold
        · simp only [Option.ite_none_right_eq_some, Option.some.injEq] at hupdated
          obtain ⟨-, rfl⟩ := hupdated
          exact hcanonical
      · rcases List.mem_append.mp hlabel with hold | hnew
        · exact hcanon.labels label hold
        · obtain rfl := List.mem_singleton.mp hnew
          exact hcanonical
    · intro row hrow l hl
      obtain ⟨old, hold, rfl⟩ := List.mem_map.mp hrow
      rw [renamed_labels] at hl
      obtain ⟨l', hl', rfl⟩ := List.mem_map.mp hl
      unfold rename
      split
      · exact hnext
      · exact hcanon.assigned old hold l' hl'

/-! ### One attempt -/

theorem evaluate_ok {rt : Runtime} {fn : Change} {workspaces : List Workspace}
    {state state' : CatalogState} {result : Outcome}
    (h : evaluate rt fn workspaces state = .ok (result, state')) :
    fn (collect workspaces state) workspaces = .ok (result, state') ∧
      (parseCatalog rt state').isSome := by
  unfold evaluate at h
  cases hrun : fn (collect workspaces state) workspaces with
  | error e =>
    rw [hrun] at h
    cases h
  | ok out =>
    rw [hrun] at h
    simp only [bind, Except.bind] at h
    split at h
    · cases h
    · rename_i hparse
      split at h
      · cases h
      · cases h
        refine ⟨rfl, ?_⟩
        simpa [Option.isSome_iff_ne_none] using hparse

/-- What is written is well formed when what was read is, and is read back as it is. -/
theorem evaluate_keeps {rt : Runtime} {fn : Change} (hfn : KeepsCatalog rt fn)
    {workspaces : List Workspace} {state state' : CatalogState} {result : Outcome}
    (hcons : Consistent state) (hcanon : Canonical rt state)
    (h : evaluate rt fn workspaces state = .ok (result, state')) :
    WellFormed state' ∧ Canonical rt state' ∧ parseCatalog rt state' = some state' := by
  obtain ⟨hrun, hsome⟩ := evaluate_ok h
  obtain ⟨hcons', hcanon'⟩ := hfn (hcons.collect workspaces) (hcanon.collect workspaces) hrun
  obtain ⟨hparse, hshort⟩ := hcanon'.parse hsome
  exact ⟨⟨hcons', hshort⟩, hcanon', hparse⟩

/-! ### What a workspace reads -/

/-- A label read for a workspace was assigned to its name and its UID. -/
theorem mem_labelsFor {state : CatalogState} {workspace : Workspace} {l : String}
    (h : l ∈ labelsFor state workspace) :
    ∃ row ∈ state.assignments, row.workspaceId = workspace.metadata.name ∧
      some row.workspaceUid = workspace.metadata.uid ∧ l ∈ row.labels := by
  unfold labelsFor at h
  cases hfind : state.assignments.find? (isOf workspace) with
  | none =>
    rw [hfind] at h
    simp at h
  | some row =>
    rw [hfind] at h
    have hof := List.find?_some hfind
    simp only [isOf, Bool.and_eq_true, beq_iff_eq] at hof
    exact ⟨row, List.mem_of_find?_eq_some hfind, hof.1, hof.2, h⟩

end PaseoGateway.WorkspaceLabels

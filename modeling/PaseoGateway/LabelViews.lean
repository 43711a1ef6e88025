/-
  PaseoGateway/LabelViews.lean
  ============================
  **What the subscribers of the label catalog see.**

  A client folds the list response and the updates it is sent into a `View`.
  `viewOf` is that fold over the whole history, for one emitter of one process and
  one subscription id.  The updates that a publication emits turn a view that shows
  `seen` into one that shows `current` (`receive_updates`): each of them states a
  fact about `current`, and together they cover every name on which the two differ.
-/
import PaseoGateway.WorkspaceLabels

namespace PaseoGateway.WorkspaceLabels

open Async

variable {emitter p : Nat} {subscriptionId : String}

/-! ### Views -/

/-- The colour of each label a client knows. -/
abbrev View := String → Option String

def shown (map : List (String × String)) : View := fun name => map.lookup name

/-- The emitter and the subscription that a message is about. -/
def Note.address : Note → Option (Nat × String)
  | .reply emitter _ (.list _ (some subscriptionId) _) => some (emitter, subscriptionId)
  | .upsert emitter subscriptionId _ _ _ => some (emitter, subscriptionId)
  | .remove emitter subscriptionId _ _ _ => some (emitter, subscriptionId)
  | _ => none

def Note.effect (view : View) : Note → View
  | .reply _ _ (.list labels _ _) => shown (toMap labels)
  | .upsert _ _ label _ _ => Function.update view label.name (some label.color)
  | .remove _ _ name _ _ => Function.update view name none
  | _ => view

def receive (emitter : Nat) (subscriptionId : String) (note : Note) (view : View) : View :=
  if note.address = some (emitter, subscriptionId) then note.effect view else view

/-- The view of a subscription after everything process `p` has emitted. -/
def viewOf (p emitter : Nat) (subscriptionId : String) : History → View
  | [] => fun _ => none
  | .note (some t) note :: older =>
    if t.proc = p then receive emitter subscriptionId note (viewOf p emitter subscriptionId older)
    else viewOf p emitter subscriptionId older
  | _ :: older => viewOf p emitter subscriptionId older

theorem viewOf_notes {t : Tid} (ht : t.proc = p) (notes : List Note) (tr : History) :
    viewOf p emitter subscriptionId (notes.map (.note (some t)) ++ tr) =
      notes.foldr (receive emitter subscriptionId) (viewOf p emitter subscriptionId tr) := by
  induction notes with
  | nil => rfl
  | cons note notes ih => simp [viewOf, ht, ih]

theorem viewOf_notes_ne {t : Tid} (ht : t.proc ≠ p) (notes : List Note) (tr : History) :
    viewOf p emitter subscriptionId (notes.map (.note (some t)) ++ tr) =
      viewOf p emitter subscriptionId tr := by
  induction notes with
  | nil => rfl
  | cons note notes ih => simp [viewOf, ht, ih]

theorem viewOf_keyed {e : Entry Key (fun _ => CatalogState) Note} (h : e.key? ≠ none) (tr : History) :
    viewOf p emitter subscriptionId (e :: tr) = viewOf p emitter subscriptionId tr := by
  cases e with
  | note a n => exact absurd rfl h
  | create a k v => rfl
  | update a k v => rfl
  | delete a k => rfl

/-- Messages to others leave the view as it is. -/
theorem foldr_receive_ne {notes : List Note} (view : View)
    (h : ∀ n ∈ notes, n.address ≠ some (emitter, subscriptionId)) :
    notes.foldr (receive emitter subscriptionId) view = view := by
  induction notes with
  | nil => rfl
  | cons n notes ih =>
    have htail := ih fun n' hn' => h n' (List.mem_cons_of_mem _ hn')
    simp [receive, h n List.mem_cons_self, htail]

/-! ### The updates of one publication -/

/-- The update states a fact about the map. -/
def Note.Tells (map : List (String × String)) : Note → Prop
  | .upsert _ _ label _ _ => map.lookup label.name = some label.color
  | .remove _ _ name _ _ => map.lookup name = none
  | _ => False

/-- The label an update is about. -/
def Note.label? : Note → Option String
  | .upsert _ _ label _ _ => some label.name
  | .remove _ _ name _ _ => some name
  | _ => none

theorem Note.Tells.effect {map : List (String × String)} {n : Note} (h : n.Tells map) (view : View)
    (name : String) :
    n.effect view name = if n.label? = some name then map.lookup name else view name := by
  cases n with
  | upsert emitter subscriptionId label generation seq =>
    by_cases hname : label.name = name
    · subst hname
      simp only [Note.effect, Note.label?, Function.update_self, if_true]
      exact h.symm
    · simp [Note.effect, Note.label?, hname, Function.update_of_ne (Ne.symm hname)]
  | remove emitter subscriptionId gone generation seq =>
    by_cases hname : gone = name
    · subst hname
      simp only [Note.effect, Note.label?, Function.update_self, if_true]
      exact h.symm
    · simp [Note.effect, Note.label?, hname, Function.update_of_ne (Ne.symm hname)]
  | reply emitter requestId reply => exact h.elim
  | workspaces workspaces => exact h.elim
  | clock nowSeconds => exact h.elim

/-- Updates that state facts about a map, and between them cover every name on which
    the view differs, make the view show the map; their order does not matter. -/
theorem foldr_tells {map : List (String × String)} {notes : List Note} {view : View} {name : String}
    (htell : ∀ n ∈ notes, n.address = some (emitter, subscriptionId) ∧ n.Tells map)
    (hcover : view name = map.lookup name ∨ ∃ n ∈ notes, n.label? = some name) :
    notes.foldr (receive emitter subscriptionId) view name = map.lookup name := by
  induction notes with
  | nil =>
    rcases hcover with h | ⟨n, hn, -⟩
    · exact h
    · cases hn
  | cons n notes ih =>
    obtain ⟨haddress, htells⟩ := htell n List.mem_cons_self
    rw [List.foldr_cons, receive, if_pos haddress, htells.effect]
    by_cases hname : n.label? = some name
    · rw [if_pos hname]
    · rw [if_neg hname]
      apply ih fun n' hn' => htell n' (List.mem_cons_of_mem _ hn')
      rcases hcover with h | ⟨n', hn', hlabel⟩
      · exact .inl h
      · rcases List.mem_cons.mp hn' with rfl | hmem
        · exact absurd hlabel hname
        · exact .inr ⟨n', hmem, hlabel⟩

/-! #### Maps from names to colours -/

theorem mem_of_lookup {map : List (String × String)} {name color : String}
    (h : map.lookup name = some color) : (name, color) ∈ map := by
  obtain ⟨newer, older, rfl, -⟩ := List.lookup_eq_some_iff.mp h
  simp

theorem lookup_of_mem {map : List (String × String)} (hmap : (map.map Prod.fst).Nodup)
    {name color : String} (h : (name, color) ∈ map) : map.lookup name = some color := by
  induction map with
  | nil => cases h
  | cons entry map ih =>
    obtain ⟨name', color'⟩ := entry
    rw [List.map_cons, List.nodup_cons] at hmap
    rcases List.mem_cons.mp h with heq | hmem
    · cases heq
      simp
    · have hne : name ≠ name' := by
        rintro rfl
        exact hmap.1 (List.mem_map.mpr ⟨_, hmem, rfl⟩)
      rw [List.lookup_cons, beq_false_of_ne hne]
      exact ih hmap.2 hmem

theorem toMap_nodup (labels : List Label) : ((toMap labels).map Prod.fst).Nodup := by
  -- the fold keeps the names of its accumulator apart
  have hfold : ∀ (labels : List Label) (map : List (String × String)), (map.map Prod.fst).Nodup →
      ((labels.foldl (fun map label =>
        if map.any (·.1 == label.name) then
          map.map fun entry => if entry.1 = label.name then (entry.1, label.color) else entry
        else map ++ [(label.name, label.color)]) map).map Prod.fst).Nodup := by
    intro labels
    induction labels with
    | nil => exact fun _ h => h
    | cons label labels ih =>
      intro map hmap
      apply ih
      change (List.map Prod.fst (if _ then _ else _)).Nodup
      split
      · have hnames : (map.map fun entry =>
            if entry.1 = label.name then (entry.1, label.color) else entry).map Prod.fst =
              map.map Prod.fst := by
          rw [List.map_map]
          apply List.map_congr_left
          intro entry _
          simp only [Function.comp]
          split <;> rfl
        rw [hnames]
        exact hmap
      · rename_i hany
        rw [List.map_append, List.nodup_append]
        refine ⟨hmap, by simp, ?_⟩
        rintro name hname name' hname' rfl
        obtain ⟨entry, hentry, rfl⟩ := List.mem_map.mp hname
        apply hany
        rw [List.any_eq_true]
        exact ⟨entry, hentry, by simpa using hname'⟩
  exact hfold labels [] List.nodup_nil

/-! #### The updates -/

theorem updates_tells {generation : String} {sequence : Nat} {seen current : List (String × String)}
    (hcurrent : (current.map Prod.fst).Nodup) :
    ∀ n ∈ updates emitter subscriptionId generation sequence seen current,
      n.address = some (emitter, subscriptionId) ∧ n.Tells current := by
  intro n hn
  rcases List.mem_append.mp hn with hupsert | hremove
  · obtain ⟨i, hi, rfl⟩ := List.mem_mapIdx.mp hupsert
    refine ⟨rfl, lookup_of_mem hcurrent ?_⟩
    exact (List.mem_filter.mp (List.getElem_mem hi)).1
  · obtain ⟨i, hi, rfl⟩ := List.mem_mapIdx.mp hremove
    refine ⟨rfl, ?_⟩
    have hgone := (List.mem_filter.mp (List.getElem_mem hi)).2
    change current.lookup _ = none
    rw [List.lookup_eq_none_iff]
    intro entry hentry
    simp only [Bool.not_eq_true', List.any_eq_false, beq_iff_eq] at hgone
    exact bne_iff_ne.mpr (Ne.symm (hgone entry hentry))

theorem updates_cover {generation : String} {sequence : Nat} {seen current : List (String × String)}
    (name : String) : seen.lookup name = current.lookup name ∨
      ∃ n ∈ updates emitter subscriptionId generation sequence seen current,
        n.label? = some name := by
  by_cases hsame : seen.lookup name = current.lookup name
  · exact .inl hsame
  right
  cases hcurrent : current.lookup name with
  | some color =>
    have hmem : (name, color) ∈ current.filter fun entry => seen.lookup entry.1 != some entry.2 := by
      rw [hcurrent] at hsame
      simp [mem_of_lookup hcurrent, hsame]
    obtain ⟨i, hi, heq⟩ := List.mem_iff_getElem.mp hmem
    refine ⟨_, List.mem_append_left _ (List.mem_mapIdx.mpr ⟨i, hi, rfl⟩), ?_⟩
    simp [Note.label?, heq]
  | none =>
    rw [hcurrent] at hsame
    obtain ⟨color, hseen⟩ := Option.ne_none_iff_exists'.mp hsame
    have hmem : (name, color) ∈ seen.filter fun entry => !current.any (·.1 == entry.1) := by
      rw [List.lookup_eq_none_iff] at hcurrent
      simp only [List.mem_filter, mem_of_lookup hseen, true_and, Bool.not_eq_true',
        List.any_eq_false, beq_iff_eq]
      intro entry hentry
      exact Ne.symm (bne_iff_ne.mp (hcurrent entry hentry))
    obtain ⟨i, hi, heq⟩ := List.mem_iff_getElem.mp hmem
    refine ⟨_, List.mem_append_right _ (List.mem_mapIdx.mpr ⟨i, hi, rfl⟩), ?_⟩
    simp [Note.label?, heq]

/-- A publication brings a view that shows what was sent before up to date. -/
theorem receive_updates {generation : String} {sequence : Nat} {seen : List (String × String)}
    {labels : List Label} {view : View} (hview : view = shown seen) :
    (updates emitter subscriptionId generation sequence seen (toMap labels)).reverse.foldr
      (receive emitter subscriptionId) view = shown (toMap labels) := by
  subst hview
  funext name
  apply foldr_tells
  · intro n hn
    exact updates_tells (toMap_nodup labels) n (List.mem_reverse.mp hn)
  · have hcover := @updates_cover emitter subscriptionId generation sequence seen (toMap labels) name
    rcases hcover with h | ⟨n, hn, hlabel⟩
    · exact .inl h
    · exact .inr ⟨n, List.mem_reverse.mpr hn, hlabel⟩

end PaseoGateway.WorkspaceLabels

/-
  PaseoGateway/LabelSubscriptions.lean
  ====================================
  **Subscriptions that follow the label catalog.**

  A live subscription `Follows` the history when its client sees what it has in
  `seen`, when that was visible in the version of the catalog it was last served
  from, and when no publication that has gone past its place had a newer version.

  The steps of the code keep this up (`Followed.keep`, `Followed.finish`) except two,
  which need what the log of servings can tell: a list response must not install an
  older version than a publication has already carried past its place
  (`Followed.install`), and a publication must not serve an older version than the
  entry was served before, nor an entry whose client has subscribed again
  (`Followed.deliver`).

  What makes it go through while other threads run is the shape of the map
  (`Mem.Ordered`) and what it keeps as it changes (`Mem.Onward`).
-/
import PaseoGateway.LabelViews
import PaseoGateway.WorkspaceLabelsSafety

namespace PaseoGateway.WorkspaceLabels

open Async

variable {emitter p : Nat} {subscriptionId : String}

/-! ### The subscription map

What other threads of the process may do to it between two steps of one: a place
in the map keeps its id and its emitter, an object never gets a second place, and
new entries come last. -/

structure Slot.Precedes (a b : Slot) : Prop where
  position : a.position < b.position
  id : a.subscriptionId ≠ b.subscriptionId
  object : a.object ≠ b.object

namespace Mem

variable {mem mem' mem'' : Mem}

structure Ordered (mem : Mem) : Prop where
  slots : mem.subscriptions.Pairwise Slot.Precedes
  positions : ∀ slot ∈ mem.subscriptions, slot.position < mem.positions
  objects : ∀ slot ∈ mem.subscriptions, slot.object < mem.objects.length

theorem Ordered.fresh : Ordered {} where
  slots := List.Pairwise.nil
  positions := by
    intro slot hslot
    cases hslot
  objects := by
    intro slot hslot
    cases hslot

/-- Whom an object belongs to. -/
def owner (mem : Mem) (object : Nat) : Option (GatewayPrincipal × Nat) :=
  mem.objects[object]?.map fun subscription => (subscription.principal, subscription.emitter)

/-- Two objects of one emitter. -/
def Alike (mem : Mem) (object object' : Nat) : Prop :=
  ∃ principal principal' emitter, mem.owner object = some (principal, emitter) ∧
    mem.owner object' = some (principal', emitter)

structure Onward (mem mem' : Mem) : Prop where
  positions : mem.positions ≤ mem'.positions
  size : mem.objects.length ≤ mem'.objects.length
  passed : ∀ pass ∈ mem.passed, pass ∈ mem'.passed
  finished : ∀ version ∈ mem.finished, version ∈ mem'.finished
  servings : ∀ serving ∈ mem.servings, serving ∈ mem'.servings
  owner : ∀ object o, mem.owner object = some o → mem'.owner object = some o
  slots : ∀ slot ∈ mem'.subscriptions, slot ∈ mem.subscriptions ∨
    (mem.objects.length ≤ slot.object ∧ (mem.positions ≤ slot.position ∨
      ∃ old ∈ mem.subscriptions, old.position = slot.position ∧
        old.subscriptionId = slot.subscriptionId ∧ mem'.Alike old.object slot.object))

theorem Onward.refl (mem : Mem) : mem.Onward mem :=
  ⟨Nat.le_refl _, Nat.le_refl _, fun _ h => h, fun _ h => h, fun _ h => h, fun _ _ h => h,
    fun _ h => .inl h⟩

theorem Onward.alike (h : mem.Onward mem') {object object' : Nat} (ha : mem.Alike object object') :
    mem'.Alike object object' := by
  obtain ⟨principal, principal', emitter, ho, ho'⟩ := ha
  exact ⟨principal, principal', emitter, h.owner _ _ ho, h.owner _ _ ho'⟩

theorem Alike.trans {object object' object'' : Nat} (h : mem.Alike object object')
    (h' : mem.Alike object' object'') : mem.Alike object object'' := by
  obtain ⟨principal, _, emitter, ho, ho'⟩ := h
  obtain ⟨_, principal'', emitter', hp, hp'⟩ := h'
  rw [ho', Option.some.injEq, Prod.mk.injEq] at hp
  obtain ⟨-, rfl⟩ := hp
  exact ⟨principal, principal'', emitter, ho, hp'⟩

theorem Onward.trans (h : mem.Onward mem') (h' : mem'.Onward mem'') : mem.Onward mem'' := by
  refine ⟨h.positions.trans h'.positions, h.size.trans h'.size,
    fun pass hp => h'.passed pass (h.passed pass hp),
    fun version hv => h'.finished version (h.finished version hv),
    fun serving hs => h'.servings serving (h.servings serving hs),
    fun object o ho => h'.owner object o (h.owner object o ho), ?_⟩
  intro slot hslot
  rcases h'.slots slot hslot with hold | ⟨hobject, hplace⟩
  · rcases h.slots slot hold with hold | ⟨hobject, hnew | ⟨old, hmem, hpos, hid, halike⟩⟩
    · exact .inl hold
    · exact .inr ⟨hobject, .inl hnew⟩
    · exact .inr ⟨hobject, .inr ⟨old, hmem, hpos, hid, h'.alike halike⟩⟩
  · refine .inr ⟨h.size.trans hobject, ?_⟩
    rcases hplace with hnew | ⟨old', hmem', hpos', hid', halike'⟩
    · exact .inl (h.positions.trans hnew)
    · rcases h.slots old' hmem' with hold | ⟨-, hnew | ⟨old, hmem, hpos, hid, halike⟩⟩
      · exact .inr ⟨old', hold, hpos', hid', halike'⟩
      · exact .inl (hpos' ▸ hnew)
      · exact .inr ⟨old, hmem, hpos.trans hpos', hid.trans hid', (h'.alike halike).trans halike'⟩

/-! #### Its operations -/

theorem Ordered.filter (h : mem.Ordered) (keep : Slot → Bool) :
    Ordered { mem with subscriptions := mem.subscriptions.filter keep } :=
  ⟨h.slots.filter keep, fun slot hs => h.positions slot (List.mem_filter.mp hs).1,
    fun slot hs => h.objects slot (List.mem_filter.mp hs).1⟩

theorem Onward.filter (mem : Mem) (keep : Slot → Bool) :
    mem.Onward { mem with subscriptions := mem.subscriptions.filter keep } :=
  ⟨Nat.le_refl _, Nat.le_refl _, fun _ h => h, fun _ h => h, fun _ h => h, fun _ _ h => h,
    fun _ h => .inl (List.mem_filter.mp h).1⟩

theorem mem_of_find {slot : Slot} (h : mem.find subscriptionId = some slot) :
    slot ∈ mem.subscriptions ∧ slot.subscriptionId = subscriptionId := by
  unfold Mem.find at h
  have hid := List.find?_some h
  exact ⟨List.mem_of_find?_eq_some h, by simpa using hid⟩

/-- The slots after `set`: those of other ids, and one of this id that has the new object
    and either the old place or a new one. -/
theorem mem_set {subscription : Subscription} {slot : Slot}
    (h : slot ∈ (mem.set subscriptionId subscription).subscriptions) :
    (slot ∈ mem.subscriptions ∧ slot.subscriptionId ≠ subscriptionId) ∨
      (slot.subscriptionId = subscriptionId ∧ slot.object = mem.objects.length ∧
        ((mem.find subscriptionId = none ∧ slot.position = mem.positions) ∨
          ∃ old ∈ mem.subscriptions, old.subscriptionId = subscriptionId ∧
            old.position = slot.position)) := by
  simp only [set] at h
  split at h
  · obtain ⟨old, hold, rfl⟩ := List.mem_map.mp h
    by_cases hid : old.subscriptionId = subscriptionId
    · rw [if_pos hid]
      exact .inr ⟨hid, rfl, .inr ⟨old, hold, hid, rfl⟩⟩
    · rw [if_neg hid]
      exact .inl ⟨hold, hid⟩
  · rename_i hfind
    rw [Bool.not_eq_true, Option.isSome_eq_false_iff, Option.isNone_iff_eq_none] at hfind
    rcases List.mem_append.mp h with hold | hnew
    · refine .inl ⟨hold, fun hid => ?_⟩
      have := List.find?_eq_none.mp hfind slot hold
      simp [hid] at this
    · obtain rfl := List.mem_singleton.mp hnew
      exact .inr ⟨rfl, rfl, .inl ⟨hfind, rfl⟩⟩

theorem owner_set (mem : Mem) (subscriptionId : String) (subscription : Subscription) (object : Nat) :
    (mem.set subscriptionId subscription).owner object =
      if object = mem.objects.length then some (subscription.principal, subscription.emitter)
      else mem.owner object := by
  simp only [owner, set, List.getElem?_append]
  by_cases hlt : object < mem.objects.length
  · rw [if_pos hlt, if_neg (Nat.ne_of_lt hlt)]
  · rw [if_neg hlt]
    by_cases heq : object = mem.objects.length
    · simp [heq]
    · rw [if_neg heq, List.getElem?_eq_none (by simp only [List.length_singleton]; omega),
        List.getElem?_eq_none (by omega)]

theorem Ordered.set (h : mem.Ordered) (subscriptionId : String) (subscription : Subscription) :
    (mem.set subscriptionId subscription).Ordered := by
  constructor
  · simp only [Mem.set]
    split
    · rw [List.pairwise_map]
      refine h.slots.imp_of_mem ?_
      intro a b ha hb hab
      have hat := h.objects a ha
      have hbt := h.objects b hb
      by_cases hid : a.subscriptionId = subscriptionId
      · have hid' : b.subscriptionId ≠ subscriptionId := fun hb' => hab.id (hid.trans hb'.symm)
        rw [if_pos hid, if_neg hid']
        exact ⟨hab.position, hab.id, by simp only; omega⟩
      · rw [if_neg hid]
        by_cases hid' : b.subscriptionId = subscriptionId
        · rw [if_pos hid']
          exact ⟨hab.position, hab.id, by simp only; omega⟩
        · rw [if_neg hid']
          exact hab
    · rename_i hfind
      rw [List.pairwise_append]
      refine ⟨h.slots, List.pairwise_singleton _ _, ?_⟩
      intro a ha b hb
      obtain rfl := List.mem_singleton.mp hb
      refine ⟨h.positions a ha, ?_, Nat.ne_of_lt (h.objects a ha)⟩
      simp only [Option.isSome_iff_exists, not_exists] at hfind
      intro hid
      have hnone := List.find?_eq_none.mp (Option.eq_none_iff_forall_ne_some.mpr hfind) a ha
      simp [hid] at hnone
  · intro slot hslot
    change slot.position < mem.positions + 1
    rcases mem_set hslot with ⟨hold, -⟩ | ⟨-, -, ⟨-, hpos⟩ | ⟨old, hold, -, hpos⟩⟩
    · have := h.positions slot hold
      omega
    · omega
    · have := h.positions old hold
      omega
  · intro slot hslot
    simp only [Mem.set, List.length_append, List.length_singleton]
    rcases mem_set hslot with ⟨hold, -⟩ | ⟨-, hobject, -⟩
    · have := h.objects slot hold
      omega
    · omega

theorem Ordered.compare (h : mem.Ordered) {a b : Slot} (ha : a ∈ mem.subscriptions)
    (hb : b ∈ mem.subscriptions) : a = b ∨ a.Precedes b ∨ b.Precedes a := by
  have hsymm : Std.Symm fun a b : Slot => a.Precedes b ∨ b.Precedes a := ⟨fun _ _ => Or.symm⟩
  have hpair : mem.subscriptions.Pairwise fun a b => a.Precedes b ∨ b.Precedes a :=
    h.slots.imp fun hab => .inl hab
  by_cases heq : a = b
  · exact .inl heq
  · exact .inr (hpair.forall ha hb heq)

theorem Ordered.find (h : mem.Ordered) {slot : Slot} (hslot : slot ∈ mem.subscriptions) :
    mem.find slot.subscriptionId = some slot := by
  cases hfind : mem.find slot.subscriptionId with
  | none =>
    have hnone := List.find?_eq_none.mp hfind slot hslot
    simp at hnone
  | some found =>
    obtain ⟨hmem, hid⟩ := mem_of_find hfind
    rcases h.compare hmem hslot with rfl | hlt | hlt
    · rfl
    · exact absurd hid hlt.id
    · exact absurd hid.symm hlt.id

/-- An object keeps its owner when it is served. -/
theorem owner_serve {objects : List Subscription} {object : Nat} {subscription : Subscription}
    (hobject : objects[object]? = some subscription) (seen : List (String × String)) (version i : Nat) :
    ((objects.set object { subscription with seen, version })[i]?.map fun s =>
      (s.principal, s.emitter)) = objects[i]?.map fun s => (s.principal, s.emitter) := by
  rw [List.getElem?_set]
  by_cases hi : object = i
  · subst hi
    have hlt := (List.getElem?_eq_some_iff.mp hobject).1
    rw [if_pos rfl, if_pos hlt, hobject]
    rfl
  · rw [if_neg hi]

/-- `set` gives a place that is taken to an object of the same emitter. -/
theorem Onward.set (h : mem.Ordered) {subscription : Subscription}
    (hrefused : subscribeRefusal mem subscription.emitter subscriptionId = none) :
    mem.Onward (mem.set subscriptionId subscription) := by
  refine ⟨Nat.le_succ _, by simp [Mem.set], fun _ h => h, fun _ h => h, fun _ h => h, ?_, ?_⟩
  · intro object o ho
    rw [owner_set]
    by_cases heq : object = mem.objects.length
    · rw [Mem.owner, heq, List.getElem?_eq_none (Nat.le_refl _)] at ho
      cases ho
    · rw [if_neg heq]
      exact ho
  · intro slot hslot
    rcases mem_set hslot with ⟨hold, -⟩ | ⟨hid, hobject, hplace⟩
    · exact .inl hold
    refine .inr ⟨Nat.le_of_eq hobject.symm, ?_⟩
    rcases hplace with ⟨-, hpos⟩ | ⟨old, hold, hold', hpos⟩
    · exact .inl (Nat.le_of_eq hpos.symm)
    refine .inr ⟨old, hold, hpos, hold'.trans hid.symm, ?_⟩
    -- the session that holds the id is the one that asks for it
    have hlt := h.objects old hold
    obtain ⟨holder, hholder⟩ : ∃ holder, mem.objects[old.object]? = some holder :=
      ⟨_, List.getElem?_eq_getElem hlt⟩
    have hemitter : holder.emitter = subscription.emitter := by
      have hfind := h.find hold
      rw [hold'] at hfind
      unfold subscribeRefusal Mem.get at hrefused
      simp only [hfind, Option.bind_some, hholder, Option.any_some] at hrefused
      split at hrefused
      · cases hrefused
      · split at hrefused
        · cases hrefused
        · rename_i hsame
          simpa using hsame
    refine ⟨holder.principal, subscription.principal, subscription.emitter, ?_, ?_⟩
    · rw [owner_set, if_neg (Nat.ne_of_lt hlt), Mem.owner, hholder, ← hemitter]
      rfl
    · rw [owner_set, if_pos hobject]

/-- The visit of a loop that has asked for the entries from a position on, until it serves
    the entry: where its place and its object can be by then. -/
structure Visiting (mem : Mem) (visit : Visit) (position : Nat) : Prop where
  below : visit.position < mem.positions
  size : visit.object < mem.objects.length
  owner : ∃ emitter, mem.owner visit.object = some (visit.principal, emitter)
  between : ∀ slot ∈ mem.subscriptions, slot.position < visit.position → slot.position < position
  place : ∀ slot ∈ mem.subscriptions, slot.position = visit.position →
    slot.subscriptionId = visit.subscriptionId ∧ mem.Alike visit.object slot.object
  object : ∀ slot ∈ mem.subscriptions, slot.object = visit.object →
    slot.position = visit.position ∧ slot.subscriptionId = visit.subscriptionId

theorem Visiting.onward {visit : Visit} {position : Nat} (h : mem.Visiting visit position)
    (ho : mem.Onward mem') : mem'.Visiting visit position := by
  obtain ⟨emitter, howner⟩ := h.owner
  refine ⟨Nat.lt_of_lt_of_le h.below ho.positions, Nat.lt_of_lt_of_le h.size ho.size,
    ⟨emitter, ho.owner _ _ howner⟩, ?_, ?_, ?_⟩
  · intro slot hslot hlt
    rcases ho.slots slot hslot with hold | ⟨-, hnew | ⟨old, hold, hpos, -, -⟩⟩
    · exact h.between slot hold hlt
    · have := h.below
      omega
    · rw [← hpos] at hlt ⊢
      exact h.between old hold hlt
  · intro slot hslot heq
    rcases ho.slots slot hslot with hold | ⟨-, hnew | ⟨old, hold, hpos, hid, halike⟩⟩
    · obtain ⟨hid, halike⟩ := h.place slot hold heq
      exact ⟨hid, ho.alike halike⟩
    · have := h.below
      omega
    · obtain ⟨hid', halike'⟩ := h.place old hold (hpos.trans heq)
      exact ⟨hid.symm.trans hid', (ho.alike halike').trans halike⟩
  · intro slot hslot heq
    rcases ho.slots slot hslot with hold | ⟨hobject, -⟩
    · exact h.object slot hold heq
    · have := h.size
      omega

/-- The entry that a loop finds next. -/
theorem Ordered.visiting (h : mem.Ordered) {position : Nat} {visit : Visit}
    (hvisit : mem.visit position = some visit) : mem.Visiting visit position := by
  unfold Mem.visit at hvisit
  obtain ⟨slot, hfind, hmap⟩ := Option.bind_eq_some_iff.mp hvisit
  obtain ⟨subscription, hobject, rfl⟩ := Option.map_eq_some_iff.mp hmap
  have hslot := List.mem_of_find?_eq_some hfind
  have howner : mem.owner slot.object = some (subscription.principal, subscription.emitter) := by
    rw [Mem.owner, hobject]
    rfl
  refine ⟨h.positions slot hslot, h.objects slot hslot, ⟨_, howner⟩, ?_, ?_, ?_⟩
  · intro other hother hlt
    obtain ⟨-, before, after, hsubs, hbefore⟩ := List.find?_eq_some_iff_append.mp hfind
    rw [hsubs] at hother
    rcases List.mem_append.mp hother with hfirst | hlater
    · simpa using hbefore other hfirst
    · have hsorted := h.slots
      rw [hsubs] at hsorted
      rcases List.mem_cons.mp hlater with rfl | hlast
      · simp only at hlt
        omega
      · have := ((List.pairwise_cons.mp (List.pairwise_append.mp hsorted).2.1).1 other hlast).position
        simp only at hlt
        omega
  · intro other hother heq
    simp only at heq ⊢
    rcases h.compare hother hslot with rfl | hlt | hlt
    · exact ⟨rfl, _, _, _, howner, howner⟩
    · have := hlt.position
      omega
    · have := hlt.position
      omega
  · intro other hother heq
    simp only at heq ⊢
    rcases h.compare hother hslot with rfl | hlt | hlt
    · exact ⟨rfl, rfl⟩
    · exact absurd heq hlt.object
    · exact absurd heq.symm hlt.object

/-- When a loop finds no further entry, all of them lie before. -/
theorem Ordered.passed_all (h : mem.Ordered) {position : Nat} (hvisit : mem.visit position = none) :
    ∀ slot ∈ mem.subscriptions, slot.position < position := by
  intro slot hslot
  by_contra hge
  unfold Mem.visit at hvisit
  cases hfind : mem.subscriptions.find? fun slot => decide (position ≤ slot.position) with
  | none =>
    have hnone := List.find?_eq_none.mp hfind slot hslot
    simp only [decide_eq_true_eq] at hnone
    omega
  | some found =>
    have hlt := h.objects found (List.mem_of_find?_eq_some hfind)
    rw [hfind, Option.bind_some, List.getElem?_eq_getElem hlt] at hvisit
    cases hvisit

end Mem

/-! ### The history -/

def ofWorkspaces : Entry Key (fun _ => CatalogState) Note → Bool
  | .note _ (.workspaces _) => true
  | _ => false

/-- The workspaces were all in place when the history had this length. -/
def SettledFrom (height : Nat) : History → Prop
  | [] => True
  | e :: older => SettledFrom height older ∧ (ofWorkspaces e = true → older.length < height)

instance decSettledFrom (height : Nat) : (tr : History) → Decidable (SettledFrom height tr)
  | [] => isTrue trivial
  | e :: older =>
    have := decSettledFrom height older
    inferInstanceAs (Decidable (SettledFrom height older ∧ (ofWorkspaces e = true → _)))

theorem SettledFrom.suffix {height : Nat} {tr older : History} (h : SettledFrom height tr)
    (hs : older <:+ tr) : SettledFrom height older := by
  induction tr with
  | nil =>
    rw [List.suffix_nil.mp hs]
    trivial
  | cons e tr ih =>
    rcases List.suffix_cons_iff.mp hs with rfl | hs
    · exact h
    · exact ih h.1 hs

theorem workspacesOf_cons {e : Entry Key (fun _ => CatalogState) Note}
    (h : ofWorkspaces e = false) (tr : History) : workspacesOf (e :: tr) = workspacesOf tr := by
  cases e with
  | note a n =>
    cases n with
    | workspaces workspaces => cases h
    | reply emitter requestId reply => rfl
    | upsert emitter subscriptionId label generation seq => rfl
    | remove emitter subscriptionId name generation seq => rfl
    | clock nowSeconds => rfl
  | create a k v => rfl
  | update a k v => rfl
  | delete a k => rfl

theorem SettledFrom.workspaces {height : Nat} {tr older : History} (h : SettledFrom height tr)
    (hs : older <:+ tr) (hlen : height ≤ older.length) : workspacesOf tr = workspacesOf older := by
  induction tr with
  | nil => rw [List.suffix_nil.mp hs]
  | cons e tr ih =>
    rcases List.suffix_cons_iff.mp hs with rfl | hs
    · rfl
    have hle := hs.length_le
    rw [workspacesOf_cons, ih h.1 hs]
    rw [Bool.eq_false_iff]
    intro he
    have := h.2 he
    omega

theorem current_cons {e : Entry Key (fun _ => CatalogState) Note} (h : e.key? = none)
    (tr : History) : current (e :: tr) = current tr := by
  rw [current, lookup_cons_of_ne (by rw [h]; simp)]
  rfl

/-- Every write that satisfies `mine` is older than the version. -/
def Covers (version : Nat) (mine : Option Tid → Prop) : History → Prop
  | [] => True
  | e :: older => Covers version mine older ∧
      (mine e.author → e.key? ≠ none → older.length < version)

theorem Covers.suffix_current {version : Nat} {tr older : History}
    (h : Covers version (fun _ => True) tr) (hs : older <:+ tr) (hlen : version ≤ older.length) :
    current tr = current older := by
  induction tr with
  | nil => rw [List.suffix_nil.mp hs]
  | cons e tr ih =>
    rcases List.suffix_cons_iff.mp hs with rfl | hs
    · rfl
    have hle := hs.length_le
    by_cases hkey : e.key? = none
    · rw [current_cons hkey, ih h.1 hs]
    · have := h.2 trivial hkey
      omega

theorem Covers.notes {version : Nat} {mine : Option Tid → Prop} {new tr : History}
    (h : Covers version mine tr) (hnew : ∀ e ∈ new, mine e.author → e.key? = none) :
    Covers version mine (new ++ tr) := by
  induction new with
  | nil => exact h
  | cons e new ih =>
    refine ⟨ih fun e' he' => hnew e' (List.mem_cons_of_mem _ he'), ?_⟩
    intro hmine hkey
    exact absurd (hnew e List.mem_cons_self hmine) hkey

/-- The version that a read returns covers every write there is. -/
theorem Kept.covers {rt : Runtime} {tr : History} (h : Kept rt tr) (mine : Option Tid → Prop) :
    Covers (versionOf (lookup .catalog tr)) mine tr := by
  -- what covers the older writes still does with one more
  have hmono : ∀ {version version' : Nat} {tr : History}, version ≤ version' →
      Covers version mine tr → Covers version' mine tr := by
    intro version version' tr hle
    induction tr with
    | nil => exact fun h => h
    | cons e tr ih =>
      exact fun h => ⟨ih h.1, fun hmine hkey => Nat.lt_of_lt_of_le (h.2 hmine hkey) hle⟩
  have hshort : ∀ tr : History, versionOf (lookup .catalog tr) ≤ tr.length := by
    intro tr
    cases hlook : lookup .catalog tr with
    | none => exact Nat.zero_le _
    | some found => exact (lookup_stored hlook).lt
  induction tr with
  | nil => trivial
  | cons e tr ih =>
    by_cases hkey : e.key? = some .catalog
    · obtain ⟨_, _, _, _, _, state, -, -, -, hputs, -⟩ := h.2 hkey
      have hversion : versionOf (lookup .catalog (e :: tr)) = tr.length + 1 := by
        simp [lookup, hkey, hputs, versionOf]
      rw [hversion]
      have hle := hshort tr
      exact ⟨hmono (by omega) (ih h.1), fun _ _ => Nat.lt_succ_self _⟩
    · rw [lookup_cons_of_ne hkey]
      refine ⟨ih h.1, fun _ hne => ?_⟩
      obtain ⟨k, hk⟩ := Option.ne_none_iff_exists'.mp hne
      exact absurd hk hkey

/-- The catalog of the version that a read returns is the one in place. -/
theorem current_of_version (tr : History) : ∃ older, older <:+ tr ∧
    older.length = versionOf (lookup .catalog tr) ∧ current older = current tr := by
  induction tr with
  | nil => exact ⟨[], List.suffix_refl _, rfl, rfl⟩
  | cons e tr ih =>
    by_cases hkey : e.key? = some .catalog
    · cases hputs : e.puts .catalog with
      | some state =>
        refine ⟨e :: tr, List.suffix_refl _, ?_, rfl⟩
        simp [lookup, hkey, hputs, versionOf]
      | none =>
        refine ⟨[], List.nil_suffix, ?_, ?_⟩
        · simp [lookup, hkey, hputs, versionOf]
        · simp [current, lookup, hkey, hputs]
    · obtain ⟨older, hs, hlen, hsame⟩ := ih
      rw [current, lookup_cons_of_ne hkey]
      exact ⟨older, hs.trans (List.suffix_cons e tr), hlen, hsame⟩

/-! ### Subscriptions that follow the history -/

def authorized (principal : GatewayPrincipal) (workspaces : List Workspace) : List Workspace :=
  workspaces.filter fun w =>
    w.metadata.deletionTimestamp.isNone && authorizeWorkspace principal w

/-- The labels were visible to the principal in this version of the catalog. -/
def Listed (tr : History) (version : Nat) (principal : GatewayPrincipal) (labels : List Label) : Prop :=
  ∃ older, older <:+ tr ∧ older.length = version ∧
    labels = visible (current older) principal (authorized principal (workspacesOf tr))

theorem Listed.grows {tr tr' : History} {version : Nat} {principal : GatewayPrincipal}
    {labels : List Label} (h : Listed tr version principal labels) (hs : tr <:+ tr')
    (hws : workspacesOf tr' = workspacesOf tr) : Listed tr' version principal labels := by
  obtain ⟨older, hold, hlen, hlabels⟩ := h
  exact ⟨older, hold.trans hs, hlen, by rw [hws]; exact hlabels⟩

structure Follows (p : Nat) (tr : History) (mem : Mem) (slot : Slot) (sub : Subscription) : Prop where
  view : viewOf p sub.emitter slot.subscriptionId tr = shown sub.seen
  served : ∃ labels, sub.seen = toMap labels ∧ Listed tr sub.version sub.principal labels
  finished : ∀ version ∈ mem.finished, version ≤ sub.version
  passed : ∀ pass ∈ mem.passed, slot.position < pass.2 → pass.1 ≤ sub.version

def Followed (p : Nat) (tr : History) (mem : Mem) : Prop :=
  ∀ slot ∈ mem.subscriptions, ∀ sub, mem.objects[slot.object]? = some sub → Follows p tr mem slot sub

/-- The history goes on without a change of the workspaces. -/
structure Continues (tr tr' : History) : Prop where
  suffix : tr <:+ tr'
  workspaces : workspacesOf tr' = workspacesOf tr

section Steps

variable {mem mem' : Mem} {tr tr' : History} {slot : Slot} {sub : Subscription}

theorem Follows.grows (h : Follows p tr mem slot sub) (hc : Continues tr tr')
    (hview : viewOf p sub.emitter slot.subscriptionId tr' = viewOf p sub.emitter slot.subscriptionId tr)
    (hfinished : ∀ version ∈ mem'.finished, version ∈ mem.finished ∨ version ≤ sub.version)
    (hpassed : ∀ pass ∈ mem'.passed, pass ∈ mem.passed ∨
      (slot.position < pass.2 → pass.1 ≤ sub.version)) : Follows p tr' mem' slot sub := by
  obtain ⟨labels, hseen, hlisted⟩ := h.served
  refine ⟨hview.trans h.view, ⟨labels, hseen, hlisted.grows hc.suffix hc.workspaces⟩, ?_, ?_⟩
  · intro version hversion
    rcases hfinished version hversion with hold | hle
    · exact h.finished version hold
    · exact hle
  · intro pass hpass hlt
    rcases hpassed pass hpass with hold | hle
    · exact h.passed pass hold hlt
    · exact hle hlt

/-- A step that only removes entries and tells nothing to those that stay. -/
theorem Followed.keep (h : Followed p tr mem) (hc : Continues tr tr')
    (hview : ∀ emitter subscriptionId, viewOf p emitter subscriptionId tr' = viewOf p emitter subscriptionId tr)
    (hslots : ∀ slot ∈ mem'.subscriptions, slot ∈ mem.subscriptions)
    (hobjects : mem'.objects = mem.objects) (hfinished : mem'.finished = mem.finished)
    (hpassed : ∀ pass ∈ mem'.passed, pass ∈ mem.passed ∨ ∀ slot ∈ mem'.subscriptions,
      slot.position < pass.2 → ∀ sub, mem.objects[slot.object]? = some sub → pass.1 ≤ sub.version) :
    Followed p tr' mem' := by
  intro slot hslot sub hsub
  rw [hobjects] at hsub
  apply (h slot (hslots slot hslot) sub hsub).grows hc (hview _ _)
  · intro version hversion
    rw [hfinished] at hversion
    exact .inl hversion
  · intro pass hpass
    rcases hpassed pass hpass with hold | hnew
    · exact .inl hold
    · exact .inr fun hlt => hnew slot hslot hlt sub hsub

/-- A publication that has gone past a place had no newer version than its entry. -/
def Mem.Passing (mem : Mem) (version position : Nat) : Prop :=
  position = 0 ∨ (version, position) ∈ mem.passed

theorem Followed.passing (h : Followed p tr mem) {version position : Nat}
    (hpass : mem.Passing version position) (hslot : slot ∈ mem.subscriptions)
    (hlt : slot.position < position) (hsub : mem.objects[slot.object]? = some sub) :
    version ≤ sub.version := by
  rcases hpass with rfl | hpass
  · omega
  · exact (h slot hslot sub hsub).passed _ hpass hlt

/-- A publication goes through when it finds no further entry. -/
theorem Followed.finish (h : Followed p tr mem) (ho : mem.Ordered) {version position : Nat}
    (hpass : mem.Passing version position) (hvisit : mem.visit position = none) :
    Followed p tr { mem with finished := version :: mem.finished } := by
  intro slot hslot sub hsub
  have hlt := ho.passed_all hvisit slot hslot
  apply (h slot hslot sub hsub).grows ⟨List.suffix_refl _, rfl⟩ rfl
  · intro version' hversion
    rcases List.mem_cons.mp hversion with rfl | hold
    · exact .inr (h.passing hpass hslot hlt hsub)
    · exact .inl hold
  · exact fun _ hold => .inl hold

theorem continues_notes (a : Option Tid) {notes : List Note}
    (hnotes : ∀ n ∈ notes, ∀ workspaces, n ≠ .workspaces workspaces) (tr : History) :
    Continues tr (notes.map (.note a) ++ tr) := by
  refine ⟨⟨_, rfl⟩, ?_⟩
  induction notes with
  | nil => rfl
  | cons n notes ih =>
    rw [List.map_cons, List.cons_append, workspacesOf_cons]
    · exact ih fun n' hn' => hnotes n' (List.mem_cons_of_mem _ hn')
    · cases n with
      | workspaces workspaces => exact absurd rfl (hnotes _ List.mem_cons_self workspaces)
      | reply emitter requestId reply => rfl
      | upsert emitter subscriptionId label generation seq => rfl
      | remove emitter subscriptionId name generation seq => rfl
      | clock nowSeconds => rfl

/-- A list response installs its subscription, when no publication has already gone past
    its place with a newer version. -/
theorem Followed.install (h : Followed p tr mem) (ho : mem.Ordered) {t : Tid} (ht : t.proc = p)
    {version sequence : Nat} {principal : GatewayPrincipal} {labels : List Label}
    {requestId : String} {sync : Sync} {servings : List Serving}
    (hlisted : Listed tr version principal labels)
    (hpast : ∀ version' ∈ mem.past subscriptionId, version' ≤ version) :
    Followed p
      ([Note.reply emitter requestId (.list labels (some subscriptionId) sync)].map
        (.note (some t)) ++ tr)
      { mem.set subscriptionId { principal, emitter, seen := toMap labels, version } with
        sequence, servings } := by
  have hquiet : ∀ n ∈ [Note.reply emitter requestId (.list labels (some subscriptionId) sync)],
      ∀ workspaces, n ≠ .workspaces workspaces := by simp
  have hc := continues_notes (some t) hquiet tr
  intro slot hslot sub hsub
  have hset : slot ∈ (mem.set subscriptionId
      { principal, emitter, seen := toMap labels, version }).subscriptions := hslot
  rcases Mem.mem_set hset with ⟨hold, hid⟩ | ⟨hid, hobject, hplace⟩
  · -- the entries of other ids are as before
    have hlt := ho.objects slot hold
    have hsame : mem.objects[slot.object]? = some sub := by
      rw [← hsub]
      simp only [Mem.set]
      rw [List.getElem?_append_left hlt]
    apply (h slot hold sub hsame).grows hc
    · rw [viewOf_notes ht]
      apply foldr_receive_ne
      intro n hn
      obtain rfl := List.mem_singleton.mp hn
      simp [Note.address, Ne.symm hid]
    · exact fun _ hv => .inl hv
    · exact fun _ hv => .inl hv
  · have hnew : sub = { principal, emitter, seen := toMap labels, version } := by
      simp only [Mem.set, hobject, List.getElem?_concat_length, Option.some.injEq] at hsub
      exact hsub.symm
    subst hnew
    constructor
    · simp [viewOf, ht, receive, Note.address, hid, Note.effect]
    · exact ⟨labels, rfl, hlisted.grows hc.suffix hc.workspaces⟩
    · exact fun version' hv => hpast version' (List.mem_append_left _ hv)
    · intro pass hpass hlt
      apply hpast
      refine List.mem_append_right _ (List.mem_map.mpr ⟨pass, List.mem_filter.mpr ⟨hpass, ?_⟩, rfl⟩)
      rcases hplace with ⟨hnone, hpos⟩ | ⟨old, hold, hold', hpos⟩
      · simpa [hnone, ← hpos] using hlt
      · have hfind := ho.find hold
        rw [hold'] at hfind
        simpa [hfind, hpos] using hlt

/-- A publication serves an entry, when it was not served from a newer version before and
    its client has not subscribed again under the same id. -/
theorem Followed.deliver (h : Followed p tr mem) {t : Tid} (ht : t.proc = p)
    {visit : Visit} {position version sequence : Nat} {labels : List Label} {generation : String}
    {servings : List Serving} (hvisit : mem.Visiting visit position)
    (hpass : mem.Passing version position) (hlisted : Listed tr version visit.principal labels)
    (hsub : mem.objects[visit.object]? = some sub) (hnewer : sub.version ≤ version)
    (hreplaced : mem.replaced visit.subscriptionId visit.object sub.emitter = false) :
    Followed p
      ((updates sub.emitter visit.subscriptionId generation mem.sequence sub.seen
        (toMap labels)).reverse.map (.note (some t)) ++ tr)
      { mem with
        objects := mem.objects.set visit.object { sub with seen := toMap labels, version }
        sequence, passed := (version, visit.position + 1) :: mem.passed, servings } := by
  have hquiet : ∀ n ∈ (updates sub.emitter visit.subscriptionId generation mem.sequence sub.seen
      (toMap labels)).reverse, ∀ workspaces, n ≠ .workspaces workspaces := by
    rintro n hn workspaces rfl
    exact (updates_tells (toMap_nodup labels) _ (List.mem_reverse.mp hn)).2.elim
  have hc := continues_notes (some t) hquiet tr
  have howner : visit.principal = sub.principal := by
    obtain ⟨emitter, howner⟩ := hvisit.owner
    rw [Mem.owner, hsub, Option.map_some, Option.some.injEq, Prod.mk.injEq] at howner
    exact howner.1.symm
  -- another entry of the client under this id would be a replacement
  have hother : ∀ slot ∈ mem.subscriptions, ∀ other, mem.objects[slot.object]? = some other →
      slot.object ≠ visit.object → slot.subscriptionId = visit.subscriptionId →
      other.emitter ≠ sub.emitter := by
    intro slot hslot other hobj hne hid hemitter
    rw [Mem.replaced, List.any_eq_false] at hreplaced
    apply hreplaced slot hslot
    simp [hid, hne, hobj, hemitter]
  intro slot hslot served hserved
  simp only [List.getElem?_set] at hserved
  by_cases hobject : visit.object = slot.object
  · obtain ⟨hpos, hid⟩ := hvisit.object slot hslot hobject.symm
    have hlt := hvisit.size
    rw [if_pos hobject, if_pos hlt, Option.some.injEq] at hserved
    subst hserved
    have hfollows := h slot hslot sub (hobject ▸ hsub)
    constructor
    · rw [viewOf_notes ht, hid]
      exact receive_updates (hid ▸ hfollows.view)
    · exact ⟨labels, rfl, howner ▸ hlisted.grows hc.suffix hc.workspaces⟩
    · exact fun version' hv => (hfollows.finished version' hv).trans hnewer
    · intro pass hmem hlt
      rcases List.mem_cons.mp hmem with rfl | hold
      · exact Nat.le_refl _
      · exact (hfollows.passed pass hold hlt).trans hnewer
  · rw [if_neg hobject] at hserved
    have hne : slot.object ≠ visit.object := fun heq => hobject heq.symm
    apply (h slot hslot served hserved).grows hc
    · rw [viewOf_notes ht]
      apply foldr_receive_ne
      intro n hn haddress
      have htell := (updates_tells (toMap_nodup labels) n (List.mem_reverse.mp hn)).1
      rw [htell, Option.some.injEq, Prod.mk.injEq] at haddress
      exact hother slot hslot served hserved hne haddress.2.symm haddress.1.symm
    · exact fun _ hv => .inl hv
    · intro pass hmem
      rcases List.mem_cons.mp hmem with rfl | hold
      · right
        intro hlt
        apply h.passing hpass hslot _ hserved
        rcases Nat.lt_or_eq_of_le (Nat.le_of_lt_succ hlt) with hbefore | hat
        · exact hvisit.between slot hslot hbefore
        · -- the entry visited has been given to another object
          obtain ⟨hid, principal, principal', emitter, ho, ho'⟩ := hvisit.place slot hslot hat
          exfalso
          apply hother slot hslot served hserved hne hid
          rw [Mem.owner, hsub] at ho
          rw [Mem.owner, hserved] at ho'
          simp only [Option.map_some, Option.some.injEq, Prod.mk.injEq] at ho ho'
          exact ho'.2.trans ho.2.symm
      · exact .inl hold

end Steps

end PaseoGateway.WorkspaceLabels

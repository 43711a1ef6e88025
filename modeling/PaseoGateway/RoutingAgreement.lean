/-
  PaseoGateway/RoutingAgreement.lean
  ==================================
  **Where `route` puts scoped ids and where `translate` takes them out again.**

  Both walk the same entries in the same contexts, but `route` also replaces the elements
  of an `agentIds` array, which `translate` copies.  So a message reaches the backend with
  native ids at every replaced position exactly when `route` meets no such element.
-/
import PaseoGateway.Routing

namespace PaseoGateway.Routing

open AgentIdentity (Route Resolved requestedGuid requestedGuid_ok resolvedRoute isGuid
  isGuid_no_tilde)

/-! ### Positions -/

inductive Kind where
  | field
  | element
  | given
deriving DecidableEq

/-- `route` goes on into the value of this key. -/
def Walked (key : String) : Json → Prop
  | .arr _ => key ≠ "agentIds" ∧ opaqueKeys.contains key = false
  | .obj _ => opaqueKeys.contains key = false
  | _ => False

/-- `route` replaces the id at the position: that of a field, an element of an `agentIds` array,
    or anything inside the `agentId` that a creation brings along. -/
inductive Routes : Kind → String → Json → List Nat → String → Prop where
  | field {context key id : String} {fields : List (String × Json)} {i : Nat}
      (entry : fields[i]? = some (key, .str id))
      (agent : AgentIdentity.agentField key context = true)
      (routed : ¬ (creates fields = true ∧ key = "agentId")) :
      Routes .field context (.obj fields) [i] id
  | element {context id : String} {fields : List (String × Json)} {items : List Json} {i j : Nat}
      (entry : fields[i]? = some ("agentIds", .arr items)) (item : items[j]? = some (.str id)) :
      Routes .element context (.obj fields) [i, j] id
  | inField {kind : Kind} {context key id : String} {fields : List (String × Json)} {item : Json}
      {i : Nat} {path : List Nat} (entry : fields[i]? = some (key, item)) (walked : Walked key item)
      (routed : ¬ (creates fields = true ∧ key = "agentId")) (under : Routes kind key item path id) :
      Routes kind context (.obj fields) (i :: path) id
  | inGiven {kind : Kind} {context id : String} {fields : List (String × Json)} {item : Json}
      {i : Nat} {path : List Nat} (entry : fields[i]? = some ("agentId", item))
      (walked : Walked "agentId" item) (creating : creates fields = true)
      (under : Routes kind "agentId" item path id) : Routes .given context (.obj fields) (i :: path) id
  | inItem {kind : Kind} {context id : String} {items : List Json} {item : Json} {j : Nat}
      {path : List Nat} (entry : items[j]? = some item) (under : Routes kind context item path id) :
      Routes kind context (.arr items) (j :: path) id

theorem Routes.get {kind : Kind} {context id : String} {value : Json} {path : List Nat}
    (h : Routes kind context value path id) : value.get path = some (.str id) := by
  induction h with
  | field entry agent routed => simp [Json.get, entry]
  | element entry item => simp [Json.get, entry, item]
  | inField entry walked routed under ih => simpa [Json.get, entry] using ih
  | inGiven entry walked creating under ih => simpa [Json.get, entry] using ih
  | inItem entry under ih => simpa [Json.get, entry] using ih

/-! ### The walks, entry by entry -/

/-- A walk over a list that numbers its elements. -/
theorem walked_at {ε α β : Type} (walk : Nat → List α → Except ε (List β))
    (step : Nat → α → Except ε β) (hcons : ∀ index a rest, walk index (a :: rest) = do
      let b ← step index a
      let bs ← walk (index + 1) rest
      .ok (b :: bs)) {l : List α} {out : List β} {n : Nat} (h : walk n l = .ok out)
    {i : Nat} {a : α} (ha : l[i]? = some a) :
    ∃ b, out[i]? = some b ∧ step (n + i) a = .ok b := by
  induction l generalizing out n i with
  | nil => simp at ha
  | cons a' rest ih =>
    rw [hcons] at h
    cases hstep : step n a' with
    | error e => simp [hstep, bind, Except.bind] at h
    | ok b =>
      cases hrest : walk (n + 1) rest with
      | error e => simp [hstep, hrest, bind, Except.bind] at h
      | ok bs =>
        simp only [hstep, hrest, bind, Except.bind, Except.ok.injEq] at h
        subst h
        cases i with
        | zero =>
          obtain rfl := Option.some.inj ha
          exact ⟨b, rfl, hstep⟩
        | succ i =>
          obtain ⟨b', hb', hstep'⟩ := ih hrest (by simpa using ha)
          exact ⟨b', by simpa using hb', by rwa [Nat.add_assoc, Nat.add_comm 1] at hstep'⟩

/-- The step over an entry of an object keeps its key. -/
def keeping {ε : Type} (step : Nat → String → Json → Except ε Json) (index : Nat)
    (entry : String × Json) : Except ε (String × Json) := do
  let out ← step index entry.1 entry.2
  .ok (entry.1, out)

theorem keeping_ok {ε : Type} {step : Nat → String → Json → Except ε Json} {index : Nat}
    {key : String} {item : Json} {entry : String × Json}
    (h : keeping step index (key, item) = .ok entry) :
    ∃ out, entry = (key, out) ∧ step index key item = .ok out := by
  cases hstep : step index key item with
  | error e => simp [keeping, hstep, bind, Except.bind] at h
  | ok out =>
    simp only [keeping, hstep, bind, Except.bind, Except.ok.injEq] at h
    exact ⟨out, h.symm, rfl⟩

theorem ok_of_bind {ε α β : Type} {r : Except ε α} {f : α → Except ε β} {b : β}
    (h : (do let a ← r; f a) = .ok b) : ∃ a, r = .ok a ∧ f a = .ok b := by
  cases r with
  | error e => simp [bind, Except.bind] at h
  | ok a => exact ⟨a, rfl, h⟩

/-- What a walk over the entries of an object, which numbers them, makes of the value of a
    field. -/
theorem lookup_numbered {ε : Type}
    (walk : Nat → List (String × Json) → Except ε (List (String × Json)))
    (step : Nat → String → Json → Except ε Json) (hnil : ∀ index, walk index [] = .ok [])
    (hcons : ∀ index key item rest, walk index ((key, item) :: rest) = do
      let out ← step index key item
      let others ← walk (index + 1) rest
      .ok ((key, out) :: others)) {fields out : List (String × Json)} {index : Nat}
    (h : walk index fields = .ok out) (key : String) :
    (fields.lookup key = none ∧ out.lookup key = none) ∨
      ∃ number item item', fields.lookup key = some item ∧ out.lookup key = some item' ∧
        step number key item = .ok item' := by
  induction fields generalizing out index with
  | nil =>
    rw [hnil] at h
    obtain rfl := Except.ok.inj h
    exact .inl ⟨rfl, rfl⟩
  | cons entry rest ih =>
    obtain ⟨name, item⟩ := entry
    rw [hcons] at h
    obtain ⟨item', hitem, h⟩ := ok_of_bind h
    obtain ⟨others, hothers, h⟩ := ok_of_bind h
    obtain rfl := Except.ok.inj h
    by_cases hkey : key = name
    · subst hkey
      exact .inr ⟨index, item, item', by simp, by simp, hitem⟩
    · have hne : (key == name) = false := beq_false_of_ne hkey
      simp only [List.lookup_cons, hne]
      exact ih hothers

/-- What a walk over the entries of an object makes of the value of a field. -/
theorem lookup_walked {ε : Type} (walk : List (String × Json) → Except ε (List (String × Json)))
    (step : String → Json → Except ε Json) (hnil : walk [] = .ok [])
    (hcons : ∀ key item rest, walk ((key, item) :: rest) = do
      let out ← step key item
      let others ← walk rest
      .ok ((key, out) :: others)) {fields out : List (String × Json)} (h : walk fields = .ok out)
    (key : String) :
    (fields.lookup key = none ∧ out.lookup key = none) ∨
      ∃ item item', fields.lookup key = some item ∧ out.lookup key = some item' ∧
        step key item = .ok item' := by
  rcases @lookup_numbered ε (fun _ => walk) (fun _ => step) (fun _ => hnil) (fun _ => hcons)
    fields out 0 h key with hnone | ⟨_, hsome⟩
  · exact .inl hnone
  · exact .inr hsome

section Walks

variable {workspaces : List Workspace} {workspace : Workspace} {localId : String}
  {direction : Direction} {reads : Reads} {context key id : String} {creating : Bool}
  {index i : Nat}

theorem routeFields_at {fields out : List (String × Json)} {item : Json}
    (h : routeFields workspaces reads context creating index fields = .ok out)
    (hitem : fields[i]? = some (key, item)) : ∃ item', out[i]? = some (key, item') ∧
      routeField workspaces (fun path => reads ((index + i) :: path)) context creating key item =
        .ok item' := by
  obtain ⟨entry, hentry, hstep⟩ := walked_at (routeFields workspaces reads context creating)
    (keeping fun index => routeField workspaces (fun path => reads (index :: path)) context creating)
    (fun index entry rest => by
      rw [routeFields, keeping]
      cases routeField workspaces _ context creating entry.1 entry.2 <;> rfl) h hitem
  obtain ⟨item', rfl, hitem'⟩ := keeping_ok hstep
  exact ⟨item', hentry, hitem'⟩

theorem routeItems_at {items out : List Json} {item : Json}
    (h : routeItems workspaces reads context index items = .ok out) (hitem : items[i]? = some item) :
    ∃ item', out[i]? = some item' ∧
      route workspaces (fun path => reads ((index + i) :: path)) context item = .ok item' :=
  walked_at (routeItems workspaces reads context)
    (fun index => route workspaces (fun path => reads (index :: path)) context)
    (fun index item rest => by rw [routeItems]) h hitem

theorem routeIds_at {items out : List Json}
    (h : routeIds workspaces reads index items = .ok out) (hitem : items[i]? = some (.str id)) :
    ∃ r, out[i]? = some (scopedJson r) ∧ resolved (reads [index + i]) id workspaces = .ok r := by
  obtain ⟨b, hb, hstep⟩ := walked_at (routeIds workspaces reads)
    (fun index => routeId workspaces (reads [index])) (fun index item rest => by rw [routeIds])
    h hitem
  obtain ⟨r, hr, hok⟩ := ok_of_bind hstep
  obtain rfl := Except.ok.inj hok
  exact ⟨r, hb, hr⟩

theorem translateFields_at {fields out : List (String × Json)} {item : Json}
    (h : translateFields workspace localId direction context creating fields = .ok out)
    (hitem : fields[i]? = some (key, item)) : ∃ item', out[i]? = some (key, item') ∧
      translateField workspace localId direction context creating key item = .ok item' := by
  obtain ⟨entry, hentry, hstep⟩ :=
    walked_at (fun _ => translateFields workspace localId direction context creating)
      (keeping fun _ => translateField workspace localId direction context creating)
      (fun _ entry rest => by
        rw [translateFields, keeping]
        cases translateField workspace localId direction context creating entry.1 entry.2 <;> rfl)
      (n := 0) h hitem
  obtain ⟨item', rfl, hitem'⟩ := keeping_ok hstep
  exact ⟨item', hentry, hitem'⟩

theorem translateItems_at {items out : List Json} {item : Json}
    (h : translateItems workspace localId direction context items = .ok out)
    (hitem : items[i]? = some item) : ∃ item', out[i]? = some item' ∧
      translate workspace localId direction context item = .ok item' :=
  walked_at (fun _ => translateItems workspace localId direction context)
    (fun _ => translate workspace localId direction context)
    (fun _ item rest => by rw [translateItems]) (n := 0) h hitem

/-- Routing leaves the type of a message. -/
theorem creates_routeFields {fields out : List (String × Json)}
    (h : routeFields workspaces reads context creating index fields = .ok out) :
    creates out = creates fields := by
  induction fields generalizing out index with
  | nil =>
    rw [routeFields] at h
    obtain rfl := Except.ok.inj h
    rfl
  | cons entry rest ih =>
    obtain ⟨key, item⟩ := entry
    rw [routeFields] at h
    obtain ⟨item', hitem, h⟩ := ok_of_bind h
    obtain ⟨others, hothers, h⟩ := ok_of_bind h
    obtain rfl := Except.ok.inj h
    have hrest := ih hothers
    by_cases hkey : key = "type"
    · subst hkey
      have htype : AgentIdentity.agentField "type" context = false := by
        simp [AgentIdentity.agentField, AgentIdentity.agentKeys]
      cases item with
      | str type =>
        simp only [routeField, htype, Bool.false_and, Bool.false_eq_true, if_false,
          Except.ok.injEq] at hitem
        simp [creates, ← hitem]
      | arr items =>
        simp only [routeField] at hitem
        split at hitem
        · obtain ⟨ids, _, hids⟩ := ok_of_bind hitem
          simp [creates, ← Except.ok.inj hids]
        · split at hitem
          · simp [creates, ← Except.ok.inj hitem]
          · obtain ⟨inner, _, hinner⟩ := ok_of_bind hitem
            simp [creates, ← Except.ok.inj hinner]
      | obj inner =>
        simp only [routeField] at hitem
        split at hitem
        · simp [creates, ← Except.ok.inj hitem]
        · obtain ⟨inner', _, hinner⟩ := ok_of_bind hitem
          simp [creates, ← Except.ok.inj hinner]
      | _ =>
        simp only [routeField, Except.ok.injEq] at hitem
        simp [creates, ← hitem]
    · have hne : ("type" == key) = false := by simpa using Ne.symm hkey
      simpa [creates, List.lookup_cons, hne] using hrest

end Walks

/-! ### What the walks do at a position -/

section Steps

variable {workspaces : List Workspace} {workspace : Workspace} {localId : String} {reads : Reads}
  {context key id : String} {creating : Bool} {item item' : Json}

theorem routeField_agent (agent : AgentIdentity.agentField key context = true)
    (routed : ¬ (creating = true ∧ key = "agentId"))
    (h : routeField workspaces reads context creating key (.str id) = .ok item') :
    ∃ r, resolved (reads []) id workspaces = .ok r ∧ item' = scopedJson r := by
  have hreplaced : (AgentIdentity.agentField key context && !(creating && key == "agentId")) =
      true := by
    simp only [agent, Bool.true_and, Bool.not_eq_true', Bool.and_eq_false_iff,
      beq_eq_false_iff_ne]
    by_cases hcreating : creating = true
    · exact .inr fun hkey => routed ⟨hcreating, hkey⟩
    · exact .inl (by simpa using hcreating)
  rw [routeField, if_pos hreplaced] at h
  obtain ⟨r, hr, hscoped⟩ := ok_of_bind h
  exact ⟨r, hr, (Except.ok.inj hscoped).symm⟩

theorem not_opaque (h : opaqueKeys.contains key = false) : ¬ opaqueKeys.contains key = true := by
  rw [h]
  exact Bool.false_ne_true

theorem routeField_walked (h : Walked key item) :
    routeField workspaces reads context creating key item = route workspaces reads key item := by
  cases item with
  | arr items =>
    have hopaque : ¬ AgentIdentity.opaqueKeys.contains key = true := not_opaque h.2
    rw [routeField, if_neg h.1, if_neg hopaque, route]
  | obj fields =>
    have hopaque : ¬ AgentIdentity.opaqueKeys.contains key = true := not_opaque h
    rw [routeField, if_neg hopaque, route]
  | _ => exact h.elim

theorem Walked.routed (h : Walked key item) {context : String}
    (hroute : route workspaces reads context item = .ok item') : Walked key item' := by
  cases item with
  | arr items =>
    rw [route] at hroute
    obtain ⟨out, _, hok⟩ := ok_of_bind hroute
    obtain rfl := Except.ok.inj hok
    exact h
  | obj fields =>
    rw [route] at hroute
    obtain ⟨out, _, hok⟩ := ok_of_bind hroute
    obtain rfl := Except.ok.inj hok
    exact h
  | _ => exact h.elim

theorem not_chosen (routed : ¬ (creating = true ∧ key = "agentId")) :
    ¬ chosen .inward creating key = true := by
  simpa [chosen] using routed

theorem translateField_walked (h : Walked key item)
    (routed : ¬ (creating = true ∧ key = "agentId")) :
    translateField workspace localId .inward context creating key item =
      translate workspace localId .inward key item := by
  have hproject : ¬ projectField .inward key = true := by simp [projectField]
  cases item with
  | arr items =>
    have hopaque := not_opaque h.2
    rw [translateField, if_neg (not_chosen routed), if_neg hproject, if_neg hopaque, translate]
  | obj fields =>
    have hopaque : ¬ opaqueKeys.contains key = true := not_opaque h
    rw [translateField, if_neg (not_chosen routed), if_neg hproject, if_neg hopaque, translate]
  | _ => exact h.elim

theorem translateField_chosen
    (h : translateField workspace localId .inward context true "agentId" item = .ok item') :
    item' = item := by
  have hchosen : chosen .inward true "agentId" = true := rfl
  cases item <;> simpa [translateField, hchosen, eq_comm] using h

theorem scopedField_of_agentField (h : AgentIdentity.agentField key context = true) :
    scopedField key context = true := by
  simp only [AgentIdentity.agentField, AgentIdentity.agentKeys, scopedField, scopedKeys,
    Bool.or_eq_true, Bool.and_eq_true, List.contains_eq_mem, decide_eq_true_eq, List.mem_cons,
    List.not_mem_nil, or_false, beq_iff_eq] at h ⊢
  tauto

theorem translateField_agent (agent : AgentIdentity.agentField key context = true)
    (routed : ¬ (creating = true ∧ key = "agentId"))
    (h : translateField workspace localId .inward context creating key (.str id) = .ok item') :
    ∃ backendId, parseScopedId id = .ok (workspace.metadata.name, backendId) ∧
      item' = .str backendId := by
  rw [translateField, if_neg (not_chosen routed), if_pos (scopedField_of_agentField agent),
    translateId] at h
  obtain ⟨parsed, hparsed, h⟩ := ok_of_bind h
  split at h
  · simp at h
  · rename_i hname
    rw [not_not] at hname
    exact ⟨parsed.2, by rw [hparsed, ← hname], (Except.ok.inj h).symm⟩

end Steps

/-- `route` puts the resolved id in the place of the public one, and would replace it again. -/
theorem Routes.routed {kind : Kind} {context id : String} {value : Json} {path : List Nat}
    (h : Routes kind context value path id) {workspaces : List Workspace} {reads : Reads}
    {routed : Json} (hroute : route workspaces reads context value = .ok routed) :
    ∃ r, resolved (reads path) id workspaces = .ok r ∧
      Routes kind context routed path (scopedId r.workspace.metadata.name r.backendAgentId) := by
  induction h generalizing reads routed with
  | field entry agent replaced =>
    rw [route] at hroute
    obtain ⟨out, hout, hok⟩ := ok_of_bind hroute
    obtain rfl := Except.ok.inj hok
    obtain ⟨item', hitem', hfield⟩ := routeFields_at hout entry
    obtain ⟨r, hr, rfl⟩ := routeField_agent agent replaced hfield
    rw [← creates_routeFields hout] at replaced
    exact ⟨r, by simpa using hr, .field hitem' agent replaced⟩
  | element entry item =>
    rw [route] at hroute
    obtain ⟨out, hout, hok⟩ := ok_of_bind hroute
    obtain rfl := Except.ok.inj hok
    obtain ⟨item', hitem', hfield⟩ := routeFields_at hout entry
    rw [routeField, if_pos rfl] at hfield
    obtain ⟨ids, hids, hok⟩ := ok_of_bind hfield
    obtain rfl := Except.ok.inj hok
    obtain ⟨r, hr, hresolved⟩ := routeIds_at hids item
    exact ⟨r, by simpa using hresolved, .element hitem' hr⟩
  | inField entry walked replaced under ih =>
    rw [route] at hroute
    obtain ⟨out, hout, hok⟩ := ok_of_bind hroute
    obtain rfl := Except.ok.inj hok
    obtain ⟨item', hitem', hfield⟩ := routeFields_at hout entry
    rw [routeField_walked walked] at hfield
    obtain ⟨r, hr, hunder⟩ := ih hfield
    rw [← creates_routeFields hout] at replaced
    exact ⟨r, by simpa using hr, .inField hitem' (walked.routed hfield) replaced hunder⟩
  | inGiven entry walked creating under ih =>
    rw [route] at hroute
    obtain ⟨out, hout, hok⟩ := ok_of_bind hroute
    obtain rfl := Except.ok.inj hok
    obtain ⟨item', hitem', hfield⟩ := routeFields_at hout entry
    rw [routeField_walked walked] at hfield
    obtain ⟨r, hr, hunder⟩ := ih hfield
    rw [← creates_routeFields hout] at creating
    exact ⟨r, by simpa using hr, .inGiven hitem' (walked.routed hfield) creating hunder⟩
  | inItem entry under ih =>
    rw [route] at hroute
    obtain ⟨out, hout, hok⟩ := ok_of_bind hroute
    obtain rfl := Except.ok.inj hok
    obtain ⟨item', hitem', hitem⟩ := routeItems_at hout entry
    obtain ⟨r, hr, hunder⟩ := ih hitem
    exact ⟨r, by simpa using hr, .inItem hitem' hunder⟩

section Inward

variable {kind : Kind} {context id : String} {value input : Json} {path : List Nat}
  {workspace : Workspace} {localId : String}

/-- `translate` takes the scoped id of a field apart. -/
theorem Routes.translated (h : Routes .field context value path id)
    (htranslate : translate workspace localId .inward context value = .ok input) :
    ∃ backendId, parseScopedId id = .ok (workspace.metadata.name, backendId) ∧
      input.get path = some (.str backendId) := by
  generalize hkind : Kind.field = kind at h
  induction h generalizing input with
  | field entry agent replaced =>
    rw [translate] at htranslate
    obtain ⟨out, hout, hok⟩ := ok_of_bind htranslate
    obtain rfl := Except.ok.inj hok
    obtain ⟨item', hitem', hfield⟩ := translateFields_at hout entry
    obtain ⟨backendId, hparsed, rfl⟩ := translateField_agent agent replaced hfield
    exact ⟨backendId, hparsed, by simp [Json.get, hitem']⟩
  | element entry item => simp at hkind
  | inField entry walked replaced under ih =>
    rw [translate] at htranslate
    obtain ⟨out, hout, hok⟩ := ok_of_bind htranslate
    obtain rfl := Except.ok.inj hok
    obtain ⟨item', hitem', hfield⟩ := translateFields_at hout entry
    rw [translateField_walked walked replaced] at hfield
    obtain ⟨backendId, hparsed, hget⟩ := ih hfield hkind
    exact ⟨backendId, hparsed, by simpa [Json.get, hitem'] using hget⟩
  | inGiven entry walked creating under ih => simp at hkind
  | inItem entry under ih =>
    rw [translate] at htranslate
    obtain ⟨out, hout, hok⟩ := ok_of_bind htranslate
    obtain rfl := Except.ok.inj hok
    obtain ⟨item', hitem', hitem⟩ := translateItems_at hout entry
    obtain ⟨backendId, hparsed, hget⟩ := ih hitem hkind
    exact ⟨backendId, hparsed, by simpa [Json.get, hitem'] using hget⟩

/-- `translate` copies the other ids that `route` has put in. -/
theorem Routes.copied (h : Routes kind context value path id) (hkind : kind ≠ .field)
    (htranslate : translate workspace localId .inward context value = .ok input) :
    input.get path = some (.str id) := by
  induction h generalizing input with
  | field entry agent replaced => exact absurd rfl hkind
  | element entry item =>
    rw [translate] at htranslate
    obtain ⟨out, hout, hok⟩ := ok_of_bind htranslate
    obtain rfl := Except.ok.inj hok
    obtain ⟨item', hitem', hfield⟩ := translateFields_at hout entry
    rw [translateField, if_neg (not_chosen (by simp)), if_neg (by simp [projectField]),
      if_neg (by simp [opaqueKeys])] at hfield
    obtain ⟨ids, hids, hok⟩ := ok_of_bind hfield
    obtain rfl := Except.ok.inj hok
    obtain ⟨copy, hcopy, hsame⟩ := translateItems_at hids item
    simp only [translate, Except.ok.injEq] at hsame
    simp [Json.get, hitem', hcopy, ← hsame]
  | inField entry walked replaced under ih =>
    rw [translate] at htranslate
    obtain ⟨out, hout, hok⟩ := ok_of_bind htranslate
    obtain rfl := Except.ok.inj hok
    obtain ⟨item', hitem', hfield⟩ := translateFields_at hout entry
    rw [translateField_walked walked replaced] at hfield
    simpa [Json.get, hitem'] using ih hkind hfield
  | inGiven entry walked creating under ih =>
    rw [translate] at htranslate
    obtain ⟨out, hout, hok⟩ := ok_of_bind htranslate
    obtain rfl := Except.ok.inj hok
    obtain ⟨item', hitem', hfield⟩ := translateFields_at hout entry
    rw [creating] at hfield
    rw [translateField_chosen hfield] at hitem'
    simpa [Json.get, hitem'] using under.get
  | inItem entry under ih =>
    rw [translate] at htranslate
    obtain ⟨out, hout, hok⟩ := ok_of_bind htranslate
    obtain rfl := Except.ok.inj hok
    obtain ⟨item', hitem', hitem⟩ := translateItems_at hout entry
    simpa [Json.get, hitem'] using ih hkind hitem

end Inward

/-! ### The two passes and the translation -/

/-- A resolved id is that of the active route, of an authorized workspace under its own UID. -/
theorem resolved_ok {record : Option (Nat × Route)} {id : String} {workspaces : List Workspace}
    {r : Resolved} (h : resolved record id workspaces = .ok r) :
    ∃ version uid, record = some (version, .active ⟨r.workspace.metadata.name, uid,
        r.backendAgentId⟩) ∧
      r.workspace ∈ workspaces ∧ r.workspace.metadata.uid = some uid ∧
      requestedGuid id = .ok r.backendAgentId ∧
      (id.toList.contains '~' = true →
        scopedId r.workspace.metadata.name r.backendAgentId = id) := by
  obtain ⟨guid, hguid, h⟩ := ok_of_bind h
  obtain ⟨value, hvalue, h⟩ := ok_of_bind h
  rcases record with _ | ⟨version, value'⟩
  · obtain rfl := Except.ok.inj hvalue
    simp [resolvedRoute] at h
  · rw [checkedRead] at hvalue
    split at hvalue
    · simp at hvalue
    · rename_i hsame
      obtain rfl := Except.ok.inj hvalue
      rcases value' with binding | ⟨binding, other⟩
      · obtain ⟨name, uid, backend⟩ := binding
        obtain rfl : backend = guid := not_not.mp hsame
        rw [resolvedRoute] at h
        split at h
        · simp at h
        · rename_i hlegacy
          split at h
          · simp at h
          · rename_i workspace hfind
            split at h
            · simp at h
            · obtain rfl := Except.ok.inj h
              have hmatch := List.find?_some hfind
              simp only [Bool.and_eq_true, beq_iff_eq] at hmatch
              obtain ⟨rfl, huid⟩ := hmatch
              exact ⟨version, uid, rfl, List.mem_of_find?_eq_some hfind, huid, hguid,
                fun hscoped => by_contra fun hne => hlegacy ⟨hscoped, hne⟩⟩
      · simp [resolvedRoute] at h
theorem ofMessage_ok {α : Type} {r : Except String α} {a : α} (h : ofMessage r = .ok a) :
    r = .ok a := by
  cases r with
  | error message => simp [ofMessage] at h
  | ok a' => rw [Except.ok.inj h]

/-- The agent with this public id is bound to the workspace, and its native id stands at the
    position. -/
def NativeAt (reads reads' : Reads) (workspace : Workspace) (input : Json) (path : List Nat)
    (id : String) : Prop :=
  ∃ version version' binding uid, requestedGuid id = .ok binding.backendAgentId ∧
    reads path = some (version, .active binding) ∧
    reads' path = some (version', .active ⟨workspace.metadata.name, uid,
      binding.backendAgentId⟩) ∧
    workspace.metadata.uid = some uid ∧ input.get path = some (.str binding.backendAgentId)

section Forward

variable {reads reads' : Reads} {workspaces active : List Workspace}
  {localId : Workspace → String} {message input : Json} {workspace : Workspace} {kind : Kind}
  {path : List Nat} {id : String}

theorem forward_ok (h : forward reads reads' workspaces active localId message =
      .ok (workspace, input)) :
    ∃ routed again, route workspaces reads "" message = .ok routed ∧
      route [workspace] reads' "" routed = .ok again ∧
      translate workspace (localId workspace) .inward "" again = .ok input := by
  obtain ⟨routed, hrouted, h⟩ := ok_of_bind h
  obtain ⟨selected, _, h⟩ := ok_of_bind h
  obtain ⟨again, hagain, h⟩ := ok_of_bind h
  obtain ⟨out, hout, h⟩ := ok_of_bind h
  obtain ⟨rfl, rfl⟩ := Prod.mk.inj (Except.ok.inj h)
  exact ⟨routed, again, hrouted, hagain, ofMessage_ok hout⟩

/-- Both passes of `route` resolve an id to the same agent of the selected workspace. -/
theorem Routes.again (h : Routes kind "" message path id) {routed again : Json}
    (hrouted : route workspaces reads "" message = .ok routed)
    (hagain : route [workspace] reads' "" routed = .ok again) :
    ∃ version version' uid uid' backendId, requestedGuid id = .ok backendId ∧
      reads path = some (version, .active ⟨workspace.metadata.name, uid, backendId⟩) ∧
      reads' path = some (version', .active ⟨workspace.metadata.name, uid', backendId⟩) ∧
      workspace.metadata.uid = some uid' ∧
      Routes kind "" again path (scopedId workspace.metadata.name backendId) := by
  obtain ⟨first, hfirst, hthen⟩ := h.routed hrouted
  obtain ⟨second, hsecond, hlast⟩ := hthen.routed hagain
  obtain ⟨version, uid, hread, _, _, hguid, _⟩ := resolved_ok hfirst
  obtain ⟨version', uid', hread', hmem, huid', _, hscoped⟩ := resolved_ok hsecond
  obtain ⟨hname, hbackend⟩ := scopedId_inj (hscoped (tilde_scopedId _ _))
  rw [List.mem_singleton.mp hmem] at hname hread' huid' hlast
  rw [hbackend] at hread' hlast
  rw [← hname] at hread
  exact ⟨version, version', uid, uid', first.backendAgentId, hguid, hread, hread', huid', hlast⟩

theorem Routes.native (h : Routes .field "" message path id)
    (hforward : forward reads reads' workspaces active localId message = .ok (workspace, input)) :
    NativeAt reads reads' workspace input path id := by
  obtain ⟨routed, again, hrouted, hagain, htranslate⟩ := forward_ok hforward
  obtain ⟨version, version', uid, uid', backendId, hguid, hread, hread', huid, hlast⟩ :=
    h.again hrouted hagain
  obtain ⟨native, hparsed, hget⟩ := hlast.translated htranslate
  obtain ⟨_, rfl⟩ := scopedId_inj (scopedId_of_parse hparsed)
  exact ⟨version, version', _, uid', hguid, hread, hread', huid, hget⟩

/-- Where `translate` copies, the scoped id goes to the backend. -/
theorem Routes.scoped (h : Routes kind "" message path id) (hkind : kind ≠ .field)
    (hforward : forward reads reads' workspaces active localId message = .ok (workspace, input)) :
    ¬ NativeAt reads reads' workspace input path id := by
  obtain ⟨routed, again, hrouted, hagain, htranslate⟩ := forward_ok hforward
  obtain ⟨_, _, _, _, backendId, _, _, _, _, hlast⟩ := h.again hrouted hagain
  rintro ⟨_, _, binding, _, hguid, _, _, _, hnative⟩
  have hsame : Json.str (scopedId workspace.metadata.name backendId) = .str binding.backendAgentId :=
    Option.some.inj ((hlast.copied hkind htranslate).symm.trans hnative)
  have hno := isGuid_no_tilde (requestedGuid_ok hguid)
  rw [← Json.str.inj hsame, tilde_scopedId] at hno
  exact Bool.noConfusion hno

/-- The native ids reach the backend at every replaced position exactly when `route` replaces
    nothing but fields. -/
theorem forward_native
    (h : forward reads reads' workspaces active localId message = .ok (workspace, input)) :
    (∀ kind path id, Routes kind "" message path id →
        NativeAt reads reads' workspace input path id) ↔
      ∀ kind path id, Routes kind "" message path id → kind = .field := by
  constructor
  · intro hnative kind path id hroutes
    by_contra hkind
    exact hroutes.scoped hkind h (hnative kind path id hroutes)
  · intro hfields kind path id hroutes
    have hkind := hfields kind path id hroutes
    subst hkind
    exact hroutes.native h

end Forward

section Witness

def demoGuid : String := "0b6a5b02-6c1e-4f0e-9d3a-2f5f3c1b7a90"

def demoWorkspace : Workspace where
  metadata := ⟨"ws", some "uid", none, none, [], none⟩
  spec := ⟨"project", "display", .Running, "profile", "HEAD", none, none, none, none⟩

def demoReads : Reads := fun _ => some (1, .active ⟨"ws", "uid", demoGuid⟩)

/-- A message with an agent of its own and a list of `agentIds`. -/
def demoMessage (agentIds : List Json) : Json :=
  .obj [("agentId", .str demoGuid), ("agentIds", .arr agentIds)]

def demoForward (agentIds : List Json) : Except AgentIdentity.Err (Workspace × Json) :=
  forward demoReads demoReads [demoWorkspace] [demoWorkspace] (fun _ => "local")
    (demoMessage agentIds)

theorem demoForward_ok (agentIds : List Json) (h : (demoForward agentIds).isOk = true) :
    ∃ workspace input, demoForward agentIds = .ok (workspace, input) := by
  rcases hforward : demoForward agentIds with e | ⟨workspace, input⟩
  · rw [hforward] at h
    exact absurd h Bool.false_ne_true
  · exact ⟨workspace, input, rfl⟩

theorem demo_creates (agentIds : List Json) :
    creates [("agentId", .str demoGuid), ("agentIds", .arr agentIds)] = false := by
  simp [creates, List.lookup_cons]

theorem forward_native_demo : ∃ workspace input, demoForward [] = .ok (workspace, input) ∧
    NativeAt demoReads demoReads workspace input [0] demoGuid := by
  obtain ⟨workspace, input, h⟩ := demoForward_ok [] (by decide +kernel)
  have hfields : ∀ kind path id, Routes kind "" (demoMessage []) path id → kind = .field := by
    intro kind path id hroutes
    cases hroutes with
    | field => rfl
    | @element _ _ _ items i j entry item =>
      have hitems : items = [] := by
        rcases i with _ | _ | i <;> simp_all
      simp [hitems] at item
    | @inField _ _ key _ _ value i _ entry walked =>
      rcases i with _ | _ | i
      · obtain ⟨rfl, rfl⟩ : "agentId" = key ∧ Json.str demoGuid = value := by simpa using entry
        exact walked.elim
      · obtain ⟨rfl, rfl⟩ : "agentIds" = key ∧ Json.arr [] = value := by simpa using entry
        exact absurd rfl walked.1
      · simp at entry
    | inGiven entry walked creating => simp [demo_creates] at creating
  have hagent : Routes .field "" (demoMessage []) [0] demoGuid :=
    .field rfl rfl (by simp [demo_creates])
  exact ⟨workspace, input, h, (forward_native h).mpr hfields _ _ _ hagent⟩

/-- An element of `agentIds` reaches the backend as a scoped id. -/
theorem agentIds_scoped :
    ∃ workspace input, demoForward [.str demoGuid] = .ok (workspace, input) ∧
      Routes .element "" (demoMessage [.str demoGuid]) [1, 0] demoGuid ∧
      ¬ NativeAt demoReads demoReads workspace input [1, 0] demoGuid := by
  obtain ⟨workspace, input, h⟩ := demoForward_ok [.str demoGuid] (by decide +kernel)
  have helement : Routes .element "" (demoMessage [.str demoGuid]) [1, 0] demoGuid :=
    .element rfl rfl
  exact ⟨workspace, input, h, helement, helement.scoped (by simp) h⟩

end Witness
end PaseoGateway.Routing

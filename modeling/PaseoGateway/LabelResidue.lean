/-
  PaseoGateway/LabelResidue.lean
  ==============================
  **Assignments without labels.**

  Unsetting the last label of a workspace drops its assignment; deleting a label only
  takes it out of the assignments.  So every stored assignment has a label exactly when
  no label was deleted that some workspace had as its only one (`Careful`).  As long as
  that is so, the rows of the catalog belong to workspaces that carry a label.
-/
import PaseoGateway.WorkspaceLabelsSafety

namespace PaseoGateway.WorkspaceLabels

open Async

variable {rt : Runtime} {state state' : CatalogState} {workspaces : List Workspace}

def Labelled (state : CatalogState) : Prop := ∀ row ∈ state.assignments, row.labels ≠ []

theorem Labelled.collect (h : Labelled state) (workspaces : List Workspace) :
    Labelled (collect workspaces state) := fun row hrow => h row (List.mem_filter.mp hrow).1

/-! ### One change -/

theorem labelled_assign {workspaceId workspaceUid name : String} {assigned : Bool}
    {rows : List Assignment} (h : ∀ row ∈ rows, row.labels ≠ []) :
    ∀ row ∈ (assign workspaceId workspaceUid name assigned rows).2, row.labels ≠ [] := by
  intro row hrow
  unfold assign at hrow
  simp only at hrow
  split at hrow
  · split at hrow
    · exact h row (List.eraseP_subset hrow)
    · rename_i hlabels
      rcases mem_replaceF hrow with hrow | ⟨r, _, hr⟩
      · exact h row hrow
      · simp only [Option.ite_none_right_eq_some, Option.some.injEq] at hr
        rw [← hr.2]
        exact hlabels
  · split at hrow
    · rcases List.mem_append.mp hrow with hrow | hrow
      · exact h row (List.mem_filter.mp hrow).1
      · rw [List.mem_singleton.mp hrow]
        simp
    · exact h row hrow

theorem labelled_set {principal : GatewayPrincipal} {workspace : Workspace} {uid : String}
    {label : Label} {assigned : Bool} {result : Outcome} (h : Labelled state)
    (hok : setAssignment principal workspace uid label assigned state workspaces =
      .ok (result, state')) : Labelled state' := by
  unfold setAssignment at hok
  simp only at hok
  split at hok
  · simp at hok
  · split at hok
    · simp at hok
    · split at hok
      · simp at hok
      · obtain ⟨-, rfl⟩ := Prod.mk.inj (Except.ok.inj hok)
        exact labelled_assign h

theorem labelled_update {current next : String} {color : Option String} {result : Outcome}
    (h : Labelled state)
    (hok : updateLabel rt current next color state workspaces = .ok (result, state')) :
    Labelled state' := by
  unfold updateLabel at hok
  simp only at hok
  split at hok
  · simp at hok
  · split at hok
    · simp at hok
    · split at hok
      · simp at hok
      · obtain ⟨-, rfl⟩ := Prod.mk.inj (Except.ok.inj hok)
        intro row hrow
        simp only at hrow
        split at hrow
        · obtain ⟨old, hold, rfl⟩ := List.mem_map.mp hrow
          simpa [renamed] using h old hold
        · exact h row hrow

/-- Taking a label out leaves nothing of the rows that had no other. -/
theorem labelled_delete {labelName : String} {result : Outcome} (h : Labelled state)
    (hdistinct : ∀ row ∈ state.assignments, row.labels.Nodup)
    (hok : deleteLabel labelName state workspaces = .ok (result, state')) :
    Labelled state' ↔ ∀ row ∈ state.assignments, row.labels ≠ [labelName] := by
  obtain ⟨-, rfl⟩ := Prod.mk.inj (Except.ok.inj hok)
  simp only [Labelled, List.mem_map, forall_exists_index, and_imp, forall_apply_eq_imp_iff₂]
  refine forall₂_congr fun row hrow => not_congr ?_
  constructor
  · intro hempty
    have hall : ∀ l ∈ row.labels, l = labelName := by
      intro l hl
      simpa using List.filter_eq_nil_iff.mp hempty l hl
    rcases hlabels : row.labels with _ | ⟨l, rest⟩
    · exact absurd hlabels (h row hrow)
    · have hnodup := hdistinct row hrow
      rw [hlabels] at hall hnodup
      have hrest : rest = [] := by
        refine List.eq_nil_iff_forall_not_mem.mpr fun m hm => ?_
        have heq : l = m := (hall l (by simp)).trans (hall m (by simp [hm])).symm
        exact (List.nodup_cons.mp hnodup).1 (heq ▸ hm)
      rw [hrest, hall l (by simp)]
  · intro hlabels
    simp [hlabels]

/-- The request deletes no label that is the only one of a workspace that still exists. -/
def Spares (workspaces : List Workspace) (state : CatalogState) : Message → Prop
  | .delete _ name => ∀ labelName, parseName name = some labelName →
      ∀ row ∈ (collect workspaces state).assignments, row.labels ≠ [labelName]
  | _ => True

theorem labelled_evaluate {principal : GatewayPrincipal} {message : Message} {fn : Change}
    {result : Outcome} (hreq : Requests rt principal message fn) (hcons : Consistent state)
    (hlabelled : Labelled state) (hok : evaluate rt fn workspaces state = .ok (result, state')) :
    Labelled state' ↔ Spares workspaces state message := by
  have hrun := (evaluate_ok hok).1
  have hcollected := hlabelled.collect workspaces
  cases message with
  | setAssignment requestId workspaceId label assigned =>
    obtain ⟨workspace, parsed, -, -, rfl⟩ := hreq
    exact iff_of_true (labelled_set hcollected hrun) trivial
  | update requestId name newName color =>
    obtain ⟨current, next, -, -, rfl⟩ := hreq
    exact iff_of_true (labelled_update hcollected hrun) trivial
  | delete requestId name =>
    obtain ⟨labelName, hname, rfl⟩ := hreq
    rw [labelled_delete hcollected (hcons.collect workspaces).distinct hrun]
    simp [Spares, hname]
  | _ => exact hreq.elim

/-! ### Every write -/

/-- Every write is a request's change that spares the last labels. -/
def Careful (rt : Runtime) : History → Prop
  | [] => True
  | e :: older => Careful rt older ∧ (e.key? = some .catalog →
      ∃ principal message fn tr result state, tr <:+ older ∧ Requests rt principal message fn ∧
        e.puts .catalog = some state ∧
        evaluate rt fn (workspacesOf tr) (current older) = .ok (result, state) ∧
        Spares (workspacesOf tr) (current older) message)

/-- Every catalog stored so far has a label in each of its rows. -/
def AllLabelled (tr : History) : Prop := ∀ n state, Stored tr n .catalog state → Labelled state

theorem AllLabelled.current {tr : History} (h : AllLabelled tr) : Labelled (current tr) := by
  rcases hlook : lookup .catalog tr with _ | ⟨n, state⟩
  · simp [WorkspaceLabels.current, hlook, Labelled]
  · simpa [WorkspaceLabels.current, hlook] using h n state (lookup_stored hlook)

theorem careful_iff {tr : History} (hkept : Kept rt tr) : AllLabelled tr ↔ Careful rt tr := by
  induction tr with
  | nil => exact iff_of_true (fun n state hs => by simpa using hs.lt) trivial
  | cons e older ih =>
    obtain ⟨hold, hwrite⟩ := hkept
    have hcons := hold.catalogued.2.1
    by_cases hkey : e.key? = some .catalog
    · constructor
      · intro hall
        have hbefore : AllLabelled older := fun n state hs => hall n state (hs.cons e)
        refine ⟨(ih hold).mp hbefore, fun _ => ?_⟩
        obtain ⟨principal, message, result, fn, tr, state, -, hto, hreq, hputs, heval⟩ := hwrite hkey
        have hnew : Labelled state := hall older.length state ⟨[], e, older, rfl, rfl, hputs⟩
        exact ⟨principal, message, fn, tr, result, state, hto, hreq, hputs, heval,
          (labelled_evaluate hreq hcons hbefore.current heval).mp hnew⟩
      · rintro ⟨hcareful, hspares⟩ n state hs
        have hbefore := (ih hold).mpr hcareful
        rcases hs.cons_cases with ⟨hputs', -⟩ | hs
        · obtain ⟨principal, message, fn, tr, result, state', -, hreq, hputs, heval, hspare⟩ :=
            hspares hkey
          rw [hputs, Option.some.injEq] at hputs'
          subst hputs'
          exact (labelled_evaluate hreq hcons hbefore.current heval).mpr hspare
        · exact hbefore n state hs
    · have hsame : AllLabelled (e :: older) ↔ AllLabelled older := by
        refine ⟨fun hall n state hs => hall n state (hs.cons e), fun hall n state hs => ?_⟩
        rcases hs.cons_cases with ⟨hputs, -⟩ | hs
        · exact absurd (Entry.key_of_puts hputs) hkey
        · exact hall n state hs
      rw [hsame, ih hold]
      exact ⟨fun hcareful => ⟨hcareful, fun h => absurd h hkey⟩, fun hcareful => hcareful.1⟩

/-! ### Capacity -/

/-- The name and the UID of a workspace. -/
def identity (workspace : Workspace) : String × Option String :=
  (workspace.metadata.name, workspace.metadata.uid)

/-- The workspaces that exist and carry a label. -/
def carrying (workspaces : List Workspace) (state : CatalogState) : List Workspace :=
  workspaces.filter fun w => w.metadata.deletionTimestamp.isNone && labelsFor state w != []

/-- The change would go through but for the number of rows. -/
def LacksRows (fn : Change) (workspaces : List Workspace) (state : CatalogState) : Prop :=
  ∃ result next, fn (collect workspaces state) workspaces = .ok (result, next) ∧
    256 < next.assignments.length

theorem refused_of_lacksRows {fn : Change} (h : LacksRows fn workspaces state) :
    evaluate rt fn workspaces state = .error .invalid := by
  obtain ⟨result, next, hok, hrows⟩ := h
  have hparse : parseCatalog rt next = none := by
    rw [parseCatalog, if_neg fun hsize => absurd hsize.2 (by omega)]
  simp [evaluate, hok, bind, Except.bind, hparse]

theorem isOf_key {workspace : Workspace} {row : Assignment} (h : isOf workspace row = true) :
    identity workspace = (row.workspaceId, some row.workspaceUid) := by
  simp only [isOf, Bool.and_eq_true, beq_iff_eq] at h
  simp [identity, h.1, h.2]

/-- The row of a workspace is the one its labels are read from. -/
theorem labelsFor_row (hcons : Consistent state) {workspace : Workspace} {row : Assignment}
    (hrow : row ∈ state.assignments) (hof : isOf workspace row = true) :
    labelsFor state workspace = row.labels := by
  rcases hfind : state.assignments.find? (isOf workspace) with _ | found
  · exact absurd hof (List.find?_eq_none.mp hfind row hrow)
  · have hkey : found.key = row.key := by
      have heq := (isOf_key (List.find?_some hfind)).symm.trans (isOf_key hof)
      simp only [Prod.mk.injEq, Option.some.injEq] at heq
      exact Prod.ext heq.1 heq.2
    have hsame := List.inj_on_of_nodup_map hcons.single (List.mem_of_find?_eq_some hfind) hrow hkey
    simp [labelsFor, hfind, hsame]

theorem carried (hcons : Consistent state) (hlabelled : Labelled state) {row : Assignment}
    (hrow : row ∈ (collect workspaces state).assignments) :
    ∃ w ∈ carrying workspaces state, isOf w row = true := by
  obtain ⟨hmem, hany⟩ := List.mem_filter.mp hrow
  obtain ⟨w, hw, hof⟩ := List.any_eq_true.mp hany
  simp only [Bool.and_eq_true] at hof
  refine ⟨w, List.mem_filter.mpr ⟨hw, ?_⟩, hof.1⟩
  simp [hof.2, labelsFor_row hcons hmem hof.1, hlabelled row hmem]

theorem rows_le_carrying (hcons : Consistent state) (hlabelled : Labelled state) :
    (collect workspaces state).assignments.length ≤
      ((carrying workspaces state).map identity).dedup.length := by
  let key := fun row : Assignment => (row.workspaceId, some row.workspaceUid)
  have hnodup : ((collect workspaces state).assignments.map key).Nodup := by
    refine List.Nodup.of_map (fun p : String × Option String => (p.1, p.2.getD "")) ?_
    rw [List.map_map]
    exact (hcons.collect workspaces).single
  have hsub : (collect workspaces state).assignments.map key ⊆
      ((carrying workspaces state).map identity).dedup := by
    intro k hk
    obtain ⟨row, hrow, rfl⟩ := List.mem_map.mp hk
    obtain ⟨w, hw, hof⟩ := carried hcons hlabelled hrow
    exact List.mem_dedup.mpr (List.mem_map.mpr ⟨w, hw, isOf_key hof⟩)
  simpa using (List.subperm_of_subset hnodup hsub).length_le

theorem length_assign (workspaceId workspaceUid name : String) (assigned : Bool)
    (rows : List Assignment) :
    (assign workspaceId workspaceUid name assigned rows).2.length ≤ rows.length + 1 := by
  unfold assign
  simp only
  split
  · split
    · exact (List.length_eraseP_le).trans (Nat.le_succ _)
    · simp [List.length_replaceF]
  · split
    · have hfilter := List.length_filter_le (·.workspaceId != workspaceId) rows
      simp only [List.length_append, List.length_singleton]
      omega
    · exact Nat.le_succ _

theorem length_set {principal : GatewayPrincipal} {workspace : Workspace} {uid : String}
    {label : Label} {assigned : Bool} {result : Outcome}
    (hok : setAssignment principal workspace uid label assigned state workspaces =
      .ok (result, state')) : state'.assignments.length ≤ state.assignments.length + 1 := by
  unfold setAssignment at hok
  simp only at hok
  split at hok
  · simp at hok
  · split at hok
    · simp at hok
    · split at hok
      · simp at hok
      · obtain ⟨-, rfl⟩ := Prod.mk.inj (Except.ok.inj hok)
        exact length_assign _ _ _ _ _

/-! ### Every run -/

/-- Nothing is left of a deleted label. -/
structure NoResidue (tr : History) : Prop where
  labelled : AllLabelled tr
  /-- a row that counts is of a workspace that exists and carries a label -/
  carried : ∀ workspaces, ∀ row ∈ (collect workspaces (current tr)).assignments,
    ∃ w ∈ carrying workspaces (current tr), isOf w row = true
  /-- a label cannot be set for lack of rows only if 256 workspaces carry one -/
  full : ∀ principal workspace uid label assigned workspaces,
    LacksRows (setAssignment principal workspace uid label assigned) workspaces (current tr) →
      256 ≤ ((carrying workspaces (current tr)).map identity).dedup.length

theorem no_residue_iff (rt : Runtime) (c : (machine rt).Config) (h : (machine rt).Reachable c) :
    NoResidue c.world.trace ↔ Careful rt c.world.trace := by
  have hkept : Kept rt c.world.trace := ((sound rt).reachable h).inv
  have hcons := hkept.catalogued.2.1
  rw [← careful_iff hkept]
  refine ⟨NoResidue.labelled, fun hall => ⟨hall, fun workspaces row hrow => ?_, ?_⟩⟩
  · exact WorkspaceLabels.carried hcons hall.current hrow
  · rintro principal workspace uid label assigned workspaces ⟨result, next, hok, hrows⟩
    have hlength := length_set hok
    have hcarrying := @rows_le_carrying _ workspaces hcons hall.current
    omega

/-! ### A label is deleted -/

def demoDelete : Call := .handle 1 (.delete "request" "Reviewed") .owner 0

/-- A label is set on a workspace and then deleted. -/
def residueRun : List (machine demoRuntime).Move :=
  let setter : Tid := ⟨0, 0⟩
  let deleter : Tid := ⟨0, 1⟩
  [.env (.workspaces [demoWorkspace]), .start 0 (demoSet "Reviewed"),
    demoAsk setter, demoAsk setter, demoStore setter, demoStore setter, .start 0 demoDelete,
    demoAsk deleter, demoAsk deleter, demoStore deleter, demoStore deleter]

/-- Decides for a history whether all its writes are labelled. -/
def labelledWrites (tr : History) : Bool :=
  tr.all fun e => (e.puts .catalog).all fun state => state.assignments.all (·.labels ≠ [])

theorem allLabelled_of_writes {tr : History} (h : labelledWrites tr) : AllLabelled tr := by
  rintro n state ⟨newer, e, older, rfl, -, hputs⟩ row hrow
  have he := List.all_eq_true.mp h e (by simp)
  rw [hputs] at he
  simpa using List.all_eq_true.mp he row hrow

/-- Two labels are set on a workspace and the first is deleted. -/
def carefulRun : List (machine demoRuntime).Move :=
  let first : Tid := ⟨0, 0⟩
  let second : Tid := ⟨0, 1⟩
  let deleter : Tid := ⟨0, 2⟩
  [.env (.workspaces [demoWorkspace]), .start 0 (demoSet "Reviewed"),
    demoAsk first, demoAsk first, demoStore first, demoStore first, .start 0 (demoSet "Kept"),
    demoAsk second, demoAsk second, demoStore second, demoStore second, .start 0 demoDelete,
    demoAsk deleter, demoAsk deleter, demoStore deleter, demoStore deleter]

theorem no_residue_demo : ∃ c : (machine demoRuntime).Config,
    (machine demoRuntime).initial.moves carefulRun = some c ∧
      current c.world.trace =
        { labels := [⟨"Kept", "blue"⟩], assignments := [⟨"ws", "uid", ["Kept"]⟩] } ∧
      Careful demoRuntime c.world.trace ∧ NoResidue c.world.trace := by
  have hrun : ((machine demoRuntime).initial.moves carefulRun).map
      (fun c => (current c.world.trace, labelledWrites c.world.trace)) =
        some ({ labels := [⟨"Kept", "blue"⟩], assignments := [⟨"ws", "uid", ["Kept"]⟩] },
          true) := by
    rfl
  obtain ⟨c, hc, hshows⟩ := Option.map_eq_some_iff.mp hrun
  obtain ⟨hcurrent, hwrites⟩ := Prod.mk.inj hshows
  have hreach := Machine.Reachable.init.moves hc
  have hkept : Kept demoRuntime c.world.trace := ((sound demoRuntime).reachable hreach).inv
  have hcareful := (careful_iff hkept).mp (allLabelled_of_writes hwrites)
  exact ⟨c, hc, hcurrent, hcareful, (no_residue_iff demoRuntime c hreach).mpr hcareful⟩

/-- The row of the workspace stays without its label. -/
theorem delete_leaves_row : ∃ c : (machine demoRuntime).Config,
    (machine demoRuntime).initial.moves residueRun = some c ∧
      current c.world.trace = { assignments := [⟨"ws", "uid", []⟩] } ∧
      ¬ NoResidue c.world.trace := by
  have hrun : ((machine demoRuntime).initial.moves residueRun).map
      (fun c => current c.world.trace) = some { assignments := [⟨"ws", "uid", []⟩] } := by
    rfl
  obtain ⟨c, hc, hcurrent⟩ := Option.map_eq_some_iff.mp hrun
  refine ⟨c, hc, hcurrent, fun hno => ?_⟩
  have hlabelled := hno.labelled.current
  rw [hcurrent] at hlabelled
  exact hlabelled ⟨"ws", "uid", []⟩ (List.mem_singleton_self _) rfl

end PaseoGateway.WorkspaceLabels

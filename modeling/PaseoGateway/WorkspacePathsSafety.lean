/-
  PaseoGateway/WorkspacePathsSafety.lean
  ======================================
  **Accepted paths stay in the selected workspace.**

  The walkers between a client message and the backend leave its paths
  (`route_keeps`, `translate_keeps`), so what is checked of one of them holds of all.  The
  three checks compare texts of normalized paths; each comes down to a prefix of what the
  paths resolve to (`selected_inside`, `download_inside`, `file_inside`).
-/
import PaseoGateway.CredentialSchema
import PaseoGateway.RoutingAgreement
import PaseoGateway.WorkspacePaths

namespace PaseoGateway.WorkspacePaths

open LexicalPath (isAbsolute resolve resolve_prefix resolve_normalize isAbsolute_normalize
  isAbsolute_iff prefix_of_relative prefix_of_descent)
open Routing (route routeFields routeField translateFields translateField
  selectWorkspace normalize requestedCwd cwdCandidates ofMessage Reads lookup_numbered
  lookup_walked ok_of_bind ofMessage_ok creates)

/-! ### What the walkers leave -/

/-- The two values are one, or both are lists, or both are objects. -/
def Shaped (value out : Json) : Prop :=
  out = value ∨ (∃ items items', value = .arr items ∧ out = .arr items') ∨
    ∃ fields fields', value = .obj fields ∧ out = .obj fields'

/-- The fields with these values stand in both messages. -/
def FieldShaped (message out : Json) (key : String) : Prop :=
  (message.field? key = none ∧ out.field? key = none) ∨
    ∃ item item', message.field? key = some item ∧ out.field? key = some item' ∧ Shaped item item'

/-- The paths of a message, its type and its configuration are those of the other. -/
structure Keeps (message out : Json) : Prop where
  shaped : ∀ key ∈ ["type", "cwd", "path"], FieldShaped message out key
  config : out.field? "config" = message.field? "config"

theorem FieldShaped.text {message out : Json} {key : String} (h : FieldShaped message out key) :
    textOf out key = textOf message key := by
  rcases h with ⟨hnone, hnone'⟩ | ⟨item, item', hitem, hitem', hshaped⟩
  · rw [textOf, textOf, hnone, hnone']
  · rw [textOf, textOf, hitem, hitem']
    rcases hshaped with rfl | ⟨items, items', rfl, rfl⟩ | ⟨fields, fields', rfl, rfl⟩ <;> rfl

/-- `message.cwd ?? config.cwd`, when it is a text -/
def cwdOf (message : Json) : Option String :=
  match requestedCwd message with
  | .ok (some (.str cwd)) => some cwd
  | _ => none

theorem Keeps.cwd {message out : Json} (h : Keeps message out) : cwdOf out = cwdOf message := by
  have hcwd := h.shaped "cwd" (by simp)
  rw [cwdOf, cwdOf, requestedCwd, requestedCwd, h.config]
  rcases hcwd with ⟨hnone, hnone'⟩ | ⟨item, item', hitem, hitem', hshaped⟩
  · rw [hnone, hnone']
  · rw [hitem, hitem']
    generalize message.field? "config" = config
    rcases hshaped with rfl | ⟨items, items', rfl, rfl⟩ | ⟨fields, fields', rfl, rfl⟩
    · rfl
    · rcases config with _ | config
      · rfl
      · cases config <;> rfl
    · rcases config with _ | config
      · rfl
      · cases config <;> rfl

theorem Keeps.trans {message middle out : Json} (h : Keeps message middle) (h' : Keeps middle out) :
    Keeps message out := by
  refine ⟨fun key hkey => ?_, h'.config.trans h.config⟩
  rcases h.shaped key hkey with ⟨hnone, hnone'⟩ | ⟨item, item', hitem, hitem', hshaped⟩
  · rcases h'.shaped key hkey with ⟨_, hout⟩ | ⟨next, _, hnext, _⟩
    · exact .inl ⟨hnone, hout⟩
    · rw [hnone'] at hnext
      cases hnext
  · rcases h'.shaped key hkey with ⟨hnone, _⟩ | ⟨next, next', hnext, hnext', hshaped'⟩
    · rw [hitem'] at hnone
      cases hnone
    · obtain rfl := Option.some.inj (hitem'.symm.trans hnext)
      refine .inr ⟨item, next', hitem, hnext', ?_⟩
      rcases hshaped with rfl | ⟨items, items', rfl, rfl⟩ | ⟨fields, fields', rfl, rfl⟩
      · exact hshaped'
      · rcases hshaped' with rfl | ⟨_, items'', _, rfl⟩ | ⟨_, _, hobj, _⟩
        · exact .inr (.inl ⟨items, items', rfl, rfl⟩)
        · exact .inr (.inl ⟨items, items'', rfl, rfl⟩)
        · cases hobj
      · rcases hshaped' with rfl | ⟨_, _, harr, _⟩ | ⟨_, fields'', _, rfl⟩
        · exact .inr (.inr ⟨fields, fields', rfl, rfl⟩)
        · cases harr
        · exact .inr (.inr ⟨fields, fields'', rfl, rfl⟩)

section Walkers

variable {workspaces : List Workspace} {workspace : Workspace} {localId : String} {reads : Reads}
variable {message out item item' : Json} {key : String} {creating : Bool}

/-- A walk over the fields keeps the message, when its step over these fields does. -/
theorem keeps_of_fields {fields fields' : List (String × Json)}
    (h : ∀ key, (fields.lookup key = none ∧ fields'.lookup key = none) ∨
      ∃ item item', fields.lookup key = some item ∧ fields'.lookup key = some item' ∧
        (key ∈ ["type", "cwd", "path"] → Shaped item item') ∧ (key = "config" → item' = item)) :
    Keeps (.obj fields) (.obj fields') := by
  refine ⟨fun key hkey => ?_, ?_⟩
  · rcases h key with hnone | ⟨item, item', hitem, hitem', hshaped, _⟩
    · exact .inl hnone
    · exact .inr ⟨item, item', hitem, hitem', hshaped hkey⟩
  · rcases h "config" with ⟨hnone, hnone'⟩ | ⟨item, item', hitem, hitem', _, hsame⟩
    · exact hnone'.trans hnone.symm
    · rw [Json.field?, Json.field?, hitem, hitem', hsame rfl]

theorem keeps_of_bare (h : ∀ key, message.field? key = none) (h' : ∀ key, out.field? key = none) :
    Keeps message out :=
  ⟨fun key _ => .inl ⟨h key, h' key⟩, (h' _).trans (h _).symm⟩

theorem translateField_keeps (hkey : key ∈ ["type", "cwd", "path"])
    (h : translateField workspace localId .inward "" creating key item = .ok item') :
    Shaped item item' := by
  have hplain : Routing.chosen .inward creating key = false ∧ Routing.scopedField key "" = false ∧
      key ≠ "workspaceId" ∧ Routing.projectField .inward key = false ∧
      Routing.opaqueKeys.contains key = false := by
    simp only [List.mem_cons, List.not_mem_nil, or_false] at hkey
    rcases hkey with rfl | rfl | rfl <;>
      simp [Routing.chosen, Routing.scopedField, Routing.scopedKeys, Routing.projectField,
        Routing.opaqueKeys]
  obtain ⟨hchosen, hscoped, hworkspace, hproject, hopaque⟩ := hplain
  cases item with
  | arr items =>
    simp only [translateField, hchosen, hproject, hopaque, Bool.false_eq_true, if_false] at h
    obtain ⟨items', _, hok⟩ := ok_of_bind h
    exact .inr (.inl ⟨items, items', rfl, (Except.ok.inj hok).symm⟩)
  | obj fields =>
    simp only [translateField, hchosen, hproject, hopaque, Bool.false_eq_true, if_false] at h
    obtain ⟨fields', _, hok⟩ := ok_of_bind h
    exact .inr (.inr ⟨fields, fields', rfl, (Except.ok.inj hok).symm⟩)
  | str text =>
    simp only [translateField, hchosen, hscoped, hworkspace, hproject, Bool.false_eq_true,
      if_false, Except.ok.injEq] at h
    exact .inl h.symm
  | _ =>
    simp only [translateField, hchosen, hproject, Bool.false_eq_true, if_false,
      Except.ok.injEq] at h
    exact .inl h.symm

theorem translateField_config
    (h : translateField workspace localId .inward "" creating "config" item = .ok item') :
    item' = item := by
  cases item <;>
    simp_all [translateField, Routing.chosen, Routing.scopedField, Routing.scopedKeys,
      Routing.projectField, Routing.opaqueKeys]

theorem translate_keeps
    (h : Routing.translate workspace localId .inward "" message = .ok out) : Keeps message out := by
  cases message with
  | obj fields =>
    rw [Routing.translate] at h
    obtain ⟨fields', hfields, hok⟩ := ok_of_bind h
    obtain rfl := Except.ok.inj hok
    refine keeps_of_fields fun key => ?_
    rcases lookup_walked (translateFields workspace localId .inward "" (creates fields))
      (translateField workspace localId .inward "" (creates fields)) (by rw [translateFields])
      (fun key item rest => by rw [translateFields]) hfields key with
      hnone | ⟨item, item', hitem, hitem', hstep⟩
    · exact .inl hnone
    · exact .inr ⟨item, item', hitem, hitem', fun hkey => translateField_keeps hkey hstep,
        fun hkey => translateField_config (hkey ▸ hstep)⟩
  | arr items =>
    rw [Routing.translate] at h
    obtain ⟨items', _, hok⟩ := ok_of_bind h
    obtain rfl := Except.ok.inj hok
    exact keeps_of_bare (fun _ => rfl) fun _ => rfl
  | _ =>
    simp only [Routing.translate, Except.ok.injEq] at h
    subst h
    exact keeps_of_bare (fun _ => rfl) fun _ => rfl

theorem routeField_keeps (hkey : key ∈ ["type", "cwd", "path"])
    (h : routeField workspaces reads "" creating key item = .ok item') : Shaped item item' := by
  have hplain : AgentIdentity.agentField key "" = false ∧ key ≠ "agentIds" ∧
      AgentIdentity.opaqueKeys.contains key = false := by
    simp only [List.mem_cons, List.not_mem_nil, or_false] at hkey
    rcases hkey with rfl | rfl | rfl <;>
      simp [AgentIdentity.agentField, AgentIdentity.agentKeys, AgentIdentity.opaqueKeys]
  obtain ⟨hagent, hids, hopaque⟩ := hplain
  cases item with
  | arr items =>
    simp only [routeField, hids, hopaque, Bool.false_eq_true, if_false] at h
    obtain ⟨items', _, hok⟩ := ok_of_bind h
    exact .inr (.inl ⟨items, items', rfl, (Except.ok.inj hok).symm⟩)
  | obj fields =>
    simp only [routeField, hopaque, Bool.false_eq_true, if_false] at h
    obtain ⟨fields', _, hok⟩ := ok_of_bind h
    exact .inr (.inr ⟨fields, fields', rfl, (Except.ok.inj hok).symm⟩)
  | str text =>
    simp only [routeField, hagent, Bool.false_and, Bool.false_eq_true, if_false,
      Except.ok.injEq] at h
    exact .inl h.symm
  | _ =>
    simp only [routeField, Except.ok.injEq] at h
    exact .inl h.symm

theorem routeField_config
    (h : routeField workspaces reads "" creating "config" item = .ok item') : item' = item := by
  cases item <;>
    simp_all [routeField, AgentIdentity.agentField, AgentIdentity.agentKeys,
      AgentIdentity.opaqueKeys]

theorem route_keeps (h : route workspaces reads "" message = .ok out) : Keeps message out := by
  cases message with
  | obj fields =>
    rw [route] at h
    obtain ⟨fields', hfields, hok⟩ := ok_of_bind h
    obtain rfl := Except.ok.inj hok
    refine keeps_of_fields fun key => ?_
    rcases lookup_numbered (routeFields workspaces reads "" (creates fields))
      (fun number => routeField workspaces (fun path => reads (number :: path)) "" (creates fields))
      (fun _ => by rw [routeFields]) (fun _ key item rest => by rw [routeFields]) hfields key with
      hnone | ⟨number, item, item', hitem, hitem', hstep⟩
    · exact .inl hnone
    · exact .inr ⟨item, item', hitem, hitem', fun hkey => routeField_keeps hkey hstep,
        fun hkey => routeField_config (hkey ▸ hstep)⟩
  | arr items =>
    rw [route] at h
    obtain ⟨items', _, hok⟩ := ok_of_bind h
    obtain rfl := Except.ok.inj hok
    exact keeps_of_bare (fun _ => rfl) fun _ => rfl
  | _ =>
    simp only [route, Except.ok.injEq] at h
    subst h
    exact keeps_of_bare (fun _ => rfl) fun _ => rfl

end Walkers

/-! ### The checks -/

/-- The directories lie at the mount of the workspace or below. -/
def Inside (workspace : String) (dirs : List String) : Prop :=
  resolve [] (workspacePath workspace) <+: dirs

section Checks

variable {workspace : Workspace} {workspaces active : List Workspace} {message : Json}
variable {processDir : List String} {cwd path id : String} {downloads : Bool}

theorem absolute_root (id : String) : ∃ rest, workspacePath id = "/" ++ rest :=
  ⟨"workspaces/" ++ id, by rw [workspacePath, ← String.append_assoc]; rfl⟩

/-- A path whose normalized text is within the root of a workspace lies inside it. -/
theorem inside_of_within (h : within (workspacePath id) (normalize path) = true) :
    isAbsolute path = true ∧ Inside id (resolve [] path) := by
  have hroot : normalize path = workspacePath id ∨
      (workspacePath id ++ "/").toList <+: (normalize path).toList := by
    simpa [within] using h
  have habsolute : isAbsolute path = true := by
    rw [← isAbsolute_normalize, isAbsolute_iff]
    obtain ⟨rest, hrest⟩ := absolute_root id
    rcases hroot with heq | ⟨more, hmore⟩
    · exact ⟨rest, heq.trans hrest⟩
    · refine ⟨rest ++ "/" ++ String.ofList more, String.toList_inj.mp ?_⟩
      rw [← hmore, hrest]
      simp
  exact ⟨habsolute, resolve_prefix habsolute hroot⟩

/-- What `selectWorkspace` has found when it selects. -/
theorem selectWorkspace_ok (h : selectWorkspace message active = .ok workspace) :
    ∃ others requested located, requestedCwd message = .ok requested ∧
      cwdCandidates requested active = .ok located ∧
      (others ++ located).dedup.length = 1 ∧
      workspace.metadata.name ∈ (others ++ located).dedup := by
  unfold selectWorkspace at h
  obtain ⟨byId, _, h⟩ := ok_of_bind h
  obtain ⟨requested, hrequested, h⟩ := ok_of_bind h
  obtain ⟨located, hlocated, h⟩ := ok_of_bind h
  dsimp only at h
  obtain ⟨hmany, hselected⟩ := ite_eq_iff'.mp h
  have hone := not_not.mp fun hne => by cases hmany hne
  replace hselected := hselected (not_not.mpr hone)
  split at hselected
  · cases hselected
  · rename_i selected hfound
    obtain rfl := Except.ok.inj hselected
    exact ⟨_, requested, located, hrequested, hlocated, hone, by simpa using List.find?_some hfound⟩

/-- The directory of a message lies in the workspace that is selected for it. -/
theorem selected_inside (h : selectWorkspace message active = .ok workspace)
    (hcwd : cwdOf message = some cwd) :
    isAbsolute cwd = true ∧ Inside workspace.metadata.name (resolve [] cwd) := by
  obtain ⟨others, requested, located, hrequested, hlocated, hone, hname⟩ := selectWorkspace_ok h
  obtain rfl : requested = some (.str cwd) := by
    rw [cwdOf, hrequested] at hcwd
    split at hcwd
    · rename_i hfound
      cases hfound
      rw [Option.some.inj hcwd]
    · cases hcwd
  rw [cwdCandidates] at hlocated
  split at hlocated
  · cases hlocated
  · rename_i found hfound
    obtain rfl := Except.ok.inj hlocated
    -- the only candidate is the workspace of the directory
    obtain ⟨name, hnames⟩ := List.length_eq_one_iff.mp hone
    have hin : found.metadata.name ∈ (others ++ [found.metadata.name]).dedup :=
      List.mem_dedup.mpr (List.mem_append_right _ (List.mem_singleton_self _))
    rw [hnames] at hin hname
    rw [List.mem_singleton.mp hname, ← List.mem_singleton.mp hin]
    have hwithin := List.find?_some hfound
    exact inside_of_within hwithin

theorem download_inside (h : checkDownload downloads workspace message = .ok ())
    (htype : textOf message "type" = some "file_download_token_request") :
    ∃ path, textOf message "path" = some path ∧ isAbsolute path = true ∧
      Inside workspace.metadata.name (resolve [] path) := by
  rw [checkDownload, if_pos htype] at h
  split at h
  · cases h
  · rename_i path hpath
    split at h
    · cases h
    · rename_i hcheck
      simp only [Bool.or_eq_true, Bool.not_eq_true', not_or, Bool.not_eq_false] at hcheck
      exact ⟨path, hpath, inside_of_within hcheck.2⟩

/-- The file of a checked path lies in the directory it is taken from. -/
theorem relativeFilePath_inside {relative : String} (hcwd : isAbsolute cwd = true)
    (h : relativeFilePath processDir cwd path = .ok relative) :
    resolve [] cwd <+: resolve (resolve [] cwd) path := by
  have hcore : ∀ {text : String},
      (if text = ".." ∨ "../".toList.isPrefixOf text.toList ∨ isAbsolute text then
        (Except.error "File path is outside the selected workspace" : Except String String)
      else .ok text) = .ok relative →
      text ≠ ".." ∧ ¬ "../".toList <+: text.toList := by
    intro text htext
    split at htext
    · cases htext
    · rename_i hcheck
      simp only [not_or, List.isPrefixOf_iff_prefix] at hcheck
      exact ⟨hcheck.1, hcheck.2.1⟩
  obtain ⟨hdots, hup⟩ := hcore h
  rcases habsolute : isAbsolute path
  · rw [habsolute, if_neg (by simp)] at hdots hup
    exact prefix_of_relative habsolute hdots hup _
  · rw [habsolute, if_pos rfl] at hdots hup
    have hbelow := prefix_of_descent hdots hup
    rw [resolve_normalize hcwd, resolve_normalize habsolute] at hbelow
    rw [resolve, resolve, ite_self, habsolute, if_pos rfl]
    rwa [resolve, resolve, ite_self, ite_self] at hbelow

/-- The directory of a message that has one. -/
theorem cwdOf_text (hselected : selectWorkspace message active = .ok workspace)
    (hcwd : textOf message "cwd" = some cwd) : cwdOf message = some cwd := by
  have hfield : message.field? "cwd" = some (.str cwd) := by
    rw [textOf] at hcwd
    split at hcwd
    · rename_i text hfound
      rw [hfound, Option.some.inj hcwd]
    · cases hcwd
  obtain ⟨_, requested, _, hrequested, -⟩ := selectWorkspace_ok hselected
  rw [cwdOf, hrequested]
  rw [requestedCwd, hfield] at hrequested
  split at hrequested
  · cases hrequested
  · obtain rfl := Except.ok.inj hrequested
    rfl

theorem file_inside {active : List Workspace} {input : Json}
    (hselected : selectWorkspace message active = .ok workspace) (hkeeps : Keeps message input)
    (h : checkFile processDir input = .ok ()) (htype : filesMessage message = true) :
    ∃ cwd path, textOf message "cwd" = some cwd ∧ textOf message "path" = some path ∧
      Inside workspace.metadata.name (resolve (resolve [] cwd) path) := by
  have htext : ∀ key ∈ ["type", "cwd", "path"], textOf input key = textOf message key :=
    fun key hkey => (hkeeps.shaped key hkey).text
  have htype' : filesMessage input = true := by
    rw [← htype, filesMessage, filesMessage, htext "type" (by simp)]
  rw [checkFile, if_pos htype', htext "cwd" (by simp), htext "path" (by simp)] at h
  split at h
  · rename_i cwd path hcwd hpath
    obtain ⟨relative, hrelative, -⟩ := ok_of_bind h
    obtain ⟨habsolute, hinside⟩ := selected_inside hselected (cwdOf_text hselected hcwd)
    exact ⟨cwd, path, hcwd, hpath, hinside.trans (relativeFilePath_inside habsolute hrelative)⟩
  · cases h

/-- The directory that an agent is created in. -/
theorem agentCwd_inside {created sent : String} {request : CreateAgent}
    (h : agentCwd workspaces created request = .ok (id, sent)) : Inside id (resolve [] sent) ∧
      (reusingWorkspace workspaces request = true → Inside id (resolve [] request.cwd)) := by
  rw [agentCwd] at h
  rcases hreusing : reusingWorkspace workspaces request
  · rw [hreusing] at h
    simp only [Bool.false_and, Bool.false_eq_true, if_false, Except.ok.injEq,
      Prod.mk.injEq] at h
    obtain ⟨rfl, rfl⟩ := h
    exact ⟨List.prefix_rfl, by simp⟩
  · rw [hreusing] at h
    simp only [Bool.true_and, if_true] at h
    split at h
    · cases h
    · rename_i hwithin
      obtain ⟨rfl, rfl⟩ := Prod.mk.inj (Except.ok.inj h)
      obtain ⟨habsolute, hinside⟩ := inside_of_within (by simpa using hwithin)
      exact ⟨by rwa [resolve_normalize habsolute], fun _ => hinside⟩

end Checks

/-! ### Every accepted message -/

/-- The paths that a message carries lie in the workspace. -/
structure Contained (workspace : Workspace) (message : Json) : Prop where
  cwd : ∀ cwd, cwdOf message = some cwd →
    isAbsolute cwd = true ∧ Inside workspace.metadata.name (resolve [] cwd)
  download : textOf message "type" = some "file_download_token_request" →
    ∃ path, textOf message "path" = some path ∧ isAbsolute path = true ∧
      Inside workspace.metadata.name (resolve [] path)
  /-- a relative path starts at the directory of the message -/
  file : filesMessage message = true →
    ∃ cwd path, textOf message "cwd" = some cwd ∧ textOf message "path" = some path ∧
      Inside workspace.metadata.name (resolve (resolve [] cwd) path)

theorem Contained.keeps {workspace : Workspace} {message out : Json} (h : Contained workspace message)
    (hkeeps : Keeps message out) : Contained workspace out := by
  have htext : ∀ key ∈ ["type", "cwd", "path"], textOf out key = textOf message key :=
    fun key hkey => (hkeeps.shaped key hkey).text
  constructor
  · intro cwd hcwd
    exact h.cwd cwd (by rwa [← hkeeps.cwd])
  · intro htype
    rw [htext "type" (by simp)] at htype
    rw [htext "path" (by simp)]
    exact h.download htype
  · intro htype
    rw [filesMessage, htext "type" (by simp)] at htype
    rw [htext "cwd" (by simp), htext "path" (by simp)]
    exact h.file htype

/-- The fields stand in the other message as they stand in the one. -/
theorem Keeps.symm {message out : Json} (h : Keeps message out) : Keeps out message := by
  refine ⟨fun key hkey => ?_, h.config.symm⟩
  rcases h.shaped key hkey with ⟨hnone, hnone'⟩ | ⟨item, item', hitem, hitem', hshaped⟩
  · exact .inl ⟨hnone', hnone⟩
  · refine .inr ⟨item', item, hitem', hitem, ?_⟩
    rcases hshaped with rfl | ⟨items, items', rfl, rfl⟩ | ⟨fields, fields', rfl, rfl⟩
    · exact .inl rfl
    · exact .inr (.inl ⟨items', items, rfl, rfl⟩)
    · exact .inr (.inr ⟨fields', fields, rfl, rfl⟩)

/-- The checks of the paths, whatever the authorized workspaces. -/
structure Confined (processDir : List String) : Prop where
  /-- of what is forwarded, the message of the client and what the backend gets -/
  forwarded : ∀ downloads reads reads' workspaces active localId message workspace input,
    forwardChecked processDir downloads reads reads' workspaces active localId message =
      .ok (workspace, input) → Contained workspace message ∧ Contained workspace input
  /-- of what `selectWorkspace` takes -/
  selected : ∀ message active workspace cwd, selectWorkspace message active = .ok workspace →
    cwdOf message = some cwd → Inside workspace.metadata.name (resolve [] cwd)
  /-- of what an agent is created by: the directory that is sent, and the one that is asked for
      when an existing workspace is selected -/
  created : ∀ workspaces created request id sent,
    agentCwd workspaces created request = .ok (id, sent) → Inside id (resolve [] sent) ∧
      (reusingWorkspace workspaces request = true → Inside id (resolve [] request.cwd))
  /-- the mount of a workspace is one directory below the root of all -/
  root : ∀ id, PaseoGateway.Credentials.name id = true → resolve [] (workspacePath id) = ["workspaces", id]

theorem resolve_root {id : String} (h : PaseoGateway.Credentials.name id = true) :
    resolve [] (workspacePath id) = ["workspaces", id] := by
  have hplain : LexicalPath.Plain id := by
    refine ⟨?_, ?_, ?_, fun hslash => ?_⟩
    · rintro rfl
      revert h
      decide
    · rintro rfl
      revert h
      decide
    · rintro rfl
      revert h
      decide
    · simp only [PaseoGateway.Credentials.name, PaseoGateway.Credentials.matchesClass,
        Bool.and_eq_true, List.all_eq_true] at h
      have hclass := h.1.1.2 '/' hslash
      revert hclass
      decide
  have hid : Js.segments id = [id] := by
    rw [Js.segments, List.splitOn_eq_singleton hplain.noSlash]
    simp
  have hsegments : Js.segments (workspacePath id) = ["", "workspaces", id] := by
    have hfront := LexicalPath.segments_append "/workspaces" id
    rw [hid] at hfront
    rw [workspacePath, show "/workspaces/" ++ id = "/workspaces" ++ "/" ++ id from rfl, hfront]
    rfl
  rw [resolve, ite_self, hsegments, List.foldl_cons, LexicalPath.enter_empty]
  refine LexicalPath.foldl_enter_plain fun segment hsegment => ?_
  simp only [List.mem_cons, List.not_mem_nil, or_false] at hsegment
  rcases hsegment with rfl | rfl
  · exact ⟨by decide, by decide, by decide, by decide⟩
  · exact hplain

theorem paths_confined (processDir : List String) : Confined processDir where
  forwarded := by
    intro downloads reads reads' workspaces active localId message workspace input h
    obtain ⟨routed, hrouted, h⟩ := ok_of_bind h
    obtain ⟨selected, hselected, h⟩ := ok_of_bind h
    obtain ⟨again, hagain, h⟩ := ok_of_bind h
    obtain ⟨_, hdownload, h⟩ := ok_of_bind h
    obtain ⟨translated, htranslated, h⟩ := ok_of_bind h
    obtain ⟨_, hfile, h⟩ := ok_of_bind h
    obtain ⟨rfl, rfl⟩ := Prod.mk.inj (Except.ok.inj h)
    have hin := route_keeps hrouted
    have hout := (route_keeps hagain).trans (translate_keeps (ofMessage_ok htranslated))
    have hcontained : Contained selected routed := by
      have hselected := ofMessage_ok hselected
      exact ⟨fun cwd hcwd => selected_inside hselected hcwd,
        fun htype => download_inside (ofMessage_ok hdownload) htype,
        fun htype => file_inside hselected hout (ofMessage_ok hfile) htype⟩
    exact ⟨hcontained.keeps hin.symm, hcontained.keeps hout⟩
  selected := fun _ _ _ _ h hcwd => (selected_inside h hcwd).2
  created := fun _ _ _ _ _ h => agentCwd_inside h
  root := fun _ h => resolve_root h

/-- A request that selects no workspace asks for a directory of its own machine; the agent is
    created in the mount of the workspace that is created for it. -/
theorem requested_elsewhere :
    agentCwd [] "w" ⟨none, false, "/projects/example"⟩ = .ok ("w", "/workspaces/w") ∧
      ¬ Inside "w" (resolve [] "/projects/example") := by
  refine ⟨by rfl, ?_⟩
  rw [Inside]
  decide

section Demo

def demoWorkspace (name : String) : Workspace where
  metadata := { name := name, uid := some "uid" }
  spec := { projectRef := "project", displayName := name, credentialProfile := "profile" }

def demoMessage (path : String) : Json :=
  .obj [("type", .str "fs.file.write.request"), ("cwd", .str "/workspaces//ws-1/./src/"),
    ("path", .str path)]

def demoForward (path : String) : Except AgentIdentity.Err (Workspace × Json) :=
  forwardChecked ["app"] true (fun _ => none) (fun _ => none) []
    [demoWorkspace "ws", demoWorkspace "ws-1"] (fun _ => "local") (demoMessage path)

/-- A file below the directory is accepted, one above it is not, and neither is one of the
    workspace with the shorter name. -/
theorem paths_confined_demo : (demoForward "a/../b").isOk = true ∧
    (demoForward "../../ws/b").isOk = false ∧
    ∀ workspace input, demoForward "a/../b" = .ok (workspace, input) →
      Contained workspace (demoMessage "a/../b") := by
  refine ⟨by rfl, by rfl, fun workspace input h => ?_⟩
  exact ((paths_confined ["app"]).forwarded _ _ _ _ _ _ _ _ _ h).1

end Demo

end PaseoGateway.WorkspacePaths

/-
  PaseoGateway/AgentIdentityInvariant.lean
  ========================================
  **The invariant of the agent identity registry and the rules its proofs use.**

  The store side is the shape of an `agent-route` history (`RouteHistory`): a
  record is created active under its own GUID, may be moved to `collision` once,
  and is never deleted.  Everything a process holds in memory is a consequence of
  stored records (`MemOk`): a cached key is bound, a finished claim says the truth
  about its key, and a verified or projected id was active since the `project`
  call it serves began.  All of these are facts about the past, so no interleaving
  can undo them.
-/
import PaseoGateway.AgentIdentity
import PaseoGateway.RelyGuarantee

namespace PaseoGateway.AgentIdentity

open Async

abbrev History := Trace sys.Key sys.Val sys.Note

/-! ### The history of one record -/

/-- A record replaced by one with the same binding that quarantines it. -/
def Quarantines (old new : Route) : Prop :=
  new.binding = old.binding ∧ old.isCollision = false ∧ new.isCollision = true

/-- A record as it is created: active, under its own GUID. -/
def CreatedAs (g : String) (r : Route) : Prop := ∃ b, r = .active b ∧ b.backendAgentId = g

/-- Records are created active under their own GUID and quarantined at most once. -/
def RouteHistory (tr : History) : Prop :=
  ∀ g, Disciplined (.route g) (CreatedAs g) Quarantines tr

/-- What is known for ever once `r` was stored for `g`: the record exists, has the
    same binding, and is `r` itself when `r` was a collision. -/
theorem RouteHistory.current {tr : History} (h : RouteHistory tr) {n : Nat} {g : String}
    {r : Route} (hs : Stored tr n (.route g) r) :
    ∃ m r', lookup (.route g) tr = some (m, r') ∧
      r'.binding = r.binding ∧ r.binding.backendAgentId = g ∧
      (r.isCollision = true → r' = r) := by
  have hself : r.binding.backendAgentId = g := by
    refine (h g).stored (P := fun r => r.binding.backendAgentId = g) ?_ ?_ hs
    · rintro _ ⟨b, rfl, hb⟩
      exact hb
    · intro v w hv hw
      rw [hw.1]
      exact hv
  obtain ⟨m, r', hlook, hrel⟩ := (h g).current
    (fun _ _ _ hab hbc => ⟨hbc.1.trans hab.1, hab.2.1, hbc.2.2⟩) hs
  refine ⟨m, r', hlook, ?_, hself, ?_⟩
  · rcases hrel with rfl | hrel
    · rfl
    · exact hrel.1
  · intro hc
    rcases hrel with rfl | hrel
    · rfl
    · rw [hrel.2.1] at hc
      cases hc

theorem RouteHistory.create {tr : History} (h : RouteHistory tr) {b : Binding}
    (a : Option Tid) (hnone : lookup (.route b.backendAgentId) tr = none) :
    RouteHistory (.create a (.route b.backendAgentId) (.active b) :: tr) := by
  intro g
  refine ⟨h g, ?_⟩
  by_cases hg : b.backendAgentId = g
  · subst hg
    exact Entry.keeps_create hnone ⟨b, rfl, rfl⟩
  · exact Entry.keeps_of_ne (by simpa [Entry.key?] using hg)

theorem RouteHistory.quarantine {tr : History} (h : RouteHistory tr) {g u : String} {n : Nat}
    {b : Binding} (a : Option Tid) (hlook : lookup (.route g) tr = some (n, .active b)) :
    RouteHistory (.update a (.route g) (.collision b u) :: tr) := by
  intro g'
  refine ⟨h g', ?_⟩
  by_cases hg : g = g'
  · subst hg
    exact Entry.keeps_update hlook ⟨rfl, rfl, rfl⟩
  · exact Entry.keeps_of_ne (by simpa [Entry.key?] using hg)

/-- `g` was bound to the workspace UID `u` by some stored record. -/
def Bound (tr : History) (g u : String) : Prop :=
  ∃ n r, Stored tr n (.route g) r ∧
    r.binding.workspaceUid = u

/-- `g` was quarantined. -/
def Collided (tr : History) (g : String) : Prop :=
  ∃ n b u, Stored tr n (.route g) (.collision b u)

theorem Bound.mono {tr : History} {g u : String} (h : Bound tr g u) (new : History) :
    Bound (new ++ tr) g u := by
  obtain ⟨n, r, hs, hu⟩ := h
  exact ⟨n, r, hs.mono new, hu⟩

theorem Collided.mono {tr : History} {g : String} (h : Collided tr g) (new : History) :
    Collided (new ++ tr) g := by
  obtain ⟨n, b, u, hs⟩ := h
  exact ⟨n, b, u, hs.mono new⟩

theorem Collided.lookup {tr : History} {g : String} (h : Collided tr g)
    (ht : RouteHistory tr) :
    ∃ m b u, lookup (.route g) tr
      = some (m, .collision b u) := by
  obtain ⟨n, b, u, hs⟩ := h
  obtain ⟨m, r, hlook, _, _, hcoll⟩ := ht.current hs
  have hr := hcoll rfl
  subst hr
  exact ⟨m, b, u, hlook⟩

/-! ### What process memory may claim -/

/-- The cache key of a binding determines workspace UID and GUID: GUIDs all have
    36 characters. -/
theorem cacheKey_inj {a b : Binding} (ha : isGuid a.backendAgentId = true)
    (hb : isGuid b.backendAgentId = true) (h : cacheKey a = cacheKey b) :
    a.workspaceUid = b.workspaceUid ∧ a.backendAgentId = b.backendAgentId := by
  have hlen : ∀ s : String, isGuid s = true → s.toList.length = 36 := by
    intro s hs
    simp only [isGuid, Bool.and_eq_true, beq_iff_eq] at hs
    exact hs.1
  have hlists : (a.workspaceUid ++ ":").toList ++ a.backendAgentId.toList
      = (b.workspaceUid ++ ":").toList ++ b.backendAgentId.toList := by
    rw [← String.toList_append, ← String.toList_append]
    exact congrArg String.toList h
  obtain ⟨huid, hid⟩ := List.append_inj' hlists (by rw [hlen _ ha, hlen _ hb])
  refine ⟨?_, String.toList_injective hid⟩
  rw [String.toList_append, String.toList_append] at huid
  exact String.toList_injective (List.append_cancel_right huid)

def KeyBound (tr : History) (key : String) : Prop :=
  ∃ b : Binding, key = cacheKey b ∧ isGuid b.backendAgentId = true ∧
    Bound tr b.backendAgentId b.workspaceUid

/-- The errors with which a claim may leave a record active. -/
def Err.isRefusal (e : Err) : Prop :=
  (∃ s, e = .store s) ∨ e = .exhausted ∨ e = .capacity

def ClaimError (tr : History) (g : String) (e : Err) : Prop :=
  e.isRefusal ∨ Collided tr g

/-- What the outcome of a claim says about the history. -/
def ClaimResult (tr : History) (value : Binding) : Except Err String → Prop
  | .ok id => id = value.backendAgentId ∧ Bound tr value.backendAgentId value.workspaceUid
  | .error e => ClaimError tr value.backendAgentId e

/-- The record of `id` is active and names this very workspace. -/
def ActiveFor (workspace : Workspace) (id : String) (tr : History) : Prop :=
  ∃ n b, lookup (.route id) tr = some (n, .active b) ∧
    b.workspaceId = workspace.metadata.name ∧ workspace.metadata.uid = some b.workspaceUid

/-- `root` is a `project` call for this workspace. -/
def ProjectsFor (w : World sys) (root : Tid) (workspace : Workspace) : Prop :=
  root.idx < w.next ∧ ∃ value n, w.calls root = some ⟨.project value workspace, n⟩

/-- The record was active for the workspace at some moment since `root` began. -/
def ActiveSince (w : World sys) (root : Tid) (workspace : Workspace) (id : String) : Prop :=
  root.idx < w.next ∧ ∃ s tr, w.calls root = some s ∧ tr <:+ w.trace ∧
    s.height ≤ tr.length ∧ ActiveFor workspace id tr

theorem KeyBound.mono {tr : History} {key : String} (h : KeyBound tr key)
    (new : History) : KeyBound (new ++ tr) key := by
  obtain ⟨b, hkey, hguid, hbound⟩ := h
  exact ⟨b, hkey, hguid, hbound.mono new⟩

theorem ClaimResult.mono {tr : History} {value : Binding} {r : Except Err String}
    (h : ClaimResult tr value r) (new : History) : ClaimResult (new ++ tr) value r := by
  cases r with
  | ok id => exact ⟨h.1, h.2.mono new⟩
  | error e =>
    rcases h with hrefusal | hcoll
    · exact .inl hrefusal
    · exact .inr (hcoll.mono new)

theorem ProjectsFor.later {w w' : World sys} {root : Tid} {workspace : Workspace}
    (h : ProjectsFor w root workspace) (hl : Later w w') : ProjectsFor w' root workspace := by
  obtain ⟨hidx, value, n, hcall⟩ := h
  exact ⟨Nat.lt_of_lt_of_le hidx hl.next, value, n, by rw [hl.calls root hidx, hcall]⟩

theorem ProjectsFor.unique {w : World sys} {root : Tid} {a b : Workspace}
    (ha : ProjectsFor w root a) (hb : ProjectsFor w root b) : a = b := by
  obtain ⟨_, _, _, hcall⟩ := ha
  obtain ⟨_, _, _, hcall'⟩ := hb
  rw [hcall] at hcall'
  cases hcall'
  rfl

theorem ActiveSince.later {w w' : World sys} {root : Tid} {workspace : Workspace}
    {id : String} (h : ActiveSince w root workspace id) (hl : Later w w') :
    ActiveSince w' root workspace id := by
  obtain ⟨hidx, s, tr, hcall, hsuffix, hheight, hactive⟩ := h
  exact ⟨Nat.lt_of_lt_of_le hidx hl.next, s, tr, by rw [hl.calls root hidx, hcall],
    hsuffix.trans hl.suffix, hheight, hactive⟩

/-! ### Published ids -/

mutual

/-- The agent ids in the routing fields of a message. -/
def publishedIds (context : String) : Json → List String
  | .arr items => publishedItems context items
  | .obj fields => publishedFields context fields
  | _ => []

def publishedItems (context : String) : List Json → List String
  | [] => []
  | item :: rest => publishedIds context item ++ publishedItems context rest

def publishedFields (context : String) : List (String × Json) → List String
  | [] => []
  | (key, item) :: rest => publishedField context key item ++ publishedFields context rest

def publishedField (context key : String) : Json → List String
  | .str id => if agentField key context then [id] else []
  | .arr items =>
    if key = "agentIds" then items.filterMap fun item => match item with
      | .str id => some id
      | _ => none
    else if opaqueKeys.contains key then []
    else publishedItems key items
  | .obj fields =>
    if key = "labels" then []
    else if opaqueKeys.contains key then []
    else publishedFields key fields
  | _ => []

end

theorem mem_publishedItems {context id : String} {items : List Json} :
    id ∈ publishedItems context items ↔ ∃ item ∈ items, id ∈ publishedIds context item := by
  induction items with
  | nil => simp [publishedItems]
  | cons item rest ih => simp [publishedItems, ih]

/-- The ids one element of a mapped array publishes. -/
def Job.ids : Job → Json → List String
  | .nested context, value => publishedIds context value
  | .agentIds, .str id => [id]
  | .agentIds, _ => []

/-! ### The invariant -/

/-- What the memory of one process may say about the world. -/
structure MemOk (w : World sys) (m : Mem) : Prop where
  cached : ∀ row ∈ m.claims, KeyBound w.trace row.1
  settled : ∀ row ∈ m.settled, ∀ value : Binding, row.2.1 = cacheKey value →
    isGuid value.backendAgentId = true → ClaimResult w.trace value row.2.2
  verified : ∀ row ∈ m.verified, ∃ workspace, ProjectsFor w row.1 workspace ∧
    ∀ id, row.2.2 = .ok id → ActiveSince w row.1 workspace id
  output : ∀ (i : Nat) (b : Batch), m.batches[i]? = some b → ∀ out ∈ b.output, ∀ id ∈ b.job.ids out.2,
    ActiveSince w b.root b.workspace id

structure Inv (w : World sys) : Prop where
  history : RouteHistory w.trace
  heights : ∀ u s, w.calls u = some s → s.height ≤ w.trace.length
  memory : ∀ p, MemOk w (w.mem p)

/-- The batches of a process stay what they are. -/
def Mem.Extends (m m' : Mem) : Prop :=
  ∀ (i : Nat) (b : Batch), m.batches[i]? = some b → ∃ b', m'.batches[i]? = some b' ∧
    b'.root = b.root ∧ b'.workspace = b.workspace ∧ b'.job = b.job

theorem MemOk.fresh (w : World sys) : MemOk w {} := by
  refine ⟨?_, ?_, ?_, ?_⟩
  · intro row hrow
    cases hrow
  · intro row hrow
    cases hrow
  · intro row hrow
    cases hrow
  · intro i b hb
    cases hb

theorem MemOk.later {w w' : World sys} {m : Mem} (h : MemOk w m) (hl : Later w w') :
    MemOk w' m := by
  obtain ⟨new, htr⟩ := hl.trace
  refine ⟨?_, ?_, ?_, ?_⟩
  · intro row hrow
    rw [htr]
    exact (h.cached row hrow).mono new
  · intro row hrow value hkey hguid
    rw [htr]
    exact (h.settled row hrow value hkey hguid).mono new
  · intro row hrow
    obtain ⟨workspace, hroot, hok⟩ := h.verified row hrow
    exact ⟨workspace, hroot.later hl, fun id hid => (hok id hid).later hl⟩
  · intro i b hb out hout id hid
    exact (h.output i b hb out hout id hid).later hl

theorem MemOk.forget {w : World sys} {m : Mem} (h : MemOk w m) (key : String) :
    MemOk w (m.forget key) :=
  { h with cached := fun row hrow => h.cached row (List.mem_filter.mp hrow).1 }

theorem MemOk.remember {w : World sys} {m : Mem} (h : MemOk w m) {key : String}
    (hkey : KeyBound w.trace key) (now : Nat) : MemOk w (m.remember now key) := by
  unfold Mem.remember
  refine { h with cached := ?_ }
  intro row hrow
  simp only at hrow
  have hmem := List.mem_of_mem_drop hrow
  rcases List.mem_append.mp hmem with hold | hnew
  · exact (h.forget key).cached row hold
  · rw [List.mem_singleton.mp hnew]
    exact hkey

theorem MemOk.permit {w : World sys} {m : Mem} (h : MemOk w m) (t : Tid) :
    MemOk w (m.permit t).2 := by
  unfold Mem.permit
  split
  · exact { h with }
  · exact { h with }

theorem MemOk.releasePermit {w : World sys} {m : Mem} (h : MemOk w m) :
    MemOk w m.releasePermit := by
  unfold Mem.releasePermit
  split
  · exact { h with }
  · exact { h with }

theorem MemOk.setBatch {w : World sys} {m : Mem} (h : MemOk w m) {i : Nat}
    {f : Batch → Batch}
    (hf : ∀ b : Batch, m.batches[i]? = some b → ∀ out ∈ (f b).output, ∀ id ∈ (f b).job.ids out.2,
      ActiveSince w (f b).root (f b).workspace id) : MemOk w (m.setBatch i f) := by
  refine { h with output := ?_ }
  intro j b hb
  simp only [Mem.setBatch, List.getElem?_modify] at hb
  by_cases hij : i = j
  · subst hij
    obtain ⟨b0, hb0, rfl⟩ := Option.map_eq_some_iff.mp hb
    simp only [if_true]
    exact hf b0 hb0
  · obtain ⟨b0, hb0, rfl⟩ := Option.map_eq_some_iff.mp hb
    simp only [if_neg hij]
    exact h.output j b0 hb0

theorem Inv.push {w : World sys} (h : Inv w) {e : Entry sys.Key sys.Val sys.Note}
    (he : RouteHistory (e :: w.trace)) : Inv (w.push e) :=
  ⟨he, fun u s hs => Nat.le_succ_of_le (h.heights u s hs),
    fun p => (h.memory p).later (w.later_push e)⟩

/-! ### Steps -/

theorem Mem.Extends.of_eq {m m' : Mem} (h : m'.batches = m.batches) : m.Extends m' :=
  fun i b hb => ⟨b, by rw [h]; exact hb, rfl, rfl, rfl⟩

theorem Mem.Extends.trans {m m' m'' : Mem} (h : m.Extends m') (h' : m'.Extends m'') :
    m.Extends m'' := by
  intro i b hb
  obtain ⟨b', hb', hroot, hws, hjob⟩ := h i b hb
  obtain ⟨b'', hb'', hroot', hws', hjob'⟩ := h' i b' hb'
  exact ⟨b'', hb'', hroot'.trans hroot, hws'.trans hws, hjob'.trans hjob⟩

theorem Mem.Extends.setBatch (m : Mem) (i : Nat) {f : Batch → Batch}
    (hf : ∀ b, (f b).root = b.root ∧ (f b).workspace = b.workspace ∧ (f b).job = b.job) :
    m.Extends (m.setBatch i f) := by
  intro j b hb
  by_cases hij : i = j
  · subst hij
    exact ⟨f b, by simp [Mem.setBatch, hb], hf b⟩
  · exact ⟨b, by simp [Mem.setBatch, hb, hij], rfl, rfl, rfl⟩

theorem Mem.permit_batches (m : Mem) (t : Tid) : (m.permit t).2.batches = m.batches := by
  unfold Mem.permit
  split <;> rfl

theorem Mem.releasePermit_batches (m : Mem) : m.releasePermit.batches = m.batches := by
  unfold Mem.releasePermit
  split <;> rfl

/-- No request forgets a batch or changes what it computes. -/
theorem answer_extends {now : Nat} {t : Tid} {x : Ext} {w : World sys} {a : Answer sys x}
    (h : answer now t x w = some a) : (w.mem t.proc).Extends a.mem := by
  cases x with
  | beginMap root workspace job values =>
    cases h
    intro i b hb
    obtain ⟨hi, _⟩ := List.getElem?_eq_some_iff.mp hb
    exact ⟨b, by rw [List.getElem?_append_left hi]; exact hb, rfl, rfl, rfl⟩
  | takeIndex batch =>
    simp only [answer] at h
    split at h
    · cases h
    · cases h
      exact .setBatch _ _ fun b => ⟨rfl, rfl, rfl⟩
  | putOutput batch index value =>
    cases h
    exact .setBatch _ _ fun b => ⟨rfl, rfl, rfl⟩
  | endWorker batch result =>
    cases h
    refine .setBatch _ _ fun b => ?_
    cases result <;> exact ⟨rfl, rfl, rfl⟩
  | _ =>
    -- no other request touches the batches
    simp only [answer] at h
    repeat' split at h
    all_goals cases h
    all_goals
      exact .of_eq (by simp [Mem.remember, Mem.forget, Mem.permit_batches,
        Mem.releasePermit_batches])
/-! ### The protocol of the registry -/

/-- `id` is what a claim or reservation of `g` for `workspace` may return. -/
def Claimed (w : World sys) (workspace : Workspace) (g id : String) : Prop :=
  id = g ∧ ∃ uid, workspace.metadata.uid = some uid ∧ Bound w.trace g uid

def BatchIs (w : World sys) (p batch : Nat) (root : Tid) (workspace : Workspace) (job : Job) :
    Prop :=
  ∃ b : Batch, (w.mem p).batches[batch]? = some b ∧ b.root = root ∧ b.workspace = workspace ∧
    b.job = job

def Pre (t : Tid) : Call → World sys → Prop
  | .verified root workspace _, w => ProjectsFor w root workspace
  | .worker root workspace job batch _, w =>
    ProjectsFor w root workspace ∧ BatchIs w t.proc batch root workspace job
  | _, _ => True

/-- What a successful `resolve` says. -/
def Resolves (start w : World sys) (id : String) (workspaces : List Workspace)
    (r : Resolved) : Prop :=
  requestedGuid id = .ok r.backendAgentId ∧ r.workspace ∈ workspaces ∧
    During start w (ActiveFor r.workspace r.backendAgentId)

def Post : Call → World sys → Out → World sys → Prop
  | .claim workspace g, _, .id id, w => Claimed w workspace g id
  | .reserveForCreate workspace g, _, .id id, w => Claimed w workspace g id
  | .resolve id workspaces, start, .resolved r, w => Resolves start w id workspaces r
  | .project _ workspace, start, .projected value, w =>
    ∀ id ∈ publishedIds "" value, During start w (ActiveFor workspace id)
  | _, _, _, _ => True

def Thrown : Call → Err → World sys → Prop
  | .claim workspace g, e, w => ∀ value, binding workspace g = .ok value → ClaimError w.trace g e
  | _, _, _ => True

def protocol : Protocol registry where
  inv := Inv
  extra t w w' := (w.mem t.proc).Extends (w'.mem t.proc)
  extra_refl _ _ := .of_eq rfl
  extra_trans h h' := h.trans h'
  pre := Pre
  post _ c start out w := Post c start out w
  err _ c _ e w := Thrown c e w

/-- How the world moves on for thread `t`, by its own steps and those of others. -/
def Onward (t : Tid) (w w' : World sys) : Prop :=
  Later w w' ∧ (w.mem t.proc).Extends (w'.mem t.proc)

theorem Onward.refl (t : Tid) (w : World sys) : Onward t w w := ⟨Later.refl w, .of_eq rfl⟩

theorem Onward.trans {t : Tid} {w w' w'' : World sys} (h : Onward t w w')
    (h' : Onward t w' w'') : Onward t w w'' := ⟨h.1.trans h'.1, h.2.trans h'.2⟩

theorem onward_of_rely {t : Tid} {w w' : World sys} (h : protocol.rely t w w') :
    Onward t w w' := ⟨h.1.later, h.2⟩

/-- The world after an answered request. -/
abbrev after (w : World sys) (t : Tid) {x : Ext} (a : Answer sys x) : World sys :=
  (w.answered t a).spawnAll t.proc a.forks

theorem after_trace (w : World sys) (t : Tid) {x : Ext} (a : Answer sys x) :
    (after w t a).trace = w.trace := by
  rw [World.spawnAll_trace, World.answered_trace]
  cases a.notes with
  | nil => rfl
  | cons n _ => exact n.elim

theorem after_mem (w : World sys) (t : Tid) {x : Ext} (a : Answer sys x) :
    (after w t a).mem t.proc = a.mem := by
  rw [World.spawnAll_mem, World.answered_mem_self]

theorem after_mem_ne {w : World sys} {t : Tid} {x : Ext} {a : Answer sys x} {p : Nat}
    (h : p ≠ t.proc) : (after w t a).mem p = w.mem p := by
  rw [World.spawnAll_mem, World.answered_mem_ne h]

theorem after_later (w : World sys) (t : Tid) {x : Ext} (a : Answer sys x) :
    Later w (after w t a) := by
  refine ⟨⟨[], after_trace w t a⟩, World.le_spawnAll_next (w.answered t a) _ _, ?_⟩
  intro u hu
  rw [World.spawnAll_calls_of_lt (w := w.answered t a) hu, World.answered_calls]

theorem after_onward {now : Nat} {w : World sys} {t : Tid} {x : Ext} {a : Answer sys x}
    (h : answer now t x w = some a) : Onward t w (after w t a) :=
  ⟨after_later w t a, by rw [after_mem]; exact answer_extends h⟩

theorem Inv.after {w : World sys} (h : Inv w) {t : Tid} {x : Ext} {a : Answer sys x}
    (hmem : MemOk w a.mem) : Inv (after w t a) := by
  refine ⟨?_, ?_, ?_⟩
  · rw [after_trace]
    exact h.history
  · intro u s hs
    rw [after_trace]
    rcases World.spawnAll_height hs with hold | ⟨_, _, hheight⟩
    · exact h.heights u s hold
    · rw [hheight, ← World.spawnAll_trace (w.answered t a) t.proc a.forks, after_trace]
  · intro p
    by_cases hp : p = t.proc
    · subst hp
      rw [after_mem]
      exact hmem.later (after_later w t a)
    · rw [after_mem_ne hp]
      exact (h.memory p).later (after_later w t a)

section Rules

variable {t : Tid} {α : Type} {Q : α → World sys → Prop} {E : Err → World sys → Prop}
variable {w : World sys}

/-- The rule for a request to the process: its memory stays sound, and what it
    forks finds what it needs. -/
theorem Safe.request {x : Ext} {k : Ext.Res x → sys.Task α}
    (h : ∀ w', Onward t w w' → Inv w' → ∀ now (a : Answer sys x), answer now t x w' = some a →
      MemOk w' a.mem ∧
      (∀ c ∈ a.forks, ∀ u : Tid, u.proc = t.proc → Pre u c (after w' t a)) ∧
      (Onward t w (after w' t a) → Safe protocol t (k a.res) Q E (after w' t a))) :
    Safe protocol t (.call (.ext x) k) Q E w := by
  refine Safe.ext fun w' hr hi now a ha => ?_
  have ho := onward_of_rely hr
  obtain ⟨hmem, hforks, hk⟩ := h w' ho hi now a ha
  refine ⟨⟨hi.after hmem, ?_, ?_⟩, hk (ho.trans (after_onward ha))⟩
  · intro u _ _
    change (w'.mem u.proc).Extends ((after w' t a).mem u.proc)
    by_cases hu : u.proc = t.proc
    · rw [hu, after_mem]
      exact answer_extends ha
    · rw [after_mem_ne hu]
      exact .of_eq rfl
  · intro u s hnone hs
    rcases World.spawnAll_height hs with hold | ⟨hproc, hcall, _⟩
    · rw [World.answered_calls, hnone] at hold
      cases hold
    · exact hforks _ hcall u hproc

/-- A program moves the world onward. -/
theorem Safe.onward {p : sys.Task α} (h : Safe protocol t p Q E w) :
    Safe protocol t p (fun a w' => Onward t w w' ∧ Q a w') (fun e w' => Onward t w w' ∧ E e w')
      w := by
  refine Safe.along (Onward.refl t) Onward.trans onward_of_rely ?_ h
  intro w pick q r w' hp
  refine ⟨Machine.perform_later hp, ?_⟩
  cases pick with
  | store c =>
    cases q with
    | store q =>
      simp only [Machine.perform, Option.some.injEq, Prod.mk.injEq] at hp
      obtain ⟨_, rfl⟩ := hp
      exact .of_eq rfl
    | ext x => cases hp
  | ext c =>
    cases q with
    | store q => cases hp
    | ext x =>
      simp only [Machine.perform, Option.map_eq_some_iff, Prod.mk.injEq] at hp
      obtain ⟨a, ha, _, rfl⟩ := hp
      rw [World.spawnAll_mem, World.answered_mem_self]
      exact answer_extends ha

end Rules

end PaseoGateway.AgentIdentity

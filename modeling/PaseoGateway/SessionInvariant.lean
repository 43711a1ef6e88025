/-
  PaseoGateway/SessionInvariant.lean
  ==================================
  **What every piece of a session keeps.**

  Three invariants of the memory of a session, one for each of its logs, and the
  relation `Kept` of what a thread finds unchanged after the others have run.  A
  piece is `Routine` when it keeps both whoever runs it; routine pieces compose,
  so a compound piece is read off its parts.

  Each invariant says what holds *as long as* the log met a condition:

  * `InOrder`: code that deletes an entry of the map finds there what it examined,
    or nothing, and a failed pass clears only entries that are over;
  * `Steady`: a slot is issued for the uid last opened under its name, and a name
    that has slots is not opened for another uid;
  * `Agreed`: the client was shown what a pass will leave unsaid, as far as the projections,
    the snapshots and the listings of the passes say (`expected`).
-/
import PaseoGateway.Fallible
import PaseoGateway.Session

namespace PaseoGateway.Session

open Async

/-! ### Logs whose entries met a condition -/

/-- Every event met the condition in the log before it. -/
def Along {η : Type} (legal : List η → η → Prop) : List η → Prop
  | [] => True
  | e :: older => Along legal older ∧ legal older e

theorem Along.suffix {η : Type} {legal : List η → η → Prop} {log older : List η}
    (h : Along legal log) (hs : older <:+ log) : Along legal older := by
  induction log with
  | nil =>
    rw [List.suffix_nil.mp hs]
    trivial
  | cons e log ih =>
    rcases List.suffix_cons_iff.mp hs with rfl | hs
    · exact h
    · exact ih h.1 hs

theorem Along.split {η : Type} {legal : List η → η → Prop} {newer older : List η} {e : η}
    (h : Along legal (newer ++ e :: older)) : legal older e :=
  (h.suffix (List.suffix_append newer (e :: older))).2

/-! ### Connections -/

/-- The deletion finds the entry that was examined, or none; nothing is lost by clearing. -/
def ConnectionEvent.InOrder : ConnectionEvent → Prop
  | .deleted examined found => found = none ∨ found = some examined
  | .cleared lost => lost = []

def Mem.InOrder (m : Mem) : Prop := ∀ event ∈ m.connectionLog, event.InOrder

/-- The entry is retired or failed. -/
def Mem.Dead (m : Mem) (e : Nat) : Prop := ∃ c, m.entries[e]? = some c ∧ ¬ c.Open

structure Connected (m : Mem) : Prop where
  /-- the map keeps entries under the name of their workspace -/
  named : ∀ name e, m.connections.get name = some e → ∃ c, m.entries[e]? = some c ∧ c.name = name
  /-- what is open is in the map -/
  stored : m.InOrder → ∀ e c, m.entries[e]? = some c → c.Open →
    m.connections.get c.name = some e
  released : ∀ t e, (t, e) ∈ m.released → m.Dead e

/-! ### Terminal slots -/

/-- The uid of the connection last opened under a name. -/
def lastOpened (name : String) : List TerminalEvent → Option (Option String)
  | [] => none
  | .opened id uid :: older => if id = name then some uid else lastOpened name older
  | .issued _ _ _ :: older => lastOpened name older
  | .delivered _ _ _ _ :: older => lastOpened name older

/-- A name is not opened for another uid than its slots were issued for, and a slot is
    issued for the uid last opened. -/
def Steady (older : List TerminalEvent) : TerminalEvent → Prop
  | .opened name uid => ∀ slot binding uid', .issued slot binding uid' ∈ older →
      binding.workspaceId = name → uid' = uid
  | .issued _ binding uid => lastOpened binding.workspaceId older = some uid
  | .delivered _ _ _ _ => True

/-- A frame goes to the backend and the backend slot its slot was issued for, and the record read
    for it is of that workspace and available. -/
def Fenced (older : List TerminalEvent) : TerminalEvent → Prop
  | .opened _ _ => True
  | .issued _ _ _ => True
  | .delivered slot backendSlot uid current => ∃ name, .issued slot ⟨name, backendSlot⟩ uid ∈ older ∧
      ∃ workspace, current = some workspace ∧ workspace.metadata.name = name ∧
        workspace.metadata.uid = uid ∧ available workspace = true

structure Slotted (m : Mem) : Prop where
  bound : ∀ slot binding, m.slots.get slot = some binding ↔
    ∃ uid, .issued slot binding uid ∈ m.terminalLog
  distinct : ∀ slot slot' binding, m.slots.get slot = some binding →
    m.slots.get slot' = some binding → slot = slot'
  opened : ∀ name e c, m.connections.get name = some e → m.entries[e]? = some c →
    lastOpened name m.terminalLog = some c.uid
  fenced : Along Steady m.terminalLog → Along Fenced m.terminalLog

/-! ### The directory -/

/-- What the client sees: the last snapshot and the updates since, by workspace id. -/
def view (id : String) : List DirectoryEvent → Option WorkspaceDescriptor
  | [] => none
  | .projected _ descriptor _ emitted :: older =>
    if emitted ∧ descriptor.id = id then some descriptor else view id older
  | .refreshed _ _ removed _ _ :: older => if id ∈ removed then none else view id older
  | .snapshot _ rows :: _ => rows.find? (·.id = id)
  | .began :: older => view id older
  | .ended :: older => view id older
  | .runtime _ _ _ :: older => view id older

/-- What the client is to see by the projections and listings of the session, whatever was
    emitted: the last listing, the descriptors since that differed from the last projection,
    and none where a workspace with a projection was no longer listed. -/
def expected (id : String) : List DirectoryEvent → Option WorkspaceDescriptor
  | [] => none
  | .projected last descriptor _ _ :: older =>
    if last ≠ some descriptor ∧ descriptor.id = id then some descriptor else expected id older
  | .refreshed projections listed _ _ _ :: older =>
    if id ∈ projections ∧ id ∉ listed then none else expected id older
  | .snapshot listing _ :: _ => listing.find? (·.id = id)
  | .began :: older => expected id older
  | .ended :: older => expected id older
  | .runtime _ _ _ :: older => expected id older

/-- What was to be said has been said. -/
def DirectoryEvent.Said : DirectoryEvent → Prop
  | .projected last descriptor _ emitted => emitted = true ↔ last ≠ some descriptor
  | .refreshed projections listed removed _ _ =>
    ∀ id, id ∈ removed ↔ id ∈ projections ∧ id ∉ listed
  | .snapshot listing rows => rows = listing
  | .began => True
  | .ended => True
  | .runtime _ _ _ => True

theorem view_eq_expected {log : List DirectoryEvent} (h : ∀ event ∈ log, event.Said) (id : String) :
    view id log = expected id log := by
  induction log with
  | nil => rfl
  | cons event older ih =>
    obtain ⟨hsaid, holder⟩ := List.forall_mem_cons.mp h
    have hold := ih holder
    cases event with
    | projected last descriptor runtime emitted =>
      have hemitted : emitted = true ↔ last ≠ some descriptor := hsaid
      simp only [view, expected, hold, hemitted]
    | refreshed projections listed removed directory unchanged =>
      have hremoved : id ∈ removed ↔ id ∈ projections ∧ id ∉ listed := hsaid id
      simp only [view, expected, hold, hremoved]
    | snapshot listing rows =>
      have hrows : rows = listing := hsaid
      simp only [view, expected, hrows]
    | began => exact hold
    | ended => exact hold
    | runtime id' before after => exact hold

/-- What the running pass has computed for a workspace, and from which runtime. -/
def visited (id : String) : List DirectoryEvent → Option (WorkspaceDescriptor × Option WorkspaceRuntime)
  | [] => none
  | .projected _ descriptor runtime _ :: older =>
    if descriptor.id = id then some (descriptor, runtime) else visited id older
  | .refreshed _ _ _ _ _ :: _ => none
  | .began :: _ => none
  | .ended :: _ => none
  | .snapshot _ _ :: older => visited id older
  | .runtime _ _ _ :: older => visited id older

/-- A descriptor that equals the last projection is the one the client is to see, and at the end of
    a pass a workspace it is to see is listed or has a projection.  While a pass runs, a
    snapshot lists what the pass has computed, and the runtime of a workspace it has visited
    stays. -/
def Agreed (older : List DirectoryEvent) : DirectoryEvent → Prop
  | .began => True
  | .ended => True
  | .projected last descriptor _ _ =>
    last = some descriptor → expected descriptor.id older = some descriptor
  | .refreshed projections listed _ _ _ => ∀ id d, expected id older = some d →
      id ∈ projections ∨ id ∈ listed
  | .snapshot listing _ => ∀ id d r, visited id older = some (d, r) →
      listing.find? (·.id = id) = some d
  | .runtime id before after => (visited id older).isSome → after = before

/-- After a pass that ran on an unchanged cluster the client sees the directory. -/
def Converged (older : List DirectoryEvent) : DirectoryEvent → Prop
  | .refreshed projections listed removed directory unchanged => unchanged = true →
      ∀ id, view id (.refreshed projections listed removed directory unchanged :: older) =
        directory.find? (·.id = id)
  | _ => True

structure Directed (m : Mem) : Prop where
  said : ∀ event ∈ m.directoryLog, event.Said
  current : m.closed = false → Along Agreed m.directoryLog → ∀ id d r,
    visited id m.directoryLog = some (d, r) → m.workspaceRuntime.get id = r
  converged : Along Agreed m.directoryLog → Along Converged m.directoryLog

/-- What holds of the memory of every session. -/
structure Ok (m : Mem) : Prop where
  connected : Connected m
  slotted : Slotted m
  directed : Directed m

theorem Ok.fresh : Ok {} := by
  constructor
  · constructor
    · simp
    · simp
    · simp
  · constructor
    · simp
    · simp
    · simp
    · simp [Along]
  · constructor
    · simp
    · simp [visited]
    · simp [Along]

/-! ### What the others keep -/

/-- What thread `t` finds kept in the memory of its session. -/
structure Kept (t : Tid) (m m' : Mem) : Prop where
  closed : m.closed = true → m'.closed = true
  /-- a closed session opens nothing -/
  confined : m.closed = true → ∀ name e, m'.connections.get name = some e →
    m.connections.get name = some e
  dead : ∀ e, m.Dead e → m'.Dead e
  workspace : ∀ (e : Nat) (c : Connection), m.entries[e]? = some c →
    ∃ c' : Connection, m'.entries[e]? = some c' ∧ c'.workspace = c.workspace
  log : m.terminalLog <:+ m'.terminalLog
  /-- a pass belongs to one thread -/
  pass : ∀ revision, m.refreshing = some (t, revision) →
    m'.refreshing = some (t, revision) ∧
      ∀ id, visited id m'.directoryLog = visited id m.directoryLog

namespace Kept

variable {t : Tid} {m m' m'' : Mem}

theorem refl (t : Tid) (m : Mem) : Kept t m m where
  closed := id
  confined := fun _ _ _ h => h
  dead := fun _ h => h
  workspace := fun _ c h => ⟨c, h, rfl⟩
  log := List.suffix_refl _
  pass := fun _ h => ⟨h, fun _ => rfl⟩

theorem trans (h : Kept t m m') (h' : Kept t m' m'') : Kept t m m'' where
  closed := fun hc => h'.closed (h.closed hc)
  confined := fun hc name e he => h.confined hc name e (h'.confined (h.closed hc) name e he)
  dead := fun e he => h'.dead e (h.dead e he)
  workspace := by
    intro e c hc
    obtain ⟨c', hc', hw⟩ := h.workspace e c hc
    obtain ⟨c'', hc'', hw'⟩ := h'.workspace e c' hc'
    exact ⟨c'', hc'', hw'.trans hw⟩
  log := h.log.trans h'.log
  pass := by
    intro revision hp
    obtain ⟨hr, hv⟩ := h.pass revision hp
    obtain ⟨hr', hv'⟩ := h'.pass revision hr
    exact ⟨hr', fun id => (hv' id).trans (hv id)⟩

end Kept

/-- A piece any thread may run at any time. -/
structure Routine (m m' : Mem) : Prop where
  ok : Ok m → Ok m'
  kept : ∀ t, Kept t m m'

namespace Routine

variable {m m' m'' : Mem}

theorem refl (m : Mem) : Routine m m := ⟨id, fun t => Kept.refl t m⟩

theorem trans (h : Routine m m') (h' : Routine m' m'') : Routine m m'' :=
  ⟨fun hok => h'.ok (h.ok hok), fun t => (h.kept t).trans (h'.kept t)⟩

end Routine

/-! ### Entries -/

/-- An entry keeps its workspace and does not open again. -/
def Advances (f : Connection → Connection) : Prop :=
  ∀ c, (f c).workspace = c.workspace ∧ ((f c).Open → c.Open)

theorem advances_retire : Advances Connection.retire := by
  intro c
  unfold Connection.retire
  split
  · exact ⟨rfl, by simp [Connection.Open]⟩
  · exact ⟨rfl, id⟩

theorem advances_settle : Advances Connection.settle := by
  intro c
  unfold Connection.settle
  split
  · rename_i h
    exact ⟨rfl, fun _ => .inl h⟩
  · exact ⟨rfl, id⟩

theorem advances_fail (error : Err) : Advances (Connection.fail error) :=
  fun _ => ⟨rfl, by simp [Connection.fail, Connection.Open]⟩

theorem advances_register (localId : String) : Advances (Connection.register localId) :=
  fun _ => ⟨rfl, id⟩

section Entries

variable {m : Mem} {e : Nat} {f : Connection → Connection}

/-- An entry after one was updated comes from the entry before. -/
theorem getElem_updateEntry {e' : Nat} {c' : Connection}
    (h : (m.updateEntry e f).entries[e']? = some c') :
    ∃ c, m.entries[e']? = some c ∧ (c' = c ∨ (e' = e ∧ c' = f c)) := by
  unfold Mem.updateEntry at h
  rw [List.getElem?_modify] at h
  obtain ⟨c, hc, rfl⟩ := Option.map_eq_some_iff.mp h
  refine ⟨c, hc, ?_⟩
  by_cases he : e = e'
  · exact .inr ⟨he.symm, by simp [he]⟩
  · exact .inl (by simp [he])

theorem updateEntry_getElem {e' : Nat} {c : Connection} (h : m.entries[e']? = some c) :
    (m.updateEntry e f).entries[e']? = some (if e = e' then f c else c) := by
  simp [Mem.updateEntry, List.getElem?_modify, h]

theorem routine_updateEntry (hf : Advances f) : Routine m (m.updateEntry e f) := by
  have hsame : ∀ {e' : Nat} {c' : Connection}, (m.updateEntry e f).entries[e']? = some c' →
      ∃ c : Connection, m.entries[e']? = some c ∧ c'.workspace = c.workspace ∧ (c'.Open → c.Open) := by
    intro e' c' h
    obtain ⟨c, hc, rfl | ⟨_, rfl⟩⟩ := getElem_updateEntry h
    · exact ⟨c', hc, rfl, id⟩
    · exact ⟨c, hc, hf c⟩
  have hkeep : ∀ {e' : Nat} {c : Connection}, m.entries[e']? = some c →
      ∃ c' : Connection, (m.updateEntry e f).entries[e']? = some c' ∧ c'.workspace = c.workspace ∧ (c'.Open → c.Open) := by
    intro e' c h
    refine ⟨_, updateEntry_getElem h, ?_⟩
    split
    · exact hf c
    · exact ⟨rfl, id⟩
  have hdead : ∀ e', m.Dead e' → (m.updateEntry e f).Dead e' := by
    rintro e' ⟨c, hc, hnot⟩
    obtain ⟨c', hc', _, hopen⟩ := hkeep hc
    exact ⟨c', hc', fun h => hnot (hopen h)⟩
  constructor
  · intro hok
    constructor
    · constructor
      · intro name e' hget
        obtain ⟨c, hc, hname⟩ := hok.connected.named name e' hget
        obtain ⟨c', hc', hw, _⟩ := hkeep hc
        exact ⟨c', hc', by rw [← hname, Connection.name, hw]; rfl⟩
      · intro horder e' c' hc' hopen
        obtain ⟨c, hc, hw, ho⟩ := hsame hc'
        have hstored := hok.connected.stored horder e' c hc (ho hopen)
        rw [Connection.name, hw]
        exact hstored
      · exact fun t e' h => hdead e' (hok.connected.released t e' h)
    · constructor
      · exact hok.slotted.bound
      · exact hok.slotted.distinct
      · intro name e' c' hget hc'
        obtain ⟨c, hc, hw, _⟩ := hsame hc'
        rw [Connection.uid, hw]
        exact hok.slotted.opened name e' c hget hc
      · exact hok.slotted.fenced
    · exact ⟨hok.directed.said, hok.directed.current, hok.directed.converged⟩
  · intro t
    constructor
    · exact id
    · exact fun _ _ _ h => h
    · exact hdead
    · intro e' c hc
      obtain ⟨c', hc', hw, _⟩ := hkeep hc
      exact ⟨c', hc', hw⟩
    · exact List.suffix_refl _
    · exact fun _ h => ⟨h, fun _ => rfl⟩

/-- An opened entry that was retired is over. -/
theorem dead_retire (h : m.settled e = some (.ok ())) :
    (m.updateEntry e Connection.retire).Dead e := by
  unfold Mem.settled at h
  obtain ⟨c, hc, hstate⟩ := Option.bind_eq_some_iff.mp h
  refine ⟨_, updateEntry_getElem hc, ?_⟩
  rw [if_pos rfl]
  unfold Connection.retire
  split
  · simp [Connection.Open]
  · rename_i hlive
    rintro (hp | hl)
    · simp [hp] at hstate
    · exact hlive hl

/-- A failed entry is over. -/
theorem dead_of_error {error : Err} (h : m.settled e = some (.error error)) : m.Dead e := by
  unfold Mem.settled at h
  obtain ⟨c, hc, hstate⟩ := Option.bind_eq_some_iff.mp h
  refine ⟨c, hc, ?_⟩
  rintro (hp | hl)
  · simp [hp] at hstate
  · simp [hl] at hstate

theorem dead_fail {error : Err} {c : Connection} (h : m.entries[e]? = some c) :
    (m.updateEntry e (Connection.fail error)).Dead e :=
  ⟨_, updateEntry_getElem h, by simp [Connection.fail, Connection.Open]⟩

end Entries

/-! ### The map -/

section Map

variable {m : Mem} {e : Nat} {name : String}

/-- An entry that is over may be deleted by name: if the log stays in order, it was the one
    that was found. -/
theorem routine_forgetConnection (hdead : m.Dead e) : Routine m (m.forgetConnection name e) := by
  have hget : ∀ {name' e'}, (m.forgetConnection name e).connections.get name' = some e' →
      m.connections.get name' = some e' := fun h => Js.Map.get_delete_of_some h
  constructor
  · intro hok
    constructor
    · constructor
      · exact fun name' e' h => hok.connected.named name' e' (hget h)
      · intro horder e' c hc hopen
        have hold := hok.connected.stored
          (fun ev hev => horder ev (List.mem_cons_of_mem _ hev)) e' c hc hopen
        have hnew := horder (.deleted e (m.connections.get name)) List.mem_cons_self
        change (m.connections.delete name).get c.name = some e'
        rw [Js.Map.get_delete]
        split
        · rename_i hname
          -- the deleted entry is open, so it is not the one that is over
          rw [hname] at hold
          rcases hnew with hnone | hsame
          · rw [hold] at hnone
            cases hnone
          · rw [hold] at hsame
            cases hsame
            obtain ⟨c', hc', hnot⟩ := hdead
            have hc0 : m.entries[e]? = some c := hc
            rw [hc0] at hc'
            cases hc'
            exact absurd hopen hnot
        · exact hold
      · exact hok.connected.released
    · constructor
      · exact hok.slotted.bound
      · exact hok.slotted.distinct
      · exact fun name' e' c h => hok.slotted.opened name' e' c (hget h)
      · exact hok.slotted.fenced
    · exact ⟨hok.directed.said, hok.directed.current, hok.directed.converged⟩
  · intro t
    constructor
    · exact id
    · exact fun _ _ _ h => hget h
    · exact fun _ h => h
    · exact fun _ c h => ⟨c, h, rfl⟩
    · exact List.suffix_refl _
    · exact fun _ h => ⟨h, fun _ => rfl⟩

/-- What is not lost by clearing the map is over. -/
theorem routine_clear (event : Mem → ConnectionEvent) (h : (event m).InOrder → m.lost = []) :
    Routine m { m with
      connections := m.connections.clear
      connectionLog := event m :: m.connectionLog } := by
  constructor
  · intro hok
    constructor
    · constructor
      · intro name' e' hget
        simp at hget
      · intro horder e' c hc hopen
        have hold := hok.connected.stored
          (fun ev hev => horder ev (List.mem_cons_of_mem _ hev)) e' c hc hopen
        have hlost := h (horder (event m) List.mem_cons_self)
        have hmem : e' ∈ m.lost := by
          have hc' : m.entries[e']? = some c := hc
          refine List.mem_filter.mpr ⟨Js.Map.mem_values.mpr ⟨_, hold⟩, ?_⟩
          simp [hc', hopen]
        rw [hlost] at hmem
        cases hmem
      · exact hok.connected.released
    · constructor
      · exact hok.slotted.bound
      · exact hok.slotted.distinct
      · intro name' e' c hget
        simp at hget
      · exact hok.slotted.fenced
    · exact ⟨hok.directed.said, hok.directed.current, hok.directed.converged⟩
  · intro t
    constructor
    · exact id
    · intro _ name' e' hget
      simp at hget
    · exact fun _ h => h
    · exact fun _ c h => ⟨c, h, rfl⟩
    · exact List.suffix_refl _
    · exact fun _ h => ⟨h, fun _ => rfl⟩

end Map

/-! ### Opening -/

section Opening

variable {m : Mem}

theorem getElem_append_of_some {entries : List Connection} {e : Nat} {c : Connection}
    (new : Connection) (h : entries[e]? = some c) : (entries ++ [new])[e]? = some c := by
  rw [List.getElem?_append_left (List.getElem?_eq_some_iff.mp h).1]
  exact h

/-- A new entry is found under its name, and the others under theirs. -/
theorem routine_open {workspace : Workspace} {localId : String} (hopen : m.closed = false)
    (hnone : m.connections.get workspace.metadata.name = none) : Routine m { m with
      connections := m.connections.set workspace.metadata.name m.entries.length
      entries := m.entries ++ [⟨workspace, localId, .pending⟩]
      terminalLog :=
        .opened workspace.metadata.name workspace.metadata.uid :: m.terminalLog } := by
  have hdead : ∀ e, m.Dead e → ∃ c, (m.entries ++ [(⟨workspace, localId, .pending⟩ :
      Connection)])[e]? = some c ∧ ¬ c.Open := by
    rintro e ⟨c, hc, hnot⟩
    exact ⟨c, getElem_append_of_some _ hc, hnot⟩
  constructor
  · intro hok
    constructor
    · constructor
      · intro name e hget
        simp only [Js.Map.get_set] at hget
        split at hget
        · rename_i hname
          cases hget
          exact ⟨_, List.getElem?_concat_length, hname.symm⟩
        · obtain ⟨c, hc, hname⟩ := hok.connected.named name e hget
          exact ⟨c, getElem_append_of_some _ hc, hname⟩
      · intro horder e c hc hstate
        simp only [Js.Map.get_set]
        by_cases he : e < m.entries.length
        · have hc0 : m.entries[e]? = some c := by
            simpa only [List.getElem?_append_left he] using hc
          have hold := hok.connected.stored horder e c hc0 hstate
          have hne : c.name ≠ workspace.metadata.name := by
            intro hname
            rw [hname, hnone] at hold
            cases hold
          rw [if_neg hne]
          exact hold
        · have hlen : e < (m.entries ++ [(⟨workspace, localId, .pending⟩ : Connection)]).length :=
            (List.getElem?_eq_some_iff.mp hc).1
          have hlast : e = m.entries.length := by
            simp only [List.length_append, List.length_singleton] at hlen
            omega
          subst hlast
          have hnew : c = ⟨workspace, localId, .pending⟩ := by
            simpa using hc.symm
          rw [hnew]
          exact if_pos rfl
      · exact fun t e h => hdead e (hok.connected.released t e h)
    · constructor
      · intro slot binding
        rw [hok.slotted.bound slot binding]
        simp
      · exact hok.slotted.distinct
      · intro name e c hget hc
        simp only [Js.Map.get_set] at hget
        split at hget
        · rename_i hname
          cases hget
          have hnew : c = ⟨workspace, localId, .pending⟩ := by
            simpa using hc.symm
          simp [lastOpened, hname, hnew, Connection.uid]
        · rename_i hname
          obtain ⟨c', hc', _⟩ := hok.connected.named name e hget
          have hsame : c = c' := by
            have hold := getElem_append_of_some ⟨workspace, localId, .pending⟩ hc'
            exact Option.some.inj (hc.symm.trans hold)
          subst hsame
          simpa [lastOpened, Ne.symm hname] using hok.slotted.opened name e c hget hc'
      · exact fun h => ⟨hok.slotted.fenced h.1, trivial⟩
    · exact ⟨hok.directed.said, hok.directed.current, hok.directed.converged⟩
  · intro t
    constructor
    · exact id
    · intro hclosed
      rw [hopen] at hclosed
      cases hclosed
    · exact hdead
    · exact fun e c hc => ⟨c, getElem_append_of_some _ hc, rfl⟩
    · exact List.suffix_cons _ _
    · exact fun _ h => ⟨h, fun _ => rfl⟩

theorem routine_connect (options : SessionOptions) (workspace : Workspace) :
    Routine m (m.connect options workspace).2 := by
  unfold Mem.connect
  split
  · exact Routine.refl m
  · rename_i hclosed
    split
    · exact Routine.refl m
    · split
      · exact Routine.refl m
      · dsimp only
        split
        · exact Routine.refl m
        · rename_i hnone
          exact routine_open (by simpa using hclosed) hnone

end Opening

/-! ### Terminal slots -/

section Slots

variable {m : Mem}

/-- A slot is bound to what it is issued for, and its bindings stay. -/
theorem outward_spec {slots slots' : TerminalSlots} {name : String} {backendSlot slot : Nat}
    (h : slots.outward name backendSlot = .ok (slot, slots')) :
    slots' = slots ∧ slots.get slot = some ⟨name, backendSlot⟩ ∨
      slots' = slots.set slot ⟨name, backendSlot⟩ ∧ slots.get slot = none ∧
        ∀ slot', slots.get slot' ≠ some ⟨name, backendSlot⟩ := by
  unfold TerminalSlots.outward at h
  dsimp only at h
  split at h
  · rename_i cell hcell
    cases h
    have hvalue : cell.value = ⟨name, backendSlot⟩ := by simpa using List.find?_some hcell
    exact .inl ⟨rfl, Js.Map.get_eq_some.mpr
      ⟨cell, List.mem_of_find?_eq_some hcell, rfl, hvalue⟩⟩
  · rename_i hnone
    split at h
    · rename_i free hfree
      cases h
      refine .inr ⟨rfl, ?_, ?_⟩
      · simpa using List.find?_some hfree
      · intro slot' hget
        obtain ⟨cell, hcell, _, hvalue⟩ := Js.Map.get_eq_some.mp hget
        rw [List.find?_eq_none] at hnone
        exact hnone cell hcell (by simpa using hvalue)
    · cases h

theorem routine_issue (e backendSlot : Nat) : Routine m (m.issue e backendSlot).2 := by
  unfold Mem.issue
  split
  · exact Routine.refl m
  · rename_i c hc
    split
    · exact Routine.refl m
    · rename_i slot slots hout
      constructor
      · intro hok
        refine ⟨⟨hok.connected.named, hok.connected.stored, hok.connected.released⟩, ?_,
          hok.directed.said, hok.directed.current, hok.directed.converged⟩
        have hissued : ∀ slot' binding, (∃ uid, TerminalEvent.issued slot' binding uid ∈
            TerminalEvent.issued slot ⟨c.name, backendSlot⟩ c.uid :: m.terminalLog) ↔
              (slot' = slot ∧ binding = ⟨c.name, backendSlot⟩) ∨
                m.slots.get slot' = some binding := by
          intro slot' binding
          rw [hok.slotted.bound slot' binding]
          constructor
          · rintro ⟨uid, hmem⟩
            rcases List.mem_cons.mp hmem with heq | hold
            · cases heq
              exact .inl ⟨rfl, rfl⟩
            · exact .inr ⟨uid, hold⟩
          · rintro (⟨rfl, rfl⟩ | ⟨uid, hmem⟩)
            · exact ⟨c.uid, List.mem_cons_self⟩
            · exact ⟨uid, List.mem_cons_of_mem _ hmem⟩
        constructor
        · intro slot' binding
          rw [hissued]
          rcases outward_spec hout with ⟨rfl, hget⟩ | ⟨rfl, hnone, _⟩
          · constructor
            · exact .inr
            · rintro (⟨rfl, rfl⟩ | h)
              · exact hget
              · exact h
          · simp only [Js.Map.get_set]
            by_cases hslot : slot' = slot
            · subst hslot
              simp [hnone, eq_comm]
            · simp [hslot]
        · intro slot₁ slot₂ binding h₁ h₂
          simp only at h₁ h₂
          rcases outward_spec hout with ⟨rfl, _⟩ | ⟨rfl, _, hfresh⟩
          · exact hok.slotted.distinct slot₁ slot₂ binding h₁ h₂
          · simp only [Js.Map.get_set] at h₁ h₂
            by_cases hs₁ : slot₁ = slot
            · by_cases hs₂ : slot₂ = slot
              · rw [hs₁, hs₂]
              · rw [if_pos hs₁, Option.some.injEq] at h₁
                rw [if_neg hs₂, ← h₁] at h₂
                exact absurd h₂ (hfresh slot₂)
            · rw [if_neg hs₁] at h₁
              by_cases hs₂ : slot₂ = slot
              · rw [if_pos hs₂, Option.some.injEq] at h₂
                rw [← h₂] at h₁
                exact absurd h₁ (hfresh slot₁)
              · rw [if_neg hs₂] at h₂
                exact hok.slotted.distinct slot₁ slot₂ binding h₁ h₂
        · intro name e' c' hget hc'
          simpa [lastOpened] using hok.slotted.opened name e' c' hget hc'
        · exact fun h => ⟨hok.slotted.fenced h.1, trivial⟩
      · intro t
        constructor
        · exact id
        · exact fun _ _ _ h => h
        · exact fun _ h => h
        · exact fun _ c h => ⟨c, h, rfl⟩
        · exact List.suffix_cons _ _
        · exact fun _ h => ⟨h, fun _ => rfl⟩

theorem routine_onBinary (e backendSlot : Nat) : Routine m (m.onBinary e backendSlot).2 := by
  unfold Mem.onBinary
  split
  · exact Routine.refl m
  · exact routine_issue e backendSlot

/-- What a steady log says of a slot: it was issued for the uid last opened. -/
theorem lastOpened_of_issued {log : List TerminalEvent} (h : Along Steady log) {slot : Nat}
    {binding : Binding} {uid : Option String} (hmem : .issued slot binding uid ∈ log) :
    lastOpened binding.workspaceId log = some uid := by
  induction log with
  | nil => cases hmem
  | cons event older ih =>
    obtain ⟨hold, hstep⟩ := h
    cases event with
    | opened id uid' =>
      have hmem' : .issued slot binding uid ∈ older := by simpa using hmem
      unfold lastOpened
      split
      · rename_i hid
        rw [hstep slot binding uid hmem' hid.symm]
      · exact ih hold hmem'
    | issued slot' binding' uid' =>
      unfold lastOpened
      rcases List.mem_cons.mp hmem with heq | hmem'
      · cases heq
        exact hstep
      · exact ih hold hmem'
    | delivered slot' backendSlot' uid' current =>
      have hmem' : .issued slot binding uid ∈ older := by simpa using hmem
      exact ih hold hmem'

end Slots

/-! ### The directory -/

section Directory

variable {m : Mem} {e : Nat}

/-- A runtime is learned or forgotten: while a pass runs, not one it has used. -/
theorem routine_runtime {id : String} {after : Option WorkspaceRuntime}
    {runtimes : Js.Map String WorkspaceRuntime}
    (hget : ∀ id', runtimes.get id' = if id' = id then after else m.workspaceRuntime.get id') :
    Routine m { m with
      workspaceRuntime := runtimes
      directoryLog := .runtime id (m.workspaceRuntime.get id) after :: m.directoryLog } := by
  constructor
  · intro hok
    refine ⟨⟨hok.connected.named, hok.connected.stored, hok.connected.released⟩,
      ⟨hok.slotted.bound, hok.slotted.distinct, hok.slotted.opened, hok.slotted.fenced⟩, ?_⟩
    constructor
    · exact List.forall_mem_cons.mpr ⟨trivial, hok.directed.said⟩
    · intro hclosed halong id' d r hvisited
      have hvis : visited id' m.directoryLog = some (d, r) := hvisited
      have hold := hok.directed.current hclosed halong.1 id' d r hvis
      have hstay : (visited id m.directoryLog).isSome → after = m.workspaceRuntime.get id :=
        halong.2
      change runtimes.get id' = r
      rw [hget]
      split
      · rename_i hid
        subst hid
        rw [hstay (by rw [hvis]; rfl)]
        exact hold
      · exact hold
    · exact fun halong => ⟨hok.directed.converged halong.1, trivial⟩
  · intro t
    constructor
    · exact fun h => h
    · exact fun _ _ _ h => h
    · exact fun _ h => h
    · exact fun _ c h => ⟨c, h, rfl⟩
    · exact List.suffix_refl _
    · exact fun _ h => ⟨h, fun _ => rfl⟩

theorem routine_setRuntime (id : String) (runtime : WorkspaceRuntime) :
    Routine m (m.setRuntime id runtime) :=
  routine_runtime fun id' => Js.Map.get_set m.workspaceRuntime id id' runtime

theorem routine_deleteRuntime (id : String) : Routine m (m.deleteRuntime id) :=
  routine_runtime fun id' => Js.Map.get_delete m.workspaceRuntime id id'

/-- Only the logs of the directory grows, by an event that is no end of a pass and leaves
    what the pass has visited. -/
theorem routine_event {event : DirectoryEvent} (hsaid : event.Said)
    (hconv : ∀ older, Converged older event)
    (hvisited : ∀ id older, visited id (event :: older) = visited id older) :
    Routine m { m with directoryLog := event :: m.directoryLog } := by
  constructor
  · intro hok
    refine ⟨⟨hok.connected.named, hok.connected.stored, hok.connected.released⟩,
      ⟨hok.slotted.bound, hok.slotted.distinct, hok.slotted.opened, hok.slotted.fenced⟩, ?_⟩
    constructor
    · exact List.forall_mem_cons.mpr ⟨hsaid, hok.directed.said⟩
    · intro hclosed halong id d r hvis
      rw [hvisited] at hvis
      exact hok.directed.current hclosed halong.1 id d r hvis
    · exact fun halong => ⟨hok.directed.converged halong.1, hconv _⟩
  · intro t
    constructor
    · exact id
    · exact fun _ _ _ h => h
    · exact fun _ h => h
    · exact fun _ c h => ⟨c, h, rfl⟩
    · exact List.suffix_refl _
    · exact fun _ h => ⟨h, fun id => hvisited id _⟩

/-- The rows of a snapshot are the listing. -/
theorem rows_eq {active : List Workspace} {projects : List Project}
    {labels : List (String × List String)} {rows : List WorkspaceDescriptor}
    (h : m.rows active projects labels = .ok rows) : rows = m.listing active projects labels := by
  have hall := Fallible.mapM_eq_ok.mp h
  unfold Mem.listing
  clear h
  induction hall with
  | nil => rfl
  | @cons workspace descriptor active rows hfirst _ ih =>
    split at hfirst
    · cases hfirst
    · rename_i project hproject
      cases hfirst
      rw [List.filterMap_cons, hproject, ← ih]
      rfl

theorem routine_respond (active : List Workspace) (projects : List Project)
    (labels : List (String × List String)) :
    Routine m (m.respond active projects labels).2 := by
  unfold Mem.respond
  split
  · exact Routine.refl m
  · rename_i rows hrows
    exact routine_event (rows_eq hrows) (fun _ => trivial) (fun _ _ => rfl)

theorem routine_beginRefresh (t : Tid) (revision : Nat) :
    Routine m (m.beginRefresh t revision).2 := by
  unfold Mem.beginRefresh
  split
  · exact Routine.refl m
  · rename_i hidle
    have hnone : m.refreshing = none := by
      cases hr : m.refreshing with
      | none => rfl
      | some pass => simp [hr] at hidle
    constructor
    · intro hok
      refine ⟨⟨hok.connected.named, hok.connected.stored, hok.connected.released⟩,
        ⟨hok.slotted.bound, hok.slotted.distinct, hok.slotted.opened, hok.slotted.fenced⟩, ?_⟩
      constructor
      · exact List.forall_mem_cons.mpr ⟨trivial, hok.directed.said⟩
      · intro _ _ id d r hvis
        cases hvis
      · exact fun halong => ⟨hok.directed.converged halong.1, trivial⟩
    · intro u
      constructor
      · exact id
      · exact fun _ _ _ h => h
      · exact fun _ h => h
      · exact fun _ c h => ⟨c, h, rfl⟩
      · exact List.suffix_refl _
      · intro revision' h
        rw [hnone] at h
        cases h

/-! ### Pieces made of these -/

theorem routine_retire (e : Nat) : Routine m (m.updateEntry e Connection.retire) :=
  routine_updateEntry advances_retire

theorem routine_retireNext (next : Option Nat) : Routine m (m.retireNext next) := by
  unfold Mem.retireNext
  split
  · exact routine_retire _
  · exact Routine.refl m

theorem routine_openProject (e : Nat) (runtime : WorkspaceRuntime) :
    Routine m (m.openProject e runtime) := by
  unfold Mem.openProject
  split
  · exact Routine.refl m
  · exact (routine_updateEntry (e := e) (advances_register runtime.id)).trans
      (routine_setRuntime _ _)

theorem routine_fetchWorkspaces (e : Nat) (rows : List WorkspaceRuntime) :
    Routine m (m.fetchWorkspaces e rows) := by
  unfold Mem.fetchWorkspaces
  split
  · exact Routine.refl m
  · dsimp only
    split
    · exact (routine_setRuntime _ _).trans (routine_updateEntry advances_settle)
    · exact routine_updateEntry advances_settle

theorem routine_openFailed (e : Nat) (error : Err) : Routine m (m.openFailed e error) := by
  unfold Mem.openFailed
  split
  · exact Routine.refl m
  · rename_i c hc
    exact (routine_updateEntry (e := e) (advances_fail error)).trans
      (routine_forgetConnection (dead_fail hc))

theorem routine_onWorkspaceUpdate (e : Nat) (runtime : WorkspaceRuntime) :
    Routine m (m.onWorkspaceUpdate e runtime).2 := by
  unfold Mem.onWorkspaceUpdate
  split
  · exact Routine.refl m
  · split
    · exact Routine.refl m
    · exact routine_setRuntime _ _

/-- Code that has waited for an entry of another uid holds one that is over. -/
theorem routine_joined {workspace : Workspace} {r : Except Err Bool} {m' : Mem}
    (h : m.joined e workspace = some (r, m')) :
    Routine m m' ∧ (r = .ok true → m'.Dead e) := by
  unfold Mem.joined at h
  obtain ⟨settled, hsettled, hpair⟩ := Option.map_eq_some_iff.mp h
  cases settled with
  | error error =>
    cases hpair
    exact ⟨Routine.refl m, by simp⟩
  | ok u =>
    simp only at hpair
    split at hpair
    · cases hpair
      exact ⟨routine_retire e, fun _ => dead_retire hsettled⟩
    · cases hpair
      exact ⟨Routine.refl m, by simp⟩

theorem routine_forget {name : String} (hdead : m.Dead e) : Routine m (m.forget name e) := by
  unfold Mem.forget
  exact (routine_forgetConnection hdead).trans (routine_deleteRuntime name)

theorem routine_examine {name : String} {active : List Workspace} {stale : Bool} {m' : Mem}
    (h : m.examine name e active = some (stale, m')) : Routine m m' := by
  unfold Mem.examine at h
  obtain ⟨settled, hsettled, hpair⟩ := Option.map_eq_some_iff.mp h
  simp only at hpair
  split at hpair
  · cases hpair
    have hdead : (m.updateEntry e Connection.retire).Dead e := by
      cases settled with
      | ok u => exact dead_retire hsettled
      | error error => exact ((routine_retire e).kept ⟨0, 0⟩).dead e (dead_of_error hsettled)
    exact ((routine_retire e).trans (routine_forgetConnection hdead)).trans
      (routine_deleteRuntime name)
  · cases hpair
    exact Routine.refl m

theorem routine_clearFailed {es opened : List Nat} {m' : Mem}
    (h : m.clearFailed es = some (opened, m')) : Routine m m' := by
  unfold Mem.clearFailed at h
  split at h
  · simp only [Option.some.injEq, Prod.mk.injEq] at h
    obtain ⟨_, rfl⟩ := h
    split
    · exact (routine_retire _).trans (routine_clear (fun m => .cleared m.lost) id)
    · exact routine_clear (fun m => .cleared m.lost) id
  · cases h

theorem routine_release {r : Except Err Unit} {m' : Mem} (h : m.release e = some (r, m')) :
    Routine m m' ∧ m'.Dead e := by
  unfold Mem.release at h
  obtain ⟨settled, hsettled, hpair⟩ := Option.map_eq_some_iff.mp h
  cases settled with
  | error error =>
    cases hpair
    exact ⟨Routine.refl m, dead_of_error hsettled⟩
  | ok u =>
    cases hpair
    exact ⟨routine_retire e, dead_retire hsettled⟩

end Directory

/-! ### Pieces that need what their thread knows -/

section Special

variable {m : Mem} {e : Nat} {t : Tid}

/-- Flags and counters no invariant looks at, and closing, which only forbids. -/
theorem routine_flags (closed watchingWorkspaces : Bool) (attempted : List (Tid × Nat))
    (h : m.closed = true → closed = true) :
    Routine m { m with closed, watchingWorkspaces, attempted } := by
  constructor
  · intro hok
    refine ⟨⟨hok.connected.named, hok.connected.stored, hok.connected.released⟩,
      ⟨hok.slotted.bound, hok.slotted.distinct, hok.slotted.opened, hok.slotted.fenced⟩,
      hok.directed.said, ?_, hok.directed.converged⟩
    intro hclosed
    have hopen : m.closed = false := by
      by_contra hnot
      rw [h (by simpa using hnot)] at hclosed
      cases hclosed
    exact hok.directed.current hopen
  · intro u
    constructor
    · exact h
    · exact fun _ _ _ h => h
    · exact fun _ h => h
    · exact fun _ c h => ⟨c, h, rfl⟩
    · exact List.suffix_refl _
    · exact fun _ h => ⟨h, fun _ => rfl⟩

theorem routine_released (parent : Tid) (hdead : m.Dead e) :
    Routine m { m with released := (parent, e) :: m.released } := by
  constructor
  · intro hok
    refine ⟨⟨hok.connected.named, hok.connected.stored, ?_⟩,
      ⟨hok.slotted.bound, hok.slotted.distinct, hok.slotted.opened, hok.slotted.fenced⟩,
      hok.directed.said, hok.directed.current, hok.directed.converged⟩
    intro u e' hmem
    rcases List.mem_cons.mp hmem with heq | hold
    · cases heq
      exact hdead
    · exact hok.connected.released u e' hold
  · intro u
    constructor
    · exact fun h => h
    · exact fun _ _ _ h => h
    · exact fun _ h => h
    · exact fun _ c h => ⟨c, h, rfl⟩
    · exact List.suffix_refl _
    · exact fun _ h => ⟨h, fun _ => rfl⟩

/-- The map of a closed session is cleared when all it keeps is over. -/
theorem routine_clearAll (hclosed : m.closed = true)
    (hdead : ∀ name e, m.connections.get name = some e → m.Dead e) : Routine m m.clearAll := by
  constructor
  · intro hok
    constructor
    · constructor
      · intro name e hget
        simp [Mem.clearAll] at hget
      · intro horder e c hc hopen
        have hc0 : m.entries[e]? = some c := hc
        obtain ⟨c', hc', hnot⟩ := hdead c.name e (hok.connected.stored horder e c hc hopen)
        rw [hc0] at hc'
        cases hc'
        exact absurd hopen hnot
      · exact hok.connected.released
    · constructor
      · exact hok.slotted.bound
      · exact hok.slotted.distinct
      · intro name e c hget
        simp [Mem.clearAll] at hget
      · exact hok.slotted.fenced
    · constructor
      · exact hok.directed.said
      · intro hopen
        rw [show m.clearAll.closed = m.closed from rfl, hclosed] at hopen
        cases hopen
      · exact hok.directed.converged
  · intro u
    constructor
    · exact fun h => h
    · intro _ name e hget
      simp [Mem.clearAll] at hget
    · exact fun _ h => h
    · exact fun _ c h => ⟨c, h, rfl⟩
    · exact List.suffix_refl _
    · exact fun _ h => ⟨h, fun _ => rfl⟩

/-- A frame is delivered on a slot that was issued for the uid of the entry. -/
theorem routine_deliver {slot : Nat} {binding : Binding} {workspaces : List Workspace}
    {r : Except Err Unit} {m' : Mem} (h : m.deliver slot binding e workspaces = some (r, m'))
    (hissued : ∀ c, m.entries[e]? = some c → Along Steady m.terminalLog →
      .issued slot binding c.uid ∈ m.terminalLog) : Routine m m' := by
  unfold Mem.deliver at h
  obtain ⟨settled, hsettled, hpair⟩ := Option.map_eq_some_iff.mp h
  cases settled with
  | error error =>
    cases hpair
    exact Routine.refl m
  | ok u =>
    simp only at hpair
    split at hpair
    · cases hpair
      exact Routine.refl m
    · rename_i hfence
      cases hpair
      unfold Mem.settled at hsettled
      obtain ⟨c, hc, _⟩ := Option.bind_eq_some_iff.mp hsettled
      have hcurrent : ∃ current, workspaces.find? (·.metadata.name == binding.workspaceId) =
          some current ∧ current.metadata.uid = c.uid ∧ available current = true := by
        cases hfound : workspaces.find? (·.metadata.name == binding.workspaceId) with
        | none => simp [hfound] at hfence
        | some current => exact ⟨current, rfl, by simpa [hc, hfound] using hfence⟩
      constructor
      · intro hok
        refine ⟨⟨hok.connected.named, hok.connected.stored, hok.connected.released⟩, ?_,
          hok.directed.said, hok.directed.current, hok.directed.converged⟩
        constructor
        · intro slot' binding'
          rw [hok.slotted.bound slot' binding']
          simp
        · exact hok.slotted.distinct
        · exact hok.slotted.opened
        · intro halong
          obtain ⟨current, hfound, huid, hready⟩ := hcurrent
          have hname : current.metadata.name = binding.workspaceId := by
            simpa using List.find?_some hfound
          have hentry : (m.entries[e]?).bind Connection.uid = c.uid := by simp [hc]
          rw [hfound, hentry]
          exact ⟨hok.slotted.fenced halong.1, binding.workspaceId, hissued c hc halong.1,
            current, rfl, hname, huid, hready⟩
      · intro u
        constructor
        · exact fun h => h
        · exact fun _ _ _ h => h
        · exact fun _ h => h
        · exact fun _ c h => ⟨c, h, rfl⟩
        · exact List.suffix_cons _ _
        · exact fun _ h => ⟨h, fun _ => rfl⟩

/-! ### A pass -/

/-- A piece of the pass of thread `t`. -/
structure Owned (t : Tid) (m m' : Mem) : Prop where
  ok : Ok m → Ok m'
  kept : ∀ u, u ≠ t → Kept u m m'

/-- The client is to see what the running pass has computed. -/
theorem expected_of_visited {log : List DirectoryEvent} (h : Along Agreed log) {id : String}
    {d : WorkspaceDescriptor} {r : Option WorkspaceRuntime} (hvis : visited id log = some (d, r)) :
    expected id log = some d := by
  induction log with
  | nil => cases hvis
  | cons event older ih =>
    obtain ⟨hold, hstep⟩ := h
    cases event with
    | began => cases hvis
    | ended => cases hvis
    | refreshed projections listed removed directory unchanged => cases hvis
    | snapshot listing rows => exact hstep id d r hvis
    | runtime id' before after => exact ih hold hvis
    | projected last descriptor runtime emitted =>
      unfold visited at hvis
      unfold expected
      split at hvis
      · rename_i hid
        cases hvis
        by_cases hlast : last = some d
        · rw [if_neg fun h => h.1 hlast, ← hid]
          exact hstep hlast
        · rw [if_pos ⟨hlast, hid⟩]
      · rename_i hid
        rw [if_neg fun h => hid h.2]
        exact ih hold hvis

variable {revision : Nat}

/-- An event of the pass in its own log is none of the others' business. -/
theorem owned_event {event : DirectoryEvent} (hpass : m.refreshing = some (t, revision))
    (refreshing : Option (Tid × Nat)) (projections : Js.Map String WorkspaceDescriptor)
    (hsaid : event.Said) (hcurrent : ∀ id d r, visited id (event :: m.directoryLog) = some (d, r) →
      visited id m.directoryLog = some (d, r) ∨ m.workspaceRuntime.get id = r)
    (hconverged : (∀ event ∈ m.directoryLog, event.Said) →
      Along Agreed (event :: m.directoryLog) → Converged m.directoryLog event) :
    Owned t m { m with
      refreshing
      workspaceProjections := projections
      directoryLog := event :: m.directoryLog } := by
  constructor
  · intro hok
    refine ⟨⟨hok.connected.named, hok.connected.stored, hok.connected.released⟩,
      ⟨hok.slotted.bound, hok.slotted.distinct, hok.slotted.opened, hok.slotted.fenced⟩, ?_⟩
    constructor
    · exact List.forall_mem_cons.mpr ⟨hsaid, hok.directed.said⟩
    · intro hclosed halong id d r hvis
      rcases hcurrent id d r hvis with hold | hnow
      · exact hok.directed.current hclosed halong.1 id d r hold
      · exact hnow
    · exact fun halong => ⟨hok.directed.converged halong.1, hconverged hok.directed.said halong⟩
  · intro u hu
    constructor
    · exact fun h => h
    · exact fun _ _ _ h => h
    · exact fun _ h => h
    · exact fun _ c h => ⟨c, h, rfl⟩
    · exact List.suffix_refl _
    · intro revision' h
      rw [hpass] at h
      cases h
      exact absurd rfl hu

theorem owned_endRefresh (hpass : m.refreshing = some (t, revision)) : Owned t m m.endRefresh :=
  owned_event hpass none m.workspaceProjections trivial (fun _ _ _ h => by cases h)
    fun _ _ => trivial

/-- A session that is closed says nothing more; its pass may still take and end. -/
theorem owned_silent (hpass : m.refreshing = some (t, revision))
    (refreshing : Option (Tid × Nat)) (projections : Js.Map String WorkspaceDescriptor) :
    Owned t m { m with refreshing, workspaceProjections := projections } := by
  constructor
  · intro hok
    exact ⟨⟨hok.connected.named, hok.connected.stored, hok.connected.released⟩,
      ⟨hok.slotted.bound, hok.slotted.distinct, hok.slotted.opened, hok.slotted.fenced⟩,
      hok.directed.said, hok.directed.current, hok.directed.converged⟩
  · intro u hu
    constructor
    · exact fun h => h
    · exact fun _ _ _ h => h
    · exact fun _ h => h
    · exact fun _ c h => ⟨c, h, rfl⟩
    · exact List.suffix_refl _
    · intro revision' h
      rw [hpass] at h
      cases h
      exact absurd rfl hu

theorem owned_watching (hpass : m.refreshing = some (t, revision)) : Owned t m m.watching.2 := by
  unfold Mem.watching
  split
  · exact ⟨id, fun u _ => Kept.refl u m⟩
  · exact owned_endRefresh hpass

/-- Describing a workspace: the projections and, in an open session, one event. -/
theorem project_eq (workspace : Workspace) (project : Project)
    (labels : List (String × List String)) :
    ∃ projections last emitted, m.project workspace project labels =
        { m with workspaceProjections := projections }.tell
          (.projected last (workspaceDescriptor workspace project
              (m.workspaceRuntime.get workspace.metadata.name)
              ((labels.lookup workspace.metadata.name).getD []))
            (m.workspaceRuntime.get workspace.metadata.name) emitted) ∧
      (emitted = true ↔ last ≠ some (workspaceDescriptor workspace project
        (m.workspaceRuntime.get workspace.metadata.name)
        ((labels.lookup workspace.metadata.name).getD []))) := by
  unfold Mem.project
  dsimp only
  split
  · rename_i hlast
    exact ⟨m.workspaceProjections, _, false, rfl, by simp [hlast]⟩
  · rename_i hlast
    exact ⟨_, _, true, rfl, by simp [hlast]⟩

theorem owned_project (hpass : m.refreshing = some (t, revision)) (workspace : Workspace)
    (project : Project) (labels : List (String × List String)) :
    Owned t m (m.project workspace project labels) := by
  obtain ⟨projections, last, emitted, heq, hsaid⟩ :=
    project_eq (m := m) workspace project labels
  rw [heq]
  unfold Mem.tell
  split
  · exact owned_silent hpass m.refreshing projections
  · apply owned_event hpass m.refreshing projections
    · exact hsaid
    · intro id d r hvis
      unfold visited at hvis
      split at hvis
      · rename_i hid
        cases hvis
        exact .inr (by rw [← hid, workspaceDescriptor_id])
      · exact .inl hvis
    · exact fun _ _ => trivial

theorem project_refreshing (workspace : Workspace) (project : Project)
    (labels : List (String × List String)) :
    (m.project workspace project labels).refreshing = m.refreshing ∧
      (m.project workspace project labels).closed = m.closed := by
  obtain ⟨projections, last, emitted, heq, -⟩ := project_eq (m := m) workspace project labels
  rw [heq]
  unfold Mem.tell
  split <;> exact ⟨rfl, rfl⟩

theorem project_visited (hopen : m.closed = false) (workspace : Workspace) (project : Project)
    (labels : List (String × List String)) (id : String) :
    visited id (m.project workspace project labels).directoryLog =
      if workspace.metadata.name = id then
        some (workspaceDescriptor workspace project
            (m.workspaceRuntime.get workspace.metadata.name)
            ((labels.lookup workspace.metadata.name).getD []),
          m.workspaceRuntime.get workspace.metadata.name)
      else visited id m.directoryLog := by
  obtain ⟨projections, last, emitted, heq, -⟩ := project_eq (m := m) workspace project labels
  rw [heq]
  unfold Mem.tell
  rw [if_neg (by simp [hopen])]
  rfl

theorem routine_dropProjections (ids : List String) :
    Routine m (ids.foldl Mem.dropProjection m) := by
  induction ids generalizing m with
  | nil => exact Routine.refl m
  | cons id ids ih =>
    rw [List.foldl_cons]
    apply Routine.trans _ ih
    have hsilent : Routine m
        { m with workspaceProjections := m.workspaceProjections.delete id } := by
      constructor
      · intro hok
        exact ⟨⟨hok.connected.named, hok.connected.stored, hok.connected.released⟩,
          ⟨hok.slotted.bound, hok.slotted.distinct, hok.slotted.opened, hok.slotted.fenced⟩,
          hok.directed.said, hok.directed.current, hok.directed.converged⟩
      · intro u
        constructor
        · exact fun h => h
        · exact fun _ _ _ h => h
        · exact fun _ h => h
        · exact fun _ c h => ⟨c, h, rfl⟩
        · exact List.suffix_refl _
        · exact fun _ h => ⟨h, fun _ => rfl⟩
    exact hsilent.trans (routine_deleteRuntime id)

theorem dropProjections_closed (ids : List String) :
    (ids.foldl Mem.dropProjection m).closed = m.closed := by
  induction ids generalizing m with
  | nil => rfl
  | cons id ids ih =>
    rw [List.foldl_cons, ih]
    rfl

theorem mem_gone (active : List Workspace) (id : String) : id ∈ m.gone active ↔
    id ∈ m.workspaceProjections.keys ∧ id ∉ active.map (·.metadata.name) := by
  simp [Mem.gone]

/-- The pass ends: what it has computed is the directory, and it has computed what it lists. -/
theorem owned_sweep {active : List Workspace} {directory : Mem → List WorkspaceDescriptor}
    {unchanged : Bool} (hpass : m.refreshing = some (t, revision))
    (hlisted : m.closed = false → ∀ id,
      id ∈ active.map (·.metadata.name) ↔ (visited id m.directoryLog).isSome)
    (hdirectory : m.closed = false → unchanged = true → Along Agreed m.directoryLog → ∀ id,
      (directory m).find? (·.id = id) = (visited id m.directoryLog).map Prod.fst) :
    Owned t m (m.sweep active directory unchanged) := by
  have hroutine := routine_dropProjections (m := m) (m.gone active)
  have hclosed := dropProjections_closed (m := m) (m.gone active)
  have hkept := (hroutine.kept t).pass revision hpass
  have hgrew : m.directoryLog <:+ ((m.gone active).foldl Mem.dropProjection m).directoryLog := by
    generalize m.gone active = ids
    clear hkept hclosed hroutine hdirectory hlisted hpass
    induction ids generalizing m with
    | nil => exact List.suffix_refl _
    | cons id ids ih =>
      have hstep : m.directoryLog <:+ (m.dropProjection id).directoryLog := List.suffix_cons _ _
      rw [List.foldl_cons]
      exact hstep.trans ih
  unfold Mem.sweep
  generalize (m.gone active).foldl Mem.dropProjection m = swept at hroutine hclosed hkept hgrew
  obtain ⟨hpass', hvisited⟩ := hkept
  have hgone := mem_gone (m := m) active
  have howned : Owned t swept { swept.tell (.refreshed m.workspaceProjections.keys
      (active.map (·.metadata.name)) (m.gone active) (directory m) unchanged) with
        refreshing := none } := by
    unfold Mem.tell
    split
    · exact owned_silent hpass' none swept.workspaceProjections
    · rename_i hnot
      have hopen : m.closed = false := by simpa [hclosed] using hnot
      apply owned_event hpass' none swept.workspaceProjections
      · exact hgone
      · intro id d r hvis
        cases hvis
      · intro hsaid halong hunchanged id
        have hsaid' : ∀ event ∈ DirectoryEvent.refreshed m.workspaceProjections.keys
            (active.map (·.metadata.name)) (m.gone active) (directory m) unchanged ::
              swept.directoryLog, event.Said :=
          List.forall_mem_cons.mpr ⟨hgone, hsaid⟩
        rw [hdirectory hopen hunchanged (halong.1.suffix hgrew) id,
          view_eq_expected hsaid']
        unfold expected
        cases hvis : visited id m.directoryLog with
        | some p =>
          have hmem : id ∈ active.map (·.metadata.name) := (hlisted hopen id).mpr (by simp [hvis])
          rw [if_neg fun h => h.2 hmem]
          exact expected_of_visited halong.1 ((hvisited id).trans hvis)
        | none =>
          have hnone : id ∉ active.map (·.metadata.name) := fun hmem => by
            have hsome := (hlisted hopen id).mp hmem
            rw [hvis] at hsome
            cases hsome
          split
          · rfl
          · rename_i hkept
            cases hexpected : expected id swept.directoryLog with
            | none => rfl
            | some d =>
              rcases halong.2 id d hexpected with hprojected | hmem
              · exact absurd ⟨hprojected, hnone⟩ hkept
              · exact absurd hmem hnone
  constructor
  · exact fun hok => howned.ok (hroutine.ok hok)
  · exact fun u hu => (hroutine.kept u).trans (howned.kept u hu)

end Special

end PaseoGateway.Session

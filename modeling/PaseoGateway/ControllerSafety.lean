/-
  PaseoGateway/ControllerSafety.lean
  ==================================
  **What a pass of the controller may do.**

  Every entry of a history is a step of one law (`Step`): a pass acts on what it noted
  itself (`Acts`, `Reports`), an archive call moves residencies and records a teardown,
  the environment changes specs.  The passes and archive calls are shown to obey the
  law request by request.

  `storage_kept` reads off what a history then says about storage: it is deleted and
  reported deleted only by a pass that saw every condition met, and a pass deletes and
  relies on objects of its own workspace only.
-/
import PaseoGateway.LegalHistory
import PaseoGateway.WorkspaceArchive

namespace PaseoGateway.WorkspaceArchive

open Async Cluster Controller

/-! ### What a pass saw -/

/-- The last look of a pass at a name. -/
def lastLook (kind : Kind) (name : String) : List Note → Option (Option Infrastructure)
  | [] => none
  | .got k n result :: older => if k = kind ∧ n = name then some result else lastLook kind name older
  | _ :: older => lastLook kind name older

section Looks

variable {kind kind' : Kind} {name name' : String} {result : Option Infrastructure}
  {own : List Note}

@[simp] theorem lastLook_got_self :
    lastLook kind name (.got kind name result :: own) = some result := by simp [lastLook]

theorem lastLook_got_kind (h : kind' ≠ kind) :
    lastLook kind name (.got kind' name' result :: own) = lastLook kind name own := by
  simp [lastLook, h]

/-- A look that found nothing takes no absence away. -/
theorem lastLook_absent (h : lastLook kind name own = some none) :
    lastLook kind name (.got kind' name' none :: own) = some none := by
  by_cases hsame : kind' = kind ∧ name' = name
  · simp [lastLook, hsame]
  · simp [lastLook, hsame, h]

@[simp] theorem lastLook_clock {instant : Int} :
    lastLook kind name (.clock instant :: own) = lastLook kind name own := rfl
@[simp] theorem lastLook_created {object : Desired} :
    lastLook kind name (.created object :: own) = lastLook kind name own := rfl
@[simp] theorem lastLook_deleted {uid : String} :
    lastLook kind name (.deleted kind' name' uid :: own) = lastLook kind name own := rfl
@[simp] theorem lastLook_replaced {object : Desired} {version : String} :
    lastLook kind name (.replaced object version :: own) = lastLook kind name own := rfl
@[simp] theorem lastLook_purged {workspace : Workspace} :
    lastLook kind name (.purged workspace :: own) = lastLook kind name own := rfl

end Looks

/-! ### What a pass may do -/

section Law

variable (rt : Runtime) (options : Options) (workspace : Workspace) (own : List Note)

/-- The name an object of the workspace has. -/
def objectName : Kind → String
  | .Secret => accessName rt workspace
  | _ => resourceName rt workspace

/-- The object a pass deletes is the one it saw last, and it is its workspace's own. -/
def Owned (kind : Kind) (name uid : String) : Prop :=
  ∃ object, lastLook kind name own = some (some object) ∧ object.uid = some uid ∧
    object.workspaceUid = workspace.metadata.uid

/-- The retention of the archived workspace has run out. -/
def RetentionOver : Prop :=
  ∃ (ttl : Nat) (instant date : Int),
    workspace.spec.retentionPolicy.bind RetentionPolicy.ttlAfterArchivedSeconds = some ttl ∧
    .clock instant ∈ own ∧
    rt.dateParse ((workspace.status.bind WorkspaceStatus.archivedAt).getD
      (Iso.toISOString instant)) = some date ∧
    date + ttl * 1000 ≤ instant

/-- Neither the Pod, nor a reader of its volume, nor the runtime objects are left. -/
structure ComputeGone : Prop where
  pod : lastLook .Pod (resourceName rt workspace) own = some none
  reader : ∃ uid, workspace.metadata.uid = some uid ∧
    lastLook .Pod (historyReaderName rt uid) own = some none
  service : lastLook .Service (resourceName rt workspace) own = some none
  secret : lastLook .Secret (accessName rt workspace) own = some none

/-- The storage of the workspace may go. -/
structure StorageDue : Prop where
  archived : workspace.spec.residency = .Archived
  tornDown : (teardownCompletedAt workspace).isSome
  gone : ComputeGone rt workspace own
  elapsed : RetentionOver rt workspace own

/-- The claim was seen to be gone after the storage was due. -/
structure StorageGone : Prop where
  due : StorageDue rt workspace own
  absent : lastLook .PersistentVolumeClaim (resourceName rt workspace) own = some none

/-- The pass restores the Pod of an archived workspace, and finds a terminated one. -/
def Restored : Prop :=
  .got .Pod (resourceName rt workspace) none ∈ own ∧
    ∃ pod, .got .Pod (resourceName rt workspace) (some pod) ∈ own ∧
      (pod.phase = some "Succeeded" ∨ pod.phase = some "Failed")

/-- Why an object of a kind may be deleted. -/
def Deletable : Kind → Prop
  | .Pod => workspace.spec.residency = .Archived →
      (teardownCompletedAt workspace).isSome ∨ Restored rt workspace own
  | .PersistentVolumeClaim => StorageDue rt workspace own
  | .Service => workspace.spec.residency = .Archived
  | .Secret => workspace.spec.residency = .Archived

/-- The object the pass relies on is its workspace's own, or it has just created it. -/
def Adopted (kind : Kind) : Prop :=
  (∃ object, lastLook kind (objectName rt workspace kind) own = some (some object) ∧
    object.workspaceUid = workspace.metadata.uid) ∨
  (lastLook kind (objectName rt workspace kind) own = some none ∧
    ∃ uid, workspace.metadata.uid = some uid ∧
      .created ⟨kind, objectName rt workspace kind, uid⟩ ∈ own)

/-- Everything the Pod of the workspace uses is its own. -/
structure Supplied : Prop where
  access : options.gatewayUrl = true → Adopted rt workspace own .Secret
  claim : ephemeral workspace = false → Adopted rt workspace own .PersistentVolumeClaim
  service : Adopted rt workspace own .Service

/-- And so is the Pod. -/
structure Equipped : Prop extends Supplied rt options workspace own where
  pod : Adopted rt workspace own .Pod

/-- What a pass over `workspace` may add to its notes. -/
def Acts : Note → Prop
  | .pass _ => False
  | .got _ _ _ => True
  | .created object => object.name = objectName rt workspace object.kind ∧
      workspace.metadata.uid = some object.workspaceUid ∧
      lastLook object.kind object.name own = some none ∧
      (object.kind = .Pod → Supplied rt options workspace own)
  | .deleted kind name uid => name = objectName rt workspace kind ∧
      Owned workspace own kind name uid ∧ Deletable rt workspace own kind
  | .replaced object version => object.name = objectName rt workspace object.kind ∧
      workspace.metadata.uid = some object.workspaceUid ∧
      ∃ seen, lastLook object.kind object.name own = some (some seen) ∧
        seen.workspaceUid = workspace.metadata.uid ∧ seen.resourceVersion = version
  | .snapshot other => other = workspace
  | .tornDown other => other = workspace ∧
      ∃ pod, lastLook .Pod (resourceName rt workspace) own = some (some pod) ∧
        pod.workspaceUid = workspace.metadata.uid
  | .purged other => other = workspace ∧ StorageGone rt workspace own
  | .clock _ => True

/-- A message of a pass that has taken no object over. -/
inductive Aside : String → Prop
  | cannotSuspend : Aside "Ephemeral workspaces cannot suspend; archive to release their data"
  | podLost : Aside "Ephemeral pod was lost before teardown; automatic cleanup refused"
  | notReady : Aside "Waiting for workspace readiness to run teardown"
  | teardownFailed : Aside "Teardown failed or outcome unknown; compute and storage retained"
  | tornDown : Aside "Teardown completed; stopping compute"
  | noSnapshot : Aside
      "Inventory snapshot unavailable; compute and storage retained before suspension"
  | stopping : Aside "Waiting for compute to stop; storage retained"
  | reader : Aside "Waiting for retained history reader to finish"
  | runtime : Aside "Waiting for owned runtime resources to be removed"
  | deleting : Aside "Waiting for owned storage deletion to finish"
  | released : Aside "Retention expired; owned storage released"
  | ephemeral : Aside "Compute stopped; ephemeral data released"
  | stopped : Aside "Compute stopped; storage retained"
  | noProject : Aside "Referenced project does not exist"
  | capacity : Aside "Workspace capacity reached; waiting for a slot"
  | noKey : Aside "Credential profile reference has a missing key"
  | unusable : Aside "Codex credential authority has no usable access credential"
  | noToken : Aside "Legacy credential profile has no token"
  | noProfile : Aside "Credential profile does not exist"

/-- What a pass over `workspace` may report. -/
structure Reports (value : WorkspaceStatus) : Prop where
  archived : value.phase = .Archived →
    workspace.spec.residency = .Archived ∧ (teardownCompletedAt workspace).isSome
  ready : value.phase = .Ready → Equipped rt options workspace own
  relies : Aside value.message ∨ Equipped rt options workspace own
  tornDown : value.teardownCompletedAt = teardownCompletedAt workspace ∨
    (workspace.spec.residency = .Archived ∧ .tornDown workspace ∈ own ∧
      (options.beforeArchive → .snapshot workspace ∈ own))
  released : value.storageDeletedAt = workspace.status.bind WorkspaceStatus.storageDeletedAt ∨
    StorageGone rt workspace own

/-- The thread runs an archive call. -/
def Archiver (calls : Calls sys) (t : Tid) : Prop :=
  ∃ id principal height, calls t = some ⟨.archive id principal, height⟩

theorem Archiver.mono {calls calls' : Calls sys} {t : Tid} (hle : calls.Le calls')
    (h : Archiver calls t) : Archiver calls' t := by
  obtain ⟨id, principal, height, hcall⟩ := h
  exact ⟨id, principal, height, hle t _ hcall⟩

/-- The thread runs a round of the controller. -/
def Passer (calls : Calls sys) (t : Tid) : Prop :=
  ∃ name height, calls t = some ⟨.resync name, height⟩

theorem Passer.mono {calls calls' : Calls sys} {t : Tid} (hle : calls.Le calls')
    (h : Passer calls t) : Passer calls' t := by
  obtain ⟨name, height, hcall⟩ := h
  exact ⟨name, height, hle t _ hcall⟩

theorem Passer.not_archiver {calls : Calls sys} {t : Tid} (h : Passer calls t) :
    ¬ Archiver calls t := by
  rintro ⟨id, principal, height', hcall'⟩
  obtain ⟨name, height, hcall⟩ := h
  rw [hcall] at hcall'
  cases hcall'

/-- What an archive call may add to its notes. -/
def Observes : Note → Prop
  | .got _ _ _ => True
  | .snapshot _ => True
  | .tornDown workspace => .snapshot workspace ∈ own
  | .clock _ => True
  | _ => False

end Law

/-- The record `old` after a new spec. -/
def respecified (old : Workspace) (metadata : Metadata) (spec : WorkspaceSpec) : Workspace :=
  { metadata, spec, status := old.status }

def withStatus (old : Workspace) (value : WorkspaceStatus) : Workspace :=
  { old with status := some value }

/-- The status an archive call records. -/
def tornDownAt (value : WorkspaceStatus) (instant : Int) : WorkspaceStatus :=
  { value with teardownCompletedAt := some (Iso.toISOString instant) }

inductive Step (rt : Runtime) (options : Options) (calls : Calls sys) (older : History) :
    Entry Key (fun _ => Workspace) Note → Prop
  | pass {t : Tid} {read : Read} : Passer calls t → Stored older read.version read.key read.workspace →
      notesOf (S := sys) t older = [] → Step rt options calls older (.note (some t) (.pass read))
  | acts {t : Tid} {read : Read} {n : Note} : .note (some t) (.pass read) ∈ older →
      Acts rt options read.workspace (notesOf (S := sys) t older) n →
      Step rt options calls older (.note (some t) n)
  | reports {t : Tid} {read : Read} {value : WorkspaceStatus} :
      .note (some t) (.pass read) ∈ older →
      lookup read.key older = some (read.version, read.workspace) →
      Reports rt options read.workspace (notesOf (S := sys) t older) value →
      Step rt options calls older (.update (some t) read.key (withStatus read.workspace value))
  | observes {t : Tid} {n : Note} : Archiver calls t → Observes (notesOf (S := sys) t older) n →
      Step rt options calls older (.note (some t) n)
  | residency {t : Tid} {k : Key} {n : Nat} {old : Workspace} {residency : Residency} :
      Archiver calls t → lookup k older = some (n, old) →
      (old.spec.residency = .Archived → residency = .Archived) →
      Step rt options calls older (.update (some t) k (withResidency old residency))
  | records {t : Tid} {k : Key} {n : Nat} {old : Workspace} {value : WorkspaceStatus}
      {instant : Int} :
      Archiver calls t → lookup k older = some (n, old) → old.spec.residency = .Running →
      old.status = some value → .note (some t) (.tornDown old) ∈ older →
      Step rt options calls older (.update (some t) k (withStatus old (tornDownAt value instant)))
  | create {workspace : Workspace} : workspace.status = none →
      Step rt options calls older (.create none (.workspace workspace.metadata.name) workspace)
  | spec {k : Key} {n : Nat} {old : Workspace} {metadata : Metadata} {spec : WorkspaceSpec} :
      lookup k older = some (n, old) → allowed old metadata spec = true →
      Step rt options calls older (.update none k (respecified old metadata spec))
  | delete {k : Key} : Step rt options calls older (.delete none k)

def law (rt : Runtime) (options : Options) : Law sys where
  step := Step rt options
  mono := by
    intro calls calls' older e hle h
    cases h with
    | pass ht hstored hnew => exact .pass (ht.mono hle) hstored hnew
    | acts hpass hacts => exact .acts hpass hacts
    | reports hpass hcurrent hreports => exact .reports hpass hcurrent hreports
    | observes ht hn => exact .observes (ht.mono hle) hn
    | residency ht hold hkeep => exact .residency (ht.mono hle) hold hkeep
    | records ht hold hrunning hvalue hdown =>
      exact .records (ht.mono hle) hold hrunning hvalue hdown
    | create hstatus => exact .create hstatus
    | spec hold hallowed => exact .spec hold hallowed
    | delete => exact .delete

/-! ### Rules for a pass -/

section Runs

variable {rt : Runtime} {options : Options} {timeout : Int} {turns : Nat} {t : Tid}
  {w w' : World sys} {read : Read} {own : List Note} {α : Type} {Q : α → World sys → Prop}

/-- The thread keeps the law and ends in `Q`. -/
abbrev Runs (rt : Runtime) (options : Options) (timeout : Int) (turns : Nat) (t : Tid)
    {α : Type} (p : sys.Task α) (Q : α → World sys → Prop) (w : World sys) : Prop :=
  (law rt options).Obeys (machine rt options timeout turns) t p Q w

/-- Thread `t` is in its pass over `read`, with these notes. -/
structure At (t : Tid) (read : Read) (own : List Note) (w : World sys) : Prop where
  stored : Stored w.trace read.version read.key read.workspace
  pass : .note (some t) (.pass read) ∈ w.trace
  own : notesOf (S := sys) t w.trace = own

theorem At.grows (h : At t read own w) (hg : Grows t w w') : At t read own w' where
  stored := hg.later.stored h.stored
  pass := hg.later.mem h.pass
  own := hg.notesOf_eq.trans h.own

/-- Whatever else happened, the thread is still in its pass. -/
theorem At.later (h : At t read own w) (hl : Later w w') : ∃ own', At t read own' w' :=
  ⟨_, hl.stored h.stored, hl.mem h.pass, rfl⟩

/-- A request outside the store, with the note it leaves. -/
theorem runs_ext {x : Ext} {k : x.Res → sys.Task α} (hat : At t read own w)
    (hacts : ∀ c r n, reply c x = some (r, some n) → Acts rt options read.workspace own n)
    (hk : ∀ c r n w', reply c x = some (r, n) → Later w w' → At t read (n.toList ++ own) w' →
      Runs rt options timeout turns t (k r) Q w') :
    Runs rt options timeout turns t (.call (.ext x) k) Q w := by
  refine Law.Obeys.ext fun w1 c a hg hi ha => ?_
  obtain ⟨⟨r, n⟩, hreply, rfl⟩ := Option.map_eq_some_iff.mp ha
  have hat1 := hat.grows hg
  have hlater := Law.later_answered w1 t
    { res := r, notes := n.toList, mem := (), glob := () : Answer sys x }
  refine ⟨?_, hk c r n _ hreply (hg.later.trans hlater) ?_⟩
  · cases n with
    | none => exact hi.legal
    | some n =>
      have hstep : Step rt options w1.calls w1.trace (.note (some t) n) := by
        apply Step.acts hat1.pass
        rw [hat1.own]
        exact hacts c r n hreply
      exact ⟨hi.legal, hstep⟩
  · constructor
    · exact hlater.stored hat1.stored
    · exact hlater.mem hat1.pass
    · rw [World.spawnAll_trace, World.answered_trace, notesOf_own, hat1.own]

/-- The end of a program. -/
theorem runs_ret {a : α} (h : ∀ w', Grows t w w' → Q a w') :
    Runs rt options timeout turns t (.ret a) Q w :=
  Safe.ret fun w' hr _ => h w' hr.1

theorem runs_get {kind : Kind} {name : String} (hat : At t read own w) :
    Runs rt options timeout turns t (get kind name)
      (fun result w' => At t read (.got kind name result :: own) w') w := by
  refine runs_ext hat ?_ ?_
  · intro c r n hreply
    simp only [reply, Option.some.injEq] at hreply
    split at hreply
    · cases hreply
    · cases hreply
      trivial
  · intro c r n w' hreply _ hat'
    simp only [reply, Option.some.injEq] at hreply
    split at hreply
    · cases hreply
      exact Law.Obeys.fail
    · cases hreply
      exact runs_ret fun w'' hg => hat'.grows hg

theorem runs_now (hat : At t read own w) :
    Runs rt options timeout turns t now (fun instant w' => At t read (.clock instant :: own) w') w := by
  refine runs_ext hat ?_ ?_
  · intro c r n hreply
    cases hreply
    trivial
  · intro c r n w' hreply _ hat'
    cases hreply
    exact runs_ret fun w'' hg => hat'.grows hg

/-- A request that is sent whatever becomes of it. -/
theorem runs_sent {x : Ext} {n : Note} (hx : x.Res = Except Err Unit)
    (hreply : ∀ c r m, reply c x = some (r, m) → m = some n) (hat : At t read own w)
    (hn : Acts rt options read.workspace own n) :
    Runs rt options timeout turns t (askOr (S := sys) x hx)
      (fun _ w' => At t read (n :: own) w') w := by
  refine runs_ext hat ?_ ?_
  · intro c r m hr
    cases hreply c r _ hr
    exact hn
  · intro c r m w' hr _ hat'
    cases hreply c r m hr
    cases (hx ▸ r : Except Err Unit) with
    | ok _ => exact runs_ret fun w'' hg => hat'.grows hg
    | error e => exact Law.Obeys.fail

theorem runs_create {object : Desired} (hat : At t read own w)
    (h : Acts rt options read.workspace own (.created object)) :
    Runs rt options timeout turns t (create object)
      (fun _ w' => At t read (.created object :: own) w') w := by
  refine runs_sent rfl ?_ hat h
  intro c r m hr
  cases hr
  rfl

theorem runs_delete {kind : Kind} {name uid : String} (hat : At t read own w)
    (h : Acts rt options read.workspace own (.deleted kind name uid)) :
    Runs rt options timeout turns t (delete kind name uid)
      (fun _ w' => At t read (.deleted kind name uid :: own) w') w := by
  refine runs_sent rfl ?_ hat h
  intro c r m hr
  cases hr
  rfl

theorem runs_purge (hat : At t read own w) (h : StorageGone rt read.workspace own) :
    Runs rt options timeout turns t
      (askOr (S := sys) (.purgeInventory read.workspace) rfl : sys.Task Unit)
      (fun _ w' => At t read (.purged read.workspace :: own) w') w := by
  refine runs_sent rfl ?_ hat ⟨rfl, h⟩
  intro c r m hr
  cases hr
  rfl

/-- A request that leaves no note. -/
theorem runs_quiet {x : Ext} {β : Type} (hx : x.Res = Except Err β)
    (hreply : ∀ c r m, reply c x = some (r, m) → m = none) (hat : At t read own w) :
    Runs rt options timeout turns t (askOr (S := sys) x hx) (fun _ w' => At t read own w') w := by
  refine runs_ext hat ?_ ?_
  · intro c r n hr
    cases hreply c r _ hr
  · intro c r n w' hr _ hat'
    cases hreply c r n hr
    cases (hx ▸ r : Except Err β) with
    | ok a => exact runs_ret fun w'' hg => hat'.grows hg
    | error e => exact Law.Obeys.fail

/-- A command in the Pod or a snapshot, noted when it completes. -/
theorem runs_completes {x : Ext} {n : Note} (hx : x.Res = Except Err Unit)
    (hreply : ∀ c r m, reply c x = some (r, m) →
      (hx ▸ r : Except Err Unit) = .ok () ∧ m = some n ∨
        (∃ e, (hx ▸ r : Except Err Unit) = .error e) ∧ m = none)
    (hat : At t read own w) (hn : Acts rt options read.workspace own n) :
    Runs rt options timeout turns t (askOr (S := sys) x hx)
      (fun _ w' => At t read (n :: own) w') w := by
  refine runs_ext hat ?_ ?_
  · intro c r m hr
    rcases hreply c r _ hr with ⟨-, hm⟩ | ⟨-, hm⟩
    · cases hm
      exact hn
    · cases hm
  · intro c r m w' hr _ hat'
    rcases hreply c r m hr with ⟨hok, rfl⟩ | ⟨⟨e, herr⟩, rfl⟩
    · simp only [hok]
      exact runs_ret fun w'' hg => hat'.grows hg
    · simp only [herr]
      exact Law.Obeys.fail

/-- A status write replaces the version the pass read. -/
theorem runs_status {value : WorkspaceStatus} (hat : At t read own w)
    (h : Reports rt options read.workspace own value) :
    Runs rt options timeout turns t (status read value) (fun _ _ => True) w := by
  refine Safe.update fun w1 hr hi => ⟨fun old hold => ?_, fun _ => Law.Obeys.fail⟩
  have hat1 := hat.grows hr.1
  cases hat1.stored.eq_of_lookup hold
  have hstep : Step rt options w1.calls w1.trace
      (.update (some t) read.key (withStatus read.workspace value)) := by
    refine .reports hat1.pass hold ?_
    rw [hat1.own]
    exact h
  exact ⟨Law.keeps_push hi hstep, runs_ret fun _ _ => trivial, Law.Obeys.fail⟩

theorem runs_report {phase : Phase} {message : String} {fields : Fields} (hat : At t read own w)
    (h : ∀ instant, Reports rt options read.workspace (.clock instant :: own)
      (statusOf rt read.workspace phase message fields (Iso.toISOString instant))) :
    Runs rt options timeout turns t (report rt read phase message fields) (fun _ _ => True) w := by
  unfold report
  split
  · exact runs_ret fun _ _ => trivial
  · apply Law.Obeys.seq (runs_now hat)
    intro instant w1 _ _ hat1
    exact runs_status hat1 (h instant)

/-- A report of any other phase that adds no date is always in order. -/
theorem reports_plain {phase : Phase} {message : String} {fields : Fields} {instant : String}
    (hmessage : Aside message) (harchived : phase ≠ .Archived) (hready : phase ≠ .Ready)
    (hdown : fields.teardownCompletedAt = none) (hdeleted : fields.storageDeletedAt = none) :
    Reports rt options read.workspace own
      (statusOf rt read.workspace phase message fields instant) where
  archived := fun h => absurd h harchived
  ready := fun h => absurd h hready
  relies := .inl hmessage
  tornDown := .inl (by simp [statusOf, hdown, teardownCompletedAt])
  released := .inl (by simp [statusOf, hdeleted])

theorem runs_report_plain {phase : Phase} {message : String} (hat : At t read own w)
    (hmessage : Aside message) (harchived : phase ≠ .Archived) (hready : phase ≠ .Ready) :
    Runs rt options timeout turns t (report rt read phase message) (fun _ _ => True) w :=
  runs_report hat fun _ => reports_plain hmessage harchived hready rfl rfl

/-! ### Stopping -/

/-- The notes grew, and every look is still the last one. -/
structure SameLooks (own own' : List Note) : Prop where
  looks : ∀ kind name, lastLook kind name own' = lastLook kind name own
  subset : own ⊆ own'

theorem SameLooks.refl (own : List Note) : SameLooks own own := ⟨fun _ _ => rfl, List.Subset.refl _⟩

theorem SameLooks.deleted (kind : Kind) (name uid : String) (own : List Note) :
    SameLooks own (.deleted kind name uid :: own) :=
  ⟨fun _ _ => lastLook_deleted, List.subset_cons_self _ _⟩

theorem SameLooks.trans {a b c : List Note} (h : SameLooks a b) (h' : SameLooks b c) :
    SameLooks a c :=
  ⟨fun kind name => (h'.looks kind name).trans (h.looks kind name),
    List.Subset.trans h.subset h'.subset⟩

/-- Only what was seen last under the name is deleted. -/
theorem runs_deleteLive {kind : Kind} {name : String} {resource : Option Infrastructure}
    (hat : At t read own w) (hname : name = objectName rt read.workspace kind)
    (hlook : lastLook kind name own = some resource)
    (hown : ∀ object, resource = some object →
      object.workspaceUid = read.workspace.metadata.uid)
    (hkind : Deletable rt read.workspace own kind) :
    Runs rt options timeout turns t (deleteLive kind name resource)
      (fun _ w' => ∃ own', At t read own' w' ∧ SameLooks own own') w := by
  unfold deleteLive
  split
  · rename_i uid _ _ _ _ _ _ _ _
    have hacts : Acts rt options read.workspace own (.deleted kind name uid) :=
      ⟨hname, ⟨_, hlook, rfl, hown _ rfl⟩, hkind⟩
    apply Safe.mono (runs_delete hat hacts)
    · exact fun _ w' hat' => ⟨_, hat', SameLooks.deleted kind name uid own⟩
    · exact fun _ _ h => h
  · exact runs_ret fun w' hg => ⟨own, hat.grows hg, SameLooks.refl own⟩

/-- The Service and the Secret were both seen to be gone, and no look at a Pod is older. -/
structure RuntimeGone (rt : Runtime) (workspace : Workspace) (own own' : List Note) : Prop where
  service : lastLook .Service (resourceName rt workspace) own' = some none
  secret : lastLook .Secret (accessName rt workspace) own' = some none
  pod : ∀ name, lastLook .Pod name own' = lastLook .Pod name own

theorem not_unowned {workspace : Workspace} {resource : Option Infrastructure}
    (h : unowned workspace resource = false) {object : Infrastructure}
    (hobject : resource = some object) : object.workspaceUid = workspace.metadata.uid := by
  subst hobject
  simp only [unowned, Option.any_some, Bool.or_eq_false_iff, bne_eq_false_iff_eq] at h
  exact h.2

theorem runs_deleteRuntime (hat : At t read own w)
    (harchived : read.workspace.spec.residency = .Archived) :
    Runs rt options timeout turns t (deleteRuntime rt read.workspace)
      (fun gone w' => ∃ own', At t read own' w' ∧
        (gone = true → RuntimeGone rt read.workspace own own')) w := by
  unfold deleteRuntime
  split
  · exact Law.Obeys.fail
  · apply Law.Obeys.seq (runs_get hat)
    intro service w1 _ _ hat1
    apply Law.Obeys.seq (runs_get hat1)
    intro secret w2 _ _ hat2
    simp only
    split
    · exact Law.Obeys.fail
    · rename_i hunowned
      simp only [Bool.or_eq_true, not_or, Bool.not_eq_true] at hunowned
      have hservice : lastLook .Service (resourceName rt read.workspace)
          (.got .Secret (accessName rt read.workspace) secret ::
            .got .Service (resourceName rt read.workspace) service :: own) = some service := by
        simp [lastLook]
      apply Law.Obeys.seq (runs_deleteLive hat2 rfl hservice
        (fun _ h => not_unowned hunowned.1 h) harchived)
      rintro - w3 _ _ ⟨own3, hat3, hsame3⟩
      have hsecret : lastLook .Secret (accessName rt read.workspace) own3 = some secret := by
        rw [hsame3.looks, lastLook_got_self]
      apply Law.Obeys.seq (runs_deleteLive hat3 rfl hsecret
        (fun _ h => not_unowned hunowned.2 h) harchived)
      rintro - w4 _ _ ⟨own4, hat4, hsame4⟩
      have hpod4 : ∀ name, lastLook .Pod name own4 = lastLook .Pod name own := by
        intro name
        rw [hsame4.looks, hsame3.looks, lastLook_got_kind (by decide), lastLook_got_kind (by decide)]
      apply Law.Obeys.seq (runs_get hat4)
      intro left w5 _ _ hat5
      cases left with
      | some object => exact runs_ret fun w' hg => ⟨_, hat5.grows hg, fun h => by cases h⟩
      | none =>
        apply Law.Obeys.seq (runs_get hat5)
        intro left w6 _ _ hat6
        refine runs_ret fun w' hg => ⟨_, hat6.grows hg, fun hgone => ?_⟩
        rw [Option.isNone_iff_eq_none] at hgone
        subst hgone
        constructor
        · rw [lastLook_got_kind (by decide), lastLook_got_self]
        · exact lastLook_got_self
        · intro name
          rw [lastLook_got_kind (by decide), lastLook_got_kind (by decide), hpod4]

section Due

variable {workspace : Workspace}

theorem ComputeGone.claim (h : ComputeGone rt workspace own) (name : String)
    (result : Option Infrastructure) :
    ComputeGone rt workspace (.got .PersistentVolumeClaim name result :: own) := by
  obtain ⟨uid, huid, hreader⟩ := h.reader
  constructor
  · rw [lastLook_got_kind (by decide)]
    exact h.pod
  · exact ⟨uid, huid, by rwa [lastLook_got_kind (by decide)]⟩
  · rw [lastLook_got_kind (by decide)]
    exact h.service
  · rw [lastLook_got_kind (by decide)]
    exact h.secret

theorem ComputeGone.same {own' : List Note} (h : ComputeGone rt workspace own)
    (hsame : SameLooks own own') : ComputeGone rt workspace own' := by
  obtain ⟨uid, huid, hreader⟩ := h.reader
  constructor
  · rw [hsame.looks]
    exact h.pod
  · exact ⟨uid, huid, by rwa [hsame.looks]⟩
  · rw [hsame.looks]
    exact h.service
  · rw [hsame.looks]
    exact h.secret

theorem RetentionOver.mono {own' : List Note} (h : RetentionOver rt workspace own)
    (hsub : own ⊆ own') : RetentionOver rt workspace own' := by
  obtain ⟨ttl, instant, date, httl, hclock, hdate, hover⟩ := h
  exact ⟨ttl, instant, date, httl, hsub hclock, hdate, hover⟩

theorem StorageDue.claim (h : StorageDue rt workspace own) (name : String)
    (result : Option Infrastructure) :
    StorageDue rt workspace (.got .PersistentVolumeClaim name result :: own) :=
  ⟨h.archived, h.tornDown, h.gone.claim name result,
    h.elapsed.mono (List.subset_cons_self _ _)⟩

theorem StorageDue.same {own' : List Note} (h : StorageDue rt workspace own)
    (hsame : SameLooks own own') : StorageDue rt workspace own' :=
  ⟨h.archived, h.tornDown, h.gone.same hsame, h.elapsed.mono hsame.subset⟩

theorem StorageGone.same {own' : List Note} (h : StorageGone rt workspace own)
    (hsame : SameLooks own own') : StorageGone rt workspace own' :=
  ⟨h.due.same hsame, by rw [hsame.looks]; exact h.absent⟩

theorem SameLooks.clock (instant : Int) (own : List Note) : SameLooks own (.clock instant :: own) :=
  ⟨fun _ _ => lastLook_clock, List.subset_cons_self _ _⟩

theorem SameLooks.purged (workspace : Workspace) (own : List Note) :
    SameLooks own (.purged workspace :: own) :=
  ⟨fun _ _ => lastLook_purged, List.subset_cons_self _ _⟩

end Due

/-- A report that an archived workspace is, with or without a new deletion date. -/
theorem reports_archived {message : String} {fields : Fields} {instant : String}
    (hmessage : Aside message) (harchived : read.workspace.spec.residency = .Archived)
    (hdown : (teardownCompletedAt read.workspace).isSome)
    (hfield : fields.teardownCompletedAt = none)
    (hgone : fields.storageDeletedAt = none ∨ StorageGone rt read.workspace own) :
    Reports rt options read.workspace own
      (statusOf rt read.workspace .Archived message fields instant) where
  archived := fun _ => ⟨harchived, hdown⟩
  ready := fun h => by cases h
  relies := .inl hmessage
  tornDown := .inl (by simp [statusOf, hfield, teardownCompletedAt])
  released := hgone.imp (fun h => by simp [statusOf, h]) id

theorem runs_collectStorage {archivedAt : String} {instant : Int} (hat : At t read own w)
    (hdue : StorageDue rt read.workspace own) :
    Runs rt options timeout turns t (collectStorage rt options read archivedAt instant)
      (fun _ _ => True) w := by
  unfold collectStorage
  apply Law.Obeys.seq (runs_get hat)
  intro pvc w1 _ _ hat1
  have hdue1 := hdue.claim (resourceName rt read.workspace) pvc
  split
  · exact Law.Obeys.fail
  · rename_i hunowned
    rw [Bool.not_eq_true] at hunowned
    -- the claim that is deleted is the one just seen
    have hdelete : Runs rt options timeout turns t
        (deleteClaim (resourceName rt read.workspace) pvc)
        (fun _ w' => ∃ own', At t read own' w' ∧ SameLooks (.got .PersistentVolumeClaim
          (resourceName rt read.workspace) pvc :: own) own') w1 := by
      unfold deleteClaim
      split
      · rename_i uid huid
        obtain ⟨object, hobject, huid⟩ := Option.bind_eq_some_iff.mp huid
        have hacts : Acts rt options read.workspace
            (.got .PersistentVolumeClaim (resourceName rt read.workspace) pvc :: own)
            (.deleted .PersistentVolumeClaim (resourceName rt read.workspace) uid) := by
          refine ⟨rfl, ⟨object, ?_, huid, not_unowned hunowned hobject⟩, hdue1⟩
          rw [lastLook_got_self, hobject]
        apply Safe.mono (runs_delete hat1 hacts)
        · exact fun _ w' hat' => ⟨_, hat', SameLooks.deleted _ _ _ _⟩
        · exact fun _ _ h => h
      · exact runs_ret fun w' hg => ⟨_, hat1.grows hg, SameLooks.refl _⟩
    apply Law.Obeys.seq hdelete
    rintro - w2 _ _ ⟨own2, hat2, hsame2⟩
    have hdue2 := hdue1.same hsame2
    apply Law.Obeys.seq (runs_get hat2)
    intro left w3 _ _ hat3
    have hdue3 := hdue2.claim (resourceName rt read.workspace) left
    cases left with
    | some object =>
      exact runs_report hat3 fun _ =>
        reports_archived .deleting hdue.archived hdue.tornDown rfl (.inl rfl)
    | none =>
      have hgone : StorageGone rt read.workspace
          (.got .PersistentVolumeClaim (resourceName rt read.workspace) none :: own2) :=
        ⟨hdue3, lastLook_got_self⟩
      have hpurge : Runs rt options timeout turns t (purge options read.workspace)
          (fun _ w' => ∃ own', At t read own' w' ∧ StorageGone rt read.workspace own') w3 := by
        unfold purge
        split
        · apply Safe.mono (runs_purge hat3 hgone)
          · exact fun _ w' hat' => ⟨_, hat', hgone.same (SameLooks.purged _ _)⟩
          · exact fun _ _ h => h
        · exact runs_ret fun w' hg => ⟨_, hat3.grows hg, hgone⟩
      apply Law.Obeys.seq hpurge
      rintro - w4 _ _ ⟨own4, hat4, hgone4⟩
      exact runs_report hat4 fun instant =>
        reports_archived .released hdue.archived hdue.tornDown rfl
          (.inr (hgone4.same (.clock _ _)))

/-- The retention has run out at the instant the pass just read. -/
theorem retentionOver_of_expired {instant : Int} {workspace : Workspace}
    (h : expired rt workspace ((workspace.status.bind WorkspaceStatus.archivedAt).getD
      (Iso.toISOString instant)) instant = true) (hclock : .clock instant ∈ own) :
    workspace.spec.residency = .Archived ∧ RetentionOver rt workspace own := by
  simp only [expired, Bool.and_eq_true, beq_iff_eq, Option.any_eq_true, decide_eq_true_eq] at h
  obtain ⟨harchived, ttl, httl, -, date, hdate, hover⟩ := h
  exact ⟨harchived, ttl, instant, date, httl, hclock, hdate, hover⟩

theorem aside_stoppedMessage (workspace : Workspace) : Aside (stoppedMessage workspace) := by
  unfold stoppedMessage
  split
  · exact .released
  · split
    · exact .ephemeral
    · exact .stopped

theorem runs_stopped {uid : String} (hat : At t read own w)
    (huid : read.workspace.metadata.uid = some uid)
    (hpod : lastLook .Pod (resourceName rt read.workspace) own = some none)
    (hreader : lastLook .Pod (historyReaderName rt uid) own = some none)
    (hdown : read.workspace.spec.residency = .Archived →
      (teardownCompletedAt read.workspace).isSome) :
    Runs rt options timeout turns t (stopped rt options read) (fun _ _ => True) w := by
  unfold stopped
  have hgone : Runs rt options timeout turns t (runtimeGone rt read.workspace)
      (fun gone w' => ∃ own', At t read own' w' ∧
        (gone = true → read.workspace.spec.residency = .Archived →
          ComputeGone rt read.workspace own')) w := by
    unfold runtimeGone
    split
    · rename_i harchived
      apply Safe.mono (runs_deleteRuntime hat harchived)
      · rintro gone w' ⟨own', hat', hruntime⟩
        refine ⟨own', hat', fun hg _ => ?_⟩
        have hgone := hruntime hg
        constructor
        · rw [hgone.pod]
          exact hpod
        · exact ⟨uid, huid, by rw [hgone.pod]; exact hreader⟩
        · exact hgone.service
        · exact hgone.secret
      · exact fun _ _ h => h
    · rename_i hrunning
      exact runs_ret fun w' hg => ⟨own, hat.grows hg, fun _ h => absurd h hrunning⟩
  apply Law.Obeys.seq hgone
  rintro gone w1 _ _ ⟨own1, hat1, hcompute⟩
  simp only
  split
  · exact runs_report_plain hat1 .runtime (by decide) (by decide)
  · rename_i hg
    simp only [Bool.not_eq_true, Bool.not_eq_false] at hg
    apply Law.Obeys.seq (runs_now hat1)
    intro instant w2 _ _ hat2
    split
    · rename_i hexpired
      have hclock : Note.clock instant ∈ Note.clock instant :: own1 := List.mem_cons_self
      obtain ⟨harchived, hover⟩ := retentionOver_of_expired hexpired hclock
      exact runs_collectStorage hat2 ⟨harchived, hdown harchived,
        (hcompute hg harchived).same (.clock _ _), hover⟩
    · apply runs_report hat2
      intro _
      by_cases harchived : read.workspace.spec.residency = .Archived
      · simp only [harchived, if_true]
        apply reports_archived (aside_stoppedMessage _) harchived (hdown harchived)
        · split <;> rfl
        · left
          split <;> rfl
      · simp only [harchived, if_false, false_and]
        exact reports_plain (aside_stoppedMessage _) (by decide) (by decide) rfl rfl

theorem runs_stopCompute {uid : String} {pod : Option Infrastructure} (hat : At t read own w)
    (huid : read.workspace.metadata.uid = some uid)
    (hlook : lastLook .Pod (resourceName rt read.workspace) own = some pod)
    (hown : ∀ object, pod = some object → object.workspaceUid = read.workspace.metadata.uid)
    (hdown : read.workspace.spec.residency = .Archived →
      (teardownCompletedAt read.workspace).isSome) :
    Runs rt options timeout turns t (stopCompute rt options read pod) (fun _ _ => True) w := by
  unfold stopCompute
  cases pod with
  | some pod =>
    have hkind : Deletable rt read.workspace own .Pod := fun harchived => .inl (hdown harchived)
    apply Law.Obeys.seq (runs_deleteLive hat rfl hlook hown hkind)
    rintro - w1 _ _ ⟨own1, hat1, -⟩
    exact runs_report_plain hat1 .stopping (by decide) (by decide)
  | none =>
    apply Law.Obeys.seq (runs_get hat)
    intro reader w1 _ _ hat1
    rw [huid, Option.getD_some] at hat1
    cases reader with
    | some reader =>
      simp only [waitForReader]
      split
      · exact Law.Obeys.fail
      · split
        · exact runs_ret fun _ _ => trivial
        · exact runs_report_plain hat1 .reader (by decide) (by decide)
    | none => exact runs_stopped hat1 huid (lastLook_absent hlook) lastLook_got_self hdown

theorem runs_teardown (hat : At t read own w) :
    Runs rt options timeout turns t (teardown rt read.workspace)
      (fun _ w' => ∃ own', At t read own' w' ∧ own ⊆ own' ∧ .tornDown read.workspace ∈ own') w := by
  unfold teardown
  apply Law.Obeys.seq (runs_get hat)
  intro pod w1 _ _ hat1
  cases pod with
  | none => exact Law.Obeys.fail
  | some pod =>
    simp only
    split
    · exact Law.Obeys.fail
    · rename_i hown
      rw [Decidable.not_not] at hown
      have hacts : Acts rt options read.workspace
          (.got .Pod (resourceName rt read.workspace) (some pod) :: own)
          (.tornDown read.workspace) := ⟨rfl, pod, lastLook_got_self, hown⟩
      refine Safe.mono (runs_completes (n := .tornDown read.workspace) rfl ?_ hat1 hacts) ?_
        fun _ _ h => h
      · intro c r m hr
        simp only [reply, Option.some.injEq] at hr
        split at hr
        · cases hr
          exact .inr ⟨⟨_, rfl⟩, rfl⟩
        · cases hr
          exact .inl ⟨rfl, rfl⟩
      · intro _ w' hat'
        refine ⟨_, hat', ?_, List.mem_cons_self⟩
        exact List.Subset.trans (List.subset_cons_self _ _) (List.subset_cons_self _ _)

theorem runs_tearDown (hat : At t read own w) :
    Runs rt options timeout turns t (tearDown rt options read.workspace)
      (fun _ w' => ∃ own', At t read own' w' ∧ .tornDown read.workspace ∈ own' ∧
        (options.beforeArchive → .snapshot read.workspace ∈ own')) w := by
  have hbefore : Runs rt options timeout turns t (beforeArchive options read.workspace)
      (fun _ w' => ∃ own', At t read own' w' ∧
        (options.beforeArchive → .snapshot read.workspace ∈ own')) w := by
    unfold beforeArchive
    split
    · refine Safe.mono (runs_completes (n := .snapshot read.workspace) rfl ?_ hat rfl) ?_ fun _ _ h => h
      · intro c r m hr
        simp only [reply, Option.some.injEq] at hr
        split at hr
        · cases hr
          exact .inr ⟨⟨_, rfl⟩, rfl⟩
        · cases hr
          exact .inl ⟨rfl, rfl⟩
      · exact fun _ w' hat' => ⟨_, hat', fun _ => List.mem_cons_self⟩
    · rename_i hskip
      exact runs_ret fun w' hg => ⟨own, hat.grows hg, fun h => absurd h hskip⟩
  unfold tearDown
  apply Law.Obeys.seq hbefore
  rintro - w1 _ _ ⟨own1, hat1, hsnapshot⟩
  apply Safe.mono (runs_teardown hat1)
  · rintro - w' ⟨own', hat', hsub, hdown⟩
    exact ⟨own', hat', hdown, fun h => hsub (hsnapshot h)⟩
  · exact fun _ _ h => h

/-- A report after which the pass is over. -/
theorem runs_halt {phase : Phase} {message : String} {P : Bool → World sys → Prop}
    (hat : At t read own w) (hmessage : Aside message) (harchived : phase ≠ .Archived)
    (hready : phase ≠ .Ready) (h : ∀ w', P true w') :
    Runs rt options timeout turns t (do
      report rt read phase message
      .ret true) P w := by
  apply Law.Obeys.seq (runs_report_plain hat hmessage harchived hready)
  exact fun _ _ _ _ _ => runs_ret fun w' _ => h w'

theorem runs_stopForTeardown {pod : Option Infrastructure} (hat : At t read own w)
    (hlook : .got .Pod (resourceName rt read.workspace) pod ∈ own)
    (harchived : read.workspace.spec.residency = .Archived) :
    Runs rt options timeout turns t (stopForTeardown rt options read pod)
      (fun done w' => done = false → ∃ own', At t read own' w' ∧
        .got .Pod (resourceName rt read.workspace) none ∈ own') w := by
  unfold stopForTeardown
  cases pod with
  | none =>
    simp only
    split
    · exact runs_halt hat .podLost (by decide) (by decide) fun _ h => by cases h
    · exact runs_ret fun w' hg _ => ⟨own, hat.grows hg, hlook⟩
  | some pod =>
    simp only
    split
    · exact runs_halt hat .notReady (by decide) (by decide) fun _ h => by cases h
    · have hattempt : Runs rt options timeout turns t (tearDown rt options read.workspace).attempt
          (fun r w' => r = .ok () → ∃ own', At t read own' w' ∧ .tornDown read.workspace ∈ own' ∧
            (options.beforeArchive → .snapshot read.workspace ∈ own')) w := by
        apply Safe.attempt
        apply Safe.mono (runs_tearDown hat)
        · exact fun _ _ h _ => h
        · exact fun _ _ _ h => by cases h
      apply Law.Obeys.seq hattempt
      intro r w1 hl _ hdown
      cases r with
      | error e =>
        obtain ⟨own1, hat1⟩ := hat.later hl
        exact runs_halt hat1 .teardownFailed (by decide) (by decide) fun _ h => by cases h
      | ok _ =>
        obtain ⟨own1, hat1, htorn, hsnapshot⟩ := hdown rfl
        apply Law.Obeys.seq (runs_now hat1)
        intro instant w2 _ _ hat2
        have hreport : Runs rt options timeout turns t
            (report rt read .Pending "Teardown completed; stopping compute"
              { teardownCompletedAt := some (Iso.toISOString instant) }) (fun _ _ => True) w2 := by
          apply runs_report hat2
          intro _
          constructor
          · intro h
            cases h
          · intro h
            cases h
          · exact .inl .tornDown
          · exact .inr ⟨harchived, List.mem_cons_of_mem _ (List.mem_cons_of_mem _ htorn),
              fun h => List.mem_cons_of_mem _ (List.mem_cons_of_mem _ (hsnapshot h))⟩
          · exact .inl (by simp [statusOf])
        apply Law.Obeys.seq hreport
        exact fun _ _ _ _ _ => runs_ret fun _ _ h => by cases h

/-- The pass is over when the compute was stopped. -/
theorem runs_stopFound {uid : String} {pod : Option Infrastructure} {P : World sys → Prop}
    (hat : At t read own w) (huid : read.workspace.metadata.uid = some uid)
    (hlook : lastLook .Pod (resourceName rt read.workspace) own = some pod)
    (hown : ∀ object, pod = some object → object.workspaceUid = read.workspace.metadata.uid)
    (hdown : read.workspace.spec.residency = .Archived →
      (teardownCompletedAt read.workspace).isSome) :
    Runs rt options timeout turns t (stopFound rt options read pod)
      (fun done w' => done = false → P w') w := by
  have hhalt : ∀ {w1}, At t read own w1 →
      Runs rt options timeout turns t (do
        stopCompute rt options read pod
        .ret true) (fun done w' => done = false → P w') w1 := by
    intro w1 hat1
    apply Law.Obeys.seq (runs_stopCompute hat1 huid hlook hown hdown)
    exact fun _ _ _ _ _ => runs_ret fun _ _ h => by cases h
  unfold stopFound
  split
  · have hquiet : Runs rt options timeout turns t
        (askOr (S := sys) (.beforeSuspend read.workspace) rfl : sys.Task Unit)
        (fun _ w' => At t read own w') w := by
      apply runs_quiet rfl _ hat
      intro c r m hr
      cases hr
      rfl
    have hattempt : Runs rt options timeout turns t
        (askOr (S := sys) (.beforeSuspend read.workspace) rfl : sys.Task Unit).attempt
        (fun r w' => r = .ok () → At t read own w') w := by
      apply Safe.attempt
      apply Safe.mono hquiet
      · exact fun _ _ h _ => h
      · exact fun _ _ _ h => by cases h
    apply Law.Obeys.seq hattempt
    intro r w1 hl _ hat1
    cases r with
    | error e =>
      obtain ⟨own1, hat1⟩ := hat.later hl
      exact runs_halt hat1 .noSnapshot (by decide) (by decide) fun _ h => by cases h
    | ok _ => exact hhalt (hat1 rfl)
  · exact hhalt hat

/-- When a pass goes on although the workspace is not to run, it found no Pod. -/
theorem runs_stop {uid : String} (hat : At t read own w)
    (huid : read.workspace.metadata.uid = some uid) :
    Runs rt options timeout turns t (stop rt options read)
      (fun done w' => done = false → ∃ own', At t read own' w' ∧
        .got .Pod (resourceName rt read.workspace) none ∈ own') w := by
  unfold stop
  apply Law.Obeys.seq (runs_get hat)
  intro pod w1 _ _ hat1
  simp only
  split
  · exact Law.Obeys.fail
  · rename_i hforeign
    have hown : ∀ object, pod = some object →
        object.workspaceUid = read.workspace.metadata.uid := by
      rintro object rfl
      simpa using hforeign
    split
    · exact runs_halt hat1 .cannotSuspend (by decide) (by decide) fun _ h => by cases h
    · split
      · rename_i harchived
        exact runs_stopForTeardown hat1 List.mem_cons_self harchived.1
      · rename_i hdown
        have htorn : read.workspace.spec.residency = .Archived →
            (teardownCompletedAt read.workspace).isSome := by
          intro harchived
          simpa [harchived, Option.isSome_iff_ne_none] using hdown
        exact runs_stopFound hat1 huid lastLook_got_self hown htorn

/-! ### Starting -/

/-- A refusal to go on, reported as a failure. -/
theorem runs_refuse {message : String} {P : Bool → World sys → Prop} (hat : At t read own w)
    (hmessage : Aside message) (h : ∀ w', P false w') :
    Runs rt options timeout turns t (do
      report rt read .Failed message
      .ret false) P w := by
  apply Law.Obeys.seq (runs_report_plain hat hmessage (by decide) (by decide))
  exact fun _ _ _ _ _ => runs_ret fun w' _ => h w'

theorem runs_workspaces (hat : At t read own w) :
    Runs rt options timeout turns t workspaces (fun _ w' => At t read own w') w := by
  unfold workspaces
  refine Safe.list fun w1 hr _ => ⟨fun rows _ => ?_, Law.Obeys.fail⟩
  exact runs_ret fun w' hg => (hat.grows hr.1).grows hg

theorem runs_countOthers {workspace : Workspace} {project : Project} {others : List Read}
    {total perProject : Nat} (hat : At t read own w) :
    Runs rt options timeout turns t (countOthers rt workspace project others total perProject)
      (fun _ w' => ∃ own', At t read own' w' ∧ own ⊆ own') w := by
  induction others generalizing w own total perProject with
  | nil => exact runs_ret fun w' hg => ⟨own, hat.grows hg, List.Subset.refl _⟩
  | cons other rest ih =>
    unfold countOthers
    split
    · exact ih hat
    · apply Law.Obeys.seq (runs_get hat)
      intro pod w1 _ _ hat1
      have hsub : ∀ {α : Type} {a : α} {w' : World sys},
          (∃ own', At t read own' w' ∧
            .got .Pod (resourceName rt other.workspace) pod :: own ⊆ own') →
          ∃ own', At t read own' w' ∧ own ⊆ own' := by
        rintro _ _ w' ⟨own', hat', h⟩
        exact ⟨own', hat', List.Subset.trans (List.subset_cons_self _ _) h⟩
      cases pod with
      | none => exact Safe.mono (ih hat1) (fun a _ => hsub (a := a)) fun _ _ h => h
      | some pod => exact Safe.mono (ih hat1) (fun a _ => hsub (a := a)) fun _ _ h => h

theorem runs_admitted {uid : String} {project : Project} {pod : Option Infrastructure}
    (hat : At t read own w) :
    Runs rt options timeout turns t (admitted rt options read uid project pod)
      (fun may w' => may = true → ∃ own', At t read own' w' ∧ own ⊆ own') w := by
  unfold admitted
  split
  · unfold admission
    apply Law.Obeys.seq (runs_get hat)
    intro reader w1 _ _ hat1
    cases reader with
    | some reader =>
      simp only
      split
      · exact Law.Obeys.fail
      · apply Law.Obeys.seq (runs_report_plain hat1 .reader (by decide) (by decide))
        exact fun _ _ _ _ _ => runs_ret fun _ _ h => by cases h
    | none =>
      apply Law.Obeys.seq (runs_workspaces hat1)
      intro others w2 _ _ hat2
      apply Law.Obeys.seq (runs_countOthers hat2)
      rintro ⟨total, perProject⟩ w3 _ _ ⟨own3, hat3, hsub3⟩
      simp only
      split
      · apply Law.Obeys.seq (runs_report_plain hat3 .capacity (by decide) (by decide))
        exact fun _ _ _ _ _ => runs_ret fun _ _ h => by cases h
      · refine runs_ret fun w' hg _ => ⟨own3, hat3.grows hg, ?_⟩
        exact List.Subset.trans (List.subset_cons_self _ _) hsub3
  · exact runs_ret fun w' hg _ => ⟨own, hat.grows hg, List.Subset.refl _⟩

/-- Looking up a credential leaves no note. -/
theorem runs_object {kind : ReferenceKind} {name : String} (hat : At t read own w) :
    Runs rt options timeout turns t
      (askOr (S := sys) (.object kind name) rfl : sys.Task (List (String × String)))
      (fun _ w' => At t read own w') w := by
  apply runs_quiet rfl _ hat
  intro c r m hr
  cases hr
  rfl

theorem runs_checkReferences {profile : CredentialProfile} {references : List CredentialReference}
    (hat : At t read own w) :
    Runs rt options timeout turns t (checkReferences rt read profile references)
      (fun usable w' => usable = true → At t read own w') w := by
  induction references generalizing w with
  | nil => exact runs_ret fun w' hg _ => hat.grows hg
  | cons reference rest ih =>
    unfold checkReferences
    apply Law.Obeys.seq (runs_object hat)
    intro data w1 _ _ hat1
    simp only
    split
    · exact runs_refuse hat1 .noKey fun _ h => by cases h
    · split
      · exact runs_refuse hat1 .unusable fun _ h => by cases h
      · exact ih hat1

theorem runs_credentialsUsable {profile : Option CredentialProfile} (hat : At t read own w) :
    Runs rt options timeout turns t (credentialsUsable rt read profile)
      (fun usable w' => usable = true → At t read own w') w := by
  have hcheck : Runs rt options timeout turns t (checkCredentials rt read profile)
      (fun usable w' => usable = true → At t read own w') w := by
    unfold checkCredentials
    cases profile with
    | some profile => exact runs_checkReferences hat
    | none =>
      apply Law.Obeys.seq (runs_object hat)
      intro data w1 _ _ hat1
      simp only
      split
      · exact runs_refuse hat1 .noToken fun _ h => by cases h
      · exact runs_ret fun w' hg _ => hat1.grows hg
  have hattempt : Runs rt options timeout turns t (checkCredentials rt read profile).attempt
      (fun r w' => r = .ok true → At t read own w') w := by
    apply Safe.attempt
    apply Safe.mono hcheck
    · rintro usable w' h ⟨rfl⟩
      exact h rfl
    · exact fun _ _ _ h => by cases h
  unfold credentialsUsable
  apply Law.Obeys.seq hattempt
  intro r w1 hl _ hat1
  cases r with
  | ok usable =>
    refine runs_ret fun w' hg husable => ?_
    subst husable
    exact (hat1 rfl).grows hg
  | error e =>
    simp only
    split
    · exact Law.Obeys.fail
    · obtain ⟨own1, hat1⟩ := hat.later hl
      exact runs_refuse hat1 .noProfile fun _ h => by cases h

theorem objectName_of_ne {workspace : Workspace} {kind : Kind} (h : kind ≠ .Secret) :
    objectName rt workspace kind = resourceName rt workspace := by
  cases kind with
  | Secret => exact absurd rfl h
  | Pod | Service | PersistentVolumeClaim => rfl

/-- What was adopted stays so as long as it is not looked at again. -/
theorem Adopted.keep {workspace : Workspace} {kind : Kind} {own' : List Note}
    (h : Adopted rt workspace own kind)
    (hlook : lastLook kind (objectName rt workspace kind) own' =
      lastLook kind (objectName rt workspace kind) own)
    (hsub : own ⊆ own') : Adopted rt workspace own' kind := by
  rcases h with ⟨object, hseen, hown⟩ | ⟨hseen, uid, huid, hcreated⟩
  · exact .inl ⟨object, hlook.trans hseen, hown⟩
  · exact .inr ⟨hlook.trans hseen, uid, huid, hsub hcreated⟩

theorem Supplied.keep {workspace : Workspace} {own' : List Note}
    (h : Supplied rt options workspace own)
    (hlook : ∀ kind name, kind ≠ .Pod → lastLook kind name own' = lastLook kind name own)
    (hsub : own ⊆ own') : Supplied rt options workspace own' where
  access := fun hwired => (h.access hwired).keep (hlook _ _ (by decide)) hsub
  claim := fun hkept => (h.claim hkept).keep (hlook _ _ (by decide)) hsub
  service := h.service.keep (hlook _ _ (by decide)) hsub

theorem Equipped.same {workspace : Workspace} {own' : List Note}
    (h : Equipped rt options workspace own) (hsame : SameLooks own own') :
    Equipped rt options workspace own' where
  toSupplied := h.toSupplied.keep (fun kind name _ => hsame.looks kind name) hsame.subset
  pod := h.pod.keep (hsame.looks _ _) hsame.subset

/-- What `ensure` leaves behind: the object found or created is the workspace's own. -/
structure Ensured (rt : Runtime) (workspace : Workspace) (kind : Kind) (own own' : List Note)
    (found : Option Infrastructure) : Prop where
  look : lastLook kind (resourceName rt workspace) own' = some found
  owned : ∀ object, found = some object → object.workspaceUid = workspace.metadata.uid
  seen : ∀ object, found = some object →
    .got kind (resourceName rt workspace) (some object) ∈ own'
  adopted : Adopted rt workspace own' kind
  others : ∀ k name, k ≠ kind → lastLook k name own' = lastLook k name own
  subset : own ⊆ own'

theorem runs_ensure {kind : Kind} {uid : String} (hat : At t read own w)
    (huid : read.workspace.metadata.uid = some uid) (hkind : kind ≠ .Secret)
    (hsupplied : kind = .Pod → Supplied rt options read.workspace own) :
    Runs rt options timeout turns t
      (ensure rt ⟨kind, resourceName rt read.workspace, uid⟩ read.workspace)
      (fun found w' => ∃ own', At t read own' w' ∧
        Ensured rt read.workspace kind own own' found) w := by
  have hname : objectName rt read.workspace kind = resourceName rt read.workspace :=
    objectName_of_ne hkind
  unfold ensure
  apply Law.Obeys.seq (runs_get hat)
  intro existing w1 _ _ hat1
  cases existing with
  | some existing =>
    simp only
    split
    · exact Law.Obeys.fail
    · rename_i hown
      rw [Decidable.not_not] at hown
      refine runs_ret fun w' hg => ⟨_, hat1.grows hg, ?_⟩
      constructor
      · exact lastLook_got_self
      · rintro object ⟨rfl⟩
        exact hown
      · rintro object ⟨rfl⟩
        exact List.mem_cons_self
      · exact .inl ⟨existing, by rw [hname, lastLook_got_self], hown⟩
      · exact fun k name hk => lastLook_got_kind hk.symm
      · exact List.subset_cons_self _ _
  | none =>
    have hacts : Acts rt options read.workspace
        (.got kind (resourceName rt read.workspace) none :: own)
        (.created ⟨kind, resourceName rt read.workspace, uid⟩) := by
      refine ⟨hname.symm, huid, lastLook_got_self, fun hpod => ?_⟩
      apply (hsupplied hpod).keep _ (List.subset_cons_self _ _)
      intro k name hk
      exact lastLook_got_kind fun heq => hk (heq.symm.trans hpod)
    apply Law.Obeys.seq (runs_create hat1 hacts)
    intro _ w2 _ _ hat2
    refine runs_ret fun w' hg => ⟨_, hat2.grows hg, ?_⟩
    constructor
    · rw [lastLook_created, lastLook_got_self]
    · intro object h
      cases h
    · intro object h
      cases h
    · refine .inr ⟨by rw [hname, lastLook_created, lastLook_got_self], uid, huid, ?_⟩
      rw [hname]
      exact List.mem_cons_self
    · intro k name hk
      rw [lastLook_created, lastLook_got_kind hk.symm]
    · exact List.Subset.trans (List.subset_cons_self _ _) (List.subset_cons_self _ _)

theorem Adopted.ensured {workspace : Workspace} {kind kind' : Kind} {own' : List Note}
    {found : Option Infrastructure} (h : Adopted rt workspace own kind) (hne : kind ≠ kind')
    (he : Ensured rt workspace kind' own own' found) : Adopted rt workspace own' kind :=
  h.keep (he.others _ _ hne) he.subset

theorem runs_report_pod {phase : Phase} {message : String} {fields : Fields} {own0 : List Note}
    (hat : At t read own w) (hequipped : Equipped rt options read.workspace own0)
    (hsame : SameLooks own0 own) (harchived : phase ≠ .Archived)
    (hdown : fields.teardownCompletedAt = none) (hdeleted : fields.storageDeletedAt = none) :
    Runs rt options timeout turns t (report rt read phase message fields) (fun _ _ => True) w := by
  apply runs_report hat
  intro instant
  have hhave := (hequipped.same hsame).same (.clock instant own)
  constructor
  · exact fun h => absurd h harchived
  · exact fun _ => hhave
  · exact .inr hhave
  · exact .inl (by simp [statusOf, hdown, teardownCompletedAt])
  · exact .inl (by simp [statusOf, hdeleted])

theorem runs_reportPod {pod : Option Infrastructure} (hat : At t read own w)
    (hequipped : Equipped rt options read.workspace own)
    (hlook : lastLook .Pod (resourceName rt read.workspace) own = some pod)
    (hown : ∀ object, pod = some object → object.workspaceUid = read.workspace.metadata.uid)
    (hseen : ∀ object, pod = some object →
      .got .Pod (resourceName rt read.workspace) (some object) ∈ own)
    (hrestore : read.workspace.spec.residency = .Archived →
      .got .Pod (resourceName rt read.workspace) none ∈ own) :
    Runs rt options timeout turns t (reportPod rt read pod) (fun _ _ => True) w := by
  unfold reportPod
  simp only
  split
  · rename_i diagnostic _
    have hphase : (if (pod.any fun p => p.deletionTimestamp.isNone && p.ready) = true then
        Phase.Ready else if diagnostic.failed = true then .Failed else .Pending) ≠ .Archived := by
      split
      · decide
      · split <;> decide
    split
    · apply Law.Obeys.seq (runs_now hat)
      intro instant w1 _ _ hat1
      exact runs_report_pod hat1 hequipped (.clock _ _) hphase rfl rfl
    · exact runs_report_pod hat hequipped (.refl _) hphase rfl rfl
  · split
    · rename_i hterminated
      split
      · exact runs_report_pod hat hequipped (.refl _) (by decide) rfl rfl
      · have hkind : Deletable rt read.workspace own .Pod := by
          intro harchived
          obtain ⟨object, hobject, hphase⟩ := (Option.any_eq_true _ _).mp hterminated
          refine .inr ⟨hrestore harchived, object, hseen object hobject, ?_⟩
          simpa using hphase
        apply Law.Obeys.seq (runs_deleteLive hat rfl hlook hown hkind)
        rintro - w1 _ _ ⟨own1, hat1, hsame1⟩
        exact runs_report_pod hat1 hequipped hsame1 (by decide) rfl rfl
    · apply runs_report_pod hat hequipped (.refl _) _ rfl rfl
      split <;> decide

/-- The grant that is kept or written is in the workspace's own Secret. -/
theorem runs_renew {uid : String} {existing : Option Infrastructure} (hat : At t read own w)
    (huid : read.workspace.metadata.uid = some uid)
    (hlook : lastLook .Secret (accessName rt read.workspace) own = some existing)
    (hown : ∀ object, existing = some object →
      object.workspaceUid = read.workspace.metadata.uid) :
    Runs rt options timeout turns t (WorkspaceAccess.renew rt read.workspace uid existing)
      (fun _ w' => ∃ own', At t read own' w' ∧ own ⊆ own' ∧
        Adopted rt read.workspace own' .Secret) w := by
  have hissue : Runs rt options timeout turns t
      (askOr (S := sys) (.issueWorkspaceToken read.workspace) rfl : sys.Task Unit)
      (fun _ w' => At t read own w') w := by
    apply runs_quiet rfl _ hat
    intro c r m hr
    cases hr
    rfl
  unfold WorkspaceAccess.renew
  apply Law.Obeys.seq hissue
  intro _ w1 _ _ hat1
  -- what is sent replaces the Secret at the version that was read
  have hacts : Acts rt options read.workspace own
      (swapNote (existing.map Infrastructure.resourceVersion)
        ⟨.Secret, accessName rt read.workspace, uid⟩) := by
    cases existing with
    | none => exact ⟨rfl, huid, hlook, fun h => by cases h⟩
    | some secret => exact ⟨rfl, huid, secret, hlook, hown secret rfl, rfl⟩
  have hkept : Adopted rt read.workspace
      (swapNote (existing.map Infrastructure.resourceVersion)
        ⟨.Secret, accessName rt read.workspace, uid⟩ :: own) .Secret := by
    cases existing with
    | none => exact .inr ⟨hlook, uid, huid, List.mem_cons_self⟩
    | some secret => exact .inl ⟨secret, hlook, hown secret rfl⟩
  refine runs_ext hat1 ?_ ?_
  · intro c r n hr
    simp only [reply, Option.some.injEq, Prod.mk.injEq] at hr
    rw [← hr.2]
    exact hacts
  · intro c r n w' hr _ hat'
    simp only [reply, Option.some.injEq, Prod.mk.injEq] at hr
    obtain ⟨rfl, rfl⟩ := hr
    cases c.refused with
    | some e => exact Law.Obeys.fail
    | none =>
      cases c.written with
      | false => exact Law.Obeys.fail
      | true => exact runs_ret fun w'' hg =>
          ⟨_, hat'.grows hg, List.subset_cons_self _ _, hkept⟩

/-- Without a token there is no grant. -/
theorem runs_currentGrant {token : String} (hat : At t read own w) :
    Runs rt options timeout turns t (ask (S := sys) (.currentGrant token))
      (fun grant w' => At t read own w' ∧ (token = "" → grant = none)) w := by
  refine runs_ext hat ?_ ?_
  · intro c r n hr
    cases hr
  · intro c r n w1 hr _ hat1
    simp only [reply, Option.some.injEq, Prod.mk.injEq] at hr
    obtain ⟨rfl, rfl⟩ := hr
    exact runs_ret fun w' hg => ⟨hat1.grows hg, fun h => if_pos h⟩

theorem runs_accessEnsure (hat : At t read own w) :
    Runs rt options timeout turns t (WorkspaceAccess.ensure rt read.workspace)
      (fun _ w' => ∃ own', At t read own' w' ∧ own ⊆ own' ∧
        Adopted rt read.workspace own' .Secret) w := by
  unfold WorkspaceAccess.ensure
  split
  · exact Law.Obeys.fail
  · rename_i uid huid
    apply Law.Obeys.seq (runs_get hat)
    intro existing w1 _ _ hat1
    unfold WorkspaceAccess.keep
    split
    · exact Law.Obeys.fail
    · rename_i hforeign
      have hown : ∀ object, existing = some object →
          object.workspaceUid = read.workspace.metadata.uid := by
        rintro object rfl
        rw [huid]
        simpa using hforeign
      have hsub : own ⊆ .got .Secret (accessName rt read.workspace) existing :: own :=
        List.subset_cons_self _ _
      apply Law.Obeys.seq (runs_currentGrant hat1)
      rintro grant w2 _ _ ⟨hat2, hempty⟩
      split
      · rename_i hgrant
        refine runs_ret fun w' hg => ⟨_, hat2.grows hg, hsub, ?_⟩
        cases existing with
        | none =>
          rw [hempty rfl] at hgrant
          cases hgrant
        | some secret => exact .inl ⟨secret, lastLook_got_self, hown secret rfl⟩
      · apply Safe.mono (runs_renew hat2 huid lastLook_got_self hown)
        · rintro _ w' ⟨own', hat', hsub', hadopted⟩
          exact ⟨own', hat', List.Subset.trans hsub hsub', hadopted⟩
        · exact fun _ _ h => h

theorem runs_ensureAccess (hat : At t read own w) :
    Runs rt options timeout turns t (ensureAccess rt options read.workspace)
      (fun _ w' => ∃ own', At t read own' w' ∧ own ⊆ own' ∧
        (options.gatewayUrl = true → Adopted rt read.workspace own' .Secret)) w := by
  unfold ensureAccess
  split
  · rename_i hwithout
    exact runs_ret fun w' hg => ⟨own, hat.grows hg, List.Subset.refl _, fun h => absurd h hwithout⟩
  · split
    · apply Safe.mono (runs_accessEnsure hat)
      · rintro _ w' ⟨own', hat', hsub, hadopted⟩
        exact ⟨own', hat', hsub, fun _ => hadopted⟩
      · exact fun _ _ h => h
    · exact Law.Obeys.fail

theorem runs_lookForCache {project : Project} (hat : At t read own w) :
    Runs rt options timeout turns t (lookForCache project)
      (fun _ w' => ∃ own', At t read own' w' ∧ own ⊆ own') w := by
  unfold lookForCache
  split
  · exact runs_ret fun w' hg => ⟨own, hat.grows hg, List.Subset.refl _⟩
  · apply Law.Obeys.seq (runs_get hat)
    intro result w1 _ _ hat1
    exact runs_ret fun w' hg => ⟨_, hat1.grows hg, List.subset_cons_self _ _⟩

theorem runs_ensureClaim {uid : String} (hat : At t read own w)
    (huid : read.workspace.metadata.uid = some uid) :
    Runs rt options timeout turns t (ensureClaim rt read.workspace uid)
      (fun _ w' => ∃ own', At t read own' w' ∧ own ⊆ own' ∧
        (∀ kind name, kind ≠ .PersistentVolumeClaim →
          lastLook kind name own' = lastLook kind name own) ∧
        (ephemeral read.workspace = false →
          Adopted rt read.workspace own' .PersistentVolumeClaim)) w := by
  unfold ensureClaim
  split
  · rename_i hephemeral
    refine runs_ret fun w' hg =>
      ⟨own, hat.grows hg, List.Subset.refl _, fun _ _ _ => rfl, fun h => ?_⟩
    rw [hephemeral] at h
    cases h
  · apply Law.Obeys.seq (runs_ensure hat huid (by decide) fun h => by cases h)
    rintro _ w1 _ _ ⟨own1, hat1, hensured⟩
    exact runs_ret fun w' hg =>
      ⟨own1, hat1.grows hg, hensured.subset, hensured.others, fun _ => hensured.adopted⟩

theorem runs_launch {uid : String} {project : Project} {profile : Option CredentialProfile}
    (hat : At t read own w) (huid : read.workspace.metadata.uid = some uid)
    (hrestore : read.workspace.spec.residency = .Archived →
      .got .Pod (resourceName rt read.workspace) none ∈ own) :
    Runs rt options timeout turns t (launch rt options read uid project profile)
      (fun _ _ => True) w := by
  unfold launch
  apply Law.Obeys.seq (runs_lookForCache hat)
  rintro - w1 _ _ ⟨own1, hat1, hsub1⟩
  split
  · exact Law.Obeys.fail
  · apply Law.Obeys.seq (runs_ensureAccess hat1)
    rintro - w2 _ _ ⟨own2, hat2, hsub2, haccess⟩
    apply Law.Obeys.seq (runs_ensureClaim hat2 huid)
    rintro - w3 _ _ ⟨own3, hat3, hsub3, hothers3, hclaim⟩
    apply Law.Obeys.seq (runs_ensure hat3 huid (by decide) fun h => by cases h)
    rintro _ w4 _ _ ⟨own4, hat4, hservice⟩
    have hsupplied : Supplied rt options read.workspace own4 := by
      constructor
      · intro hwired
        exact ((haccess hwired).keep (hothers3 _ _ (by decide)) hsub3).ensured (by decide) hservice
      · intro hkept
        exact (hclaim hkept).ensured (by decide) hservice
      · exact hservice.adopted
    apply Law.Obeys.seq (runs_ensure hat4 huid (by decide) fun _ => hsupplied)
    rintro pod w5 _ _ ⟨own5, hat5, hpod⟩
    have hequipped : Equipped rt options read.workspace own5 :=
      ⟨hsupplied.keep hpod.others hpod.subset, hpod.adopted⟩
    apply runs_reportPod hat5 hequipped hpod.look hpod.owned hpod.seen
    intro harchived
    exact hpod.subset (hservice.subset (hsub3 (hsub2 (hsub1 (hrestore harchived)))))

theorem runs_start {uid : String} {projects : List Project} (hat : At t read own w)
    (huid : read.workspace.metadata.uid = some uid)
    (hrestore : read.workspace.spec.residency = .Archived →
      .got .Pod (resourceName rt read.workspace) none ∈ own) :
    Runs rt options timeout turns t (start rt options read uid projects) (fun _ _ => True) w := by
  unfold start
  split
  · exact runs_report_plain hat .noProject (by decide) (by decide)
  · apply Law.Obeys.seq (runs_get hat)
    intro pod w1 _ _ hat1
    apply Law.Obeys.seq (runs_admitted hat1)
    intro may w2 _ _ hmay
    cases may with
    | false => exact runs_ret fun _ _ => trivial
    | true =>
      obtain ⟨own2, hat2, hsub2⟩ := hmay rfl
      have hprofile : Runs rt options timeout turns t
          (askOr (S := sys) (.credentialProfile read.workspace.spec.credentialProfile) rfl :
            sys.Task (Option CredentialProfile)) (fun _ w' => At t read own2 w') w2 := by
        apply runs_quiet rfl _ hat2
        intro c r m hr
        cases hr
        rfl
      apply Law.Obeys.seq hprofile
      intro profile w3 _ _ hat3
      apply Law.Obeys.seq (runs_credentialsUsable hat3)
      intro usable w4 _ _ hat4
      cases usable with
      | false => exact runs_ret fun _ _ => trivial
      | true =>
        apply runs_launch (hat4 rfl) huid
        exact fun harchived => hsub2 (List.mem_cons_of_mem _ (hrestore harchived))

theorem runs_reconcile {projects : List Project} (hat : At t read own w) :
    Runs rt options timeout turns t (reconcile rt options read projects) (fun _ _ => True) w := by
  unfold reconcile
  split
  · exact runs_ret fun _ _ => trivial
  · split
    · exact Law.Obeys.fail
    · rename_i uid huid
      have hhalted : Runs rt options timeout turns t (halted rt options read)
          (fun done w' => done = false → ∃ own', At t read own' w' ∧
            (read.workspace.spec.residency = .Archived →
              .got .Pod (resourceName rt read.workspace) none ∈ own')) w := by
        unfold halted
        split
        · apply Safe.mono (runs_stop hat huid)
          · intro done w' h hdone
            obtain ⟨own', hat', hnone⟩ := h hdone
            exact ⟨own', hat', fun _ => hnone⟩
          · exact fun _ _ h => h
        · rename_i hrunning
          rw [Decidable.not_not] at hrunning
          refine runs_ret fun w' hg _ => ⟨own, hat.grows hg, fun harchived => ?_⟩
          rw [hrunning] at harchived
          cases harchived
      apply Law.Obeys.seq hhalted
      intro done w1 _ _ hrest
      cases done with
      | true => exact runs_ret fun _ _ => trivial
      | false =>
        obtain ⟨own1, hat1, hrestore⟩ := hrest rfl
        exact runs_start hat1 huid hrestore

end Runs

end PaseoGateway.WorkspaceArchive

/-
  PaseoGateway/ControllerSettles.lean
  ===================================
  **Reconciliation settles.**

  A pass depends on the status it reads in a few places only.  It is `Steady` on a set of
  statuses when it makes the same report on all of them and the report stays in the set; it
  then changes the status once at most (`Steady.still`).  `reconcile_settles` finds such a
  set for every status after at most three passes.
-/
import PaseoGateway.ControllerPasses

namespace PaseoGateway.Controller

open Async Prog Cluster

/-! ### Reports made twice -/

section Again

variable {rt : Runtime} {w : Workspace} {s : Option WorkspaceStatus} {phase : Phase}
  {message : String} {fields : Fields} {instant instant' : String}

/-- A report that is made again writes what is there. -/
theorem statusOf_again :
    statusOf rt { w with status := some (statusOf rt { w with status := s } phase message fields
      instant) } phase message fields instant' =
        statusOf rt { w with status := s } phase message fields instant := by
  obtain ⟨archivedAt, teardownCompletedAt, storageDeletedAt, lastFailure⟩ := fields
  rcases archivedAt with _ | _ <;> rcases teardownCompletedAt with _ | _ <;>
    rcases storageDeletedAt with _ | _ <;> rcases lastFailure with _ | _ <;> simp [statusOf] <;>
    rfl

end Again

/-- The status once a pass has written these. -/
def after (s : Option WorkspaceStatus) (ws : List WorkspaceStatus) : Option WorkspaceStatus :=
  ws.getLast?.or s

/-! ### Passes over a workspace -/

/-- Passes from the first on that finds nothing changing any more but the status. -/
structure Rounds (rt : Runtime) (options : Options) (E : Surroundings) (w : Workspace)
    (projects : List Project) (first : Nat) (read : Nat → Read) (log : Nat → PassLog)
    (out : Nat → Except Err Unit) : Prop where
  workspace : ∀ k, first ≤ k → (read k).workspace = { w with status := (read k).workspace.status }
  pass : ∀ k, first ≤ k → Ran (reconcile rt options (read k) projects) (log k) (out k)
  answered : ∀ k, first ≤ k → ∀ event ∈ log k, Answers E w (fun _ => True) event
  next : ∀ k, first ≤ k →
    (read (k + 1)).workspace.status = after (read k).workspace.status (written (log k))
  /-- the clock crosses no retention deadline -/
  deadline : ∀ k, first ≤ k → ∀ archivedAt date ttl,
    (read k).workspace.status.bind WorkspaceStatus.archivedAt = some archivedAt →
    rt.dateParse archivedAt = some date →
    w.spec.retentionPolicy.bind RetentionPolicy.ttlAfterArchivedSeconds = some ttl →
    ∀ i, k ≤ i → ∀ j, k ≤ j → ∀ instant ∈ instants (log i), ∀ instant' ∈ instants (log j),
      (date + (ttl : Int) * 1000 ≤ instant ↔ date + (ttl : Int) * 1000 ≤ instant')
  /-- the text of an instant is read back as the instant -/
  dates : ∀ k, first ≤ k → ∀ instant ∈ instants (log k),
    rt.dateParse (Iso.toISOString instant) = some instant

section Steady

variable {rt : Runtime} {options : Options} {E : Surroundings} {w : Workspace}
  {projects : List Project} {C : Int → Prop} {A : Option WorkspaceStatus → Prop} {made : Made}

/-- On the statuses in `A` a pass makes the same report. -/
def Reports (rt : Runtime) (options : Options) (E : Surroundings) (w : Workspace)
    (projects : List Project) (C : Int → Prop) (A : Option WorkspaceStatus → Prop)
    (made : Made) : Prop :=
  ∀ version s, A s → Ends E w C (reconcile rt options (reading w version s) projects)
    fun ws _ => Wrote rt { w with status := s } made ws

/-- The report stays in `A`. -/
def Closed (rt : Runtime) (w : Workspace) (A : Option WorkspaceStatus → Prop) (made : Made) :
    Prop :=
  ∀ s phase message fields instant, A s → made = some (phase, message, fields) →
    A (some (statusOf rt { w with status := s } phase message fields instant))

def Steady (rt : Runtime) (options : Options) (E : Surroundings) (w : Workspace)
    (projects : List Project) (C : Int → Prop) (A : Option WorkspaceStatus → Prop) : Prop :=
  ∃ made, Reports rt options E w projects C A made ∧ Closed rt w A made

/-- Nothing that is written for the report changes the status. -/
def Fixed (rt : Runtime) (w : Workspace) (made : Made) (s : Option WorkspaceStatus) : Prop :=
  ∀ ws, Wrote rt { w with status := s } made ws → ∀ value ∈ ws, some value = s

theorem after_of_forall {s : Option WorkspaceStatus} {ws : List WorkspaceStatus}
    (h : ∀ value ∈ ws, some value = s) : after s ws = s := by
  rcases hlast : ws.getLast? with _ | value
  · simp [after, hlast]
  · rw [after, hlast, Option.some_or]
    exact h value (List.mem_of_getLast? hlast)

/-- After the report it is fixed. -/
theorem Wrote.fixed {s : Option WorkspaceStatus} {ws : List WorkspaceStatus}
    (h : Wrote rt { w with status := s } made ws) : Fixed rt w made (after s ws) := by
  rcases made with _ | ⟨phase, message, fields⟩
  · rintro ws' rfl value hvalue
    cases hvalue
  rcases h with ⟨hreported, rfl⟩ | ⟨-, instant, rfl⟩
  · rintro ws' (⟨-, rfl⟩ | ⟨hnot, -⟩) value hvalue
    · cases hvalue
    · rw [show after s [] = s from rfl, hreported] at hnot
      cases hnot
  · rintro ws' (⟨-, rfl⟩ | ⟨-, instant', rfl⟩) value hvalue
    · cases hvalue
    · rw [List.mem_singleton.mp hvalue]
      exact congrArg some statusOf_again

theorem Closed.after {s : Option WorkspaceStatus} {ws : List WorkspaceStatus}
    (hclosed : Closed rt w A made) (hs : A s) (h : Wrote rt { w with status := s } made ws) :
    A (after s ws) := by
  rcases made with _ | ⟨phase, message, fields⟩
  · obtain rfl : ws = [] := h
    exact hs
  rcases h with ⟨-, rfl⟩ | ⟨-, instant, rfl⟩
  · exact hs
  · exact hclosed s phase message fields _ hs rfl

end Steady

section Rounds

variable {rt : Runtime} {options : Options} {E : Surroundings} {w : Workspace}
  {projects : List Project} {first k : Nat} {read : Nat → Read} {log : Nat → PassLog}
  {out : Nat → Except Err Unit} {C : Int → Prop} {A : Option WorkspaceStatus → Prop}
  {Q : List WorkspaceStatus → Prop}

abbrev statusAt (read : Nat → Read) (k : Nat) : Option WorkspaceStatus :=
  (read k).workspace.status

/-- From pass `k` on the clock stays within `C`. -/
def Within (log : Nat → PassLog) (C : Int → Prop) (k : Nat) : Prop :=
  ∀ j, k ≤ j → ∀ instant ∈ instants (log j), C instant

theorem Within.of_true (h : ∀ instant, C instant) : Within log C k := fun _ _ instant _ => h instant

theorem Within.later (h : Within log C k) : Within log C (k + 1) :=
  fun j hj => h j (Nat.le_of_succ_le hj)

theorem Answers.within {event : Event sys.iface} (h : Answers E w (fun _ => True) event)
    (hclock : ∀ instant, event = ⟨.ext .now, instant⟩ → C instant) : Answers E w C event := by
  obtain ⟨q, r⟩ := event
  rcases q with q | x
  · rcases q <;> exact h
  · rcases x <;> first | exact h | exact hclock r rfl

theorem Rounds.ends (h : Rounds rt options E w projects first read log out) (hk : first ≤ k)
    (hclock : ∀ instant ∈ instants (log k), C instant)
    (hends : ∀ version, Ends E w C (reconcile rt options (reading w version (statusAt read k))
      projects) fun ws _ => Q ws) : Q (written (log k)) := by
  have hread : read k = reading w (read k).version (statusAt read k) := by
    rw [reading, ← h.workspace k hk]
  have hran := h.pass k hk
  rw [hread] at hran
  refine hends _ (log k) (out k) hran fun event hevent => ?_
  refine (h.answered k hk event hevent).within fun instant heq => hclock instant ?_
  subst heq
  exact List.mem_filterMap.mpr ⟨_, hevent, rfl⟩

/-- From pass `k` on the passes are steady. -/
def Rest (rt : Runtime) (options : Options) (E : Surroundings) (w : Workspace)
    (projects : List Project) (read : Nat → Read) (log : Nat → PassLog) (k : Nat) : Prop :=
  ∃ C A, Steady rt options E w projects C A ∧ A (statusAt read k) ∧ Within log C k

/-- Once they are steady, the pass after the next changes nothing. -/
theorem Rest.still (h : Rounds rt options E w projects first read log out) (hk : first ≤ k)
    (hrest : Rest rt options E w projects read log k) {j : Nat} (hj : k < j) :
    statusAt read (j + 1) = statusAt read j ∧
      ∀ value ∈ written (log j), some value = statusAt read j := by
  obtain ⟨C, A, ⟨made, hreports, hclosed⟩, hin, hwithin⟩ := hrest
  have hwrote : ∀ i, k ≤ i → A (statusAt read i) →
      Wrote rt { w with status := statusAt read i } made (written (log i)) := fun i hi hA =>
    h.ends (by omega) (hwithin i hi) fun version => hreports version _ hA
  have hfixed : ∀ i, k < i → A (statusAt read i) ∧ Fixed rt w made (statusAt read i) := by
    intro i hi
    induction i with
    | zero => omega
    | succ i ih =>
      rw [statusAt, h.next i (by omega)]
      have hA : A (statusAt read i) := by
        rcases Nat.eq_or_lt_of_le (Nat.le_of_lt_succ hi) with rfl | hlt
        · exact hin
        · exact (ih hlt).1
      have hw := hwrote i (by omega) hA
      exact ⟨hclosed.after hA hw, hw.fixed⟩
  obtain ⟨hA, hfix⟩ := hfixed j hj
  have hall := hfix _ (hwrote j (by omega) hA)
  exact ⟨(h.next j (by omega)).trans (after_of_forall hall), hall⟩

end Rounds

/-! ### Stopping -/

section Stop

variable {rt : Runtime} {options : Options} {E : Surroundings} {w : Workspace}
  {projects : List Project} {C : Int → Prop} {A B : Option WorkspaceStatus → Prop} {uid : String}

def recorded (s : Option WorkspaceStatus) : Option String :=
  s.bind WorkspaceStatus.teardownCompletedAt

def released (s : Option WorkspaceStatus) : Option String :=
  s.bind WorkspaceStatus.storageDeletedAt

def archivedSince (s : Option WorkspaceStatus) : Option String := s.bind WorkspaceStatus.archivedAt

/-- The workspace is suspended, or archived with its teardown on record. -/
def Stoppable (w : Workspace) (s : Option WorkspaceStatus) : Prop :=
  w.spec.residency = .Archived → (recorded s).isSome = true

/-- `stop` once the Pod is known to be the workspace's own. -/
def stopOwned (rt : Runtime) (options : Options) (read : Read) (pod : Option Infrastructure) :
    sys.Task Bool :=
  if read.workspace.spec.residency = .Suspended ∧ ephemeral read.workspace then do
    report rt read .Failed
      "Ephemeral workspaces cannot suspend; archive to release their data"
    .ret true
  else if read.workspace.spec.residency = .Archived ∧ (recorded read.workspace.status).isNone then
    stopForTeardown rt options read pod
  else stopFound rt options read pod

/-- `stopped` once the runtime objects are gone. -/
def stoppedFor (rt : Runtime) (options : Options) (read : Read) : sys.Task Unit := do
  let instant ← now
  let archivedAt := (archivedSince read.workspace.status).getD (Iso.toISOString instant)
  if expired rt read.workspace archivedAt instant then
    collectStorage rt options read archivedAt instant
  else
    report rt read (if read.workspace.spec.residency = .Archived then .Archived else .Suspended)
      (stoppedMessage read.workspace)
      (if read.workspace.spec.residency = .Archived ∧ (archivedSince read.workspace.status).isNone
        then { archivedAt := some archivedAt } else {})

theorem reconcile_eq (hdeletion : w.metadata.deletionTimestamp = none)
    (huid : w.metadata.uid = some uid) (hresidency : w.spec.residency ≠ .Running) {version : Nat}
    {s : Option WorkspaceStatus} :
    reconcile rt options (reading w version s) projects =
      stop rt options (reading w version s) >>= fun done =>
        if done then .ret () else start rt options (reading w version s) uid projects := by
  simp only [reconcile, hdeletion, Option.isSome_none, Bool.false_eq_true, if_false, huid, halted,
    if_pos hresidency]

theorem reconcile_running (hdeletion : w.metadata.deletionTimestamp = none)
    (huid : w.metadata.uid = some uid) (hresidency : w.spec.residency = .Running) {version : Nat}
    {s : Option WorkspaceStatus} :
    reconcile rt options (reading w version s) projects =
      start rt options (reading w version s) uid projects := by
  simp only [reconcile, hdeletion, Option.isSome_none, Bool.false_eq_true, if_false, huid, halted,
    hresidency, ne_eq, not_true_eq_false, ret_bind]

theorem stop_eq (read : Read) : stop rt options read =
    get .Pod (resourceName rt read.workspace) >>= fun pod =>
      if pod.any fun p => p.workspaceUid != read.workspace.metadata.uid then
        .fail (.message "Refusing to delete an unowned pod")
      else stopOwned rt options read pod := rfl

/-- A pass that stops the workspace does nothing else. -/
theorem ends_halt {version : Nat} {s : Option WorkspaceStatus} {p : sys.Task Bool}
    {Q : List WorkspaceStatus → Prop} (h : Ends E w C p fun ws o => Q ws ∧ o ≠ .ok false) :
    Ends E w C (p >>= fun done =>
      if done then .ret () else start rt options (reading w version s) uid projects)
      fun ws _ => Q ws := by
  refine Ends.bind h (fun _ _ hend => hend.1) fun ws done hend => ?_
  rcases done with _ | _
  · exact absurd rfl hend.2
  · exact Ends.ret (by simpa using hend.1)

/-- A pass throws for the Pod, or goes on with the Pod it has found. -/
theorem pod_cases (hdeletion : w.metadata.deletionTimestamp = none)
    (huid : w.metadata.uid = some uid) (hresidency : w.spec.residency ≠ .Running) :
    Reports rt options E w projects C (fun _ => True) none ∨
    ∃ pod, ∀ version s (Q : List WorkspaceStatus → Prop),
      Ends E w C (stopOwned rt options (reading w version s) pod >>= fun done =>
        if done then .ret () else start rt options (reading w version s) uid projects)
        (fun ws _ => Q ws) →
      Ends E w C (reconcile rt options (reading w version s) projects) fun ws _ => Q ws := by
  have hlook : ∀ version s, Gives E w C
      (get .Pod (resourceName rt (reading w version s).workspace))
      (E.get .Pod (resourceName rt w)) := fun _ _ => gives_askOr rfl fun _ h => h
  rcases hpod : E.get .Pod (resourceName rt w) with e | pod <;> rw [hpod] at hlook
  · refine .inl fun version s _ => ?_
    rw [reconcile_eq hdeletion huid hresidency]
    exact ends_halt ((hlook version s).throws ⟨rfl, by simp⟩)
  by_cases hunowned : (pod.any fun p => p.workspaceUid != w.metadata.uid) = true
  · refine .inl fun version s _ => ?_
    rw [reconcile_eq hdeletion huid hresidency]
    exact ends_halt ((hlook version s).seq
      (Ends.of_eq (if_pos hunowned) (Ends.fail ⟨rfl, by simp⟩)))
  · refine .inr ⟨pod, fun version s Q hends => ?_⟩
    rw [reconcile_eq hdeletion huid hresidency, stop_eq, bind_assoc']
    refine (hlook version s).seq (Ends.of_eq ?_ hends)
    exact congrArg (· >>= _) (if_neg hunowned)

theorem ends_refuse {version : Nat} {s : Option WorkspaceStatus} {phase : Phase}
    {message : String} :
    Ends E w C (report rt (reading w version s) phase message >>= fun _ => .ret true)
      fun ws o => Wrote rt { w with status := s } (plain (some (phase, message))) ws ∧
        o ≠ .ok false := by
  refine Ends.bind ends_report (fun _ _ hend => nomatch hend.1) fun ws _ hend => ?_
  exact Ends.ret ⟨by simpa [plain] using hend.2, by simp⟩

/-- Either a pass over a stoppable workspace reports the same whatever the status, or it comes to
    stopping its compute. -/
theorem stop_cases (hdeletion : w.metadata.deletionTimestamp = none)
    (huid : w.metadata.uid = some uid) (hresidency : w.spec.residency ≠ .Running) :
    (∃ m, Reports rt options E w projects C (Stoppable w) (plain m)) ∨
    ∃ pod, ∀ version s (Q : List WorkspaceStatus → Prop), Stoppable w s →
      Ends E w C (stopCompute rt options (reading w version s) pod) (fun ws _ => Q ws) →
      Ends E w C (reconcile rt options (reading w version s) projects) fun ws _ => Q ws := by
  rcases pod_cases hdeletion huid hresidency with hthrows | ⟨pod, hpod⟩
  · exact .inl ⟨none, fun version s _ => hthrows version s trivial⟩
  by_cases hephemeral : w.spec.residency = .Suspended ∧ ephemeral w = true
  · exact .inl ⟨some (.Failed,
      "Ephemeral workspaces cannot suspend; archive to release their data"), fun version s _ =>
      hpod version s _ (ends_halt (Ends.of_eq (if_pos hephemeral) ends_refuse))⟩
  have hfound : ∀ version s (Q : List WorkspaceStatus → Prop), Stoppable w s →
      Ends E w C (stopFound rt options (reading w version s) pod)
        (fun ws o => Q ws ∧ o ≠ .ok false) →
      Ends E w C (reconcile rt options (reading w version s) projects) fun ws _ => Q ws := by
    intro version s Q hs hends
    have hrecorded : ¬ (w.spec.residency = .Archived ∧ (recorded s).isNone = true) := by
      rintro ⟨harchived, hnone⟩
      have hsome := hs harchived
      rw [Option.isNone_iff_eq_none.mp hnone] at hsome
      cases hsome
    exact hpod version s Q (ends_halt (Ends.of_eq (if_neg hephemeral)
      (Ends.of_eq (if_neg hrecorded) hends)))
  have hcompute : ∀ version s (Q : List WorkspaceStatus → Prop),
      Ends E w C (stopCompute rt options (reading w version s) pod) (fun ws _ => Q ws) →
      Ends E w C (stopCompute rt options (reading w version s) pod >>= fun _ => .ret true)
        fun ws o => Q ws ∧ o ≠ .ok false := by
    intro version s Q hends
    refine Ends.bind hends (fun _ _ hq => ⟨hq, by simp⟩) fun ws _ hq => ?_
    exact Ends.ret ⟨by simpa using hq, by simp⟩
  by_cases hsuspend : w.spec.residency = .Suspended ∧ suspendable pod = true ∧
      options.beforeSuspend = true
  · have hask : ∀ version s, Gives E w C (askOr (S := sys)
        (.beforeSuspend (reading w version s).workspace) rfl : sys.Task Unit).attempt
        (.ok E.beforeSuspend) := fun _ _ =>
      Gives.attempt (gives_askOr rfl fun _ h => h)
    rcases hbefore : E.beforeSuspend with e | _
    · refine .inl ⟨some (.Failed,
        "Inventory snapshot unavailable; compute and storage retained before suspension"),
        fun version s hs => hfound version s _ hs (Ends.of_eq (if_pos hsuspend) ?_)⟩
      refine (hask version s).seq ?_
      rw [hbefore]
      exact ends_refuse
    · refine .inr ⟨pod, fun version s Q hs hends =>
        hfound version s Q hs (Ends.of_eq (if_pos hsuspend) ?_)⟩
      refine (hask version s).seq ?_
      rw [hbefore]
      exact hcompute version s Q hends
  · exact .inr ⟨pod, fun version s Q hs hends =>
      hfound version s Q hs (Ends.of_eq (if_neg hsuspend) (hcompute version s Q hends))⟩

/-! ### Stopping compute -/

def CompletedStop (w : Workspace) (s : Option WorkspaceStatus) : Prop :=
  completedStop { w with status := s } = true

/-- The report does not depend on the status, or only on whether a reader finds the stop
    completed, or the pass comes to a workspace without Pod, reader and runtime. -/
theorem stopCompute_cases (pod : Option Infrastructure) :
    Plain rt E w C (fun _ => True) (fun read => stopCompute rt options read pod) ∨
    ((∀ version s, CompletedStop w s →
        Gives E w C (stopCompute rt options (reading w version s) pod) (.ok ())) ∧
      Says rt E w C (fun s => ¬ CompletedStop w s) (fun read => stopCompute rt options read pod)
        (.ok ()) (plain (some (.Pending, "Waiting for retained history reader to finish")))) ∨
    ∀ version s (Q : List WorkspaceStatus → Except Err Unit → Prop),
      Ends E w C (stoppedFor rt options (reading w version s)) Q →
      Ends E w C (stopCompute rt options (reading w version s) pod) Q := by
  rcases pod with _ | pod
  swap
  · have hdelete : Quiet E w C fun _ => deleteLive .Pod (resourceName rt w) (some pod) :=
      quiet_deleteLive
    exact .inl (Plain.bind hdelete fun _ =>
      Plain.report .Pending "Waiting for compute to stop; storage retained")
  have hlook : ∀ version s, Gives E w C
      (get .Pod (historyReaderName rt ((reading w version s).workspace.metadata.uid.getD "")))
      (E.get .Pod (historyReaderName rt (w.metadata.uid.getD ""))) :=
    fun _ _ => gives_askOr rfl fun _ h => h
  rcases hreader : E.get .Pod (historyReaderName rt (w.metadata.uid.getD "")) with e | reader <;>
    rw [hreader] at hlook
  · exact .inl ⟨.error e, none, Says.throws fun version s _ => hlook version s⟩
  rcases reader with _ | reader
  swap
  · by_cases hunowned : reader.workspaceUid ≠ w.metadata.uid
    · refine .inl ⟨.error (.message "Unowned retained history reader blocks storage cleanup"), none,
        Says.seq (fun version s _ => hlook version s) ?_⟩
      exact fun version s _ => Ends.of_eq (if_pos hunowned) (Ends.fail ⟨rfl, rfl⟩)
    · refine .inr (.inl ⟨fun version s hs => (hlook version s).seq ?_,
        Says.seq (fun version s _ => hlook version s) fun version s hs => ?_⟩)
      · exact Ends.of_eq (if_neg hunowned) (Ends.of_eq (if_pos hs) (Ends.ret ⟨rfl, rfl⟩))
      · exact Ends.of_eq (if_neg hunowned) (Ends.of_eq (if_neg hs) ends_report)
  have hgone : Quiet E w C fun read => runtimeGone rt read.workspace :=
    Quiet.test (w.spec.residency = .Archived) (fun _ _ => Iff.rfl) (fun _ => quiet_deleteRuntime)
      fun _ => Quiet.ret
  obtain ⟨out, hout⟩ := hgone
  rcases out with e | gone
  · refine .inl ⟨.error e, none, Says.seq (fun version s _ => hlook version s) ?_⟩
    exact Says.throws fun version s _ => hout version s
  rcases gone with _ | _
  · refine .inl ⟨.ok (), some (.Pending, "Waiting for owned runtime resources to be removed"),
      Says.seq (fun version s _ => hlook version s) ?_⟩
    exact Says.seq (fun version s _ => hout version s) fun version s _ => ends_report
  · refine .inr (.inr fun version s Q hends => (hlook version s).seq ?_)
    exact (hout version s).seq hends

/-! ### Storage -/

/-- The retention that counts from `archivedAt` is over. -/
def overdue (rt : Runtime) (w : Workspace) (archivedAt : String) (instant : Int) : Bool :=
  w.spec.residency == .Archived &&
    (w.spec.retentionPolicy.bind RetentionPolicy.ttlAfterArchivedSeconds).any fun (ttl : Nat) =>
      (rt.dateParse archivedAt).any fun date => decide (date + (ttl : Int) * 1000 ≤ instant)

theorem overdue_iff {archivedAt : String} {instant : Int} :
    overdue rt w archivedAt instant = true ↔ w.spec.residency = .Archived ∧ ∃ ttl,
      w.spec.retentionPolicy.bind RetentionPolicy.ttlAfterArchivedSeconds = some ttl ∧
      ∃ date, rt.dateParse archivedAt = some date ∧ date + (ttl : Int) * 1000 ≤ instant := by
  simp only [overdue, Bool.and_eq_true, beq_iff_eq, Option.any_eq_true, decide_eq_true_eq]

theorem expired_eq {s : Option WorkspaceStatus} {archivedAt : String} {instant : Int} :
    expired rt { w with status := s } archivedAt instant =
      ((released s).isNone && overdue rt w archivedAt instant) := by
  unfold expired overdue released
  rcases s.bind WorkspaceStatus.storageDeletedAt with _ | _
  · simp
  · rcases w.spec.retentionPolicy.bind RetentionPolicy.ttlAfterArchivedSeconds with _ | _ <;> simp

/-- Collecting the storage throws, waits for the claim to go, or releases it. -/
theorem collectStorage_cases :
    (∀ archivedAt instant version s, Ends E w C
      (collectStorage rt options (reading w version s) archivedAt instant)
      fun ws _ => ws = []) ∨
    (∀ archivedAt instant version s, Ends E w C
      (collectStorage rt options (reading w version s) archivedAt instant)
      fun ws _ => Wrote rt { w with status := s } (some (.Archived,
        "Waiting for owned storage deletion to finish", { archivedAt := some archivedAt })) ws) ∨
    ∀ archivedAt instant version s, Ends E w C
      (collectStorage rt options (reading w version s) archivedAt instant)
      fun ws _ => ∃ value, ws = [value] ∧ archivedSince (some value) = some archivedAt ∧
        (released (some value)).isSome = true ∧ recorded (some value) = recorded s := by
  have hlook : ∀ version s, Gives E w C
      (get .PersistentVolumeClaim (resourceName rt (reading w version s).workspace))
      (E.get .PersistentVolumeClaim (resourceName rt w)) := fun _ _ => gives_askOr rfl fun _ h => h
  rcases hclaim : E.get .PersistentVolumeClaim (resourceName rt w) with e | pvc <;>
    rw [hclaim] at hlook
  · exact .inl fun _ _ version s => (hlook version s).throws rfl
  by_cases hunowned : unowned w pvc = true
  · exact .inl fun _ _ version s => (hlook version s).seq
      (Ends.of_eq (if_pos hunowned) (Ends.fail rfl))
  have hdelete : Quiet E w C fun read => deleteClaim (resourceName rt read.workspace) pvc := by
    unfold deleteClaim
    split
    · exact ⟨E.delete .PersistentVolumeClaim (resourceName rt w) _,
        fun _ _ => gives_askOr rfl fun _ h => h⟩
    · exact Quiet.ret
  obtain ⟨out, hdeleted⟩ := hdelete
  rcases out with e | _
  · exact .inl fun _ _ version s => (hlook version s).seq
      (Ends.of_eq (if_neg hunowned) ((hdeleted version s).throws rfl))
  rcases pvc with _ | pvc
  swap
  · exact .inr (.inl fun _ _ version s => (hlook version s).seq (Ends.of_eq (if_neg hunowned)
      ((hdeleted version s).seq ((hlook version s).seq (ends_report.mono fun _ _ h => h.2)))))
  have hpurge : Quiet E w C fun read => purge options read.workspace :=
    Quiet.ite (fun _ => ⟨E.purgeInventory, fun _ _ => gives_askOr rfl fun _ h => h⟩)
      fun _ => Quiet.ret
  obtain ⟨out, hpurged⟩ := hpurge
  rcases out with e | _
  · exact .inl fun _ _ version s => (hlook version s).seq (Ends.of_eq (if_neg hunowned)
      ((hdeleted version s).seq ((hlook version s).seq ((hpurged version s).throws rfl))))
  · refine .inr (.inr fun archivedAt instant version s => (hlook version s).seq
      (Ends.of_eq (if_neg hunowned) ((hdeleted version s).seq ((hlook version s).seq
        ((hpurged version s).seq (ends_report.mono fun _ _ h => ?_))))))
    obtain ⟨instant', rfl⟩ := h.2.of_fields (by simp)
    exact ⟨_, rfl, by simp [archivedSince, statusOf], by simp [released, statusOf],
      by simp [recorded, statusOf]⟩

/-! ### Teardown -/

/-- The teardown of an archived workspace is not on record: the report does not depend on the
    rest of the status, or the pass records the teardown, or there is no Pod to run it in. -/
theorem teardown_cases (hdeletion : w.metadata.deletionTimestamp = none)
    (huid : w.metadata.uid = some uid) (harchived : w.spec.residency = .Archived) :
    (∃ m, Reports rt options E w projects C (fun s => recorded s = none) (plain m)) ∨
    (∀ version s, recorded s = none →
      Ends E w C (reconcile rt options (reading w version s) projects) fun ws _ =>
        ∃ value, ws = [value] ∧ (recorded (some value)).isSome = true) ∨
    ((ephemeral w = true → Reports rt options E w projects C
        (fun s => recorded s = none ∧ s.isSome = true) (plain (some (.Failed,
          "Ephemeral pod was lost before teardown; automatic cleanup refused")))) ∧
      ∀ version s (Q : List WorkspaceStatus → Prop), recorded s = none →
        (ephemeral w = true → s = none) →
        Ends E w C (start rt options (reading w version s) uid projects) (fun ws _ => Q ws) →
        Ends E w C (reconcile rt options (reading w version s) projects) fun ws _ => Q ws) := by
  have hresidency : w.spec.residency ≠ .Running := by simp [harchived]
  rcases pod_cases hdeletion huid hresidency with hthrows | ⟨pod, hpod⟩
  · exact .inl ⟨none, fun version s _ => hthrows version s trivial⟩
  have hsuspended : ¬ (w.spec.residency = .Suspended ∧ ephemeral w = true) := by
    simp [harchived]
  have hteardown : ∀ version s, recorded s = none →
      stopOwned rt options (reading w version s) pod =
        stopForTeardown rt options (reading w version s) pod := by
    intro version s hs
    have hnone : (recorded s).isNone = true := by simp [hs]
    exact (if_neg hsuspended).trans (if_pos ⟨harchived, hnone⟩)
  have hfound : ∀ version s (Q : List WorkspaceStatus → Prop), recorded s = none →
      Ends E w C (stopForTeardown rt options (reading w version s) pod)
        (fun ws o => Q ws ∧ o ≠ .ok false) →
      Ends E w C (reconcile rt options (reading w version s) projects) fun ws _ => Q ws :=
    fun version s Q hs hends => hpod version s Q
      (ends_halt (Ends.of_eq (hteardown version s hs) hends))
  rcases pod with _ | pod
  · refine .inr (.inr ⟨fun hephemeral version s hs => hfound version s _ hs.1
      (Ends.of_eq (if_pos ⟨hephemeral, hs.2⟩) ends_refuse), fun version s Q hs hlost hends => ?_⟩)
    have hstart : ¬ (ephemeral w = true ∧ s.isSome = true) := by
      rintro ⟨hephemeral, hsome⟩
      rw [hlost hephemeral] at hsome
      cases hsome
    refine hpod version s Q ?_
    rw [hteardown version s hs]
    exact Ends.of_eq (congrArg (· >>= _) (if_neg hstart)) hends
  by_cases hwait : pod.deletionTimestamp.isSome = true ∨ ¬ pod.ready = true
  · exact .inl ⟨some (.Pending, "Waiting for workspace readiness to run teardown"),
      fun version s hs => hfound version s _ hs (Ends.of_eq (if_pos hwait) ends_refuse)⟩
  obtain ⟨out, hout⟩ := @quiet_tearDown E w C rt options
  rcases out with e | _
  · refine .inl ⟨some (.Failed, "Teardown failed or outcome unknown; compute and storage retained"),
      fun version s hs => hfound version s _ hs (Ends.of_eq (if_neg hwait) ?_)⟩
    exact (hout version s).attempt.seq ends_refuse
  · refine .inr (.inl fun version s hs => hfound version s _ hs (Ends.of_eq (if_neg hwait) ?_))
    refine (hout version s).attempt.seq (Ends.clock fun instant _ => ?_)
    refine Ends.bind ends_report (fun _ _ hend => nomatch hend.1) fun ws _ hend => ?_
    obtain ⟨instant', rfl⟩ := hend.2.of_fields (by simp)
    exact Ends.ret ⟨⟨_, rfl, by simp [recorded, statusOf]⟩, by simp⟩

end Stop

/-! ### Every workspace settles -/

section Settles

variable {rt : Runtime} {options : Options} {E : Surroundings} {w : Workspace}
  {projects : List Project} {first k n : Nat} {read : Nat → Read} {log : Nat → PassLog}
  {out : Nat → Except Err Unit} {C : Int → Prop} {A B : Option WorkspaceStatus → Prop}
  {uid : String}

/-- A report without fields keeps what the passes look at. -/
theorem closed_plain {m : Option (Phase × String)}
    (h : ∀ s t, A s → recorded t = recorded s → archivedSince t = archivedSince s →
      released t = released s → t.bind WorkspaceStatus.lastFailure =
        s.bind WorkspaceStatus.lastFailure → t.isSome = true → A t) :
    Closed rt w A (plain m) := by
  rintro s phase message fields instant hs hmade
  obtain ⟨⟨phase', message'⟩, -, heq⟩ := Option.map_eq_some_iff.mp hmade
  cases heq
  exact h s _ hs (by simp [recorded, statusOf]) (by simp [archivedSince, statusOf])
    (by simp [released, statusOf]) (by simp [statusOf]) rfl

/-- The passes are steady at most `n` passes later. -/
def Soon (rt : Runtime) (options : Options) (E : Surroundings) (w : Workspace)
    (projects : List Project) (read : Nat → Read) (log : Nat → PassLog) (n k : Nat) : Prop :=
  ∃ j, k ≤ j ∧ j ≤ k + n ∧ Rest rt options E w projects read log j

theorem Rest.soon (h : Rest rt options E w projects read log k) :
    Soon rt options E w projects read log n k := ⟨k, le_rfl, by omega, h⟩

theorem Soon.next (h : Soon rt options E w projects read log n (k + 1)) :
    Soon rt options E w projects read log (n + 1) k := by
  obtain ⟨j, hj, hjn, hrest⟩ := h
  exact ⟨j, by omega, by omega, hrest⟩

theorem Soon.mono {n' : Nat} (h : Soon rt options E w projects read log n k) (hn : n ≤ n') :
    Soon rt options E w projects read log n' k := by
  obtain ⟨j, hj, hjn, hrest⟩ := h
  exact ⟨j, hj, by omega, hrest⟩

/-- Passes that report the same whatever the status of a kind that they keep. -/
theorem Rest.of_plain {m : Option (Phase × String)}
    (hreports : Reports rt options E w projects C A (plain m)) (hin : A (statusAt read k))
    (hwithin : Within log C k)
    (hkeep : ∀ s t, A s → recorded t = recorded s → archivedSince t = archivedSince s →
      released t = released s → t.bind WorkspaceStatus.lastFailure =
        s.bind WorkspaceStatus.lastFailure → t.isSome = true → A t) :
    Rest rt options E w projects read log k :=
  ⟨C, A, ⟨plain m, hreports, closed_plain hkeep⟩, hin, hwithin⟩

theorem Rounds.wrote (h : Rounds rt options E w projects first read log out) (hk : first ≤ k)
    {value : WorkspaceStatus} (hwritten : written (log k) = [value]) :
    statusAt read (k + 1) = some value := by
  rw [statusAt, h.next k hk, hwritten]
  rfl

/-- A pass that goes on to start the workspace. -/
theorem soon_of_starts (h : Rounds rt options E w projects first read log out) (hk : first ≤ k)
    (hstarts : Starts rt E w (fun _ => True) fun read => start rt options read uid projects)
    (hstart : ∀ version s (Q : List WorkspaceStatus → Prop), B s →
      Ends E w (fun _ => True) (start rt options (reading w version s) uid projects)
        (fun ws _ => Q ws) →
      Ends E w (fun _ => True) (reconcile rt options (reading w version s) projects)
        fun ws _ => Q ws)
    (hin : B (statusAt read k))
    (hkeep : ∀ s t, B s → recorded t = recorded s → t.isSome = true → B t) :
    Soon rt options E w projects read log 1 k := by
  have hwithin : ∀ j, Within log (fun _ => True) j := fun j => Within.of_true fun _ => trivial
  rcases hstarts with ⟨result, m, hmakes⟩ | ⟨reason, ⟨result, m, hmakes⟩, hnew⟩
  · have hreports : Reports rt options E w projects (fun _ => True) B (plain m) :=
      fun version s hs => hstart version s _ hs
        ((hmakes version s trivial).mono fun _ _ hend => hend.2)
    exact Rest.soon (Rest.of_plain hreports hin (hwithin k)
      fun s t hs hrecorded _ _ _ hsome => hkeep s t hs hrecorded hsome)
  have hrest : ∀ j, B (statusAt read j) → FailedWith reason (statusAt read j) →
      Rest rt options E w projects read log j := by
    intro j hB hfailed
    have hreports : Reports rt options E w projects (fun _ => True)
        (fun s => B s ∧ FailedWith reason s) (plain m) := fun version s hs =>
      hstart version s _ hs.1 ((hmakes version s hs.2).mono fun _ _ hend => hend.2)
    refine Rest.of_plain hreports ⟨hB, hfailed⟩ (hwithin j)
      fun s t hs hrecorded _ _ hfailure hsome => ⟨hkeep s t hs.1 hrecorded hsome, ?_⟩
    rw [FailedWith, hfailure]
    exact hs.2
  by_cases hfailed : FailedWith reason (statusAt read k)
  · exact (hrest k hin hfailed).soon
  obtain ⟨value, hwritten, hnow, hrecorded⟩ := h.ends hk (fun _ _ => trivial)
    fun version => hstart version _ _ hin (hnew version _ hfailed)
  have hstatus := h.wrote hk hwritten
  refine Soon.next (Rest.soon (n := 0) (hrest (k + 1) ?_ ?_))
  · rw [hstatus]
    exact hkeep _ _ hin hrecorded rfl
  · rw [hstatus]
    exact hnow

/-- An ephemeral workspace that was archived before it had a status. -/
theorem soon_of_lost (h : Rounds rt options E w projects first read log out) (hk : first ≤ k)
    (hstarts : Starts rt E w (fun _ => True) fun read => start rt options read uid projects)
    (hstart : ∀ version (Q : List WorkspaceStatus → Prop),
      Ends E w (fun _ => True) (start rt options (reading w version none) uid projects)
        (fun ws _ => Q ws) →
      Ends E w (fun _ => True) (reconcile rt options (reading w version none) projects)
        fun ws _ => Q ws)
    (hlost : Reports rt options E w projects (fun _ => True)
      (fun s => recorded s = none ∧ s.isSome = true) (plain (some (.Failed,
        "Ephemeral pod was lost before teardown; automatic cleanup refused"))))
    (hin : statusAt read k = none) : Soon rt options E w projects read log 1 k := by
  have hwithin : ∀ j, Within log (fun _ => True) j := fun j => Within.of_true fun _ => trivial
  have hsome : ∀ value, written (log k) = [value] → recorded (some value) = none →
      Soon rt options E w projects read log 1 k := by
    intro value hwritten hrecorded
    refine Soon.next (Rest.soon (n := 0) (Rest.of_plain hlost ?_ (hwithin _)
      fun s t hs hkeep _ _ _ hsome => ⟨hkeep.trans hs.1, hsome⟩))
    rw [h.wrote hk hwritten]
    exact ⟨hrecorded, rfl⟩
  rcases hstarts with ⟨result, m, hmakes⟩ | ⟨reason, -, hnew⟩
  · rcases m with _ | ⟨phase, message⟩
    · refine Rest.soon ⟨_, fun s => s = none, ⟨none, ?_, ?_⟩, hin, hwithin k⟩
      · rintro version s rfl
        exact hstart version _ ((hmakes version none trivial).mono fun _ _ hend => hend.2)
      · rintro s phase message fields instant - ⟨⟩
    · have hwrote := h.ends hk (fun _ _ => trivial) fun version => by
        rw [hin]
        exact hstart version _ ((hmakes version none trivial).mono fun _ _ hend => hend.2)
      rcases hwrote with ⟨hreported, -⟩ | ⟨-, instant, hwritten⟩
      · simp [reported] at hreported
      · exact hsome _ hwritten (by simp [recorded, statusOf])
  · obtain ⟨value, hwritten, -, hrecorded⟩ := h.ends hk (fun _ _ => trivial) fun version => by
      rw [hin]
      exact hstart version _ (hnew version none (by simp [FailedWith]))
    exact hsome value hwritten hrecorded

/-- A pass over a stoppable workspace comes to one without Pod, reader and runtime. -/
def Arrives (rt : Runtime) (options : Options) (E : Surroundings) (w : Workspace)
    (projects : List Project) (C : Int → Prop) : Prop :=
  ∀ version s (Q : List WorkspaceStatus → Prop), Stoppable w s →
    Ends E w C (stoppedFor rt options (reading w version s)) (fun ws _ => Q ws) →
    Ends E w C (reconcile rt options (reading w version s) projects) fun ws _ => Q ws

theorem Stoppable.of_recorded {s t : Option WorkspaceStatus} (hs : Stoppable w s)
    (h : recorded t = recorded s) : Stoppable w t := fun harchived => by
  rw [h]
  exact hs harchived

theorem rest_or_arrives (hdeletion : w.metadata.deletionTimestamp = none)
    (huid : w.metadata.uid = some uid) (hresidency : w.spec.residency ≠ .Running)
    (hs : Stoppable w (statusAt read k)) (hwithin : Within log C k) :
    Rest rt options E w projects read log k ∨ Arrives rt options E w projects C := by
  rcases @stop_cases rt options E w projects C uid hdeletion huid hresidency with
    ⟨m, hreports⟩ | ⟨pod, hpod⟩
  · exact .inl (Rest.of_plain hreports hs hwithin fun _ _ hs hrecorded _ _ _ _ =>
      hs.of_recorded hrecorded)
  rcases @stopCompute_cases rt options E w C pod with ⟨result, m, hmakes⟩ | ⟨hdone, hmakes⟩ | harrives
  · refine .inl (Rest.of_plain (m := m) (A := Stoppable w) ?_ hs hwithin
      fun _ _ hs hrecorded _ _ _ _ => hs.of_recorded hrecorded)
    exact fun version s hs => hpod version s _ hs
      ((hmakes version s trivial).mono fun _ _ hend => hend.2)
  · by_cases hcompleted : CompletedStop w (statusAt read k)
    · refine .inl ⟨C, fun s => Stoppable w s ∧ CompletedStop w s, ⟨none, ?_, ?_⟩,
        ⟨hs, hcompleted⟩, hwithin⟩
      · exact fun version s hs => hpod version s _ hs.1 ((hdone version s hs.2).mono
          fun _ _ hend => hend.1)
      · rintro s phase message fields instant - ⟨⟩
    · refine .inl ⟨C, fun s => Stoppable w s ∧ ¬ CompletedStop w s,
        ⟨plain (some (.Pending, "Waiting for retained history reader to finish")), ?_, ?_⟩,
        ⟨hs, hcompleted⟩, hwithin⟩
      · exact fun version s hs => hpod version s _ hs.1 ((hmakes version s hs.2).mono
          fun _ _ hend => hend.2)
      · rintro s phase message fields instant hs ⟨⟩
        exact ⟨hs.1.of_recorded (by simp [recorded, statusOf]),
          by simp [CompletedStop, completedStop, statusOf]⟩
  · exact .inr fun version s Q hs hends => hpod version s Q hs (harrives version s _ hends)

/-- Stoppable statuses that say the same of the retention. -/
def Kept (w : Workspace) (since : Option String) (gone : Bool) (s : Option WorkspaceStatus) :
    Prop :=
  Stoppable w s ∧ archivedSince s = since ∧ (released s).isSome = gone

/-- The retention is not over, and since when it counts is on record. -/
theorem reports_kept {since : Option String} {gone : Bool}
    (harrives : Arrives rt options E w projects C)
    (hsince : w.spec.residency = .Archived → since.isSome = true)
    (hopen : ∀ instant, C instant →
      gone = true ∨ overdue rt w (since.getD (Iso.toISOString instant)) instant = false) :
    ∃ m, Reports rt options E w projects C (Kept w since gone) (plain m) := by
  refine ⟨some (if w.spec.residency = .Archived then .Archived else .Suspended,
    if gone then "Retention expired; owned storage released"
    else if ephemeral w then "Compute stopped; ephemeral data released"
    else "Compute stopped; storage retained"), fun version s hs => ?_⟩
  obtain ⟨hstop, rfl, rfl⟩ := hs
  refine harrives version s _ hstop (Ends.clock fun instant hinstant => ?_)
  have hexpired : ¬ expired rt { w with status := s }
      ((archivedSince s).getD (Iso.toISOString instant)) instant = true := by
    rw [expired_eq]
    rcases hopen instant hinstant with hgone | hdue
    · simp [Option.isNone_eq_false_iff.mpr hgone]
    · simp [hdue]
  have hfields : ¬ (w.spec.residency = .Archived ∧ (archivedSince s).isNone = true) := by
    rintro ⟨harchived, hnone⟩
    have hsome := hsince harchived
    rw [Option.isNone_iff_eq_none.mp hnone] at hsome
    cases hsome
  refine Ends.of_eq (if_neg hexpired) ?_
  simp only [if_neg hfields]
  exact ends_report.mono fun _ _ hend => hend.2

theorem Rest.of_kept {since : Option String} {gone : Bool}
    (harrives : Arrives rt options E w projects C)
    (hsince : w.spec.residency = .Archived → since.isSome = true)
    (hopen : ∀ instant, C instant →
      gone = true ∨ overdue rt w (since.getD (Iso.toISOString instant)) instant = false)
    (hin : Kept w since gone (statusAt read k)) (hwithin : Within log C k) :
    Rest rt options E w projects read log k := by
  obtain ⟨m, hreports⟩ := reports_kept harrives hsince hopen
  refine Rest.of_plain hreports hin hwithin fun s t hs hrecorded hsame hgone _ _ =>
    ⟨hs.1.of_recorded hrecorded, hsame.trans hs.2.1, ?_⟩
  rw [hgone]
  exact hs.2.2

/-- The retention is over. -/
theorem ends_expired {version : Nat} {s : Option WorkspaceStatus}
    {Q : List WorkspaceStatus → Except Err Unit → Prop} (hgone : released s = none)
    (h : ∀ instant, C instant →
      overdue rt w ((archivedSince s).getD (Iso.toISOString instant)) instant = true ∧
      Ends E w C (collectStorage rt options (reading w version s)
        ((archivedSince s).getD (Iso.toISOString instant)) instant) Q) :
    Ends E w C (stoppedFor rt options (reading w version s)) Q := by
  refine Ends.clock fun instant hinstant => ?_
  obtain ⟨hdue, hends⟩ := h instant hinstant
  have hexpired : expired rt { w with status := s }
      ((archivedSince s).getD (Iso.toISOString instant)) instant = true := by
    rw [expired_eq, hgone, hdue]
    rfl
  exact Ends.of_eq (if_pos hexpired) hends

/-- The pass that puts the time of archiving on record. -/
theorem ends_archived {version : Nat} {s : Option WorkspaceStatus}
    (harchived : w.spec.residency = .Archived) (hsince : archivedSince s = none)
    (hopen : ∀ instant, C instant →
      (released s).isSome = true ∨ overdue rt w (Iso.toISOString instant) instant = false) :
    Ends E w C (stoppedFor rt options (reading w version s)) fun ws _ =>
      ∃ value, ws = [value] ∧ (archivedSince (some value)).isSome = true ∧
        recorded (some value) = recorded s ∧ released (some value) = released s := by
  refine Ends.clock fun instant hinstant => ?_
  have hexpired : ¬ expired rt { w with status := s }
      ((archivedSince s).getD (Iso.toISOString instant)) instant = true := by
    rw [expired_eq, hsince]
    rcases hopen instant hinstant with hgone | hdue
    · simp [Option.isNone_eq_false_iff.mpr hgone]
    · simp [hdue]
  have hfields : w.spec.residency = .Archived ∧ (archivedSince s).isNone = true :=
    ⟨harchived, by simp [hsince]⟩
  refine Ends.of_eq (if_neg hexpired) ?_
  simp only [if_pos hfields]
  refine ends_report.mono fun ws _ hend => ?_
  obtain ⟨instant', rfl⟩ := hend.2.of_fields (by simp)
  exact ⟨_, rfl, by simp [archivedSince, statusOf], by simp [recorded, statusOf],
    by simp [released, statusOf]⟩

/-- The clock crosses no deadline, so the retention is over at all times or at none. -/
theorem Rounds.overdue_within (h : Rounds rt options E w projects first read log out)
    (hk : first ≤ k) {since : String} (hsince : archivedSince (statusAt read k) = some since) :
    ∃ due, Within log (fun instant => overdue rt w since instant = due) k := by
  by_cases hdue : ∃ j, k ≤ j ∧ ∃ instant ∈ instants (log j), overdue rt w since instant = true
  · obtain ⟨j, hj, instant, hinstant, hdue⟩ := hdue
    refine ⟨true, fun i hi instant' hinstant' => ?_⟩
    obtain ⟨harchived, ttl, httl, date, hdate, hover⟩ := overdue_iff.mp hdue
    refine overdue_iff.mpr ⟨harchived, ttl, httl, date, hdate, ?_⟩
    exact (h.deadline k hk since date ttl hsince hdate httl j hj i hi instant hinstant
      instant' hinstant').mp hover
  · refine ⟨false, fun i hi instant' hinstant' => Bool.eq_false_iff.mpr fun hnot => ?_⟩
    exact hdue ⟨i, hi, instant', hinstant', hnot⟩

/-- A retention that begins now is over at once or never. -/
theorem Rounds.overdue_now (h : Rounds rt options E w projects first read log out)
    (hk : first ≤ k) :
    ∃ due, Within log (fun instant => overdue rt w (Iso.toISOString instant) instant = due) k := by
  by_cases hdue : w.spec.residency = .Archived ∧
      w.spec.retentionPolicy.bind RetentionPolicy.ttlAfterArchivedSeconds = some 0
  · refine ⟨true, fun i hi instant hinstant => overdue_iff.mpr ⟨hdue.1, 0, hdue.2, instant, ?_, ?_⟩⟩
    · exact h.dates i (by omega) instant hinstant
    · simp
  · refine ⟨false, fun i hi instant hinstant => Bool.eq_false_iff.mpr fun hnot => hdue ?_⟩
    obtain ⟨harchived, ttl, httl, date, hdate, hover⟩ := overdue_iff.mp hnot
    cases (h.dates i (by omega) instant hinstant).symm.trans hdate
    obtain rfl : ttl = 0 := by omega
    exact ⟨harchived, httl⟩

section Stopping

variable (hdeletion : w.metadata.deletionTimestamp = none) (huid : w.metadata.uid = some uid)
  (hresidency : w.spec.residency ≠ .Running)

include hdeletion huid hresidency

/-- The storage is released. -/
theorem rest_released (hs : Stoppable w (statusAt read k))
    (hsince : (archivedSince (statusAt read k)).isSome = true)
    (hgone : (released (statusAt read k)).isSome = true) :
    Rest rt options E w projects read log k := by
  have hwithin : Within log (fun _ => True) k := Within.of_true fun _ => trivial
  rcases rest_or_arrives hdeletion huid hresidency hs hwithin with hrest | harrives
  · exact hrest
  · exact Rest.of_kept harrives (fun _ => hsince) (fun _ _ => .inl hgone) ⟨hs, rfl, rfl⟩ hwithin

/-- It is on record since when the workspace is archived. -/
theorem soon_archived (h : Rounds rt options E w projects first read log out) (hk : first ≤ k)
    (hs : Stoppable w (statusAt read k))
    (hsince : (archivedSince (statusAt read k)).isSome = true) :
    Soon rt options E w projects read log 1 k := by
  obtain ⟨since, hsince'⟩ := Option.isSome_iff_exists.mp hsince
  rcases hgone : released (statusAt read k) with _ | gone
  swap
  · exact (rest_released hdeletion huid hresidency hs hsince (by simp [hgone])).soon
  obtain ⟨due, hwithin⟩ := h.overdue_within hk hsince'
  rcases rest_or_arrives hdeletion huid hresidency hs hwithin with hrest | harrives
  · exact hrest.soon
  rcases due with _ | _
  · have hkept : Kept w (some since) false (statusAt read k) := ⟨hs, hsince', by simp [hgone]⟩
    exact (Rest.of_kept harrives (fun _ => by rfl) (fun _ hdue => .inr (by exact hdue)) hkept
      hwithin).soon
  have hover : ∀ version s (Q : List WorkspaceStatus → Prop), Stoppable w s →
      archivedSince s = some since → released s = none →
      (∀ instant, Ends E w (fun instant => overdue rt w since instant = true)
        (collectStorage rt options (reading w version s) since instant) fun ws _ => Q ws) →
      Ends E w (fun instant => overdue rt w since instant = true)
        (reconcile rt options (reading w version s) projects) fun ws _ => Q ws := by
    intro version s Q hstop hsame hnone hends
    refine harrives version s Q hstop (ends_expired hnone fun instant hinstant => ?_)
    rw [hsame]
    exact ⟨hinstant, hends instant⟩
  rcases @collectStorage_cases rt options E w (fun instant => overdue rt w since instant = true)
    with hthrows | hwaits | hreleases
  · refine Rest.soon ⟨_, fun s => Stoppable w s ∧ archivedSince s = some since ∧
      released s = none, ⟨none, ?_, ?_⟩, ⟨hs, hsince', hgone⟩, hwithin⟩
    · exact fun version s hs => hover version s _ hs.1 hs.2.1 hs.2.2 fun instant =>
        hthrows since instant version s
    · rintro s phase message fields instant - ⟨⟩
  · refine Rest.soon ⟨_, fun s => Stoppable w s ∧ archivedSince s = some since ∧
      released s = none, ⟨some (.Archived, "Waiting for owned storage deletion to finish",
        { archivedAt := some since }), ?_, ?_⟩, ⟨hs, hsince', hgone⟩, hwithin⟩
    · exact fun version s hs => hover version s _ hs.1 hs.2.1 hs.2.2 fun instant =>
        hwaits since instant version s
    · rintro s phase message fields instant hs ⟨⟩
      refine ⟨hs.1.of_recorded (by simp [recorded, statusOf]),
        by simp [archivedSince, statusOf], ?_⟩
      rw [← hs.2.2]
      simp [released, statusOf]
  · obtain ⟨value, hwritten, hsame, hgone', hrecorded⟩ := h.ends hk (hwithin k le_rfl)
      fun version => hover version _ _ hs hsince' hgone fun instant =>
        hreleases since instant version _
    have hstatus := h.wrote hk hwritten
    refine Soon.next (Rest.soon (n := 0) (rest_released hdeletion huid hresidency ?_ ?_ ?_)) <;>
      rw [hstatus]
    · exact hs.of_recorded hrecorded
    · simp [hsame]
    · exact hgone'

theorem soon_stoppable (h : Rounds rt options E w projects first read log out) (hk : first ≤ k)
    (hs : Stoppable w (statusAt read k)) : Soon rt options E w projects read log 2 k := by
  have htrue : Within log (fun _ => True) k := Within.of_true fun _ => trivial
  rcases hsince : archivedSince (statusAt read k) with _ | since
  swap
  · exact (soon_archived hdeletion huid hresidency h hk hs (by simp [hsince])).mono (by omega)
  by_cases harchived : w.spec.residency = .Archived
  swap
  · rcases rest_or_arrives hdeletion huid hresidency hs htrue with hrest | harrives
    · exact hrest.soon
    · refine (Rest.of_kept harrives (fun h => absurd h harchived) (fun instant _ => .inr ?_)
        ⟨hs, hsince, rfl⟩ htrue).soon
      exact Bool.eq_false_iff.mpr fun hdue => harchived (overdue_iff.mp hdue).1
  have hnext : ∀ value, written (log k) = [value] → (archivedSince (some value)).isSome = true →
      recorded (some value) = recorded (statusAt read k) →
      Soon rt options E w projects read log 2 k := by
    intro value hwritten hsome hrecorded
    have hstatus := h.wrote hk hwritten
    refine Soon.next (soon_archived hdeletion huid hresidency h (by omega) ?_ ?_) <;> rw [hstatus]
    · exact hs.of_recorded hrecorded
    · exact hsome
  rcases hgone : released (statusAt read k) with _ | gone
  swap
  · rcases rest_or_arrives hdeletion huid hresidency hs htrue with hrest | harrives
    · exact hrest.soon
    · obtain ⟨value, hwritten, hsome, hrecorded, -⟩ := h.ends hk (htrue k le_rfl) fun version =>
        harrives version _ _ hs (ends_archived harchived hsince fun _ _ => .inl (by simp [hgone]))
      exact hnext value hwritten hsome hrecorded
  obtain ⟨due, hwithin⟩ := h.overdue_now hk
  rcases rest_or_arrives hdeletion huid hresidency hs hwithin with hrest | harrives
  · exact hrest.soon
  rcases due with _ | _
  · obtain ⟨value, hwritten, hsome, hrecorded, -⟩ := h.ends hk (hwithin k le_rfl) fun version =>
      harrives version _ _ hs (ends_archived harchived hsince fun _ hdue => .inr hdue)
    exact hnext value hwritten hsome hrecorded
  have hover : ∀ version s (Q : List WorkspaceStatus → Prop), Stoppable w s →
      archivedSince s = none → released s = none →
      (∀ instant : Int, Ends E w
        (fun instant => overdue rt w (Iso.toISOString instant) instant = true)
        (collectStorage rt options (reading w version s) (Iso.toISOString instant) instant)
        fun ws _ => Q ws) →
      Ends E w (fun instant => overdue rt w (Iso.toISOString instant) instant = true)
        (reconcile rt options (reading w version s) projects) fun ws _ => Q ws := by
    intro version s Q hstop hsame hnone hends
    refine harrives version s Q hstop (ends_expired hnone fun instant hinstant => ?_)
    rw [hsame]
    exact ⟨hinstant, hends instant⟩
  have hpass : (∀ version, Ends E w
        (fun instant => overdue rt w (Iso.toISOString instant) instant = true)
        (reconcile rt options (reading w version (statusAt read k)) projects) fun ws _ =>
          ∃ value, ws = [value] ∧ (archivedSince (some value)).isSome = true ∧
            recorded (some value) = recorded (statusAt read k)) →
      Soon rt options E w projects read log 2 k := by
    intro hends
    obtain ⟨value, hwritten, hsome, hrecorded⟩ := h.ends hk (hwithin k le_rfl) hends
    exact hnext value hwritten hsome hrecorded
  rcases @collectStorage_cases rt options E w
    (fun instant => overdue rt w (Iso.toISOString instant) instant = true) with
    hthrows | hwaits | hreleases
  · refine Rest.soon ⟨_, fun s => Stoppable w s ∧ archivedSince s = none ∧ released s = none,
      ⟨none, ?_, ?_⟩, ⟨hs, hsince, hgone⟩, hwithin⟩
    · exact fun version s hs => hover version s _ hs.1 hs.2.1 hs.2.2 fun instant =>
        hthrows _ instant version s
    · rintro s phase message fields instant - ⟨⟩
  · refine hpass fun version => hover version _ _ hs hsince hgone fun instant =>
      (hwaits _ instant version _).mono fun ws _ hwrote => ?_
    obtain ⟨instant', rfl⟩ := hwrote.of_fields (by simp)
    exact ⟨_, rfl, by simp [archivedSince, statusOf], by simp [recorded, statusOf]⟩
  · refine hpass fun version => hover version _ _ hs hsince hgone fun instant =>
      (hreleases _ instant version _).mono fun ws _ hend => ?_
    obtain ⟨value, rfl, hsame, -, hrecorded⟩ := hend
    exact ⟨value, rfl, by simp [hsame], hrecorded⟩

end Stopping

/-- An archived workspace whose teardown is not on record. -/
theorem soon_unrecorded (h : Rounds rt options E w projects first read log out) (hk : first ≤ k)
    (hprojected : Projected rt) (hdeletion : w.metadata.deletionTimestamp = none)
    (huid : w.metadata.uid = some uid) (harchived : w.spec.residency = .Archived)
    (hs : recorded (statusAt read k) = none) :
    Soon rt options E w projects read log 3 k := by
  have htrue : ∀ j, Within log (fun _ => True) j := fun j => Within.of_true fun _ => trivial
  rcases @teardown_cases rt options E w projects (fun _ => True) uid hdeletion huid harchived with
    ⟨m, hreports⟩ | hrecords | ⟨hlost, hstart⟩
  · exact (Rest.of_plain hreports hs (htrue k) fun s t hs hrecorded _ _ _ _ =>
      hrecorded.trans hs).soon
  · obtain ⟨value, hwritten, hsome⟩ := h.ends hk (htrue k k le_rfl) fun version =>
      hrecords version _ hs
    refine Soon.next (soon_stoppable hdeletion huid (by simp [harchived]) h (by omega) ?_)
    rw [h.wrote hk hwritten]
    exact fun _ => hsome
  have hstarts : Starts rt E w (fun _ => True) fun read => start rt options read uid projects :=
    starts_start hprojected
  by_cases hephemeral : ephemeral w = true
  swap
  · exact (soon_of_starts h hk hstarts (fun version s Q hs => hstart version s Q hs fun heph =>
      absurd heph hephemeral) hs fun s t hs hrecorded _ => hrecorded.trans hs).mono (by omega)
  rcases hstatus : statusAt read k with _ | value
  · exact (soon_of_lost h hk hstarts (fun version Q => hstart version none Q rfl fun _ => rfl)
      (hlost hephemeral) hstatus).mono (by omega)
  · exact (Rest.of_plain (hlost hephemeral) ⟨hs, by simp [hstatus]⟩ (htrue k)
      fun s t hs hrecorded _ _ _ hsome => ⟨hrecorded.trans hs.1, hsome⟩).soon

theorem Rounds.soon (h : Rounds rt options E w projects first read log out)
    (hprojected : Projected rt) : Soon rt options E w projects read log 3 first := by
  have htrue : Within log (fun _ => True) first := Within.of_true fun _ => trivial
  have hquiet : Reports rt options E w projects (fun _ => True) (fun _ => True) (plain none) →
      Soon rt options E w projects read log 3 first := fun hreports =>
    (Rest.of_plain hreports trivial htrue fun _ _ _ _ _ _ _ _ => trivial).soon
  rcases hdeletion : w.metadata.deletionTimestamp with _ | deleted
  swap
  · refine hquiet fun version s _ => ?_
    simp only [reconcile, hdeletion, Option.isSome_some, if_true]
    exact Ends.ret rfl
  rcases huid : w.metadata.uid with _ | uid
  · refine hquiet fun version s _ => ?_
    simp only [reconcile, hdeletion, Option.isSome_none, Bool.false_eq_true, if_false, huid]
    exact Ends.fail rfl
  by_cases hrunning : w.spec.residency = .Running
  · have hstarts : Starts rt E w (fun _ => True) fun read => start rt options read uid projects :=
      starts_start hprojected
    exact (soon_of_starts (B := fun _ => True) h le_rfl hstarts (fun version s Q _ hends =>
      Ends.of_eq (reconcile_running hdeletion huid hrunning) hends) trivial
      fun _ _ _ _ _ => trivial).mono (by omega)
  by_cases hs : Stoppable w (statusAt read first)
  · exact (soon_stoppable hdeletion huid hrunning h le_rfl hs).mono (by omega)
  · obtain ⟨harchived, hrecorded⟩ := Classical.not_imp.mp hs
    exact soon_unrecorded h le_rfl hprojected hdeletion huid harchived
      (by simpa using hrecorded)

/-- From the fourth pass on that finds nothing changing but the status, a pass writes no status
    or the one it has read. -/
theorem reconcile_settles (h : Rounds rt options E w projects first read log out)
    (hprojected : Projected rt) {j : Nat} (hj : first + 4 ≤ j) :
    (read (j + 1)).workspace.status = (read j).workspace.status ∧
      ∀ value ∈ written (log j), some value = (read j).workspace.status := by
  obtain ⟨k, hk, hk3, hrest⟩ := h.soon hprojected
  exact hrest.still h hk (by omega)

end Settles

section Demo

def demoRuntime : Runtime where
  sha256 := fun text => text
  dateParse := fun text =>
    if text = "1970-01-01T00:00:00.000Z" then some 0
    else if text = "1970-01-01T00:00:05.000Z" then some 5000
    else none
  jsonParse := fun _ => none
  projectable := fun _ _ _ => true

/-- Nothing of the workspace is there any more. -/
def demoSurroundings : Surroundings where
  get := fun _ _ => .ok none
  create := fun _ => .ok ()
  delete := fun _ _ _ => .ok ()
  credentialProfile := fun _ => .ok none
  object := fun _ _ => .error (.store .notFound)
  teardown := .ok ()
  beforeArchive := .ok ()
  beforeSuspend := .ok ()
  purgeInventory := .ok ()
  currentGrant := fun _ => none
  issueWorkspaceToken := .ok ()
  compareAndSwapSecret := fun _ _ => .ok true
  others := []

/-- Before that its Pod was there and ready. -/
def demoPodThere : Surroundings :=
  { demoSurroundings with
    get := fun _ _ => .ok (some
      { uid := some "pod", workspaceUid := some "uid", conditions := [("Ready", "True")] }) }

/-- An archived workspace that keeps its storage for a second. -/
def demoWorkspace : Workspace where
  metadata := { name := "w", uid := some "uid" }
  spec := {
    projectRef := "p"
    displayName := "w"
    residency := .Archived
    credentialProfile := "c"
    retentionPolicy := some { storage := .Retain, ttlAfterArchivedSeconds := some 1 } }

/-- It is torn down, archived, and its storage released. -/
def demoStatus : Nat → Option WorkspaceStatus
  | 0 => none
  | 1 => some (statusOf demoRuntime demoWorkspace .Pending "Teardown completed; stopping compute"
      { teardownCompletedAt := some (Iso.toISOString 0) } (Iso.toISOString 0))
  | 2 => some (statusOf demoRuntime { demoWorkspace with status := demoStatus 1 } .Archived
      "Compute stopped; storage retained" { archivedAt := some (Iso.toISOString 0) }
      (Iso.toISOString 0))
  | _ + 3 => some (statusOf demoRuntime { demoWorkspace with status := demoStatus 2 } .Archived
      "Retention expired; owned storage released"
      { archivedAt := some (Iso.toISOString 0), storageDeletedAt := some (Iso.toISOString 5000) }
      (Iso.toISOString 5000))

def demoRead (k : Nat) : Read := reading demoWorkspace (min k 3) (demoStatus k)

def demoInstant (k : Nat) : Int := if k < 2 then 0 else 5000

def demoRun (k : Nat) : Option (PassLog × Except Err Unit) :=
  (reconcile demoRuntime {} (demoRead k) []).replay
    ((if k = 0 then demoPodThere else demoSurroundings).answer (demoInstant k))

def demoLog (k : Nat) : PassLog := (demoRun k).elim [] Prod.fst

theorem demoRun_again (k : Nat) : demoRun (k + 3) = demoRun 3 := by
  have hread : demoRead (k + 3) = demoRead 3 := by simp [demoRead, demoStatus]
  have hinstant : demoInstant (k + 3) = demoInstant 3 := by simp [demoInstant]
  simp only [demoRun, hread, hinstant, Nat.add_eq_zero_iff, OfNat.ofNat_ne_zero, and_false]

/-- Every pass ends, and writes the status that the next one reads. -/
theorem demoRun_ends (k : Nat) : (demoRun k).map (fun run => (run.2, after (demoStatus k)
    (written run.1))) = some (.ok (), demoStatus (k + 1)) := by
  obtain hk | rfl | rfl | rfl : 3 ≤ k ∨ k = 2 ∨ k = 1 ∨ k = 0 := by omega
  · obtain ⟨k, rfl⟩ := Nat.exists_eq_add_of_le' hk
    have hthree : (demoRun 3).map (fun run => (run.2, after (demoStatus 3) (written run.1))) =
        some (.ok (), demoStatus 4) := by decide +kernel
    have hstatus : demoStatus (k + 3) = demoStatus 3 := by simp [demoStatus]
    have hnext : demoStatus (k + 3 + 1) = demoStatus 4 := by simp [demoStatus]
    rw [demoRun_again, hstatus, hnext]
    exact hthree
  · decide +kernel
  · decide +kernel
  · decide +kernel

theorem demoRun_eq (k : Nat) : demoRun k = some (demoLog k, .ok ()) := by
  obtain ⟨run, hrun, hends⟩ := Option.map_eq_some_iff.mp (demoRun_ends k)
  have hout : run.2 = .ok () := (Prod.mk.inj hends).1
  rw [demoLog, hrun, ← hout]
  rfl

/-- The clock of a pass stands still. -/
theorem demo_instants {k : Nat} (hk : 0 < k) {instant : Int} (h : instant ∈ instants (demoLog k)) :
    instant = demoInstant k := by
  obtain ⟨event, hevent, hnow⟩ := List.mem_filterMap.mp h
  have hanswer := replay_answers (demoRun_eq k) event hevent
  rw [if_neg (Nat.ne_of_gt hk)] at hanswer
  split at hnow
  · cases hnow
    exact (Option.some.inj hanswer).symm
  · cases hnow

theorem demo_rounds : Rounds demoRuntime {} demoSurroundings demoWorkspace [] 1 demoRead demoLog
    fun _ => .ok () where
  workspace := fun _ _ => rfl
  pass := fun k _ => ran_replay (demoRun_eq k)
  answered := by
    intro k hk event hevent
    have hanswer := replay_answers (demoRun_eq k) event hevent
    rw [if_neg (Nat.ne_of_gt hk)] at hanswer
    exact Surroundings.answered hanswer
  next := by
    intro k _
    have hends := demoRun_ends k
    rw [demoRun_eq] at hends
    exact (Prod.mk.inj (Option.some.inj hends)).2.symm
  deadline := by
    intro k hk archivedAt date ttl hsince hdate httl i hi j hj instant hinstant instant' hinstant'
    have hlate : 2 ≤ k := by
      rcases Nat.eq_or_lt_of_le hk with rfl | hlt
      · have hnone : (demoRead 1).workspace.status.bind WorkspaceStatus.archivedAt = none := by
          decide +kernel
        rw [hnone] at hsince
        cases hsince
      · exact hlt
    rw [demo_instants (by omega) hinstant, demo_instants (by omega) hinstant', demoInstant,
      demoInstant, if_neg (by omega), if_neg (by omega)]
  dates := by
    intro k hk instant hinstant
    rw [demo_instants hk hinstant, demoInstant]
    split <;> rfl

/-- A pass tears the workspace down; then its Pod is gone, and the passes that follow archive
    it, release its storage and settle. -/
theorem reconcile_settles_demo :
    Ran (reconcile demoRuntime {} (demoRead 0) []) (demoLog 0) (.ok ()) ∧
      recorded (demoRead 1).workspace.status = some "1970-01-01T00:00:00.000Z" ∧
      archivedSince (demoRead 2).workspace.status = some "1970-01-01T00:00:00.000Z" ∧
      released (demoRead 3).workspace.status = some "1970-01-01T00:00:05.000Z" ∧
      (demoRead 6).workspace.status = (demoRead 5).workspace.status ∧
      ∀ value ∈ written (demoLog 5), some value = (demoRead 5).workspace.status :=
  ⟨ran_replay (demoRun_eq 0), by decide +kernel, by decide +kernel, by decide +kernel,
    reconcile_settles demo_rounds (fun _ _ _ _ => rfl) (j := 5) le_rfl⟩

end Demo

end PaseoGateway.Controller

/-
  PaseoGateway/ControllerPasses.lean
  ==================================
  **A pass of the controller when nothing but the status changes.**

  `Surroundings` is a cluster that has stopped changing: each request of a pass has one
  answer, whatever the status of the workspace says.  `Quiet` parts only look; a `Gate` lets
  the pass go on, throws, or reports why not; a start then makes one and the same report
  unless the last failure on record is another one than the Pod shows (`starts_start`).
-/
import PaseoGateway.AsyncRuns
import PaseoGateway.Controller

namespace PaseoGateway.Controller

open Async Prog Cluster

abbrev PassLog : Type := List (Event sys.iface)

/-- What a pass is answered once nothing but the status changes any more. -/
structure Surroundings where
  get : Kind → String → Except Err (Option Infrastructure)
  create : Desired → Except Err Unit
  delete : Kind → String → String → Except Err Unit
  credentialProfile : String → Except Err (Option CredentialProfile)
  object : ReferenceKind → String → Except Err (List (String × String))
  teardown : Except Err Unit
  beforeArchive : Except Err Unit
  beforeSuspend : Except Err Unit
  purgeInventory : Except Err Unit
  currentGrant : String → Option WorkspaceClaims
  issueWorkspaceToken : Except Err Unit
  compareAndSwapSecret : Option String → Desired → Except Err Bool
  /-- the other workspaces -/
  others : List Read

/-- A grant that has run out is renewed whenever that is tried. -/
structure Surroundings.Renews (E : Surroundings) : Prop where
  issued : E.issueWorkspaceToken = .ok ()
  written : ∀ version object, E.compareAndSwapSecret version object = .ok true

/-- The statuses that a pass has written. -/
def written (log : PassLog) : List WorkspaceStatus :=
  log.filterMap fun
    | ⟨.store (.update _ _ workspace), _⟩ => workspace.status
    | _ => none

def instants (log : PassLog) : List Int :=
  log.filterMap fun
    | ⟨.ext .now, instant⟩ => some instant
    | _ => none

theorem written_append (log log' : PassLog) : written (log ++ log') = written log ++ written log' :=
  List.filterMap_append

/-- The listing of the workspaces without the one of the pass. -/
def besides (w : Workspace) (rows : List Read) : List Read :=
  rows.filter fun row => row.workspace.metadata.name != w.metadata.name

/-- An event of a pass in these surroundings, the clock within `C`.  Where a grant is renewed
    it may run out between two passes. -/
def Answers (E : Surroundings) (w : Workspace) (C : Int → Prop) : Event sys.iface → Prop
  | ⟨.store (.list _), r⟩ =>
    ∃ rows, r = .ok rows ∧ besides w (rows.map fun row => ⟨row.version, row.value⟩) = E.others
  | ⟨.store (.update _ _ _), r⟩ => ∃ version, r = .ok version
  | ⟨.store _, _⟩ => True
  | ⟨.ext .now, instant⟩ => C instant
  | ⟨.ext (.get kind name), r⟩ => r = E.get kind name
  | ⟨.ext (.create object), r⟩ => r = E.create object
  | ⟨.ext (.delete kind name uid), r⟩ => r = E.delete kind name uid
  | ⟨.ext (.credentialProfile name), r⟩ => r = E.credentialProfile name
  | ⟨.ext (.object kind name), r⟩ => r = E.object kind name
  | ⟨.ext (.exec _), r⟩ => r = E.teardown
  | ⟨.ext (.snapshotInventory _), r⟩ => r = E.beforeArchive
  | ⟨.ext (.beforeSuspend _), r⟩ => r = E.beforeSuspend
  | ⟨.ext (.purgeInventory _), r⟩ => r = E.purgeInventory
  | ⟨.ext (.currentGrant token), r⟩ => r = E.currentGrant token ∨ E.Renews
  | ⟨.ext (.issueWorkspaceToken _), r⟩ => r = E.issueWorkspaceToken
  | ⟨.ext (.compareAndSwapSecret version object), r⟩ => r = E.compareAndSwapSecret version object
  | ⟨.ext _, _⟩ => True

/-- What the surroundings answer at one instant, where no workspaces are listed. -/
def Surroundings.answer (E : Surroundings) (instant : Int) :
    (q : sys.iface.Req) → Option (sys.iface.Res q)
  | .store (.update _ version _) => some (.ok (version + 1))
  | .store _ => none
  | .ext .now => some instant
  | .ext (.get kind name) => some (E.get kind name)
  | .ext (.create object) => some (E.create object)
  | .ext (.delete kind name uid) => some (E.delete kind name uid)
  | .ext (.credentialProfile name) => some (E.credentialProfile name)
  | .ext (.object kind name) => some (E.object kind name)
  | .ext (.exec _) => some E.teardown
  | .ext (.snapshotInventory _) => some E.beforeArchive
  | .ext (.beforeSuspend _) => some E.beforeSuspend
  | .ext (.purgeInventory _) => some E.purgeInventory
  | .ext (.currentGrant token) => some (E.currentGrant token)
  | .ext (.issueWorkspaceToken _) => some E.issueWorkspaceToken
  | .ext (.compareAndSwapSecret version object) => some (E.compareAndSwapSecret version object)
  | .ext _ => none

theorem Surroundings.answered {E : Surroundings} {w : Workspace} {instant : Int}
    {event : Event sys.iface} (h : E.answer instant event.1 = some event.2) :
    Answers E w (fun _ => True) event := by
  obtain ⟨q, r⟩ := event
  cases q with
  | store q =>
    cases q with
    | list => cases h
    | update _ version _ => exact ⟨version + 1, (Option.some.inj h).symm⟩
    | _ => trivial
  | ext x =>
    cases x with
    | currentGrant token => exact .inl (Option.some.inj h).symm
    | pass | now | projects | delay | stuck => trivial
    | _ => exact (Option.some.inj h).symm

/-- The workspace with this status, as one pass reads it. -/
abbrev reading (w : Workspace) (version : Nat) (s : Option WorkspaceStatus) : Read :=
  ⟨version, { w with status := s }⟩

/-! ### What a pass ends in -/

section Ends

variable {E : Surroundings} {w : Workspace} {C : Int → Prop} {α β : Type}

/-- Every run of `p` in these surroundings writes and returns as `Q` says. -/
def Ends (E : Surroundings) (w : Workspace) (C : Int → Prop) (p : sys.Task α)
    (Q : List WorkspaceStatus → Except Err α → Prop) : Prop :=
  Always (Answers E w C) p fun log out => Q (written log) out

variable {Q Q' : List WorkspaceStatus → Except Err α → Prop}
  {R : List WorkspaceStatus → Except Err β → Prop}

theorem Ends.ret {a : α} (h : Q [] (.ok a)) : Ends E w C (.ret a) Q := Always.ret h

theorem Ends.fail {e : Err} (h : Q [] (.error e)) : Ends E w C (.fail e : sys.Task α) Q :=
  Always.fail h

theorem Ends.bind {p : sys.Task α} {f : α → sys.Task β} (hp : Ends E w C p Q)
    (herror : ∀ ws e, Q ws (.error e) → R ws (.error e))
    (hok : ∀ ws a, Q ws (.ok a) → Ends E w C (f a) fun ws' out => R (ws ++ ws') out) :
    Ends E w C (p >>= f) R := by
  refine Always.bind hp (fun log e h => herror _ e h) fun log a h => ?_
  refine Always.mono (hok _ a h) fun log' out h' => ?_
  rw [written_append]
  exact h'

theorem Ends.mono {p : sys.Task α} (hp : Ends E w C p Q) (hQ : ∀ ws out, Q ws out → Q' ws out) :
    Ends E w C p Q' :=
  Always.mono hp fun _ _ h => hQ _ _ h

theorem Ends.of_eq {p q : sys.Task α} (h : p = q) (hq : Ends E w C q Q) : Ends E w C p Q := h ▸ hq

/-- A request that writes nothing. -/
theorem Ends.request {x : Ext} {k : x.Res → sys.Task α}
    (h : ∀ r, Answers E w C ⟨.ext x, r⟩ → Ends E w C (k r) Q) :
    Ends E w C (.call (.ext x) k) Q :=
  Always.call fun r hr => h r hr

theorem Ends.clock {f : Int → sys.Task α} (h : ∀ instant, C instant → Ends E w C (f instant) Q) :
    Ends E w C (now >>= f) Q :=
  Ends.request h

/-- `p` comes to `out` and writes nothing. -/
def Gives (E : Surroundings) (w : Workspace) (C : Int → Prop) (p : sys.Task α)
    (out : Except Err α) : Prop :=
  Ends E w C p fun ws o => ws = [] ∧ o = out

theorem Gives.seq {p : sys.Task α} {f : α → sys.Task β} {a : α} (hp : Gives E w C p (.ok a))
    (hf : Ends E w C (f a) R) : Ends E w C (p >>= f) R := by
  refine Ends.bind hp (fun ws e h => nomatch h.2) fun ws a' h => ?_
  obtain ⟨rfl, heq⟩ := h
  obtain rfl := Except.ok.inj heq
  exact hf

theorem Gives.throws {p : sys.Task α} {f : α → sys.Task β} {e : Err}
    (hp : Gives E w C p (.error e)) (h : R [] (.error e)) : Ends E w C (p >>= f) R := by
  refine Ends.bind hp (fun ws e' h' => ?_) fun ws a h' => nomatch h'.2
  obtain ⟨rfl, heq⟩ := h'
  obtain rfl := Except.error.inj heq
  exact h

theorem Gives.attempt {p : sys.Task α} {out : Except Err α} (hp : Gives E w C p out) :
    Gives E w C p.attempt (.ok out) :=
  Always.attempt hp fun _ _ h => ⟨h.1, congrArg Except.ok h.2⟩

theorem gives_askOr {x : Ext} (hx : x.Res = Except Err α) {out : Except Err α}
    (h : ∀ r, Answers E w C ⟨.ext x, r⟩ → (hx ▸ r : Except Err α) = out) :
    Gives E w C (askOr (S := sys) x hx) out := by
  refine Ends.request fun r hr => ?_
  rw [h r hr]
  rcases out with e | a
  · exact Ends.fail ⟨rfl, rfl⟩
  · exact Ends.ret ⟨rfl, rfl⟩

/-! ### The parts that only look -/

/-- Whatever the status, `p` comes to the same and writes nothing. -/
def Quiet (E : Surroundings) (w : Workspace) (C : Int → Prop) (p : Read → sys.Task α) : Prop :=
  ∃ out, ∀ version s, Gives E w C (p (reading w version s)) out

theorem Quiet.ret {a : α} : Quiet E w C fun _ => .ret a :=
  ⟨.ok a, fun _ _ => Ends.ret ⟨rfl, rfl⟩⟩

theorem Quiet.fail {e : Err} : Quiet E w C fun _ => (.fail e : sys.Task α) :=
  ⟨.error e, fun _ _ => Ends.fail ⟨rfl, rfl⟩⟩

theorem Quiet.bind {p : Read → sys.Task α} {f : Read → α → sys.Task β} (hp : Quiet E w C p)
    (hf : ∀ a, Quiet E w C fun read => f read a) : Quiet E w C fun read => p read >>= f read := by
  obtain ⟨out, hout⟩ := hp
  rcases out with e | a
  · exact ⟨.error e, fun version s => (hout version s).throws ⟨rfl, rfl⟩⟩
  · obtain ⟨out, hout'⟩ := hf a
    exact ⟨out, fun version s => (hout version s).seq (hout' version s)⟩

theorem Quiet.congr {p q : Read → sys.Task α} (hq : Quiet E w C q)
    (h : ∀ version s, p (reading w version s) = q (reading w version s)) : Quiet E w C p := by
  obtain ⟨out, hout⟩ := hq
  refine ⟨out, fun version s => ?_⟩
  rw [h]
  exact hout version s

/-- A test that does not look at the status. -/
theorem Quiet.test {c : Read → Prop} [DecidablePred c] {p q : Read → sys.Task α} (known : Prop)
    (hc : ∀ version s, c (reading w version s) ↔ known) (hp : known → Quiet E w C p)
    (hq : ¬ known → Quiet E w C q) :
    Quiet E w C fun read => if c read then p read else q read := by
  by_cases h : known
  · exact (hp h).congr fun version s => if_pos ((hc version s).mpr h)
  · exact (hq h).congr fun version s => if_neg fun hcase => h ((hc version s).mp hcase)

theorem Quiet.ite {c : Prop} [Decidable c] {p q : Read → sys.Task α} (hp : c → Quiet E w C p)
    (hq : ¬ c → Quiet E w C q) : Quiet E w C fun read => if c then p read else q read :=
  Quiet.test c (fun _ _ => Iff.rfl) hp hq

theorem quiet_get {kind : Kind} {name : String} : Quiet E w C fun _ => get kind name :=
  ⟨E.get kind name, fun _ _ => gives_askOr rfl fun _ h => h⟩

/-- The name an object of the workspace has does not change with the status. -/
theorem quiet_getOwn {rt : Runtime} {kind : Kind} :
    Quiet E w C fun read => get kind (resourceName rt read.workspace) :=
  ⟨E.get kind (resourceName rt w), fun _ _ => gives_askOr rfl fun _ h => h⟩

theorem quiet_delete {kind : Kind} {name uid : String} :
    Quiet E w C fun _ => delete kind name uid :=
  ⟨E.delete kind name uid, fun _ _ => gives_askOr rfl fun _ h => h⟩

theorem quiet_deleteLive {kind : Kind} {name : String} {resource : Option Infrastructure} :
    Quiet E w C fun _ => deleteLive kind name resource := by
  unfold deleteLive
  split
  · exact quiet_delete
  · exact Quiet.ret

variable {rt : Runtime} {options : Options}

theorem quiet_deleteRuntime : Quiet E w C fun _ => deleteRuntime rt w := by
  refine Quiet.ite (fun _ => Quiet.fail) fun _ => ?_
  refine Quiet.bind quiet_get fun service => Quiet.bind quiet_get fun secret => ?_
  refine Quiet.ite (fun _ => Quiet.fail) fun _ => ?_
  refine Quiet.bind quiet_deleteLive fun _ => Quiet.bind quiet_deleteLive fun _ => ?_
  refine Quiet.bind quiet_get fun left => ?_
  rcases left with _ | _
  · exact Quiet.bind quiet_get fun _ => Quiet.ret
  · exact Quiet.ret

theorem quiet_teardown : Quiet E w C fun read => teardown rt read.workspace := by
  refine Quiet.bind quiet_getOwn fun pod => ?_
  rcases pod with _ | pod
  · exact Quiet.fail
  · exact Quiet.test (pod.workspaceUid ≠ w.metadata.uid) (fun _ _ => Iff.rfl)
      (fun _ => Quiet.fail) fun _ => ⟨E.teardown, fun _ _ => gives_askOr rfl fun _ h => h⟩

theorem quiet_tearDown : Quiet E w C fun read => tearDown rt options read.workspace := by
  refine Quiet.bind ?_ fun _ => quiet_teardown
  exact Quiet.ite (fun _ => ⟨E.beforeArchive, fun _ _ => gives_askOr rfl fun _ h => h⟩)
    fun _ => Quiet.ret

theorem quiet_ensure {kind : Kind} {uid : String} : Quiet E w C fun read =>
    ensure rt ⟨kind, resourceName rt read.workspace, uid⟩ read.workspace := by
  refine Quiet.bind quiet_getOwn fun existing => ?_
  rcases existing with _ | existing
  · have hcreate : Quiet E w C fun read => create ⟨kind, resourceName rt read.workspace, uid⟩ :=
      ⟨E.create ⟨kind, resourceName rt w, uid⟩, fun _ _ => gives_askOr rfl fun _ h => h⟩
    exact Quiet.bind hcreate fun _ => Quiet.ret
  · exact Quiet.test (existing.workspaceUid ≠ w.metadata.uid) (fun _ _ => Iff.rfl)
      (fun _ => Quiet.fail) fun _ => Quiet.ret

end Ends

/-! ### What a pass reports -/

abbrev Made : Type := Option (Phase × String × Fields)

/-- A report without fields, or none. -/
def plain (made : Option (Phase × String)) : Made := made.map fun m => (m.1, m.2, {})

/-- What is written for a report. -/
def Wrote (rt : Runtime) (workspace : Workspace) : Made → List WorkspaceStatus → Prop
  | none, ws => ws = []
  | some (phase, message, fields), ws =>
    reported workspace phase message fields = true ∧ ws = [] ∨
    reported workspace phase message fields = false ∧ ∃ instant : Int,
      ws = [statusOf rt workspace phase message fields (Iso.toISOString instant)]

/-- A report with fields is always written. -/
theorem reported_eq_false {workspace : Workspace} {phase : Phase} {message : String}
    {fields : Fields} (h : fields ≠ {}) : reported workspace phase message fields = false := by
  have hfields : (fields == {}) = false := beq_eq_false_iff_ne.mpr h
  rcases hstatus : workspace.status with _ | s <;> simp [reported, hstatus, hfields]

theorem Wrote.of_fields {rt : Runtime} {workspace : Workspace} {phase : Phase} {message : String}
    {fields : Fields} {ws : List WorkspaceStatus}
    (h : Wrote rt workspace (some (phase, message, fields)) ws) (hfields : fields ≠ {}) :
    ∃ instant : Int,
      ws = [statusOf rt workspace phase message fields (Iso.toISOString instant)] := by
  rcases h with ⟨hreported, -⟩ | ⟨-, hwritten⟩
  · rw [reported_eq_false hfields] at hreported
    cases hreported
  · exact hwritten

/-- On the statuses in `A`, `p` comes to the same and makes the same report. -/
def Says (rt : Runtime) (E : Surroundings) (w : Workspace) (C : Int → Prop)
    (A : Option WorkspaceStatus → Prop) {α : Type} (p : Read → sys.Task α) (out : Except Err α)
    (made : Made) : Prop :=
  ∀ version s, A s → Ends E w C (p (reading w version s)) fun ws o =>
    o = out ∧ Wrote rt { w with status := s } made ws

section Reports

variable {rt : Runtime} {options : Options} {E : Surroundings} {w : Workspace} {C : Int → Prop}
  {A B : Option WorkspaceStatus → Prop} {α β : Type} {phase : Phase} {message : String}
  {fields : Fields} {made : Made}

theorem ends_report {version : Nat} {s : Option WorkspaceStatus} :
    Ends E w C (report rt (reading w version s) phase message fields) fun ws o =>
      o = .ok () ∧ Wrote rt { w with status := s } (some (phase, message, fields)) ws := by
  unfold report
  split
  · next hreported => exact Ends.ret ⟨rfl, .inl ⟨hreported, rfl⟩⟩
  · next hreported =>
    refine Ends.clock fun instant _ => Always.call fun r hr => ?_
    obtain ⟨n, rfl⟩ := hr
    exact Always.ret ⟨rfl, .inr ⟨by simpa using hreported, instant, rfl⟩⟩

theorem says_report : Says rt E w C A (fun read => report rt read phase message fields) (.ok ())
    (some (phase, message, fields)) :=
  fun _ _ _ => ends_report

theorem Quiet.silent {p : Read → sys.Task α} {out : Except Err α}
    (h : ∀ version s, Gives E w C (p (reading w version s)) out) : Says rt E w C A p out none :=
  fun version s _ => (h version s).mono fun _ _ hend => ⟨hend.2, hend.1⟩

theorem Says.mono {p : Read → sys.Task α} {out : Except Err α} (h : Says rt E w C A p out made)
    (hA : ∀ s, B s → A s) : Says rt E w C B p out made :=
  fun version s hs => h version s (hA s hs)

theorem Says.congr {p q : Read → sys.Task α} {out : Except Err α}
    (hq : Says rt E w C A q out made)
    (h : ∀ version s, A s → p (reading w version s) = q (reading w version s)) :
    Says rt E w C A p out made := by
  intro version s hs
  rw [h version s hs]
  exact hq version s hs

/-- After a report nothing more is written. -/
theorem Says.andThen {p : Read → sys.Task α} {f : Read → α → sys.Task β} {a : α}
    {out : Except Err β} (hp : Says rt E w C A p (.ok a) made)
    (hf : ∀ version s, A s → Gives E w C (f (reading w version s) a) out) :
    Says rt E w C A (fun read => p read >>= f read) out made := by
  intro version s hs
  refine Ends.bind (hp version s hs) (fun ws e h => nomatch h.1) fun ws a' h => ?_
  obtain ⟨heq, hwrote⟩ := h
  obtain rfl := Except.ok.inj heq
  refine (hf version s hs).mono fun ws' out' h' => ?_
  obtain ⟨rfl, rfl⟩ := h'
  exact ⟨rfl, by rwa [List.append_nil]⟩

theorem Says.seq {p : Read → sys.Task α} {f : Read → α → sys.Task β} {a : α}
    {out : Except Err β} (hp : ∀ version s, A s → Gives E w C (p (reading w version s)) (.ok a))
    (hf : Says rt E w C A (fun read => f read a) out made) :
    Says rt E w C A (fun read => p read >>= f read) out made :=
  fun version s hs => (hp version s hs).seq (hf version s hs)

theorem Says.throws {p : Read → sys.Task α} {f : Read → α → sys.Task β} {e : Err}
    (hp : ∀ version s, A s → Gives E w C (p (reading w version s)) (.error e)) :
    Says rt E w C A (fun read => p read >>= f read) (.error e) none :=
  fun version s hs => (hp version s hs).throws ⟨rfl, rfl⟩

/-! ### Checks before a start -/

/-- A check that lets the pass go on, throws, or reports why not. -/
def Gate (rt : Runtime) (E : Surroundings) (w : Workspace) (C : Int → Prop)
    (p : Read → sys.Task Bool) : Prop :=
  Quiet E w C p ∨ ∃ phase message,
    Says rt E w C (fun _ => True) p (.ok false) (plain (some (phase, message)))

theorem Gate.refuse : Gate rt E w C fun read => report rt read phase message >>= fun _ =>
    .ret false :=
  .inr ⟨phase, message, says_report.andThen fun _ _ _ => Ends.ret ⟨rfl, rfl⟩⟩

theorem Gate.bind {p : Read → sys.Task α} {f : Read → α → sys.Task Bool} (hp : Quiet E w C p)
    (hf : ∀ a, Gate rt E w C fun read => f read a) :
    Gate rt E w C fun read => p read >>= f read := by
  obtain ⟨out, hout⟩ := hp
  rcases out with e | a
  · exact .inl ⟨.error e, fun version s => (hout version s).throws ⟨rfl, rfl⟩⟩
  · rcases hf a with ⟨out, hout'⟩ | ⟨phase, message, hmakes⟩
    · exact .inl ⟨out, fun version s => (hout version s).seq (hout' version s)⟩
    · exact .inr ⟨phase, message, Says.seq (fun version s _ => hout version s) hmakes⟩

theorem Gate.ite {c : Prop} [Decidable c] {p q : Read → sys.Task Bool}
    (hp : c → Gate rt E w C p) (hq : ¬ c → Gate rt E w C q) :
    Gate rt E w C fun read => if c then p read else q read := by
  by_cases hc : c
  · simpa only [if_pos hc] using hp hc
  · simpa only [if_neg hc] using hq hc

theorem gate_checkReferences {profile : CredentialProfile}
    {references : List CredentialReference} :
    Gate rt E w C fun read => checkReferences rt read profile references := by
  induction references with
  | nil => exact .inl Quiet.ret
  | cons reference rest ih =>
    refine Gate.bind ⟨E.object reference.kind reference.name, fun _ _ =>
      gives_askOr rfl fun _ h => h⟩ fun data => ?_
    exact Gate.ite (fun _ => Gate.refuse) fun _ => Gate.ite (fun _ => Gate.refuse) fun _ => ih

theorem gate_checkCredentials {profile : Option CredentialProfile} :
    Gate rt E w C fun read => checkCredentials rt read profile := by
  rcases profile with _ | profile
  · refine Gate.bind ⟨E.object .Secret w.spec.credentialProfile, fun _ _ =>
      gives_askOr rfl fun _ h => h⟩ fun data => ?_
    exact Gate.ite (fun _ => Gate.refuse) fun _ => .inl Quiet.ret
  · exact gate_checkReferences

theorem gate_credentialsUsable {profile : Option CredentialProfile} :
    Gate rt E w C fun read => credentialsUsable rt read profile := by
  have hcheck : Gate rt E w C fun read => checkCredentials rt read profile := gate_checkCredentials
  rcases hcheck with ⟨out, hout⟩ | ⟨phase, message, hmakes⟩
  · refine Gate.bind ⟨.ok out, fun version s => (hout version s).attempt⟩ fun result => ?_
    rcases result with e | usable
    · exact Gate.ite (fun _ => .inl Quiet.fail) fun _ => Gate.refuse
    · exact .inl Quiet.ret
  · refine .inr ⟨phase, message, ?_⟩
    have hattempt : Says rt E w C (fun _ => True)
        (fun read => (checkCredentials rt read profile).attempt) (.ok (.ok false))
        (plain (some (phase, message))) := fun version s hs =>
      Always.attempt (hmakes version s hs) fun _ _ h => ⟨congrArg Except.ok h.1, h.2⟩
    exact hattempt.andThen fun _ _ _ => Ends.ret ⟨rfl, rfl⟩

theorem ends_workspaces {f : List Read → sys.Task α}
    {Q : List WorkspaceStatus → Except Err α → Prop}
    (h : ∀ rows, besides w rows = E.others → Ends E w C (f rows) Q) :
    Ends E w C (workspaces >>= f) Q := by
  refine Always.call fun r hr => ?_
  obtain ⟨rows, rfl, hrows⟩ := hr
  exact h _ hrows

/-- The pass skips its own workspace. -/
theorem countOthers_besides {s : Option WorkspaceStatus} {project : Project} {rows : List Read}
    {total perProject : Nat} :
    countOthers rt { w with status := s } project rows total perProject =
      countOthers rt w project (besides w rows) total perProject := by
  induction rows generalizing total perProject with
  | nil => rfl
  | cons other rest ih =>
    by_cases hown : other.workspace.metadata.name = w.metadata.name
    · have hskip : besides w (other :: rest) = besides w rest := by simp [besides, hown]
      rw [hskip, countOthers, if_pos hown, ih]
    · have hkeep : besides w (other :: rest) = other :: besides w rest := by simp [besides, hown]
      rw [hkeep, countOthers, countOthers, if_neg hown, if_neg hown]
      congr 1
      funext found
      rcases found with _ | _ <;> exact ih

theorem quiet_countOthers {project : Project} {rows : List Read} {total perProject : Nat} :
    Quiet E w C fun _ => countOthers rt w project rows total perProject := by
  induction rows generalizing total perProject with
  | nil => exact Quiet.ret
  | cons other rest ih =>
    refine Quiet.ite (fun _ => ih) fun _ => Quiet.bind quiet_get fun found => ?_
    rcases found with _ | _ <;> exact ih

theorem gate_admission {uid : String} {project : Project} :
    Gate rt E w C fun read => admission rt options read uid project := by
  refine Gate.bind quiet_get fun reader => ?_
  rcases reader with _ | reader
  swap
  · exact Gate.ite (fun _ => .inl Quiet.fail) fun _ => Gate.refuse
  have hothers : Gate rt E w C fun read =>
      countOthers rt w project E.others 0 0 >>= fun counted =>
        if options.namespaceLimit.any (· ≤ counted.1) ∨
            project.maxRunningWorkspaces.any (· ≤ counted.2) then
          report rt read .Pending "Workspace capacity reached; waiting for a slot" >>= fun _ =>
            .ret false
        else .ret true :=
    Gate.bind quiet_countOthers fun counted =>
      Gate.ite (fun _ => Gate.refuse) fun _ => .inl Quiet.ret
  rcases hothers with ⟨out, hout⟩ | ⟨phase, message, hmakes⟩
  · refine .inl ⟨out, fun version s => ends_workspaces fun rows hrows => ?_⟩
    show Ends E w C (countOthers rt { w with status := s } project rows 0 0 >>= _) _
    rw [countOthers_besides, hrows]
    exact hout version s
  · refine .inr ⟨phase, message, fun version s hs => ends_workspaces fun rows hrows => ?_⟩
    show Ends E w C (countOthers rt { w with status := s } project rows 0 0 >>= _) _
    rw [countOthers_besides, hrows]
    exact hmakes version s hs

theorem gate_admitted {uid : String} {project : Project} {pod : Option Infrastructure} :
    Gate rt E w C fun read => admitted rt options read uid project pod := by
  by_cases hstart : pod.isNone ∧ w.spec.residency = .Running
  · have hadmission : Gate rt E w C fun read => admission rt options read uid project :=
      gate_admission
    rcases hadmission with ⟨out, hout⟩ | ⟨phase, message, hmakes⟩
    · refine .inl ⟨out, fun version s => ?_⟩
      simp only [admitted, if_pos hstart]
      exact hout version s
    · refine .inr ⟨phase, message, fun version s hs => ?_⟩
      simp only [admitted, if_pos hstart]
      exact hmakes version s hs
  · refine .inl ⟨.ok true, fun version s => ?_⟩
    simp only [admitted, if_neg hstart]
    exact Ends.ret ⟨rfl, rfl⟩

/-! ### The report on the Pod -/

/-- What is said of a Pod whose failure is not new. -/
def reportState (rt : Runtime) (read : Read) (pod : Option Infrastructure) : sys.Task Unit :=
  let ready := pod.any fun p => p.deletionTimestamp.isNone && p.ready
  if pod.any fun p => p.phase == some "Succeeded" || p.phase == some "Failed" then
    if ephemeral read.workspace then
      report rt read .Failed
        "Ephemeral workspace pod terminated; automatic replacement would lose history"
    else do
      deleteLive .Pod (resourceName rt read.workspace) pod
      report rt read .Pending "Replacing terminated pod; storage retained"
  else
    report rt read (if ready then .Ready else .Pending)
      (if ready then "Workspace daemon is ready" else "Waiting for workspace daemon")

/-- On the statuses in `A` the report is the same one and adds no field. -/
def Plain (rt : Runtime) (E : Surroundings) (w : Workspace) (C : Int → Prop)
    (A : Option WorkspaceStatus → Prop) (p : Read → sys.Task Unit) : Prop :=
  ∃ out report, Says rt E w C A p out (plain report)

theorem Plain.report (phase : Phase) (message : String) :
    Plain rt E w C A fun read => report rt read phase message :=
  ⟨_, some (phase, message), says_report⟩

theorem Plain.quiet {p : Read → sys.Task Unit} (h : Quiet E w C p) : Plain rt E w C A p := by
  obtain ⟨out, hout⟩ := h
  exact ⟨out, none, Quiet.silent hout⟩

theorem Plain.congr {p q : Read → sys.Task Unit} (hq : Plain rt E w C A q)
    (h : ∀ version s, A s → p (reading w version s) = q (reading w version s)) :
    Plain rt E w C A p := by
  obtain ⟨out, report, hmakes⟩ := hq
  exact ⟨out, report, hmakes.congr h⟩

theorem Plain.bind {p : Read → sys.Task α} {f : Read → α → sys.Task Unit} (hp : Quiet E w C p)
    (hf : ∀ a, Plain rt E w C A fun read => f read a) :
    Plain rt E w C A fun read => p read >>= f read := by
  obtain ⟨out, hout⟩ := hp
  rcases out with e | a
  · exact ⟨.error e, none, Says.throws fun version s _ => hout version s⟩
  · obtain ⟨out, report, hmakes⟩ := hf a
    exact ⟨out, report, Says.seq (fun version s _ => hout version s) hmakes⟩

theorem plain_reportState {pod : Option Infrastructure} :
    Plain rt E w C A fun read => reportState rt read pod := by
  by_cases hterminated : (pod.any fun p => p.phase == some "Succeeded" || p.phase == some "Failed")
      = true
  · by_cases hephemeral : ephemeral w = true
    · refine Plain.congr (Plain.report .Failed
        "Ephemeral workspace pod terminated; automatic replacement would lose history")
        fun version s _ => ?_
      exact (if_pos hterminated).trans (if_pos hephemeral)
    · have hdelete : Quiet E w C fun _ => deleteLive .Pod (resourceName rt w) pod :=
        quiet_deleteLive
      refine Plain.congr (Plain.bind hdelete fun _ =>
        Plain.report .Pending "Replacing terminated pod; storage retained") fun version s _ => ?_
      exact (if_pos hterminated).trans (if_neg hephemeral)
  · exact Plain.congr (Plain.report _ _) fun version s _ => if_neg hterminated

/-- The last failure on record has this reason. -/
def FailedWith (reason : String) (s : Option WorkspaceStatus) : Prop :=
  (s.bind WorkspaceStatus.lastFailure).map LastFailure.reason = some reason

/-- Either the status does not matter, or a failure is new and is recorded. -/
def Starts (rt : Runtime) (E : Surroundings) (w : Workspace) (C : Int → Prop)
    (p : Read → sys.Task Unit) : Prop :=
  Plain rt E w C (fun _ => True) p ∨
  ∃ reason, Plain rt E w C (FailedWith reason) p ∧ ∀ version s, ¬ FailedWith reason s →
    Ends E w C (p (reading w version s)) fun ws _ => ∃ value, ws = [value] ∧
      FailedWith reason (some value) ∧
      value.teardownCompletedAt = s.bind WorkspaceStatus.teardownCompletedAt

theorem starts_reportPod {pod : Option Infrastructure} :
    Starts rt E w C fun read => reportPod rt read pod := by
  rcases hdiagnostic : podDiagnostic rt pod with _ | diagnostic
  · left
    refine Plain.congr (@plain_reportState rt E w C _ pod) fun version s _ => ?_
    simp only [reportPod, hdiagnostic, Option.filter_none]
    rfl
  right
  refine ⟨diagnostic.reason, ?_, fun version s hnew => ?_⟩
  · by_cases hdown : (!(pod.any fun p => p.deletionTimestamp.isNone && p.ready) &&
        !(pod.any fun p => p.phase == some "Succeeded" || p.phase == some "Failed")) = true
    · have hready : (pod.any fun p => p.deletionTimestamp.isNone && p.ready) = false :=
        Bool.not_eq_eq_eq_not.mp (Bool.and_eq_true_iff.mp hdown).1
      have hended : (pod.any fun p => p.phase == some "Succeeded" || p.phase == some "Failed") =
        false := Bool.not_eq_eq_eq_not.mp (Bool.and_eq_true_iff.mp hdown).2
      refine Plain.congr (Plain.report (if diagnostic.failed then .Failed else .Pending)
        diagnostic.message) fun version s hs => ?_
      simp only [reportPod, hdiagnostic, Option.filter_some, hready, hended, Bool.not_false,
        Bool.and_self, Bool.or_true, if_true, Bool.false_eq_true, if_false]
      exact if_neg (not_not_intro hs)
    · refine Plain.congr (@plain_reportState rt E w C _ pod) fun version s hs => ?_
      have hsame : ((s.bind WorkspaceStatus.lastFailure).map LastFailure.reason !=
          some diagnostic.reason) = false := bne_eq_false_iff_eq.mpr hs
      simp only [reportPod, hdiagnostic, Option.filter_some, hsame, hdown, Bool.or_self]
      rfl
  · have hnew' : (s.bind WorkspaceStatus.lastFailure).map LastFailure.reason ≠
        some diagnostic.reason := hnew
    have hother : ((s.bind WorkspaceStatus.lastFailure).map LastFailure.reason !=
        some diagnostic.reason) = true := bne_iff_ne.mpr hnew'
    simp only [reportPod, hdiagnostic, Option.filter_some, hother, Bool.true_or, if_true]
    rw [if_pos hnew']
    refine Ends.clock fun instant _ => ends_report.mono fun ws _ hend => ?_
    obtain ⟨instant', rfl⟩ := hend.2.of_fields (by simp)
    exact ⟨_, rfl, rfl, rfl⟩

theorem Starts.bind {p : Read → sys.Task α} {f : Read → α → sys.Task Unit} (hp : Quiet E w C p)
    (hf : ∀ a, Starts rt E w C fun read => f read a) :
    Starts rt E w C fun read => p read >>= f read := by
  obtain ⟨out, hout⟩ := hp
  rcases out with e | a
  · exact .inl ⟨.error e, none, Says.throws fun version s _ => hout version s⟩
  rcases hf a with ⟨out, report, hmakes⟩ | ⟨reason, ⟨out, report, hmakes⟩, hnew⟩
  · exact .inl ⟨out, report, Says.seq (fun version s _ => hout version s) hmakes⟩
  · exact .inr ⟨reason, ⟨out, report, Says.seq (fun version s _ => hout version s) hmakes⟩,
      fun version s hs => (hout version s).seq (hnew version s hs)⟩

theorem Starts.test {c : Read → Prop} [DecidablePred c] {p q : Read → sys.Task Unit}
    (known : Prop) (hc : ∀ version s, c (reading w version s) ↔ known)
    (hp : known → Starts rt E w C p) (hq : ¬ known → Starts rt E w C q) :
    Starts rt E w C fun read => if c read then p read else q read := by
  have hcases : ∀ r : Read → sys.Task Unit, Starts rt E w C r →
      (∀ version s, (if c (reading w version s) then p (reading w version s)
        else q (reading w version s)) = r (reading w version s)) →
      Starts rt E w C fun read => if c read then p read else q read := by
    rintro r (hplain | ⟨reason, hplain, hnew⟩) heq
    · exact .inl (hplain.congr fun version s _ => heq version s)
    · refine .inr ⟨reason, hplain.congr fun version s _ => heq version s, fun version s hs => ?_⟩
      simp only [heq]
      exact hnew version s hs
  by_cases h : known
  · exact hcases p (hp h) fun version s => if_pos ((hc version s).mpr h)
  · exact hcases q (hq h) fun version s => if_neg fun hcase => h ((hc version s).mp hcase)

/-- A check stands before what it lets through. -/
theorem Starts.gate {p : Read → sys.Task Bool} {f : Read → Bool → sys.Task Unit}
    (hp : Gate rt E w C p) (hstop : ∀ read, f read false = .ret ())
    (hgo : Starts rt E w C fun read => f read true) :
    Starts rt E w C fun read => p read >>= f read := by
  rcases hp with hquiet | ⟨phase, message, hmakes⟩
  · refine Starts.bind hquiet fun mayStart => ?_
    rcases mayStart with _ | _
    · refine .inl ((Plain.quiet Quiet.ret).congr fun version s _ => hstop _)
    · exact hgo
  · refine .inl ⟨.ok (), some (phase, message), hmakes.andThen fun version s _ => ?_⟩
    rw [hstop]
    exact Ends.ret ⟨rfl, rfl⟩

section Start

variable {uid : String} {project : Project} {profile : Option CredentialProfile}

theorem quiet_lookForCache : Quiet E w C fun _ => lookForCache project := by
  unfold lookForCache
  split
  · exact Quiet.ret
  · exact Quiet.bind quiet_get fun _ => Quiet.ret

theorem quiet_renew {existing : Option Infrastructure} :
    Quiet E w C fun read => WorkspaceAccess.renew rt read.workspace uid existing := by
  refine Quiet.bind ⟨E.issueWorkspaceToken, fun _ _ => gives_askOr rfl fun _ h => h⟩ fun _ => ?_
  refine Quiet.bind ⟨E.compareAndSwapSecret (existing.map Infrastructure.resourceVersion)
    ⟨.Secret, accessName rt w, uid⟩, fun _ _ => gives_askOr rfl fun _ h => h⟩ fun written => ?_
  exact Quiet.ite (fun _ => Quiet.ret) fun _ => Quiet.fail

theorem gives_renew (hrenews : E.Renews) {workspace : Workspace}
    {existing : Option Infrastructure} :
    Gives E w C (WorkspaceAccess.renew rt workspace uid existing) (.ok ()) := by
  refine Gives.seq (gives_askOr rfl fun _ h => h.trans hrenews.issued) ?_
  refine Gives.seq (gives_askOr rfl fun _ h => h.trans (hrenews.written _ _)) ?_
  exact Ends.ret ⟨rfl, rfl⟩

theorem quiet_keep {existing : Option Infrastructure} :
    Quiet E w C fun read => WorkspaceAccess.keep rt read.workspace uid existing := by
  refine Quiet.ite (fun _ => Quiet.fail) fun _ => ?_
  by_cases hrenews : E.Renews
  · -- it does not matter whether the grant still holds
    refine ⟨.ok (), fun version s => Ends.request fun grant _ => ?_⟩
    by_cases hholds : Option.any (grants w uid) grant = true
    · exact Ends.of_eq (if_pos hholds) (Ends.ret ⟨rfl, rfl⟩)
    · exact Ends.of_eq (if_neg hholds) (gives_renew hrenews)
  · refine Quiet.bind ⟨.ok (E.currentGrant ((existing.bind Infrastructure.token).getD "")),
      fun _ _ => Ends.request fun grant hgrant =>
        Ends.ret ⟨rfl, congrArg Except.ok (hgrant.resolve_right hrenews)⟩⟩ fun grant => ?_
    exact Quiet.test (grant.any (grants w uid) = true) (fun _ _ => Iff.rfl) (fun _ => Quiet.ret)
      fun _ => quiet_renew

theorem quiet_accessEnsure : Quiet E w C fun read => WorkspaceAccess.ensure rt read.workspace := by
  rcases huid : w.metadata.uid with _ | uid
  · have hfail : Quiet E w C fun _ =>
        (.fail (.message "Workspace UID required for access grant") : sys.Task Unit) := Quiet.fail
    refine hfail.congr fun version s => ?_
    simp only [WorkspaceAccess.ensure, huid]
  · have hread : Quiet E w C fun read => get .Secret (accessName rt read.workspace) >>=
        WorkspaceAccess.keep rt read.workspace uid :=
      Quiet.bind ⟨E.get .Secret (accessName rt w), fun _ _ => gives_askOr rfl fun _ h => h⟩
        fun _ => quiet_keep
    refine hread.congr fun version s => ?_
    simp only [WorkspaceAccess.ensure, huid]

theorem quiet_ensureAccess : Quiet E w C fun read => ensureAccess rt options read.workspace :=
  Quiet.ite (fun _ => Quiet.ret) fun _ =>
    Quiet.ite (fun _ => quiet_accessEnsure) fun _ => Quiet.fail

theorem quiet_ensureClaim : Quiet E w C fun read => ensureClaim rt read.workspace uid := by
  refine Quiet.test (ephemeral w = true) (fun _ _ => Iff.rfl) (fun _ => Quiet.ret) fun _ => ?_
  exact Quiet.bind quiet_ensure fun _ => Quiet.ret

/-- The credential projection does not look at the status. -/
def Projected (rt : Runtime) : Prop :=
  ∀ workspace s project profile,
    rt.projectable { workspace with status := s } project profile =
      rt.projectable workspace project profile

theorem starts_launch (hprojected : Projected rt) :
    Starts rt E w C fun read => launch rt options read uid project profile := by
  refine Starts.bind quiet_lookForCache fun _ => ?_
  refine Starts.test (¬ rt.projectable w project profile = true)
    (fun version s => by rw [hprojected w s]) (fun _ => .inl (Plain.quiet Quiet.fail)) fun _ => ?_
  refine Starts.bind quiet_ensureAccess fun _ => Starts.bind quiet_ensureClaim fun _ => ?_
  refine Starts.bind quiet_ensure fun _ => Starts.bind quiet_ensure fun _ => ?_
  exact starts_reportPod

theorem starts_start {projects : List Project} (hprojected : Projected rt) :
    Starts rt E w C fun read => start rt options read uid projects := by
  rcases hproject : projects.find? fun p => p.name == w.spec.projectRef with _ | project
  · refine .inl ((Plain.report .Failed "Referenced project does not exist").congr
      fun version s _ => ?_)
    simp only [start, hproject]
  have hstart : Starts rt E w C fun read => get .Pod (resourceName rt read.workspace) >>= fun pod =>
      admitted rt options read uid project pod >>= fun mayStart =>
        if ¬ mayStart then .ret () else
          (askOr (S := sys) (.credentialProfile read.workspace.spec.credentialProfile) rfl :
            sys.Task (Option CredentialProfile)) >>= fun profile =>
          credentialsUsable rt read profile >>= fun usable =>
          if usable then launch rt options read uid project profile else .ret () := by
    refine Starts.bind quiet_getOwn fun pod => Starts.gate gate_admitted (fun _ => rfl) ?_
    refine Starts.bind ⟨E.credentialProfile w.spec.credentialProfile, fun _ _ =>
      gives_askOr rfl fun _ h => h⟩ fun profile => ?_
    exact Starts.gate gate_credentialsUsable (fun _ => rfl) (starts_launch hprojected)
  rcases hstart with hplain | ⟨reason, hplain, hnew⟩
  · refine .inl (hplain.congr fun version s _ => ?_)
    simp only [start, hproject]
  · refine .inr ⟨reason, hplain.congr fun version s _ => ?_, fun version s hs => ?_⟩
    · simp only [start, hproject]
    · simp only [start, hproject]
      exact hnew version s hs

end Start

end Reports

end PaseoGateway.Controller

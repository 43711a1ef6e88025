/-
  PaseoGateway/SessionSafety.lean
  ===============================
  **Sessions under every interleaving.**

  Most pieces of a session are routine: any thread may run them at any time, and a
  program made of routine pieces needs no further argument (`Calmly.plain`).  Four
  programs know something the others must not disturb: one that found a replaced
  connection holds an entry that is over, a client frame holds a route, a session
  that closes holds the entries it waits for, and a pass owns the refresh
  (`Visiting`).

  `ok_of_reachable` is the point: the three invariants hold of every session in every
  reachable configuration.
-/
import PaseoGateway.SessionInvariant
import PaseoGateway.RelyGuarantee

namespace PaseoGateway.Session

open Async WorkspaceLabels

variable {options : Nat → SessionOptions} {t : Tid} {w w' w'' : World sys} {α β : Type}

/-! ### The protocol -/

/-- The revision counts the changes of the cluster. -/
structure Dated (g g' : Glob) : Prop where
  le : g.revision ≤ g'.revision
  same : g'.revision = g.revision → g'.cluster = g.cluster

theorem Dated.trans {g g' g'' : Glob} (h : Dated g g') (h' : Dated g' g'') : Dated g g'' := by
  constructor
  · exact Nat.le_trans h.le h'.le
  · intro heq
    have hle := h.le
    have hle' := h'.le
    rw [h'.same (by omega), h.same (by omega)]

/-- What thread `t` finds of its session and of the cluster. -/
structure Calm (t : Tid) (w w' : World sys) : Prop where
  kept : Kept t (w.mem t.proc) (w'.mem t.proc)
  dated : Dated w.glob w'.glob

theorem Calm.refl (t : Tid) (w : World sys) : Calm t w w :=
  ⟨Kept.refl t _, ⟨Nat.le_refl _, fun _ => rfl⟩⟩

theorem Calm.trans (h : Calm t w w') (h' : Calm t w' w'') : Calm t w w'' :=
  ⟨h.kept.trans h'.kept, h.dated.trans h'.dated⟩

@[reducible] def protocol (options : Nat → SessionOptions) : Protocol (machine options) where
  inv w := ∀ p, Ok (w.mem p)
  extra := Calm
  extra_refl := Calm.refl
  extra_trans := Calm.trans

/-- The world after an answer. -/
abbrev after (w : World sys) (t : Tid) {x : Ext} (a : Answer sys x) : World sys :=
  (w.answered t a).spawnAll t.proc a.forks

@[simp] theorem after_mem (w : World sys) (t : Tid) {x : Ext} (a : Answer sys x) :
    (after w t a).mem t.proc = a.mem := by simp [after]

@[simp] theorem after_glob (w : World sys) (t : Tid) {x : Ext} (a : Answer sys x) :
    (after w t a).glob = a.glob := by simp [after]

theorem after_mem_ne {x : Ext} {a : Answer sys x} {p : Nat} (h : p ≠ t.proc) :
    (after w t a).mem p = w.mem p := by
  simp [after, World.answered_mem_ne h]

/-- A thread that owns a piece pays for it. -/
theorem pays_of_owned {x : Ext} {a : Answer sys x} (hi : (protocol options).inv w)
    (hglob : a.glob = w.glob) (howned : Owned t (w.mem t.proc) a.mem) :
    (protocol options).Pays t w (after w t a) := by
  constructor
  · intro p
    by_cases hp : p = t.proc
    · rw [hp, after_mem]
      exact howned.ok (hi t.proc)
    · rw [after_mem_ne hp]
      exact hi p
  · intro u hu _
    constructor
    · by_cases hp : u.proc = t.proc
      · rw [hp, after_mem]
        exact howned.kept u hu
      · rw [after_mem_ne hp]
        exact Kept.refl u _
    · rw [after_glob, hglob]
      exact ⟨Nat.le_refl _, fun _ => rfl⟩
  · exact fun _ _ _ _ => trivial

theorem Routine.owned {m m' : Mem} (h : Routine m m') : Owned t m m' :=
  ⟨h.ok, fun u _ => h.kept u⟩

theorem calm_of_routine {x : Ext} {a : Answer sys x} (hglob : a.glob = w.glob)
    (h : Routine (w.mem t.proc) a.mem) : Calm t w (after w t a) := by
  constructor
  · rw [after_mem]
    exact h.kept t
  · rw [after_glob, hglob]
    exact ⟨Nat.le_refl _, fun _ => rfl⟩

/-! ### One request -/

/-- The requests any thread may make without knowing anything. -/
def Ext.Plain : Ext → Prop
  | .closeAndForget _ _ => False
  | .deliver _ _ _ _ => False
  | .watching => False
  | .project _ _ _ => False
  | .sweep _ => False
  | .endRefresh => False
  | .released _ _ => False
  | .clearAll => False
  | _ => True

theorem orFail_spec {c : Choice} {v : α} {r : Except Err α} {m : Mem}
    (h : orFail w t c (v, w.mem t.proc) = some (r, m)) :
    m = w.mem t.proc ∧ (r = .ok v ∨ ∃ error, r = .error error) := by
  unfold orFail at h
  split at h
  · cases h
    exact ⟨rfl, .inl rfl⟩
  · cases h
    exact ⟨rfl, .inr ⟨_, rfl⟩⟩
  · cases h

/-- Whatever answers the request leaves the cluster alone, and the session as a routine piece. -/
def Quietly (options : Nat → SessionOptions) (t : Tid) (w : World sys) (x : Ext) : Prop :=
  ∀ c (a : Answer sys x), answer options c t x w = some a →
    a.glob = w.glob ∧ Routine (w.mem t.proc) a.mem

section Answered

theorem quietly_race : Quietly options t w .race := by
  intro c a ha
  cases c with
  | first projects =>
    cases ha
    exact ⟨rfl, Routine.refl _⟩
  | _ => cases ha

theorem quietly_projects : Quietly options t w .projects := by
  intro c a ha
  obtain ⟨⟨r, m⟩, hr, rfl⟩ := Option.map_eq_some_iff.mp ha
  obtain ⟨rfl, _⟩ := orFail_spec hr
  exact ⟨rfl, Routine.refl _⟩

theorem quietly_workspaces : Quietly options t w .workspaces := by
  intro c a ha
  obtain ⟨⟨r, m⟩, hr, rfl⟩ := Option.map_eq_some_iff.mp ha
  obtain ⟨rfl, _⟩ := orFail_spec hr
  exact ⟨rfl, Routine.refl _⟩

theorem quietly_catalog : Quietly options t w .catalog := by
  intro c a ha
  obtain ⟨⟨r, m⟩, hr, rfl⟩ := Option.map_eq_some_iff.mp ha
  obtain ⟨rfl, _⟩ := orFail_spec hr
  exact ⟨rfl, Routine.refl _⟩

theorem quietly_settled (e : Nat) : Quietly options t w (.settled e) := by
  intro c a ha
  obtain ⟨r, _, rfl⟩ := Option.map_eq_some_iff.mp ha
  exact ⟨rfl, Routine.refl _⟩

theorem quietly_joined (e : Nat) (workspace : Workspace) :
    Quietly options t w (.joined e workspace) := by
  intro c a ha
  obtain ⟨p, hp, rfl⟩ := Option.map_eq_some_iff.mp ha
  exact ⟨rfl, (routine_joined hp).1⟩

/-- The backend connects, unless the client has left. -/
theorem quietly_connected (e : Nat) : Quietly options t w (.connected e) := by
  intro c a ha
  cases c with
  | go =>
    obtain ⟨_, hleft⟩ | ⟨_, hlive⟩ := ite_eq_iff.mp ha
    · cases hleft
      exact ⟨rfl, Routine.refl _⟩
    · cases hlive
      exact ⟨rfl, Routine.refl _⟩
  | fail error =>
    cases ha
    exact ⟨rfl, Routine.refl _⟩
  | _ => cases ha

theorem quietly_openProject (e : Nat) : Quietly options t w (.openProject e) := by
  intro c a ha
  cases c with
  | opened runtime =>
    cases ha
    exact ⟨rfl, routine_openProject _ _⟩
  | fail error =>
    cases ha
    exact ⟨rfl, Routine.refl _⟩
  | _ => cases ha

theorem quietly_fetchWorkspaces (e : Nat) : Quietly options t w (.fetchWorkspaces e) := by
  intro c a ha
  cases c with
  | rows rows =>
    cases ha
    exact ⟨rfl, routine_fetchWorkspaces _ _⟩
  | fail error =>
    cases ha
    exact ⟨rfl, Routine.refl _⟩
  | _ => cases ha

theorem quietly_request (e : Nat) : Quietly options t w (.request e) := by
  intro c a ha
  cases c with
  | slot backendSlot =>
    cases ha
    exact ⟨rfl, Routine.refl _⟩
  | fail error =>
    cases ha
    exact ⟨rfl, Routine.refl _⟩
  | _ => cases ha

theorem quietly_allAttempted (count : Nat) : Quietly options t w (.allAttempted count) := by
  intro c a ha
  obtain ⟨_, hsome⟩ := Option.ite_none_right_eq_some.mp ha
  cases hsome
  exact ⟨rfl, Routine.refl _⟩

theorem quietly_examine (visit : Visit) (active : List Workspace) :
    Quietly options t w (.examine visit active) := by
  intro c a ha
  obtain ⟨p, hp, rfl⟩ := Option.map_eq_some_iff.mp ha
  exact ⟨rfl, routine_examine hp⟩

theorem quietly_clearFailed (es : List Nat) : Quietly options t w (.clearFailed es) := by
  intro c a ha
  obtain ⟨p, hp, rfl⟩ := Option.map_eq_some_iff.mp ha
  exact ⟨rfl, routine_clearFailed hp⟩

theorem quietly_release (e : Nat) : Quietly options t w (.release e) := by
  intro c a ha
  obtain ⟨p, hp, rfl⟩ := Option.map_eq_some_iff.mp ha
  exact ⟨rfl, (routine_release hp).1⟩

theorem quietly_allReleased (es : List Nat) : Quietly options t w (.allReleased es) := by
  intro c a ha
  obtain ⟨_, hsome⟩ := Option.ite_none_right_eq_some.mp ha
  cases hsome
  exact ⟨rfl, Routine.refl _⟩

/-- An answer that is always given, with what it makes of the session. -/
theorem quietly_of_some {x : Ext} {res : Ext.Res x} {m : Mem} {forks : List Call}
    (h : ∀ c, answer options c t x w = some ⟨res, [], m, w.glob, forks⟩)
    (hm : Routine (w.mem t.proc) m) : Quietly options t w x := by
  intro c a ha
  rw [h c] at ha
  cases ha
  exact ⟨rfl, hm⟩

end Answered

theorem answer_plain {x : Ext} (hx : x.Plain) : Quietly options t w x := by
  cases x with
  | closeAndForget name e => exact hx.elim
  | deliver slot binding e workspaces => exact hx.elim
  | watching => exact hx.elim
  | project workspace project labels => exact hx.elim
  | sweep active => exact hx.elim
  | endRefresh => exact hx.elim
  | released parent e => exact hx.elim
  | clearAll => exact hx.elim
  | race => exact quietly_race
  | projects => exact quietly_projects
  | workspaces => exact quietly_workspaces
  | catalog => exact quietly_catalog
  | isClosed => exact quietly_of_some (fun _ => rfl) (Routine.refl _)
  | connect workspace => exact quietly_of_some (fun _ => rfl) (routine_connect _ _)
  | settled e => exact quietly_settled e
  | joined e workspace => exact quietly_joined e workspace
  | connected e => exact quietly_connected e
  | openProject e => exact quietly_openProject e
  | fetchWorkspaces e => exact quietly_fetchWorkspaces e
  | closeAndFail e error => exact quietly_of_some (fun _ => rfl) (routine_openFailed _ _)
  | onWorkspaceUpdate e runtime =>
    exact quietly_of_some (fun _ => rfl) (routine_onWorkspaceUpdate _ _)
  | onBinary e backendSlot => exact quietly_of_some (fun _ => rfl) (routine_onBinary _ _)
  | request e => exact quietly_request e
  | acknowledge e backendSlot => exact quietly_of_some (fun _ => rfl) (routine_issue _ _)
  | inward slot => exact quietly_of_some (fun _ => rfl) (Routine.refl _)
  | watch subscribe => exact quietly_of_some (fun _ => rfl) (routine_flags _ _ _ id)
  | attempts workspaces => exact quietly_of_some (fun _ => rfl) (Routine.refl _)
  | attempted parent i => exact quietly_of_some (fun _ => rfl) (routine_flags _ _ _ id)
  | allAttempted count => exact quietly_allAttempted count
  | respond active projects labels =>
    exact quietly_of_some (fun _ => rfl) (routine_respond _ _ _)
  | beginRefresh => exact quietly_of_some (fun _ => rfl) (routine_beginRefresh _ _)
  | nextConnection position => exact quietly_of_some (fun _ => rfl) (Routine.refl _)
  | examine visit active => exact quietly_examine visit active
  | closed e next => exact quietly_of_some (fun _ => rfl) (routine_retireNext _)
  | connections => exact quietly_of_some (fun _ => rfl) (Routine.refl _)
  | clearFailed es => exact quietly_clearFailed es
  | beginClose => exact quietly_of_some (fun _ => rfl) (routine_flags _ _ _ fun _ => rfl)
  | release e => exact quietly_release e
  | allReleased es => exact quietly_allReleased es
  | stuck => exact fun _ _ ha => by cases ha

section Rules

variable {Q : α → World sys → Prop} {E : Err → World sys → Prop}

/-- A plain request: what follows starts in a world that is calm since. -/
theorem safe_plain {x : Ext} {k : Ext.Res x → sys.Task α} (hx : x.Plain)
    (h : ∀ w₁ c a, Calm t w w₁ → (protocol options).inv w₁ → answer options c t x w₁ = some a →
      Calm t w₁ (after w₁ t a) → Safe (protocol options) t (k a.res) Q E (after w₁ t a)) :
    Safe (protocol options) t (.call (.ext x) k) Q E w := by
  refine Safe.ext fun w₁ hr hi c a ha => ?_
  obtain ⟨hglob, hroutine⟩ := answer_plain hx c a ha
  constructor
  · exact pays_of_owned hi hglob hroutine.owned
  · exact h w₁ c a hr.2 hi ha (calm_of_routine hglob hroutine)

/-- A request of the pass. -/
theorem safe_owned {x : Ext} {k : Ext.Res x → sys.Task α}
    (h : ∀ w₁ c a, Calm t w w₁ → (protocol options).inv w₁ → answer options c t x w₁ = some a →
      a.glob = w₁.glob ∧ Owned t (w₁.mem t.proc) a.mem ∧
        Safe (protocol options) t (k a.res) Q E (after w₁ t a)) :
    Safe (protocol options) t (.call (.ext x) k) Q E w := by
  refine Safe.ext fun w₁ hr hi c a ha => ?_
  obtain ⟨hglob, howned, hk⟩ := h w₁ c a hr.2 hi ha
  exact ⟨pays_of_owned hi hglob howned, hk⟩

end Rules

/-! ### Programs nobody has to look into -/

/-- The program may run, and leaves its session calm. -/
abbrev Calmly (options : Nat → SessionOptions) (t : Tid) (p : sys.Task α) (w : World sys) : Prop :=
  Safe (protocol options) t p (fun _ w' => Calm t w w') (fun _ w' => Calm t w w') w

/-- Only plain requests. -/
def PlainReq : Req sys → Prop
  | .store _ => False
  | .ext x => x.Plain

namespace Calmly

theorem plain {p : sys.Task α} (hp : p.Only PlainReq) (w : World sys) : Calmly options t p w := by
  have hfrom : ∀ w₀, Calm t w₀ w →
      Safe (protocol options) t p (fun _ w' => Calm t w₀ w') (fun _ w' => Calm t w₀ w') w := by
    induction p generalizing w with
    | ret a => exact fun w₀ h₀ => Safe.ret fun w' hr _ => h₀.trans hr.2
    | fail e => exact fun w₀ h₀ => Safe.fail fun w' hr _ => h₀.trans hr.2
    | call q k ih =>
      intro w₀ h₀
      cases q with
      | store q => exact hp.1.elim
      | ext x =>
        apply safe_plain hp.1
        intro w₁ c a hcalm _ _ hafter
        exact ih a.res (hp.2 a.res) _ w₀ ((h₀.trans hcalm).trans hafter)
  exact hfrom w (Calm.refl t w)

theorem seq {p : sys.Task α} {f : α → sys.Task β} (h : Calmly options t p w)
    (hf : ∀ a w', Calmly options t (f a) w') : Calmly options t (p >>= f) w := by
  apply Safe.bind
  apply Safe.mono h
  · intro a w' hcalm _
    apply Safe.mono (hf a w')
    · exact fun _ _ h' => hcalm.trans h'
    · exact fun _ _ h' => hcalm.trans h'
  · exact fun _ _ h' => h'

theorem attempt {p : sys.Task α} (h : Calmly options t p w) : Calmly options t p.attempt w :=
  Safe.attempt h

theorem ret (a : α) (w : World sys) : Calmly options t (.ret a : sys.Task α) w :=
  Safe.ret fun _ hr _ => hr.2

theorem fail (e : Err) (w : World sys) : Calmly options t (.fail e : sys.Task α) w :=
  Safe.fail fun _ hr _ => hr.2

theorem finish {p : sys.Task α} (h : Calmly options t p w) :
    Safe (protocol options) t p (fun _ _ => True) (fun _ _ => True) w :=
  Safe.mono h (fun _ _ _ => trivial) fun _ _ _ => trivial

end Calmly

theorem only_ask {x : Ext} {f : Ext.Res x → sys.Task α} (hx : x.Plain)
    (hf : ∀ r, (f r).Only PlainReq) : (ask (S := sys) x >>= f).Only PlainReq := ⟨hx, hf⟩

theorem only_ofExcept {f : β → sys.Task α} (hf : ∀ r, (f r).Only PlainReq) (r : Except Err β) :
    ((Prog.ofExcept r : sys.Task β) >>= f).Only PlainReq := by
  cases r with
  | ok b => exact hf b
  | error e => trivial

theorem only_askOr {x : Ext} (h : Ext.Res x = Except Err β) {f : β → sys.Task α} (hx : x.Plain)
    (hf : ∀ r, (f r).Only PlainReq) :
    ((askOr (S := sys) x h : sys.Task β) >>= f).Only PlainReq :=
  ⟨hx, fun r => only_ofExcept hf (h ▸ r)⟩

theorem only_askOr_last {x : Ext} (h : Ext.Res x = Except Err β) (hx : x.Plain) :
    (askOr (S := sys) x h : sys.Task β).Only PlainReq := by
  refine ⟨hx, fun r => ?_⟩
  change (Prog.ofExcept (h ▸ r) : sys.Task β).Only PlainReq
  generalize (h ▸ r : Except Err β) = r'
  cases r' with
  | ok b => trivial
  | error e => trivial

section Programs

variable (session : SessionOptions)

theorem only_readBoth (projectsFirst : Bool) : (readBoth projectsFirst).Only PlainReq := by
  unfold readBoth
  split
  · exact only_askOr rfl (by trivial) fun _ => only_askOr rfl (by trivial) fun _ => trivial
  · exact only_askOr rfl (by trivial) fun _ => only_askOr rfl (by trivial) fun _ => trivial

theorem only_records : (records session).Only PlainReq := by
  unfold records
  refine only_ask (by trivial) fun projectsFirst => ?_
  apply Prog.Only.bind (only_readBoth projectsFirst)
  intro read
  split
  cases authorizedRecords session _ _ _ with
  | ok r => trivial
  | error e => trivial

theorem only_labelsMany (workspaces : List Workspace) :
    (labelsMany session workspaces).Only PlainReq := by
  unfold labelsMany
  split
  · trivial
  · exact only_askOr rfl (by trivial) fun _ => trivial

theorem only_opening (e : Nat) : (opening e).Only PlainReq := by
  unfold opening
  apply Prog.Only.bind
  · apply Prog.Only.attempt
    unfold openBackend
    refine only_askOr rfl (by trivial) fun _ => ?_
    refine only_askOr rfl (by trivial) fun _ => ?_
    exact only_askOr_last rfl (by trivial)
  · intro r
    cases r with
    | ok u => trivial
    | error e => exact ⟨trivial, fun _ => trivial⟩

theorem only_validate (workspace : Workspace) : (validate session workspace).Only PlainReq := by
  unfold validate
  apply Prog.Only.bind (only_records session)
  intro read
  split
  refine only_ask (by trivial) fun closed => ?_
  split
  · trivial
  · split
    · trivial
    · split
      · trivial
      · trivial

theorem only_fetchWorkspaces (subscribe : Bool) :
    (fetchWorkspaces session subscribe).Only PlainReq := by
  unfold fetchWorkspaces
  apply Prog.Only.bind (only_records session)
  intro read
  split
  refine only_ask (by trivial) fun _ => ?_
  refine only_ask (by trivial) fun _ => ?_
  refine only_ask (by trivial) fun _ => ?_
  apply Prog.Only.bind (only_labelsMany session _)
  intro labels
  exact only_askOr rfl (by trivial) fun _ => trivial

theorem only_retireStale (active : List Workspace) (turns position : Nat) :
    (retireStale active turns position).Only PlainReq := by
  induction turns generalizing position with
  | zero => exact ⟨trivial, fun _ => trivial⟩
  | succ turns ih =>
    unfold retireStale
    refine only_ask (by trivial) fun visit => ?_
    cases visit with
    | none => trivial
    | some visit =>
      refine only_ask (by trivial) fun stale => ?_
      split
      · exact only_ask (by trivial) fun _ => ih _
      · exact ih _

theorem only_closeEach (es : List Nat) : (closeEach es).Only PlainReq := by
  induction es with
  | nil => trivial
  | cons e rest ih => exact only_ask (by trivial) fun _ => ih

end Programs

/-! ### Connections -/

theorem Calm.dead (h : Calm t w w') {e : Nat} (hd : (w.mem t.proc).Dead e) :
    (w'.mem t.proc).Dead e := h.kept.dead e hd

/-- Who finds a replaced connection has retired it before deleting it by name. -/
theorem calmly_rejoin (workspace : Workspace) (e : Nat) (w : World sys) :
    Calmly options t (rejoin workspace e) w := by
  unfold rejoin
  refine safe_plain (x := .joined e workspace) trivial fun w₁ c a hcalm _ ha hafter => ?_
  obtain ⟨⟨r, m⟩, hjoined, rfl⟩ := Option.map_eq_some_iff.mp ha
  obtain ⟨_, hdead⟩ := routine_joined hjoined
  cases r with
  | error error => exact Safe.fail fun w₂ hr _ => (hcalm.trans hafter).trans hr.2
  | ok replaced =>
    cases replaced with
    | false => exact Safe.ret fun w₂ hr _ => (hcalm.trans hafter).trans hr.2
    | true =>
      refine safe_owned (x := .closeAndForget workspace.metadata.name e) ?_
      intro w₂ c₂ a₂ hcalm₂ _ ha₂
      cases ha₂
      have hover : (w₂.mem t.proc).Dead e := by
        apply hcalm₂.dead
        rw [after_mem]
        exact hdead rfl
      have hroutine : Routine (w₂.mem t.proc)
          ((w₂.mem t.proc).forget workspace.metadata.name e) := routine_forget hover
      refine ⟨rfl, hroutine.owned, Safe.fail fun w₃ hr _ => ?_⟩
      have hforget : Calm t w₂ (after w₂ t (effect w₂ ((), (w₂.mem t.proc).forget
          workspace.metadata.name e) : Answer sys (.closeAndForget workspace.metadata.name e))) :=
        calm_of_routine rfl hroutine
      exact (((hcalm.trans hafter).trans hcalm₂).trans hforget).trans hr.2

theorem calmly_connection (workspace : Workspace) (w : World sys) :
    Calmly options t (connection workspace) w := by
  unfold connection
  apply Calmly.seq
  · exact Calmly.plain (only_askOr_last rfl (by trivial)) w
  · intro connecting w'
    cases connecting with
    | joined e => exact calmly_rejoin workspace e w'
    | started e =>
      apply Calmly.plain
      refine only_askOr rfl (by trivial) fun _ => ?_
      trivial

theorem calmly_reconnect (workspace : Workspace) (w : World sys) :
    Calmly options t (reconnect workspace) w := by
  unfold reconnect
  split
  · apply Calmly.seq (calmly_connection workspace w)
    exact fun _ w' => Calmly.ret () w'
  · exact Calmly.ret () w

theorem calmly_attempt (parent : Tid) (i : Nat) (workspace : Workspace) (w : World sys) :
    Calmly options t (attempt parent i workspace) w := by
  unfold attempt
  apply Calmly.seq (calmly_connection workspace w).attempt
  intro _ w'
  apply Calmly.plain
  exact ⟨trivial, fun _ => trivial⟩

theorem calmly_subscribeTerminal (session : SessionOptions) (workspace : Workspace)
    (w : World sys) : Calmly options t (subscribeTerminal session workspace) w := by
  have hvalidate : ∀ w, Calmly options t (validate session workspace) w :=
    Calmly.plain (only_validate session workspace)
  unfold subscribeTerminal
  apply Calmly.seq (hvalidate w)
  intro _ w₁
  apply Calmly.seq (calmly_connection workspace w₁)
  intro e w₂
  apply Calmly.seq (hvalidate w₂)
  intro _ w₃
  apply Calmly.seq (hvalidate w₃)
  intro _ w₄
  apply Calmly.plain
  refine only_askOr rfl (by trivial) fun backendSlot => ?_
  exact only_askOr rfl (by trivial) fun _ => trivial

/-! ### Client frames -/

/-- The frame's slot was issued for the uid of the entry it is routed to. -/
def Routed (t : Tid) (slot : Nat) (binding : Binding) (e : Nat) (w : World sys) : Prop :=
  ∃ log c, log <:+ (w.mem t.proc).terminalLog ∧ (w.mem t.proc).entries[e]? = some c ∧
    (Along Steady log → .issued slot binding c.uid ∈ log)

theorem Routed.calm {slot : Nat} {binding : Binding} {e : Nat} (h : Routed t slot binding e w)
    (hc : Calm t w w') : Routed t slot binding e w' := by
  obtain ⟨log, c, hlog, hentry, hissued⟩ := h
  obtain ⟨c', hentry', hw⟩ := hc.kept.workspace e c hentry
  refine ⟨log, c', hlog.trans hc.kept.log, hentry', ?_⟩
  rw [Connection.uid, hw]
  exact hissued

/-- A route found in the maps: the connection is the one last opened under the name, and
    the slot was issued for it. -/
theorem routed_of_inward {slot : Nat} {binding : Binding} {e : Nat}
    (hok : Ok (w.mem t.proc)) (h : (w.mem t.proc).inward slot = .ok (binding, e)) :
    Routed t slot binding e w := by
  unfold Mem.inward TerminalSlots.inward at h
  split at h
  · cases h
  · rename_i found hfound
    split at h
    · cases h
    · rename_i stored hstored
      cases h
      have hget : (w.mem t.proc).slots.get slot = some binding := by
        split at hfound
        · rename_i hsome
          cases hfound
          exact hsome
        · cases hfound
      obtain ⟨uid, hissued⟩ := (hok.slotted.bound slot binding).mp hget
      obtain ⟨c, hc, _⟩ := hok.connected.named binding.workspaceId e hstored
      refine ⟨_, c, List.suffix_refl _, hc, fun halong => ?_⟩
      have hlast := lastOpened_of_issued halong hissued
      rw [hok.slotted.opened binding.workspaceId e c hstored hc, Option.some.injEq] at hlast
      rw [hlast]
      exact hissued

theorem safe_binary (session : SessionOptions) (slot : Nat) (w : World sys) :
    Safe (protocol options) t (binary session slot) (fun _ _ => True) (fun _ _ => True) w := by
  unfold binary
  apply Safe.bind
  apply Safe.mono (Calmly.plain (only_records session) w)
  · intro read w₁ _ _
    split
    refine safe_plain (x := .inward slot) trivial fun w₂ c a _ hi ha hafter => ?_
    cases ha
    generalize hin : (w₂.mem t.proc).inward slot = r at hafter ⊢
    cases r with
    | error error => exact Safe.fail fun _ _ _ => trivial
    | ok route =>
      have hrouted := routed_of_inward (hi t.proc) hin
      obtain ⟨binding, e⟩ := route
      refine safe_owned (x := .deliver slot binding e _) ?_
      intro w₃ c₃ a₃ hcalm₃ _ ha₃
      obtain ⟨⟨r, m⟩, hdeliver, rfl⟩ := Option.map_eq_some_iff.mp ha₃
      obtain ⟨log, conn, hlog, hentry, hissued⟩ := (hrouted.calm hafter).calm hcalm₃
      have hroutine : Routine (w₃.mem t.proc) m := by
        apply routine_deliver hdeliver
        intro conn' hentry' halong
        rw [hentry] at hentry'
        cases hentry'
        exact hlog.subset (hissued (halong.suffix hlog))
      refine ⟨rfl, hroutine.owned, ?_⟩
      cases r with
      | ok u => exact Safe.ret fun _ _ _ => trivial
      | error error => exact Safe.fail fun _ _ _ => trivial
  · exact fun _ _ _ => trivial

/-! ### Closing -/

theorem safe_releasing (parent : Tid) (e : Nat) (w : World sys) :
    Safe (protocol options) t (releasing parent e) (fun _ _ => True) (fun _ _ => True) w := by
  -- released or failed, the entry is over when its release has answered
  have hrelease : Safe (protocol options) t (releaseOne e)
      (fun _ w' => (w'.mem t.proc).Dead e) (fun _ w' => (w'.mem t.proc).Dead e) w := by
    unfold releaseOne
    refine safe_plain (x := .release e) trivial fun w₁ c a _ _ ha hafter => ?_
    obtain ⟨⟨r, m⟩, hr, rfl⟩ := Option.map_eq_some_iff.mp ha
    obtain ⟨_, hdead⟩ := routine_release hr
    have hover : ∀ w₂, Calm t (after w₁ t (effect w₁ (r, m) : Answer sys (.release e))) w₂ →
        (w₂.mem t.proc).Dead e := by
      intro w₂ hcalm
      apply hcalm.dead
      rw [after_mem]
      exact hdead
    cases r with
    | error error => exact Safe.fail fun w₂ hr₂ _ => hover w₂ hr₂.2
    | ok u =>
      refine safe_plain (x := .closed e none) trivial fun w₂ c₂ a₂ hcalm₂ _ _ hafter₂ => ?_
      exact Safe.ret fun w₃ hr₃ _ => hover w₃ ((hcalm₂.trans hafter₂).trans hr₃.2)
  unfold releasing
  apply Safe.bind
  apply Safe.attempt
  apply Safe.mono hrelease
  · intro u w₁ hdead _
    refine safe_owned (x := .released parent e) fun w₂ c a hcalm _ ha => ?_
    cases ha
    exact ⟨rfl, (routine_released parent (hcalm.dead hdead)).owned, Safe.ret fun _ _ _ => trivial⟩
  · intro error w₁ hdead _
    refine safe_owned (x := .released parent e) fun w₂ c a hcalm _ ha => ?_
    cases ha
    exact ⟨rfl, (routine_released parent (hcalm.dead hdead)).owned, Safe.ret fun _ _ _ => trivial⟩

/-- A closed session keeps no connection but these. -/
structure Closing (t : Tid) (es : List Nat) (w : World sys) : Prop where
  closed : (w.mem t.proc).closed = true
  among : ∀ name e, (w.mem t.proc).connections.get name = some e → e ∈ es

theorem Closing.calm {es : List Nat} (h : Closing t es w) (hc : Calm t w w') : Closing t es w' :=
  ⟨hc.kept.closed h.closed,
    fun name e hget => h.among name e (hc.kept.confined h.closed name e hget)⟩

theorem safe_close (w : World sys) :
    Safe (protocol options) t close (fun _ _ => True) (fun _ _ => True) w := by
  unfold close
  refine safe_plain (x := .beginClose) trivial fun w₁ c₁ a₁ _ _ ha₁ hafter₁ => ?_
  cases ha₁
  have hclosing : Closing t (w₁.mem t.proc).connections.values (after w₁ t
      (effect w₁ ((w₁.mem t.proc).connections.values, { w₁.mem t.proc with closed := true })
        ((w₁.mem t.proc).connections.values.map fun e => Call.releasing t e) :
          Answer sys .beginClose)) := by
    constructor
    · rw [after_mem]
      rfl
    · intro name e hget
      rw [after_mem] at hget
      exact Js.Map.mem_values.mpr ⟨name, hget⟩
  refine safe_plain (x := .allReleased (w₁.mem t.proc).connections.values) trivial
    fun w₂ c₂ a₂ hcalm₂ hi₂ ha₂ hafter₂ => ?_
  have hdead : ∀ e ∈ (w₁.mem t.proc).connections.values, (w₂.mem t.proc).Dead e := by
    intro e he
    simp only [answer] at ha₂
    split at ha₂
    · rename_i hall
      have hmem := List.all_eq_true.mp hall e he
      exact (hi₂ t.proc).connected.released t e (by simpa using hmem)
    · cases ha₂
  refine safe_owned (x := .clearAll) fun w₃ c₃ a₃ hcalm₃ _ ha₃ => ?_
  cases ha₃
  have hclosing₃ := ((hclosing.calm hcalm₂).calm hafter₂).calm hcalm₃
  refine ⟨rfl, Routine.owned (routine_clearAll hclosing₃.closed ?_),
    Safe.ret fun _ _ _ => trivial⟩
  intro name e hget
  exact (hafter₂.trans hcalm₃).dead (hdead e (hclosing₃.among name e hget))

/-! ### What a pass reads

A pass reads the cluster more than once; what it read stands for the cluster it began
with as long as the revision has not moved. -/

/-- `F` holds if the cluster is still the one of `g`. -/
structure Held (g : Glob) (F : Prop) (g' : Glob) : Prop where
  dated : Dated g g'
  holds : g'.revision = g.revision → F

theorem Held.later {g g' g'' : Glob} {F : Prop} (h : Held g F g') (hd : Dated g' g'') :
    Held g F g'' := by
  refine ⟨h.dated.trans hd, fun heq => h.holds ?_⟩
  have hle := h.dated.le
  have hle' := hd.le
  omega

/-- A read answers with what the store holds at some moment before it returns. -/
theorem safe_read {x : Ext} {β : Type} (h : Ext.Res x = Except Err β) (value : Glob → β)
    (hx : x.Plain) (hanswer : ∀ c w₁ (a : Answer sys x), answer options c t x w₁ = some a →
      cast h a.res = .ok (value w₁.glob) ∨ ∃ error, cast h a.res = .error error) (w : World sys) :
    Safe (protocol options) t (askOr (S := sys) x h : sys.Task β)
      (fun r w' => Calm t w w' ∧ ∃ g, Dated w.glob g ∧ Dated g w'.glob ∧ r = value g)
      (fun _ w' => Calm t w w') w := by
  refine safe_plain hx fun w₁ c a hcalm _ ha hafter => ?_
  change Safe (protocol options) t (Prog.ofExcept (cast h a.res) : sys.Task β) _ _ _
  rcases hanswer c w₁ a ha with hok | ⟨error, herror⟩
  · rw [hok]
    refine Safe.ret fun w₂ hr _ => ⟨(hcalm.trans hafter).trans hr.2, w₁.glob, hcalm.dated, ?_, rfl⟩
    exact (hafter.trans hr.2).dated
  · rw [herror]
    exact Safe.fail fun w₂ hr _ => (hcalm.trans hafter).trans hr.2

theorem answer_projects {c : Choice} {a : Answer sys .projects}
    (ha : answer options c t .projects w = some a) :
    a.res = .ok (w.glob.cluster.projects, w.glob.now) ∨
      ∃ error, a.res = Except.error error := by
  obtain ⟨⟨r, m⟩, hr, rfl⟩ := Option.map_eq_some_iff.mp ha
  exact (orFail_spec hr).2

theorem answer_workspaces {c : Choice} {a : Answer sys .workspaces}
    (ha : answer options c t .workspaces w = some a) :
    a.res = .ok (w.glob.cluster.workspaces, w.glob.now) ∨
      ∃ error, a.res = Except.error error := by
  obtain ⟨⟨r, m⟩, hr, rfl⟩ := Option.map_eq_some_iff.mp ha
  exact (orFail_spec hr).2

theorem answer_catalog {c : Choice} {a : Answer sys .catalog}
    (ha : answer options c t .catalog w = some a) :
    a.res = .ok w.glob.cluster.catalog ∨ ∃ error, a.res = Except.error error := by
  obtain ⟨⟨r, m⟩, hr, rfl⟩ := Option.map_eq_some_iff.mp ha
  exact (orFail_spec hr).2

theorem safe_projects (w : World sys) :
    Safe (protocol options) t (askOr (S := sys) .projects rfl : sys.Task (List Project × Nat))
      (fun r w' => Calm t w w' ∧ ∃ g, Dated w.glob g ∧ Dated g w'.glob ∧
        r = (g.cluster.projects, g.now)) (fun _ w' => Calm t w w') w :=
  safe_read (x := .projects) rfl (fun g => (g.cluster.projects, g.now)) trivial
    (fun _ _ _ ha => answer_projects ha) w

theorem safe_workspaces (w : World sys) :
    Safe (protocol options) t (askOr (S := sys) .workspaces rfl : sys.Task (List Workspace × Nat))
      (fun r w' => Calm t w w' ∧ ∃ g, Dated w.glob g ∧ Dated g w'.glob ∧
        r = (g.cluster.workspaces, g.now)) (fun _ w' => Calm t w w') w :=
  safe_read (x := .workspaces) rfl (fun g => (g.cluster.workspaces, g.now)) trivial
    (fun _ _ _ ha => answer_workspaces ha) w

/-- A moment between two moments of one revision has their cluster. -/
theorem Dated.between {g g' g'' : Glob} (h : Dated g g') (h' : Dated g' g'')
    (heq : g''.revision = g.revision) : g'.cluster = g.cluster := by
  have hle := h.le
  have hle' := h'.le
  exact h.same (by omega)

theorem safe_readBoth (projectsFirst : Bool) (w : World sys) :
    Safe (protocol options) t (readBoth projectsFirst)
      (fun r w' => Calm t w w' ∧ (w'.glob.revision = w.glob.revision →
        r.1 = w.glob.cluster.projects ∧ r.2.1 = w.glob.cluster.workspaces))
      (fun _ w' => Calm t w w') w := by
  unfold readBoth
  split
  · apply Safe.bind
    apply Safe.mono (safe_projects w) _ fun _ _ h => h
    rintro read₁ w₁ ⟨hcalm₁, g₁, hfrom₁, hto₁, rfl⟩ _
    apply Safe.bind
    apply Safe.mono (safe_workspaces w₁) _ fun _ _ h => hcalm₁.trans h
    rintro read₂ w₂ ⟨hcalm₂, g₂, hfrom₂, hto₂, rfl⟩ _
    refine Safe.ret fun w₃ hr _ => ⟨(hcalm₁.trans hcalm₂).trans hr.2, fun heq => ⟨?_, ?_⟩⟩
    · rw [hfrom₁.between (hto₁.trans (hcalm₂.trans hr.2).dated) heq]
    · rw [(hcalm₁.dated.trans hfrom₂).between (hto₂.trans hr.2.dated) heq]
  · apply Safe.bind
    apply Safe.mono (safe_workspaces w) _ fun _ _ h => h
    rintro read₁ w₁ ⟨hcalm₁, g₁, hfrom₁, hto₁, rfl⟩ _
    apply Safe.bind
    apply Safe.mono (safe_projects w₁) _ fun _ _ h => hcalm₁.trans h
    rintro read₂ w₂ ⟨hcalm₂, g₂, hfrom₂, hto₂, rfl⟩ _
    refine Safe.ret fun w₃ hr _ => ⟨(hcalm₁.trans hcalm₂).trans hr.2, fun heq => ⟨?_, ?_⟩⟩
    · rw [(hcalm₁.dated.trans hfrom₂).between (hto₂.trans hr.2.dated) heq]
    · rw [hfrom₁.between (hto₁.trans (hcalm₂.trans hr.2).dated) heq]

section Reads

variable (session : SessionOptions)

theorem safe_records (w : World sys) : Safe (protocol options) t (records session)
    (fun r w' => Calm t w w' ∧ (w'.glob.revision = w.glob.revision →
      r = (visibleProjects session w.glob.cluster.projects,
        visibleWorkspaces session w.glob.cluster.workspaces)))
    (fun _ w' => Calm t w w') w := by
  unfold records
  refine safe_plain (x := .race) trivial fun w₁ c a hcalm₁ _ _ hafter₁ => ?_
  have hstart := hcalm₁.trans hafter₁
  change Safe (protocol options) t (readBoth a.res >>= _) _ _ _
  apply Safe.bind
  apply Safe.mono (safe_readBoth _ _) _ fun _ _ h => hstart.trans h
  rintro ⟨projects, workspaces, now⟩ w₂ ⟨hcalm₂, hread⟩ _
  simp only
  unfold authorizedRecords
  split
  · exact Safe.fail fun w₃ hr _ => (hstart.trans hcalm₂).trans hr.2
  · refine Safe.ret fun w₃ hr _ => ⟨(hstart.trans hcalm₂).trans hr.2, fun heq => ?_⟩
    have hle := hstart.dated.le
    have hle₂ := hcalm₂.dated.le
    have hle₃ := hr.2.dated.le
    have hsame := hstart.dated.same (by omega)
    obtain ⟨hprojects, hworkspaces⟩ := hread (by omega)
    simp only at hprojects hworkspaces
    rw [hprojects, hworkspaces, hsame]

/-- The labels of each workspace, looked up by its name. -/
def Labelled (session : SessionOptions) (catalog : CatalogState) (active : List Workspace)
    (labels : List (String × List String)) : Prop :=
  (active.map (·.metadata.name)).Nodup → ∀ workspace ∈ active,
    (labels.lookup workspace.metadata.name).getD [] =
      if session.labels then labelsFor catalog workspace else []

theorem labelled_many {catalog : CatalogState} {active : List Workspace}
    (hlabels : session.labels = true) : Labelled session catalog active
      (active.map fun w => (w.metadata.name, labelsFor catalog w)) := by
  intro hnodup workspace hmem
  rw [if_pos hlabels]
  induction active with
  | nil => cases hmem
  | cons first rest ih =>
    rw [List.map_cons, List.nodup_cons] at hnodup
    rw [List.map_cons, List.lookup_cons]
    rcases List.mem_cons.mp hmem with rfl | hrest
    · simp
    · have hne : workspace.metadata.name ≠ first.metadata.name := by
        intro heq
        exact hnodup.1 (heq ▸ List.mem_map_of_mem hrest)
      rw [beq_false_of_ne hne]
      exact ih hnodup.2 hrest

theorem safe_labelsMany (active : List Workspace) (w : World sys) :
    Safe (protocol options) t (labelsMany session active)
      (fun labels w' => Calm t w w' ∧ (w'.glob.revision = w.glob.revision →
        Labelled session w.glob.cluster.catalog active labels))
      (fun _ w' => Calm t w w') w := by
  unfold labelsMany
  split
  · rename_i hnone
    refine Safe.ret fun w₁ hr _ => ⟨hr.2, fun _ _ workspace hmem => ?_⟩
    rcases hnone with hoff | hempty
    · rw [if_neg hoff]
      rfl
    · rw [List.isEmpty_iff.mp hempty] at hmem
      cases hmem
  · rename_i hsome
    have hlabels : session.labels = true := by
      by_contra hoff
      exact hsome (.inl hoff)
    apply Safe.bind
    apply Safe.mono (safe_read (x := .catalog) rfl (fun g => g.cluster.catalog) trivial
      (fun _ _ _ ha => answer_catalog ha) w) _ fun _ _ h => h
    rintro state w₁ ⟨hcalm₁, g, hfrom, hto, rfl⟩ _
    refine Safe.ret fun w₂ hr _ => ⟨hcalm₁.trans hr.2, fun heq => ?_⟩
    rw [hfrom.between (hto.trans hr.2.dated) heq]
    exact labelled_many session hlabels

end Reads

/-! ### A pass -/

/-- The session is refreshing in the name of `t`. -/
def Passing (t : Tid) (revision : Nat) (w : World sys) : Prop :=
  (w.mem t.proc).refreshing = some (t, revision)

/-- The pass has computed the descriptors of these workspaces and no others. -/
structure Visiting (t : Tid) (revision : Nat) (projects : List Project)
    (labels : List (String × List String)) (done : List Workspace) (w : World sys) : Prop where
  passing : Passing t revision w
  computed : (w.mem t.proc).closed = false → ∀ id d r,
    visited id (w.mem t.proc).directoryLog = some (d, r) →
      ∃ workspace ∈ done, workspace.metadata.name = id ∧
        ∃ project, projectFor workspace projects = some project ∧
          d = workspaceDescriptor workspace project r
            ((labels.lookup workspace.metadata.name).getD [])
  covered : (w.mem t.proc).closed = false → ∀ workspace ∈ done,
    (visited workspace.metadata.name (w.mem t.proc).directoryLog).isSome

/-- The pass has begun and computed nothing. -/
structure Begun (t : Tid) (revision : Nat) (w : World sys) : Prop where
  passing : Passing t revision w
  nothing : ∀ id, visited id (w.mem t.proc).directoryLog = none

section Pass

variable {revision : Nat} {projects : List Project} {labels : List (String × List String)}
  {done rest active : List Workspace}

theorem Calm.closed_before (h : Calm t w w') (ho : (w'.mem t.proc).closed = false) :
    (w.mem t.proc).closed = false := by
  by_contra hnot
  rw [h.kept.closed (by simpa using hnot)] at ho
  cases ho

theorem Passing.calm (h : Passing t revision w) (hc : Calm t w w') : Passing t revision w' :=
  (hc.kept.pass revision h).1

theorem Visiting.calm (h : Visiting t revision projects labels done w) (hc : Calm t w w') :
    Visiting t revision projects labels done w' := by
  have hsame := (hc.kept.pass revision h.passing).2
  constructor
  · exact h.passing.calm hc
  · intro hopen id d r hvis
    rw [hsame] at hvis
    exact h.computed (hc.closed_before hopen) id d r hvis
  · intro hopen workspace hmem
    rw [hsame]
    exact h.covered (hc.closed_before hopen) workspace hmem

theorem Begun.calm (h : Begun t revision w) (hc : Calm t w w') : Begun t revision w' :=
  ⟨h.passing.calm hc, fun id => ((hc.kept.pass revision h.passing).2 id).trans (h.nothing id)⟩

theorem Begun.visiting (h : Begun t revision w) (projects : List Project)
    (labels : List (String × List String)) : Visiting t revision projects labels [] w := by
  constructor
  · exact h.passing
  · intro _ id d r hvis
    rw [h.nothing id] at hvis
    cases hvis
  · intro _ workspace hmem
    cases hmem

/-- One more workspace is described. -/
theorem visiting_project {workspace : Workspace} {project : Project}
    (hv : Visiting t revision projects labels done w)
    (hp : projectFor workspace projects = some project)
    {a : Answer sys (.project workspace project labels)}
    (ha : answer options c t (.project workspace project labels) w = some a) :
    Visiting t revision projects labels (done ++ [workspace]) (after w t a) := by
  cases ha
  obtain ⟨hrefreshing, hclosed⟩ :=
    project_refreshing (m := w.mem t.proc) workspace project labels
  constructor
  · unfold Passing
    rw [after_mem]
    exact hrefreshing.trans hv.passing
  · intro hopen id d r hvis
    rw [after_mem] at hopen hvis
    have hopen' : (w.mem t.proc).closed = false := hclosed.symm.trans hopen
    have hlog := project_visited hopen' workspace project labels id
    rw [show visited id (Mem.project (w.mem t.proc) workspace project labels).directoryLog =
      some (d, r) from hvis] at hlog
    split at hlog
    · rename_i hname
      cases hlog
      exact ⟨workspace, by simp, hname, project, hp, rfl⟩
    · obtain ⟨found, hmem, hrest⟩ := hv.computed hopen' id d r hlog.symm
      exact ⟨found, List.mem_append_left _ hmem, hrest⟩
  · intro hopen found hmem
    rw [after_mem] at hopen ⊢
    have hopen' : (w.mem t.proc).closed = false := hclosed.symm.trans hopen
    change (visited found.metadata.name
      (Mem.project (w.mem t.proc) workspace project labels).directoryLog).isSome
    rw [project_visited hopen']
    split
    · rfl
    · rename_i hname
      rcases List.mem_append.mp hmem with hold | hnew
      · exact hv.covered hopen' found hold
      · rw [List.mem_singleton.mp hnew] at hname
        exact absurd rfl hname

theorem safe_projectAll (hv : Visiting t revision projects labels done w) :
    Safe (protocol options) t (projectAll projects labels rest)
      (fun _ w' => Visiting t revision projects labels (done ++ rest) w' ∧ Dated w.glob w'.glob)
      (fun _ w' => Passing t revision w') w := by
  induction rest generalizing done w with
  | nil =>
    refine Safe.ret fun w₁ hr _ => ?_
    rw [List.append_nil]
    exact ⟨hv.calm hr.2, hr.2.dated⟩
  | cons workspace rest ih =>
    unfold projectAll
    apply Safe.bind
    apply Safe.mono (calmly_reconnect workspace w) _ fun _ w₁ h => hv.passing.calm h
    intro _ w₁ hcalm₁ _
    have hv₁ := hv.calm hcalm₁
    cases hp : projectFor workspace projects with
    | none => exact Safe.fail fun w₂ hr _ => hv₁.passing.calm hr.2
    | some project =>
      refine safe_owned (x := .project workspace project labels) fun w₂ c a hcalm₂ _ ha => ?_
      have hv₂ := hv₁.calm hcalm₂
      have hv₃ := visiting_project hv₂ hp ha
      cases ha
      refine ⟨rfl, owned_project hv₂.passing workspace project labels, ?_⟩
      apply Safe.mono (ih hv₃) _ fun _ _ h => h
      rintro _ w₃ ⟨hdone, hdated⟩
      rw [List.append_assoc] at hdone
      refine ⟨hdone, (hcalm₁.trans hcalm₂).dated.trans ?_⟩
      rw [after_glob] at hdated
      exact hdated

/-- The directory of a cluster that has not changed is what the pass has computed. -/
theorem directory_visited {session : SessionOptions} {cluster : Cluster} {m : Mem}
    (hlabelled : Labelled session cluster.catalog
      (unarchived (visibleWorkspaces session cluster.workspaces)) labels)
    (hcomputed : ∀ id d r, visited id m.directoryLog = some (d, r) →
      ∃ workspace ∈ unarchived (visibleWorkspaces session cluster.workspaces),
        workspace.metadata.name = id ∧
          ∃ project, projectFor workspace (visibleProjects session cluster.projects) =
              some project ∧
            d = workspaceDescriptor workspace project r
              ((labels.lookup workspace.metadata.name).getD []))
    (hcovered : ∀ workspace ∈ unarchived (visibleWorkspaces session cluster.workspaces),
      (visited workspace.metadata.name m.directoryLog).isSome)
    (hcurrent : ∀ id d r, visited id m.directoryLog = some (d, r) →
      m.workspaceRuntime.get id = r) (id : String) :
    (directory session cluster m).find? (·.id = id) =
      (visited id m.directoryLog).map Prod.fst := by
  have hnodup : ((unarchived (visibleWorkspaces session cluster.workspaces)).map
      (·.metadata.name)).Nodup :=
    cluster.nodup.sublist ((List.filter_sublist.trans List.filter_sublist).map _)
  have hids : ((directory session cluster m).map (·.id)).Nodup := by
    unfold directory
    rw [List.Nodup, List.pairwise_map, List.pairwise_filterMap]
    rw [List.Nodup, List.pairwise_map] at hnodup
    apply hnodup.imp
    intro a b hne d hd d' hd'
    obtain ⟨p, _, rfl⟩ := Option.map_eq_some_iff.mp hd
    obtain ⟨p', _, rfl⟩ := Option.map_eq_some_iff.mp hd'
    exact hne
  cases hvis : visited id m.directoryLog with
  | none =>
    rw [Option.map_none, List.find?_eq_none]
    intro d hd hid
    obtain ⟨workspace, hmem, hsome⟩ := List.mem_filterMap.mp hd
    obtain ⟨project, _, rfl⟩ := Option.map_eq_some_iff.mp hsome
    have hname : workspace.metadata.name = id := of_decide_eq_true hid
    have hseen := hcovered workspace hmem
    rw [hname, hvis] at hseen
    cases hseen
  | some p =>
    obtain ⟨d, r⟩ := p
    obtain ⟨workspace, hmem, hname, project, hp, rfl⟩ := hcomputed id d r hvis
    have hd : workspaceDescriptor workspace project r
        ((labels.lookup workspace.metadata.name).getD []) ∈ directory session cluster m := by
      refine List.mem_filterMap.mpr ⟨workspace, hmem, ?_⟩
      rw [hp, Option.map_some, hlabelled hnodup workspace hmem, hname, hcurrent id _ r hvis]
    rw [Option.map_some]
    simpa [hname] using Js.find?_of_nodup hids hd

/-- The part of a pass that describes the directory. -/
theorem safe_describe {workspaces : List Workspace} {g : Glob} (hbegun : Begun t revision w)
    (hrevision : g.revision = revision)
    (hread : Held g (projects = visibleProjects (options t.proc) g.cluster.projects ∧
      workspaces = visibleWorkspaces (options t.proc) g.cluster.workspaces) w.glob) :
    Safe (protocol options) t (do
      let labels ← labelsMany (options t.proc) (unarchived workspaces)
      projectAll projects labels (unarchived workspaces)
      ask (S := sys) (.sweep (unarchived workspaces)))
      (fun _ _ => True) (fun _ w' => Passing t revision w') w := by
  apply Safe.bind
  apply Safe.mono (safe_labelsMany (options t.proc) (unarchived workspaces) w) _
    fun _ _ h => hbegun.passing.calm h
  rintro labels w₁ ⟨hcalm₁, hlabels⟩ _
  have hlabelled : Held g (Labelled (options t.proc) g.cluster.catalog
      (unarchived workspaces) labels) w₁.glob := by
    refine ⟨hread.dated.trans hcalm₁.dated, fun heq => ?_⟩
    have hle := hread.dated.le
    have hle₁ := hcalm₁.dated.le
    rw [← hread.dated.same (by omega)]
    exact hlabels (by omega)
  apply Safe.bind
  apply Safe.mono (safe_projectAll ((hbegun.calm hcalm₁).visiting projects labels)) _
    fun _ _ h => h
  rintro _ w₂ ⟨hv₂, hdated₂⟩ _
  rw [List.nil_append] at hv₂
  refine safe_owned (x := .sweep (unarchived workspaces)) fun w₃ c a hcalm₃ hi₃ ha => ?_
  have hv₃ := hv₂.calm hcalm₃
  have hread₃ := (hread.later hcalm₁.dated).later (hdated₂.trans hcalm₃.dated)
  have hlabelled₃ := hlabelled.later (hdated₂.trans hcalm₃.dated)
  cases ha
  refine ⟨rfl, owned_sweep hv₃.passing ?_ ?_, Safe.ret fun _ _ _ => trivial⟩
  · intro hopen id
    constructor
    · intro hid
      obtain ⟨workspace, hmem, rfl⟩ := List.mem_map.mp hid
      exact hv₃.covered hopen workspace hmem
    · intro hsome
      obtain ⟨⟨d, r⟩, hvis⟩ := Option.isSome_iff_exists.mp hsome
      obtain ⟨workspace, hmem, rfl, -⟩ := hv₃.computed hopen id d r hvis
      exact List.mem_map.mpr ⟨workspace, hmem, rfl⟩
  · intro hopen hunchanged halong id
    have hrev : w₃.glob.revision = g.revision := by
      have hpass := hv₃.passing
      unfold Passing at hpass
      simp only [unchanged, hpass, beq_iff_eq] at hunchanged
      rw [hrevision, hunchanged]
    obtain ⟨rfl, rfl⟩ := hread₃.holds hrev
    have hlab := hlabelled₃.holds hrev
    rw [hread₃.dated.same hrev]
    apply directory_visited hlab (hv₃.computed hopen) (hv₃.covered hopen)
    exact (hi₃ t.proc).directed.current hopen halong

theorem safe_refresh (turns : Nat) (hbegun : Begun t revision w)
    (hrevision : w.glob.revision = revision) :
    Safe (protocol options) t (refresh (options t.proc) turns) (fun _ _ => True)
      (fun _ w' => Passing t revision w') w := by
  unfold refresh
  apply Safe.bind
  apply Safe.mono (safe_records (options t.proc) w) _ fun _ _ h => hbegun.passing.calm h
  rintro ⟨projects, workspaces⟩ w₁ ⟨hcalm₁, hrecords⟩ _
  have hbegun₁ := hbegun.calm hcalm₁
  have hread : Held w.glob (projects = visibleProjects (options t.proc) w.glob.cluster.projects ∧
      workspaces = visibleWorkspaces (options t.proc) w.glob.cluster.workspaces) w₁.glob :=
    ⟨hcalm₁.dated, fun heq => by simpa using hrecords heq⟩
  simp only
  apply Safe.bind
  apply Safe.mono (Calmly.plain (only_retireStale (unarchived workspaces) turns 0) w₁) _
    fun _ _ h => hbegun₁.passing.calm h
  intro _ w₂ hcalm₂ _
  have hbegun₂ := hbegun₁.calm hcalm₂
  refine safe_owned (x := .watching) fun w₃ c a hcalm₃ _ ha => ?_
  have hbegun₃ := hbegun₂.calm hcalm₃
  cases ha
  refine ⟨rfl, owned_watching hbegun₃.passing, ?_⟩
  by_cases hwatching : (w₃.mem t.proc).watchingWorkspaces = true
  · -- the check itself changes nothing when the pass goes on
    have hsame : (w₃.mem t.proc).watching = (true, w₃.mem t.proc) := by
      simp [Mem.watching, hwatching]
    rw [hsame]
    have hcalm₄ : Calm t w₃ (after w₃ t (effect w₃ (true, w₃.mem t.proc) :
        Answer sys .watching)) := calm_of_routine rfl (Routine.refl _)
    exact safe_describe (hbegun₃.calm hcalm₄) hrevision
      (hread.later ((hcalm₂.trans hcalm₃).trans hcalm₄).dated)
  · have hstop : (w₃.mem t.proc).watching = (false, (w₃.mem t.proc).endRefresh) := by
      simp [Mem.watching, hwatching]
    rw [hstop]
    exact Safe.ret fun _ _ _ => trivial

theorem safe_abandon (error : Err) (hpass : Passing t revision w) :
    Safe (protocol options) t (abandon error) (fun _ _ => True) (fun _ _ => True) w := by
  unfold abandon
  refine safe_plain (x := .connections) trivial fun w₁ c₁ a₁ hcalm₁ _ _ hafter₁ => ?_
  refine safe_plain (x := .clearFailed a₁.res) trivial fun w₂ c₂ a₂ hcalm₂ _ _ hafter₂ => ?_
  have hpass₂ := (((hpass.calm hcalm₁).calm hafter₁).calm hcalm₂).calm hafter₂
  change Safe (protocol options) t (closeEach a₂.res >>= _) _ _ _
  apply Safe.bind
  apply Safe.mono (Calmly.plain (only_closeEach a₂.res) _) _ fun _ _ _ => trivial
  intro _ w₃ hcalm₃ _
  refine safe_owned (x := .endRefresh) fun w₄ c₄ a₄ hcalm₄ _ ha₄ => ?_
  cases ha₄
  have hpass₄ := (hpass₂.calm hcalm₃).calm hcalm₄
  exact ⟨rfl, owned_endRefresh hpass₄, Safe.fail fun _ _ _ => trivial⟩

theorem safe_refreshDirectory (turns : Nat) (w : World sys) :
    Safe (protocol options) t (refreshDirectory (options t.proc) turns) (fun _ _ => True)
      (fun _ _ => True) w := by
  unfold refreshDirectory
  refine safe_plain (x := .beginRefresh) trivial fun w₁ c a _ _ ha hafter => ?_
  cases ha
  by_cases hbusy : (w₁.mem t.proc).closed = true ∨ (w₁.mem t.proc).refreshing.isSome
  · have hskip : (w₁.mem t.proc).beginRefresh t w₁.glob.revision = (false, w₁.mem t.proc) := by
      unfold Mem.beginRefresh
      rw [if_pos hbusy]
    rw [hskip]
    exact Safe.ret fun _ _ _ => trivial
  · have hbegin : (w₁.mem t.proc).beginRefresh t w₁.glob.revision = (true,
        { w₁.mem t.proc with
          refreshing := some (t, w₁.glob.revision)
          directoryLog := .began :: (w₁.mem t.proc).directoryLog }) := by
      unfold Mem.beginRefresh
      rw [if_neg hbusy]
    rw [hbegin]
    refine Safe.bind (p := (refresh (options t.proc) turns).attempt) ?_
    apply Safe.attempt
    apply Safe.mono (safe_refresh turns ?_ rfl)
    · exact fun _ _ _ _ => Safe.ret fun _ _ _ => trivial
    · exact fun error w₂ hpass _ => safe_abandon error hpass
    · constructor
      · unfold Passing
        rw [after_mem]
        rfl
      · intro id
        rw [after_mem]
        rfl

end Pass

/-! ### Every run -/

theorem safe_program (call : Call) (w : World sys) :
    Safe (protocol options) t (program (options t.proc) call) (fun _ _ => True)
      (fun _ _ => True) w := by
  cases call with
  | connection workspace =>
    apply Calmly.finish
    apply Calmly.seq (calmly_connection workspace w)
    exact fun _ w' => Calmly.ret () w'
  | fetchWorkspaces subscribe =>
    exact (Calmly.plain (only_fetchWorkspaces (options t.proc) subscribe) w).finish
  | subscribeTerminal workspace =>
    exact (calmly_subscribeTerminal (options t.proc) workspace w).finish
  | binary slot => exact safe_binary (options t.proc) slot w
  | refreshDirectory turns => exact safe_refreshDirectory turns w
  | close => exact safe_close w
  | onWorkspaceUpdate turns e runtime =>
    have hnext : ∀ (learned : Bool) w₁, Safe (protocol options) t
        (if learned then refreshDirectory (options t.proc) turns else .ret ())
        (fun _ _ => True) (fun _ _ => True) w₁ := by
      intro learned w₁
      split
      · exact safe_refreshDirectory turns w₁
      · exact Safe.ret fun _ _ _ => trivial
    exact safe_plain (x := .onWorkspaceUpdate e runtime) trivial fun _ _ a _ _ _ _ =>
      hnext a.res _
  | onBinary e backendSlot =>
    apply Calmly.finish
    apply Calmly.plain
    refine only_askOr rfl (by trivial) fun _ => ?_
    trivial
  | opening e => exact (Calmly.plain (only_opening e) w).finish
  | attempt parent i workspace => exact (calmly_attempt parent i workspace w).finish
  | releasing parent e => exact safe_releasing parent e w

theorem sound : (protocol options).Sound where
  init := fun _ => Ok.fresh
  start := by
    intro w p call hi _
    exact ⟨hi, fun u _ => ⟨Kept.refl u _, ⟨Nat.le_refl _, fun _ => rfl⟩⟩, trivial⟩
  crash := by
    intro w p hi
    constructor
    · intro p'
      by_cases hp : p' = p
      · simp [Machine.crashed, hp, Ok.fresh]
      · simp only [Machine.crashed, Function.update_of_ne hp]
        exact hi p'
    · intro u hu
      constructor
      · simp only [Machine.crashed, Function.update_of_ne hu]
        exact Kept.refl u _
      · exact ⟨Nat.le_refl _, fun _ => rfl⟩
  env := by
    intro w e new g hi he
    refine ⟨hi, fun u => ⟨Kept.refl u _, ?_⟩⟩
    cases e with
    | cluster cluster =>
      cases he
      constructor
      · exact Nat.le_succ _
      · intro heq
        simp at heq
    | tick now =>
      cases he
      exact ⟨Nat.le_refl _, fun _ => rfl⟩
  body := fun _ _ _ _ _ => safe_program _ _

theorem ok_of_reachable {c : (machine options).Config} (h : (machine options).Reachable c)
    (p : Nat) : Ok (c.world.mem p) := (sound.reachable h).inv p

end PaseoGateway.Session

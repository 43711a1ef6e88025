/-
  PaseoGateway/CodexBridgeSafety.lean
  ===================================
  **Client traffic stays behind the login and in order.**

  What was forwarded is read off the log and compared with what has arrived: before
  the login is confirmed only the first `initialize`, afterwards that and every
  wanted message in the order of arrival (`Core`).  The answer to `initialize`
  starts one login, because it comes once; what that login has come to is the
  `Phase`.  What the queue holds matters only while the bridge has not been stopped
  (`Live`).
-/
import PaseoGateway.CodexBridge

namespace PaseoGateway.CodexBridge

open Json (field? setField lookup_setField)

/-! ### What the log says -/

abbrev Log := List Entry

/-- The messages of the client in the order of their arrival. -/
def arrivals : Log → List Json
  | [] => []
  | .client m :: older => arrivals older ++ [m]
  | _ :: older => arrivals older

/-- The messages of the client that were sent to the child, in that order. -/
def forwards : Log → List Json
  | [] => []
  | .forwarded m :: older => forwards older ++ [m]
  | _ :: older => forwards older

/-- What the client may send to a child that is logged in. -/
def wanted (m : Json) : Bool :=
  !(hasMethod "initialize" m || hasMethod "initialized" m ||
    (hasMethod "account/login/start" m || hasMethod "account/logout" m))

/-- The first `initialize` of the client. -/
def first (log : Log) : Option Json := (arrivals log).find? (hasMethod "initialize")

/-- The first `initialize` as it is sent. -/
def opening (log : Log) : List Json := ((first log).map extendCapabilities).toList

/-- The bridge has logged in with this id. -/
def LoginSent (id : String) (log : Log) : Prop :=
  ∃ credentials, .sent (loginMessage id credentials) ∈ log

/-- The entry is the child's reply that confirms the bridge's own login. -/
def Accepts (older : Log) : Entry → Prop
  | .child reply => ∃ id, id? reply = some (.str id) ∧ LoginSent id older ∧
      .stopped ∉ older ∧ Bridge.confirms reply = true
  | _ => False

def Accepted : Log → Prop
  | [] => False
  | e :: older => Accepts older e ∨ Accepted older

/-! ### What the two sides send -/

/-- The entry is a request to the child with this id. -/
def requests (id : Json) : Entry → Bool
  | .forwarded m | .sent m => (field? "method" m).isSome && same (id? m) (some id)
  | _ => false

/-- The entry is the answer of the child to a request with this id. -/
def answers (id : Json) : Entry → Bool
  | .child m => (hasResult m || (field? "error" m).isSome) && same (id? m) (some id)
  | _ => false

/-- The requests with this id that have not been answered. -/
def unanswered (id : Json) : Log → Nat
  | [] => 0
  | e :: older =>
    if answers id e then unanswered id older - 1
    else if requests id e then unanswered id older + 1
    else unanswered id older

/-- Each request is answered at most once. -/
def AnsweredOnce : Log → Prop
  | [] => True
  | e :: older => (∀ id, answers id e = true → (∃ r ∈ older, requests id r = true) →
      0 < unanswered id older) ∧ AnsweredOnce older

/-- The traffic of a client and a child that speak JSON-RPC: an `initialize` has an id,
    which is no array or object, a message with a result has an id, and a request is
    answered at most once. -/
structure Traffic (log : Log) : Prop where
  identified : ∀ m, .client m ∈ log → hasMethod "initialize" m = true →
    ∃ id, id? m = some id ∧ isReference id = false
  results : ∀ m, .child m ∈ log → hasResult m = true → (id? m).isSome = true
  once : AnsweredOnce log

theorem Traffic.older {e : Entry} {log : Log} (h : Traffic (e :: log)) : Traffic log where
  identified := fun m hm => h.identified m (List.mem_cons_of_mem _ hm)
  results := fun m hm => h.results m (List.mem_cons_of_mem _ hm)
  once := h.once.2

theorem Traffic.suffix {newer log : Log} (h : Traffic (newer ++ log)) : Traffic log := by
  induction newer with
  | nil => exact h
  | cons e newer ih => exact ih h.older

/-! ### Values -/

theorem eq_of_same {a b : Option Json} (h : same a b = true) : a = b := by
  unfold same at h
  split at h <;> simp_all

theorem same_self {a : Json} (h : isReference a = false) : same (some a) (some a) = true := by
  cases a with
  | arr items => cases h
  | obj fields => cases h
  | _ => simp [same]

/-- A property of a value as `{ ...value }` copies it. -/
def property (value : Option Json) (key : String) : Option Json := (spread value).lookup key

theorem field?_eq_property {m : Json} {key : String} (h : hasMethod "initialize" m = true) :
    field? key m = property (some m) key := by
  cases m with
  | obj fields => rfl
  | _ => cases h

/-- Only the capabilities of the parameters are extended. -/
structure OnlyCapabilities (m m' : Json) : Prop where
  fields : ∀ key, key ≠ "params" → field? key m' = field? key m
  params : ∀ key, key ≠ "capabilities" →
    (field? "params" m').bind (field? key) = property (field? "params" m) key
  capabilities : ∀ key, key ≠ "experimentalApi" →
    (((field? "params" m').bind (field? "capabilities")).bind (field? key)) =
      property ((field? "params" m).bind (field? "capabilities")) key
  experimentalApi : (((field? "params" m').bind (field? "capabilities")).bind
    (field? "experimentalApi")) = some (.bool true)

theorem extendCapabilities_only {m : Json} (h : hasMethod "initialize" m = true) :
    OnlyCapabilities m (extendCapabilities m) := by
  have hfield : ∀ key, field? key (.obj (spread (some m))) = field? key m := by
    intro key
    rw [field?_eq_property h]
    rfl
  refine ⟨fun key hkey => ?_, fun key hkey => ?_, fun key hkey => ?_, ?_⟩
  · rw [← hfield key]
    simp [extendCapabilities, field?, lookup_setField, hkey]
  · simp [extendCapabilities, field?, lookup_setField, hkey, property]
  · simp [extendCapabilities, field?, lookup_setField, hkey, property]
  · simp [extendCapabilities, field?, lookup_setField]

theorem id?_extendCapabilities {m : Json} (h : hasMethod "initialize" m = true) :
    id? (extendCapabilities m) = id? m :=
  (extendCapabilities_only h).fields "id" (by decide)

theorem method_extendCapabilities {m : Json} (h : hasMethod "initialize" m = true) :
    field? "method" (extendCapabilities m) = field? "method" m :=
  (extendCapabilities_only h).fields "method" (by decide)

theorem hasMethod_extendCapabilities {m : Json} {name : String}
    (h : hasMethod "initialize" m = true) :
    hasMethod name (extendCapabilities m) = hasMethod name m := by
  rw [hasMethod, method_extendCapabilities h, hasMethod]

theorem field?_of_hasMethod {m : Json} {name : String} (h : hasMethod name m = true) :
    field? "method" m = some (.str name) := by
  unfold hasMethod at h
  split at h
  · rename_i method hm
    rw [hm, beq_iff_eq.mp h]
  · cases h

theorem hasMethod_unique {m : Json} {name other : String} (h : hasMethod name m = true)
    (hne : name ≠ other) : hasMethod other m = false := by
  rw [hasMethod, field?_of_hasMethod h]
  simpa using hne

@[simp] theorem hasResult_failureMessage (id : Option Json) :
    hasResult (failureMessage id) = false := by
  cases id <;> rfl

@[simp] theorem id?_loginMessage (id : String) (credentials : Fields) :
    id? (loginMessage id credentials) = some (.str id) := rfl

/-! ### The invariant -/

def login? : Waiting → Option Json
  | .login m _ => some m
  | _ => none

/-- The answers to `initialize` that wait for the access file. -/
def logins (waiting : List Waiting) : List Json := waiting.filterMap login?

/-- What has become of the login. -/
inductive Phase (s : Bridge) : Prop where
  | fresh (hlogins : logins s.waiting = []) (hpending : s.pendingAuth = [])
      (htimers : s.timers = []) (hinitialized : s.initialized = false)
      (hconfirmed : .confirmed ∉ s.log) (hfailed : .loginFailed ∉ s.log)
      (hnone : s.initialization = none → ∀ id, unanswered id s.log = 0)
      (hone : ∀ id, unanswered id s.log ≤ 1)
  | reading (withheld id : Json) (hlogins : logins s.waiting = [withheld])
      (hpending : s.pendingAuth = []) (htimers : s.timers = [])
      (hinitialized : s.initialized = false) (hconfirmed : .confirmed ∉ s.log)
      (hfailed : .loginFailed ∉ s.log) (hinit : s.initialization = some id)
      (hanswered : unanswered id s.log = 0)
  | pending (id : Json) (hlogins : logins s.waiting = [])
      (hpending : (s.pendingAuth = [] ∧ s.timers = []) ∨
        ∃ login withheld timer, s.pendingAuth = [(login, withheld, timer)] ∧
          s.timers = [(timer, login)])
      (hinitialized : s.initialized = true) (hconfirmed : .confirmed ∉ s.log)
      (hfailed : .loginFailed ∉ s.log) (hinit : s.initialization = some id)
      (hanswered : unanswered id s.log = 0)
  | confirmed (hlogins : logins s.waiting = []) (hpending : s.pendingAuth = [])
      (htimers : s.timers = []) (hinitialized : s.initialized = true)
      (hconfirmed : .confirmed ∈ s.log) (hfailed : .loginFailed ∉ s.log)
      (hinit : s.initialization.isSome = true)
  | failed (id : Json) (hlogins : logins s.waiting = []) (hpending : s.pendingAuth = [])
      (htimers : s.timers = []) (hconfirmed : .confirmed ∉ s.log)
      (hfailed : .loginFailed ∈ s.log) (hinit : s.initialization = some id)
      (hanswered : unanswered id s.log = 0)

/-- What may follow a log: a message of the client goes to the child as its opening or
    after the login, and so does an answer to `initialize` to the client. -/
def Allowed (older : Log) : Entry → Prop
  | .forwarded m => .confirmed ∈ older ∨ (forwards older = [] ∧ opening older = [m])
  | .emitted m => hasResult m = true → ∀ request, .forwarded request ∈ older →
      hasMethod "initialize" request = true → id? m = id? request → .confirmed ∈ older
  | _ => True

def History : Log → Prop
  | [] => True
  | e :: older => Allowed older e ∧ History older

/-- What holds whether the bridge has been stopped or not. -/
structure Core (s : Bridge) : Prop where
  stopped : s.stopped = true ↔ .stopped ∈ s.log
  authenticated : s.authenticated = true ↔ .confirmed ∈ s.log
  initialization : s.initialization = (first s.log).bind id?
  fenced : s.authenticated = false → forwards s.log = opening s.log
  through : s.authenticated = true →
    s.queued = [] ∧ forwards s.log = opening s.log ++ (arrivals s.log).filter wanted
  history : History s.log
  pending : ∀ p ∈ s.pendingAuth, LoginSent p.1 s.log
  accepted : Accepted s.log ↔ .confirmed ∈ s.log
  phase : Phase s

/-- What holds while the bridge has not been stopped. -/
structure Live (s : Bridge) : Prop where
  queue : s.authenticated = false →
    (s.queued.filter fun m => !hasMethod "initialized" m) = (arrivals s.log).filter wanted
  login : ∀ id, LoginSent id s.log → s.authenticated = true ∨ ∃ p ∈ s.pendingAuth, p.1 = id

structure Inv (s : Bridge) : Prop where
  core : Core s
  live : s.stopped = false → Live s

theorem loginSent_cons {id : String} {e : Entry} {log : Log} :
    LoginSent id (e :: log) ↔
      (∃ credentials, e = .sent (loginMessage id credentials)) ∨ LoginSent id log := by
  constructor
  · rintro ⟨credentials, hmem⟩
    rcases List.mem_cons.mp hmem with rfl | hold
    · exact .inl ⟨credentials, rfl⟩
    · exact .inr ⟨credentials, hold⟩
  · rintro (⟨credentials, rfl⟩ | ⟨credentials, hold⟩)
    · exact ⟨credentials, List.mem_cons_self⟩
    · exact ⟨credentials, List.mem_cons_of_mem _ hold⟩

/-! ### Entries that change nothing -/

/-- The entry leaves alone what the invariant reads off the log, logins apart. -/
def Quiet (older : Log) : Entry → Prop
  | .emitted m => Allowed older (.emitted m)
  | .sent _ => True
  | .child m => Accepts older (.child m) → Accepted older
  | _ => False

/-- The fields the invariant compares with the log are as they were. -/
structure Steady (s s' : Bridge) : Prop where
  stopped : s'.stopped = s.stopped := by rfl
  authenticated : s'.authenticated = s.authenticated := by rfl
  initialization : s'.initialization = s.initialization := by rfl
  queued : s'.queued = s.queued := by rfl

theorem Core.quiet {s s' : Bridge} {e : Entry} (h : Core s) (hquiet : Quiet s.log e)
    (hlog : s'.log = e :: s.log) (hsteady : Steady s s')
    (hpending : ∀ p ∈ s'.pendingAuth, LoginSent p.1 s'.log) (hphase : Phase s') : Core s' := by
  have hstopped : .stopped ∈ s'.log ↔ .stopped ∈ s.log := by
    rw [hlog]
    cases e <;> simp [Quiet] at hquiet ⊢
  have hconfirmed : .confirmed ∈ s'.log ↔ .confirmed ∈ s.log := by
    rw [hlog]
    cases e <;> simp [Quiet] at hquiet ⊢
  have harrivals : arrivals s'.log = arrivals s.log := by
    rw [hlog]
    cases e <;> first | rfl | exact hquiet.elim
  have hforwards : forwards s'.log = forwards s.log := by
    rw [hlog]
    cases e <;> first | rfl | exact hquiet.elim
  have hopening : opening s'.log = opening s.log := by rw [opening, first, harrivals]; rfl
  have haccepted : Accepted s'.log ↔ Accepted s.log := by
    rw [hlog]
    cases e with
    | child m => exact ⟨fun ha => ha.elim hquiet id, .inr⟩
    | emitted m => exact ⟨fun ha => ha.resolve_left id, .inr⟩
    | sent m => exact ⟨fun ha => ha.resolve_left id, .inr⟩
    | _ => exact hquiet.elim
  have hallowed : Allowed s.log e := by
    cases e with
    | emitted m => exact hquiet
    | forwarded m => exact hquiet.elim
    | _ => trivial
  refine ⟨?_, ?_, ?_, ?_, ?_, ?_, hpending, ?_, hphase⟩
  · rw [hsteady.stopped, hstopped]
    exact h.stopped
  · rw [hsteady.authenticated, hconfirmed]
    exact h.authenticated
  · rw [hsteady.initialization, first, harrivals]
    exact h.initialization
  · rw [hsteady.authenticated, hforwards, hopening]
    exact h.fenced
  · rw [hsteady.authenticated, hsteady.queued, hforwards, hopening, harrivals]
    exact h.through
  · rw [hlog]
    exact ⟨hallowed, h.history⟩
  · rw [haccepted, hconfirmed]
    exact h.accepted

/-- The state of the login, and what it is judged by, are as they were; a pending login
    may have been given up. -/
structure Alike (s s' : Bridge) : Prop where
  logins : logins s'.waiting = logins s.waiting := by rfl
  pending : (s'.pendingAuth = s.pendingAuth ∧ s'.timers = s.timers) ∨
    (s'.pendingAuth = [] ∧ s'.timers = []) := by exact .inl ⟨rfl, rfl⟩
  initialized : s'.initialized = s.initialized := by rfl
  initialization : s'.initialization = s.initialization := by rfl
  confirmed : .confirmed ∈ s'.log ↔ .confirmed ∈ s.log := by simp
  failed : .loginFailed ∈ s'.log ↔ .loginFailed ∈ s.log := by simp
  unanswered : ∀ id, unanswered id s'.log ≤ unanswered id s.log

theorem Alike.idle {s s' : Bridge} (ha : Alike s s') (hp : s.pendingAuth = [])
    (ht : s.timers = []) : s'.pendingAuth = [] ∧ s'.timers = [] := by
  rcases ha.pending with ⟨hp', ht'⟩ | hcleared
  · exact ⟨hp'.trans hp, ht'.trans ht⟩
  · exact hcleared

theorem Phase.alike {s s' : Bridge} (h : Phase s) (ha : Alike s s') : Phase s' := by
  have hzero : ∀ id, unanswered id s.log = 0 → unanswered id s'.log = 0 := fun id hid =>
    Nat.le_zero.mp (hid ▸ ha.unanswered id)
  have hlogins := ha.logins
  have hinitialized := ha.initialized
  have hinitialization := ha.initialization
  rcases h with ⟨hl, hp, ht, hi, hc, hf, hnone, hone⟩ | ⟨m, id, hl, hp, ht, hi, hc, hf, hinit, hz⟩ |
    ⟨id, hl, hp, hi, hc, hf, hinit, hz⟩ | ⟨hl, hp, ht, hi, hc, hf, hinit⟩ |
    ⟨id, hl, hp, ht, hc, hf, hinit, hz⟩
  · obtain ⟨hp', ht'⟩ := ha.idle hp ht
    refine .fresh (by rw [hlogins, hl]) hp' ht' (by rw [hinitialized, hi])
      (by rwa [ha.confirmed]) (by rwa [ha.failed]) ?_ ?_
    · rw [hinitialization]
      exact fun h id => hzero id (hnone h id)
    · exact fun id => Nat.le_trans (ha.unanswered id) (hone id)
  · obtain ⟨hp', ht'⟩ := ha.idle hp ht
    exact .reading m id (by rw [hlogins, hl]) hp' ht' (by rw [hinitialized, hi])
      (by rwa [ha.confirmed]) (by rwa [ha.failed]) (by rw [hinitialization, hinit]) (hzero id hz)
  · refine .pending id (by rw [hlogins, hl]) ?_ (by rw [hinitialized, hi])
      (by rwa [ha.confirmed]) (by rwa [ha.failed]) (by rw [hinitialization, hinit]) (hzero id hz)
    rcases ha.pending with ⟨hp', ht'⟩ | hcleared
    · rw [hp', ht']
      exact hp
    · exact .inl hcleared
  · obtain ⟨hp', ht'⟩ := ha.idle hp ht
    exact .confirmed (by rw [hlogins, hl]) hp' ht' (by rw [hinitialized, hi])
      (by rwa [ha.confirmed]) (by rwa [ha.failed]) (by rw [hinitialization]; exact hinit)
  · obtain ⟨hp', ht'⟩ := ha.idle hp ht
    exact .failed id (by rw [hlogins, hl]) hp' ht' (by rwa [ha.confirmed]) (by rwa [ha.failed])
      (by rw [hinitialization, hinit]) (hzero id hz)

theorem alike_note {s : Bridge} {e : Entry} (hconfirmed : e ≠ .confirmed)
    (hfailed : e ≠ .loginFailed) (h : ∀ id, unanswered id (e :: s.log) ≤ unanswered id s.log) :
    Alike s (s.note e) where
  logins := rfl
  pending := .inl ⟨rfl, rfl⟩
  initialized := rfl
  initialization := rfl
  confirmed := by simp [Bridge.note, hconfirmed.symm]
  failed := by simp [Bridge.note, hfailed.symm]
  unanswered := h

theorem alike_emit {s : Bridge} {m : Json} : Alike s (s.emit m) :=
  alike_note nofun nofun fun _ => Nat.le_refl _

/-- A message without a method is no request. -/
theorem alike_send {s : Bridge} {m : Json} (hm : field? "method" m = none) :
    Alike s (s.send m) := by
  refine alike_note nofun nofun fun id => ?_
  simp [unanswered, answers, requests, hm]

theorem Core.emit {s : Bridge} {m : Json} (h : Core s) (hallowed : Allowed s.log (.emitted m)) :
    Core (s.emit m) :=
  h.quiet (e := .emitted m) hallowed rfl ⟨rfl, rfl, rfl, rfl⟩
    (fun p hp => loginSent_cons.mpr (.inr (h.pending p hp)))
    (h.phase.alike alike_emit)

theorem Core.send {s : Bridge} {m : Json} (h : Core s) (hm : field? "method" m = none) :
    Core (s.send m) :=
  h.quiet (e := .sent m) trivial rfl ⟨rfl, rfl, rfl, rfl⟩
    (fun p hp => loginSent_cons.mpr (.inr (h.pending p hp)))
    (h.phase.alike (alike_send hm))

/-- Where the log stands still, only the phase may change. -/
theorem Core.steady {s s' : Bridge} (h : Core s) (hlog : s'.log = s.log) (hsteady : Steady s s')
    (hpending : ∀ p ∈ s'.pendingAuth, LoginSent p.1 s.log) (hphase : Phase s') : Core s' := by
  refine ⟨?_, ?_, ?_, ?_, ?_, ?_, ?_, ?_, hphase⟩
  · rw [hsteady.stopped, hlog]
    exact h.stopped
  · rw [hsteady.authenticated, hlog]
    exact h.authenticated
  · rw [hsteady.initialization, hlog]
    exact h.initialization
  · rw [hsteady.authenticated, hlog]
    exact h.fenced
  · rw [hsteady.authenticated, hsteady.queued, hlog]
    exact h.through
  · rw [hlog]
    exact h.history
  · rw [hlog]
    exact hpending
  · rw [hlog]
    exact h.accepted

/-- `stop` keeps the invariant, and needs nothing of the queue. -/
theorem Core.stop {s : Bridge} (h : Core s) : Inv s.stop := by
  by_cases hs : s.stopped = true
  · rw [Bridge.stop, if_pos hs]
    exact ⟨h, fun hlive => absurd hlive (by simp [hs])⟩
  · rw [Bridge.stop, if_neg hs]
    refine ⟨⟨?_, ?_, h.initialization, h.fenced, h.through, ⟨trivial, h.history⟩, nofun, ?_,
      h.phase.alike ⟨rfl, .inr ⟨rfl, rfl⟩, rfl, rfl, by simp, by simp, fun _ => Nat.le_refl _⟩⟩, nofun⟩
    · simp
    · simpa using h.authenticated
    · simpa [Accepted, Accepts] using h.accepted

theorem Inv.emit {s : Bridge} {m : Json} (h : Inv s) (hallowed : Allowed s.log (.emitted m)) :
    Inv (s.emit m) := by
  refine ⟨h.core.emit hallowed, fun hs => ?_⟩
  obtain ⟨hqueue, hlogin⟩ := h.live hs
  refine ⟨hqueue, fun id hid => hlogin id ?_⟩
  exact (loginSent_cons.mp hid).resolve_left nofun

theorem Inv.send {s : Bridge} {m : Json} (h : Inv s) (hm : field? "method" m = none) :
    Inv (s.send m) := by
  refine ⟨h.core.send hm, fun hs => ?_⟩
  obtain ⟨hqueue, hlogin⟩ := h.live hs
  refine ⟨hqueue, fun id hid => hlogin id ?_⟩
  refine (loginSent_cons.mp hid).resolve_left ?_
  rintro ⟨credentials, ⟨⟩⟩
  cases hm

theorem Live.steady {s s' : Bridge} (h : Live s) (hlog : s'.log = s.log) (hsteady : Steady s s')
    (hpending : s'.pendingAuth = s.pendingAuth) : Live s' := by
  refine ⟨?_, ?_⟩
  · rw [hsteady.authenticated, hsteady.queued, hlog]
    exact h.queue
  · rw [hlog, hsteady.authenticated, hpending]
    exact h.login

/-- What the handlers that look for another token wait for is not looked at. -/
theorem Inv.steady {s s' : Bridge} (h : Inv s) (hlog : s'.log = s.log) (hsteady : Steady s s')
    (halike : Alike s s') (hpending : s'.pendingAuth = s.pendingAuth) : Inv s' := by
  refine ⟨h.core.steady hlog hsteady ?_ (h.core.phase.alike halike), fun hs => ?_⟩
  · rw [hpending]
    exact h.core.pending
  · exact (h.live (hsteady.stopped ▸ hs)).steady hlog hsteady hpending

theorem allowed_failureMessage {log : Log} {id : Option Json} :
    Allowed log (.emitted (failureMessage id)) := by
  intro h
  rw [hasResult_failureMessage] at h
  cases h

theorem Core.fail {s : Bridge} (h : Core s) : Inv s.fail := by
  unfold Bridge.fail
  by_cases hinit : s.initialization.isSome = true
  · rw [if_pos hinit]
    exact (h.emit allowed_failureMessage).stop
  · rw [if_neg hinit]
    exact h.stop

/-! ### The client's `initialize` -/

theorem mem_arrivals {m : Json} {log : Log} : m ∈ arrivals log ↔ .client m ∈ log := by
  induction log with
  | nil => simp [arrivals]
  | cons e log ih =>
    cases e <;> simp [arrivals, ih, or_comm]

theorem mem_forwards {m : Json} {log : Log} : m ∈ forwards log ↔ .forwarded m ∈ log := by
  induction log with
  | nil => simp [forwards]
  | cons e log ih =>
    cases e <;> simp [forwards, ih, or_comm]

/-- The first `initialize`, which the child was sent. -/
structure Opened (s : Bridge) (id m : Json) : Prop where
  first : first s.log = some m
  hasMethod : hasMethod "initialize" m = true
  hasId : id? m = some id
  plain : isReference id = false
  opening : opening s.log = [extendCapabilities m]
  sent : .forwarded (extendCapabilities m) ∈ s.log

variable {s : Bridge}

theorem Core.forwarded_of_opening {m : Json} (h : Core s) (hm : m ∈ opening s.log) :
    .forwarded m ∈ s.log := by
  rw [← mem_forwards]
  by_cases hauth : s.authenticated = true
  · rw [(h.through hauth).2]
    exact List.mem_append_left _ hm
  · rw [h.fenced (by simpa using hauth)]
    exact hm

theorem Core.opened {id : Json} (h : Core s) (ht : Traffic s.log)
    (hinit : s.initialization = some id) : ∃ m, Opened s id m := by
  have hbind := h.initialization
  rw [hinit] at hbind
  obtain ⟨m, hfirst, hid⟩ := Option.bind_eq_some_iff.mp hbind.symm
  have hmethod : hasMethod "initialize" m = true := List.find?_some hfirst
  obtain ⟨id', hid', hplain⟩ :=
    ht.identified m (mem_arrivals.mp (List.mem_of_find?_eq_some hfirst)) hmethod
  rw [hid] at hid'
  cases hid'
  have hopening : opening s.log = [extendCapabilities m] := by rw [opening, hfirst]; rfl
  exact ⟨m, hfirst, hmethod, hid, hplain, hopening,
    h.forwarded_of_opening (by rw [hopening]; exact List.mem_singleton_self _)⟩

/-- Nothing has been sent as long as the client has not asked. -/
theorem Core.unopened (h : Core s) (ht : Traffic s.log) (hinit : s.initialization = none) :
    first s.log = none := by
  cases hfirst : first s.log with
  | none => rfl
  | some m =>
    have hmem := mem_arrivals.mp (List.mem_of_find?_eq_some hfirst)
    obtain ⟨id, hid, -⟩ := ht.identified m hmem (List.find?_some hfirst)
    have hbind := h.initialization
    rw [hinit, hfirst, Option.bind_some, hid] at hbind
    cases hbind

theorem Opened.requested {id m : Json} (h : Opened s id m) : ∃ r ∈ s.log, requests id r = true := by
  refine ⟨_, h.sent, ?_⟩
  rw [requests, method_extendCapabilities h.hasMethod, field?_of_hasMethod h.hasMethod,
    id?_extendCapabilities h.hasMethod, h.hasId]
  exact same_self h.plain

/-- An answer to `initialize` leaves nothing of it to be answered. -/
theorem unanswered_pos {id m : Json} {log : Log} (ht : Traffic (.child m :: log))
    (hresult : hasResult m = true) (hid : same (id? m) (some id) = true)
    (hrequested : ∃ r ∈ log, requests id r = true) : 0 < unanswered id log :=
  ht.once.1 id (by simp [answers, hresult, hid]) hrequested

/-! ### Lines of the child -/

theorem unanswered_child_le {id m : Json} {log : Log} :
    unanswered id (.child m :: log) ≤ unanswered id log := by
  simp only [unanswered, requests, Bool.false_eq_true, if_false]
  by_cases h : answers id (.child m) = true
  · rw [if_pos h]
    exact Nat.sub_le _ _
  · rw [if_neg h]

theorem alike_child {m : Json} : Alike s (s.note (.child m)) :=
  alike_note nofun nofun fun _ => unanswered_child_le

/-- A message that is no reply to a login of the bridge does not confirm one. -/
theorem Inv.child {m : Json} (h : Inv s) (hnone : s.authOf m = none) : Inv (s.note (.child m)) := by
  have hquiet : Quiet s.log (.child m) := by
    rintro ⟨id, hid, hsent, hrunning, -⟩
    have hs : s.stopped = false := by
      rw [Bool.eq_false_iff]
      exact fun hs => hrunning (h.core.stopped.mp hs)
    rcases (h.live hs).login id hsent with hauth | ⟨pending, hmem, hpending⟩
    · exact h.core.accepted.mpr (h.core.authenticated.mp hauth)
    · simp only [Bridge.authOf, hid, List.find?_eq_none] at hnone
      exact absurd hpending (by simpa using hnone pending hmem)
  refine ⟨h.core.quiet hquiet rfl ⟨rfl, rfl, rfl, rfl⟩ ?_ (h.core.phase.alike alike_child),
    fun hs => ?_⟩
  · exact fun p hp => loginSent_cons.mpr (.inr (h.core.pending p hp))
  · obtain ⟨hqueue, hlogin⟩ := h.live hs
    exact ⟨hqueue, fun id hid => hlogin id ((loginSent_cons.mp hid).resolve_left nofun)⟩

theorem logins_wait {w : Waiting} (hw : login? w = none) : logins (s.wait w).waiting =
    logins s.waiting := by
  simp [Bridge.wait, logins, hw]

theorem Inv.wait {w : Waiting} (h : Inv s) (hw : login? w = none) : Inv (s.wait w) :=
  h.steady rfl ⟨rfl, rfl, rfl, rfl⟩ ⟨logins_wait hw, .inl ⟨rfl, rfl⟩, rfl, rfl, Iff.rfl, Iff.rfl,
    fun _ => Nat.le_refl _⟩ rfl

theorem Inv.loopRefresh {loop : Refresh} (h : Inv s) : Inv (s.loopRefresh loop) := by
  unfold Bridge.loopRefresh
  by_cases hgo : (!s.stopped && decide (s.clock < loop.deadline)) = true
  · rw [if_pos hgo]
    exact h.wait rfl
  · rw [if_neg hgo]
    exact h.send rfl

/-- The answer to `initialize` is withheld, and the login begins. -/
theorem Inv.awaitLogin {m : Json} (h : Inv s) (ht : Traffic (.child m :: s.log))
    (hnone : s.authOf m = none) (hsame : same (id? m) s.initialization = true)
    (hresult : hasResult m = true) (hinitialized : s.initialized = false) :
    Inv ((s.note (.child m)).wait (.login m s.clock)) := by
  obtain ⟨id, hid⟩ := Option.isSome_iff_exists.mp (ht.results m List.mem_cons_self hresult)
  have hinit : s.initialization = some id := by rw [← eq_of_same hsame, hid]
  obtain ⟨first, hopened⟩ := h.core.opened ht.older hinit
  rw [hinit] at hsame
  have hpos := unanswered_pos ht hresult hsame hopened.requested
  have hphase : Phase ((s.note (.child m)).wait (.login m s.clock)) := by
    rcases h.core.phase with ⟨hl, hp, htm, hi, hc, hf, -, hone⟩ |
      ⟨m', id', hl, hp, htm, hi, hc, hf, hinit', hz⟩ | ⟨id', hl, hp, hi, hc, hf, hinit', hz⟩ |
      ⟨hl, hp, htm, hi, hc, hf, hinit'⟩ | ⟨id', hl, hp, htm, hc, hf, hinit', hz⟩
    · refine .reading m id ?_ hp htm hi ?_ ?_ hinit ?_
      · have hlogins : logins (s.waiting ++ [.login m s.clock]) = [m] := by
          simp only [logins, List.filterMap_append] at hl ⊢
          rw [hl]
          rfl
        exact hlogins
      · simpa [Bridge.wait, Bridge.note] using hc
      · simpa [Bridge.wait, Bridge.note] using hf
      · have hans : answers id (.child m) = true := by simp [answers, hresult, hsame]
        have hle := hone id
        change unanswered id (.child m :: s.log) = 0
        rw [unanswered, if_pos hans]
        omega
    · rw [hinit] at hinit'
      cases hinit'
      omega
    · rw [hi] at hinitialized
      cases hinitialized
    · rw [hi] at hinitialized
      cases hinitialized
    · rw [hinit] at hinit'
      cases hinit'
      omega
  obtain ⟨hcore, hlive⟩ := h.child hnone
  exact ⟨hcore.steady rfl ⟨rfl, rfl, rfl, rfl⟩ hcore.pending hphase,
    fun hs => (hlive hs).steady rfl ⟨rfl, rfl, rfl, rfl⟩ rfl⟩

/-- What the child says besides is passed on; an answer to `initialize` is not among it. -/
theorem Core.allowed_child {m : Json} (h : Core s) (ht : Traffic (.child m :: s.log))
    (hanswer : (same (id? m) s.initialization && hasResult m && !s.initialized) = false) :
    Allowed (.child m :: s.log) (.emitted m) := by
  intro hresult request hmem hmethod hid
  have hsent : .forwarded request ∈ s.log := by simpa using hmem
  by_cases hauth : s.authenticated = true
  · exact List.mem_cons_of_mem _ (h.authenticated.mp hauth)
  exfalso
  have hfence := h.fenced (by simpa using hauth)
  have hopen : request ∈ opening s.log := hfence ▸ mem_forwards.mpr hsent
  obtain ⟨first, hfirst, rfl⟩ : ∃ m', first s.log = some m' ∧ extendCapabilities m' = request := by
    simpa [opening] using hopen
  have hinit : s.initialization = id? first := by rw [h.initialization, hfirst]; rfl
  obtain ⟨id, hfid, -⟩ := ht.older.identified first
    (mem_arrivals.mp (List.mem_of_find?_eq_some hfirst)) (List.find?_some hfirst)
  rw [hfid] at hinit
  obtain ⟨first', hopened⟩ := h.opened ht.older hinit
  have hfirst' := hopened.first
  rw [hfirst] at hfirst'
  cases hfirst'
  rw [id?_extendCapabilities hopened.hasMethod, hopened.hasId] at hid
  have hsame : same (id? m) (some id) = true := by
    rw [hid]
    exact same_self hopened.plain
  have hpos := unanswered_pos ht hresult hsame hopened.requested
  rw [hinit, hsame, hresult] at hanswer
  have hinitialized : s.initialized = true := by simpa using hanswer
  rcases h.phase with ⟨hl, hp, htm, hi, hc, hf, -, hone⟩ |
    ⟨m', id', hl, hp, htm, hi, hc, hf, hinit', hz⟩ | ⟨id', hl, hp, hi, hc, hf, hinit', hz⟩ |
    ⟨hl, hp, htm, hi, hc, hf, hinit'⟩ | ⟨id', hl, hp, htm, hc, hf, hinit', hz⟩
  · rw [hi] at hinitialized
    cases hinitialized
  · rw [hi] at hinitialized
    cases hinitialized
  · rw [hinit] at hinit'
    cases hinit'
    omega
  · exact hauth (h.authenticated.mpr hc)
  · rw [hinit] at hinit'
    cases hinit'
    omega

/-! ### The reply to the login -/

/-- The login has failed. -/
theorem Core.loginFailed {s s' : Bridge} {id : Json} (h : Core s)
    (hlog : s'.log = .loginFailed :: s.log) (hsteady : Steady s s')
    (hlogins : logins s'.waiting = []) (hpending : s'.pendingAuth = []) (htimers : s'.timers = [])
    (hconfirmed : .confirmed ∉ s.log) (hinit : s.initialization = some id)
    (hanswered : unanswered id s.log = 0) : Core s' := by
  refine ⟨?_, ?_, ?_, ?_, ?_, ?_, ?_, ?_, ?_⟩
  · simpa [hlog, hsteady.stopped] using h.stopped
  · simpa [hlog, hsteady.authenticated] using h.authenticated
  · rw [hsteady.initialization, hlog]
    exact h.initialization
  · rw [hsteady.authenticated, hlog]
    exact h.fenced
  · rw [hsteady.authenticated, hsteady.queued, hlog]
    exact h.through
  · rw [hlog]
    exact ⟨trivial, h.history⟩
  · rw [hpending]
    exact nofun
  · simpa [hlog, Accepted, Accepts] using h.accepted
  · refine .failed id hlogins hpending htimers ?_ ?_ (hsteady.initialization.trans hinit) ?_
    · simpa [hlog] using hconfirmed
    · rw [hlog]
      exact List.mem_cons_self
    · rw [hlog]
      exact hanswered

theorem Core.rejectLogin (h : Core (s.note .loginFailed)) : Inv s.rejectLogin :=
  (h.emit allowed_failureMessage).stop

/-- The messages of a queue are sent one after the other. -/
theorem foldl_forward (queue : List Json) (s : Bridge) :
    queue.foldl (fun s pending => s.forward pending) s =
      { s with log := queue.reverse.map .forwarded ++ s.log } := by
  induction queue generalizing s with
  | nil => rfl
  | cons m queue ih =>
    rw [List.foldl_cons, ih]
    simp [Bridge.forward, Bridge.note]

theorem arrivals_flushed (queue : List Json) (log : Log) :
    arrivals (queue.map .forwarded ++ log) = arrivals log := by
  induction queue with
  | nil => rfl
  | cons m queue ih => exact ih

theorem forwards_flushed (queue : List Json) (log : Log) :
    forwards (queue.map .forwarded ++ log) = forwards log ++ queue.reverse := by
  induction queue with
  | nil => simp
  | cons m queue ih => simp [forwards, ih]

theorem history_flushed (queue : List Json) {log : Log} (h : History log)
    (hconfirmed : .confirmed ∈ log) : History (queue.map .forwarded ++ log) := by
  induction queue with
  | nil => exact h
  | cons m queue ih => exact ⟨.inl (List.mem_append_right _ hconfirmed), ih⟩

theorem accepted_flushed (queue : List Json) {log : Log} (h : Accepted log) :
    Accepted (queue.map .forwarded ++ log) := by
  induction queue with
  | nil => exact h
  | cons m queue ih => exact .inr ih

/-- The phase a reply to the login meets. -/
theorem Core.of_authOf {m : Json} {pending : String × Json × Nat} (h : Core s)
    (hauth : s.authOf m = some pending) :
    id? m = some (.str pending.1) ∧ s.pendingAuth = [pending] ∧
      s.timers = [(pending.2.2, pending.1)] ∧ logins s.waiting = [] ∧ s.initialized = true ∧
      .confirmed ∉ s.log ∧ .loginFailed ∉ s.log ∧
      ∃ id, s.initialization = some id ∧ unanswered id s.log = 0 := by
  have hmem : ∃ login, id? m = some (.str login) ∧ pending ∈ s.pendingAuth ∧ pending.1 = login := by
    unfold Bridge.authOf at hauth
    split at hauth
    · rename_i login hid
      exact ⟨login, hid, List.mem_of_find?_eq_some hauth, by simpa using List.find?_some hauth⟩
    · cases hauth
  obtain ⟨_, hid, hmem, rfl⟩ := hmem
  refine ⟨hid, ?_⟩
  rcases h.phase with ⟨hl, hp, -⟩ | ⟨m', id', hl, hp, -⟩ |
    ⟨id', hl, hp, hi, hc, hf, hinit, hz⟩ | ⟨hl, hp, -⟩ | ⟨id', hl, hp, -⟩
  · simp [hp] at hmem
  · simp [hp] at hmem
  · rcases hp with ⟨hp, -⟩ | ⟨login, withheld, timer, hp, htimers⟩
    · simp [hp] at hmem
    · rw [hp, List.mem_singleton] at hmem
      subst hmem
      exact ⟨hp, htimers, hl, hi, hc, hf, id', hinit, hz⟩
  · simp [hp] at hmem
  · simp [hp] at hmem

/-- A reply that does not confirm the login ends the bridge. -/
theorem Inv.rejected {m : Json} {pending : String × Json × Nat} (h : Inv s)
    (hauth : s.authOf m = some pending) (hreply : Bridge.confirms m = false) :
    Inv (((s.note (.child m)).forget pending.1).auth pending.2.1 pending.2.2 m) := by
  obtain ⟨-, hpending, htimers, hlogins, hinitialized, hconfirmed, hfailed, id, hinit, hz⟩ :=
    h.core.of_authOf hauth
  have hcore : Core { s.note (.child m) with pendingAuth := [], timers := [] } := by
    refine h.core.quiet (e := .child m) ?_ rfl ⟨rfl, rfl, rfl, rfl⟩ nofun (h.core.phase.alike ?_)
    · rintro ⟨-, -, -, -, hconfirms⟩
      rw [hreply] at hconfirms
      cases hconfirms
    · exact ⟨rfl, .inr ⟨rfl, rfl⟩, rfl, rfl, by simp [Bridge.note], by simp [Bridge.note],
        fun _ => unanswered_child_le⟩
  have hz' : unanswered id (.child m :: s.log) = 0 :=
    Nat.le_zero.mp (hz ▸ unanswered_child_le)
  rw [Bridge.auth, hreply]
  refine Core.rejectLogin (hcore.loginFailed rfl ⟨rfl, rfl, rfl, rfl⟩ hlogins ?_ ?_ ?_ hinit hz')
  · simp [Bridge.note, Bridge.forget, hpending]
  · simp [Bridge.note, Bridge.forget, htimers]
  · simpa [Bridge.note] using hconfirmed

/-- A reply that confirms the login releases the queue. -/
theorem Inv.accept {m : Json} {pending : String × Json × Nat} (h : Inv s)
    (hauth : s.authOf m = some pending) (hrunning : s.stopped = false)
    (hreply : Bridge.confirms m = true) :
    Inv (((s.note (.child m)).forget pending.1).auth pending.2.1 pending.2.2 m) := by
  obtain ⟨hid, hpending, htimers, hlogins, hinitialized, hconfirmed, hfailed, id, hinit, hz⟩ :=
    h.core.of_authOf hauth
  have hfalse : s.authenticated = false := by
    rw [Bool.eq_false_iff]
    exact fun hs => hconfirmed (h.core.authenticated.mp hs)
  let queue := s.queued.filter fun m => !hasMethod "initialized" m
  let older : Log := .emitted pending.2.1 :: .confirmed :: .child m :: s.log
  have hstate : ((s.note (.child m)).forget pending.1).auth pending.2.1 pending.2.2 m =
      { s with
        pendingAuth := [], timers := [], authenticated := true, queued := [], queuedBytes := 0
        log := queue.reverse.map .forwarded ++ older } := by
    simp only [Bridge.auth, hreply, Bridge.flush, foldl_forward, Bool.not_true, Bool.false_eq_true,
      if_false]
    simp [Bridge.forget, Bridge.note, Bridge.emit, hpending, htimers, queue, older]
  have hqueue : queue = (arrivals s.log).filter wanted := (h.live hrunning).queue hfalse
  have hnew : ∀ e, (∀ m', e ≠ .forwarded m') → (e ∈ queue.reverse.map .forwarded ++ older ↔
      e ∈ older) := by
    intro e he
    simp only [List.mem_append, List.mem_map, or_iff_right_iff_imp]
    rintro ⟨m', -, rfl⟩
    exact absurd rfl (he m')
  have harrivals : arrivals (queue.reverse.map .forwarded ++ older) = arrivals s.log :=
    arrivals_flushed _ _
  have hin : .confirmed ∈ queue.reverse.map .forwarded ++ older := by
    rw [hnew .confirmed nofun]
    simp [older]
  have haccepts : Accepts s.log (.child m) := by
    refine ⟨pending.1, hid, h.core.pending pending ?_, ?_, hreply⟩
    · rw [hpending]
      exact List.mem_singleton_self _
    · intro hs
      rw [h.core.stopped.mpr hs] at hrunning
      cases hrunning
  rw [hstate]
  refine ⟨⟨?_, ?_, ?_, nofun, ?_, ?_, nofun, ?_, ?_⟩, fun _ => ⟨nofun, fun _ _ => .inl rfl⟩⟩
  · rw [hnew .stopped nofun]
    simpa [older] using h.core.stopped
  · exact ⟨fun _ => hin, fun _ => rfl⟩
  · rw [first, harrivals]
    exact h.core.initialization
  · intro _
    refine ⟨rfl, ?_⟩
    have hopening : opening (queue.reverse.map .forwarded ++ older) = opening s.log := by
      rw [opening, first, harrivals]
      rfl
    change forwards (queue.reverse.map .forwarded ++ older) =
      opening (queue.reverse.map .forwarded ++ older) ++
        (arrivals (queue.reverse.map .forwarded ++ older)).filter wanted
    rw [forwards_flushed, List.reverse_reverse, hopening, harrivals, ← hqueue,
      ← h.core.fenced hfalse]
    rfl
  · exact history_flushed _ ⟨fun _ _ _ _ _ => List.mem_cons_self, trivial, trivial, h.core.history⟩
      (by simp [older])
  · exact ⟨fun _ => hin, fun _ => accepted_flushed _ (.inr (.inr (.inl haccepts)))⟩
  · refine .confirmed hlogins rfl rfl hinitialized hin ?_ (by rw [hinit]; rfl)
    rw [hnew .loginFailed nofun]
    simpa [older] using hfailed

/-! ### A line of the child -/

theorem outgoingMessage_inv {timeoutMs : Nat} {m : Json} (h : Inv s)
    (hclosed : s.stopped = true → s.pendingAuth = []) (ht : Traffic (.child m :: s.log)) :
    Inv ((s.note (.child m)).outgoingMessage timeoutMs m) := by
  cases hauth : s.authOf m with
  | some pending =>
    have hstep : (s.note (.child m)).outgoingMessage timeoutMs m =
        ((s.note (.child m)).forget pending.1).auth pending.2.1 pending.2.2 m := by
      have hauth' : (s.note (.child m)).authOf m = some pending := hauth
      rw [Bridge.outgoingMessage, hauth']
    have hrunning : s.stopped = false := by
      rw [Bool.eq_false_iff]
      intro hs
      have hpending := (h.core.of_authOf hauth).2.1
      rw [hclosed hs] at hpending
      cases hpending
    rw [hstep]
    by_cases hreply : Bridge.confirms m = true
    · exact h.accept hauth hrunning hreply
    · exact h.rejected hauth (by simpa using hreply)
  | none =>
    have hauth' : (s.note (.child m)).authOf m = none := hauth
    have hchild := h.child hauth
    rw [Bridge.outgoingMessage, hauth']
    change Inv (if (same (id? m) s.initialization && !isReference m) = true then _ else
      if (same (id? m) s.initialization && hasResult m && !s.initialized) = true then _ else _)
    by_cases hthrows : (same (id? m) s.initialization && !isReference m) = true
    · rw [if_pos hthrows]
      exact hchild.core.fail
    rw [if_neg hthrows]
    by_cases hanswer : (same (id? m) s.initialization && hasResult m && !s.initialized) = true
    · rw [if_pos hanswer]
      simp only [Bool.and_eq_true, Bool.not_eq_true'] at hanswer
      exact h.awaitLogin ht hauth hanswer.1.1 hanswer.1.2 hanswer.2
    rw [if_neg hanswer]
    split
    · exact hchild.loopRefresh
    · exact hchild.emit (h.core.allowed_child ht (by simpa using hanswer))

/-- A stopped bridge has no login pending while it reads the child. -/
def Closed (s : Bridge) : Prop := s.stopped = true → s.pendingAuth = []

theorem Closed.stop (h : Closed s) : Closed s.stop := by
  by_cases hs : s.stopped = true
  · rw [Bridge.stop, if_pos hs]
    exact h
  · rw [Bridge.stop, if_neg hs]
    exact fun _ => rfl

theorem Closed.fail (h : Closed s) : Closed s.fail := by
  refine Closed.stop ?_
  by_cases hinit : s.initialization.isSome = true
  · rw [if_pos hinit]
    exact h
  · rw [if_neg hinit]
    exact h

theorem Closed.auth {id : String} {m reply : Json} {timer : Nat} (h : Closed s) :
    Closed ((s.forget id).auth m timer reply) := by
  have hforget : Closed (s.forget id) := fun hs => by
    rw [Bridge.forget, h hs]
    rfl
  unfold Bridge.auth
  by_cases hreply : (!Bridge.confirms reply) = true
  · simp only [hreply, if_true]
    exact Closed.stop hforget
  · simp only [hreply, Bool.false_eq_true, if_false, Bridge.flush, foldl_forward]
    exact hforget

theorem Closed.loopRefresh {loop : Refresh} (h : Closed s) : Closed (s.loopRefresh loop) := by
  unfold Bridge.loopRefresh
  split <;> exact h

theorem Closed.outgoingMessage {timeoutMs : Nat} {m : Json} (h : Closed s) :
    Closed (s.outgoingMessage timeoutMs m) := by
  unfold Bridge.outgoingMessage
  split
  · exact h.auth
  · split
    · exact h.fail
    · split
      · exact h
      · split
        · exact h.loopRefresh
        · exact h

/-! ### The log grows -/

theorem suffix_stop : s.log <:+ s.stop.log := by
  by_cases hs : s.stopped = true
  · simp [Bridge.stop, hs]
  · simp [Bridge.stop, hs]

theorem suffix_fail : s.log <:+ s.fail.log := by
  refine List.IsSuffix.trans ?_ suffix_stop
  split
  · exact List.suffix_cons _ _
  · exact List.suffix_refl _

theorem suffix_rejectLogin : s.log <:+ s.rejectLogin.log :=
  List.IsSuffix.trans ⟨[.emitted (failureMessage s.initialization), .loginFailed], rfl⟩
    (suffix_stop (s := (s.note .loginFailed).failure s.initialization))

theorem suffix_auth {m reply : Json} {timer : Nat} : s.log <:+ (s.auth m timer reply).log := by
  unfold Bridge.auth
  by_cases hreply : (!Bridge.confirms reply) = true
  · simp only [hreply, if_true]
    exact suffix_rejectLogin
      (s := { s with timers := s.timers.filter fun running => running.1 ≠ timer })
  · simp only [hreply, Bool.false_eq_true, if_false, Bridge.flush, foldl_forward]
    exact List.IsSuffix.trans ⟨[_, _], rfl⟩ (List.suffix_append _ _)

theorem suffix_loopRefresh {loop : Refresh} : s.log <:+ (s.loopRefresh loop).log := by
  unfold Bridge.loopRefresh
  split
  · exact List.suffix_refl _
  · exact List.suffix_cons _ _

theorem suffix_outgoingMessage {timeoutMs : Nat} {m : Json} :
    s.log <:+ (s.outgoingMessage timeoutMs m).log := by
  unfold Bridge.outgoingMessage
  split
  · exact suffix_auth (s := s.forget _)
  · split
    · exact suffix_fail
    · split
      · exact List.suffix_refl _
      · split
        · exact suffix_loopRefresh
        · exact List.suffix_cons _ _

theorem suffix_outgoingLine {timeoutMs : Nat} {line : Line} :
    s.log <:+ (s.outgoingLine timeoutMs line).log := by
  unfold Bridge.outgoingLine
  split
  · exact suffix_fail
  · exact suffix_fail
  · rename_i message _ _
    exact (List.suffix_cons _ _).trans (suffix_outgoingMessage (s := s.note (.child message)))

theorem suffix_incomingMessage {bytes : Nat} {m : Json} :
    s.log <:+ (s.incomingMessage bytes m).log := by
  unfold Bridge.incomingMessage Bridge.enqueue
  split
  · split <;> exact List.suffix_cons _ _
  · split
    · exact List.suffix_refl _
    · split
      · exact List.suffix_cons _ _
      · split
        · exact List.suffix_cons _ _
        · simp only
          split
          · exact suffix_stop (s := { s with queuedBytes := s.queuedBytes + bytes })
          · exact List.suffix_refl _

theorem suffix_incomingLine {line : Line} : s.log <:+ (s.incomingLine line).log := by
  unfold Bridge.incomingLine
  split
  · exact suffix_stop
  · exact suffix_stop
  · rename_i message _ _
    exact (List.suffix_cons _ _).trans (suffix_incomingMessage (s := s.note (.client message)))

/-- What every line keeps, a chunk keeps. -/
theorem chunk_keeps {f : Bridge → Line → Bridge} {P : Bridge → Prop}
    (hsuffix : ∀ s line, s.log <:+ (f s line).log)
    (hf : ∀ s line, P s → Traffic (f s line).log → P (f s line)) (lines : List Line) (s : Bridge) :
    s.log <:+ (lines.foldl f s).log ∧
      (P s → Traffic (lines.foldl f s).log → P (lines.foldl f s)) := by
  induction lines generalizing s with
  | nil => exact ⟨List.suffix_refl _, fun h _ => h⟩
  | cons line lines ih =>
    obtain ⟨hgrows, hkeeps⟩ := ih (f s line)
    refine ⟨(hsuffix s line).trans hgrows, fun h ht => hkeeps (hf s line h ?_) ht⟩
    obtain ⟨newer, hnewer⟩ := hgrows
    rw [List.foldl_cons, ← hnewer] at ht
    exact ht.suffix

theorem outgoingLine_inv {timeoutMs : Nat} {line : Line} (h : Inv s ∧ Closed s)
    (ht : Traffic (s.outgoingLine timeoutMs line).log) :
    Inv (s.outgoingLine timeoutMs line) ∧ Closed (s.outgoingLine timeoutMs line) := by
  unfold Bridge.outgoingLine at ht ⊢
  cases hvalue : line.value with
  | none => exact ⟨h.1.core.fail, h.2.fail⟩
  | some m =>
    rw [hvalue] at ht
    by_cases hnull : m = .null
    · subst hnull
      exact ⟨h.1.core.fail, h.2.fail⟩
    · simp only at ht ⊢
      obtain ⟨newer, hnewer⟩ := suffix_outgoingMessage (s := s.note (.child m))
      rw [← hnewer] at ht
      exact ⟨outgoingMessage_inv h.1 h.2 ht.suffix, Closed.outgoingMessage (s := s.note _) h.2⟩

/-! ### Lines of the client -/

theorem first_client {m : Json} {log : Log} :
    first (.client m :: log) =
      (first log).or (if hasMethod "initialize" m = true then some m else none) := by
  simp only [first, arrivals, List.find?_append]
  by_cases h : hasMethod "initialize" m = true <;> simp [h]

theorem first_of_known {m : Json} {log : Log}
    (h : hasMethod "initialize" m = true → (first log).isSome = true) :
    first (.client m :: log) = first log := by
  rw [first_client]
  cases hfirst : first log with
  | some m' => rfl
  | none =>
    have hm : hasMethod "initialize" m ≠ true := fun hm => by
      have := h hm
      rw [hfirst] at this
      cases this
    simp [hm]

theorem wanted_client {m : Json} {log : Log} (h : wanted m = false) :
    (arrivals (.client m :: log)).filter wanted = (arrivals log).filter wanted := by
  simp [arrivals, h]

/-- A message has arrived that is not the opening; it is wanted before the login only. -/
theorem Core.arrive {m : Json} (h : Core s)
    (hfirst : hasMethod "initialize" m = true → (first s.log).isSome = true)
    (hwanted : s.authenticated = true → wanted m = false) : Core (s.note (.client m)) := by
  have hsame : first (.client m :: s.log) = first s.log := first_of_known hfirst
  have hopening : opening (.client m :: s.log) = opening s.log := by rw [opening, hsame]; rfl
  refine ⟨?_, ?_, ?_, ?_, ?_, ⟨trivial, h.history⟩, ?_, ?_, ?_⟩
  · simpa [Bridge.note] using h.stopped
  · simpa [Bridge.note] using h.authenticated
  · exact h.initialization.trans (by rw [← hsame]; rfl)
  · intro hauth
    exact (h.fenced hauth).trans hopening.symm
  · intro hauth
    refine ⟨(h.through hauth).1, (h.through hauth).2.trans ?_⟩
    rw [← hopening, ← wanted_client (hwanted hauth)]
    rfl
  · exact fun p hp => loginSent_cons.mpr (.inr (h.pending p hp))
  · simpa [Bridge.note, Accepted, Accepts] using h.accepted
  · exact h.phase.alike (alike_note nofun nofun fun _ => Nat.le_refl _)

theorem Live.arrive {m : Json} (h : Live s) (hwanted : wanted m = false) :
    Live (s.note (.client m)) := by
  refine ⟨fun hauth => (h.queue hauth).trans (wanted_client hwanted).symm, fun id hid => ?_⟩
  exact h.login id ((loginSent_cons.mp hid).resolve_left nofun)

theorem Core.requeue {queue : List Json} {bytes : Nat} (h : Core s)
    (hauth : s.authenticated = false) : Core { s with queued := queue, queuedBytes := bytes } := by
  refine ⟨h.stopped, h.authenticated, h.initialization, h.fenced, fun h' => ?_, h.history,
    h.pending, h.accepted, h.phase.alike ⟨rfl, .inl ⟨rfl, rfl⟩, rfl, rfl, Iff.rfl, Iff.rfl,
      fun _ => Nat.le_refl _⟩⟩
  rw [hauth] at h'
  cases h'

theorem Inv.enqueue {bytes : Nat} {m : Json} (h : Inv s) (hauth : s.authenticated = false)
    (hinit : hasMethod "initialize" m = false)
    (hlogin : (hasMethod "account/login/start" m || hasMethod "account/logout" m) = false) :
    Inv ((s.note (.client m)).enqueue bytes m) := by
  have hcore : Core (s.note (.client m)) :=
    h.core.arrive (by simp [hinit]) (by simp [hauth])
  have hqueue : ∀ queue bytes,
      Core { s.note (.client m) with queued := queue, queuedBytes := bytes } :=
    fun _ _ => hcore.requeue hauth
  unfold Bridge.enqueue
  simp only
  split
  · exact (hqueue s.queued _).stop
  · refine ⟨hqueue _ _, fun hs => ⟨fun _ => ?_, fun id hid => ?_⟩⟩
    · have hold := (h.live hs).queue hauth
      change (s.queued ++ [m]).filter _ = (arrivals s.log ++ [m]).filter wanted
      rw [List.filter_append, List.filter_append, hold]
      by_cases hm : hasMethod "initialized" m = true <;> simp [wanted, hm, hinit, hlogin]
    · exact (h.live hs).login id ((loginSent_cons.mp hid).resolve_left nofun)

/-- The phase of a bridge that has logged in. -/
theorem Core.of_confirmed (h : Core s) (hconfirmed : .confirmed ∈ s.log) :
    logins s.waiting = [] ∧ s.pendingAuth = [] ∧ s.timers = [] ∧ s.initialized = true ∧
      .loginFailed ∉ s.log ∧ s.initialization.isSome = true := by
  rcases h.phase with ⟨-, -, -, -, hc, -⟩ | ⟨-, -, -, -, -, -, hc, -⟩ |
    ⟨-, -, -, -, hc, -⟩ | ⟨hl, hp, htimers, hi, -, hf, hinit⟩ | ⟨-, -, -, -, hc, -⟩
  · exact absurd hconfirmed hc
  · exact absurd hconfirmed hc
  · exact absurd hconfirmed hc
  · exact ⟨hl, hp, htimers, hi, hf, hinit⟩
  · exact absurd hconfirmed hc

/-- Messages that are wanted go to a child that is logged in. -/
theorem Inv.forward {m : Json} (h : Inv s) (hauth : s.authenticated = true)
    (hwanted : wanted m = true) : Inv ((s.note (.client m)).forward m) := by
  have hinit : hasMethod "initialize" m = false := by
    simp only [wanted, Bool.not_eq_true', Bool.or_eq_false_iff] at hwanted
    exact hwanted.1.1
  have hsame : first (.client m :: s.log) = first s.log := first_of_known (by simp [hinit])
  have hopening : opening (.forwarded m :: .client m :: s.log) = opening s.log := by
    rw [opening]
    exact congrArg (fun m' => (m'.map extendCapabilities).toList) hsame
  have hcore := h.core
  have hconfirmed := hcore.authenticated.mp hauth
  refine ⟨⟨?_, ?_, ?_, ?_, ?_, ?_, ?_, ?_, ?_⟩, fun _ => ⟨?_, fun _ _ => .inl hauth⟩⟩
  · simpa [Bridge.note, Bridge.forward] using hcore.stopped
  · simpa [Bridge.note, Bridge.forward] using hcore.authenticated
  · exact hcore.initialization.trans (by rw [← hsame]; rfl)
  · intro hfalse
    exact absurd hauth (by simpa [Bridge.forward, Bridge.note] using hfalse)
  · intro _
    obtain ⟨hqueued, hforwards⟩ := hcore.through hauth
    refine ⟨hqueued, ?_⟩
    change forwards s.log ++ [m] = opening (.forwarded m :: .client m :: s.log) ++
      (arrivals s.log ++ [m]).filter wanted
    rw [hopening, hforwards, List.filter_append, List.append_assoc]
    simp [hwanted]
  · exact ⟨.inl (List.mem_cons_of_mem _ hconfirmed), trivial, hcore.history⟩
  · intro p hp
    exact loginSent_cons.mpr (.inr (loginSent_cons.mpr (.inr (hcore.pending p hp))))
  · simpa [Bridge.note, Bridge.forward, Accepted, Accepts] using hcore.accepted
  · obtain ⟨hl, hp, htm, hi, hf, hinit⟩ := hcore.of_confirmed hconfirmed
    exact .confirmed hl hp htm hi (by simpa [Bridge.note, Bridge.forward] using hconfirmed)
      (by simpa [Bridge.note, Bridge.forward] using hf) hinit
  · intro hfalse
    exact absurd hauth (by simpa [Bridge.forward, Bridge.note] using hfalse)

/-- The first `initialize` goes to the child. -/
theorem Inv.open {m : Json} (h : Inv s) (ht : Traffic (.client m :: s.log))
    (hm : hasMethod "initialize" m = true) (hinit : s.initialization = none) :
    Inv ({ s.note (.client m) with initialization := id? m }.forward (extendCapabilities m)) := by
  have hcore := h.core
  obtain ⟨id, hid, -⟩ := ht.identified m List.mem_cons_self hm
  have hnone := hcore.unopened ht.older hinit
  have hfirst : first (.client m :: s.log) = some m := by rw [first_client, hnone, if_pos hm]; rfl
  have hopening : opening (.client m :: s.log) = [extendCapabilities m] := by
    rw [opening, hfirst]
    rfl
  have hwanted : (arrivals (.client m :: s.log)).filter wanted = (arrivals s.log).filter wanted :=
    wanted_client (by simp [wanted, hm])
  have hfresh : logins s.waiting = [] ∧ s.pendingAuth = [] ∧ s.timers = [] ∧
      s.initialized = false ∧ .confirmed ∉ s.log ∧ .loginFailed ∉ s.log ∧
      ∀ id, unanswered id s.log = 0 := by
    rcases hcore.phase with ⟨hl, hp, htm, hi, hc, hf, hz, -⟩ |
      ⟨_, _, -, -, -, -, -, -, hinit', -⟩ | ⟨_, -, -, -, -, -, hinit', -⟩ |
      ⟨-, -, -, -, -, -, hinit'⟩ | ⟨_, -, -, -, -, -, hinit', -⟩
    · exact ⟨hl, hp, htm, hi, hc, hf, hz hinit⟩
    · rw [hinit] at hinit'
      cases hinit'
    · rw [hinit] at hinit'
      cases hinit'
    · rw [hinit] at hinit'
      cases hinit'
    · rw [hinit] at hinit'
      cases hinit'
  obtain ⟨hl, hp, htm, hi, hc, hf, hz⟩ := hfresh
  have hfalse : s.authenticated = false := by
    rw [Bool.eq_false_iff]
    exact fun hs => hc (hcore.authenticated.mp hs)
  have hforwards : forwards s.log = [] := by
    rw [hcore.fenced hfalse, opening, hnone]
    rfl
  refine ⟨⟨?_, ?_, ?_, ?_, ?_, ?_, ?_, ?_, ?_⟩, fun hs => ⟨?_, ?_⟩⟩
  · simpa [Bridge.note, Bridge.forward] using hcore.stopped
  · simpa [Bridge.note, Bridge.forward] using hcore.authenticated
  · change id? m = (first (.client m :: s.log)).bind id?
    rw [hfirst]
    rfl
  · intro _
    change forwards s.log ++ [extendCapabilities m] = opening (.client m :: s.log)
    rw [hforwards, hopening]
    rfl
  · intro hauth
    rw [show s.authenticated = true from hauth] at hfalse
    cases hfalse
  · exact ⟨.inr ⟨hforwards, hopening⟩, trivial, hcore.history⟩
  · intro p hp'
    exact loginSent_cons.mpr (.inr (loginSent_cons.mpr (.inr (hcore.pending p hp'))))
  · simpa [Bridge.note, Bridge.forward, Accepted, Accepts] using hcore.accepted
  · refine .fresh hl hp htm hi (by simpa [Bridge.note, Bridge.forward] using hc)
      (by simpa [Bridge.note, Bridge.forward] using hf) ?_ ?_
    · intro hnone'
      change id? m = none at hnone'
      rw [hid] at hnone'
      cases hnone'
    · intro id
      have hclient : unanswered id (.client m :: s.log) = 0 := hz id
      simp only [Bridge.forward, Bridge.note, unanswered] at hclient ⊢
      split
      · omega
      · split <;> simp_all
  · exact fun hauth => ((h.live hs).queue hauth).trans hwanted.symm
  · intro id hid'
    exact (h.live hs).login id ((loginSent_cons.mp ((loginSent_cons.mp hid').resolve_left
      nofun)).resolve_left nofun)

theorem incomingMessage_inv {bytes : Nat} {m : Json} (h : Inv s)
    (ht : Traffic (.client m :: s.log)) :
    Inv ((s.note (.client m)).incomingMessage bytes m) := by
  -- a message that is only answered
  have hanswered : (hasMethod "initialize" m = true → (first s.log).isSome = true) →
      wanted m = false → Inv (s.note (.client m)) := fun hfirst hwanted =>
    ⟨h.core.arrive hfirst fun _ => hwanted, fun hs => (h.live hs).arrive hwanted⟩
  unfold Bridge.incomingMessage
  by_cases hm : hasMethod "initialize" m = true
  · rw [if_pos hm]
    by_cases hinit : s.initialization.isSome = true
    · have hinit' : (s.note (.client m)).initialization.isSome = true := hinit
      rw [if_pos hinit']
      refine (hanswered (fun _ => ?_) (by simp [wanted, hm])).emit allowed_failureMessage
      rw [h.core.initialization] at hinit
      exact Option.isSome_of_isSome_bind hinit
    · have hinit' : ¬ (s.note (.client m)).initialization.isSome = true := hinit
      rw [if_neg hinit']
      exact h.open ht hm (by simpa using hinit)
  rw [if_neg hm]
  have hm' : hasMethod "initialize" m = false := by simpa using hm
  by_cases hinitialized : (hasMethod "initialized" m && s.initialized) = true
  · have hinitialized' : (hasMethod "initialized" m && (s.note (.client m)).initialized) = true :=
      hinitialized
    rw [if_pos hinitialized']
    simp only [Bool.and_eq_true] at hinitialized
    exact hanswered (by simp [hm']) (by simp [wanted, hinitialized.1])
  have hinitialized' : ¬ (hasMethod "initialized" m && (s.note (.client m)).initialized) = true :=
    hinitialized
  rw [if_neg hinitialized']
  by_cases hlogin : (hasMethod "account/login/start" m || hasMethod "account/logout" m) = true
  · rw [if_pos hlogin]
    exact (hanswered (by simp [hm']) (by simp [wanted, hlogin])).emit allowed_failureMessage
  rw [if_neg hlogin]
  by_cases hauth : s.authenticated = true
  · have hauth' : (s.note (.client m)).authenticated = true := hauth
    rw [if_pos hauth']
    refine h.forward hauth ?_
    have hdone := (h.core.of_confirmed (h.core.authenticated.mp hauth)).2.2.2.1
    rw [hdone] at hinitialized
    simp_all [wanted]
  · have hauth' : ¬ (s.note (.client m)).authenticated = true := hauth
    rw [if_neg hauth']
    exact h.enqueue (by simpa using hauth) hm' (by simpa using hlogin)

theorem incomingLine_inv {line : Line} (h : Inv s) (ht : Traffic (s.incomingLine line).log) :
    Inv (s.incomingLine line) := by
  unfold Bridge.incomingLine at ht ⊢
  cases hvalue : line.value with
  | none => exact h.core.stop
  | some m =>
    rw [hvalue] at ht
    by_cases hnull : m = .null
    · subst hnull
      exact h.core.stop
    · simp only at ht ⊢
      obtain ⟨newer, hnewer⟩ := suffix_incomingMessage (s := s.note (.client m))
      rw [← hnewer] at ht
      exact incomingMessage_inv h ht.suffix

/-! ### Handlers that go on -/

theorem filterMap_eraseIdx_none {α β : Type} {f : α → Option β} {l : List α} {i : Nat} {a : α}
    (h : l[i]? = some a) (ha : f a = none) : (l.eraseIdx i).filterMap f = l.filterMap f := by
  induction l generalizing i with
  | nil => cases h
  | cons b l ih =>
    cases i with
    | zero =>
      cases h
      simp [ha]
    | succ i =>
      rw [List.eraseIdx_cons_succ, List.filterMap_cons, List.filterMap_cons, ih h]

theorem filterMap_eraseIdx_some {α β : Type} {f : α → Option β} {l : List α} {i : Nat} {a : α}
    {b : β} (h : l[i]? = some a) (ha : f a = some b) :
    ((l.eraseIdx i).filterMap f).length + 1 = (l.filterMap f).length := by
  induction l generalizing i with
  | nil => cases h
  | cons c l ih =>
    cases i with
    | zero =>
      cases h
      simp [ha]
    | succ i =>
      rw [List.eraseIdx_cons_succ, List.filterMap_cons, List.filterMap_cons]
      cases hc : f c with
      | none => exact ih h
      | some b' => simpa using ih h

/-- The phase the end of a read for the login meets. -/
theorem Core.of_waiting {i : Nat} {m : Json} {now : Nat} (h : Core s)
    (hwaiting : s.waiting[i]? = some (.login m now)) :
    logins (s.resume i).waiting = [] ∧ s.pendingAuth = [] ∧ s.timers = [] ∧
      .confirmed ∉ s.log ∧ .loginFailed ∉ s.log ∧
      ∃ id, s.initialization = some id ∧ unanswered id s.log = 0 := by
  have hlength : (logins (s.resume i).waiting).length + 1 = (logins s.waiting).length :=
    filterMap_eraseIdx_some hwaiting rfl
  rcases h.phase with ⟨hl, -⟩ | ⟨withheld, id, hl, hp, htm, -, hc, hf, hinit, hz⟩ | ⟨id, hl, -⟩ |
    ⟨hl, -⟩ | ⟨id, hl, -⟩
  · simp [hl] at hlength
  · refine ⟨?_, hp, htm, hc, hf, id, hinit, hz⟩
    rw [hl] at hlength
    exact List.eq_nil_of_length_eq_zero (Nat.succ.inj hlength)
  · simp [hl] at hlength
  · simp [hl] at hlength
  · simp [hl] at hlength

/-- Another handler than the one of the login has stopped waiting. -/
theorem Inv.resume {i : Nat} {w : Waiting} (h : Inv s) (hwaiting : s.waiting[i]? = some w)
    (hw : login? w = none) : Inv (s.resume i) :=
  h.steady rfl ⟨rfl, rfl, rfl, rfl⟩ ⟨filterMap_eraseIdx_none hwaiting hw, .inl ⟨rfl, rfl⟩, rfl, rfl,
    Iff.rfl, Iff.rfl, fun _ => Nat.le_refl _⟩ rfl

theorem Inv.refreshRead {loop : Refresh} {access : Option Fields} (h : Inv s) :
    Inv (s.refreshRead loop access) := by
  unfold Bridge.refreshRead
  cases access with
  | none => exact h.wait rfl
  | some next =>
    by_cases haccount : (!same (next.lookup "chatgptAccountId") loop.previousAccount) = true
    · simp only [haccount, if_true]
      exact h.send rfl
    by_cases htoken : (!same (next.lookup "accessToken") loop.previousToken) = true
    · simp only [haccount, htoken, Bool.false_eq_true, if_false, if_true]
      have hcurrent : Inv { s with currentAccess := some next } :=
        h.steady rfl ⟨rfl, rfl, rfl, rfl⟩ ⟨rfl, .inl ⟨rfl, rfl⟩, rfl, rfl, Iff.rfl, Iff.rfl,
          fun _ => Nat.le_refl _⟩ rfl
      exact hcurrent.send rfl
    · simp only [haccount, htoken, Bool.false_eq_true, if_false]
      exact h.wait rfl

theorem unmentioned {id : String} {e : Entry} {log : Log}
    (h : log.any (Entry.mentions id) = false) (he : e ∈ log) : e.mentions id = false := by
  rw [List.any_eq_false] at h
  simpa using h e he

/-- The login is sent; what came before it is answered. -/
theorem Inv.startLogin {i : Nat} {m : Json} {now : Nat} {access : Fields} {id : String}
    (h : Inv s) (ht : Traffic s.log) (hwaiting : s.waiting[i]? = some (.login m now))
    (hnew : s.log.any (Entry.mentions id) = false) :
    Inv ((s.resume i).startLogin m access id) := by
  obtain ⟨hl, hp, htm, hc, hf, own, hinit, hz⟩ := h.core.of_waiting hwaiting
  obtain ⟨first, hopened⟩ := h.core.opened ht hinit
  -- the id of the login is not the one of `initialize`
  have hother : same (some (.str id)) (some own) = false := by
    rw [Bool.eq_false_iff]
    intro hsame
    have hmentions := unmentioned hnew hopened.sent
    rw [Entry.mentions, id?_extendCapabilities hopened.hasMethod, hopened.hasId,
      ← eq_of_same hsame] at hmentions
    simp [same] at hmentions
  have hquiet : ∀ id, unanswered id (.sent initializedMessage :: s.log) = unanswered id s.log :=
    fun id => rfl
  have hsent : Core (s.send initializedMessage) := by
    refine h.core.quiet (e := .sent initializedMessage) trivial rfl ⟨rfl, rfl, rfl, rfl⟩ ?_
      (h.core.phase.alike ?_)
    · exact fun p hp => loginSent_cons.mpr (.inr (h.core.pending p hp))
    · exact alike_note nofun nofun fun id => (hquiet id).le
  let credentials := credentialsOf access
  have hstate : (s.resume i).startLogin m access id =
      { s with
        waiting := s.waiting.eraseIdx i, currentAccess := some access, initialized := true
        timers := [(s.nextTimer, id)], nextTimer := s.nextTimer + 1
        pendingAuth := [(id, m, s.nextTimer)]
        log := .sent (loginMessage id credentials) :: .sent initializedMessage :: s.log } := by
    simp [Bridge.startLogin, Bridge.send, Bridge.note, Bridge.resume, hp, htm, credentials]
  rw [hstate]
  refine ⟨hsent.quiet (e := .sent (loginMessage id credentials)) trivial rfl ⟨rfl, rfl, rfl, rfl⟩ ?_ ?_, ?_⟩
  · intro pending hmem
    rw [List.mem_singleton] at hmem
    subst hmem
    exact loginSent_cons.mpr (.inl ⟨credentials, rfl⟩)
  · refine .pending own hl (.inr ⟨id, m, s.nextTimer, rfl, rfl⟩) rfl (by simpa using hc)
      (by simpa using hf) hinit ?_
    have hrequest : requests own (.sent (loginMessage id credentials)) = false := by
      rw [requests, id?_loginMessage, hother, Bool.and_false]
    change unanswered own (.sent (loginMessage id credentials) :: .sent initializedMessage ::
      s.log) = 0
    rw [unanswered, hrequest, hquiet]
    exact hz
  · intro hs
    refine ⟨(h.live hs).queue, fun id' hid' => ?_⟩
    rcases loginSent_cons.mp hid' with ⟨other, hsame⟩ | hold
    · refine .inr ⟨_, List.mem_singleton_self _, ?_⟩
      have hids : some (Json.str id) = some (.str id') :=
        congrArg (fun e => match e with | .sent m => id? m | _ => none) hsame
      simpa using hids
    · have hold' := (loginSent_cons.mp hold).resolve_left (by
        rintro ⟨other, hsame⟩
        have hids : none = some (Json.str id') :=
          congrArg (fun e => match e with | .sent m => id? m | _ => none) hsame
        cases hids)
      rcases (h.live hs).login id' hold' with hauth | ⟨pending, hmem, -⟩
      · exact .inl hauth
      · rw [hp] at hmem
        cases hmem

theorem Inv.loginRead {i : Nat} {m : Json} {now : Nat} {access : Option Fields} {id : String}
    (h : Inv s) (ht : Traffic s.log) (hwaiting : s.waiting[i]? = some (.login m now))
    (hnew : s.log.any (Entry.mentions id) = false) :
    Inv ((s.resume i).loginRead m access id) := by
  cases access with
  | some access => exact h.startLogin ht hwaiting hnew
  | none =>
    obtain ⟨hl, hp, htm, hc, hf, own, hinit, hz⟩ := h.core.of_waiting hwaiting
    have hcore : Core ((s.resume i).note .loginFailed) :=
      h.core.loginFailed rfl ⟨rfl, rfl, rfl, rfl⟩ hl hp htm hc hinit hz
    exact hcore.fail

theorem Inv.timeout {running : Nat × String} (h : Inv s) (hmem : running ∈ s.timers) :
    Inv (s.timeout running.2 running.1) := by
  refine Core.rejectLogin ?_
  rcases h.core.phase with ⟨-, -, htimers, -⟩ | ⟨-, -, -, -, htimers, -⟩ |
    ⟨id, hl, hp, hi, hc, hf, hinit, hz⟩ | ⟨-, -, htimers, -⟩ | ⟨-, -, -, htimers, -⟩
  · simp [htimers] at hmem
  · simp [htimers] at hmem
  · rcases hp with ⟨-, htimers⟩ | ⟨login, withheld, timer, hp, htimers⟩
    · simp [htimers] at hmem
    · rw [htimers, List.mem_singleton] at hmem
      subst hmem
      refine h.core.loginFailed rfl ⟨rfl, rfl, rfl, rfl⟩ hl ?_ ?_ hc hinit hz
      · simp [Bridge.note, Bridge.forget, hp]
      · simp [Bridge.note, Bridge.forget, htimers]
  · simp [htimers] at hmem
  · simp [htimers] at hmem

/-! ### All runs -/

variable {parseDate : Option Json → Option Int} {timeoutMs : Nat} {s' : Bridge} {event : Event}

theorem step_suffix (h : step parseDate timeoutMs event s = some s') : s.log <:+ s'.log := by
  cases event with
  | client lines =>
    obtain ⟨-, rfl⟩ : s.stopped = false ∧ lines.foldl Bridge.incomingLine s = s' := by
      simpa [step] using h
    exact (chunk_keeps (P := fun _ => True) (fun _ _ => suffix_incomingLine)
      (fun _ _ _ _ => trivial) lines s).1
  | child lines =>
    obtain ⟨-, rfl⟩ : s.stopped = false ∧ lines.foldl (Bridge.outgoingLine timeoutMs) s = s' := by
      simpa [step] using h
    exact (chunk_keeps (P := fun _ => True) (fun _ _ => suffix_outgoingLine)
      (fun _ _ _ _ => trivial) lines s).1
  | read i file uuid =>
    simp only [step] at h
    split at h
    · split at h
      · cases h
      · cases h
        unfold Bridge.loginRead
        split
        · exact (List.suffix_cons _ _).trans (suffix_fail (s := (s.resume i).note .loginFailed))
        · exact ⟨[_, _], rfl⟩
    · cases h
      unfold Bridge.refreshRead
      split
      · exact List.suffix_refl _
      · split
        · exact List.suffix_cons _ _
        · split
          · exact List.suffix_cons _ _
          · exact List.suffix_refl _
    · cases h
  | wake i =>
    simp only [step] at h
    split at h
    · cases h
      exact suffix_loopRefresh (s := s.resume i)
    · cases h
  | timeout timer =>
    obtain ⟨running, -, rfl⟩ := Option.map_eq_some_iff.mp h
    exact suffix_rejectLogin (s := Bridge.forget running.2
      { s with timers := s.timers.filter fun other => other.1 ≠ timer })
  | close =>
    cases h
    exact suffix_stop
  | tick ms =>
    cases h
    exact List.suffix_refl _

theorem step_inv (h : Inv s) (hstep : step parseDate timeoutMs event s = some s')
    (ht : Traffic s'.log) : Inv s' := by
  obtain ⟨newer, hnewer⟩ := step_suffix hstep
  have hold : Traffic s.log := by
    rw [← hnewer] at ht
    exact ht.suffix
  cases event with
  | client lines =>
    obtain ⟨-, rfl⟩ : s.stopped = false ∧ lines.foldl Bridge.incomingLine s = s' := by
      simpa [step] using hstep
    exact (chunk_keeps (fun _ _ => suffix_incomingLine) (fun _ _ h ht => incomingLine_inv h ht)
      lines s).2 h ht
  | child lines =>
    obtain ⟨hs, rfl⟩ : s.stopped = false ∧ lines.foldl (Bridge.outgoingLine timeoutMs) s = s' := by
      simpa [step] using hstep
    have hclosed : Closed s := fun hs' => by
      rw [hs] at hs'
      cases hs'
    exact ((chunk_keeps (fun _ _ => suffix_outgoingLine) (fun _ _ h ht => outgoingLine_inv h ht)
      lines s).2 ⟨h, hclosed⟩ ht).1
  | read i file uuid =>
    simp only [step] at hstep
    split at hstep
    · rename_i m now hwaiting
      split at hstep
      · cases hstep
      · rename_i hnew
        cases hstep
        exact h.loginRead hold hwaiting (by simpa using hnew)
    · rename_i loop now hwaiting
      cases hstep
      exact (h.resume hwaiting rfl).refreshRead
    · cases hstep
  | wake i =>
    simp only [step] at hstep
    split at hstep
    · rename_i loop hwaiting
      cases hstep
      exact (h.resume hwaiting rfl).loopRefresh
    · cases hstep
  | timeout timer =>
    obtain ⟨running, hfound, rfl⟩ := Option.map_eq_some_iff.mp hstep
    have htimer : running.1 = timer := by simpa using List.find?_some hfound
    subst htimer
    exact h.timeout (List.mem_of_find?_eq_some hfound)
  | close =>
    cases hstep
    exact h.core.stop
  | tick ms =>
    cases hstep
    exact h.steady rfl ⟨rfl, rfl, rfl, rfl⟩ ⟨rfl, .inl ⟨rfl, rfl⟩, rfl, rfl, Iff.rfl, Iff.rfl,
      fun _ => Nat.le_refl _⟩ rfl

theorem init_inv (clock : Nat) : Inv { clock } where
  core := by
    refine ⟨by simp, by simp, rfl, fun _ => rfl, nofun, trivial, nofun, by simp [Accepted], ?_⟩
    exact .fresh rfl rfl rfl rfl nofun nofun (fun _ _ => rfl) fun _ => Nat.zero_le _
  live := fun _ => ⟨fun _ => rfl, fun _ h => nomatch h.choose_spec⟩

theorem reachable_inv (h : Reachable parseDate timeoutMs s) (ht : Traffic s.log) : Inv s := by
  induction h with
  | init clock => exact init_inv clock
  | step event _ hstep ih =>
    obtain ⟨newer, hnewer⟩ := step_suffix hstep
    refine step_inv (ih ?_) hstep ht
    rw [← hnewer] at ht
    exact ht.suffix

/-! ### The fence -/

theorem History.suffix {newer older : Log} (h : History (newer ++ older)) : History older := by
  induction newer with
  | nil => exact h
  | cons e newer ih => exact ih h.2

/-- Before the login only the opening is forwarded. -/
theorem History.fenced {log : Log} (h : History log) (hconfirmed : .confirmed ∉ log) :
    forwards log <+: opening log := by
  induction log with
  | nil => exact List.prefix_refl _
  | cons e older ih =>
    have hold := ih h.2 fun hmem => hconfirmed (List.mem_cons_of_mem _ hmem)
    cases e with
    | forwarded m =>
      rcases h.1 with hmem | ⟨hnone, hopening⟩
      · exact absurd (List.mem_cons_of_mem _ hmem) hconfirmed
      · have hsame : opening (.forwarded m :: older) = [m] := hopening
        rw [hsame, forwards, hnone]
        exact List.prefix_refl _
    | client m =>
      refine hold.trans ?_
      rw [opening, opening, first_client]
      cases first older with
      | none => exact List.nil_prefix
      | some m' => exact List.prefix_refl _
    | _ => exact hold

/-- What is emitted over a log was allowed. -/
theorem History.emitted {newer older : Log} {m : Json}
    (h : History (newer ++ .emitted m :: older)) : Allowed older (.emitted m) :=
  (History.suffix h).1

theorem not_login_of_opening {m : Json} {log : Log} (h : m ∈ opening log) {name : String}
    (hname : "initialize" ≠ name) : hasMethod name m = false := by
  obtain ⟨m', hfirst, rfl⟩ : ∃ m', first log = some m' ∧ extendCapabilities m' = m := by
    simpa [opening] using h
  have hmethod : hasMethod "initialize" m' = true := List.find?_some hfirst
  rw [hasMethod_extendCapabilities hmethod]
  exact hasMethod_unique hmethod hname

/-- **The bridge keeps the client's traffic behind its login and in order.**  Before the
    child has confirmed the login the child is sent nothing of the client but its first
    `initialize`, of which only the capabilities are extended; once it has, it has been
    sent all that is wanted, once each and in the order of arrival.  A login or logout of
    the client is never sent, and an answer to `initialize` reaches the client only after
    the login.  When the login fails nothing that was queued is ever sent. -/
theorem authentication_fence (h : Reachable parseDate timeoutMs s) (ht : Traffic s.log) :
    (∀ older, older <:+ s.log → .confirmed ∉ older → forwards older <+: opening older) ∧
      (∀ m, hasMethod "initialize" m = true → OnlyCapabilities m (extendCapabilities m)) ∧
      (.confirmed ∈ s.log ↔ Accepted s.log) ∧
      (.confirmed ∈ s.log → forwards s.log = opening s.log ++ (arrivals s.log).filter wanted) ∧
      (∀ m, .forwarded m ∈ s.log → hasMethod "account/login/start" m = false ∧
        hasMethod "account/logout" m = false) ∧
      (∀ newer m older, s.log = newer ++ .emitted m :: older → hasResult m = true →
        ∀ request, .forwarded request ∈ older → hasMethod "initialize" request = true →
          id? m = id? request → .confirmed ∈ older) ∧
      (.loginFailed ∈ s.log → forwards s.log = opening s.log) := by
  have hinv := reachable_inv h ht
  have hcore := hinv.core
  refine ⟨?_, fun m hm => extendCapabilities_only hm, hcore.accepted.symm, ?_, ?_, ?_, ?_⟩
  · rintro older ⟨newer, hnewer⟩ hconfirmed
    have hhistory := hcore.history
    rw [← hnewer] at hhistory
    exact (History.suffix hhistory).fenced hconfirmed
  · exact fun hconfirmed => (hcore.through (hcore.authenticated.mpr hconfirmed)).2
  · intro m hmem
    rw [← mem_forwards] at hmem
    by_cases hauth : s.authenticated = true
    · rw [(hcore.through hauth).2, List.mem_append] at hmem
      rcases hmem with hopening | hwanted
      · exact ⟨not_login_of_opening hopening (by decide), not_login_of_opening hopening (by decide)⟩
      · have hm := (List.mem_filter.mp hwanted).2
        simp only [wanted, Bool.not_eq_true', Bool.or_eq_false_iff] at hm
        exact hm.2
    · rw [hcore.fenced (by simpa using hauth)] at hmem
      exact ⟨not_login_of_opening hmem (by decide), not_login_of_opening hmem (by decide)⟩
  · intro newer m older hlog hresult request hrequest hmethod hid
    have hhistory := hcore.history
    rw [hlog] at hhistory
    exact History.emitted hhistory hresult request hrequest hmethod hid
  · intro hfailed
    refine hcore.fenced ?_
    rw [Bool.eq_false_iff]
    intro hauth
    exact (hcore.of_confirmed (hcore.authenticated.mp hauth)).2.2.2.2.1 hfailed

/-! ### Runs -/

section Demo

def run (events : List Event) (s : Bridge) : Option Bridge :=
  events.foldlM (fun s event => step (fun _ => some 100000) 8000 event s) s

theorem reachable_run {events : List Event} {s s' : Bridge}
    (h : Reachable (fun _ => some 100000) 8000 s) (hrun : run events s = some s') :
    Reachable (fun _ => some 100000) 8000 s' := by
  induction events generalizing s with
  | nil =>
    cases hrun
    exact h
  | cons event events ih =>
    obtain ⟨next, hnext, hrest⟩ := Option.bind_eq_some_iff.mp hrun
    exact ih (h.step event hnext) hrest

def lineOf (m : Json) : Line := ⟨2, some m⟩

def demoAccess : Json :=
  .obj [("accessToken", .str "t"), ("chatgptAccountId", .str "a"), ("chatgptPlanType", .null),
    ("expiresAt", .str "later")]

def demoInitialize (id : Json) : Json := .obj [("id", id), ("method", .str "initialize")]

def demoResult (id : Json) : Json :=
  .obj [("id", id), ("result", .obj [("type", .str "chatgptAuthTokens")])]

def demoRequest (id : Int) : Json := .obj [("id", .num id), ("method", .str "turn/start")]

/-- A request before the login is sent when it is confirmed, one after it at once. -/
def demoRun : Option Bridge :=
  run [.client [lineOf (demoInitialize (.num 1)), lineOf (demoRequest 2)],
    .child [lineOf (demoResult (.num 1))], .read 0 (some demoAccess) "u",
    .child [lineOf (demoResult (.str "paseo-auth-u"))], .client [lineOf (demoRequest 3)]] {}

/-- The log of that run, newest first. -/
def demoLog : Log :=
  [.forwarded (demoRequest 3), .client (demoRequest 3), .forwarded (demoRequest 2),
    .emitted (demoResult (.num 1)), .confirmed, .child (demoResult (.str "paseo-auth-u")),
    .sent (loginMessage "paseo-auth-u" [("accessToken", .str "t"), ("chatgptAccountId", .str "a"),
      ("chatgptPlanType", .null)]),
    .sent initializedMessage, .child (demoResult (.num 1)), .client (demoRequest 2),
    .forwarded (extendCapabilities (demoInitialize (.num 1))),
    .client (demoInitialize (.num 1))]

theorem answered_child {m id : Json} (h : answers id (.child m) = true) : id? m = some id := by
  rw [answers, Bool.and_eq_true] at h
  exact eq_of_same h.2

theorem demoLog_traffic : Traffic demoLog where
  identified := by
    intro m hm hmethod
    simp only [demoLog, List.mem_cons, Entry.client.injEq, reduceCtorEq, List.not_mem_nil,
      false_or, or_false] at hm
    rcases hm with rfl | rfl | rfl
    · cases hmethod
    · cases hmethod
    · exact ⟨.num 1, rfl, rfl⟩
  results := by
    intro m hm _
    simp only [demoLog, List.mem_cons, Entry.child.injEq, reduceCtorEq, List.not_mem_nil,
      false_or, or_false] at hm
    rcases hm with rfl | rfl <;> rfl
  once := by
    refine ⟨nofun, nofun, nofun, nofun, nofun, fun id h _ => ?_, nofun, nofun, fun id h _ => ?_,
      nofun, nofun, nofun, trivial⟩
    · cases answered_child h
      decide
    · cases answered_child h
      decide

theorem authentication_fence_demo : ∃ s, Reachable (fun _ => some 100000) 8000 s ∧
    s.log = demoLog ∧ .confirmed ∈ s.log ∧
    forwards s.log = opening s.log ++ [demoRequest 2, demoRequest 3] := by
  have hrun : demoRun.map Bridge.log = some demoLog := rfl
  obtain ⟨s, hs, hlog⟩ := Option.map_eq_some_iff.mp hrun
  have hreachable := reachable_run (.init 0) hs
  have hconfirmed : .confirmed ∈ s.log := by simp [hlog, demoLog]
  have hfence := authentication_fence hreachable (hlog ▸ demoLog_traffic)
  refine ⟨s, hreachable, hlog, hconfirmed, ?_⟩
  rw [hfence.2.2.2.1 hconfirmed, hlog]
  rfl

/-- An answer to `initialize` has reached the client without a login. -/
def Leaks (log : Log) : Prop :=
  ∃ newer m older request, log = newer ++ .emitted m :: older ∧ hasResult m = true ∧
    .forwarded request ∈ older ∧ hasMethod "initialize" request = true ∧
    id? m = id? request ∧ .confirmed ∉ older

def Identified (log : Log) : Prop :=
  ∀ m, .client m ∈ log → hasMethod "initialize" m = true → (id? m).isSome = true

/-- A result without an id starts the login before the client has asked for anything, and
    the answer to `initialize` is passed on at once. -/
def strayRun : Option Bridge :=
  run [.child [lineOf (.obj [("result", .null)])], .read 0 (some demoAccess) "u",
    .client [lineOf (demoInitialize (.num 1))], .child [lineOf (demoResult (.num 1))]] {}

def strayLog : Log :=
  [.emitted (demoResult (.num 1)), .child (demoResult (.num 1)),
    .forwarded (extendCapabilities (demoInitialize (.num 1))), .client (demoInitialize (.num 1)),
    .sent (loginMessage "paseo-auth-u" [("accessToken", .str "t"), ("chatgptAccountId", .str "a"),
      ("chatgptPlanType", .null)]),
    .sent initializedMessage, .child (.obj [("result", .null)])]

/-- An array is never identical to the id of another message. -/
def arrayRun : Option Bridge :=
  run [.client [lineOf (demoInitialize (.arr []))], .child [lineOf (demoResult (.arr []))]] {}

def arrayLog : Log :=
  [.emitted (demoResult (.arr [])), .child (demoResult (.arr [])),
    .forwarded (extendCapabilities (demoInitialize (.arr []))),
    .client (demoInitialize (.arr []))]

/-- Ids decide: where the child sends a result without one, or the client's is an array,
    the client is given the answer to `initialize` without a login. -/
theorem login_bypassed :
    (∃ s, Reachable (fun _ => some 100000) 8000 s ∧ s.log = strayLog ∧ Identified s.log ∧
      AnsweredOnce s.log ∧ Leaks s.log) ∧
    ∃ s, Reachable (fun _ => some 100000) 8000 s ∧ s.log = arrayLog ∧ Identified s.log ∧
      AnsweredOnce s.log ∧ Leaks s.log := by
  constructor
  · have hrun : strayRun.map Bridge.log = some strayLog := rfl
    obtain ⟨s, hs, hlog⟩ := Option.map_eq_some_iff.mp hrun
    refine ⟨s, reachable_run (.init 0) hs, hlog, ?_, ?_, ?_⟩ <;> rw [hlog]
    · intro m hm _
      simp only [strayLog, List.mem_cons, Entry.client.injEq, reduceCtorEq, List.not_mem_nil,
        false_or, or_false] at hm
      subst hm
      rfl
    · refine ⟨nofun, fun id h _ => ?_, nofun, nofun, nofun, nofun, nofun, trivial⟩
      cases answered_child h
      decide
    · exact ⟨[], _, _, _, rfl, rfl, List.mem_cons_of_mem _ List.mem_cons_self, rfl, rfl,
        by simp⟩
  · have hrun : arrayRun.map Bridge.log = some arrayLog := rfl
    obtain ⟨s, hs, hlog⟩ := Option.map_eq_some_iff.mp hrun
    refine ⟨s, reachable_run (.init 0) hs, hlog, ?_, ?_, ?_⟩ <;> rw [hlog]
    · intro m hm _
      simp only [arrayLog, List.mem_cons, Entry.client.injEq, reduceCtorEq, List.not_mem_nil,
        false_or, or_false] at hm
      subst hm
      rfl
    · refine ⟨nofun, fun id h _ => ?_, nofun, nofun, trivial⟩
      cases answered_child h
      cases h
    · exact ⟨[], _, _, _, rfl, rfl, List.mem_cons_of_mem _ List.mem_cons_self, rfl, rfl,
        by simp⟩

end Demo

end PaseoGateway.CodexBridge

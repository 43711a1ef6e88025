/-
  PaseoGateway/ScheduleDispatchSafety.lean
  ========================================
  **What a rejected dispatch tells about the mutations that were sent.**

  Two requests may change something at a backend: the prompt for an existing agent and the
  creation of a new one.  What comes before either may throw a rejection, and what comes
  after the prompt throws ordinary errors only.  The reply to a creation is the delicate
  part: a message of a type other than `agent.create.response` is no answer to the
  creation, and is taken for a refusal all the same.
-/
import PaseoGateway.RoutingAgreement
import PaseoGateway.ScheduleDispatch

namespace PaseoGateway.ScheduleDispatch

open Async Routing

/-! ### Mutations -/

def isSend (message : Json) : Prop := typeOf message = some "send_agent_message_request"

def isCreate (message : Json) : Prop := typeOf message = some "agent.create.request"

/-- The request changes nothing at a backend. -/
def Quiet : Req → Prop
  | .request message => ¬ isSend message ∧ ¬ isCreate message
  | _ => True

/-- The request creates no agent. -/
def CreatesNone : Req → Prop
  | .request message => ¬ isCreate message
  | _ => True

def Ordinary (e : Err) : Prop := e.isRejected = false

/-- The backend has answered a creation, and has no agent. -/
def Reply.noAgent (reply : Reply) : Prop :=
  (reply.type = "agent.create.response" ∧
      (reply.payload.lookup "agent").any Json.truthy = false) ∨
    (reply.type = "status" ∧ ((reply.payload.lookup "status").any fun status =>
      match status with
      | .str status => status == "agent_create_failed"
      | _ => false) = true)

/-- No prompt was sent, and every creation was answered without an agent. -/
def NotAccepted (log : Log) : Prop :=
  ∀ message answer, (⟨.request message, answer⟩ : Event iface) ∈ log →
    ¬ isSend message ∧
      (isCreate message → ∃ reply : Reply, answer = .ok reply ∧ reply.noAgent)

/-- A creation was answered by a message that is no answer to it, and the message was stored in
    the receipt before the connection was closed. -/
def Misread (log : Log) : Prop :=
  ∃ before message reply after record,
    log = before ++ ⟨.request message, .ok reply⟩ :: after ∧ isCreate message ∧
      reply.type ≠ "agent.create.response" ∧ ¬ reply.noAgent ∧
      (⟨.updateRecord record, .ok ()⟩ : Event iface) ∈ after ∧
      (⟨.close, .ok ()⟩ : Event iface) ∈ after

def QuietLog (log : Log) : Prop := ∀ event ∈ log, Quiet event.1

theorem QuietLog.append {log log' : Log} (h : QuietLog log) (h' : QuietLog log') :
    QuietLog (log ++ log') := by
  intro event hevent
  rcases List.mem_append.mp hevent with hin | hin
  · exact h event hin
  · exact h' event hin

theorem QuietLog.notAccepted {log : Log} (h : QuietLog log) : NotAccepted log := by
  intro message answer hin
  obtain ⟨hsend, hcreate⟩ := h _ hin
  exact ⟨hsend, fun hc => absurd hc hcreate⟩

/-- There is one way to split a log at its only mutation. -/
theorem QuietLog.split {before after before' after' : Log} {x y : Event iface}
    (hbefore : QuietLog before) (hafter : QuietLog after) (hy : ¬ Quiet y.1)
    (h : before ++ x :: after = before' ++ y :: after') : x = y ∧ after = after' := by
  rcases List.append_eq_append_iff.mp h with ⟨middle, rfl, heq⟩ | ⟨middle, rfl, heq⟩
  · rcases List.cons_eq_append_iff.mp heq with ⟨rfl, heq'⟩ | ⟨middle', rfl, rfl⟩
    · obtain ⟨rfl, rfl⟩ := List.cons.inj heq'
      exact ⟨rfl, rfl⟩
    · exact absurd (hafter y (by simp)) hy
  · rcases List.cons_eq_append_iff.mp heq with ⟨rfl, heq'⟩ | ⟨middle', rfl, _⟩
    · obtain ⟨rfl, rfl⟩ := List.cons.inj heq'
      exact ⟨rfl, rfl⟩
    · exact absurd (hbefore y (by simp)) hy

/-! ### The quiet parts -/

/-- Changes nothing at a backend and throws no rejection. -/
abbrev Calm {α : Type} (p : Task α) : Prop := p.Keeps Quiet Ordinary

abbrev Harmless {α : Type} (p : Task α) : Prop := p.Keeps Quiet fun _ => True

section Calm

variable {α : Type} {o : Options}

theorem Calm.harmless {p : Task α} (h : Calm p) : Harmless p := h.mono (fun _ => id) fun _ _ => trivial

theorem calm_orThrow {ok : Req → Prop} (r : Except Thrown α) :
    (orThrow r).Keeps ok Ordinary := by
  cases r with
  | ok a => trivial
  | error e => exact rfl

theorem calm_call {q : Req} {k : q.Res → Task α} (hq : Quiet q) (hk : ∀ r, Calm (k r)) :
    Calm (.call q k) := ⟨hq, hk⟩

theorem calm_records : Calm records :=
  calm_call trivial fun projects => calm_call trivial fun workspaces =>
    (calm_orThrow projects).bind fun _ => (calm_orThrow workspaces).bind fun _ => trivial

theorem calm_workspaces : Calm workspaces := calm_call trivial calm_orThrow

theorem calm_now : Calm now := calm_call trivial fun _ => trivial

theorem calm_randomUUID : Calm randomUUID := calm_call trivial fun _ => trivial

theorem calm_connect (workspace : Workspace) : Calm (connect workspace) :=
  calm_call trivial calm_orThrow

theorem calm_updateRecord (record : ReceiptRecord) : Calm (updateRecord record) :=
  calm_call trivial calm_orThrow

theorem calm_close : Calm close := calm_call trivial calm_orThrow

theorem calm_resolveAgent (id : String) (workspaces : List Workspace) :
    Calm (resolveAgent id workspaces) := calm_call trivial calm_orThrow

theorem calm_request {message : Json} (type : String) (h : typeOf message = some type)
    (hsend : type ≠ "send_agent_message_request") (hcreate : type ≠ "agent.create.request") :
    Calm (request message) := by
  refine calm_call ⟨?_, ?_⟩ calm_orThrow
  · rw [isSend, h]
    exact fun heq => hsend (Option.some.inj heq)
  · rw [isCreate, h]
    exact fun heq => hcreate (Option.some.inj heq)

theorem calm_fail {message : String} : Calm (.fail (.error message) : Task α) := rfl

theorem calm_ready (turns : Nat) (id : String) : Calm (ready o turns id) := by
  refine calm_now.bind fun instant => ?_
  generalize instant + o.readyTimeoutMs = deadline
  induction turns with
  | zero => exact ⟨trivial, nofun⟩
  | succ turns ih =>
    refine calm_records.bind fun rows => ?_
    dsimp only
    split
    · exact calm_fail
    · split
      · exact calm_fail
      · split
        · trivial
        · split
          · exact calm_fail
          · refine calm_now.bind fun now => ?_
            split
            · exact calm_fail
            · exact ⟨trivial, fun _ => ih⟩

theorem calm_backend (workspace : Workspace) : Calm (backend workspace) := by
  refine Prog.Keeps.catch ?_ (fun localId => trivial) fun e (he : Ordinary e) => ?_
  · refine (calm_connect workspace).bind fun _ => calm_randomUUID.bind fun requestId => ?_
    refine (calm_request "open_project_request" rfl (by simp) (by simp)).bind
      fun opened => ?_
    split
    · split
      · trivial
      · exact calm_fail
    · exact calm_fail
  · exact calm_close.bind fun _ => he

theorem harmless_rejecting {fallback : String} {p : Task α} (hp : Harmless p) :
    Harmless (rejecting fallback p) :=
  Prog.Keeps.catch hp (fun _ => trivial) fun _ _ => trivial

theorem calm_createWorkspace (projectId title idempotencyKey : String) :
    Calm (createWorkspace o projectId title idempotencyKey) := by
  refine calm_records.bind fun rows => ?_
  dsimp only
  split
  · exact calm_fail
  · refine (calm_orThrow _).bind fun revision => ?_
    split
    · exact calm_fail
    · refine Prog.Keeps.bind ⟨trivial, calm_orThrow⟩ fun workspace => ?_
      split
      · exact calm_fail
      · trivial

theorem calm_project (value : Json) (workspace : Workspace) : Calm (project o value workspace) := by
  rw [project]
  split
  · exact calm_call trivial fun names => calm_orThrow _
  · trivial

theorem calm_claimReceipt (message : CreateAgent) (workspace : Workspace) (uid : String) :
    Calm (claimReceipt o message workspace uid) := by
  refine calm_call trivial fun created => ?_
  dsimp only
  split
  · trivial
  · split
    · exact rfl
    · refine Prog.Keeps.bind ⟨trivial, calm_orThrow⟩ fun previous => ?_
      split
      · exact calm_fail
      · split
        · exact calm_fail
        · split
          · exact calm_fail
          · exact (calm_project _ _).bind fun shown => (calm_orThrow _).bind fun _ => trivial

theorem calm_validate (workspace : Workspace) (workspaceId : String) :
    Calm (validate workspace workspaceId) := by
  refine calm_records.bind fun rows => ?_
  dsimp only
  split
  · exact calm_fail
  · split
    · trivial
    · exact calm_fail

theorem calm_reserve (workspace : Workspace) (workspaceId : String) (input : Json) :
    Calm (reserve o workspace workspaceId input) := by
  refine (calm_validate _ _).bind fun _ => ?_
  split
  · refine (calm_orThrow _).bind fun fields => calm_randomUUID.bind fun requestedId => ?_
    refine Prog.Keeps.bind ⟨trivial, calm_orThrow⟩ fun reserved => (calm_orThrow _).bind fun _ => ?_
    exact (calm_validate _ _).bind fun _ => (calm_resolveAgent _ _).bind fun _ =>
      (calm_validate _ _).bind fun _ => trivial
  · exact (calm_validate _ _).bind fun _ => (calm_validate _ _).bind fun _ => trivial

/-- The steps after the reply ask the registry and the store. -/
theorem calm_settle (workspace : Workspace) (localId : String) (receipt : ReceiptRecord)
    (reply : Reply) : Calm (settle o workspace localId receipt reply) := by
  refine (calm_orThrow _).bind fun translated => (calm_project _ _).bind fun shown => ?_
  refine (calm_orThrow _).bind fun response => (calm_orThrow _).bind fun retained => ?_
  exact (calm_updateRecord _).bind fun _ => trivial

theorem harmless_originLost (origin : Origin) (rows : List Workspace) :
    Harmless (originLost origin rows) := by
  rw [originLost]
  split
  · trivial
  · split
    · trivial
    · refine calm_now.harmless.bind fun instant => ?_
      split
      · trivial
      · exact ⟨trivial, fun _ => trivial⟩

theorem harmless_checkOrigin (input : Input) : Harmless (checkOrigin input) := by
  rw [checkOrigin]
  split
  · trivial
  · refine calm_workspaces.harmless.bind fun rows => (harmless_originLost _ _).bind fun lost => ?_
    split <;> trivial

theorem harmless_validateDispatch (input : Input) : Harmless (validateDispatch input) := by
  refine calm_workspaces.harmless.bind fun latest => ?_
  split
  · trivial
  · split
    · trivial
    · split
      · trivial
      · refine (harmless_originLost _ _).bind fun lost => ?_
        split <;> trivial

theorem harmless_prepareSend (input : Input) (agentId : String) :
    Harmless (prepareSend o input agentId) := by
  refine calm_randomUUID.harmless.bind fun requestId => ?_
  have hfetch : Calm (request (fetchAgent agentId requestId)) :=
    calm_request "fetch_agent_request" rfl (by simp) (by simp)
  refine (harmless_rejecting hfetch.harmless).bind fun target => ?_
  split
  · trivial
  · refine (harmless_validateDispatch input).bind fun current => ?_
    split
    · refine Prog.Keeps.bind (p := claim current agentId) ⟨trivial, fun r => ?_⟩ fun _ => ?_
      · exact (calm_orThrow r).mono (fun _ => id) fun _ _ => trivial
      · refine (calm_resolveAgent _ _).harmless.bind fun route => ?_
        split
        · trivial
        · exact (harmless_validateDispatch input).bind fun _ => trivial
    · exact (harmless_validateDispatch input).bind fun _ => trivial

end Calm

/-! ### The prompt for an existing agent -/

/-- A rejection is thrown before any mutation. -/
def Sound {α : Type} (p : Task α) : Prop :=
  ∀ log message, Prog.Ran p log (.error (.rejected message)) → QuietLog log

section Sound

variable {α β : Type} {o : Options}

theorem Sound.of_harmless {p : Task α} (h : Harmless p) : Sound p :=
  fun _ _ hran => h.log hran

theorem Sound.of_ordinary {ok : Req → Prop} {p : Task α} (h : p.Keeps ok Ordinary) : Sound p :=
  fun _ _ hran => absurd (h.error hran) Bool.noConfusion

theorem Sound.bind {p : Task α} {f : α → Task β} (hp : Harmless p) (hf : ∀ a, Sound (f a)) :
    Sound (p >>= f) := by
  intro log message hran
  rcases Prog.ran_bind.mp hran with ⟨e, he, hp'⟩ | ⟨a, before, after, rfl, hp', hf'⟩
  · exact hp.log hp'
  · exact (show QuietLog before from hp.log hp').append (hf a after message hf')

/-- What follows throws no rejection. -/
theorem Sound.then (ok : Req → Prop) {p : Task α} {f : α → Task β} (hp : Sound p)
    (hf : ∀ a, (f a).Keeps ok Ordinary) : Sound (p >>= f) := by
  intro log message hran
  rcases Prog.ran_bind.mp hran with ⟨e, he, hp'⟩ | ⟨a, before, after, rfl, hp', hf'⟩
  · rw [← Except.error.inj he] at hp'
    exact hp log message hp'
  · exact absurd ((hf a).error hf') Bool.noConfusion

theorem Sound.andFinally {body : Task α} {last : Task Unit} (hbody : Sound body)
    (hlast : Calm last) : Sound (body.andFinally last) := by
  intro log message hran
  obtain ⟨before, after, result, rfl, hbody', ⟨hlast', rfl⟩ | ⟨e, hlast', he⟩⟩ :=
    Prog.ran_andFinally.mp hran
  · exact (hbody before message hbody').append (hlast.log hlast')
  · rw [← Except.error.inj he] at hlast'
    exact absurd (hlast.error hlast') Bool.noConfusion

theorem ordinary_send (input : Input) (agentId : String) :
    (send input agentId).Keeps CreatesNone Ordinary := by
  refine Prog.Keeps.bind (p := request _) ⟨?_, calm_orThrow⟩ fun response => ?_
  · simp [CreatesNone, isCreate, sendMessage, typeOf, Json.field?]
  · split
    · trivial
    · exact rfl

theorem sound_dispatchToAgent (input : Input) (agentId : String) :
    Sound (dispatchToAgent o input agentId) := by
  refine Sound.bind calm_workspaces.harmless fun rows => ?_
  split
  · exact .of_harmless trivial
  · split
    · exact .of_harmless trivial
    · refine Sound.bind (harmless_rejecting (calm_backend _).harmless) fun _ => ?_
      refine Sound.then (fun _ => True) (Sound.andFinally ?_ calm_close) fun _ => trivial
      exact Sound.bind (harmless_prepareSend input agentId) fun _ =>
        .of_ordinary (ordinary_send input agentId)

theorem createsNone_of_harmless {p : Task α} (h : Harmless p) : p.Keeps CreatesNone fun _ => True := by
  refine h.mono (fun q hq => ?_) fun _ => id
  cases q with
  | request message => exact hq.2
  | _ => trivial

/-- No agent is created for a schedule with an agent. -/
theorem createsNone_dispatchToAgent (input : Input) (agentId : String) :
    (dispatchToAgent o input agentId).Keeps CreatesNone fun _ => True := by
  refine (createsNone_of_harmless calm_workspaces.harmless).bind fun rows => ?_
  split
  · trivial
  · split
    · trivial
    · refine (createsNone_of_harmless (harmless_rejecting (calm_backend _).harmless)).bind fun _ => ?_
      refine Prog.Keeps.bind ?_ fun _ => trivial
      refine Prog.Keeps.andFinally ?_ (createsNone_of_harmless calm_close.harmless)
      refine (createsNone_of_harmless (harmless_prepareSend input agentId)).bind fun _ => ?_
      exact (ordinary_send input agentId).mono (fun _ => id) fun _ _ => trivial

end Sound

/-! ### What the walkers keep of a reply -/

/-- The same type, and an agent in both or in neither. -/
def Alike (value out : Json) : Prop :=
  typeOf out = typeOf value ∧ (agentOf out).isSome = (agentOf value).isSome

theorem Alike.trans {a b c : Json} (h : Alike a b) (h' : Alike b c) : Alike a c :=
  ⟨h'.1.trans h.1, h'.2.trans h.2⟩

section Walkers

variable {ε : Type}

/-- A walker goes into arrays and objects and leaves everything else. -/
def SameShape (item item' : Json) : Prop :=
  item' = item ∨ (∃ items items', item = .arr items ∧ item' = .arr items') ∨
    ∃ fields fields', item = .obj fields ∧ item' = .obj fields'

theorem SameShape.truthy {item item' : Json} (h : SameShape item item') :
    item'.truthy = item.truthy := by
  rcases h with rfl | ⟨_, _, rfl, rfl⟩ | ⟨_, _, rfl, rfl⟩ <;> rfl

/-- What a walker makes of the value of a field. -/
def WalksField (f : String → Json → Except ε Json) (value out : Json) (key : String) : Prop :=
  (value.field? key = none ∧ out.field? key = none) ∨
    ∃ item item', value.field? key = some item ∧ out.field? key = some item' ∧
      f key item = .ok item'

theorem alike_of_walk (f : String → Json → Except ε Json)
    (hshape : ∀ context item item', f context item = .ok item' → SameShape item item')
    (hfield : ∀ context record out key, f context (.obj record) = .ok out →
      key ∈ ["type", "payload", "agent"] → WalksField f (.obj record) out key)
    {value out : Json} (h : f "" value = .ok out) : Alike value out := by
  rcases hshape _ _ _ h with rfl | ⟨_, _, rfl, rfl⟩ | ⟨record, fields, rfl, rfl⟩
  · exact ⟨rfl, rfl⟩
  · exact ⟨rfl, rfl⟩
  · refine ⟨?_, ?_⟩
    · rcases hfield _ _ _ "type" h (by simp) with ⟨hnone, hnone'⟩ | ⟨item, item', hitem, hitem', hf⟩
      · rw [typeOf, typeOf, hnone, hnone']
      · rw [typeOf, typeOf, hitem, hitem']
        rcases hshape _ _ _ hf with rfl | ⟨_, _, rfl, rfl⟩ | ⟨_, _, rfl, rfl⟩ <;> rfl
    · rcases hfield _ _ _ "payload" h (by simp) with
        ⟨hnone, hnone'⟩ | ⟨payload, payload', hpayload, hpayload', hf⟩
      · rw [agentOf, agentOf, payloadOf, payloadOf, hnone, hnone']
      · rw [agentOf, agentOf, payloadOf, payloadOf, hpayload, hpayload', Option.getD_some,
          Option.getD_some]
        rcases hshape _ _ _ hf with rfl | ⟨_, _, rfl, rfl⟩ | ⟨_, _, rfl, rfl⟩
        · rfl
        · rfl
        · rcases hfield _ _ _ "agent" hf (by simp) with
            ⟨hnone, hnone'⟩ | ⟨agent, agent', hagent, hagent', hf'⟩
          · rw [hnone, hnone']
          · have htruthy := (hshape _ _ _ hf').truthy
            rw [hagent, hagent', Option.filter_some, Option.filter_some, htruthy]
            split <;> rfl

end Walkers

theorem alike_translate {workspace : Workspace} {localId : String} {direction : Direction}
    {value out : Json} (h : Routing.translate workspace localId direction "" value = .ok out) :
    Alike value out := by
  refine alike_of_walk (Routing.translate workspace localId direction) ?_ ?_ h
  · intro context item item' h
    cases item with
    | arr items =>
      rw [Routing.translate] at h
      obtain ⟨out, _, hok⟩ := ok_of_bind h
      exact .inr (.inl ⟨items, out, rfl, (Except.ok.inj hok).symm⟩)
    | obj fields =>
      rw [Routing.translate] at h
      obtain ⟨out, _, hok⟩ := ok_of_bind h
      exact .inr (.inr ⟨fields, out, rfl, (Except.ok.inj hok).symm⟩)
    | _ =>
      simp only [Routing.translate, Except.ok.injEq] at h
      exact .inl h.symm
  · intro context record out key h hkey
    rw [Routing.translate] at h
    obtain ⟨fields, hfields, hok⟩ := ok_of_bind h
    obtain rfl := Except.ok.inj hok
    have hplain : ∀ creating item, translateField workspace localId direction context creating key
        item = Routing.translate workspace localId direction key item := by
      intro creating item
      simp only [List.mem_cons, List.not_mem_nil, or_false] at hkey
      rcases hkey with rfl | rfl | rfl <;> cases item <;>
        simp [translateField, Routing.translate, chosen, projectField, scopedField, scopedKeys, opaqueKeys]
    have hwalked := lookup_walked (translateFields workspace localId direction context
      (creates record)) (translateField workspace localId direction context (creates record))
      (by rw [translateFields]) (fun key item rest => by rw [translateFields]) hfields key
    rw [WalksField]
    simpa only [Json.field?, hplain] using hwalked

theorem alike_projected {names : String → Except Thrown String} {workspace : Workspace}
    {value out : Json} (h : projected names workspace "" value = .ok out) : Alike value out := by
  refine alike_of_walk (projected names workspace) ?_ ?_ h
  · intro context item item' h
    cases item with
    | arr items =>
      rw [projected] at h
      obtain ⟨out, _, hok⟩ := ok_of_bind h
      exact .inr (.inl ⟨items, out, rfl, (Except.ok.inj hok).symm⟩)
    | obj fields =>
      rw [projected] at h
      obtain ⟨out, _, hok⟩ := ok_of_bind h
      exact .inr (.inr ⟨fields, out, rfl, (Except.ok.inj hok).symm⟩)
    | _ =>
      simp only [projected, Except.ok.injEq] at h
      exact .inl h.symm
  · intro context record out key h hkey
    rw [projected] at h
    obtain ⟨fields, hfields, hok⟩ := ok_of_bind h
    obtain rfl := Except.ok.inj hok
    have hplain : ∀ item, projectedField names workspace context key item =
        projected names workspace key item := by
      intro item
      simp only [List.mem_cons, List.not_mem_nil, or_false] at hkey
      rcases hkey with rfl | rfl | rfl <;> cases item <;>
        simp [projectedField, projected, AgentIdentity.agentField, AgentIdentity.agentKeys,
          AgentIdentity.opaqueKeys]
    have hwalked := lookup_walked (projectedFields names workspace context)
      (projectedField names workspace context) (by rw [projectedFields])
      (fun key item rest => by rw [projectedFields]) hfields key
    rw [WalksField]
    simpa only [Json.field?, hplain] using hwalked

/-! ### The creation of an agent -/

theorem ran_orThrow {α : Type} {r : Except Thrown α} {log : Log} {a : α} :
    Prog.Ran (orThrow r) log (.ok a) ↔ log = [] ∧ r = .ok a := by
  cases r <;> simp [orThrow, eq_comm]

theorem parsed_ok {accepts : Json → Bool} {message out : Json}
    (h : parsed accepts message = .ok out) : out = message := by
  rw [parsed] at h
  split at h
  · exact (Except.ok.inj h).symm
  · simp at h

theorem ofMessage_ok {α : Type} {r : Except String α} {a : α} (h : ofMessage r = .ok a) :
    r = .ok a := by
  cases r with
  | error message => simp [ofMessage] at h
  | ok a' => rw [Except.ok.inj h]

/-- The request neither stores the response nor ends the connection. -/
def Unstored : Req → Prop
  | .updateRecord _ => False
  | .close => False
  | _ => True

def Unclosed : Req → Prop
  | .close => False
  | _ => True

/-- The receipt was updated. -/
def Kept (log : Log) : Prop := ∃ record, (⟨.updateRecord record, .ok ()⟩ : Event iface) ∈ log

theorem kept_singleton {record : ReceiptRecord} {r : Except Thrown Unit} :
    Kept [⟨.updateRecord record, r⟩] ↔ r = .ok () := by
  constructor
  · rintro ⟨record', hin⟩
    cases List.mem_singleton.mp hin
    rfl
  · rintro rfl
    exact ⟨record, List.mem_singleton_self _⟩

theorem not_kept {α : Type} {p : Task α} {thrown : Err → Prop} (hp : p.Keeps Unstored thrown)
    {log : Log} {out : Except Err α} (h : Prog.Ran p log out) : ¬ Kept log :=
  fun ⟨_, hin⟩ => hp.log h _ hin

/-- Returns exactly when it has stored the response, which satisfies `good`. -/
def Stores {α : Type} (good : α → Prop) (p : Task α) : Prop :=
  ∀ log out, Prog.Ran p log out → ((∃ a, out = .ok a) ↔ Kept log) ∧ ∀ a, out = .ok a → good a

theorem Stores.bind {α β : Type} {good : β → Prop} {p : Task α} {f : α → Task β}
    {thrown : Err → Prop} (hp : p.Keeps Unstored thrown)
    (hf : ∀ a log, Prog.Ran p log (.ok a) → Stores good (f a)) : Stores good (p >>= f) := by
  intro log out h
  rcases Prog.ran_bind.mp h with ⟨e, rfl, hp'⟩ | ⟨a, before, after, rfl, hp', hf'⟩
  · simp [not_kept hp hp']
  · obtain ⟨hiff, hgood⟩ := hf a before hp' after out hf'
    refine ⟨hiff.trans ⟨fun ⟨record, hin⟩ => ⟨record, List.mem_append_right _ hin⟩, ?_⟩, hgood⟩
    rintro ⟨record, hin⟩
    rcases List.mem_append.mp hin with hin | hin
    · exact absurd ⟨record, hin⟩ (not_kept hp hp')
    · exact ⟨record, hin⟩

theorem ran_orThrow_inv {α : Type} {r : Except Thrown α} {log : Log} {out : Except Err α}
    (h : Prog.Ran (orThrow r) log out) :
    log = [] ∧ ((∃ a, r = .ok a ∧ out = .ok a) ∨ ∃ e, r = .error e ∧ out = .error (.thrown e)) := by
  cases r with
  | ok a =>
    obtain ⟨rfl, rfl⟩ := Prog.ran_ret.mp h
    exact ⟨rfl, .inl ⟨a, rfl, rfl⟩⟩
  | error e =>
    obtain ⟨rfl, rfl⟩ := Prog.ran_fail.mp h
    exact ⟨rfl, .inr ⟨e, rfl, rfl⟩⟩

theorem stores_updateRecord {α : Type} {good : α → Prop} {record : ReceiptRecord} {a : α}
    (h : good a) : Stores good (updateRecord record >>= fun _ => .ret a) := by
  intro log out hran
  rcases Prog.ran_bind.mp hran with ⟨e, rfl, hp⟩ | ⟨⟨⟩, before, after, rfl, hp, hf⟩
  · obtain ⟨r, rest, rfl, hr⟩ := Prog.ran_call.mp hp
    obtain ⟨rfl, ⟨_, _, he⟩ | ⟨e', rfl, _⟩⟩ := ran_orThrow_inv hr
    · simp at he
    · refine ⟨⟨by simp, fun hkept => ?_⟩, by simp⟩
      exact absurd (kept_singleton.mp hkept) (by simp)
  · obtain ⟨r, rest, rfl, hr⟩ := Prog.ran_call.mp hp
    obtain ⟨rfl, ⟨_, rfl, _⟩ | ⟨_, _, he⟩⟩ := ran_orThrow_inv hr
    · obtain ⟨rfl, rfl⟩ := Prog.ran_ret.mp hf
      refine ⟨⟨fun _ => kept_singleton.mpr rfl, fun _ => ⟨a, rfl⟩⟩, fun b hb => ?_⟩
      rwa [← Except.ok.inj hb]
    · simp at he

theorem unstored_project {o : Options} (value : Json) (workspace : Workspace) :
    (project o value workspace).Keeps Unstored Ordinary := by
  rw [project]
  split
  · exact ⟨trivial, fun names => calm_orThrow _⟩
  · trivial

theorem alike_project {o : Options} {value : Json} {workspace : Workspace} :
    (project o value workspace).Returns (Alike value) := by
  rw [project]
  split
  · intro log out h
    obtain ⟨names, rest, _, h⟩ := Prog.ran_call.mp h
    exact alike_projected (ran_orThrow.mp h).2
  · exact .ret ⟨rfl, rfl⟩

section Create

variable {o : Options} {workspace : Workspace} {localId : String} {receipt : ReceiptRecord}
  {reply : Reply}

theorem stores_settle : Stores (Alike reply.json) (settle o workspace localId receipt reply) := by
  refine .bind (calm_orThrow _) fun translated _ htranslated => ?_
  refine .bind (unstored_project _ _) fun shown log hshown => ?_
  refine .bind (calm_orThrow _) fun response _ hresponse => ?_
  refine .bind (calm_orThrow _) fun retained _ _ => ?_
  have halike : Alike reply.json response := by
    rw [parsed_ok (ran_orThrow.mp hresponse).2]
    exact (alike_translate (ofMessage_ok (ran_orThrow.mp htranslated).2)).trans
      (alike_project log _ hshown)
  exact stores_updateRecord halike

/-- What the answer to the creation and the steps after it make of the operation. -/
structure Answered (answer : Except Thrown Reply) (after : Log) (out : Except Err Json) :
    Prop where
  quiet : QuietLog after
  returned : (∃ response, out = .ok response) ↔ (∃ reply, answer = .ok reply) ∧ Kept after
  alike : ∀ reply response, answer = .ok reply → out = .ok response → Alike reply.json response

/-- The only mutation is one creation. -/
def Creates {α : Type} (spec : Except Thrown Reply → Log → Except Err α → Prop) (p : Task α) :
    Prop :=
  ∀ log out, Prog.Ran p log out → QuietLog log ∨
    ∃ before message answer after, log = before ++ ⟨.request message, answer⟩ :: after ∧
      QuietLog before ∧ isCreate message ∧ spec answer after out

theorem Creates.of_harmless {α : Type} {spec : Except Thrown Reply → Log → Except Err α → Prop}
    {p : Task α} (h : Harmless p) : Creates spec p := fun _ _ hran => .inl (h.log hran)

theorem Creates.bind {α β : Type} {spec : Except Thrown Reply → Log → Except Err β → Prop}
    {p : Task α} {f : α → Task β} (hp : Harmless p)
    (hf : ∀ a log, Prog.Ran p log (.ok a) → Creates spec (f a)) : Creates spec (p >>= f) := by
  intro log out h
  rcases Prog.ran_bind.mp h with ⟨e, rfl, hp'⟩ | ⟨a, first, rest, rfl, hp', hf'⟩
  · exact .inl (hp.log hp')
  · have hfirst : QuietLog first := hp.log hp'
    rcases hf a first hp' rest out hf' with hrest | ⟨before, message, answer, after, rfl, hbefore,
      hcreate, hspec⟩
    · exact .inl (hfirst.append hrest)
    · exact .inr ⟨first ++ before, message, answer, after, by simp, hfirst.append hbefore,
        hcreate, hspec⟩

/-- The reserved id leaves the type of the message. -/
theorem reserve_type {workspaceId : String} {input : Json} :
    (reserve o workspace workspaceId input).Returns fun out => typeOf out = typeOf input := by
  refine .bind fun _ _ _ => ?_
  split
  · refine .bind fun fields _ hfields => .bind fun requestedId _ _ => .bind fun reserved _ _ =>
      .bind fun sent _ hsent => .bind fun _ _ _ => .bind fun _ _ _ => .bind fun _ _ _ => .ret ?_
    have hinput : input = .obj fields := by
      have hok := (ran_orThrow.mp hfields).2
      cases input <;> simp_all [object]
    rw [parsed_ok (ran_orThrow.mp hsent).2, hinput, typeOf, typeOf]
    simp [Json.field?, Json.lookup_setField]
  · exact .bind fun _ _ _ => .bind fun _ _ _ => .ret rfl

theorem unclosed_settle :
    (settle o workspace localId receipt reply).Keeps Unclosed Ordinary := by
  have hunclosed : ∀ q, Unstored q → Unclosed q := by
    intro q hq
    cases q <;> first | exact hq | trivial
  refine (calm_orThrow _).bind fun translated => ?_
  refine ((unstored_project _ _).mono hunclosed fun _ => id).bind fun shown => ?_
  refine (calm_orThrow _).bind fun response => (calm_orThrow _).bind fun retained => ?_
  exact Prog.Keeps.bind (p := updateRecord _) ⟨trivial, calm_orThrow⟩ fun _ => trivial

/-- The request for the creation, and what is done with its reply. -/
theorem creates_request {input : Json} (hcreate : isCreate input) :
    Creates (fun answer after out => Answered answer after out ∧
        ∀ r, (⟨.close, r⟩ : Event iface) ∉ after)
      (request input >>= settle o workspace localId receipt) := by
  intro log out h
  refine .inr ?_
  rcases Prog.ran_bind.mp h with ⟨e, rfl, hp⟩ | ⟨reply, before, after, rfl, hp, hf⟩
  · obtain ⟨answer, rest, rfl, hr⟩ := Prog.ran_call.mp hp
    obtain ⟨rfl, ⟨_, _, he⟩ | ⟨e', rfl, _⟩⟩ := ran_orThrow_inv hr
    · simp at he
    · exact ⟨[], input, _, [], rfl, by simp [QuietLog], hcreate,
        ⟨by simp [QuietLog], by simp, by simp⟩, by simp⟩
  · obtain ⟨answer, rest, rfl, hr⟩ := Prog.ran_call.mp hp
    obtain ⟨rfl, ⟨a, rfl, ha⟩ | ⟨_, _, he⟩⟩ := ran_orThrow_inv hr
    · obtain rfl := Except.ok.inj ha
      obtain ⟨hiff, halike⟩ := stores_settle after out hf
      refine ⟨[], input, _, after, rfl, by simp [QuietLog], hcreate,
        ⟨(calm_settle _ _ _ _).log hf, by simpa using hiff, ?_⟩, fun r hin => ?_⟩
      · intro reply' response hreply hresponse
        rw [← Except.ok.inj hreply]
        exact halike response hresponse
      · exact unclosed_settle.log hf _ hin
    · simp at he

theorem creates_createIn (message : CreateAgent) (cwd : String) :
    Creates (fun answer after out => Answered answer after out ∧
        ∀ r, (⟨.close, r⟩ : Event iface) ∉ after)
      (createIn o message cwd workspace localId) := by
  refine .bind (Calm.harmless (calm_orThrow _)) fun translated _ htranslated => ?_
  refine .bind (Calm.harmless (calm_orThrow _)) fun input _ hinput => ?_
  have hcreate : typeOf input = some "agent.create.request" := by
    rw [parsed_ok (ran_orThrow.mp hinput).2,
      (alike_translate (ofMessage_ok (ran_orThrow.mp htranslated).2)).1]
    simp [typeOf, CreateAgent.json, CreateAgent.fields, CreateAgent.located, Json.field?,
      List.lookup_cons]
  split
  · exact .of_harmless calm_fail.harmless
  · refine .bind (calm_claimReceipt _ _ _).harmless fun claimed _ _ => ?_
    split
    · exact .of_harmless trivial
    · refine .bind (calm_reserve _ _ _).harmless fun reserved log hreserved => ?_
      exact creates_request ((reserve_type log reserved hreserved).trans hcreate)

/-- The operation returns a response to the creation exactly when it has stored the response and
    closed the connection. -/
theorem creates_createAgent (turns : Nat) (message : CreateAgent) :
    Creates (fun answer after out => ∃ during closed inner, after = during ++ [⟨.close, closed⟩] ∧
        Answered answer during inner ∧ (∀ r, (⟨.close, r⟩ : Event iface) ∉ during) ∧
        ((closed = .ok () ∧ out = inner) ∨ ∃ e, closed = .error e ∧ out = .error (.thrown e)))
      (createAgent o turns message) := by
  refine .bind calm_records.harmless fun _ _ _ => .bind calm_records.harmless fun rows _ _ => ?_
  dsimp only
  split
  · exact .of_harmless calm_fail.harmless
  · split
    · exact .of_harmless calm_fail.harmless
    · refine .bind (calm_ready _ _).harmless fun workspace _ _ => ?_
      split
      · exact .of_harmless calm_fail.harmless
      · refine .bind (calm_backend _).harmless fun localId _ _ => ?_
        intro log out h
        obtain ⟨first, last, inner, rfl, hinner, hlast⟩ := Prog.ran_andFinally.mp h
        have hclosed : ∃ closed, last = [⟨.close, closed⟩] ∧ ((closed = .ok () ∧ out = inner) ∨
            ∃ e, closed = .error e ∧ out = .error (.thrown e)) := by
          rcases hlast with ⟨hlast, rfl⟩ | ⟨e, hlast, rfl⟩
          · obtain ⟨r, rest, rfl, hr⟩ := Prog.ran_call.mp hlast
            obtain ⟨rfl, hok⟩ := ran_orThrow.mp hr
            exact ⟨r, rfl, .inl ⟨hok, rfl⟩⟩
          · obtain ⟨r, rest, rfl, hr⟩ := Prog.ran_call.mp hlast
            obtain ⟨rfl, ⟨_, _, he⟩ | ⟨e', hthrown, he⟩⟩ := ran_orThrow_inv hr
            · simp at he
            · exact ⟨r, rfl, .inr ⟨e', hthrown, congrArg _ (Except.error.inj he)⟩⟩
        obtain ⟨closed, rfl, hout⟩ := hclosed
        rcases creates_createIn _ _ first inner hinner with
          hquiet | ⟨before, message, answer, after, rfl, hbefore, hcreate, hanswered, hunclosed⟩
        · exact .inl (hquiet.append (by simp [QuietLog, Quiet]))
        · exact .inr ⟨before, message, answer, after ++ [⟨.close, closed⟩], by simp, hbefore,
            hcreate, after, closed, inner, rfl, hanswered, hunclosed, hout⟩

end Create

/-! ### The dispatch -/

section Dispatch

variable {o : Options} {turns : Nat} {log : Log} {out : Except Err Dispatched}

/-- What is made of the response throws a rejection exactly when the response is no
    `agent.create.response` with an agent. -/
theorem ran_dispatchOutcome {workspace : Workspace} {response : Json}
    (h : Prog.Ran (dispatchOutcome o workspace response) log out) :
    log = [] ∧ ((∃ message, out = .error (.rejected message)) ↔
      ¬ (typeOf response = some "agent.create.response" ∧ (agentOf response).isSome = true)) := by
  rw [dispatchOutcome] at h
  split at h
  · rename_i agent hagent
    split at h
    · rename_i htype
      have hordinary : (do
          let agentId ← dispatchedAgent o agent
          .ret (⟨workspace.metadata.name, agentId⟩ : Dispatched) : Task Dispatched).Keeps
            (fun _ => False) Ordinary := by
        refine Prog.Keeps.bind ?_ fun _ => trivial
        rw [dispatchedAgent]
        split
        · split
          · trivial
          · exact (calm_orThrow _).bind fun _ => trivial
        · exact rfl
      refine ⟨List.eq_nil_iff_forall_not_mem.mpr fun event => hordinary.log h event, ?_⟩
      simp only [htype, hagent, Option.isSome_some, and_self, not_true_eq_false, iff_false]
      rintro ⟨message, rfl⟩
      exact Bool.noConfusion (hordinary.error h)
    · rename_i htype
      obtain ⟨rfl, rfl⟩ := Prog.ran_fail.mp h
      simp [htype]
  · rename_i hagent
    obtain ⟨rfl, rfl⟩ := Prog.ran_fail.mp h
    simp [hagent]

theorem not_quiet {message : Json} (h : isCreate message) : ¬ Quiet (.request message) :=
  fun hquiet : ¬ isSend message ∧ ¬ isCreate message => hquiet.2 h

theorem QuietLog.not_misread (h : QuietLog log) : ¬ Misread log := by
  rintro ⟨before, message, reply, after, record, rfl, hcreate, _⟩
  exact not_quiet hcreate (h ⟨.request message, .ok reply⟩ (by simp))

/-- A run whose only mutation is a creation. -/
theorem misread_iff {before after : Log} {message : Json} {answer : Except Thrown Reply}
    (hbefore : QuietLog before) (hafter : QuietLog after) (hcreate : isCreate message) :
    Misread (before ++ ⟨.request message, answer⟩ :: after) ↔
      ∃ reply, answer = .ok reply ∧ reply.type ≠ "agent.create.response" ∧ ¬ reply.noAgent ∧
        Kept after ∧ (⟨.close, .ok ()⟩ : Event iface) ∈ after := by
  constructor
  · rintro ⟨before', message', reply, after', record, heq, hcreate', htype, hnone, hkept, hclose⟩
    obtain ⟨hevent, rfl⟩ := hbefore.split hafter (not_quiet hcreate') heq
    cases hevent
    exact ⟨reply, rfl, htype, hnone, ⟨record, hkept⟩, hclose⟩
  · rintro ⟨reply, rfl, htype, hnone, ⟨record, hkept⟩, hclose⟩
    exact ⟨before, message, reply, after, record, rfl, hcreate, htype, hnone, hkept, hclose⟩

theorem notAccepted_iff {before after : Log} {message : Json} {answer : Except Thrown Reply}
    (hbefore : QuietLog before) (hafter : QuietLog after) (hcreate : isCreate message) :
    NotAccepted (before ++ ⟨.request message, answer⟩ :: after) ↔
      ∃ reply, answer = .ok reply ∧ reply.noAgent := by
  constructor
  · intro h
    exact (h message answer (by simp)).2 hcreate
  · rintro ⟨reply, rfl, hnone⟩ message' answer' hin
    rcases List.mem_append.mp hin with hin | hin
    · exact hbefore.notAccepted message' answer' hin
    · rcases List.mem_cons.mp hin with heq | hin
      · cases heq
        refine ⟨fun hsend => ?_, fun _ => ⟨reply, rfl, hnone⟩⟩
        rw [isSend, hcreate] at hsend
        simp at hsend
      · exact hafter.notAccepted message' answer' hin

theorem QuietLog.notAccepted_append {quiet : Log} (h : QuietLog quiet) :
    NotAccepted (quiet ++ log) ↔ NotAccepted log := by
  refine ⟨fun hall message answer hin => hall message answer (List.mem_append_right _ hin), ?_⟩
  intro hall message answer hin
  rcases List.mem_append.mp hin with hin | hin
  · exact h.notAccepted message answer hin
  · exact hall message answer hin

theorem QuietLog.misread_append {quiet : Log} (h : QuietLog quiet) :
    Misread (quiet ++ log) ↔ Misread log := by
  constructor
  · rintro ⟨before, message, reply, after, record, heq, hcreate, hrest⟩
    rcases List.append_eq_append_iff.mp heq with ⟨middle, rfl, rfl⟩ | ⟨middle, rfl, heq'⟩
    · exact ⟨middle, message, reply, after, record, rfl, hcreate, hrest⟩
    · rcases List.cons_eq_append_iff.mp heq' with ⟨rfl, rfl⟩ | ⟨middle', rfl, _⟩
      · exact ⟨[], message, reply, after, record, rfl, hcreate, hrest⟩
      · exact absurd (h ⟨.request message, .ok reply⟩ (by simp)) (not_quiet hcreate)
  · rintro ⟨before, message, reply, after, record, rfl, hcreate, hrest⟩
    exact ⟨quiet ++ before, message, reply, after, record, by simp, hcreate, hrest⟩

/-- What is thrown at the end of a dispatch to a new agent, by what the creation came to. -/
def Judged (answer : Except Thrown Reply) (after : Log) (out : Except Err Dispatched) : Prop :=
  QuietLog after ∧ ((∃ message, out = .error (.rejected message)) ↔
    (∃ reply, answer = .ok reply ∧ ¬ (reply.type = "agent.create.response" ∧
      (reply.payload.lookup "agent").any Json.truthy = true)) ∧ Kept after ∧
        (⟨.close, .ok ()⟩ : Event iface) ∈ after)

theorem Calm.ordinary {α : Type} {p : Task α} (h : Calm p) : p.Keeps (fun _ => True) Ordinary :=
  h.mono (fun _ _ => trivial) fun _ => id

theorem ordinary_createAgent {message : CreateAgent} :
    (createAgent o turns message).Keeps (fun _ => True) Ordinary := by
  refine calm_records.ordinary.bind fun _ => calm_records.ordinary.bind fun rows => ?_
  dsimp only
  split
  · exact rfl
  · split
    · exact rfl
    · refine (Calm.ordinary (calm_ready _ _)).bind fun workspace => ?_
      split
      · exact rfl
      · refine (Calm.ordinary (calm_backend _)).bind fun localId => ?_
        refine Prog.Keeps.andFinally ?_ calm_close.ordinary
        refine (calm_orThrow _).bind fun translated => (calm_orThrow _).bind fun sent => ?_
        split
        · exact rfl
        · refine (Calm.ordinary (calm_claimReceipt _ _ _)).bind fun claimed => ?_
          split
          · trivial
          · refine (Calm.ordinary (calm_reserve _ _ _)).bind fun reserved => ?_
            exact Prog.Keeps.bind (p := request reserved) ⟨trivial, calm_orThrow⟩ fun reply =>
              (calm_settle _ _ _ _).ordinary

theorem kept_closed {during : Log} {closed : Except Thrown Unit} :
    Kept (during ++ [⟨.close, closed⟩]) ↔ Kept during := by
  constructor
  · rintro ⟨record, hin⟩
    rcases List.mem_append.mp hin with hin | hin
    · exact ⟨record, hin⟩
    · cases List.mem_singleton.mp hin
  · rintro ⟨record, hin⟩
    exact ⟨record, List.mem_append_left _ hin⟩

theorem closed_ok {during : Log} {closed : Except Thrown Unit}
    (h : ∀ r, (⟨.close, r⟩ : Event iface) ∉ during) :
    (⟨.close, .ok ()⟩ : Event iface) ∈ during ++ [⟨.close, closed⟩] ↔ closed = .ok () := by
  constructor
  · intro hin
    rcases List.mem_append.mp hin with hin | hin
    · exact absurd hin (h _)
    · cases List.mem_singleton.mp hin
      rfl
  · rintro rfl
    simp

theorem agentOf_json (reply : Reply) :
    (agentOf reply.json).isSome = (reply.payload.lookup "agent").any Json.truthy := by
  have hpayload : payloadOf reply.json = .obj reply.payload := by
    simp [payloadOf, Reply.json, Json.field?, List.lookup_cons]
  rw [agentOf, hpayload, Json.field?]
  cases reply.payload.lookup "agent" with
  | none => rfl
  | some agent =>
    rw [Option.filter_some, Option.any_some]
    split <;> simp_all

theorem creates_dispatch {message : CreateAgent} {workspace : Workspace} :
    Creates Judged (createAgent o turns message >>= dispatchOutcome o workspace) := by
  intro log out h
  rcases Prog.ran_bind.mp h with ⟨e, rfl, hp⟩ | ⟨response, first, rest, rfl, hp, hf⟩
  · rcases creates_createAgent turns message log _ hp with hquiet | ⟨before, created, answer, after,
      rfl, hbefore, hcreate, during, closed, inner, rfl, hanswered, hunclosed, hout⟩
    · exact .inl hquiet
    · refine .inr ⟨before, created, answer, _, rfl, hbefore, hcreate,
        hanswered.quiet.append (by simp [QuietLog, Quiet]), ?_⟩
      rw [kept_closed, closed_ok hunclosed]
      constructor
      · rintro ⟨text, heq⟩
        rw [Except.error.inj heq] at hp
        exact Bool.noConfusion (ordinary_createAgent.error hp)
      · -- the response was stored and the connection closed, so nothing was thrown
        rintro ⟨⟨reply, rfl, _⟩, hkept, rfl⟩
        obtain ⟨response, hinner⟩ := hanswered.returned.mpr ⟨⟨reply, rfl⟩, hkept⟩
        rcases hout with ⟨_, hout⟩ | ⟨e', he', _⟩
        · simp [hinner] at hout
        · simp at he'
  · obtain ⟨rfl, hrejected⟩ := ran_dispatchOutcome hf
    rw [List.append_nil]
    rcases creates_createAgent turns message first _ hp with hquiet | ⟨before, created, answer,
      after, rfl, hbefore, hcreate, during, closed, inner, rfl, hanswered, hunclosed, hout⟩
    · exact .inl hquiet
    · refine .inr ⟨before, created, answer, _, rfl, hbefore, hcreate,
        hanswered.quiet.append (by simp [QuietLog, Quiet]), ?_⟩
      rw [kept_closed, closed_ok hunclosed, hrejected]
      rcases hout with ⟨rfl, rfl⟩ | ⟨_, _, hout⟩
      · obtain ⟨⟨reply, rfl⟩, hkept⟩ := hanswered.returned.mp ⟨response, rfl⟩
        obtain ⟨htype, hagent⟩ := hanswered.alike reply response rfl rfl
        have hjson : typeOf reply.json = some reply.type := by
          simp [typeOf, Reply.json, Json.field?]
        rw [htype, hjson, hagent, agentOf_json]
        simp [hkept]
      · simp at hout

/-- No answer to a creation is misread, or nothing that was rejected may have been accepted. -/
def Judges {α : Type} (log : Log) (out : Except Err α) : Prop :=
  ((∃ message, out = .error (.rejected message)) → NotAccepted log) ↔ ¬ Misread log

theorem QuietLog.judges {α : Type} {result : Except Err α} (h : QuietLog log) :
    Judges log result := by
  simp [Judges, h.notAccepted, h.not_misread]

theorem dispatchNewAgent_judges {input : Input} {config : List (String × Json)}
    (h : Prog.Ran (dispatchNewAgent o turns input config) log out) : Judges log out := by
  have hcreates : Creates Judged (dispatchNewAgent o turns input config) := by
    refine .bind (p := .call .projects orThrow) ⟨trivial, fun r => Calm.harmless (calm_orThrow r)⟩
      fun projects _ _ => ?_
    split
    · exact .of_harmless trivial
    · refine .bind (harmless_rejecting (calm_createWorkspace _ _ _).harmless)
        fun workspace _ _ => ?_
      exact .bind (Calm.harmless (calm_orThrow _)) fun _ _ _ => creates_dispatch
  rcases hcreates log out h with hquiet | ⟨before, message, answer, after, rfl, hbefore, hcreate,
    hafter, hrejected⟩
  · exact hquiet.judges
  · rw [Judges, misread_iff hbefore hafter hcreate, notAccepted_iff hbefore hafter hcreate,
      hrejected]
    constructor
    · rintro himp ⟨reply, rfl, htype, hnone, hkept, hclose⟩
      obtain ⟨reply', heq, hnone'⟩ := himp ⟨⟨reply, rfl, fun h => htype h.1⟩, hkept, hclose⟩
      rw [Except.ok.inj heq] at hnone
      exact hnone hnone'
    · rintro hread ⟨⟨reply, rfl, hno⟩, hkept, hclose⟩
      by_cases htype : reply.type = "agent.create.response"
      · exact ⟨reply, rfl, .inl ⟨htype, by simpa [htype] using hno⟩⟩
      · by_cases hnone : reply.noAgent
        · exact ⟨reply, rfl, hnone⟩
        · exact absurd ⟨reply, rfl, htype, hnone, hkept, hclose⟩ hread

theorem dispatchToAgent_judges {input : Input} {agentId : String}
    (h : Prog.Ran (dispatchToAgent o input agentId) log out) : Judges log out := by
  have hread : ¬ Misread log := by
    rintro ⟨before, message, reply, after, record, rfl, hcreate, _⟩
    have hnone : ¬ isCreate message :=
      (createsNone_dispatchToAgent input agentId).log h ⟨.request message, .ok reply⟩ (by simp)
    exact hnone hcreate
  refine ⟨fun _ => hread, ?_⟩
  rintro _ ⟨message, rfl⟩
  exact QuietLog.notAccepted (sound_dispatchToAgent input agentId log message h)

/-- A dispatch that is rejected was not accepted, in every run but those that misread the answer
    to a creation. -/
theorem dispatch_rejected {input : Input}
    (h : Prog.Ran (dispatchSchedule o turns input) log out) :
    ((∃ message, out = .error (.rejected message)) → NotAccepted log) ↔ ¬ Misread log := by
  rcases Prog.ran_bind.mp h with ⟨e, rfl, hp⟩ | ⟨⟨⟩, before, after, rfl, hp, hf⟩
  · exact QuietLog.judges ((harmless_checkOrigin input).log hp)
  · have hbefore : QuietLog before := (harmless_checkOrigin input).log hp
    have hjudges : Judges after out := by
      split at hf
      · exact dispatchToAgent_judges hf
      · exact dispatchNewAgent_judges hf
    rw [hbefore.notAccepted_append, hbefore.misread_append]
    exact hjudges

end Dispatch

section Demo

def demoOptions : Options where
  namespaceName := "namespace"
  agentRouting := true
  readyTimeoutMs := 300000
  scheduleRetentionSeconds := 86400
  hash := fun _ => "hash"
  inbound := fun _ => true
  outbound := fun _ => true
  workspaceSchema := fun _ => true
  retainedAgent := fun _ => none

def demoInput : Input where
  schedule := ⟨"schedule", none, "prompt", .newAgent []⟩
  runId := "run"
  projectId := "project"
  credentialProfile := "profile"
  targetWorkspaceId := none
  targetWorkspaceUid := none
  origin := none

def demoProject : Project where
  name := "project"
  credentialProfile := "profile"

def demoStatus : WorkspaceStatus where
  phase := .Ready
  message := ""
  observedGeneration := 1

def demoWorkspace : Workspace where
  metadata := ⟨"w-hash", some "uid", none, none, [(creationHash, "hash")], none⟩
  spec := ⟨"project", "display", .Running, "profile", "HEAD", none, none, none, none⟩
  status := some demoStatus

/-- The daemon opens the project and answers a creation by `created`. -/
def demoReply (created : Reply) (message : Json) : Reply :=
  if typeOf message = some "agent.create.request" then created
  else ⟨"open_project_response", [("workspace", .obj [("id", .str "local")])]⟩

def demoAnswer (created : Reply) : (q : Req) → Option q.Res
  | .workspaces => some (.ok [demoWorkspace])
  | .projects => some (.ok [demoProject])
  | .now => some (0 : Int)
  | .randomUUID => some "uuid"
  | .revoked _ => some false
  | .delay => some ()
  | .stuck => none
  | .admission _ _ => some (.ok demoWorkspace)
  | .createRecord id value => some (.ok ⟨id, 1, value⟩)
  | .record _ => some (.ok none)
  | .updateRecord _ => some (.ok ())
  | .connect _ => some (.ok ())
  | .request message => some (.ok (demoReply created message))
  | .close => some (.ok ())
  | .claim _ id => some (.ok id)
  | .resolveAgent id _ => some (.ok ⟨demoWorkspace, id⟩)
  | .reserveForCreate _ id => some (.ok id)
  | .project _ _ => some fun id => .ok id

def demoRun (created : Reply) : Option (Log × Except Err Dispatched) :=
  (dispatchSchedule demoOptions 1 demoInput).replay (demoAnswer created)

def demoRefusal : Reply := ⟨"agent.create.response", [("agent", .null), ("error", .str "refused")]⟩

def demoCreated : Reply :=
  ⟨"status", [("requestId", .str "run"), ("status", .str "agent_created"),
    ("agentId", .str "0b6a5b02-6c1e-4f0e-9d3a-2f5f3c1b7a90")]⟩

def createsIn (log : Log) : Bool :=
  log.any fun event =>
    match event.1 with
    | .request message => typeOf message == some "agent.create.request"
    | _ => false

/-- Every creation of the run has the answer. -/
theorem demoRun_created {created : Reply} {log : Log} {out : Except Err Dispatched}
    (h : demoRun created = some (log, out)) {message : Json} {answer : Except Thrown Reply}
    (hin : (⟨.request message, answer⟩ : Event iface) ∈ log) (hcreate : isCreate message) :
    answer = .ok created := by
  have hanswer : some (.ok (demoReply created message)) = some answer :=
    Prog.replay_answers h ⟨.request message, answer⟩ hin
  have htype : typeOf message = some "agent.create.request" := hcreate
  rw [← Option.some.inj hanswer, demoReply, if_pos htype]

theorem demoRun_out (created : Reply) (out : Except Err Dispatched)
    (h : (demoRun created).map (fun run => (createsIn run.1, run.2)) = some (true, out)) :
    ∃ log message answer, demoRun created = some (log, out) ∧ isCreate message ∧
      (⟨.request message, answer⟩ : Event iface) ∈ log := by
  obtain ⟨⟨log, out'⟩, hrun, heq⟩ := Option.map_eq_some_iff.mp h
  obtain ⟨hcheck, rfl⟩ := Prod.mk.inj heq
  obtain ⟨⟨q, answer⟩, hin, hcreate⟩ := List.any_eq_true.mp hcheck
  cases q with
  | request message => exact ⟨log, message, answer, hrun, by simpa [isCreate] using hcreate, hin⟩
  | _ => simp at hcreate

theorem dispatch_rejected_demo :
    ∃ log, demoRun demoRefusal = some (log, .error (.rejected "refused")) ∧ NotAccepted log := by
  obtain ⟨log, _, _, hrun, _, _⟩ := demoRun_out demoRefusal (.error (.rejected "refused"))
    (by rfl)
  have hread : ¬ Misread log := by
    rintro ⟨before, message, reply, after, record, rfl, hcreate, htype, _⟩
    have hin : (⟨.request message, .ok reply⟩ : Event iface) ∈
        before ++ ⟨.request message, .ok reply⟩ :: after := by simp
    have hreply := Except.ok.inj (demoRun_created hrun hin hcreate)
    exact htype (by rw [hreply, demoRefusal])
  exact ⟨log, hrun, (dispatch_rejected (Prog.ran_replay hrun)).mpr hread ⟨_, rfl⟩⟩

/-- A creation is rejected although the reply names the agent that was created. -/
theorem rejected_created :
    ∃ log, demoRun demoCreated = some (log, .error (.rejected "Scheduled agent creation failed")) ∧
      Prog.Ran (dispatchSchedule demoOptions 1 demoInput) log
        (.error (.rejected "Scheduled agent creation failed")) ∧ ¬ NotAccepted log := by
  obtain ⟨log, message, answer, hrun, hcreate, hin⟩ := demoRun_out demoCreated
    (.error (.rejected "Scheduled agent creation failed")) (by decide +kernel)
  refine ⟨log, hrun, Prog.ran_replay hrun, fun hnot => ?_⟩
  obtain ⟨reply, hanswer, hnone⟩ := (hnot message answer hin).2 hcreate
  rw [demoRun_created hrun hin hcreate] at hanswer
  rw [← Except.ok.inj hanswer] at hnone
  rcases hnone with ⟨htype, _⟩ | ⟨_, hstatus⟩
  · simp [demoCreated] at htype
  · revert hstatus
    decide

end Demo
end PaseoGateway.ScheduleDispatch

/-
  PaseoGateway/ScheduleDispatch.lean
  ==================================
  **The dispatch of a scheduled run.**

  Mirrors `dispatchSchedule` of `src/src/gateway/workspace-operations.ts` and what it
  calls there: `createWorkspace` on a directory source with an idempotency key,
  `createAgent` on a message with a workspace, an idempotency key and no caller, upload or
  chosen id, both for the owner, whose authorization checks always pass, and `ready` and
  `backend`.

  What the store, the admission, the agent registry and the backend answer is open.  A
  reply to a request has a payload object: `PaseoBackend.request` resolves only with a
  message whose payload carries the id of the request.
-/
import PaseoGateway.AsyncRuns
import PaseoGateway.Routing

namespace PaseoGateway.ScheduleDispatch

open Async Routing

/-! ### Errors -/

/-- An exception that is no rejection of a dispatch; only an `Error` has a message. -/
structure Thrown where
  message : Option String
  status : Option Nat
deriving DecidableEq

inductive Err where
  | thrown (error : Thrown)
  /-- `ScheduleDispatchRejected` -/
  | rejected (message : String)
deriving DecidableEq

/-- `new Error(message)` -/
def Thrown.error (message : String) : Thrown := ⟨some message, none⟩

def Err.error (message : String) : Err := .thrown (.error message)

/-- `error instanceof Error ? error.message : undefined` -/
def Err.message : Err → Option String
  | .thrown error => error.message
  | .rejected message => some message

def Err.isRejected : Err → Bool
  | .thrown _ => false
  | .rejected _ => true

/-! ### The world outside -/

structure Receipt where
  fingerprint : String
  workspaceId : String
  workspaceUid : String
  response : Option Json

structure ReceiptRecord where
  id : String
  version : Nat
  value : Receipt

structure Reply where
  type : String
  payload : List (String × Json)

def Reply.json (reply : Reply) : Json :=
  .obj [("type", .str reply.type), ("payload", .obj reply.payload)]

inductive Req where
  | workspaces
  | projects
  | now
  | randomUUID
  /-- `revokedTokenIds.has(tokenId)` -/
  | revoked (tokenId : String)
  | delay
  /-- Never answered. -/
  | stuck
  /-- `admission.create` -/
  | admission (expected : Workspace) (project : Project)
  | createRecord (id : String) (value : Receipt)
  | record (id : String)
  | updateRecord (record : ReceiptRecord)
  | connect (workspace : Workspace)
  | request (message : Json)
  | close
  | claim (workspace : Workspace) (backendAgentId : String)
  | resolveAgent (id : String) (authorizedWorkspaces : List Workspace)
  | reserveForCreate (workspace : Workspace) (requestedId : String)
  /-- The ids that `agentRouting.project` has verified while it walks the value. -/
  | project (value : Json) (workspace : Workspace)

@[reducible] def Req.Res : Req → Type
  | .workspaces => Except Thrown (List Workspace)
  | .projects => Except Thrown (List Project)
  | .now => Int
  | .randomUUID => String
  | .revoked _ => Bool
  | .delay => Unit
  | .stuck => Empty
  | .admission _ _ => Except Thrown Workspace
  | .createRecord _ _ => Except Thrown ReceiptRecord
  | .record _ => Except Thrown (Option ReceiptRecord)
  | .updateRecord _ => Except Thrown Unit
  | .connect _ => Except Thrown Unit
  | .request _ => Except Thrown Reply
  | .close => Except Thrown Unit
  | .claim _ _ => Except Thrown String
  | .resolveAgent _ _ => Except Thrown AgentIdentity.Resolved
  | .reserveForCreate _ _ => Except Thrown String
  | .project _ _ => String → Except Thrown String

@[reducible] def iface : Iface := ⟨Req, Req.Res⟩

abbrev Task (α : Type) : Type := Prog iface Err α

abbrev Log : Type := List (Event iface)

/-- The value, or the exception. -/
def orThrow {α : Type} : Except Thrown α → Task α
  | .ok a => .ret a
  | .error error => .fail (.thrown error)

def workspaces : Task (List Workspace) := .call .workspaces orThrow

def now : Task Int := .call .now .ret

def randomUUID : Task String := .call .randomUUID .ret

def request (message : Json) : Task Reply := .call (.request message) orThrow

def close : Task Unit := .call .close orThrow

def connect (workspace : Workspace) : Task Unit := .call (.connect workspace) orThrow

def updateRecord (record : ReceiptRecord) : Task Unit := .call (.updateRecord record) orThrow

def claim (workspace : Workspace) (backendAgentId : String) : Task String :=
  .call (.claim workspace backendAgentId) orThrow

def resolveAgent (id : String) (authorizedWorkspaces : List Workspace) :
    Task AgentIdentity.Resolved :=
  .call (.resolveAgent id authorizedWorkspaces) orThrow

/-! ### The input -/

inductive Target where
  | agent (agentId : String)
  | newAgent (config : List (String × Json))

structure Schedule where
  id : String
  name : Option String
  prompt : String
  target : Target

structure Origin where
  workspaceId : String
  workspaceUid : String
  expiresAt : Int
  tokenId : String

structure Input where
  schedule : Schedule
  runId : String
  projectId : String
  credentialProfile : String
  targetWorkspaceId : Option String
  targetWorkspaceUid : Option String
  origin : Option Origin

/-- `inbound`, `outbound` and `workspaceSchema` are what the schemas accept; a value comes out of
    them as it is.  `retainedAgent` is `retainedAgentMetadata` of what the schema of agents
    makes of a value. -/
structure Options where
  namespaceName : String
  agentRouting : Bool
  readyTimeoutMs : Int
  scheduleRetentionSeconds : Nat
  hash : Json → String
  inbound : Json → Bool
  outbound : Json → Bool
  workspaceSchema : Workspace → Bool
  retainedAgent : Json → Option Json

/-! ### Small functions -/

def parsed (accepts : Json → Bool) (message : Json) : Except Thrown Json :=
  if accepts message then .ok message else .error (.error "Invalid message")

def ofMessage {α : Type} : Except String α → Except Thrown α
  | .ok a => .ok a
  | .error message => .error (.error message)

def object : Json → Except Thrown (List (String × Json))
  | .obj fields => .ok fields
  | _ => .error (.error "Expected object")

/-- `{ key: value }`, or nothing when the value is undefined. -/
def optional (key : String) : Option Json → List (String × Json)
  | some value => [(key, value)]
  | none => []

/-- `error instanceof Error ? error.message : fallback`, thrown as a rejection. -/
def rejecting {α : Type} (fallback : String) (p : Task α) : Task α := do
  let result ← p.attempt
  match result with
  | .ok a => .ret a
  | .error error => .fail (.rejected (error.message.getD fallback))

/-- `"...".startsWith(start)` and the rest behind it. -/
def behind (start : String) (text : String) : Option String :=
  if start.toList.isPrefixOf text.toList then
    some (String.ofList (text.toList.drop start.toList.length))
  else none

def fetchRevisionForRef (ref : String) : Except Thrown String :=
  match (behind "refs/remotes/origin/" ref).or (behind "origin/" ref) with
  | some remote =>
    if remote = "" ∨ remote = "HEAD" then .error (.error "Selected remote branch is invalid")
    else .ok ("refs/heads/" ++ remote)
  | none =>
    if (behind "refs/remotes/" ref).isSome then
      .error (.error "Only configured origin remote refs are supported")
    else .ok ref

/-! ### Projection of a reply -/

section Projection

variable (names : String → Except Thrown String) (workspace : Workspace)

def ofIdentity {α : Type} : Except AgentIdentity.Err α → Except Thrown α
  | .ok a => .ok a
  | .error (.error message) => .error (.error message)
  | .error (.routeUnavailable message) => .error (.error message)
  | .error _ => .error (.error "Invalid GUID")

def projectedName (value : String) : Except Thrown Json := do
  let id ← ofIdentity (AgentIdentity.projectedId value workspace)
  let name ← names id
  .ok (.str name)

def projectedNames : List Json → Except Thrown (List Json)
  | [] => .ok []
  | .str id :: rest => do
    let name ← projectedName names workspace id
    let others ← projectedNames rest
    .ok (name :: others)
  | _ :: _ => .error (.error "Invalid agent ID array")

mutual

/-- `AgentRouting.project`, once the ids in the value have been verified. -/
def projected (context : String) : Json → Except Thrown Json
  | .arr items => do
    let out ← projectedItems context items
    .ok (.arr out)
  | .obj record => do
    let out ← projectedFields context record
    .ok (.obj out)
  | value => .ok value

def projectedItems (context : String) : List Json → Except Thrown (List Json)
  | [] => .ok []
  | item :: rest => do
    let out ← projected context item
    let others ← projectedItems context rest
    .ok (out :: others)

def projectedFields (context : String) :
    List (String × Json) → Except Thrown (List (String × Json))
  | [] => .ok []
  | (key, item) :: rest => do
    let out ← projectedField context key item
    let others ← projectedFields context rest
    .ok ((key, out) :: others)

def projectedField (context : String) (key : String) : Json → Except Thrown Json
  | .str id =>
    if AgentIdentity.agentField key context then projectedName names workspace id
    else .ok (.str id)
  | .arr items =>
    if key = "agentIds" then do
      let out ← projectedNames names workspace items
      .ok (.arr out)
    else if AgentIdentity.opaqueKeys.contains key then .ok (.arr items)
    else do
      let out ← projectedItems key items
      .ok (.arr out)
  | .obj fields =>
    if key = "labels" then .ok (.obj (AgentIdentity.projectLabels fields))
    else if AgentIdentity.opaqueKeys.contains key then .ok (.obj fields)
    else do
      let out ← projectedFields key fields
      .ok (.obj out)
  | item => .ok item

end

end Projection

section Operations

variable (o : Options)

/-- `this.options.agentRouting ? await this.options.agentRouting.project(...) : value` -/
def project (value : Json) (workspace : Workspace) : Task Json :=
  if o.agentRouting then
    .call (.project value workspace) fun names => orThrow (projected names workspace "" value)
  else .ret value

/-! ### `createWorkspace` -/

/-- Both lists are asked for at once. -/
def records : Task (List Project × List Workspace) :=
  .call .projects fun projects => .call .workspaces fun workspaces => do
    let projects ← orThrow projects
    let workspaces ← orThrow workspaces
    .ret (projects, workspaces)

def creationHash : String := "paseo-gateway.manziman.github.io/creation-hash"

def retentionPolicy : RetentionPolicy := ⟨.Retain, some o.scheduleRetentionSeconds⟩

/-- What the fingerprint of a workspace request is taken of. -/
def workspaceIntent (projectId title : String) : Json :=
  .obj [("projectId", .str projectId),
    ("source", .obj [("kind", .str "directory"), ("projectId", .str projectId),
      ("path", .str (projectPath projectId))]),
    ("title", .str title),
    ("retentionPolicy", .obj [("storage", .str "Retain"),
      ("ttlAfterArchivedSeconds", .num o.scheduleRetentionSeconds)])]

def expectedWorkspace (project : Project) (revision title idempotencyKey : String) : Workspace where
  metadata :=
    { name := "w-" ++ String.ofList ((o.hash (.arr [.str o.namespaceName, .str project.name,
        .str idempotencyKey])).toList.take 32)
      annotations := [(creationHash, o.hash (workspaceIntent o project.name title))] }
  spec :=
    { projectRef := project.name
      displayName := title
      credentialProfile := project.credentialProfile
      revision := revision
      retentionPolicy := some (retentionPolicy o) }

def createWorkspace (projectId title idempotencyKey : String) : Task Workspace := do
  let (projects, _) ← records
  match projects.find? fun row => row.name == projectId with
  | none => .fail (.error "Select an authorized configured Kubernetes project")
  | some project => do
    let revision ← orThrow (fetchRevisionForRef project.revision)
    let expected := expectedWorkspace o project revision title idempotencyKey
    if ¬ o.workspaceSchema expected then .fail (.error "Invalid workspace")
    else do
      let workspace ← .call (.admission expected project) orThrow
      if workspace.metadata.annotations.lookup creationHash ≠
          expected.metadata.annotations.lookup creationHash then
        .fail (.error "Idempotency key conflicts with another workspace request")
      else .ret workspace

/-! ### `ready` and `backend` -/

def notReady (id : String) (workspace : Workspace) : Err :=
  let phase := match workspace.status.map (·.phase) with
    | some .Ready => "Ready"
    | some .Suspended => "Suspended"
    | some .Archived => "Archived"
    | some .Failed => "Failed"
    | _ => "Pending"
  .error ("Workspace " ++ id ++ " " ++ phase ++ ": " ++
    ((workspace.status.map (·.message)).getD "waiting for Kubernetes scheduling"))

def notRunning (id : String) (residency : Residency) : Err :=
  let name := match residency with
    | .Running => "Running"
    | .Suspended => "Suspended"
    | .Archived => "Archived"
  .error ("Workspace " ++ id ++ " is " ++ name ++ "; resume before creating an agent")

/-- Poll until the workspace is ready; `turns` bounds the rounds. -/
def readyFrom (id : String) (deadline : Int) : Nat → Task Workspace
  | 0 => .call .stuck nofun
  | turns + 1 => do
    let (_, rows) ← records
    match rows.find? fun row =>
        row.metadata.name == id && row.metadata.deletionTimestamp.isNone with
    | none => .fail (.error "Workspace does not exist or access denied")
    | some workspace =>
      if workspace.spec.residency ≠ .Running then .fail (notRunning id workspace.spec.residency)
      else if workspace.status.any fun s => s.phase == .Ready then .ret workspace
      else if workspace.status.any fun s => s.phase == .Failed then .fail (notReady id workspace)
      else do
        let instant ← now
        if deadline ≤ instant then .fail (notReady id workspace)
        else .call .delay fun _ => readyFrom id deadline turns

def ready (turns : Nat) (id : String) : Task Workspace := do
  let instant ← now
  readyFrom id (instant + o.readyTimeoutMs) turns

def openProject (workspace : Workspace) (requestId : String) : Json :=
  .obj [("type", .str "open_project_request"),
    ("cwd", .str (workspacePath workspace.metadata.name)), ("requestId", .str requestId)]

/-- `opened.payload.workspace.id` -/
def openedId (opened : Reply) : Option String :=
  match (opened.payload.lookup "workspace").bind (Json.field? "id") with
  | some (.str id) => some id
  | _ => none

/-- A connection to the workspace, and what its daemon calls it. -/
def backend (workspace : Workspace) : Task String := do
  let opening : Task String := do
    connect workspace
    let requestId ← randomUUID
    let opened ← request (openProject workspace requestId)
    match openedId opened with
    | some localId =>
      if opened.type = "open_project_response" then .ret localId
      else .fail (.error "Workspace backend registration failed")
    | none => .fail (.error "Workspace backend registration failed")
  let result ← opening.attempt
  match result with
  | .ok localId => .ret localId
  | .error error => do
    close
    .fail error

/-! ### `createAgent` -/

structure CreateAgent where
  requestId : String
  idempotencyKey : String
  workspaceId : String
  config : List (String × Json)
  initialPrompt : String
  autoArchive : Option Json
  labels : List (String × Json)

/-- The fields of the message but for the id of the request. -/
def CreateAgent.fields (message : CreateAgent) : List (String × Json) :=
  [("type", .str "agent.create.request"), ("idempotencyKey", .str message.idempotencyKey),
    ("workspaceId", .str message.workspaceId), ("config", .obj message.config),
    ("initialPrompt", .str message.initialPrompt), ("labels", .obj message.labels)] ++
    optional "autoArchive" message.autoArchive

def CreateAgent.json (message : CreateAgent) : Json :=
  .obj (("requestId", .str message.requestId) :: message.fields)

/-- `message.config.cwd` -/
def CreateAgent.cwd (message : CreateAgent) : String :=
  match message.config.lookup "cwd" with
  | some (.str cwd) => cwd
  | _ => ""

/-- `{ ...message, config: { ...message.config, cwd } }` -/
def CreateAgent.located (message : CreateAgent) (cwd : String) : CreateAgent :=
  { message with config := Json.setField "cwd" (.str cwd) message.config }

def payloadOf (response : Json) : Json := (response.field? "payload").getD .null

/-- `response.payload.requestId = requestId` -/
def withRequestId (requestId : String) (response : Json) : Json :=
  match response with
  | .obj fields =>
    match fields.lookup "payload" with
    | some (.obj payload) =>
      if (payload.lookup "requestId").isSome then
        .obj (Json.setField "payload" (.obj (Json.setField "requestId" (.str requestId) payload))
          fields)
      else response
    | _ => response
  | _ => response

/-- `retainedAgentMetadata` in the place of the agent. -/
def retainedIn (fields : List (String × Json)) : Except Thrown (List (String × Json)) :=
  match fields.lookup "agent" with
  | some agent =>
    if agent.truthy then
      match o.retainedAgent agent with
      | some retained => .ok (Json.setField "agent" retained fields)
      | none => .error (.error "Invalid agent")
    else .ok fields
  | none => .ok fields

def retainedCreationResponse (response : Json) : Except Thrown Json := do
  let copy ← object response
  let payload ← object (payloadOf response)
  let payload ← retainedIn o payload
  let payload ← match payload.lookup "creation" with
    | some creation =>
      if creation.truthy then do
        let creation ← object creation
        let creation ← retainedIn o creation
        .ok (Json.setField "creation" (.obj (creation.filter fun entry => entry.1 ≠ "workspace"))
          payload)
      else .ok payload
    | none => .ok payload
  parsed o.outbound (.obj (Json.setField "payload" (.obj payload) copy))

/-- Claim the receipt of a creation, or answer with the response it already has. -/
def claimReceipt (message : CreateAgent) (workspace : Workspace) (uid : String) :
    Task (ReceiptRecord ⊕ Json) :=
  let fingerprint := o.hash (.obj message.fields)
  let receiptId := o.hash (.arr [.str uid, .str message.idempotencyKey])
  .call (.createRecord receiptId ⟨fingerprint, message.workspaceId, uid, none⟩) fun created =>
    match created with
    | .ok receipt => .ret (.inl receipt)
    | .error error =>
      if error.status ≠ some 409 then .fail (.thrown error)
      else do
        let previous ← .call (.record receiptId) orThrow
        match previous with
        | none => .fail (.error "Idempotency key conflicts with another agent request")
        | some previous =>
          if previous.value.fingerprint ≠ fingerprint ∨ previous.value.workspaceUid ≠ uid then
            .fail (.error "Idempotency key conflicts with another agent request")
          else match previous.value.response with
            | none =>
              .fail (.error "Agent creation outcome unknown; inspect the workspace before retrying")
            | some stored => do
              let shown ← project o stored workspace
              let response ← orThrow (parsed o.outbound shown)
              .ret (.inr (withRequestId message.requestId response))

/-- The workspace is still the one the agent is created in. -/
def validate (workspace : Workspace) (workspaceId : String) : Task Unit := do
  let (_, rows) ← records
  match rows.find? fun row => row.metadata.name == workspaceId with
  | none => .fail (.error "Creation workspace access denied or workspace changed")
  | some current =>
    if current.metadata.uid = workspace.metadata.uid ∧ current.metadata.deletionTimestamp = none ∧
        current.spec.residency = .Running ∧ current.status.any (fun s => s.phase == .Ready) then
      .ret ()
    else .fail (.error "Creation workspace access denied or workspace changed")

/-- What is done with the reply to the creation. -/
def settle (workspace : Workspace) (localId : String) (receipt : ReceiptRecord) (reply : Reply) :
    Task Json := do
  let translated ← orThrow (ofMessage (Routing.translate workspace localId .outward "" reply.json))
  let shown ← project o translated workspace
  let response ← orThrow (parsed o.outbound shown)
  let retained ← orThrow (retainedCreationResponse o response)
  updateRecord { receipt with value := { receipt.value with response := retained } }
  .ret response

/-- The part between the receipt and the request. -/
def reserve (workspace : Workspace) (workspaceId : String) (input : Json) : Task Json := do
  validate workspace workspaceId
  if o.agentRouting then do
    let fields ← orThrow (object input)
    let requestedId ← randomUUID
    let reservedAgentId ← .call (.reserveForCreate workspace requestedId) orThrow
    let input ← orThrow
      (parsed o.inbound (.obj (Json.setField "agentId" (.str reservedAgentId) fields)))
    validate workspace workspaceId
    let _ ← resolveAgent reservedAgentId [workspace]
    validate workspace workspaceId
    .ret input
  else do
    validate workspace workspaceId
    validate workspace workspaceId
    .ret input

/-- The part with a connection to the backend. -/
def createIn (message : CreateAgent) (cwd : String) (workspace : Workspace) (localId : String) :
    Task Json := do
  let translated ← orThrow
    (ofMessage (Routing.translate workspace localId .inward "" (message.located cwd).json))
  let input ← orThrow (parsed o.inbound translated)
  match workspace.metadata.uid.filter (· ≠ "") with
  | none => .fail (.error "Workspace UID is required for creation receipts")
  | some uid => do
    let claimed ← claimReceipt o message workspace uid
    match claimed with
    | .inr response => .ret response
    | .inl receipt => do
      let input ← reserve o workspace message.workspaceId input
      let reply ← request input
      settle o workspace localId receipt reply

def createAgent (turns : Nat) (message : CreateAgent) : Task Json := do
  let _ ← records
  let (_, rows) ← records
  match rows.find? fun row => row.metadata.name == message.workspaceId with
  | none => .fail (.error "Workspace access denied")
  | some selected =>
    if selected.metadata.uid.getD "" = "" then .fail (.error "Workspace access denied")
    else do
      let workspace ← ready o turns message.workspaceId
      let requestedCwd := normalize message.cwd
      let root := workspacePath message.workspaceId
      if requestedCwd ≠ root ∧ ¬ (root ++ "/").toList.isPrefixOf requestedCwd.toList then
        .fail (.error "Agent cwd is outside the selected workspace")
      else do
        let localId ← backend workspace
        (createIn o message requestedCwd workspace localId).andFinally close

/-! ### `dispatchSchedule` -/

/-- The workspace that a workspace principal stands for is gone or its grant is. -/
def originLost (origin : Origin) (workspaces : List Workspace) : Task Bool :=
  match workspaces.find? fun row => row.metadata.name == origin.workspaceId with
  | none => .ret true
  | some source =>
    if source.metadata.uid ≠ some origin.workspaceUid ∨
        source.metadata.deletionTimestamp.isSome ∨ source.spec.residency ≠ .Running then .ret true
    else do
      let instant ← now
      if origin.expiresAt ≤ instant / 1000 then .ret true
      else .call (.revoked origin.tokenId) .ret

def checkOrigin (input : Input) : Task Unit :=
  match input.origin with
  | none => .ret ()
  | some origin => do
    let workspaces ← workspaces
    let lost ← originLost origin workspaces
    if lost then .fail (.rejected "Scheduled origin authorization expired or was revoked")
    else .ret ()

/-- The target workspace of the schedule, as it was chosen. -/
def available (input : Input) (workspace : Workspace) : Bool :=
  workspace.metadata.uid.isSome && workspace.metadata.uid == input.targetWorkspaceUid &&
    workspace.metadata.uid != some "" && workspace.metadata.deletionTimestamp.isNone &&
    workspace.spec.projectRef == input.projectId &&
    workspace.spec.credentialProfile == input.credentialProfile &&
    workspace.spec.residency == .Running && workspace.status.any fun s => s.phase == .Ready

def validateDispatch (input : Input) : Task Workspace := do
  let latest ← workspaces
  match latest.find? fun row => some row.metadata.name == input.targetWorkspaceId with
  | none => .fail (.rejected "Scheduled target or origin changed before dispatch")
  | some current =>
    if ¬ available input current then
      .fail (.rejected "Scheduled target or origin changed before dispatch")
    else match input.origin with
      | none => .ret current
      | some origin => do
        let lost ← originLost origin latest
        if lost then .fail (.rejected "Scheduled target or origin changed before dispatch")
        else .ret current

/-- `target.payload.agent` is the agent of the schedule and not archived. -/
def isTarget (agentId : String) (target : Reply) : Bool :=
  match target.payload.lookup "agent" with
  | some agent =>
    target.type == "fetch_agent_response" &&
      (match agent.field? "id" with
        | some (.str id) => id == agentId
        | _ => false) &&
      !((agent.field? "archivedAt").any Json.truthy)
  | none => false

def fetchAgent (agentId requestId : String) : Json :=
  .obj [("type", .str "fetch_agent_request"), ("requestId", .str requestId),
    ("agentId", .str agentId)]

def sendMessage (input : Input) (agentId : String) : Json :=
  .obj [("type", .str "send_agent_message_request"), ("requestId", .str input.runId),
    ("agentId", .str agentId), ("text", .str input.schedule.prompt),
    ("messageId", .str input.runId)]

/-- The send was accepted. -/
def isAccepted (response : Reply) : Bool :=
  response.type == "send_agent_message_response" &&
    (response.payload.lookup "accepted").any Json.truthy &&
    !((response.payload.lookup "error").any Json.truthy)

/-- Everything up to the send. -/
def prepareSend (input : Input) (agentId : String) : Task Unit := do
  let requestId ← randomUUID
  let target ← rejecting "Scheduled target lookup failed" (request (fetchAgent agentId requestId))
  if ¬ isTarget agentId target then
    .fail (.rejected "Scheduled target agent is unavailable or archived")
  else do
    let current ← validateDispatch input
    if o.agentRouting then do
      let _ ← claim current agentId
      let route ← resolveAgent agentId [current]
      if route.workspace.metadata.uid ≠ input.targetWorkspaceUid then
        .fail (.rejected "Scheduled target agent identity changed")
      else do
        let _ ← validateDispatch input
        .ret ()
    else do
      let _ ← validateDispatch input
      .ret ()

/-- After this mutation is sent, any lost response is ambiguous and is never retried. -/
def send (input : Input) (agentId : String) : Task Unit := do
  let response ← request (sendMessage input agentId)
  if isAccepted response then .ret ()
  else .fail (.error "Scheduled target message outcome is unknown")

structure Dispatched where
  workspaceId : String
  agentId : String
deriving DecidableEq

def dispatchToAgent (input : Input) (agentId : String) : Task Dispatched := do
  let rows ← workspaces
  match rows.find? fun row => some row.metadata.name == input.targetWorkspaceId with
  | none => .fail (.rejected "Scheduled target workspace is unavailable or changed")
  | some workspace =>
    if ¬ available input workspace then
      .fail (.rejected "Scheduled target workspace is unavailable or changed")
    else do
      let _ ← rejecting "Scheduled target backend unavailable" (backend workspace)
      let body : Task Unit := do
        prepareSend o input agentId
        send input agentId
      body.andFinally close
      .ret ⟨workspace.metadata.name, agentId⟩

/-- The message that creates the agent of the run. -/
def creation (input : Input) (config : List (String × Json)) (workspace : Workspace) :
    CreateAgent where
  requestId := input.runId
  idempotencyKey := "schedule:" ++ input.runId
  workspaceId := workspace.metadata.name
  config := Json.setField "cwd" (.str (workspacePath workspace.metadata.name)) config
  initialPrompt := input.schedule.prompt
  autoArchive := config.lookup "archiveOnFinish"
  labels := [("paseo.schedule-id", .str input.schedule.id)]

def typeOf (response : Json) : Option String :=
  match response.field? "type" with
  | some (.str type) => some type
  | _ => none

/-- `response.payload.agent`, where it counts as true. -/
def agentOf (response : Json) : Option Json :=
  ((payloadOf response).field? "agent").filter Json.truthy

/-- The message of a failed creation. -/
def creationError (response : Json) : String :=
  match typeOf response, (payloadOf response).field? "error" with
  | some "agent.create.response", some (.str error) => error
  | _, _ => "Scheduled agent creation failed"

def dispatchedAgent (agent : Json) : Task String :=
  match agent.field? "id" with
  | some (.str id) =>
    if o.agentRouting then .ret id
    else do
      let parsed ← orThrow (ofMessage (parseScopedId id))
      .ret parsed.2
  | _ => .fail (.error "Invalid agent")

/-- What the response to the creation means for the run. -/
def dispatchOutcome (workspace : Workspace) (response : Json) : Task Dispatched :=
  match agentOf response with
  | some agent =>
    if typeOf response = some "agent.create.response" then do
      let agentId ← dispatchedAgent o agent
      .ret ⟨workspace.metadata.name, agentId⟩
    else .fail (.rejected (creationError response))
  | none => .fail (.rejected (creationError response))

def dispatchNewAgent (turns : Nat) (input : Input) (config : List (String × Json)) :
    Task Dispatched := do
  let projects ← .call .projects orThrow
  match projects.find? fun row =>
      row.name == input.projectId && row.credentialProfile == input.credentialProfile with
  | none => .fail (.rejected "Schedule project or credential profile changed")
  | some _ => do
    let workspace ← rejecting "Schedule workspace allocation failed"
      (createWorkspace o input.projectId
        (input.schedule.name.getD ("Schedule " ++ input.schedule.id))
        ("schedule:" ++ input.runId))
    let message := creation input config workspace
    let _ ← orThrow (parsed o.inbound message.json)
    let response ← createAgent o turns message
    dispatchOutcome o workspace response

def dispatchSchedule (turns : Nat) (input : Input) : Task Dispatched := do
  checkOrigin input
  match input.schedule.target with
  | .agent agentId => dispatchToAgent o input agentId
  | .newAgent config => dispatchNewAgent o turns input config

end Operations

end PaseoGateway.ScheduleDispatch

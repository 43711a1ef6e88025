/-
  PaseoGateway/Routing.lean
  =========================
  **The way of a client message to the backend of one workspace.**

  Mirrors `src/src/gateway/routing.ts`, `AgentRouting.route` of
  `src/src/gateway/agent-routing.ts` and their composition in `Session.forward`.

  `route` reads the registry once for each id it replaces, several at a time; what a
  read returns depends only on when it happens, so the reads are a function of the
  position (`Reads`), and any such function is some timing.  Which of several failing
  reads is reported does not matter here.  Between the steps of `forward` the message is
  parsed by the schema it has passed before, which gives it back as it is.
-/
import PaseoGateway.AgentIdentity

namespace PaseoGateway.Routing

open AgentIdentity (Route Resolved requestedGuid resolvedRoute)

/-! ### `routing.ts` -/

def scopedKeys : List String :=
  ["agentId", "parentAgentId", "terminalId", "sourceAgentId", "targetAgentId", "callerAgentId"]

def opaqueKeys : List String :=
  ["env", "event", "content", "message", "text", "config", "labels", "request",
   "pendingPermissions", "resolution", "detail", "state", "data", "arguments", "input",
   "output", "metadata", "extra", "outputSchema"]

/-- `record.type === "agent.create.request"` -/
def creates (record : List (String × Json)) : Bool :=
  match record.lookup "type" with
  | some (.str type) => type == "agent.create.request"
  | _ => false

inductive Direction where
  | inward
  | outward
deriving DecidableEq

def scopedField (key context : String) : Bool :=
  scopedKeys.contains key || (key == "id" &&
    (context == "agent" || context == "agents" || context == "terminal" || context == "terminals"))

section Translate

variable (workspace : Workspace) (backendWorkspaceId : String) (direction : Direction)

/-- A scoped id on its way. -/
def translateId (id : String) : Except String Json :=
  match direction with
  | .outward => .ok (.str (scopedId workspace.metadata.name id))
  | .inward => do
    let parsed ← parseScopedId id
    if parsed.1 ≠ workspace.metadata.name then .error "Cross-workspace routing is not allowed"
    else .ok (.str parsed.2)

def translateWorkspaceId (id : String) : Except String Json :=
  match direction with
  | .outward => .ok (.str workspace.metadata.name)
  | .inward =>
    if id ≠ workspace.metadata.name then .error "Workspace routing mismatch"
    else .ok (.str backendWorkspaceId)

/-- A caller-chosen id on creation identifies the new backend resource, not a route. -/
def chosen (creating : Bool) (key : String) : Bool :=
  direction == .inward && creating && key == "agentId"

def projectField (key : String) : Bool :=
  (key == "projectId" || key == "projectKey") && direction == .outward

mutual

def translate (context : String) : Json → Except String Json
  | .arr items => do
    let out ← translateItems context items
    .ok (.arr out)
  | .obj record => do
    let out ← translateFields context (creates record) record
    .ok (.obj out)
  | value => .ok value

def translateItems (context : String) : List Json → Except String (List Json)
  | [] => .ok []
  | item :: rest => do
    let out ← translate context item
    let others ← translateItems context rest
    .ok (out :: others)

def translateFields (context : String) (creating : Bool) :
    List (String × Json) → Except String (List (String × Json))
  | [] => .ok []
  | (key, item) :: rest => do
    let out ← translateField context creating key item
    let others ← translateFields context creating rest
    .ok ((key, out) :: others)

def translateField (context : String) (creating : Bool) (key : String) : Json → Except String Json
  | .str id =>
    if chosen direction creating key then .ok (.str id)
    else if scopedField key context then translateId workspace direction id
    else if key = "workspaceId" then translateWorkspaceId workspace backendWorkspaceId direction id
    else if projectField direction key then .ok (.str workspace.spec.projectRef)
    else .ok (.str id)
  | .arr items =>
    if chosen direction creating key then .ok (.arr items)
    else if projectField direction key then .ok (.str workspace.spec.projectRef)
    else if opaqueKeys.contains key then .ok (.arr items)
    else do
      let out ← translateItems key items
      .ok (.arr out)
  | .obj fields =>
    if chosen direction creating key then .ok (.obj fields)
    else if projectField direction key then .ok (.str workspace.spec.projectRef)
    else if opaqueKeys.contains key then .ok (.obj fields)
    else do
      let out ← translateFields key (creates fields) fields
      .ok (.obj out)
  | item =>
    if chosen direction creating key then .ok item
    else if projectField direction key then .ok (.str workspace.spec.projectRef)
    else .ok item

end

end Translate

/-! ### `selectWorkspace` -/

/-- The loop of `posix.normalize` over the segments of a path, the last one read first in
    `done`. -/
def normalizeSegments (allowAboveRoot : Bool) (done : List String) : List String → List String
  | [] => done.reverse
  | segment :: rest =>
    if segment = "" ∨ segment = "." then normalizeSegments allowAboveRoot done rest
    else if segment = ".." then
      match done with
      | last :: before =>
        if last ≠ ".." then normalizeSegments allowAboveRoot before rest
        else if allowAboveRoot then normalizeSegments allowAboveRoot (".." :: done) rest
        else normalizeSegments allowAboveRoot done rest
      | [] =>
        if allowAboveRoot then normalizeSegments allowAboveRoot [".."] rest
        else normalizeSegments allowAboveRoot [] rest
    else normalizeSegments allowAboveRoot (segment :: done) rest

/-- `posix.normalize` -/
def normalize (path : String) : String :=
  if path = "" then "."
  else
    let isAbsolute := path.toList.head? == some '/'
    let trailingSeparator := path.toList.getLast? == some '/'
    let inner := "/".intercalate (normalizeSegments (!isAbsolute) []
      ((path.toList.splitOn '/').map String.ofList))
    if inner = "" then
      if isAbsolute then "/" else if trailingSeparator then "./" else "."
    else
      (if isAbsolute then "/" else "") ++ inner ++ (if trailingSeparator then "/" else "")

/-- The candidates named by scoped ids. -/
def scopedCandidates (message : Json) (creating : Bool) : List String → Except String (List String)
  | [] => .ok []
  | key :: rest =>
    match message.field? key with
    | some (.str id) =>
      if creating ∧ key = "agentId" then scopedCandidates message creating rest
      else do
        let parsed ← parseScopedId id
        let others ← scopedCandidates message creating rest
        .ok (parsed.1 :: others)
    | _ => scopedCandidates message creating rest

/-- `message.cwd ?? config.cwd` -/
def requestedCwd (message : Json) : Except String (Option Json) :=
  match message.field? "config" with
  | some (.arr _) => .error "Expected object"
  | config =>
    match message.field? "cwd" with
    | some .null => .ok (config.bind (Json.field? "cwd"))
    | none => .ok (config.bind (Json.field? "cwd"))
    | cwd => .ok cwd

def cwdCandidates (cwd : Option Json) (workspaces : List Workspace) : Except String (List String) :=
  match cwd with
  | some (.str cwd) =>
    let normalized := normalize cwd
    match workspaces.find? fun w => normalized == workspacePath w.metadata.name ||
        (workspacePath w.metadata.name ++ "/").toList.isPrefixOf normalized.toList with
    | none => .error "Path is outside configured workspaces"
    | some workspace => .ok [workspace.metadata.name]
  | _ => .ok []

/-- Paths have a unique, real mount location per workspace. -/
def selectWorkspace (message : Json) (workspaces : List Workspace) : Except String Workspace := do
  let named := match message.field? "workspaceId" with
    | some (.str id) => [id]
    | _ => []
  let creating := match message with
    | .obj record => creates record
    | _ => false
  let byId ← scopedCandidates message creating scopedKeys
  let cwd ← requestedCwd message
  let located ← cwdCandidates cwd workspaces
  let candidates := (named ++ byId ++ located).dedup
  if candidates.length ≠ 1 then .error "A single workspace must be identified for this operation"
  else match workspaces.find? fun w => candidates.contains w.metadata.name with
    | none => .error "Workspace does not exist"
    | some selected => .ok selected

/-! ### `AgentRouting.route` -/

/-- What the read of the registry for each position returns. -/
abbrev Reads := List Nat → Option (Nat × Route)

/-- What `AgentIdentityRegistry.read` makes of a stored route. -/
def checkedRead (id : String) :
    Option (Nat × Route) → Except AgentIdentity.Err (Option (Nat × Route))
  | none => .ok none
  | some (version, value) =>
    if value.binding.backendAgentId ≠ id then
      .error (.error "Agent identity route key and backend ID differ")
    else .ok (some (version, value))

/-- `AgentIdentityRegistry.resolve`, when its read finds `record`. -/
def resolved (record : Option (Nat × Route)) (publicOrLegacyId : String)
    (authorizedWorkspaces : List Workspace) : Except AgentIdentity.Err Resolved := do
  let id ← requestedGuid publicOrLegacyId
  let value ← checkedRead id record
  resolvedRoute publicOrLegacyId id authorizedWorkspaces value

/-- The id that `route` puts in the place of a public one. -/
def scopedJson (r : Resolved) : Json :=
  .str (scopedId r.workspace.metadata.name r.backendAgentId)

section Route

variable (authorizedWorkspaces : List Workspace)

/-- The map over one element of an `agentIds` array. -/
def routeId (record : Option (Nat × Route)) : Json → Except AgentIdentity.Err Json
  | .str id => do
    let r ← resolved record id authorizedWorkspaces
    .ok (scopedJson r)
  | _ => .error (.error "Invalid agent ID array")

def routeIds (reads : Reads) (index : Nat) : List Json → Except AgentIdentity.Err (List Json)
  | [] => .ok []
  | item :: rest => do
    let out ← routeId authorizedWorkspaces (reads [index]) item
    let others ← routeIds reads (index + 1) rest
    .ok (out :: others)

mutual

def route (reads : Reads) (context : String) : Json → Except AgentIdentity.Err Json
  | .arr items => do
    let out ← routeItems reads context 0 items
    .ok (.arr out)
  | .obj record => do
    let out ← routeFields reads context (creates record) 0 record
    .ok (.obj out)
  | value => .ok value

def routeItems (reads : Reads) (context : String) (index : Nat) :
    List Json → Except AgentIdentity.Err (List Json)
  | [] => .ok []
  | item :: rest => do
    let out ← route (fun path => reads (index :: path)) context item
    let others ← routeItems reads context (index + 1) rest
    .ok (out :: others)

def routeFields (reads : Reads) (context : String) (creating : Bool) (index : Nat) :
    List (String × Json) → Except AgentIdentity.Err (List (String × Json))
  | [] => .ok []
  | (key, item) :: rest => do
    let out ← routeField (fun path => reads (index :: path)) context creating key item
    let others ← routeFields reads context creating (index + 1) rest
    .ok ((key, out) :: others)

def routeField (reads : Reads) (context : String) (creating : Bool) (key : String) :
    Json → Except AgentIdentity.Err Json
  | .str id =>
    if AgentIdentity.agentField key context && !(creating && key == "agentId") then do
      let r ← resolved (reads []) id authorizedWorkspaces
      .ok (scopedJson r)
    else .ok (.str id)
  | .arr items =>
    if key = "agentIds" then do
      let out ← routeIds authorizedWorkspaces reads 0 items
      .ok (.arr out)
    else if AgentIdentity.opaqueKeys.contains key then .ok (.arr items)
    else do
      let out ← routeItems reads key 0 items
      .ok (.arr out)
  | .obj fields =>
    if AgentIdentity.opaqueKeys.contains key then .ok (.obj fields)
    else do
      let out ← routeFields reads key (creates fields) 0 fields
      .ok (.obj out)
  | item => .ok item

end

end Route

/-! ### `Session.forward` -/

def ofMessage {α : Type} : Except String α → Except AgentIdentity.Err α
  | .ok a => .ok a
  | .error message => .error (.error message)

/-- What is sent to the backend of which workspace.  The reads of both passes of `route` are
    given; `localId` is the id of the backend's own workspace. -/
def forward (reads reads' : Reads) (workspaces active : List Workspace)
    (localId : Workspace → String) (message : Json) :
    Except AgentIdentity.Err (Workspace × Json) := do
  let routed ← route workspaces reads "" message
  let workspace ← ofMessage (selectWorkspace routed active)
  let again ← route [workspace] reads' "" routed
  let input ← ofMessage (translate workspace (localId workspace) .inward "" again)
  .ok (workspace, input)

end PaseoGateway.Routing

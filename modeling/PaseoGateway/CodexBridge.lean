/-
  PaseoGateway/CodexBridge.lean
  =============================
  **The stdio bridge in front of the Codex app server.**

  Mirrors `readCodexAccess` and `bridgeCodex` of `src/docker/codex.mjs`.

  The bridge is one process that runs from event to event: a chunk of lines of the
  client or of the child, the end of a read of the access file or of a delay, the
  timer of the login, the end of a stream.  `stop` closes both streams, which ends
  the events of the streams but not the lines of a chunk that is being dispatched.
  What reaches the child and the client is logged, newest first, apart for the
  messages of the client (`forwarded`) and those of the bridge (`sent`).
-/
import PaseoGateway.JsString
import PaseoGateway.Json

namespace PaseoGateway.CodexBridge

open Json (field? setField)

abbrev Fields := List (String × Json)

/-! ### Messages -/

/-- A line of a stream, and its value when it parses. -/
structure Line where
  bytes : Nat
  value : Option Json

def id? (message : Json) : Option Json := field? "id" message

/-- `message.method === name` -/
def hasMethod (name : String) (message : Json) : Bool :=
  match field? "method" message with
  | some (.str method) => method == name
  | _ => false

/-- `"result" in message` -/
def hasResult (message : Json) : Bool := (field? "result" message).isSome

/-- Whether `in` may be asked of the value. -/
def isReference : Json → Bool
  | .arr _ | .obj _ => true
  | _ => false

/-- `===` between values of two messages: objects and arrays are never identical. -/
def same : Option Json → Option Json → Bool
  | none, none => true
  | some .null, some .null => true
  | some (.bool a), some (.bool b) => a == b
  | some (.num a), some (.num b) => a == b
  | some (.str a), some (.str b) => a == b
  | _, _ => false

def truthy : Option Json → Bool
  | none | some .null => false
  | some (.bool b) => b
  | some (.num n) => n != 0
  | some (.str s) => s != ""
  | some (.arr _) | some (.obj _) => true

/-- The properties `{ ...value }` copies. -/
def spread : Option Json → Fields
  | some (.obj fields) => fields
  | some (.arr items) => items.zipIdx.map fun (item, i) => (toString i, item)
  | some (.str s) => s.toList.zipIdx.map fun (c, i) => (toString i, .str c.toString)
  | _ => []

/-- The client's `initialize` with its capabilities extended. -/
def extendCapabilities (message : Json) : Json :=
  let params := field? "params" message
  let capabilities := setField "experimentalApi" (.bool true)
    (spread (params.bind (field? "capabilities")))
  .obj (setField "params" (.obj (setField "capabilities" (.obj capabilities) (spread params)))
    (spread (some message)))

/-- A message with an `id`, unless that is undefined. -/
def withId (id : Option Json) (fields : Fields) : Json :=
  .obj ((id.map fun id => ("id", id)).toList ++ fields)

def failureMessage (id : Option Json) : Json :=
  withId id [("error", .obj [("code", .num (-32001)), ("message",
    .str "Codex subscription authority unavailable; inspect redacted broker status")])]

def initializedMessage : Json := .obj [("method", .str "initialized"), ("params", .obj [])]

/-- What the bridge logs in with; later fields win. -/
def loginMessage (id : String) (credentials : Fields) : Json :=
  .obj [("id", .str id), ("method", .str "account/login/start"),
    ("params", .obj (credentials.foldl (fun fields (key, value) => setField key value fields)
      [("type", .str "chatgptAuthTokens")]))]

def replacementMessage (id : Json) (credentials : Fields) : Json :=
  .obj [("id", id), ("result", .obj credentials)]

def noReplacementMessage (id : Json) : Json :=
  .obj [("id", id), ("error", .obj [("code", .num (-32001)), ("message", .str <|
    "Codex authority has no replacement access credential; " ++
      "reauthentication may be required")])]

/-! ### The access file -/

/-- A non-empty string -/
def nonEmpty : Option Json → Bool
  | some (.str s) => s != ""
  | _ => false

/-- What the file holds when it parses, or nothing where the source throws. -/
def readCodexAccess (parseDate : Option Json → Option Int) (file : Option Json) (now : Nat) :
    Option Fields :=
  match file with
  | some (.obj value) =>
    let keys := (value.map Prod.fst).insertionSort (· ≤ ·)
    let short : Bool := match value.lookup "accessToken" with
      | some (.str token) => decide (Js.length token ≤ 32768)
      | _ => false
    let planType : Bool := match value.lookup "chatgptPlanType" with
      | some .null | some (.str _) => true
      | _ => false
    let later : Bool := match parseDate (value.lookup "expiresAt") with
      | some time => decide ((now : Int) + 1000 < time)
      | none => false
    if ",".intercalate keys == "accessToken,chatgptAccountId,chatgptPlanType,expiresAt" &&
        nonEmpty (value.lookup "accessToken") && short &&
        nonEmpty (value.lookup "chatgptAccountId") && planType && later then some value
    else none
  | _ => none

/-- `const { expiresAt: _, ...credentials } = access` -/
def credentialsOf (access : Fields) : Fields := access.filter fun field => field.1 ≠ "expiresAt"

/-! ### The bridge -/

inductive Entry where
  /-- a message of the client has arrived -/
  | client (message : Json)
  /-- a message of the client is sent to the child -/
  | forwarded (message : Json)
  /-- a message of the bridge is sent to the child -/
  | sent (message : Json)
  /-- a message of the child has arrived -/
  | child (message : Json)
  /-- a message is sent to the client -/
  | emitted (message : Json)
  /-- the login has succeeded -/
  | confirmed
  /-- the login was rejected or has timed out, or there was nothing to log in with -/
  | loginFailed
  | stopped

/-- The loop that waits for another access token. -/
structure Refresh where
  id : Json
  deadline : Nat
  previousToken : Option Json
  previousAccount : Option Json

/-- What a handler of a line of the child waits for. -/
inductive Waiting where
  /-- the access file, for the answer to `initialize` -/
  | login (message : Json) (now : Nat)
  /-- the access file, for another token -/
  | refresh (loop : Refresh) (now : Nat)
  /-- `delay(100)` -/
  | delay (loop : Refresh)

structure Bridge where
  initialized : Bool := false
  initialization : Option Json := none
  currentAccess : Option Fields := none
  authenticated : Bool := false
  queued : List Json := []
  queuedBytes : Nat := 0
  /-- by the id of a login, the answer that is withheld for it and its timer -/
  pendingAuth : List (String × Json × Nat) := []
  /-- the timers that run, and the id of the login of each -/
  timers : List (Nat × String) := []
  nextTimer : Nat := 0
  stopped : Bool := false
  waiting : List Waiting := []
  clock : Nat := 0
  log : List Entry := []

namespace Bridge

def note (entry : Entry) (s : Bridge) : Bridge := { s with log := entry :: s.log }

def forward (message : Json) (s : Bridge) : Bridge := s.note (.forwarded message)
def send (message : Json) (s : Bridge) : Bridge := s.note (.sent message)
def emit (message : Json) (s : Bridge) : Bridge := s.note (.emitted message)
def failure (id : Option Json) (s : Bridge) : Bridge := s.emit (failureMessage id)

def wait (waiting : Waiting) (s : Bridge) : Bridge := { s with waiting := s.waiting ++ [waiting] }

def stop (s : Bridge) : Bridge :=
  if s.stopped then s
  else { s with stopped := true, timers := [], pendingAuth := [], log := .stopped :: s.log }

/-! ### Lines of the client -/

def queuedLimit : Nat := 128
def queuedBytesLimit : Nat := 2 * 1024 * 1024

def enqueue (bytes : Nat) (message : Json) (s : Bridge) : Bridge :=
  let s := { s with queuedBytes := s.queuedBytes + bytes }
  if queuedLimit ≤ s.queued.length ∨ queuedBytesLimit < s.queuedBytes then s.stop
  else { s with queued := s.queued ++ [message] }

def incomingMessage (bytes : Nat) (message : Json) (s : Bridge) : Bridge :=
  if hasMethod "initialize" message then
    if s.initialization.isSome then s.failure (id? message)
    else { s with initialization := id? message }.forward (extendCapabilities message)
  else if hasMethod "initialized" message && s.initialized then s
  else if hasMethod "account/login/start" message || hasMethod "account/logout" message then
    s.failure (id? message)
  else if s.authenticated then s.forward message
  else s.enqueue bytes message

def incomingLine (s : Bridge) (line : Line) : Bridge :=
  match line.value with
  | none | some .null => s.stop
  | some message => (s.note (.client message)).incomingMessage line.bytes message

/-! ### Lines of the child -/

/-- The `catch` of the handler. -/
def fail (s : Bridge) : Bridge :=
  (if s.initialization.isSome then s.failure s.initialization else s).stop

def rejectLogin (s : Bridge) : Bridge :=
  ((s.note .loginFailed).failure s.initialization).stop

/-- `reply.error || reply.result?.type !== "chatgptAuthTokens"` is false -/
def confirms (reply : Json) : Bool :=
  !truthy (field? "error" reply) &&
    match (field? "result" reply).bind (field? "type") with
    | some (.str type) => type == "chatgptAuthTokens"
    | _ => false

/-- The queued messages are sent in their order. -/
def flush (s : Bridge) : Bridge :=
  let s := (s.queued.filter fun pending => !hasMethod "initialized" pending).foldl
    (fun s pending => s.forward pending) s
  { s with queued := [], queuedBytes := 0 }

/-- The reply to the login that withholds `message`. -/
def auth (message : Json) (timer : Nat) (reply : Json) (s : Bridge) : Bridge :=
  let s := { s with timers := s.timers.filter fun running => running.1 ≠ timer }
  if !confirms reply then s.rejectLogin
  else ((({ s with authenticated := true }.note .confirmed).emit message).flush)

/-- `pendingAuth.get(message.id)` -/
def authOf (s : Bridge) (message : Json) : Option (String × Json × Nat) :=
  match id? message with
  | some (.str id) => s.pendingAuth.find? fun pending => pending.1 = id
  | _ => none

def forget (id : String) (s : Bridge) : Bridge :=
  { s with pendingAuth := s.pendingAuth.filter fun pending => pending.1 ≠ id }

/-- The condition of the loop, and what follows it. -/
def loopRefresh (loop : Refresh) (s : Bridge) : Bridge :=
  if !s.stopped && decide (s.clock < loop.deadline) then s.wait (.refresh loop s.clock)
  else s.send (noReplacementMessage loop.id)

def startRefresh (timeoutMs : Nat) (id : Json) (s : Bridge) : Bridge :=
  s.loopRefresh
    { id, deadline := s.clock + timeoutMs,
      previousToken := s.currentAccess.bind (·.lookup "accessToken"),
      previousAccount := s.currentAccess.bind (·.lookup "chatgptAccountId") }

def outgoingMessage (timeoutMs : Nat) (message : Json) (s : Bridge) : Bridge :=
  match s.authOf message with
  | some (id, withheld, timer) => (s.forget id).auth withheld timer message
  | none =>
    if same (id? message) s.initialization && !isReference message then s.fail
    else if same (id? message) s.initialization && hasResult message && !s.initialized then
      s.wait (.login message s.clock)
    else
      match hasMethod "account/chatgptAuthTokens/refresh" message, id? message with
      | true, some id => s.startRefresh timeoutMs id
      | _, _ => s.emit message

def outgoingLine (timeoutMs : Nat) (s : Bridge) (line : Line) : Bridge :=
  match line.value with
  | none | some .null => s.fail
  | some message => (s.note (.child message)).outgoingMessage timeoutMs message

/-! ### The handlers that go on -/

/-- The id of a login. -/
def authId (uuid : String) : String := "paseo-auth-" ++ uuid

def startLogin (message : Json) (access : Fields) (id : String) (s : Bridge) : Bridge :=
  let s := { s with currentAccess := some access, initialized := true }.send initializedMessage
  let s := { s with
    timers := (s.nextTimer, id) :: s.timers
    nextTimer := s.nextTimer + 1
    pendingAuth := (id, message, s.nextTimer) :: s.pendingAuth.filter fun pending =>
      pending.1 ≠ id }
  s.send (loginMessage id (credentialsOf access))

/-- The access file has been read for the answer to `initialize`; `none` where
    `readCodexAccess` throws. -/
def loginRead (message : Json) (access : Option Fields) (id : String) (s : Bridge) : Bridge :=
  match access with
  | none => (s.note .loginFailed).fail
  | some access => s.startLogin message access id

/-- The access file has been read for another token. -/
def refreshRead (loop : Refresh) (access : Option Fields) (s : Bridge) : Bridge :=
  match access with
  | none => s.wait (.delay loop)
  | some next =>
    if !same (next.lookup "chatgptAccountId") loop.previousAccount then
      s.send (noReplacementMessage loop.id)
    else if !same (next.lookup "accessToken") loop.previousToken then
      { s with currentAccess := some next }.send
        (replacementMessage loop.id (credentialsOf next))
    else s.wait (.delay loop)

/-- The `i`-th handler no longer waits. -/
def resume (i : Nat) (s : Bridge) : Bridge := { s with waiting := s.waiting.eraseIdx i }

/-- The timer of a login. -/
def timeout (id : String) (timer : Nat) (s : Bridge) : Bridge :=
  ({ s with timers := s.timers.filter fun running => running.1 ≠ timer }.forget id).rejectLogin

end Bridge

/-! ### Events -/

inductive Event where
  | client (lines : List Line)
  | child (lines : List Line)
  /-- the read of the access file ends for the `i`-th handler that waits -/
  | read (i : Nat) (file : Option Json) (uuid : String)
  /-- the delay of the `i`-th handler that waits ends -/
  | wake (i : Nat)
  | timeout (timer : Nat)
  /-- a stream ends or fails, or the process is told to stop -/
  | close
  | tick (ms : Nat)

/-- Whether the entry is about a message with this id. -/
def Entry.mentions (id : String) : Entry → Bool
  | .client m | .forwarded m | .sent m | .child m | .emitted m => same (id? m) (some (.str id))
  | _ => false

/-- What an event does, if it can happen. -/
def step (parseDate : Option Json → Option Int) (timeoutMs : Nat) (event : Event) (s : Bridge) :
    Option Bridge :=
  match event with
  | .client lines => if s.stopped then none else some (lines.foldl Bridge.incomingLine s)
  | .child lines => if s.stopped then none else some (lines.foldl (Bridge.outgoingLine timeoutMs) s)
  | .read i file uuid =>
    match s.waiting[i]? with
    | some (.login message now) =>
      -- a new UUID is not the id of a message so far
      if s.log.any (Entry.mentions (Bridge.authId uuid)) then none
      else some ((s.resume i).loginRead message (readCodexAccess parseDate file now)
        (Bridge.authId uuid))
    | some (.refresh loop now) =>
      some ((s.resume i).refreshRead loop (readCodexAccess parseDate file now))
    | _ => none
  | .wake i =>
    match s.waiting[i]? with
    | some (.delay loop) => some ((s.resume i).loopRefresh loop)
    | _ => none
  | .timeout timer =>
    (s.timers.find? fun running => running.1 = timer).map fun running => s.timeout running.2 timer
  | .close => some s.stop
  | .tick ms => some { s with clock := s.clock + ms }

inductive Reachable (parseDate : Option Json → Option Int) (timeoutMs : Nat) : Bridge → Prop where
  | init (clock : Nat) : Reachable parseDate timeoutMs { clock }
  | step {s s' : Bridge} (event : Event) : Reachable parseDate timeoutMs s →
      step parseDate timeoutMs event s = some s' → Reachable parseDate timeoutMs s'

end PaseoGateway.CodexBridge

/-
  PaseoGateway/CheckoutBudget.lean
  ================================
  **The checkout init container and its fetch budget.**

  Mirrors `src/docker/checkout-budget.mjs`, `fetchWithRetry` of
  `src/docker/checkout-failure.mjs` and `initializeInternal` of
  `src/docker/initialize.mjs`.

  The container is started any number of times, one process after the other, on
  one volume; a process may be killed between any two requests, a request may fail
  with or without having taken effect, and a rename is atomic.  The clock never goes
  back.  Where the source reads the clock and goes on without awaiting anything, the
  reading is the time of what follows (`launch`).

  How a repository name is judged and how long the text of a receipt is are
  parameters.
-/
import PaseoGateway.AsyncPool
import PaseoGateway.CheckoutFailure
import PaseoGateway.JsString

namespace PaseoGateway.Checkout

open Async Volume

/-! ### Files, effects and requests -/

inductive Path where
  /-- the receipt of the budget -/
  | receipt
  /-- a temporary file beside it -/
  | tmp (uuid : Nat)
  /-- `checkout-ready` -/
  | ready
  | readyTmp
deriving DecidableEq, Repr

inductive Note where
  | file (effect : Effect Path StoredFile)
  /-- a reading of the clock -/
  | clock (now : Nat)
  /-- the receipt a start has opened -/
  | opened (file : StoredFile)
  | reserved (attempt now : Nat)
  /-- `git fetch` was spawned -/
  | launched (now : Nat)

inductive Ext where
  /-- the container starts once no other process of it is left -/
  | enter
  | exit
  | fs (op : Op Path StoredFile)
  | openReceipt
  /-- a request on an open file: it does not report the file missing -/
  | handle
  /-- a request that succeeds or reports an error -/
  | settle
  /-- `stat` of a directory: whether it is one that passes the checks made of it -/
  | stat
  | now
  | randomUUID
  | reserve (attempt : Nat)
  | delay (since ms : Nat)
  | git (args : List String)
  | launch (args : List String) (remaining now : Nat)
  | fetched

abbrev ExtRes : Ext → Type
  | .enter | .exit => Unit
  | .fs op => Except String op.Ans
  | .openReceipt => Except String StoredFile
  | .handle | .settle => Except String Unit
  | .stat => Except String Bool
  | .now => Nat
  | .randomUUID => Nat
  | .reserve _ => Nat
  | .delay _ _ => Unit
  | .git _ => GitResult
  | .launch _ _ _ => Unit
  | .fetched => GitResult

/-- The environment of a start. -/
structure Settings where
  repository : Option String := none
  fetchDepth : Option String := none
  pullRequest : Option String := none
  revision : Option String := none
  branch : Option String := none

inductive Call where
  | container (settings : Settings)

/-- The largest time value a `Date` has. -/
def MAX_TIME : Nat := 8640000000000000

structure Machinery where
  clock : Nat
  /-- the process of the container that is running -/
  owner : Option Tid

@[reducible] def sys : Sys where
  Key := Empty
  Val := nofun
  Note := Note
  Ext := Ext
  ExtRes := ExtRes
  Mem := Unit
  Glob := Machinery
  Call := Call
  Err := Err
  ofStore := fun _ => .other

def orThrow {α : Type} : Except String α → sys.Task α
  | .ok a => .ret a
  | .error code => .fail (.code code)

def fs (op : Op Path StoredFile) : sys.Task op.Ans := do orThrow (← ask (S := sys) (.fs op))
def openReceipt : sys.Task StoredFile := do orThrow (← ask (S := sys) .openReceipt)
def handle : sys.Task Unit := do orThrow (← ask (S := sys) .handle)
def settle : sys.Task Unit := do orThrow (← ask (S := sys) .settle)
def now : sys.Task Nat := ask (S := sys) .now
def delay (since ms : Nat) : sys.Task Unit := ask (S := sys) (.delay since ms)

/-- `if (condition) throw error` -/
def throwIf (condition : Bool) (error : Err) : sys.Task Unit :=
  if condition then .fail error else pure ()

def timeout (attempts : Nat) : Err := .failure ⟨.fetch, .CheckoutFetchTimeout, attempts⟩

/-! ### The receipt -/

def privateParent (create : Bool) : sys.Task Unit := do
  if create then settle
  let ok : Bool ← orThrow (← ask (S := sys) .stat)
  throwIf (!ok) invalid

/-- What an opened receipt is checked for before it is parsed, and its value. -/
def readValue (file : StoredFile) : sys.Task Value := do
  handle
  throwIf (!file.isPrivate) invalid
  handle
  throwIf (decide (2048 < file.bytes)) invalid
  match file.value with
  | some value => pure value
  | none => .fail .other

def readState : sys.Task Receipt := do
  let file ← openReceipt
  let value ← (readValue file).andFinally handle
  let instant ← now
  match receiptOf value with
  | some state => if instant < state.startedAt then .fail invalid else pure state
  | none => .fail invalid

def loadState : sys.Task Receipt := do
  match ← readState.attempt with
  | .ok state => pure state
  | .error error =>
    if error ≠ .code "ENOENT" then .fail invalid
    else do
      let startedAt ← now
      pure ⟨startedAt, startedAt + FETCH_DEADLINE_MS, 0, 0, none⟩

/-- `failure()` -/
def failureOf (state : Receipt) : Err :=
  match state.failure with
  | some (stage, code) => .failure ⟨stage, code, state.attempts⟩
  | none => .failure ⟨.fetch,
      if MAX_FETCH_ATTEMPTS ≤ state.attempts then .CheckoutInitializationFailed
      else .CheckoutFetchTimeout, state.attempts⟩

/-- `state.failure || state.attempts >= MAX_FETCH_ATTEMPTS || now >= state.deadline` -/
def exhausted (state : Receipt) (instant : Nat) : Bool :=
  state.failure.isSome || decide (MAX_FETCH_ATTEMPTS ≤ state.attempts) ||
    decide (state.deadline ≤ instant)

/-- The pause after an attempt. -/
def pauseAfter (attempts : Nat) : Nat := if attempts = 1 then 1000 else 2000

section Programs

variable (size : Receipt → Nat)

/-- The file `save` writes. -/
def fileOf (state : Receipt) : StoredFile :=
  { bytes := size state, value := some state.toValue }

/-- The steps of `save` on the temporary file, once it exists. -/
def writeReceipt (tmp : Path) (state : Receipt) : sys.Task Unit := do
  Prog.andFinally (do fs (.writeFile tmp (fileOf size state)); handle) handle
  fs (.rename tmp .receipt)

def save (state : Receipt) : sys.Task Unit := do
  privateParent false
  let uuid : Nat ← ask (S := sys) .randomUUID
  fs (.openNew (.tmp uuid) {})
  match ← (writeReceipt size (.tmp uuid) state).attempt with
  | .ok _ => pure ()
  | .error error => do
    let _ ← (fs (.unlink (.tmp uuid))).attempt
    .fail error

def checkoutBudget : sys.Task Receipt := do
  match ← (privateParent true).attempt with
  | .error _ => .fail invalid
  | .ok _ => do
    let state ← loadState
    let instant ← now
    if exhausted state instant then .fail (failureOf state)
    else do
      save size state
      pure state

/-! ### Fetching -/

/-! What changes the state of the budget returns the state with its result. -/

/-- `state.attempts++`, and the pause after that attempt -/
def Receipt.reserve (state : Receipt) (instant : Nat) : Receipt :=
  { state with
    attempts := state.attempts + 1
    nextAttemptAt := instant + pauseAfter (state.attempts + 1) }

/-- The pause after a fetch that has ended. -/
def Receipt.postpone (state : Receipt) (instant : Nat) : Receipt :=
  { state with nextAttemptAt := instant + pauseAfter state.attempts }

/-- `if (ms) await delay(ms)` -/
def pause (since ms : Nat) : sys.Task Unit := if ms = 0 then pure () else delay since ms

/-- The steps of `budget.run` from the save of a reserved attempt on. -/
def runReserved (args : List String) (state : Receipt) :
    sys.Task (Receipt × Except Err GitResult) := do
  match ← (save size state).attempt with
  | .error error => pure (state, .error error)
  | .ok _ => do
    let instant ← now
    if state.deadline ≤ instant then pure (state, .error (timeout state.attempts))
    else do
    ask (S := sys) (.launch args (state.deadline - instant) instant)
    let result : GitResult ← ask (S := sys) .fetched
    let instant ← now
    match ← (save size (state.postpone instant)).attempt with
    | .error error => pure (state.postpone instant, .error error)
    | .ok _ => pure (state.postpone instant, .ok result)

/-- `budget.run` -/
def run (args : List String) (state : Receipt) : sys.Task (Receipt × Except Err GitResult) := do
  let instant ← now
  if exhausted state instant then pure (state, .error (failureOf state))
  else do
  let instant ← now
  let backoff := state.nextAttemptAt - instant
  let instant ← now
  if state.deadline ≤ instant + backoff then pure (state, .error (timeout state.attempts))
  else do
  pause instant backoff
  let instant ← now
  if state.deadline ≤ instant then pure (state, .error (timeout state.attempts))
  else do
  let instant : Nat ← ask (S := sys) (.reserve (state.attempts + 1))
  runReserved size args (state.reserve instant)

/-- The attempts of `fetchWithRetry` from one on, at most as many as are given. -/
def attemptsFrom (args : List String) : Nat → Nat → Receipt → sys.Task (Receipt × Except Err Nat)
  | 0, _, state => pure (state, .error (timeout MAX_FETCH_ATTEMPTS))
  | left + 1, attempt, state => do
    let instant ← now
    if state.deadline ≤ instant then pure (state, .error (timeout (attempt - 1)))
    else do
    let (state, result) ← run size args state
    match result with
    | .error error => pure (state, .error error)
    | .ok result =>
      if result.status = some 0 then do
        let instant ← now
        if state.deadline < instant then pure (state, .error (timeout attempt))
        else pure (state, .ok attempt)
      else
        let failure := classifyGitFailure result .fetch attempt
        if !transient failure.code || attempt == MAX_FETCH_ATTEMPTS then
          pure (state, .error (.failure failure))
        else do
          let instant ← now
          if state.deadline ≤ instant + pauseAfter attempt then
            pure (state, .error (timeout attempt))
          else do
            delay instant (pauseAfter attempt)
            attemptsFrom args left (attempt + 1) state

/-- `fetch`: `fetchWithRetry` with the deadline and the attempts of the budget -/
def fetch (args : List String) (state : Receipt) : sys.Task (Receipt × Except Err Nat) :=
  if MAX_FETCH_ATTEMPTS ≤ state.attempts then
    pure (state, .error (.failure ⟨.fetch, .CheckoutInitializationFailed, 0⟩))
  else attemptsFrom size args (MAX_FETCH_ATTEMPTS - state.attempts) (state.attempts + 1) state

/-- Whether a failed fetch is repeated without the reference cache. -/
def cacheFailed (usingCache : Bool) : Err → Bool
  | .failure failure => usingCache && failure.code == .CheckoutCacheInvalid &&
      decide (failure.attempts < MAX_FETCH_ATTEMPTS)
  | _ => false

/-- The fetch with the reference cache, and the one without it. -/
def fetchPhases (args : List String) (usingCache : Bool) (state : Receipt) :
    sys.Task (Receipt × Except Err Nat) := do
  let (state, fetched) ← fetch size args state
  match fetched with
  | .ok attempt => pure (state, .ok attempt)
  | .error error =>
    if !cacheFailed usingCache error then pure (state, .error error)
    else do
      match ← settle.attempt with
      | .error error => pure (state, .error error)
      | .ok _ => fetch size args state

/-! ### Checkout -/

/-- `git(args)`: any other status than 0 is thrown -/
def git (args : List String) (stage : Stage := .checkout) : sys.Task Unit := do
  let result : GitResult ← ask (S := sys) (.git args)
  if result.status = some 0 then pure () else .fail (.failure (classifyGitFailure result stage))

/-- `Number(digits)` of decimal digits -/
def numberOf (digits : String) : Nat :=
  digits.toList.foldl (fun n c => 10 * n + (c.toNat - '0'.toNat)) 0

/-- `/^(0|[1-9][0-9]{0,5})$/.test(depth) && Number(depth) <= 100000` -/
def validDepth (depth : String) : Bool :=
  depth.toList.all Char.isDigit && depth != "" && decide (depth.length ≤ 6) &&
    (depth == "0" || depth.toList.head? != some '0') && decide (numberOf depth ≤ 100000)

/-- `/^[1-9][0-9]*$/` -/
def validPullRequest (pullRequest : String) : Bool :=
  pullRequest.toList.all Char.isDigit && pullRequest != "" &&
    pullRequest.toList.head? != some '0'

/-- `/^[A-Za-z0-9][A-Za-z0-9._/@{}^~+-]*$/` -/
def validRevision (revision : String) : Bool :=
  match revision.toList with
  | [] => false
  | c :: rest => c.isAlphanum &&
      rest.all fun c => c.isAlphanum ||
        ['.', '_', '/', '@', '\x7b', '\x7d', '^', '~', '+', '-'].contains c

def attachReferenceCache : sys.Task Bool := do
  let reference : GitResult ← ask (S := sys) (.git ["rev-parse", "--git-path", "objects"])
  let shallow : GitResult ← ask (S := sys) (.git ["rev-parse", "--is-shallow-repository"])
  if reference.status ≠ some 0 ∨ shallow.status ≠ some 0 ∨ Js.trim shallow.stdout ≠ "false" then
    pure false
  else do
    let directory : Except String Bool ← ask (S := sys) .stat
    if directory = .ok true then do
      settle
      settle
      pure true
    else pure false

def misconfigured : Err := .failure ⟨.prepare, .CheckoutConfigurationInvalid, 0⟩

/-- The remote is the repository, or becomes it. -/
def setRemote (remote : GitResult) (repository : Option String) : sys.Task Unit :=
  if remote.status ≠ some 0 then git ["remote", "add", "origin"] .prepare
  else throwIf (decide (some (Js.trim remote.stdout) ≠ repository)) misconfigured

def fetchArgs (depth revision : String) : List String :=
  ["fetch", "--no-recurse-submodules"] ++
    (if numberOf depth ≠ 0 then ["--depth=" ++ depth] else []) ++ ["--", "origin", revision]

/-- Everything before the first fetch: its arguments and whether the cache is used. -/
def prepare (checkRepository : Option String → Option Bool) (settings : Settings) :
    sys.Task (List String × Bool) := do
  match checkRepository settings.repository with
  | none => .fail .other
  | some valid => do
    throwIf (!valid) misconfigured
    git ["init"] .prepare
    let remote : GitResult ← ask (S := sys) (.git ["config", "--get", "remote.origin.url"])
    setRemote remote settings.repository
    let depth := settings.fetchDepth.getD "1"
    throwIf (!validDepth depth) misconfigured
    let pullRequest := settings.pullRequest.filter (· ≠ "")
    throwIf (pullRequest.any fun number => !validPullRequest number) misconfigured
    let revision := match pullRequest with
      | some number => "refs/pull/" ++ number ++ "/head"
      | none => (settings.revision.filter (· ≠ "")).getD "HEAD"
    throwIf (!validRevision revision) misconfigured
    let usingCache ← attachReferenceCache
    pure (fetchArgs depth revision, usingCache)

def switchBranch : Option String → sys.Task Unit
  | none => pure ()
  | some branch => do
    git ["check-ref-format", "--branch", branch]
    let found : GitResult ←
      ask (S := sys) (.git ["show-ref", "--verify", "--quiet", "refs/heads/" ++ branch])
    git (if found.status = some 0 then ["switch", branch] else ["switch", "-c", branch])

/-- Copy the borrowed objects and forget the cache. -/
def dropCache (usingCache : Bool) : sys.Task Unit :=
  if usingCache then do
    git ["repack", "-a", "-d"]
    settle
  else pure ()

/-- Everything after the last fetch. -/
def finish (settings : Settings) (usingCache : Bool) : sys.Task Unit := do
  git ["checkout", "--detach", "FETCH_HEAD"]
  switchBranch (settings.branch.filter (· ≠ ""))
  dropCache usingCache
  fs (.overwrite .readyTmp {})
  fs (.rename .readyTmp .ready)

/-- The `try` block of the initializer. -/
def checkout (checkRepository : Option String → Option Bool) (settings : Settings)
    (state : Receipt) : sys.Task (Receipt × Except Err Unit) := do
  match ← (prepare checkRepository settings).attempt with
  | .error error => pure (state, .error error)
  | .ok (args, usingCache) => do
    let (state, fetched) ← fetchPhases size args usingCache state
    match fetched with
    | .error error => pure (state, .error error)
    | .ok _ => do
      let finished ← (finish settings usingCache).attempt
      pure (state, finished)

/-- What runs while the workspace has no ready marker. -/
def checkoutWithin (checkRepository : Option String → Option Bool) (settings : Settings) :
    sys.Task Unit := do
  let state ← checkoutBudget size
  let (state, done) ← checkout size checkRepository settings state
  match done with
  | .ok _ => pure ()
  | .error error => do
    let failure := { safeFailure error with attempts := state.attempts }
    -- `budget.fail`
    save size { state with failure := some (failure.stage, failure.code) }
    .fail (.failure failure)

/-- The checkout, unless the ready marker is there. -/
def ensureCheckout (checkRepository : Option String → Option Bool) (settings : Settings) :
    sys.Task Unit := do
  match ← (fs (.readFile .ready)).attempt with
  | .ok _ => pure ()
  | .error error =>
    if error ≠ .code "ENOENT" then .fail error
    else checkoutWithin size checkRepository settings

def initializeInternal (checkRepository : Option String → Option Bool) (settings : Settings) :
    sys.Task Unit := do
  settle
  settle
  settle
  ensureCheckout size checkRepository settings
  settle
  settle

/-- One process of the container. -/
def container (checkRepository : Option String → Option Bool) (settings : Settings) :
    sys.Task Unit := do
  ask (S := sys) .enter
  let result ← (initializeInternal size checkRepository settings).attempt
  ask (S := sys) .exit
  match result with
  | .ok _ => pure ()
  | .error error => .fail (.failure (safeFailure error))

end Programs

/-! ### The container and its volume -/

/-- The effects on the volume, newest first. -/
def files : Trace sys.Key sys.Val sys.Note → List (Effect Path StoredFile)
  | [] => []
  | .note _ (.file effect) :: older => effect :: files older
  | _ :: older => files older

/-- A timer may end this long before the clock has advanced by its delay. -/
def TIMER_EARLY_MS : Nat := 1

/-- What the environment decides about one request. -/
structure Choice where
  fate : Fate StoredFile := {}
  /-- the directory is private, or the objects directory exists -/
  ok : Bool := true
  uuid : Nat := 0
  result : GitResult := ⟨some 0, "", "", none⟩

def settled {α : Type} (fate : Fate StoredFile) (a : α) : Except String α :=
  match fate.error with
  | none => .ok a
  | some code => .error code

/-- The answer to a request of the running process. -/
def serveOwner (choice : Choice) (x : sys.Ext) (w : World sys) : Option (Answer sys x) :=
  match x with
  | .enter => none
  | .exit => some { res := (), mem := (), glob := { w.glob with owner := none } }
  | .fs op => (serve choice.fate (files w.trace) op).map fun r =>
      { res := r.1, notes := r.2.map .file, mem := (), glob := w.glob }
  | .openReceipt => (serve choice.fate (files w.trace) (.readFile .receipt)).map fun r =>
      { res := r.1, notes := (r.1.toOption.map Note.opened).toList, mem := (), glob := w.glob }
  | .handle =>
      if choice.fate.error = some "ENOENT" then none
      else some { res := settled choice.fate (), mem := (), glob := w.glob }
  | .settle => some { res := settled choice.fate (), mem := (), glob := w.glob }
  | .stat => some { res := settled choice.fate choice.ok, mem := (), glob := w.glob }
  | .now => some { res := w.glob.clock, notes := [.clock w.glob.clock], mem := (), glob := w.glob }
  | .randomUUID => some { res := choice.uuid, mem := (), glob := w.glob }
  | .reserve attempt =>
      some { res := w.glob.clock,
             notes := [.reserved attempt w.glob.clock, .clock w.glob.clock],
             mem := (), glob := w.glob }
  | .delay since ms =>
      if since + ms ≤ w.glob.clock + TIMER_EARLY_MS then
        some { res := (), notes := [.clock w.glob.clock], mem := (), glob := w.glob }
      else none
  | .git _ => some { res := choice.result, mem := (), glob := w.glob }
  | .launch _ _ instant =>
      some { res := (), notes := [.launched instant], mem := (), glob := w.glob }
  | .fetched => some { res := choice.result, mem := (), glob := w.glob }

/-- A process waits until no other is running; from then on its requests are answered. -/
def answer (choice : Choice) (t : Tid) (x : sys.Ext) (w : World sys) : Option (Answer sys x) :=
  match x, w.glob.owner with
  | .enter, none => some { res := (), mem := (), glob := { w.glob with owner := some t } }
  | x, some owner => if owner = t then serveOwner choice x w else none
  | _, none => none

/-- What is on the volume when the first process starts. -/
structure Initial where
  receipt : Option StoredFile := none
  ready : Bool := false

def Initial.effects (initial : Initial) : List (Effect Path StoredFile) :=
  (initial.receipt.map (Effect.put .receipt)).toList ++
    if initial.ready then [.put .ready {}] else []

/-- The environment moves the clock on. -/
@[reducible] def machine (size : Receipt → Nat) (checkRepository : Option String → Option Bool)
    (initial : Initial) : Machine sys where
  Out := Unit
  Choice := Choice
  Env := Nat
  program := fun _ call => match call with
    | .container settings => container size checkRepository settings
  answer := answer
  entry := fun _ _ _ => true
  freshMem := ()
  afterCrash := fun p glob =>
    { glob with owner := glob.owner.filter fun t => decide (t.proc ≠ p) }
  env := fun ms w =>
    if w.glob.clock + ms ≤ MAX_TIME then
      some ([], { w.glob with clock := w.glob.clock + ms })
    else none
  env_author := by
    intro e w new g h x hx
    by_cases hms : w.glob.clock + e ≤ MAX_TIME
    · rw [if_pos hms] at h
      cases h
      cases hx
    · rw [if_neg hms] at h
      cases h
  init := { trace := initial.effects.map fun effect => .note none (.file effect),
            mem := fun _ => (), glob := ⟨1, none⟩, next := 0, calls := fun _ => none }
  init_next := rfl
  init_calls := fun _ => rfl
  init_author := by
    intro e he
    obtain ⟨effect, -, rfl⟩ := List.mem_map.mp he
    rfl

end PaseoGateway.Checkout

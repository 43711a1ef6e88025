/-
  PaseoGateway/CheckoutFailure.lean
  =================================
  **Checkout failures and the receipt of the fetch budget.**

  Mirrors `src/docker/checkout-failure.mjs` and the part of
  `src/docker/checkout-budget.mjs` that decides which receipt is accepted.

  A receipt is judged on the value `JSON.parse` gives; a number is kept exactly, so
  that a fraction is seen to be one.
-/
import PaseoGateway.Volume

namespace PaseoGateway.Checkout

def FETCH_DEADLINE_MS : Nat := 150000
def MAX_FETCH_ATTEMPTS : Nat := 3
def MAX_SAFE_INTEGER : Nat := 9007199254740991

/-! ### Failures -/

inductive Stage where
  | prepare
  | fetch
  | checkout
deriving DecidableEq, Repr

inductive Code where
  | CheckoutInitializationFailed
  | CheckoutConfigurationInvalid
  | CheckoutFetchTimeout
  | CheckoutDnsUnavailable
  | CheckoutAuthenticationFailed
  | CheckoutRevisionUnavailable
  | CheckoutLocalStorageFailed
  | CheckoutNetworkUnavailable
  | CheckoutCacheInvalid
deriving DecidableEq, Repr

structure CheckoutFailure where
  stage : Stage
  code : Code
  attempts : Nat := 0
deriving DecidableEq, Repr

/-- What the initializer throws: a checkout failure, an error of the system by its
    code, or any other error. -/
inductive Err where
  | failure (failure : CheckoutFailure)
  | code (code : String)
  | other
deriving DecidableEq, Repr

def stages : List (String × Stage) :=
  [("prepare", .prepare), ("fetch", .fetch), ("checkout", .checkout)]

def codes : List (String × Code) :=
  [("CheckoutInitializationFailed", .CheckoutInitializationFailed),
    ("CheckoutConfigurationInvalid", .CheckoutConfigurationInvalid),
    ("CheckoutFetchTimeout", .CheckoutFetchTimeout),
    ("CheckoutDnsUnavailable", .CheckoutDnsUnavailable),
    ("CheckoutAuthenticationFailed", .CheckoutAuthenticationFailed),
    ("CheckoutRevisionUnavailable", .CheckoutRevisionUnavailable),
    ("CheckoutLocalStorageFailed", .CheckoutLocalStorageFailed),
    ("CheckoutNetworkUnavailable", .CheckoutNetworkUnavailable),
    ("CheckoutCacheInvalid", .CheckoutCacheInvalid)]

def Stage.name : Stage → String
  | .prepare => "prepare"
  | .fetch => "fetch"
  | .checkout => "checkout"

def Code.name : Code → String
  | .CheckoutInitializationFailed => "CheckoutInitializationFailed"
  | .CheckoutConfigurationInvalid => "CheckoutConfigurationInvalid"
  | .CheckoutFetchTimeout => "CheckoutFetchTimeout"
  | .CheckoutDnsUnavailable => "CheckoutDnsUnavailable"
  | .CheckoutAuthenticationFailed => "CheckoutAuthenticationFailed"
  | .CheckoutRevisionUnavailable => "CheckoutRevisionUnavailable"
  | .CheckoutLocalStorageFailed => "CheckoutLocalStorageFailed"
  | .CheckoutNetworkUnavailable => "CheckoutNetworkUnavailable"
  | .CheckoutCacheInvalid => "CheckoutCacheInvalid"

@[simp] theorem lookup_stage (stage : Stage) : stages.lookup stage.name = some stage := by
  cases stage <;> decide

@[simp] theorem lookup_code (code : Code) : codes.lookup code.name = some code := by
  cases code <;> decide

/-- `invalid()` -/
def invalid : Err := .failure ⟨.prepare, .CheckoutInitializationFailed, 0⟩

/-! ### Classifying what Git said -/

structure GitResult where
  /-- the exit status; a killed process has none -/
  status : Option Int
  stdout : String := ""
  stderr : String := ""
  /-- `error.code` -/
  error : Option String := none
deriving DecidableEq, Repr

/-- The text from here on begins with the pattern, in which `?` stands for one
    character of a line and `*` for any number of them. -/
def matchesHere : List Char → List Char → Bool
  | [], _ => true
  | '*' :: rest, text =>
    (text.takeWhile (· ≠ '\n')).tails.any fun tail =>
      matchesHere rest (tail ++ text.dropWhile (· ≠ '\n'))
  | '?' :: rest, c :: text => c ≠ '\n' && matchesHere rest text
  | p :: rest, c :: text => p.toLower == c.toLower && matchesHere rest text
  | _ :: _, [] => false

/-- `/…|…/i.test(text)` -/
def mentions (patterns : List String) (text : String) : Bool :=
  patterns.any fun pattern => text.toList.tails.any (matchesHere pattern.toList)

def gitFailureCode (result : GitResult) : Code :=
  if result.error = some "ETIMEDOUT" ∨
      mentions ["operation timed out", "connection timed out"] result.stderr then
    .CheckoutFetchTimeout
  else if mentions ["could not resolve host", "could not resolve hostname",
      "temporary failure in name resolution", "name or service not known", "no such host"]
      result.stderr then
    .CheckoutDnsUnavailable
  else if mentions ["authentication failed", "http 401", "http 403",
      "permission denied (publickey)", "could not read username", "access denied"]
      result.stderr then
    .CheckoutAuthenticationFailed
  else if mentions ["couldn?t find remote ref", "not our ref", "remote branch * not found",
      "invalid refspec", "invalid reference"] result.stderr then
    .CheckoutRevisionUnavailable
  else if result.error.any (["ENOSPC", "EROFS", "EACCES", "EPERM"].contains ·) ∨
      mentions ["no space left on device", "read-only file system", "unable to create *.lock",
        "could not write"] result.stderr then
    .CheckoutLocalStorageFailed
  else if mentions ["network is unreachable", "connection refused", "connection reset",
      "failed to connect"] result.stderr then
    .CheckoutNetworkUnavailable
  else if mentions ["bad object", "missing object", "unable to read object",
      "object directory * does not exist", "unable to normalize alternate object path",
      "alternates*invalid", "alternates*missing"] result.stderr then
    .CheckoutCacheInvalid
  else .CheckoutInitializationFailed

def classifyGitFailure (result : GitResult) (stage : Stage) (attempts : Nat := 1) :
    CheckoutFailure :=
  ⟨stage, gitFailureCode result, attempts⟩

/-- The failures `fetchWithRetry` tries again after. -/
def transient : Code → Bool
  | .CheckoutDnsUnavailable | .CheckoutNetworkUnavailable | .CheckoutFetchTimeout => true
  | _ => false

def safeFailure : Err → CheckoutFailure
  | .failure failure => failure
  | .code code =>
    ⟨.prepare, if ["ENOSPC", "EROFS", "EACCES", "EPERM"].contains code then
        .CheckoutLocalStorageFailed else .CheckoutInitializationFailed, 0⟩
  | .other => ⟨.prepare, .CheckoutInitializationFailed, 0⟩

/-! ### Receipts -/

/-- A parsed JSON value. -/
inductive Value where
  | null
  | bool (b : Bool)
  | number (q : Rat)
  | string (s : String)
  | array (items : List Value)
  | object (fields : List (String × Value))

namespace Value

def field (key : String) : Value → Option Value
  | .object fields => fields.lookup key
  | _ => none

/-- `Number.isInteger` -/
def integer : Value → Option Int
  | .number q => if q.den = 1 then some q.num else none
  | _ => none

/-- `Number.isSafeInteger` -/
def safeInteger (v : Value) : Option Int :=
  v.integer.filter fun n => decide (n.natAbs ≤ MAX_SAFE_INTEGER)

def text : Value → Option String
  | .string s => some s
  | _ => none

end Value

structure Receipt where
  startedAt : Nat
  deadline : Nat
  attempts : Nat
  nextAttemptAt : Nat
  failure : Option (Stage × Code) := none
deriving DecidableEq, Repr

/-- A file of the receipt's directory: what `stat` says of it, its length in bytes
    and the JSON value of its text. -/
structure StoredFile where
  regular : Bool := true
  owned : Bool := true
  links : Nat := 1
  mode : Nat := 0o600
  bytes : Nat := 0
  value : Option Value := none

/-- A regular file of this user with one name, which nobody else may use. -/
def StoredFile.isPrivate (file : StoredFile) : Bool :=
  file.regular && file.owned && file.links == 1 && file.mode &&& 0o077 == 0

/-- The failure a receipt latches; `none` where there is something else. -/
def latchedOf : Option Value → Option (Option (Stage × Code))
  | none => some none
  | some failure => do
    let code ← (← (failure.field "code").bind Value.text) |> codes.lookup
    let stage ← (← (failure.field "stage").bind Value.text) |> stages.lookup
    return some (stage, code)

/-- The state a value describes, when it passes every check that needs no clock. -/
def receiptOf (v : Value) : Option Receipt := do
  let version ← (v.field "version").bind Value.integer
  let startedAt ← (v.field "startedAt").bind Value.safeInteger
  let deadline ← (v.field "deadline").bind Value.safeInteger
  let attempts ← (v.field "attempts").bind Value.integer
  let nextAttemptAt ← (v.field "nextAttemptAt").bind Value.safeInteger
  let failure ← latchedOf (v.field "failure")
  if version = 1 ∧ 0 < startedAt ∧ deadline = startedAt + FETCH_DEADLINE_MS ∧
      0 ≤ attempts ∧ attempts ≤ MAX_FETCH_ATTEMPTS ∧ 0 ≤ nextAttemptAt then
    some ⟨startedAt.toNat, deadline.toNat, attempts.toNat, nextAttemptAt.toNat, failure⟩
  else none

/-- `JSON.stringify(state)`, as a value -/
def Receipt.toValue (state : Receipt) : Value :=
  .object ([("version", .number 1), ("startedAt", .number state.startedAt),
      ("deadline", .number state.deadline), ("attempts", .number state.attempts),
      ("nextAttemptAt", .number state.nextAttemptAt)] ++
    match state.failure with
    | none => []
    | some (stage, code) =>
      [("failure", .object [("stage", .string stage.name), ("code", .string code.name)])])

end PaseoGateway.Checkout

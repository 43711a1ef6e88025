/-
  PaseoGateway/GitHubAppBroker.lean
  =================================
  **The GitHub App broker.**

  Mirrors `src/src/credentials/github-app.ts`, with the Secret half of
  `src/src/kubernetes/client.ts` and the checks of `src/src/credentials/schema.ts`
  on `git.githubApp`.

  What the JavaScript runtime computes (SHA-256 of JSON, base64, `Date.parse`, lower
  case, signing a JWT with a private key) is a parameter; nothing is assumed of it.
  The environment keeps the clock, changes the configuration of profiles, answers
  the requests to GitHub and edits Secrets of its own.  A Secret it writes carries no
  annotation of the broker, and no two random UUIDs are the same.
-/
import PaseoGateway.AsyncPool
import PaseoGateway.CodexSubscription
import PaseoGateway.IsoInstant
import PaseoGateway.JsString
import PaseoGateway.Json

namespace PaseoGateway.GitHubAppBroker

open Async
open CodexSubscription (KeyReference)

/-! ### Profiles and Secrets -/

structure GitHubApp where
  appId : Nat
  installationId : Nat
  privateKeySecretRef : KeyReference
  outputSecretName : String
  repositories : List String
deriving DecidableEq, Repr

/-- A credential profile, with the checks of its schema that read no field below. -/
structure CredentialProfile where
  name : String
  profileNamespace : String
  uid : Option String
  githubApp : Option GitHubApp
  otherwiseValid : Bool := true
deriving DecidableEq, Repr

/-- What the JavaScript runtime provides. -/
structure Runtime where
  /-- `createHash("sha256").update(JSON.stringify(app)).digest("hex")` -/
  fingerprint : GitHubApp → String
  toBase64 : String → String
  dateParse : String → Option Int
  toLowerCase : String → String
  /-- the JWT of an App at an instant, when the value is an RSA private key -/
  signJwt : String → Nat → Int → Option String

/-- The annotations the broker keeps on an output Secret.  The count of failures is
    stored as its decimal text. -/
structure Annotations where
  profile : Option String := none
  configuration : Option String := none
  lockId : Option String := none
  lockUntil : Option String := none
  expiresAt : Option String := none
  failures : Option Nat := none
  error : Option String := none
  nextAttempt : Option String := none
deriving DecidableEq, Repr

structure Secret where
  annotations : Annotations := {}
  data : List (String × String) := []
deriving DecidableEq, Repr

def RENEW_EARLY_MS : Int := 300000
def LOCK_MS : Int := 60000

inductive State where
  | Ready
  | Renewed
  | Busy
  | Backoff
  | Failed
deriving DecidableEq, Repr

structure BrokerStatus where
  profileName : String
  state : State
  reason : String
  nextAttempt : Option String := none
deriving DecidableEq, Repr

def identityOf (profile : CredentialProfile) : String :=
  profile.profileNamespace ++ "/" ++ profile.name ++ "/" ++ profile.uid.getD ""

/-! ### What the runtime is asked -/

section Runtime

variable (rt : Runtime)

/-- `repo.split("/")[0]` -/
def repoOwner (repo : String) : String := String.ofList (repo.toList.takeWhile (· ≠ '/'))

/-- `repo.split("/")[1]`, of a repository that has a slash -/
def repoName (repo : String) : String :=
  String.ofList (((repo.toList.dropWhile (· ≠ '/')).drop 1).takeWhile (· ≠ '/'))

/-- The checks of the profile schema on `git.githubApp`. -/
def profileValid (profile : CredentialProfile) : Bool :=
  profile.otherwiseValid && profile.githubApp.all fun app =>
    app.outputSecretName != app.privateKeySecretRef.name &&
      (app.repositories.map rt.toLowerCase).dedup.length == app.repositories.length &&
      (app.repositories.map fun repo => rt.toLowerCase (repoOwner repo)).dedup.length == 1

/-- `Date.parse(text ?? "") > at`; an invalid date compares false. -/
def laterThan (text : Option String) (instant : Int) : Bool :=
  (rt.dateParse (text.getD "")).any fun date => decide (instant < date)

/-- `Date.parse(text ?? "") <= at` -/
def notAfter (text : Option String) (instant : Int) : Bool :=
  (rt.dateParse (text.getD "")).any fun date => decide (date ≤ instant)

/-- What is asked of GitHub for a configuration. -/
structure MintRequest where
  installationId : Nat
  jwt : String
  repositories : List String
deriving DecidableEq, Repr

/-- The repositories are named without their owner. -/
def mintRequest (app : GitHubApp) (jwt : String) : MintRequest where
  installationId := app.installationId
  jwt := jwt
  repositories := app.repositories.map repoName

/-- The answer of GitHub; a body that is no JSON is none. -/
structure Response where
  ok : Bool
  status : Nat
  body : Option Json

/-- The repository is one of the configuration. -/
def inScope (app : GitHubApp) (repo : Json) : Bool :=
  match repo.field? "full_name" with
  | some (.str name) =>
    (app.repositories.map rt.toLowerCase).contains (rt.toLowerCase name)
  | _ => false

/-- The token and expiry of a response body, or why it is refused. -/
def acceptToken (app : GitHubApp) (instant : Int) (body : Json) :
    Except String (String × String) :=
  match body.field? "token", body.field? "expires_at" with
  | some (.str token), some (.str expiresAt) =>
    if token = "" ∨ 16384 < Js.length token ∨ token.toList.any Js.isSpace ∨
        (rt.dateParse expiresAt).isNone ∨ notAfter rt (some expiresAt) (instant + RENEW_EARLY_MS) then
      .error "InvalidGitHubResponse"
    else match body.field? "repositories" with
      | some (.arr repositories) =>
        if repositories.isEmpty || repositories.any (fun repo => !inScope rt app repo) then
          .error "RepositoryScopeMismatch"
        else .ok (token, expiresAt)
      | _ => .error "RepositoryScopeMismatch"
  | _, _ => .error "InvalidGitHubResponse"

end Runtime

/-! ### The Secrets that are written -/

section Secrets

variable (rt : Runtime)

/-- A Secret under a lock.  An empty key is kept when the scope changes: removing a
    projected key would make the kubelet retain the previous contents. -/
def claimedSecret (current : Option Secret) (identity fingerprint lockId lockUntil : String) :
    Secret where
  annotations := { (current.map Secret.annotations).getD {} with
    profile := some identity
    configuration := some fingerprint
    lockId := some lockId
    lockUntil := some lockUntil }
  data := match current with
    | none => []
    | some secret =>
      if secret.annotations.configuration = some fingerprint then secret.data else [("token", "")]

def renewedSecret (latest : Secret) (token expiry : String) : Secret where
  annotations := { latest.annotations with
    lockId := none
    lockUntil := none
    expiresAt := some expiry
    failures := none
    error := none
    nextAttempt := none }
  data := [("token", rt.toBase64 token)]

def failuresOf (latest : Secret) : Nat := min 10 (latest.annotations.failures.getD 0 + 1)

/-- How long to wait after a failure, in milliseconds. -/
def backoff (failures : Nat) : Int := min 300000 (5000 * 2 ^ (failures - 1))

def failedSecret (latest : Secret) (failure : String) (instant : Int) : Secret :=
  { latest with annotations := { latest.annotations with
      lockId := none
      lockUntil := none
      failures := some (failuresOf latest)
      error := some failure
      nextAttempt := some (Iso.toISOString (instant + backoff (failuresOf latest))) } }

end Secrets

/-! ### The system -/

inductive Key where
  | secret (name : String)
deriving DecidableEq

/-- What happens outside the store. -/
inductive Note where
  | uuid (value : String)
  /-- the request was answered, with this body where the answer is accepted and has one -/
  | answered (request : MintRequest) (body : Option Json)
  | clock (instant : Int)
  /-- the configuration of a profile from now on -/
  | configured (identity : String) (app : GitHubApp)

inductive Err where
  | store (e : StoreErr)
  | broker (reason : String)
  | request
  | invalid
deriving DecidableEq, Repr

inductive Ext where
  | now
  | randomUUID
  | request (request : MintRequest)
  | beginRenew (profile : CredentialProfile)
  | awaitRenew (task : Tid)
  | settle (task : Tid) (result : Except Err BrokerStatus)

def Ext.Res : Ext → Type
  | .now => Int
  | .randomUUID => String
  | .request _ => Except Err Response
  | .beginRenew _ => Tid
  | .awaitRenew _ => Except Err BrokerStatus
  | .settle _ _ => Unit

inductive Call where
  | reconcile (profiles : List CredentialProfile)
  | renew (profile : CredentialProfile)

/-- The promises of `renew` calls that have settled. -/
structure Mem where
  settled : List (Tid × Except Err BrokerStatus) := []

@[reducible] def sys : Sys where
  Key := Key
  Val := fun _ => Secret
  Note := Note
  Ext := Ext
  ExtRes := Ext.Res
  Mem := Mem
  Glob := Unit
  Call := Call
  Err := Err
  ofStore := .store

/-! ### The Secret store -/

def readSecret (name : String) : sys.Task (Option (Nat × Secret)) :=
  await (S := sys) (.get (.secret name))

def swapRequest (name : String) (expected : Option Nat) (secret : Secret) : sys.Task Nat :=
  match expected with
  | some version => await (S := sys) (.update (.secret name) version secret)
  | none => await (S := sys) (.create (.secret name) secret)

/-- A conflict is `false`, any other refusal is thrown. -/
def compareAndSwapSecret (name : String) (expected : Option Nat) (secret : Secret) :
    sys.Task Bool := do
  match ← (swapRequest name expected secret).attempt with
  | .ok _ => .ret true
  | .error e => if e = .store .conflict then .ret false else .fail e

/-! ### The broker -/

section Broker

variable (rt : Runtime)

/-- The lock is another one, or has run out. -/
def lockLost (secret : Option Secret) (lockId : String) (instant : Int) : Bool :=
  match secret with
  | none => true
  | some s => s.annotations.lockId != some lockId || notAfter rt s.annotations.lockUntil instant

/-- From the private key to an accepted token. -/
def mintToken (app : GitHubApp) (instant : Int) (lockId : String) :
    sys.Task (String × String) := do
  let keySecret ← readSecret app.privateKeySecretRef.name
  let encoded := (keySecret.bind fun p => p.2.data.lookup app.privateKeySecretRef.key).getD ""
  if encoded = "" then .fail (.broker "PrivateKeyUnavailable")
  else match rt.signJwt encoded app.appId instant with
    | none => .fail (.broker "PrivateKeyInvalid")
    | some jwt => do
      let lease ← readSecret app.outputSecretName
      let beforeRequest : Int ← ask (S := sys) .now
      if lockLost rt (lease.map Prod.snd) lockId (beforeRequest + 15000) then
        .fail (.broker "RenewalLeaseLost")
      else do
        let response : Response ← askOr (S := sys) (.request (mintRequest app jwt)) rfl
        if ¬ response.ok then .fail (.broker ("GitHubHTTP" ++ toString response.status))
        else match response.body with
          | none => .fail .request
          | some body => do
            let afterRequest : Int ← ask (S := sys) .now
            match acceptToken rt app afterRequest body with
            | .error reason => .fail (.broker reason)
            | .ok minted => .ret minted

/-- The reason stored for whatever was thrown. -/
def failureOf : Err → String
  | .broker reason => reason
  | _ => "RenewalRequestFailed"

/-- Write the outcome over the Secret, if it is still under the lock. -/
def commit (status : State → String → Option String → BrokerStatus) (app : GitHubApp)
    (lockId : String) (result : Except Err (String × String)) : sys.Task BrokerStatus := do
  match ← readSecret app.outputSecretName with
  | none => .ret (status .Busy "RenewalLeaseLost" none)
  | some (version, latest) => do
    let instant : Int ← ask (S := sys) .now
    if lockLost rt (some latest) lockId instant then
      .ret (status .Busy "RenewalLeaseLost" none)
    else match result with
      | .ok (token, expiry) => do
        let swap ← compareAndSwapSecret app.outputSecretName (some version)
          (renewedSecret rt latest token expiry)
        if ¬ swap then .ret (status .Busy "RenewalConflict" none)
        else .ret (status .Renewed "TokenRenewed"
          ((rt.dateParse expiry).map fun date => Iso.toISOString (date - RENEW_EARLY_MS)))
      | .error e => do
        let later : Int ← ask (S := sys) .now
        let updated := failedSecret latest (failureOf e) later
        let swap ← compareAndSwapSecret app.outputSecretName (some version) updated
        if ¬ swap then .ret (status .Busy "RenewalConflict" none)
        else .ret (status .Backoff (failureOf e) updated.annotations.nextAttempt)

/-- Take the lock, mint, and write the outcome. -/
def claimAndRenew (ownerId : String)
    (status : State → String → Option String → BrokerStatus) (identity : String)
    (app : GitHubApp) (instant : Int) (current : Option (Nat × Secret)) :
    sys.Task BrokerStatus := do
  let uuid : String ← ask (S := sys) .randomUUID
  let lockId := ownerId ++ "/" ++ uuid
  let swap ← compareAndSwapSecret app.outputSecretName (current.map Prod.fst)
    (claimedSecret (current.map Prod.snd) identity (rt.fingerprint app) lockId
      (Iso.toISOString (instant + LOCK_MS)))
  if ¬ swap then .ret (status .Busy "RenewalConflict" none)
  else do
    let result ← (mintToken rt app instant lockId).attempt
    commit rt status app lockId result

/-- Why there is nothing to renew now. -/
def upToDate (fingerprint : String) (instant : Int) (secret : Secret) :
    Option (State × String × Option String) :=
  let annotations := secret.annotations
  let nextAttempt := annotations.nextAttempt.getD ""
  if annotations.configuration ≠ some fingerprint then none
  else if (secret.data.lookup "token").getD "" ≠ "" ∧
      laterThan rt annotations.expiresAt (instant + RENEW_EARLY_MS) then
    some (.Ready, "TokenCurrent", (rt.dateParse (annotations.expiresAt.getD "")).map fun date =>
      Iso.toISOString (date - RENEW_EARLY_MS))
  else if nextAttempt ≠ "" ∧ laterThan rt annotations.nextAttempt instant then
    some (.Backoff, annotations.error.getD "RenewalBackoff", annotations.nextAttempt)
  else none

def renew (ownerId : String) (profile : CredentialProfile) : sys.Task BrokerStatus :=
  match profile.githubApp with
  | none => .fail .invalid
  | some app => do
    let status := fun state reason nextAttempt =>
      BrokerStatus.mk profile.name state reason nextAttempt
    let identity := identityOf profile
    let instant : Int ← ask (S := sys) .now
    let current ← readSecret app.outputSecretName
    -- an operator's Secret, such as an App private key, is neither adopted nor overwritten
    if current.any fun p => p.2.annotations.profile != some identity then
      .ret (status .Failed "OutputSecretAlreadyOwned" none)
    else if current.any fun p => laterThan rt p.2.annotations.lockUntil instant then
      .ret (status .Busy "RenewalInProgress" none)
    else match current.bind fun p => upToDate rt (rt.fingerprint app) instant p.2 with
      | some (state, reason, nextAttempt) => .ret (status state reason nextAttempt)
      | none => claimAndRenew rt ownerId status identity app instant current

end Broker

def unavailable (profile : CredentialProfile) : BrokerStatus :=
  { profileName := profile.name, state := .Failed, reason := "BrokerUnavailable" }

def reconcile (rt : Runtime) : List CredentialProfile → sys.Task (List BrokerStatus)
  | [] => .ret []
  | input :: rest =>
    if input.githubApp.isNone then reconcile rt rest
    else if ¬ profileValid rt input then do
      let statuses ← reconcile rt rest
      .ret (unavailable input :: statuses)
    else do
      let task : Tid ← ask (S := sys) (.beginRenew input)
      let result : Except Err BrokerStatus ← ask (S := sys) (.awaitRenew task)
      let statuses ← reconcile rt rest
      match result with
      | .ok status => .ret (status :: statuses)
      | .error _ => .ret (unavailable input :: statuses)

/-! ### The machine -/

inductive Out where
  | statuses (statuses : List BrokerStatus)
  | settled

def program (rt : Runtime) (ownerId : Nat → String) (t : Tid) : Call → sys.Task Out
  | .reconcile profiles => do
    let statuses ← reconcile rt profiles
    .ret (.statuses statuses)
  | .renew profile => do
    let result ← (renew rt (ownerId t.proc) profile).attempt
    ask (S := sys) (.settle t result)
    .ret .settled

abbrev History := Trace Key (fun _ => Secret) Note

/-- The last reading of the clock. -/
def clockOf : History → Int
  | [] => 0
  | .note _ (.clock instant) :: _ => instant
  | _ :: older => clockOf older

/-- The configuration a profile has. -/
def configurationOf (identity : String) : History → Option GitHubApp
  | [] => none
  | .note _ (.configured other app) :: older =>
    if other = identity then some app else configurationOf identity older
  | _ :: older => configurationOf identity older

def isDrawn (uuid : String) : Entry Key (fun _ => Secret) Note → Bool
  | .note _ (.uuid value) => value == uuid
  | _ => false

/-- A random UUID has 36 characters and was never drawn before. -/
def freshUuid (tr : History) (uuid : String) : Bool :=
  uuid.length == 36 && tr.all fun e => !isDrawn uuid e

/-- What the environment decides about one request. -/
structure Choice where
  uuid : String := ""
  response : Except Err Response := .error .request

def answer (c : Choice) (t : Tid) (x : Ext) (w : World sys) : Option (Answer sys x) :=
  let mem : Mem := w.mem t.proc
  match x with
  | .now => some { res := clockOf w.trace, mem, glob := () }
  | .randomUUID =>
    if freshUuid w.trace c.uuid then
      some { res := c.uuid, notes := [.uuid c.uuid], mem, glob := () }
    else none
  | .request request =>
    some { res := c.response, mem, glob := (), notes := match c.response with
      | .ok response => [.answered request (if response.ok then response.body else none)]
      | .error _ => [.answered request none] }
  | .beginRenew profile =>
    some { res := (⟨t.proc, w.next⟩ : Tid), mem, glob := (), forks := [.renew profile] }
  | .awaitRenew task => (mem.settled.lookup task).map fun result =>
      { res := result, mem, glob := () }
  | .settle task result =>
    some { res := (), mem := { settled := (task, result) :: mem.settled }, glob := () }

/-- What the environment does on its own. -/
inductive Env where
  | clock (instant : Int)
  | configure (identity : String) (app : GitHubApp)
  | write (name : String) (data : List (String × String))
  | delete (name : String)

def env (e : Env) (w : World sys) : Option (History × Unit) :=
  match e with
  | .clock instant =>
    if clockOf w.trace ≤ instant then some ([.note none (.clock instant)], ()) else none
  | .configure identity app => some ([.note none (.configured identity app)], ())
  | .write name data =>
    match lookup (.secret name) w.trace with
    | none => some ([.create none (.secret name) { data }], ())
    | some _ => some ([.update none (.secret name) { data }], ())
  | .delete name =>
    match lookup (.secret name) w.trace with
    | none => none
    | some _ => some ([.delete none (.secret name)], ())

def isConfigured (identity : String) (app : GitHubApp) :
    Entry Key (fun _ => Secret) Note → Bool
  | .note _ (.configured identity' app') => identity' == identity && app' == app
  | _ => false

/-- Any number of brokers.  A pass is given profiles as they once were. -/
def machine (rt : Runtime) (ownerId : Nat → String) : Machine sys where
  Out := Out
  Choice := Choice
  Env := Env
  program := program rt ownerId
  answer := answer
  entry := fun _ call w => match call with
    | .reconcile profiles => profiles.all fun profile => profile.githubApp.all fun app =>
        w.trace.any (isConfigured (identityOf profile) app)
    | .renew _ => false
  freshMem := {}
  afterCrash := fun _ g => g
  env := env
  env_author := by
    intro e w new g h x hx
    cases e <;> simp only [env] at h
    case configure =>
      cases h
      obtain rfl := List.mem_singleton.mp hx
      rfl
    all_goals split at h
    all_goals cases h
    all_goals
      obtain rfl := List.mem_singleton.mp hx
      rfl
  init := { trace := [], mem := fun _ => {}, glob := (), next := 0, calls := fun _ => none }
  init_next := rfl
  init_calls := fun _ => rfl

end PaseoGateway.GitHubAppBroker

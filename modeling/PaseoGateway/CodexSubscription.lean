/-
  PaseoGateway/CodexSubscription.lean
  ===================================
  **The Codex subscription broker.**

  Mirrors `src/src/credentials/codex-subscription.ts`, with the Secret half of
  `src/src/kubernetes/client.ts` and the parts of
  `src/src/credentials/schema.ts` and `codex-native.ts` it checks against.

  What the JavaScript runtime computes (base64, JSON, SHA-256, `Date.parse`, the
  `datetime` format) is a parameter; nothing is assumed of it.  The native refresh
  is two requests, one that invokes it and one that waits for its result, so a
  process may die in between.

  The environment keeps a clock, and an operator edits Secrets.  Auth material is
  dedicated: a refresh token an operator writes is new to the system, or was there
  before under the same fence.  Likewise the refresh token of a native result is
  the one that was refreshed or a new one.
-/
import PaseoGateway.AsyncPool
import PaseoGateway.Domain
import PaseoGateway.IsoInstant
import PaseoGateway.JsString
import PaseoGateway.Json

namespace PaseoGateway.CodexSubscription

open Async

/-- What the JavaScript runtime and the validation library provide. -/
structure Runtime where
  sha256 : String → String
  fromBase64 : String → String
  toBase64 : String → String
  jsonParse : String → Option Json
  jsonStringify : Json → String
  dateParse : String → Option Int
  datetime : String → Bool

/-! ### Profiles and Secrets -/

structure KeyReference where
  name : String
  key : String
deriving DecidableEq, Repr

structure Config where
  authSecretRef : KeyReference
  outputSecretName : String
deriving DecidableEq, Repr

/-- A credential profile, with the checks of its schema that read no field below. -/
structure CredentialProfile where
  name : String
  profileNamespace : String
  uid : Option String
  codexSubscription : Option Config
  otherwiseValid : Bool := true
deriving DecidableEq, Repr

/-- The annotations the broker keeps on a Secret. -/
structure Annotations where
  owner : Option String := none
  binding : Option String := none
  authDigest : Option String := none
  intent : Option String := none
  lease : Option String := none
  leaseUntil : Option String := none
deriving DecidableEq, Repr

structure Secret where
  uid : Option String := none
  annotations : Annotations := {}
  data : List (String × String) := []
deriving DecidableEq, Repr

def Secret.get (secret : Secret) (key : String) : Option String := secret.data.lookup key

def ACCESS_KEY : String := "paseo-access.json"
def LEASE_MS : Int := 60000
def RENEW_EARLY_MS : Int := 300000

inductive State where
  | Ready
  | Renewed
  | Busy
  | Failed
deriving DecidableEq, Repr

structure BrokerStatus where
  profileName : String
  state : State
  reason : String
deriving DecidableEq, Repr

/-- The checks of the profile schema on `codexSubscription`. -/
def profileValid (profile : CredentialProfile) : Bool :=
  profile.otherwiseValid && match profile.codexSubscription with
    | none => true
    | some config =>
      config.authSecretRef.name != config.outputSecretName &&
        config.authSecretRef.key != ACCESS_KEY

def ownerOf (profile : CredentialProfile) : String :=
  profile.profileNamespace ++ "/" ++ profile.name ++ "/" ++ profile.uid.getD ""

/-! ### Access and auth material -/

structure Access where
  accessToken : String
  chatgptAccountId : String
  chatgptPlanType : Option String
  expiresAt : String
deriving DecidableEq, Repr

/-- `CodexAccessSchema`, on a value of its own type -/
def accessValid (rt : Runtime) (access : Access) : Bool :=
  1 ≤ Js.length access.accessToken && Js.length access.accessToken ≤ 32768 &&
    1 ≤ Js.length access.chatgptAccountId && Js.length access.chatgptAccountId ≤ 512 &&
    access.chatgptPlanType.all (fun plan => Js.length plan ≤ 100) && rt.datetime access.expiresAt

def planType : Json → Option (Option String)
  | .null => some none
  | .str plan => some (some plan)
  | _ => none

/-- `CodexAccessSchema` -/
def parseAccess (rt : Runtime) (value : Json) : Option Access :=
  match value with
  | .obj fields =>
    match fields.lookup "accessToken", fields.lookup "chatgptAccountId",
        (fields.lookup "chatgptPlanType").bind planType, fields.lookup "expiresAt" with
    | some (.str accessToken), some (.str chatgptAccountId), some chatgptPlanType,
        some (.str expiresAt) =>
      let access : Access := { accessToken, chatgptAccountId, chatgptPlanType, expiresAt }
      let strict := fields.all fun entry => ["accessToken", "chatgptAccountId",
        "chatgptPlanType", "expiresAt"].contains entry.1
      if strict && accessValid rt access then some access else none
    | _, _, _, _ => none
  | _ => none

def Access.json (access : Access) : Json := .obj [
  ("accessToken", .str access.accessToken),
  ("chatgptAccountId", .str access.chatgptAccountId),
  ("chatgptPlanType", match access.chatgptPlanType with | none => .null | some plan => .str plan),
  ("expiresAt", .str access.expiresAt)]

structure NativeCodexResult where
  authJson : String
  access : Access
deriving DecidableEq

/-- The refresh token of an auth file, when it is a non-empty string. -/
def authToken (rt : Runtime) (authJson : String) : Option String :=
  match ((rt.jsonParse authJson).bind (·.field? "tokens")).bind (·.field? "refresh_token") with
  | some (.str token) => if token = "" then none else some token
  | _ => none

/-- The same of a value of a Secret; an empty value is no auth file. -/
def refreshToken (rt : Runtime) (encoded : String) : Option String :=
  if encoded = "" then none else authToken rt (rt.fromBase64 encoded)

/-- The refresh token of an auth file once it is stored. -/
def rotatedToken (rt : Runtime) (authJson : String) : Option String :=
  refreshToken rt (rt.toBase64 authJson)

def configJson (config : Config) : Json := .obj [
  ("authSecretRef", .obj [("name", .str config.authSecretRef.name),
    ("key", .str config.authSecretRef.key)]),
  ("outputSecretName", .str config.outputSecretName)]

/-- An `undefined` field is left out of the JSON text. -/
def bindingOf (rt : Runtime) (config : Config) (uid : Option String) (owner : String) : String :=
  rt.sha256 (rt.jsonStringify (.obj ([("config", configJson config)] ++
    (uid.map fun u => ("uid", Json.str u)).toList ++ [("owner", .str owner)])))

/-- `Date.parse(text ?? "") > at`; an invalid date compares false. -/
def laterThan (rt : Runtime) (text : Option String) (instant : Int) : Bool :=
  match rt.dateParse (text.getD "") with
  | none => false
  | some date => decide (instant < date)

/-- `Date.parse(text ?? "") <= at` -/
def notAfter (rt : Runtime) (text : Option String) (instant : Int) : Bool :=
  match rt.dateParse (text.getD "") with
  | none => false
  | some date => decide (date ≤ instant)

/-! ### The system -/

inductive Key where
  | secret (name : String)
deriving DecidableEq

/-- What happens outside the store. -/
inductive Note where
  /-- the native refresh was invoked with this auth file -/
  | native (authJson : String)
  /-- it handed this auth file back -/
  | refreshed (authJson : String)
  | clock (instant : Int)
deriving DecidableEq

inductive Err where
  | store (e : StoreErr)
  | invalid
  | native (stage : Option String)
deriving DecidableEq, Repr

inductive Ext where
  | now
  | randomUUID
  | native (authJson : String)
  | nativeResult (authJson : String)
  | beginRenew (profile : CredentialProfile)
  | awaitRenew (task : Tid)
  | settle (task : Tid) (result : Except Err BrokerStatus)

def Ext.Res : Ext → Type
  | .now => Int
  | .randomUUID => String
  | .native _ => Unit
  | .nativeResult _ => Except Err NativeCodexResult
  | .beginRenew _ => Tid
  | .awaitRenew _ => Except Err BrokerStatus
  | .settle _ _ => Unit

inductive Call where
  | reconcile (profiles : List CredentialProfile)
  | renew (profile : CredentialProfile)

/-- The promises of `renew` calls that have settled. -/
structure Mem where
  settled : List (Tid × Except Err BrokerStatus) := []

@[reducible] def sys : Sys where
  Key := Key
  Val := fun _ => Secret
  Note := Note
  Ext := Ext
  ExtRes := Ext.Res
  Mem := Mem
  Glob := Unit
  Call := Call
  Err := Err
  ofStore := .store

/-! ### The Secret store -/

def readSecret (name : String) : sys.Task (Option (Nat × Secret)) :=
  await (S := sys) (.get (.secret name))

/-- A conflict is `false`, any other refusal is thrown. -/
def swapped {α : Type} (request : sys.Task α) : sys.Task Bool := do
  match ← request.attempt with
  | .ok _ => .ret true
  | .error e => if e = .store .conflict then .ret false else .fail e

def compareAndSwapSecret (name : String) (expected : Option Nat) (secret : Secret) :
    sys.Task Bool :=
  match expected with
  | some version => swapped (await (S := sys) (.update (.secret name) version secret))
  | none => swapped (await (S := sys) (.create (.secret name) secret))

/-! ### The broker -/

section Broker

variable (rt : Runtime)

def invalidateOutput (name : String) : Option (Nat × Secret) → sys.Task Bool
  | none => .ret true
  | some (version, secret) =>
    if secret.get "access.json" = some "" then .ret true
    else compareAndSwapSecret name (some version) { secret with data := [("access.json", "")] }

/-- The authority carries this access, for this binding, with no refresh under way. -/
def publishable (config : Config) (authority : Secret) (encoded binding : String) : Bool :=
  authority.annotations.binding == some binding &&
    authority.get ACCESS_KEY == some encoded &&
    some (rt.sha256 ((authority.get config.authSecretRef.key).getD ""))
      == authority.annotations.authDigest &&
    authority.annotations.intent.all (· == "")

/-- A replaced object keeps the UID the API server gave it. -/
def outputSecret (current : Option (Nat × Secret)) (owner binding encoded : String) : Secret where
  uid := current.bind fun p => p.2.uid
  annotations := { owner := some owner, binding := some binding }
  data := [("access.json", encoded)]

def publish (config : Config) (owner : String) (authority : Nat × Secret)
    (encoded binding : String) : sys.Task Bool :=
  if ¬ publishable rt config authority.2 encoded binding then .ret false
  else do
    let current ← readSecret config.outputSecretName
    if current.any fun p => p.2.annotations.owner != some owner then .ret false
    else if current.any fun p => p.2.get "access.json" == some encoded &&
        p.2.annotations.binding == some binding then .ret true
    else do
      let latest ← readSecret config.authSecretRef.name
      if latest.map Prod.fst ≠ some authority.1 then .ret false
      else
        compareAndSwapSecret config.outputSecretName (current.map Prod.fst)
          (outputSecret current owner binding encoded)

def claimedSecret (authority : Secret) (owner refreshDigest lease leaseUntil : String) : Secret :=
  { authority with annotations := { authority.annotations with
      owner := some owner
      intent := some refreshDigest
      lease := some lease
      leaseUntil := some leaseUntil } }

def committedSecret (latest : Secret) (config : Config) (newAuth accessData binding : String) :
    Secret :=
  { latest with
    data := Json.setField ACCESS_KEY accessData
      (Json.setField config.authSecretRef.key newAuth latest.data)
    annotations := { latest.annotations with
      binding := some binding
      authDigest := some (rt.sha256 newAuth)
      intent := none
      lease := none
      leaseUntil := none } }

/-- From the completed native refresh to the published access. -/
def commit (status : State → String → BrokerStatus) (config : Config) (owner binding lease : String)
    (encoded : String) (refreshed : NativeCodexResult) : sys.Task BrokerStatus := do
  match ← readSecret config.authSecretRef.name with
  | none => .ret (status .Failed "CodexRefreshCommitUncertain")
  | some (version, latest) =>
    if latest.annotations.lease ≠ some lease ∨
        latest.get config.authSecretRef.key ≠ some encoded then
      .ret (status .Failed "CodexRefreshCommitUncertain")
    else do
      let instant : Int ← ask (S := sys) .now
      if notAfter rt latest.annotations.leaseUntil instant then
        .ret (status .Failed "CodexRefreshCommitUncertain")
      else if ¬ accessValid rt refreshed.access then .fail .invalid
      else do
        let later : Int ← ask (S := sys) .now
        if notAfter rt (some refreshed.access.expiresAt) (later + 60000) then
          .ret (status .Failed "CodexAccessExpired")
        else do
          let accessData := rt.toBase64 (rt.jsonStringify refreshed.access.json)
          let swap ← compareAndSwapSecret config.authSecretRef.name (some version)
            (committedSecret rt latest config (rt.toBase64 refreshed.authJson) accessData binding)
          if ¬ swap then .ret (status .Failed "CodexRefreshCommitUncertain")
          else do
            match ← readSecret config.authSecretRef.name with
            | none => .ret (status .Busy "CodexPublishConflict")
            | some durable => do
              let published ← publish rt config owner durable accessData binding
              if published then .ret (status .Renewed "CodexAccessRenewed")
              else .ret (status .Busy "CodexPublishConflict")

/-- The native refresh under the lease just claimed. -/
def refresh (status : State → String → BrokerStatus) (config : Config)
    (owner binding lease encoded : String) : sys.Task BrokerStatus := do
  ask (S := sys) (.native (rt.fromBase64 encoded))
  match ← ask (S := sys) (.nativeResult (rt.fromBase64 encoded)) with
  | .error (.native (some stage)) =>
    .ret (status .Failed ("CodexReauthenticationRequired:" ++ stage))
  | .error _ => .ret (status .Failed "CodexReauthenticationRequired")
  | .ok refreshed => commit rt status config owner binding lease encoded refreshed

/-- Claim the lease on the authority and refresh. -/
def claimAndRefresh (status : State → String → BrokerStatus) (config : Config)
    (owner binding encoded token : String) (version : Nat) (authority : Secret) :
    sys.Task BrokerStatus := do
  let lease : String ← ask (S := sys) .randomUUID
  let instant : Int ← ask (S := sys) .now
  let swap ← compareAndSwapSecret config.authSecretRef.name (some version)
    (claimedSecret authority owner (rt.sha256 token) lease (Iso.toISOString (instant + LEASE_MS)))
  if ¬ swap then .ret (status .Busy "CodexLeaseConflict")
  else refresh rt status config owner binding lease encoded

/-- The access cached in the authority, when it is valid. -/
def cachedAccess (authority : Secret) (binding authDigest : String) : Option (String × Access) :=
  match authority.get ACCESS_KEY with
  | none => none
  | some cached =>
    if cached ≠ "" ∧ authority.annotations.binding = some binding ∧
        authority.annotations.authDigest = some authDigest then
      ((rt.jsonParse (rt.fromBase64 cached)).bind (parseAccess rt)).map fun access =>
        (cached, access)
    else none

/-- Publish the cached access while it lasts.  Whatever is thrown on the way is
    caught, and the access renewed. -/
def publishCached (status : State → String → BrokerStatus) (config : Config)
    (owner binding authDigest : String) (authority : Nat × Secret) :
    sys.Task (Option BrokerStatus) :=
  match cachedAccess rt authority.2 binding authDigest with
  | none => .ret none
  | some (cached, access) => do
    let instant : Int ← ask (S := sys) .now
    if laterThan rt (some access.expiresAt) (instant + RENEW_EARLY_MS) then do
      match ← (publish rt config owner authority cached binding).attempt with
      | .ok true => .ret (some (status .Ready "CodexAccessCurrent"))
      | .ok false => .ret (some (status .Busy "CodexPublishConflict"))
      | .error _ => .ret none
    else .ret none

/-- `renew` once the owners are checked and the auth material is read. -/
def renewOwned (status : State → String → BrokerStatus) (config : Config) (owner encoded : String)
    (authority : Nat × Secret) (output : Option (Nat × Secret)) (token : String) :
    sys.Task BrokerStatus := do
  let binding := bindingOf rt config authority.2.uid owner
  let authDigest := rt.sha256 encoded
  if authority.2.annotations.intent = some (rt.sha256 token) then do
    let instant : Int ← ask (S := sys) .now
    if laterThan rt authority.2.annotations.leaseUntil instant then
      .ret (status .Busy "CodexRefreshInProgress")
    else do
      let _ ← invalidateOutput config.outputSecretName output
      .ret (status .Failed "CodexReauthenticationRequired")
  else do
    match ← publishCached rt status config owner binding authDigest authority with
    | some done => .ret done
    | none => do
      let stale := (output.bind fun p => p.2.annotations.binding) ≠ some binding ∨
        authority.2.annotations.authDigest ≠ some authDigest
      let usable ← if stale then invalidateOutput config.outputSecretName output else .ret true
      if ¬ usable then .ret (status .Busy "CodexOutputConflict")
      else claimAndRefresh rt status config owner binding encoded token authority.1 authority.2

/-- `annotations[owner] && annotations[owner] !== owner` -/
def ownedByOther (authority : Secret) (owner : String) : Bool :=
  authority.annotations.owner.any fun other => other != "" && other != owner

def renew (profile : CredentialProfile) : sys.Task BrokerStatus :=
  match profile.codexSubscription with
  | none => .fail .invalid
  | some config => do
    let status := fun state reason => BrokerStatus.mk profile.name state reason
    let owner := ownerOf profile
    match ← readSecret config.authSecretRef.name with
    | none => .ret (status .Failed "CodexBootstrapMissing")
    | some (version, authority) =>
      let encoded := (authority.get config.authSecretRef.key).getD ""
      if encoded = "" then .ret (status .Failed "CodexBootstrapMissing")
      else if ownedByOther authority owner then
        .ret (status .Failed "CodexAuthorityAlreadyOwned")
      else do
        let output ← readSecret config.outputSecretName
        if output.any fun p => p.2.annotations.owner != some owner then
          .ret (status .Failed "CodexOutputAlreadyOwned")
        else match refreshToken rt encoded with
          | none => .ret (status .Failed "CodexBootstrapInvalid")
          | some token => renewOwned rt status config owner encoded (version, authority) output token

end Broker

def unavailable (profile : CredentialProfile) : BrokerStatus :=
  ⟨profile.name, .Failed, "CodexAuthorityUnavailable"⟩

def reconcile : List CredentialProfile → sys.Task (List BrokerStatus)
  | [] => .ret []
  | input :: rest =>
    if input.codexSubscription.isNone then reconcile rest
    else if ¬ profileValid input then do
      let statuses ← reconcile rest
      .ret (unavailable input :: statuses)
    else do
      let task : Tid ← ask (S := sys) (.beginRenew input)
      let result : Except Err BrokerStatus ← ask (S := sys) (.awaitRenew task)
      let statuses ← reconcile rest
      match result with
      | .ok status => .ret (status :: statuses)
      | .error _ => .ret (unavailable input :: statuses)

/-! ### The machine -/

inductive Out where
  | statuses (statuses : List BrokerStatus)
  | settled

def program (rt : Runtime) (t : Tid) : Call → sys.Task Out
  | .reconcile profiles => do
    let statuses ← reconcile profiles
    .ret (.statuses statuses)
  | .renew profile => do
    let result ← (renew rt profile).attempt
    ask (S := sys) (.settle t result)
    .ret .settled

abbrev History := Trace Key (fun _ => Secret) Note

/-- The last reading of the clock. -/
def clockOf : History → Int
  | [] => 0
  | .note _ (.clock instant) :: _ => instant
  | _ :: older => clockOf older

/-- Some entry of the Secret carries the refresh token. -/
def carries (rt : Runtime) (secret : Secret) (token : String) : Bool :=
  secret.data.any fun entry => refreshToken rt entry.2 == some token

/-- The refresh token appears in this entry: stored, refreshed or handed back. -/
def mentions (rt : Runtime) (token : String) : Entry Key (fun _ => Secret) Note → Bool
  | .create _ _ secret => carries rt secret token
  | .update _ _ secret => carries rt secret token
  | .delete _ _ => false
  | .note _ (.native authJson) => authToken rt authJson == some token
  | .note _ (.refreshed authJson) => rotatedToken rt authJson == some token
  | .note _ (.clock _) => false

/-- No one has used the refresh token before. -/
def newToken (rt : Runtime) (tr : History) (token : String) : Bool :=
  tr.all fun e => !mentions rt token e

/-- The token was in this place before, under the same owner and intent. -/
def keptToken (rt : Runtime) (old secret : Secret) (key token : String) : Bool :=
  (old.get key).bind (refreshToken rt) == some token &&
    secret.annotations.owner == old.annotations.owner &&
    secret.annotations.intent == old.annotations.intent

/-- Dedicated material: each refresh token is new and in one place, or kept.  Only the
    broker writes leases. -/
def editAllowed (rt : Runtime) (tr : History) (name : String) (secret : Secret) : Bool :=
  let old : Option Secret := (lookup (ν := fun _ => Secret) (.secret name) tr).map Prod.snd
  (secret.annotations.lease.isNone ||
    secret.annotations.lease == old.bind fun s => s.annotations.lease) &&
  secret.data.all fun entry => match refreshToken rt entry.2 with
    | none => true
    | some token =>
      (newToken rt tr token && secret.data.all fun other =>
        refreshToken rt other.2 != some token || other.1 == entry.1) ||
      old.any fun s => keptToken rt s secret entry.1 token

/-- What the environment decides about one request. -/
structure Choice where
  uuid : String := ""
  native : Except Err NativeCodexResult := .error (.native none)

/-- OAuth rotation: the refresh token handed back is the one given or a new one. -/
def rotates (rt : Runtime) (tr : History) (authJson rotated : String) : Bool :=
  match rotatedToken rt rotated with
  | none => true
  | some token => authToken rt authJson == some token || newToken rt tr token

def answer (rt : Runtime) (c : Choice) (t : Tid) (x : Ext) (w : World sys) :
    Option (Answer sys x) :=
  let mem : Mem := w.mem t.proc
  match x with
  | .now => some { res := clockOf w.trace, mem, glob := () }
  | .randomUUID => some { res := c.uuid, mem, glob := () }
  | .native authJson => some { res := (), notes := [.native authJson], mem, glob := () }
  | .nativeResult authJson =>
    match c.native with
    | .error e => some { res := (.error e : Except Err NativeCodexResult), mem, glob := () }
    | .ok result =>
      if rotates rt w.trace authJson result.authJson then
        some { res := (.ok result : Except Err NativeCodexResult), mem, glob := (),
               notes := [.refreshed result.authJson] }
      else none
  | .beginRenew profile =>
    some { res := (⟨t.proc, w.next⟩ : Tid), mem, glob := (), forks := [.renew profile] }
  | .awaitRenew task => (mem.settled.lookup task).map fun result =>
      { res := result, mem, glob := () }
  | .settle task result =>
    some { res := (), mem := { settled := (task, result) :: mem.settled }, glob := () }

/-- The largest time value of a `Date` less a lease. -/
def MAX_CLOCK : Int := 8640000000000000 - LEASE_MS

/-- What the environment does on its own. -/
inductive Env where
  | clock (instant : Int)
  | write (name : String) (secret : Secret)
  | delete (name : String)

def env (rt : Runtime) (e : Env) (w : World sys) : Option (History × Unit) :=
  match e with
  | .clock instant =>
    if clockOf w.trace ≤ instant ∧ instant ≤ MAX_CLOCK then
      some ([.note none (.clock instant)], ()) else none
  | .write name secret =>
    if editAllowed rt w.trace name secret then
      match lookup (.secret name) w.trace with
      | none => some ([.create none (.secret name) secret], ())
      | some _ => some ([.update none (.secret name) secret], ())
    else none
  | .delete name =>
    match lookup (.secret name) w.trace with
    | none => none
    | some _ => some ([.delete none (.secret name)], ())

/-- Any number of brokers; `configOf` is the subscription of each profile identity. -/
def machine (rt : Runtime) (configOf : String → Option Config) : Machine sys where
  Out := Out
  Choice := Choice
  Env := Env
  program := program rt
  answer := answer rt
  entry := fun _ call _ => match call with
    | .reconcile profiles => profiles.all fun profile =>
        decide (profile.codexSubscription.isSome →
          configOf (ownerOf profile) = profile.codexSubscription)
    | .renew _ => false
  freshMem := {}
  afterCrash := fun _ g => g
  env := env rt
  env_author := by
    intro e w new g h x hx
    cases e <;> simp only [env] at h <;> split at h
    all_goals try split at h
    all_goals cases h
    all_goals
      obtain rfl := List.mem_singleton.mp hx
      rfl
  init := { trace := [], mem := fun _ => {}, glob := (), next := 0, calls := fun _ => none }
  init_next := rfl
  init_calls := fun _ => rfl

end PaseoGateway.CodexSubscription

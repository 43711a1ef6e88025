/-
  PaseoGateway/CredentialSchema.lean
  ==================================
  **What a credential profile may say.**

  Mirrors `src/src/credentials/schema.ts`.  A `ProfileSpec` is the value the schema
  returns, with its defaults in place; `accepts` holds of it when no check of the
  schema raises an issue.  The checks of single fields are Boolean, those across
  fields are the issues of `superRefine` in their order.
-/
import PaseoGateway.CodexSubscription
import PaseoGateway.JsString

namespace PaseoGateway.Credentials

open PaseoGateway.CodexSubscription (KeyReference)
open PaseoGateway.Js (segments)

/-! ### Texts -/

def isUpper (c : Char) : Bool := 'A' ≤ c && c ≤ 'Z'

def isLower (c : Char) : Bool := 'a' ≤ c && c ≤ 'z'

def isDigit (c : Char) : Bool := '0' ≤ c && c ≤ '9'

def isAlnum (c : Char) : Bool := isUpper c || isLower c || isDigit c

def startsWith (value start : String) : Bool := start.toList.isPrefixOf value.toList

/-- The text matches a regular expression of one character class, between two lengths. -/
def matchesClass (class' : Char → Bool) (shortest longest : Nat) (value : String) : Bool :=
  shortest ≤ Js.length value && Js.length value ≤ longest && value.toList.all class'

/-- `/^[a-z0-9]([-a-z0-9]*[a-z0-9])?$/` -/
def name (value : String) : Bool :=
  matchesClass (fun c => isLowerAlnum c || c == '-') 1 63 value &&
    (value.toList.head?.map isLowerAlnum).getD false &&
    (value.toList.getLast?.map isLowerAlnum).getD false

def keyClass (c : Char) : Bool := isAlnum c || ['.', '_', '-'].contains c

def KeyReferenceSchema (ref : KeyReference) : Bool :=
  name ref.name && matchesClass keyClass 1 253 ref.key

structure ValueReference where
  secretKeyRef : Option KeyReference := none
  configMapKeyRef : Option KeyReference := none
deriving DecidableEq, Repr

def ValueReferenceSchema (value : ValueReference) : Bool :=
  value.secretKeyRef.all KeyReferenceSchema && value.configMapKeyRef.all KeyReferenceSchema &&
    value.secretKeyRef.isSome.toNat + value.configMapKeyRef.isSome.toNat == 1

def protectedEnv : List String :=
  ["PASEO_", "GATEWAY_", "KUBERNETES_", "GIT_", "LD_", "DYLD_", "NODE_", "NPM_CONFIG_",
    "npm_config_"]

def allowedEnvironmentName (value : String) : Bool :=
  !protectedEnv.any (startsWith value) &&
    !(["HOME", "CODEX_HOME", "PATH", "SHELL", "ENV", "BASH_ENV", "ZDOTDIR", "NODE_OPTIONS",
      "REPOSITORY", "REVISION", "BRANCH", "FETCH_DEPTH", "PULL_REQUEST", "SSL_CERT_FILE",
      "SSL_CERT_DIR"].contains value)

/-- No segment is empty, `.` or `..`. -/
def plainSegments (path : String) : Bool :=
  (segments path).all fun part => part ≠ "" && part ≠ "." && part ≠ ".."

def allowedFilePath (value : String) : Bool :=
  let first := (segments value).head?.getD ""
  plainSegments value &&
    !([".gitconfig", ".git-credentials", ".bashrc", ".bash_profile", ".profile", ".zshrc",
      ".zshenv"].contains first) &&
    !([".paseo", ".paseo-gateway"].contains first) && value ≠ ".codex/auth.json"

/-! ### Runtime overrides -/

def digits (cs : List Char) : Bool := !cs.isEmpty && cs.all isDigit

/-- `(?:[eE][+-]?[0-9]+|[EPTGMK]i?|m|k)?$` -/
def quantityUnit : List Char → Bool
  | [] => true
  | ['m'] => true
  | ['k'] => true
  | [c] => ['E', 'P', 'T', 'G', 'M', 'K'].contains c
  | c :: 'i' :: [] => ['E', 'P', 'T', 'G', 'M', 'K'].contains c
  | c :: sign :: rest =>
    (c == 'e' || c == 'E') &&
      if sign == '+' || sign == '-' then digits rest else digits (sign :: rest)

/-- `/^(?:[0-9]+(?:\.[0-9]+)?|\.[0-9]+)…$/` -/
def quantity (value : String) : Bool :=
  let whole := value.toList.takeWhile isDigit
  let rest := value.toList.dropWhile isDigit
  Js.length value ≤ 32 &&
    match rest with
    | '.' :: fraction =>
      !(fraction.takeWhile isDigit).isEmpty && quantityUnit (fraction.dropWhile isDigit)
    | rest => !whole.isEmpty && quantityUnit rest

structure ResourceList where
  cpu : Option String := none
  memory : Option String := none
  ephemeralStorage : Option String := none
deriving DecidableEq, Repr

def resources (list : ResourceList) : Bool :=
  list.cpu.all quantity && list.memory.all quantity && list.ephemeralStorage.all quantity

structure Resources where
  requests : Option ResourceList := none
  limits : Option ResourceList := none
deriving DecidableEq, Repr

structure RuntimeOverrides where
  image : Option String := none
  resources : Option Resources := none
deriving DecidableEq, Repr

def imageClass (c : Char) : Bool := isAlnum c || ['.', '_', '/', '@', ':', '-'].contains c

def RuntimeOverridesSchema (runtime : RuntimeOverrides) : Bool :=
  runtime.image.all (fun image =>
    matchesClass imageClass 1 512 image && (image.toList.head?.map isAlnum).getD false) &&
  runtime.resources.all fun both => both.requests.all resources && both.limits.all resources

/-! ### The profile -/

structure EnvItem where
  name : String
  valueFrom : ValueReference
deriving DecidableEq, Repr

structure FileItem where
  path : String
  valueFrom : ValueReference
  /-- `0o440` or `0o444` -/
  mode : Nat := 288
deriving DecidableEq, Repr

structure GithubApp where
  appId : Int
  installationId : Int
  privateKeySecretRef : KeyReference
  outputSecretName : String
  repositories : List String
deriving DecidableEq, Repr

structure Ssh where
  keySecretRef : KeyReference
  knownHostsRef : ValueReference
deriving DecidableEq, Repr

structure Identity where
  name : String
  email : String
deriving DecidableEq, Repr

/-- The format is always `ssh`. -/
structure Signing where
  keySecretRef : KeyReference
deriving DecidableEq, Repr

structure Git where
  tokenSecretRef : Option KeyReference := none
  githubApp : Option GithubApp := none
  ssh : Option Ssh := none
  username : String := "x-access-token"
  identity : Option Identity := none
  signing : Option Signing := none
deriving DecidableEq, Repr

structure CodexSubscription where
  authSecretRef : KeyReference
  outputSecretName : String
deriving DecidableEq, Repr

structure ProfileSpec where
  env : List EnvItem := []
  files : List FileItem := []
  git : Option Git := none
  codexSubscription : Option CodexSubscription := none
  runtime : Option RuntimeOverrides := none
deriving DecidableEq, Repr

section Fields

def maxSafeInteger : Int := 9007199254740991

def safePositive (n : Int) : Bool := 0 < n && n ≤ maxSafeInteger

def EnvItem.valid (item : EnvItem) : Bool :=
  matchesClass (fun c => isAlnum c || c == '_') 1 128 item.name &&
    (item.name.toList.head?.map fun c => isUpper c || isLower c || c == '_').getD false &&
    allowedEnvironmentName item.name && ValueReferenceSchema item.valueFrom

def pathClass (c : Char) : Bool := isAlnum c || ['.', '_', '/', '-'].contains c

def FileItem.valid (item : FileItem) : Bool :=
  matchesClass pathClass 1 240 item.path && allowedFilePath item.path &&
    ValueReferenceSchema item.valueFrom && (item.mode == 288 || item.mode == 292)

/-- `/^[A-Za-z0-9_.-]+\/[A-Za-z0-9_.-]+$/` -/
def repositoryName (value : String) : Bool :=
  Js.length value ≤ 200 &&
    match segments value with
    | [owner, repo] => matchesClass keyClass 1 200 owner && matchesClass keyClass 1 200 repo
    | _ => false

def GithubApp.valid (app : GithubApp) : Bool :=
  safePositive app.appId && safePositive app.installationId &&
    KeyReferenceSchema app.privateKeySecretRef && name app.outputSecretName &&
    app.repositories.all repositoryName && 1 ≤ app.repositories.length &&
    app.repositories.length ≤ 100

/-- `/^[^\s@]+@[^\s@]+\.[^\s@]+$/`: some dot of the domain is neither its first nor its
    last character. -/
def emailAddress (value : String) : Bool :=
  Js.length value ≤ 254 &&
    match value.toList.splitOn '@' with
    | [local', domain] =>
      !local'.isEmpty && (local' ++ domain).all (fun c => !Js.isSpace c) &&
        (domain.drop 1).dropLast.contains '.'
    | _ => false

def Identity.valid (identity : Identity) : Bool :=
  matchesClass (fun c => c ≠ '\r' && c ≠ '\n' && c.toNat ≠ 0) 1 200 identity.name &&
    emailAddress identity.email

def Git.valid (git : Git) : Bool :=
  git.tokenSecretRef.all KeyReferenceSchema && git.githubApp.all GithubApp.valid &&
    git.ssh.all (fun ssh =>
      KeyReferenceSchema ssh.keySecretRef && ValueReferenceSchema ssh.knownHostsRef) &&
    matchesClass (fun c => isAlnum c || ['.', '_', '@', '-'].contains c) 1 100 git.username &&
    git.identity.all Identity.valid &&
    git.signing.all fun signing => KeyReferenceSchema signing.keySecretRef

/-- The checks of the single fields. -/
def ProfileSpec.valid (spec : ProfileSpec) : Bool :=
  spec.env.all EnvItem.valid && spec.env.length ≤ 64 &&
    spec.files.all FileItem.valid && spec.files.length ≤ 32 &&
    spec.git.all Git.valid &&
    spec.codexSubscription.all (fun codex =>
      KeyReferenceSchema codex.authSecretRef && name codex.outputSecretName) &&
    spec.runtime.all RuntimeOverridesSchema

end Fields

/-! ### The checks across fields -/

structure Issue where
  message : String
  path : List String
deriving DecidableEq, Repr

section Refine

variable (spec : ProfileSpec)

def issueIf (condition : Bool) (message : String) (path : List String) : List Issue :=
  if condition then [⟨message, path⟩] else []

def ProfileSpec.valueFroms : List ValueReference :=
  spec.env.map EnvItem.valueFrom ++ spec.files.map FileItem.valueFrom

/-- `ref?.name === secret` -/
def named (ref : Option KeyReference) (secret : String) : Bool :=
  ref.map KeyReference.name == some secret

def projectsAuthority (authority : String) : Bool :=
  spec.valueFroms.any (fun valueFrom => named valueFrom.secretKeyRef authority) ||
    named (spec.git.bind Git.tokenSecretRef) authority ||
    named ((spec.git.bind Git.ssh).map Ssh.keySecretRef) authority ||
    named ((spec.git.bind Git.ssh).bind fun ssh => ssh.knownHostsRef.secretKeyRef) authority ||
    named ((spec.git.bind Git.signing).map Signing.keySecretRef) authority ||
    (spec.git.bind Git.githubApp).map GithubApp.outputSecretName == some authority

def codexIssues (codex : CodexSubscription) : List Issue :=
  issueIf (codex.authSecretRef.name == codex.outputSecretName)
    "Codex authority and access Secrets must differ" ["codexSubscription"] ++
  issueIf (spec.env.any fun env => ["OPENAI_API_KEY", "CODEX_API_KEY", "CODEX_ACCESS_TOKEN",
      "OPENAI_FEDERATION_RULE_ID", "OPENAI_IDENTITY_TOKEN_FILE"].contains env.name)
    "Codex subscription authority cannot mix authentication modes" ["env"] ++
  issueIf (codex.authSecretRef.key == "paseo-access.json")
    "Authority key is reserved for broker state" ["codexSubscription", "authSecretRef", "key"] ++
  issueIf ((spec.git.bind Git.githubApp).map GithubApp.outputSecretName ==
      some codex.outputSecretName)
    "Managed credential output Secrets must differ" ["codexSubscription"] ++
  issueIf (projectsAuthority spec codex.authSecretRef.name)
    "Codex authority Secret must never be projected into workers" ["codexSubscription"]

def appIssues (app : GithubApp) : List Issue :=
  issueIf (app.outputSecretName == app.privateKeySecretRef.name)
    "Output Secret must differ from App private key Secret" ["git", "githubApp"] ++
  issueIf (!decide (app.repositories.map String.toLower).Nodup ||
      (app.repositories.map fun repo => ((segments repo).head?.getD "").toLower).dedup.length ≠ 1)
    "Repository allowlist must be unique and belong to one owner"
    ["git", "githubApp", "repositories"]

/-- Another file has the path, or a path above it. -/
def overlaps (file : FileItem × Nat) : Bool :=
  spec.files.zipIdx.any fun other =>
    other.2 ≠ file.2 &&
      (other.1.path == file.1.path || startsWith file.1.path (other.1.path ++ "/"))

def superRefine : List Issue :=
  spec.codexSubscription.elim [] (codexIssues spec) ++
  issueIf ((spec.git.bind Git.tokenSecretRef).isSome && (spec.git.bind Git.githubApp).isSome)
    "Choose a static token or GitHub App, not both" ["git"] ++
  (spec.git.bind Git.githubApp).elim [] appIssues ++
  issueIf (!decide (spec.env.map EnvItem.name).Nodup)
    "Environment names must be unique" ["env"] ++
  spec.files.zipIdx.flatMap (fun file =>
    issueIf (overlaps spec file) "File paths cannot overlap" ["files", toString file.2, "path"]) ++
  issueIf (((spec.git.bind Git.tokenSecretRef).isSome || (spec.git.bind Git.githubApp).isSome) &&
      spec.env.any fun env => ["GH_TOKEN", "GH_ENTERPRISE_TOKEN", "GH_HOST"].contains env.name)
    "Git authentication manages GH_TOKEN, GH_ENTERPRISE_TOKEN and GH_HOST" ["env"]

/-- `CredentialProfileSpecSchema` raises no issue. -/
def accepts : Bool := spec.valid && (superRefine spec).isEmpty

end Refine

end PaseoGateway.Credentials

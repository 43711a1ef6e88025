/-
  PaseoGateway/CredentialProjection.lean
  ======================================
  **What a credential profile puts into a workspace Pod.**

  Mirrors `src/src/credentials/projection.ts` and `repositoryLocation` of
  `src/src/credentials/repository.ts`.  Each feature of a profile pushes to the same
  five arrays, in the order of the source; here it returns what it pushes, and the
  projection appends these.

  `new URL` is a parameter.
-/
import PaseoGateway.CredentialSchema
import PaseoGateway.Cluster
import PaseoGateway.JsMap

namespace PaseoGateway.Credentials

open PaseoGateway.CodexSubscription (KeyReference)
open Cluster (ReferenceKind CredentialReference secretReference)

/-! ### Records -/

/-- A workspace record with its namespace. -/
structure PlacedWorkspace extends Workspace where
  inNamespace : String
deriving DecidableEq, Repr

/-- A project record with what a Pod takes from it. -/
structure SourceProject extends Project where
  repository : String
  runtime : Option RuntimeOverrides := none
  cacheSubPath : Option String := none
deriving DecidableEq, Repr

structure CredentialProfile where
  name : String
  inNamespace : String
  spec : ProfileSpec
deriving DecidableEq, Repr

/-- The result of `CredentialProfileSchema.safeParse`; defaults are in place already. -/
def CredentialProfileSchema (profile : CredentialProfile) : Bool :=
  Credentials.name profile.name && Credentials.name profile.inNamespace && accepts profile.spec

/-! ### Parts of a Pod -/

structure EnvVar where
  name : String
  value : Option String := none
  valueFrom : Option ValueReference := none
deriving DecidableEq, Repr

structure KeyToPath where
  key : String
  path : String
  mode : Option Nat := none
deriving DecidableEq, Repr

/-- A source of a `projected` volume. -/
structure ProjectedSource where
  kind : ReferenceKind
  name : String
  items : List KeyToPath
deriving DecidableEq, Repr

inductive VolumeSource where
  | secret (secretName : String) (items : List KeyToPath) (defaultMode : Option Nat)
  | configMap (name : String) (items : List KeyToPath)
  | projected (defaultMode : Nat) (sources : List ProjectedSource)
  | persistentVolumeClaim (claimName : String) (readOnly : Bool)
  | emptyDir (sizeLimit : String)
deriving DecidableEq, Repr

structure Volume where
  name : String
  source : VolumeSource
deriving DecidableEq, Repr

structure VolumeMount where
  name : String
  mountPath : String
  subPath : Option String := none
  readOnly : Bool := false
deriving DecidableEq, Repr

/-! ### `referencedCredentials` -/

def ValueReference.references (value : ValueReference) : List CredentialReference :=
  match value.secretKeyRef, value.configMapKeyRef with
  | some ref, _ => [secretReference ref]
  | none, some ref => [⟨.ConfigMap, ref.name, ref.key⟩]
  | none, none => []

/-- `${ref.kind}/${ref.name}/${ref.key}` -/
def referenceKey (ref : CredentialReference) : String :=
  (match ref.kind with | .Secret => "Secret" | .ConfigMap => "ConfigMap") ++ "/" ++ ref.name ++
    "/" ++ ref.key

/-- The references of a profile before repeated ones are dropped. -/
def references (spec : ProfileSpec) : List CredentialReference :=
  spec.valueFroms.flatMap ValueReference.references ++
  (spec.codexSubscription.map fun codex =>
    ⟨.Secret, codex.outputSecretName, "access.json"⟩).toList ++
  ((spec.git.bind Git.tokenSecretRef).map secretReference).toList ++
  ((spec.git.bind Git.githubApp).map fun app => ⟨.Secret, app.outputSecretName, "token"⟩).toList ++
  (spec.git.bind Git.ssh).elim [] (fun ssh =>
    secretReference ssh.keySecretRef :: ssh.knownHostsRef.references) ++
  ((spec.git.bind Git.signing).map fun signing => secretReference signing.keySecretRef).toList

def referencedCredentials (profile : CredentialProfile) : List CredentialReference :=
  ((references profile.spec).foldl (fun seen ref => seen.set (referenceKey ref) ref)
    ({} : Js.Map String CredentialReference)).values

/-! ### `repositoryLocation` -/

/-- The parts of a parsed URL; `search` and `hash` are empty when there are none. -/
structure Url where
  protocol : String
  username : String := ""
  password : String := ""
  host : String
  hostname : String
  pathname : String
  search : String := ""
  hash : String := ""
deriving DecidableEq, Repr

inductive Transport where
  | https
  | ssh
deriving DecidableEq, Repr

structure Location where
  transport : Transport
  host : String
  hostname : String
  path : String
deriving DecidableEq, Repr

def scpHostClass (c : Char) : Bool := isAlnum c || ['.', '-'].contains c

/-- The host and the path of `git@host:path`. -/
def scpLocation (value : String) : Option Location :=
  if startsWith value "git@" then
    let host := (value.toList.drop 4).takeWhile scpHostClass
    match (value.toList.drop 4).dropWhile scpHostClass with
    | ':' :: path =>
      if !host.isEmpty && !path.isEmpty && path.all pathClass then
        some ⟨.ssh, String.ofList host, String.ofList host, String.ofList path⟩
      else none
    | _ => none
  else none

section Location

variable (parseUrl : String → Option Url)

def repositoryLocation (value : String) : Except String Location :=
  match scpLocation value with
  | some location => .ok location
  | none =>
    match parseUrl value with
    | none => .error "Invalid URL"
    | some url =>
      let path := String.ofList (url.pathname.toList.drop 1)
      if url.search ≠ "" || url.hash ≠ "" || url.hostname == "" || path == "" then
        .error "Invalid repository location"
      else if url.protocol == "https:" && url.username == "" && url.password == "" then
        .ok ⟨.https, url.host, url.hostname, path⟩
      else if url.protocol == "ssh:" && url.username == "git" && url.password == "" then
        .ok ⟨.ssh, url.host, url.hostname, path⟩
      else .error "Use HTTPS without credentials or SSH with the git user"

end Location

/-! ### `credentialProjection` -/

/-- What one feature of a profile pushes. -/
structure Pushed where
  env : List EnvVar := []
  volumes : List Volume := []
  daemonMounts : List VolumeMount := []
  checkoutMounts : List VolumeMount := []
  gitConfig : List (String × String) := []
deriving DecidableEq, Repr

structure Projection where
  env : List EnvVar
  volumes : List Volume
  daemonMounts : List VolumeMount
  checkoutMounts : List VolumeMount
deriving DecidableEq, Repr

def EnvItem.envVar (item : EnvItem) : EnvVar := { name := item.name, valueFrom := item.valueFrom }

def filePushed (file : FileItem × Nat) : Except String Pushed :=
  let name := "profile-file-" ++ toString file.2
  match file.1.valueFrom.secretKeyRef.or file.1.valueFrom.configMapKeyRef with
  | none => .error "Missing credential file reference"
  | some reference =>
    let items := [⟨reference.key, "value", some file.1.mode⟩]
    .ok {
      volumes := [⟨name,
        match file.1.valueFrom.secretKeyRef with
        | some secret => .secret secret.name items none
        | none => .configMap reference.name items⟩]
      daemonMounts := [⟨name, "/home/paseo/" ++ file.1.path, some "value", true⟩]
      checkoutMounts := [⟨name, "/data/home/" ++ file.1.path, some "value", true⟩] }

def codexPushed (codex : CodexSubscription) : Pushed where
  env := [{ name := "PASEO_CODEX_ACCESS_FILE", value := "/run/paseo-codex/access.json" }]
  volumes := [⟨"codex-access",
    .secret codex.outputSecretName [⟨"access.json", "access.json", some 288⟩] none⟩]
  daemonMounts := [⟨"codex-access", "/run/paseo-codex", none, true⟩]

def sshPushed (ssh : Ssh) : Except String Pushed :=
  match ssh.knownHostsRef.secretKeyRef.or ssh.knownHostsRef.configMapKeyRef with
  | none => .error "SSH known hosts reference is required"
  | some known =>
    let kind := if ssh.knownHostsRef.secretKeyRef.isSome then .Secret else .ConfigMap
    let mount := ⟨"git-ssh", "/run/paseo-ssh", none, true⟩
    .ok {
      env := [{
        name := "GIT_SSH_COMMAND"
        value := "ssh -i /run/paseo-ssh/key -o IdentitiesOnly=yes -o StrictHostKeyChecking=yes -o UserKnownHostsFile=/run/paseo-ssh/known_hosts -o GlobalKnownHostsFile=/dev/null -o BatchMode=yes" }]
      volumes := [⟨"git-ssh", .projected 288
        [⟨.Secret, ssh.keySecretRef.name, [⟨ssh.keySecretRef.key, "key", none⟩]⟩,
         ⟨kind, known.name, [⟨known.key, "known_hosts", none⟩]⟩]⟩]
      daemonMounts := [mount]
      checkoutMounts := [mount] }

/-- `git?.tokenSecretRef ?? { name: git.githubApp.outputSecretName, key: "token" }` -/
def gitToken (git : Git) : Option KeyReference :=
  git.tokenSecretRef.or (git.githubApp.map fun app => ⟨app.outputSecretName, "token"⟩)

/-- `path.replace(/\.git$/, "")` -/
def withoutGitSuffix (path : String) : String :=
  if ".git".toList.isSuffixOf path.toList then String.ofList (path.toList.rdrop 4)
  else path

/-- The repository is on GitHub and in the allowlist. -/
def inAllowlist (app : GithubApp) (repository : Location) : Bool :=
  repository.hostname == "github.com" &&
    app.repositories.any fun repo =>
      repo.toLower == (withoutGitSuffix repository.path).toLower

def tokenPushed (git : Git) (repository : Location) (token : KeyReference) : Pushed :=
  let mount := ⟨"git-token", "/run/paseo-git", none, true⟩
  { env := [{ name := "PASEO_GIT_TOKEN_FILE", value := "/run/paseo-git/token" },
      { name := "PASEO_GIT_HOST", value := repository.host },
      { name := "PASEO_GIT_PATH", value := repository.path },
      { name := "PASEO_GIT_USERNAME", value := git.username },
      { name := "GH_HOST", value := repository.hostname }]
    volumes := [⟨"git-token", .secret token.name [⟨token.key, "token", some 288⟩] none⟩]
    daemonMounts := [mount]
    checkoutMounts := [mount]
    gitConfig := [("credential.helper", ""),
      ("credential.helper", "!node /opt/paseo/git-credential.mjs"),
      ("credential.useHttpPath", "true")] }

def identityPushed (identity : Identity) : Pushed where
  gitConfig := [("user.name", identity.name), ("user.email", identity.email)]

def signingPushed (signing : Signing) : Pushed :=
  let mount := ⟨"git-signing", "/run/paseo-signing", none, true⟩
  { volumes := [⟨"git-signing",
      .secret signing.keySecretRef.name [⟨signing.keySecretRef.key, "key", some 288⟩] none⟩]
    daemonMounts := [mount]
    checkoutMounts := [mount]
    gitConfig := [("gpg.format", "ssh"), ("user.signingkey", "/run/paseo-signing/key"),
      ("commit.gpgsign", "true"), ("tag.gpgsign", "true")] }

/-- The variables that hand the Git configuration over. -/
def gitConfigEnv (gitConfig : List (String × String)) : List EnvVar :=
  if gitConfig.isEmpty then []
  else { name := "GIT_CONFIG_COUNT", value := toString gitConfig.length } ::
    gitConfig.zipIdx.flatMap fun entry =>
      [{ name := "GIT_CONFIG_KEY_" ++ toString entry.2, value := entry.1.1 },
       { name := "GIT_CONFIG_VALUE_" ++ toString entry.2, value := entry.1.2 }]

section Projection

variable (parseUrl : String → Option Url)

/-- What the Git token pushes. -/
def gitTokenPushed (project : SourceProject) (git : Git) : Except String (List Pushed) :=
  match gitToken git with
  | none => .ok []
  | some token => do
    let repository ← repositoryLocation parseUrl project.repository
    if git.githubApp.any fun app => !inAllowlist app repository then
      .error "Repository is outside the GitHub App allowlist"
    else .ok [tokenPushed git repository token]

/-- The features of a profile, in the order in which they push. -/
def profilePushed (project : SourceProject) (spec : ProfileSpec) : Except String (List Pushed) := do
  let files ← spec.files.zipIdx.mapM filePushed
  let codex := spec.codexSubscription.toList.map codexPushed
  let location ← repositoryLocation parseUrl project.repository
  if location.transport = .ssh ∧ (spec.git.bind Git.ssh).isNone then
    .error "SSH repositories require a credential profile with an SSH key and known hosts"
  else
    let ssh ← (spec.git.bind Git.ssh).toList.mapM sshPushed
    let token ← spec.git.elim (.ok []) (gitTokenPushed parseUrl project)
    let identity := (spec.git.bind Git.identity).toList.map identityPushed
    let signing := (spec.git.bind Git.signing).toList.map signingPushed
    .ok (files ++ codex ++ ssh ++ token ++ identity ++ signing)

def assembled (env : List EnvVar) (pushed : List Pushed) : Projection where
  env := env ++ pushed.flatMap Pushed.env ++
    { name := "GIT_TERMINAL_PROMPT", value := "0" } :: gitConfigEnv (pushed.flatMap Pushed.gitConfig)
  volumes := pushed.flatMap Pushed.volumes
  daemonMounts := pushed.flatMap Pushed.daemonMounts
  checkoutMounts := pushed.flatMap Pushed.checkoutMounts

/-- The variable of a workspace without a profile. -/
def legacyEnv (workspace : PlacedWorkspace) : EnvVar where
  name := "CLAUDE_CODE_OAUTH_TOKEN"
  valueFrom := some { secretKeyRef := some ⟨workspace.spec.credentialProfile, "token"⟩ }

def credentialProjection (workspace : PlacedWorkspace) (project : SourceProject)
    (supplied : Option CredentialProfile) : Except String Projection :=
  match supplied with
  | none => do
    let pushed ← profilePushed parseUrl project {}
    .ok (assembled [legacyEnv workspace] pushed)
  | some profile =>
    if !CredentialProfileSchema profile then .error "Invalid credential profile"
    else if profile.inNamespace ≠ workspace.inNamespace ∨
        profile.name ≠ workspace.spec.credentialProfile then
      .error "Credential profile must match the workspace reference and namespace"
    else do
      let pushed ← profilePushed parseUrl project profile.spec
      .ok (assembled (profile.spec.env.map EnvItem.envVar) pushed)

end Projection

end PaseoGateway.Credentials

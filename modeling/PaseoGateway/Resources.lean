/-
  PaseoGateway/Resources.lean
  ===========================
  **The claim, the Service and the Pod of a workspace.**

  Mirrors `desiredResources` of `src/src/controller/resources.ts`.  An absent list is
  the empty one.  The parts the source pushes into the finished Pod, for TLS and for the
  gateway, are functions from Pods to Pods.
-/
import PaseoGateway.CredentialProjection

namespace PaseoGateway.Resources

open Credentials
open Cluster (resourceName accessName)

/-! ### Configuration -/

inductive AccessMode where
  | ReadWriteOnce
  | ReadWriteOncePod
deriving DecidableEq, Repr

inductive PullPolicy where
  | Always
  | IfNotPresent
  | Never
deriving DecidableEq, Repr

structure RuntimeConfig where
  workspaceImage : String
  referenceCacheAvailable : Option Bool := none
  storageClass : Option String := none
  storageAccessMode : Option AccessMode := none
  tlsSecret : Option String := none
  storageSize : String
  backendSecret : String
  imagePullPolicy : PullPolicy
  gatewayUrl : Option String := none
deriving DecidableEq, Repr

/-- An optional text that is true as a condition. -/
def truthy (value : Option String) : Option String := value.filter (· ≠ "")

/-! ### Objects -/

structure ObjectMeta where
  name : String
  inNamespace : String
  labels : List (String × String)
deriving DecidableEq, Repr

structure OwnerReference where
  apiVersion : String
  kind : String
  name : String
  uid : String
  controller : Bool
  blockOwnerDeletion : Bool
deriving DecidableEq, Repr

structure PersistentVolumeClaim where
  metadata : ObjectMeta
  accessMode : AccessMode
  storage : String
  storageClassName : Option String
deriving DecidableEq, Repr

structure Service where
  metadata : ObjectMeta
  ownerReference : OwnerReference
  selector : List (String × String)
  port : Nat
  targetPort : Nat
deriving DecidableEq, Repr

inductive ProbeHandler where
  | tcpSocket (port : String)
  | exec (command : List String)
deriving DecidableEq, Repr

structure Probe where
  handler : ProbeHandler
  periodSeconds : Option Nat := none
  failureThreshold : Option Nat := none
deriving DecidableEq, Repr

structure Probes where
  startup : Option Probe := none
  readiness : Option Probe := none
  liveness : Option Probe := none
deriving DecidableEq, Repr

structure SecurityContext where
  allowPrivilegeEscalation : Bool
  readOnlyRootFilesystem : Bool
  dropped : List String
deriving DecidableEq, Repr

structure Container where
  name : String
  image : String
  imagePullPolicy : PullPolicy
  command : List String := []
  workingDir : Option String := none
  terminationMessage : Option (String × String) := none
  env : List EnvVar := []
  securityContext : SecurityContext
  ports : List (String × Nat) := []
  probes : Probes := {}
  requests : ResourceList
  limits : ResourceList
  volumeMounts : List VolumeMount
deriving DecidableEq, Repr

structure PodSecurity where
  runAsNonRoot : Bool
  runAsUser : Nat
  runAsGroup : Nat
  fsGroup : Nat
  fsGroupChangePolicy : String
  seccompProfile : String
deriving DecidableEq, Repr

structure Pod where
  metadata : ObjectMeta
  ownerReference : OwnerReference
  automountServiceAccountToken : Bool
  serviceAccountName : String
  restartPolicy : String
  terminationGracePeriodSeconds : Nat
  securityContext : PodSecurity
  initContainers : List Container
  containers : List Container
  volumes : List Volume
deriving DecidableEq, Repr

structure Desired where
  pvc : PersistentVolumeClaim
  service : Service
  pod : Pod
deriving DecidableEq, Repr

/-! ### Paths -/

/-- `dirname` of `node:path` -/
def dirname (path : String) : String :=
  match path.toList with
  | [] => "."
  | first :: rest =>
    let above := ((rest.reverse.dropWhile (· == '/')).dropWhile (· ≠ '/')).drop 1
    let slash := (rest.reverse.dropWhile (· == '/')).contains '/'
    if !slash then if first == '/' then "/" else "."
    else if first == '/' ∧ above.isEmpty then "//"
    else String.ofList (first :: above.reverse)

/-! ### `desiredResources` -/

/-- `{ ...fixed, ...overrides }` -/
def ResourceList.with (fixed overrides : ResourceList) : ResourceList where
  cpu := overrides.cpu.or fixed.cpu
  memory := overrides.memory.or fixed.memory
  ephemeralStorage := overrides.ephemeralStorage.or fixed.ephemeralStorage

def small (cpu memory : String) : ResourceList := { cpu := some cpu, memory := some memory }

def securityContext : SecurityContext where
  allowPrivilegeEscalation := false
  readOnlyRootFilesystem := true
  dropped := ["ALL"]

/-- The claim and the path of the reference cache. -/
structure Cache where
  claimName : String
  subPath : Option String
deriving DecidableEq, Repr

section Pod

variable (rt : Cluster.Runtime) (workspace : PlacedWorkspace) (project : SourceProject)
variable (config : RuntimeConfig) (profile : Option CredentialProfile) (credentials : Projection)

def referenceCache : Option Cache :=
  if config.referenceCacheAvailable ≠ some false then
    project.cacheClaimName.map fun claimName => ⟨claimName, truthy project.cacheSubPath⟩
  else none

def image : String :=
  ((project.runtime.bind RuntimeOverrides.image).or
    (profile.bind fun p => p.spec.runtime.bind RuntimeOverrides.image)).getD config.workspaceImage

/-- The overrides of the profile, and over them those of the project. -/
def resourceOverrides (field : Credentials.Resources → Option ResourceList) : ResourceList :=
  let ofRuntime (runtime : Option RuntimeOverrides) : ResourceList :=
    ((runtime.bind RuntimeOverrides.resources).bind field).getD {}
  ResourceList.with (ofRuntime (profile.bind fun p => p.spec.runtime)) (ofRuntime project.runtime)

def files : List FileItem := profile.elim [] fun p => p.spec.files

def profileHomeDirectories : List String :=
  "/data/home" :: ((files profile).map fun file => dirname ("/data/home/" ++ file.path)).eraseDups

def prepareHome : Container where
  name := "prepare-home"
  image := image project config profile
  imagePullPolicy := config.imagePullPolicy
  command := ["node", "-e",
    "const \x7bmkdir\x7d=require('node:fs/promises');(async()=>\x7bfor(const path of process.argv.slice(1))await mkdir(path,\x7brecursive:true\x7d)\x7d)().catch(error=>\x7bconsole.error(error.code??'PrepareHomeFailed');process.exitCode=1\x7d)"] ++
    profileHomeDirectories profile
  securityContext := securityContext
  requests := small "10m" "32Mi"
  limits := small "200m" "128Mi"
  volumeMounts := [⟨"data", "/data", none, false⟩, ⟨"tmp", "/tmp", none, false⟩]

def cacheMounts : List VolumeMount :=
  ((referenceCache project config).map fun cache =>
    ⟨"reference-cache", "/reference/git", cache.subPath, true⟩).toList

def checkout : Container where
  name := "checkout"
  image := image project config profile
  imagePullPolicy := config.imagePullPolicy
  command := ["node", "/opt/paseo/initialize.mjs"]
  terminationMessage := some ("/dev/termination-log", "File")
  env := credentials.env ++
    [{ name := "HOME", value := "/data/home" },
     { name := "FETCH_DEPTH", value := toString (workspace.spec.fetchDepth.getD 1) },
     { name := "PULL_REQUEST", value := (workspace.spec.pullRequest.map toString).getD "" },
     { name := "REPOSITORY", value := project.repository },
     { name := "REVISION", value := workspace.spec.revision },
     { name := "BRANCH", value := workspace.spec.branch.getD "" }]
  securityContext := securityContext
  requests := small "100m" "128Mi"
  limits := small "1" "512Mi"
  volumeMounts := credentials.checkoutMounts ++ cacheMounts project config ++
    [⟨"data", "/data", none, false⟩, ⟨"tmp", "/tmp", none, false⟩,
     ⟨"checkout-budget", "/run/paseo-checkout", none, false⟩]

def daemonProbe (failureThreshold : Option Nat) (periodSeconds : Nat) : Probe where
  handler := .tcpSocket "daemon"
  periodSeconds := periodSeconds
  failureThreshold := failureThreshold

def daemon : Container where
  name := "daemon"
  image := image project config profile
  imagePullPolicy := config.imagePullPolicy
  workingDir := workspacePath workspace.metadata.name
  securityContext := securityContext
  env := credentials.env ++
    [{ name := "HOME", value := "/home/paseo" },
     { name := "PASEO_HOME", value := "/home/paseo/.paseo" },
     { name := "PASEO_LISTEN"
       value := if (truthy config.tlsSecret).isSome then "127.0.0.1:6767" else "0.0.0.0:6767" },
     { name := "PASEO_HOSTNAMES"
       value := resourceName rt workspace.toWorkspace ++ "," ++
         resourceName rt workspace.toWorkspace ++ "." ++ workspace.inNamespace ++ ".svc" },
     { name := "PASEO_PASSWORD"
       valueFrom := some { secretKeyRef := some ⟨config.backendSecret, "password"⟩ } }]
  ports := [("daemon", 6767)]
  probes := {
    startup := daemonProbe (some 60) 5
    readiness := daemonProbe none 5
    liveness := daemonProbe (some 3) 20 }
  requests := ResourceList.with (small "250m" "512Mi")
    (resourceOverrides project profile Credentials.Resources.requests)
  limits := ResourceList.with (small "2" "2Gi")
    (resourceOverrides project profile Credentials.Resources.limits)
  volumeMounts := credentials.daemonMounts ++
    [⟨"data", "/home/paseo", some "home", false⟩,
     ⟨"data", workspacePath workspace.metadata.name, some "workspace", false⟩,
     ⟨"tmp", "/tmp", none, false⟩]

def dataVolume : Volume where
  name := "data"
  source :=
    if workspace.spec.retentionPolicy.any fun policy => policy.storage = .Ephemeral then
      .emptyDir config.storageSize
    else .persistentVolumeClaim (resourceName rt workspace.toWorkspace) false

def volumes : List Volume :=
  credentials.volumes ++
    ((referenceCache project config).map fun cache =>
      ⟨"reference-cache", .persistentVolumeClaim cache.claimName true⟩).toList ++
    [dataVolume rt workspace config, ⟨"tmp", .emptyDir "512Mi"⟩,
     ⟨"checkout-budget", .emptyDir "1Mi"⟩]

def labels (uid : String) : List (String × String) :=
  [("app.kubernetes.io/managed-by", "paseo-kubernetes"),
   ("app.kubernetes.io/component", "workspace"),
   ("paseo-gateway.manziman.github.io/workspace-uid", uid),
   ("paseo-gateway.manziman.github.io/credential-profile", workspace.spec.credentialProfile),
   ("paseo-gateway.manziman.github.io/project", workspace.spec.projectRef)]

def metadata (uid : String) : ObjectMeta where
  name := resourceName rt workspace.toWorkspace
  inNamespace := workspace.inNamespace
  labels := labels workspace uid

def ownerReference (uid : String) : OwnerReference where
  apiVersion := "paseo-gateway.manziman.github.io/v1alpha1"
  kind := "PaseoWorkspace"
  name := workspace.metadata.name
  uid := uid
  controller := true
  blockOwnerDeletion := false

/-- The Pod before TLS and the gateway are wired in. -/
def basePod (uid : String) : Pod where
  metadata := metadata rt workspace uid
  ownerReference := ownerReference workspace uid
  automountServiceAccountToken := false
  serviceAccountName := "paseo-workspace"
  restartPolicy := "Always"
  terminationGracePeriodSeconds := 60
  securityContext := {
    runAsNonRoot := true
    runAsUser := 1000
    runAsGroup := 1000
    fsGroup := 1000
    fsGroupChangePolicy := "OnRootMismatch"
    seccompProfile := "RuntimeDefault" }
  initContainers := (if (files profile).isEmpty then [] else [prepareHome project config profile]) ++
    [checkout workspace project config profile credentials]
  containers := [daemon rt workspace project config profile credentials]
  volumes := volumes rt workspace project config credentials

/-! ### TLS and the gateway -/

def Container.push (container : Container) (env : List EnvVar) (mount : VolumeMount) : Container :=
  { container with
    env := container.env ++ env
    volumeMounts := container.volumeMounts ++ [mount] }

def tlsProbe (failureThreshold : Option Nat) (periodSeconds : Nat) : Probe where
  handler := .exec ["node", "/opt/paseo/tls-proxy.mjs", "probe"]
  periodSeconds := periodSeconds
  failureThreshold := failureThreshold

/-- The unencrypted daemon is loopback-only, so its probes run inside the Pod. -/
def tlsDaemon (container : Container) : Container :=
  { container.push [{ name := "NODE_EXTRA_CA_CERTS", value := "/run/paseo-tls/ca.crt" }]
      ⟨"transport-ca", "/run/paseo-tls", none, true⟩ with
    probes := {
      startup := tlsProbe (some 60) 5
      readiness := tlsProbe none 5
      liveness := tlsProbe (some 3) 20 } }

def transport : Container where
  name := "transport"
  image := image project config profile
  imagePullPolicy := config.imagePullPolicy
  command := ["node", "/opt/paseo/tls-proxy.mjs"]
  securityContext := securityContext
  ports := [("tls", 6768)]
  requests := small "10m" "32Mi"
  limits := small "200m" "128Mi"
  probes := { readiness := some { handler := .tcpSocket "tls", periodSeconds := some 5 } }
  volumeMounts := [⟨"transport", "/run/paseo-tls", none, true⟩]

def withTls (pod : Pod) : Pod :=
  match truthy config.tlsSecret with
  | none => pod
  | some tlsSecret =>
    { pod with
      containers := pod.containers.modifyHead tlsDaemon ++ [transport project config profile]
      volumes := pod.volumes ++
        [⟨"transport", .secret tlsSecret [] (some 288)⟩,
         ⟨"transport-ca", .secret tlsSecret [⟨"ca.crt", "ca.crt", none⟩] (some 288)⟩] }

def gatewayEnv (gatewayUrl : String) : List EnvVar :=
  [{ name := "PATH", value := "/opt/paseo/bin:/usr/local/bin:/usr/bin:/bin" },
   { name := "PASEO_GATEWAY_URL", value := gatewayUrl },
   { name := "PASEO_GATEWAY_TOKEN_FILE", value := "/run/paseo-gateway/token" },
   { name := "PASEO_CLUSTER_WORKSPACE_ID", value := workspace.metadata.name },
   { name := "PASEO_CLUSTER_PROJECT_ID", value := workspace.spec.projectRef }]

def withGateway (pod : Pod) : Pod :=
  match truthy config.gatewayUrl with
  | none => pod
  | some gatewayUrl =>
    { pod with
      containers := pod.containers.modifyHead fun container =>
        container.push (gatewayEnv workspace gatewayUrl)
          ⟨"gateway-access", "/run/paseo-gateway", none, true⟩
      volumes := pod.volumes ++
        [⟨"gateway-access", .secret (accessName rt workspace.toWorkspace) [] (some 288)⟩] }

end Pod

section Desired

variable (rt : Cluster.Runtime) (parseUrl : String → Option Url)

/-- Resources are deterministic; the claim has no owner, so that deletion retains data. -/
def desiredResources (workspace : PlacedWorkspace) (project : SourceProject)
    (config : RuntimeConfig) (profile : Option CredentialProfile) : Except String Desired := do
  let credentials ← credentialProjection parseUrl workspace project profile
  match truthy workspace.metadata.uid with
  | none => .error "Workspace must have a Kubernetes UID"
  | some uid =>
    .ok {
      pvc := {
        metadata := metadata rt workspace uid
        accessMode := config.storageAccessMode.getD .ReadWriteOnce
        storage := config.storageSize
        storageClassName := truthy config.storageClass }
      service := {
        metadata := metadata rt workspace uid
        ownerReference := ownerReference workspace uid
        selector := labels workspace uid
        port := 6767
        targetPort := if (truthy config.tlsSecret).isSome then 6768 else 6767 }
      pod := withGateway rt workspace config
        (withTls project config profile
          (basePod rt workspace project config profile credentials uid)) }

end Desired

end PaseoGateway.Resources

/-
  PaseoGateway/Domain.lean
  ========================
  **The records of the control plane and the identifiers built from them.**

  Mirrors `src/src/domain.ts` and the authorization predicates of
  `src/src/gateway/auth.ts`.  Only the fields some modelled function reads are
  kept.  Instants are milliseconds since the epoch; the ISO text the code stores
  is in bijection with them, and the one place where the text itself is compared
  (`RetainedHistory.lean`) models the text.
-/
import PaseoGateway.Base64Url

namespace PaseoGateway

/-! ### Workspaces and projects -/

inductive Residency where
  | Running
  | Suspended
  | Archived
deriving DecidableEq, Repr

inductive Phase where
  | Pending
  | Ready
  | Suspended
  | Archived
  | Failed
deriving DecidableEq, Repr

inductive Storage where
  | Retain
  | Ephemeral
deriving DecidableEq, Repr

structure RetentionPolicy where
  storage : Storage
  ttlAfterArchivedSeconds : Option Nat := none
deriving DecidableEq, Repr

structure Metadata where
  name : String
  uid : Option String := none
  generation : Option Nat := none
  deletionTimestamp : Option String := none
  annotations : List (String × String) := []
  creationTimestamp : Option String := none
deriving DecidableEq, Repr

structure WorkspaceSpec where
  projectRef : String
  displayName : String
  residency : Residency := .Running
  credentialProfile : String
  revision : String := "HEAD"
  branch : Option String := none
  fetchDepth : Option Nat := none
  pullRequest : Option Nat := none
  retentionPolicy : Option RetentionPolicy := none
deriving DecidableEq, Repr

structure LastFailure where
  reason : String
  message : String
  failedAt : String
deriving DecidableEq, Repr

/-- The condition of type `Ready`. -/
structure ReadyCondition where
  status : Bool
  reason : Phase
  message : String
  observedGeneration : Nat
  lastTransitionTime : String
deriving DecidableEq, Repr

structure WorkspaceStatus where
  phase : Phase
  message : String
  observedGeneration : Nat
  pvcName : Option String := none
  archivedAt : Option String := none
  teardownCompletedAt : Option String := none
  storageDeletedAt : Option String := none
  lastFailure : Option LastFailure := none
  conditions : List ReadyCondition := []
  backendWorkspaceId : Option String := none
deriving DecidableEq, Repr

structure Workspace where
  metadata : Metadata
  spec : WorkspaceSpec
  status : Option WorkspaceStatus := none
deriving DecidableEq, Repr

structure Project where
  name : String
  credentialProfile : String
  revision : String := "HEAD"
  maxRunningWorkspaces : Option Nat := none
  cacheClaimName : Option String := none
  displayName : String := ""
deriving DecidableEq, Repr

def workspacePath (id : String) : String := "/workspaces/" ++ id

def projectPath (id : String) : String := "/projects/" ++ id

/-! ### Principals -/

structure WorkspaceClaims where
  projectIds : List String
  credentialProfiles : List String
  originWorkspaceId : String
  originWorkspaceUid : String
  expiresAt : Nat
  tokenId : String
deriving DecidableEq, Repr

inductive GatewayPrincipal where
  | owner
  | workspace (claims : WorkspaceClaims)
deriving DecidableEq, Repr

def authorizeProject : GatewayPrincipal → String → Bool
  | .owner, _ => true
  | .workspace c, projectId => c.projectIds.contains projectId

def authorizeWorkspace : GatewayPrincipal → Workspace → Bool
  | .owner, _ => true
  | .workspace c, w =>
    c.projectIds.contains w.spec.projectRef &&
      c.credentialProfiles.contains w.spec.credentialProfile

/-- Re-reads the origin workspace: a name reused after deletion never revives an
    old grant. -/
def principalIsActive (nowSeconds : Nat) (workspaces : List Workspace) :
    GatewayPrincipal → Bool
  | .owner => true
  | .workspace c =>
    if c.expiresAt ≤ nowSeconds then false
    else match workspaces.find? fun row => row.metadata.name == c.originWorkspaceId with
      | none => false
      | some origin =>
        origin.metadata.uid == some c.originWorkspaceUid &&
          origin.metadata.deletionTimestamp.isNone &&
          origin.spec.residency == .Running &&
          authorizeWorkspace (.workspace c) origin

/-! ### Scoped identifiers

`scopedId` joins a workspace name and the base64url text of a backend id with a
tilde, which occurs in neither. -/

def scopedId (workspaceId backendId : String) : String :=
  workspaceId ++ "~" ++ String.ofList (base64UrlEncode backendId.toUTF8.toList)

def isLowerAlnum (c : Char) : Bool := ('a' ≤ c && c ≤ 'z') || ('0' ≤ c && c ≤ '9')

/-- `^([a-z0-9][a-z0-9-]*)~([A-Za-z0-9_-]+)$`, and only the canonical spelling of
    the backend id.  Bytes that are no UTF-8 text never re-encode to the same
    spelling, so they are refused with the noncanonical ones. -/
def parseScopedId (id : String) : Except String (String × String) :=
  let chars := id.toList
  let workspaceId := chars.takeWhile (· ≠ '~')
  let code := (chars.dropWhile (· ≠ '~')).drop 1
  let sextets := code.filterMap fun c => base64UrlAlphabet.idxOf? c
  if (workspaceId.head?.map isLowerAlnum).getD false
      && workspaceId.all (fun c => isLowerAlnum c || c == '-')
      && !code.isEmpty && sextets.length == code.length then
    match String.fromUTF8? ⟨(base64UrlDecode sextets).toArray⟩ with
    | none => .error "Noncanonical scoped ID"
    | some backendId =>
      if scopedId (String.ofList workspaceId) backendId = id then
        .ok (String.ofList workspaceId, backendId)
      else .error "Noncanonical scoped ID"
  else .error "Invalid scoped ID"

/-- Only canonical spellings are accepted. -/
theorem scopedId_of_parse {id workspaceId backendId : String}
    (h : parseScopedId id = .ok (workspaceId, backendId)) :
    scopedId workspaceId backendId = id := by
  unfold parseScopedId at h
  simp only at h
  split at h
  · split at h
    · cases h
    · split at h
      · rename_i hcanon
        cases h
        exact hcanon
      · cases h
  · cases h

/-- A scoped id stands for one workspace and one backend id. -/
theorem scopedId_inj {workspaceId workspaceId' backendId backendId' : String}
    (h : scopedId workspaceId backendId = scopedId workspaceId' backendId') :
    workspaceId = workspaceId' ∧ backendId = backendId' := by
  have hlists : (base64UrlEncode backendId.toUTF8.toList).reverse ++
        '~' :: workspaceId.toList.reverse =
      (base64UrlEncode backendId'.toUTF8.toList).reverse ++
        '~' :: workspaceId'.toList.reverse := by
    simpa [scopedId] using congrArg (fun s : String => s.toList.reverse) h
  have hnot := tilde_notMem_base64UrlEncode backendId.toUTF8.toList
  have hnot' := tilde_notMem_base64UrlEncode backendId'.toUTF8.toList
  rw [← List.mem_reverse] at hnot hnot'
  have hsplit : (base64UrlEncode backendId.toUTF8.toList).reverse =
      (base64UrlEncode backendId'.toUTF8.toList).reverse ∧
      workspaceId.toList.reverse = workspaceId'.toList.reverse := by
    rcases List.append_eq_append_iff.mp hlists with ⟨middle, hcode, heq⟩ | ⟨middle, hcode, heq⟩
    · rcases List.cons_eq_append_iff.mp heq with ⟨rfl, heq'⟩ | ⟨middle', rfl, _⟩
      · exact ⟨by simpa using hcode.symm, (List.cons.inj heq').2.symm⟩
      · exact absurd (hcode ▸ List.mem_append_right _ List.mem_cons_self) hnot'
    · rcases List.cons_eq_append_iff.mp heq with ⟨rfl, heq'⟩ | ⟨middle', rfl, _⟩
      · exact ⟨by simpa using hcode, (List.cons.inj heq').2⟩
      · exact absurd (hcode ▸ List.mem_append_right _ List.mem_cons_self) hnot
  exact ⟨String.toList_inj.mp (List.reverse_inj.mp hsplit.2),
    toUTF8_inj (base64UrlEncode_inj (List.reverse_inj.mp hsplit.1))⟩

theorem tilde_scopedId (workspaceId backendId : String) :
    (scopedId workspaceId backendId).toList.contains '~' = true := by
  simp [scopedId]

end PaseoGateway

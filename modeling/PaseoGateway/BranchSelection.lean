/-
  PaseoGateway/BranchSelection.lean
  =================================
  **From a listed branch to a checked-out one.**

  Mirrors `parseRefs`, `normalizeName` and `inspect` of `src/docker/inspect-refs.mjs`,
  `src/src/gateway/project-ref-selection.ts`, the revision and the branch that
  `createWorkspace` records (`src/src/gateway/workspace-operations.ts`) with their
  checks in `src/src/domain.ts`, and the fetch and the switch of
  `src/docker/initialize.mjs`.  Git itself is what its manual says of the commands
  that are run: which ref of the remote a short name stands for, and which names
  `check-ref-format --branch` accepts.
-/
import PaseoGateway.CredentialSchema
import PaseoGateway.Domain

namespace PaseoGateway.BranchSelection

open PaseoGateway.Credentials (isAlnum isDigit startsWith matchesClass)

/-- `value.slice(start.length)` -/
def slice (value start : String) : String := String.ofList (value.toList.drop start.toList.length)

/-! ### The inspector -/

def MAX_REFS : Nat := 10000

def isHex (c : Char) : Bool := isDigit c || ('a' ≤ c && c ≤ 'f')

/-- `/^([0-9a-f]{40}|[0-9a-f]{64})\trefs\/heads\/([^\r\n]+)$/`, its second group.  A tab
    is no digit, so the digits of a match end where the run of them does. -/
def headOf (line : String) : Option String :=
  let digits := line.toList.takeWhile isHex
  let rest := String.ofList (line.toList.dropWhile isHex)
  if (digits.length == 40 || digits.length == 64) && startsWith rest "\trefs/heads/" then
    let branch := slice rest "\trefs/heads/"
    if branch != "" && branch.toList.all (fun c => c != '\r' && c != '\n') then some branch
    else none
  else none

def parseLine (refs : List String) (line : String) : Except String (List String) :=
  if line == "" then .ok refs
  else match headOf line with
    | none => .error "invalid-ref-list"
    | some branch =>
      if Js.length branch > 200 then .error "invalid-ref-list"
      else if refs.length + 1 > MAX_REFS then .error "ref-list-too-large"
      else .ok (refs ++ [branch])

def parseRefs (output : String) : Except String (List String) :=
  ((output.toList.splitOn '\n').map String.ofList).foldlM parseLine []

def normalizeName (value : String) : Option String :=
  let trimmed := Js.trim value
  if startsWith trimmed "refs/remotes/origin/" then kept (slice trimmed "refs/remotes/origin/")
  else if startsWith trimmed "refs/remotes/" then none
  else if startsWith trimmed "refs/heads/" then kept (slice trimmed "refs/heads/")
  else if startsWith trimmed "origin/" then kept (slice trimmed "origin/")
  else kept trimmed
where
  kept (name : String) : Option String :=
    if name != "" && name != "HEAD" && name != "origin" then some name else none

structure Validation where
  valid : Bool
  found : Bool
deriving DecidableEq, Repr

/-- `inspect` in mode `validate`; `lsRemote` gives the output for a pattern. -/
def inspectName (checkRefFormat : String → Bool) (lsRemote : String → Except String String)
    (refName : String) : Except String Validation :=
  match normalizeName refName with
  | none => .ok ⟨false, false⟩
  | some name =>
    if Js.length name > 200 then .ok ⟨false, false⟩
    else if checkRefFormat name then do
      let output ← lsRemote ("refs/heads/" ++ name)
      let refs ← parseRefs output
      return ⟨true, refs.contains name⟩
    else .ok ⟨false, false⟩

/-- The UTF-16 code units by which `<` compares two strings. -/
def codeUnits (s : String) : List Nat :=
  s.toList.flatMap fun c =>
    if c.toNat < 0x10000 then [c.toNat]
    else [0xD800 + (c.toNat - 0x10000) / 0x400, 0xDC00 + (c.toNat - 0x10000) % 0x400]

/-- `a.includes(b)` -/
def includes (a b : String) : Bool := a.toList.tails.any b.toList.isPrefixOf

/-- `inspect` in mode `suggest`; no `limit` stands for one that is no integer. -/
def inspectQuery (toLowerCase : String → String) (lsRemote : Except String String)
    (refQuery : String) (limit : Option Nat) : Except String (List String) :=
  let rawQuery := toLowerCase (Js.trim refQuery)
  let query := (normalizeName rawQuery).getD rawQuery
  match limit with
  | none => .error "invalid-query"
  | some limit =>
    if limit < 1 || limit > 200 || Js.length query > 200 then .error "invalid-query"
    else do
      let output ← lsRemote
      let refs ← parseRefs output
      let names := (refs.dedup.filter fun name => includes (toLowerCase name) query).mergeSort
        fun a b => codeUnits a ≤ codeUnits b
      return names.take (min limit 20)

/-! ### The gateway -/

def fetchRevisionForRef (ref : String) : Except String String :=
  let remote :=
    if startsWith ref "refs/remotes/origin/" then some (slice ref "refs/remotes/origin/")
    else if startsWith ref "origin/" then some (slice ref "origin/")
    else none
  match remote with
  | some remote =>
    if remote == "" || remote == "HEAD" then .error "Selected remote branch is invalid"
    else .ok ("refs/heads/" ++ remote)
  | none =>
    if startsWith ref "refs/remotes/" then
      .error "Only configured origin remote refs are supported"
    else .ok ref

def checkedOutBranchName (ref : String) : Except String String := do
  let normalized ← fetchRevisionForRef ref
  if startsWith normalized "refs/heads/" then return slice normalized "refs/heads/"
  return normalized

def normalizeProjectBranchName (raw : String) : Option String :=
  let trimmed := Js.trim raw
  if startsWith trimmed "refs/remotes/origin/" then kept (slice trimmed "refs/remotes/origin/")
  else if startsWith trimmed "refs/remotes/" then none
  else if startsWith trimmed "refs/heads/" then kept (slice trimmed "refs/heads/")
  else if startsWith trimmed "origin/" then kept (slice trimmed "origin/")
  else kept trimmed
where
  kept (name : String) : Option String :=
    if name != "" && name != "HEAD" && name != "origin" then some name else none

inductive SourceAction where
  | checkout
  | branchOff
deriving DecidableEq, Repr

structure CheckoutSource where
  forge : Option String
  number : Option Nat
  projectPath : Option String
deriving DecidableEq, Repr

/-- A source of kind `worktree`, as far as it names refs. -/
structure WorktreeSource where
  action : Option SourceAction
  refName : Option String
  baseBranch : Option String
  branchName : Option String
  worktreeSlug : Option String
  checkoutSource : Option CheckoutSource
  githubPrNumber : Option Nat
deriving DecidableEq, Repr

/-- What the record of a workspace says of its checkout. -/
structure Refs where
  revision : String
  branch : Option String
  pullRequest : Option Nat
deriving DecidableEq, Repr

/-- An optional string as a condition: the empty one is falsy. -/
def truthy (value : Option String) : Option String := value.filter (· != "")

def initialIsAlnum (value : String) : Bool := (value.toList.head?.map isAlnum).getD false

def revisionClass (c : Char) : Bool :=
  isAlnum c || ['.', '_', '/', '@', '\x7b', '\x7d', '^', '~', '+', '-'].contains c

def branchClass (c : Char) : Bool := isAlnum c || ['.', '_', '/', '-'].contains c

/-- `/^[A-Za-z0-9][A-Za-z0-9._/@{}^~+-]*$/` on 1 to 200 code units -/
def revisionSchema (value : String) : Bool :=
  matchesClass revisionClass 1 200 value && initialIsAlnum value

/-- The same with the characters of `branchClass`. -/
def branchSchema (value : String) : Bool :=
  matchesClass branchClass 1 200 value && initialIsAlnum value

/-- The pull request a source names; `0` is falsy wherever it is asked for. -/
def pullRequestOf (source : WorktreeSource) : Option Nat :=
  ((source.checkoutSource.bind (·.number)).or source.githubPrNumber).filter (· != 0)

def branchOf (name : String) (source : WorktreeSource) : Except String (Option String) :=
  match source.branchName with
  | some branch => .ok (some branch)
  | none =>
    match source.action, pullRequestOf source, truthy source.refName with
    | some .branchOff, _, _ => .ok (some (source.worktreeSlug.getD ("paseo/" ++ name)))
    | some .checkout, none, some refName => (checkedOutBranchName refName).map some
    | _, _, _ => .ok none

/-- The part of `createWorkspace` that reads a worktree source: `name` is the name of the
    workspace, and the last step is what `WorkspaceSchema` asks of the two texts. -/
def workspaceRefs (project : Project) (name : String) (source : WorktreeSource) :
    Except String Refs :=
  if (truthy (source.checkoutSource.bind (·.forge))).any (· != "github") then
    .error "Only GitHub pull-request checkout is supported"
  else if (truthy (source.checkoutSource.bind (·.projectPath))).isSome then
    .error "Cross-repository pull-request checkout is not supported"
  else do
    let ref := (source.baseBranch.or source.refName).getD project.revision
    let revision ← fetchRevisionForRef ref
    let branch ← branchOf name source
    let refs : Refs := ⟨revision, truthy branch, pullRequestOf source⟩
    if revisionSchema refs.revision && refs.branch.all branchSchema then .ok refs
    else .error "Invalid workspace"

/-! ### The checkout -/

/-- What a fetch brings: the tip of a ref of the remote, or one object asked for by its id. -/
inductive Fetched where
  | ref (name : String)
  | object (id : String)
deriving DecidableEq, Repr

/-- The remote and the Git that talks to it. -/
structure Git where
  refs : List String
  checkRefFormat : String → Bool

/-- A fully spelled object id -/
def isObjectId (name : String) : Bool :=
  name.toList.length == 40 && name.toList.all fun c => isHex c || ('A' ≤ c && c ≤ 'F')

/-- The refs a name may stand for, the first that exists being the one it does
    (gitrevisions, "Specifying revisions"). -/
def candidates (name : String) : List String :=
  [name, "refs/" ++ name, "refs/tags/" ++ name, "refs/heads/" ++ name, "refs/remotes/" ++ name,
    "refs/remotes/" ++ name ++ "/HEAD"]

/-- `git fetch -- origin name` for a name without refspec syntax.  `tag` alone announces
    the name of a tag that does not follow, and the command fails. -/
def Git.fetch (git : Git) (name : String) : Option Fetched :=
  if name == "tag" then none
  else if isObjectId name then some (.object name)
  else ((candidates name).find? git.refs.contains).map .ref

/-- Where the checkout leaves `HEAD`: on a branch or detached, and what was fetched for it. -/
structure Head where
  branch : Option String
  tip : Fetched
deriving DecidableEq, Repr

/-- The commands of `initializeInternal` in a repository with the branches `locals`; a
    result `none` is a checkout that failed. -/
def checkOut (git : Git) (locals : List (String × Fetched)) (refs : Refs) : Option Head := do
  let revision := match refs.pullRequest with
    | some number => "refs/pull/" ++ toString number ++ "/head"
    | none => if refs.revision == "" then "HEAD" else refs.revision
  guard (revision.toList.all revisionClass && initialIsAlnum revision)
  let fetchHead ← git.fetch revision
  match truthy refs.branch with
  | none => return ⟨none, fetchHead⟩
  | some branch =>
    guard (git.checkRefFormat branch)
    -- `git switch branch` where the branch exists, `git switch -c branch` otherwise
    return ⟨some branch, (locals.lookup branch).getD fetchHead⟩

/-- A new workspace: its record, and the checkout in its fresh repository. -/
def createAndCheckOut (git : Git) (project : Project) (name : String) (source : WorktreeSource) :
    Option Head :=
  match workspaceRefs project name source with
  | .error _ => none
  | .ok refs => checkOut git [] refs

end PaseoGateway.BranchSelection

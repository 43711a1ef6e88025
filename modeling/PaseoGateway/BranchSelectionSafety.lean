/-
  PaseoGateway/BranchSelectionSafety.lean
  =======================================
  **Which listed branches are the ones that get used.**

  Every text function here strips a prefix or leaves its argument alone, so a name
  comes back unchanged exactly when it has none of the prefixes (`denoted_iff`), and the
  full name of a branch comes back as the branch (`normalizeName_full`).  A full name is
  fetched as it stands.  The fetch of a bare name is left to Git, which tries three other
  refs before the branch (`fetch_head_iff`); `used_iff` says for which names that is it.
-/
import PaseoGateway.BranchSelection
import PaseoGateway.Fallible

namespace PaseoGateway.BranchSelection

open PaseoGateway.Credentials (isAlnum isDigit isUpper isLower startsWith matchesClass)
open PaseoGateway.Fallible (bind_eq_ok)

/-! ### Prefixes -/

theorem slice_append (start rest : String) : slice (start ++ rest) start = rest := by
  simp [slice]

theorem eq_append_of_startsWith {value start : String} (h : startsWith value start = true) :
    value = start ++ slice value start := by
  obtain ⟨rest, hrest⟩ := List.isPrefixOf_iff_prefix.mp h
  have hvalue : value = start ++ String.ofList rest := by
    rw [String.ext_iff, String.toList_append, String.toList_ofList, hrest]
  rw [hvalue, slice_append]

theorem slice_ne {value start : String} (hstart : start ≠ "") (h : startsWith value start = true) :
    slice value start ≠ value := by
  intro heq
  have hlen := congrArg (·.toList.length) (eq_append_of_startsWith h)
  rw [heq] at hlen
  simp only [String.toList_append, List.length_append] at hlen
  have hnil : start.toList = [] := List.length_eq_zero_iff.mp (by omega)
  exact hstart (by rw [String.ext_iff, hnil]; rfl)

/-- The prefixes that are read as parts of a tracking name. -/
def stripped : List String := ["refs/remotes/", "refs/heads/", "origin/"]

/-- A name that no function here takes anything off. -/
def Plain (n : String) : Prop := ∀ start ∈ stripped, startsWith n start = false

instance (n : String) : Decidable (Plain n) := inferInstanceAs (Decidable (∀ start ∈ stripped, _))

theorem Plain.tracking {n : String} (h : Plain n) : startsWith n "refs/remotes/origin/" = false := by
  rw [Bool.eq_false_iff]
  intro htrack
  have hremotes : startsWith n "refs/remotes/" = true := by
    rw [startsWith, List.isPrefixOf_iff_prefix] at htrack ⊢
    exact List.IsPrefix.trans ⟨"origin/".toList, rfl⟩ htrack
  rw [h _ (by simp [stripped])] at hremotes
  cases hremotes

/-! ### The two normalisers -/

theorem normalize_agree (s : String) : normalizeName s = normalizeProjectBranchName s := rfl

theorem kept_eq_some {name n : String} :
    normalizeName.kept name = some n ↔ name = n ∧ n ≠ "" ∧ n ≠ "HEAD" ∧ n ≠ "origin" := by
  unfold normalizeName.kept
  split
  · next h =>
    simp only [Bool.and_eq_true, bne_iff_ne, ne_eq] at h
    constructor
    · rintro ⟨⟩
      exact ⟨rfl, h.1.1, h.1.2, h.2⟩
    · rintro ⟨rfl, -⟩
      rfl
  · next h =>
    simp only [Bool.and_eq_true, bne_iff_ne, ne_eq] at h
    constructor
    · nofun
    · rintro ⟨rfl, h₁, h₂, h₃⟩
      exact absurd ⟨⟨h₁, h₂⟩, h₃⟩ h

/-- On a trimmed text the normaliser is the identity exactly where it strips nothing. -/
theorem normalizeName_self_iff {n : String} (htrim : Js.trim n = n) :
    normalizeName n = some n ↔ Plain n ∧ n ≠ "" ∧ n ≠ "HEAD" ∧ n ≠ "origin" := by
  have hkept : ∀ start, start ≠ "" → startsWith n start = true →
      normalizeName.kept (slice n start) ≠ some n := fun start hne h heq =>
    slice_ne hne h (kept_eq_some.mp heq).1
  constructor
  · intro h
    simp only [normalizeName, htrim] at h
    split at h
    · next hs => exact absurd h (hkept _ (by decide) hs)
    split at h
    · cases h
    split at h
    · next hs => exact absurd h (hkept _ (by decide) hs)
    split at h
    · next hs => exact absurd h (hkept _ (by decide) hs)
    next h₁ h₂ h₃ =>
    refine ⟨?_, (kept_eq_some.mp h).2⟩
    simp only [Plain, stripped, List.forall_mem_cons]
    exact ⟨eq_false_of_ne_true h₁, eq_false_of_ne_true h₂, eq_false_of_ne_true h₃, nofun⟩
  · rintro ⟨hplain, hne⟩
    have htrack := hplain.tracking
    simp only [Plain, stripped, List.forall_mem_cons] at hplain
    obtain ⟨h₁, h₂, h₃, -⟩ := hplain
    simp only [normalizeName, htrim, htrack, h₁, h₂, h₃, Bool.false_eq_true, if_false]
    exact kept_eq_some.mpr ⟨rfl, hne⟩

theorem length_trim_le (s : String) : (Js.trim s).toList.length ≤ s.toList.length := by
  rw [Js.trim, String.toList_ofList]
  exact Nat.le_trans (List.rdropWhile_prefix Js.isSpace _).length_le (List.dropWhile_suffix _).length_le

/-- A name that its validation denotes: without white space around it, without a prefix that
    is taken off, and no word with a meaning of its own. -/
structure Denoted (n : String) : Prop where
  trimmed : Js.trim n = n
  plain : Plain n
  filled : n ≠ ""
  word : n ≠ "HEAD" ∧ n ≠ "origin"

theorem trimmed_of_normalize {n : String} (h : normalizeName n = some n) : Js.trim n = n := by
  have hstripped : ∀ start, start ≠ "" → startsWith (Js.trim n) start = true →
      normalizeName.kept (slice (Js.trim n) start) ≠ some n := by
    intro start hne hstart heq
    have hslice := (kept_eq_some.mp heq).1
    have hlen := congrArg (·.toList.length) (eq_append_of_startsWith hstart)
    rw [hslice] at hlen
    simp only [String.toList_append, List.length_append] at hlen
    have htrim := length_trim_le n
    have hnil : start.toList = [] := List.length_eq_zero_iff.mp (by omega)
    exact hne (by rw [String.ext_iff, hnil]; rfl)
  simp only [normalizeName] at h
  split at h
  · next hs => exact absurd h (hstripped _ (by decide) hs)
  split at h
  · cases h
  split at h
  · next hs => exact absurd h (hstripped _ (by decide) hs)
  split at h
  · next hs => exact absurd h (hstripped _ (by decide) hs)
  · exact (kept_eq_some.mp h).1

theorem denoted_iff (n : String) : normalizeName n = some n ↔ Denoted n := by
  constructor
  · intro h
    have htrim := trimmed_of_normalize h
    obtain ⟨hplain, hfilled, hword⟩ := (normalizeName_self_iff htrim).mp h
    exact ⟨htrim, hplain, hfilled, hword⟩
  · intro h
    exact (normalizeName_self_iff h.trimmed).mpr ⟨h.plain, h.filled, h.word⟩

theorem trim_eq_self {s : String} (h : ∀ c ∈ s.toList, Js.isSpace c = false) : Js.trim s = s := by
  have hdrop : s.toList.dropWhile Js.isSpace = s.toList :=
    List.dropWhile_eq_self_iff.mpr fun hl => by simp [h _ (List.getElem_mem hl)]
  have hrdrop : s.toList.rdropWhile Js.isSpace = s.toList :=
    List.rdropWhile_eq_self_iff.mpr fun hl => by simp [h _ (List.getLast_mem hl)]
  rw [Js.trim, hdrop, hrdrop, String.ofList_toList]

/-! ### The characters of a branch -/

theorem toNat_le_of_branchClass {c : Char} (h : branchClass c = true) :
    0x2D ≤ c.toNat ∧ c.toNat ≤ 0x7A := by
  have hle : ∀ {a b : Char}, a ≤ b → a.toNat ≤ b.toNat := fun h => UInt32.le_iff_toNat_le.mp h
  simp only [branchClass, isAlnum, isUpper, isLower, isDigit, Bool.or_eq_true, Bool.and_eq_true,
    decide_eq_true_eq, List.contains_eq_mem, List.mem_cons, List.not_mem_nil, or_false] at h
  rcases h with ((h | h) | h) | rfl | rfl | rfl | rfl
  · exact ⟨le_trans (by decide) (hle h.1), le_trans (hle h.2) (by decide)⟩
  · exact ⟨le_trans (by decide) (hle h.1), le_trans (hle h.2) (by decide)⟩
  · exact ⟨le_trans (by decide) (hle h.1), le_trans (hle h.2) (by decide)⟩
  all_goals decide

theorem not_isSpace_of_branchClass {c : Char} (h : branchClass c = true) : Js.isSpace c = false := by
  obtain ⟨hlow, hhigh⟩ := toNat_le_of_branchClass h
  simp only [Js.isSpace, List.contains_eq_mem, List.mem_cons, List.not_mem_nil, or_false,
    Bool.or_eq_false_iff, decide_eq_false_iff_not, Bool.and_eq_false_iff]
  omega

theorem trim_of_branchClass {n : String} (h : n.toList.all branchClass = true) : Js.trim n = n :=
  trim_eq_self fun c hc => not_isSpace_of_branchClass (List.all_eq_true.mp h c hc)

theorem branchClass_sub {c : Char} (h : branchClass c = true) : revisionClass c = true := by
  simp only [branchClass, revisionClass, Bool.or_eq_true, List.contains_eq_mem, List.mem_cons,
    List.not_mem_nil, or_false, decide_eq_true_eq] at h ⊢
  tauto

theorem revisionSchema_of_branch {n : String} (h : branchSchema n = true) :
    revisionSchema n = true := by
  simp only [branchSchema, revisionSchema, matchesClass, Bool.and_eq_true] at h ⊢
  refine ⟨⟨h.1.1, ?_⟩, h.2⟩
  exact List.all_eq_true.mpr fun c hc => branchClass_sub (List.all_eq_true.mp h.1.2 c hc)

theorem ne_empty_of_branchSchema {n : String} (h : branchSchema n = true) : n ≠ "" := by
  rintro rfl
  exact absurd h (by decide)

/-! ### Full names -/

/-- What precedes the branch in the names that a picker, a validation and Git itself have
    for it. -/
def fullNames : List String := ["refs/remotes/origin/", "origin/", "refs/heads/"]

theorem startsWith_append (start n : String) : startsWith (start ++ n) start = true := by
  rw [startsWith, List.isPrefixOf_iff_prefix, String.toList_append]
  exact List.prefix_append _ _

theorem normalizeName_full {n start : String} (hstart : start ∈ fullNames)
    (hspace : ∀ c ∈ n.toList, Js.isSpace c = false) (hfilled : n ≠ "") (hhead : n ≠ "HEAD")
    (horigin : n ≠ "origin") : normalizeName (start ++ n) = some n := by
  have hkept : normalizeName.kept n = some n := kept_eq_some.mpr ⟨rfl, hfilled, hhead, horigin⟩
  have htrim : Js.trim (start ++ n) = start ++ n := by
    refine trim_eq_self fun c hc => ?_
    rw [String.toList_append, List.mem_append] at hc
    rcases hc with hc | hc
    · have hstarts : ∀ start ∈ fullNames, start.toList.all branchClass = true := by decide
      exact not_isSpace_of_branchClass (List.all_eq_true.mp (hstarts start hstart) c hc)
    · exact hspace c hc
  simp only [fullNames, List.mem_cons, List.not_mem_nil, or_false] at hstart
  rcases hstart with rfl | rfl | rfl
  · rw [normalizeName]
    simp only [htrim, startsWith_append, if_true, slice_append, hkept]
  · have hno : startsWith ("origin/" ++ n) "refs/remotes/origin/" = false := by
      simp [startsWith, List.isPrefixOf]
    have hno' : startsWith ("origin/" ++ n) "refs/remotes/" = false := by
      simp [startsWith, List.isPrefixOf]
    have hno'' : startsWith ("origin/" ++ n) "refs/heads/" = false := by
      simp [startsWith, List.isPrefixOf]
    rw [normalizeName]
    simp only [htrim, hno, hno', hno'', startsWith_append, if_true, slice_append, hkept,
      Bool.false_eq_true, if_false]
  · have hno : startsWith ("refs/heads/" ++ n) "refs/remotes/origin/" = false := by
      simp [startsWith, List.isPrefixOf]
    have hno' : startsWith ("refs/heads/" ++ n) "refs/remotes/" = false := by
      simp [startsWith, List.isPrefixOf]
    rw [normalizeName]
    simp only [htrim, hno, hno', startsWith_append, if_true, slice_append, hkept,
      Bool.false_eq_true, if_false]

/-- A full name is fetched as the branch's own ref. -/
theorem fetchRevisionForRef_full {n start : String} (hstart : start ∈ fullNames)
    (hfilled : n ≠ "") (hhead : n ≠ "HEAD") :
    fetchRevisionForRef (start ++ n) = .ok ("refs/heads/" ++ n) := by
  simp only [fullNames, List.mem_cons, List.not_mem_nil, or_false] at hstart
  rcases hstart with rfl | rfl | rfl
  · simp [fetchRevisionForRef, startsWith_append, slice_append, hfilled, hhead]
  · have hno : startsWith ("origin/" ++ n) "refs/remotes/origin/" = false := by
      simp [startsWith, List.isPrefixOf]
    simp [fetchRevisionForRef, hno, startsWith_append, slice_append, hfilled, hhead]
  · have hno : startsWith ("refs/heads/" ++ n) "refs/remotes/origin/" = false := by
      simp [startsWith, List.isPrefixOf]
    have hno' : startsWith ("refs/heads/" ++ n) "origin/" = false := by
      simp [startsWith, List.isPrefixOf]
    have hno'' : startsWith ("refs/heads/" ++ n) "refs/remotes/" = false := by
      simp [startsWith, List.isPrefixOf]
    simp [fetchRevisionForRef, hno, hno', hno'']

theorem checkedOutBranchName_full {n start : String} (hstart : start ∈ fullNames)
    (hfilled : n ≠ "") (hhead : n ≠ "HEAD") : checkedOutBranchName (start ++ n) = .ok n := by
  simp [checkedOutBranchName, fetchRevisionForRef_full hstart hfilled hhead, startsWith_append,
    slice_append, bind, Except.bind, pure, Except.pure]

/-! ### The fetch -/

theorem append_ne {n start : String} (h : start.toList.length ≠ 11) :
    start ++ n ≠ "refs/heads/" ++ n := by
  intro heq
  have hlen := congrArg (·.toList.length) heq
  simp only [String.toList_append, List.length_append] at hlen
  exact h (Nat.add_right_cancel hlen)

/-- A short name means the branch exactly when it is no object id, no keyword, and none of
    the three refs that come first. -/
theorem fetch_head_iff {git : Git} {n : String} (hhead : "refs/heads/" ++ n ∈ git.refs) :
    git.fetch n = some (.ref ("refs/heads/" ++ n)) ↔
      n ≠ "tag" ∧ isObjectId n = false ∧
        ∀ other ∈ [n, "refs/" ++ n, "refs/tags/" ++ n], other ∉ git.refs := by
  have hnot : ∀ other ∈ [n, "refs/" ++ n, "refs/tags/" ++ n], other ≠ "refs/heads/" ++ n := by
    simp only [List.forall_mem_cons, List.not_mem_nil, false_implies, implies_true, and_true]
    refine ⟨?_, append_ne (by decide), append_ne (by decide)⟩
    simpa using @append_ne n "" (by decide)
  simp only [List.forall_mem_cons, List.not_mem_nil, false_implies, implies_true, and_true] at hnot ⊢
  unfold Git.fetch
  split
  · next h => simp [beq_iff_eq.mp h]
  next htag =>
  split
  · next h => simp [h]
  next hid =>
  have htag : n ≠ "tag" := by simpa using htag
  have hid : isObjectId n = false := by simpa using hid
  simp only [ne_eq, htag, not_false_eq_true, hid, true_and, candidates, Option.map_eq_some_iff,
    Fetched.ref.injEq, exists_eq_right]
  constructor
  · intro h
    -- what comes first in the list is found first, and it is not the branch
    have hfirst : ∀ {a : String} {l : List String}, a ≠ "refs/heads/" ++ n →
        (a :: l).find? git.refs.contains = some ("refs/heads/" ++ n) →
        a ∉ git.refs ∧ l.find? git.refs.contains = some ("refs/heads/" ++ n) := by
      intro a l hne hfind
      by_cases ha : a ∈ git.refs
      · simp [ha] at hfind
        exact absurd hfind hne
      · simpa [List.find?_cons, ha] using hfind
    obtain ⟨h₁, h⟩ := hfirst hnot.1 h
    obtain ⟨h₂, h⟩ := hfirst hnot.2.1 h
    exact ⟨h₁, h₂, (hfirst hnot.2.2 h).1⟩
  · rintro ⟨h₁, h₂, h₃⟩
    simp [h₁, h₂, h₃, hhead]

/-! ### The record and the checkout -/

/-- A source that asks for a ref to be checked out, and says nothing else.  The picker names
    the ref in full (`refs/remotes/origin/…`). -/
structure Selects (source : WorktreeSource) (ref : String) : Prop where
  action : source.action = some .checkout
  refName : source.refName = some ref
  baseBranch : source.baseBranch = none
  branchName : source.branchName = none
  checkoutSource : source.checkoutSource = none
  githubPrNumber : source.githubPrNumber = none

variable {git : Git} {project : Project} {name n : String} {source : WorktreeSource}

theorem fetchRevisionForRef_plain (h : Plain n) : fetchRevisionForRef n = .ok n := by
  have htrack := h.tracking
  simp only [Plain, stripped, List.forall_mem_cons] at h
  simp [fetchRevisionForRef, htrack, h.1, h.2.2.1]

theorem checkedOutBranchName_plain (h : Plain n) : checkedOutBranchName n = .ok n := by
  have hheads : startsWith n "refs/heads/" = false := h _ (by simp [stripped])
  simp [checkedOutBranchName, fetchRevisionForRef_plain h, hheads, bind, Except.bind, pure,
    Except.pure]

/-- What is recorded for a selected ref. -/
theorem workspaceRefs_selected {ref revision : String} (hsel : Selects source ref)
    (hne : ref ≠ "") (hfetch : fetchRevisionForRef ref = .ok revision)
    (hchecked : checkedOutBranchName ref = .ok n) (hbranch : branchSchema n = true)
    (hrev : revisionSchema revision = true) :
    workspaceRefs project name source = .ok ⟨revision, some n, none⟩ := by
  have hfilled := ne_empty_of_branchSchema hbranch
  simp [workspaceRefs, branchOf, pullRequestOf, hsel.action, hsel.refName, hsel.baseBranch,
    hsel.branchName, hsel.checkoutSource, hsel.githubPrNumber, truthy, Option.filter, hne, hfilled,
    hfetch, hchecked, hbranch, hrev, bind, Except.bind, Except.map]

/-- The checkout of what was recorded fetches that revision and makes that branch. -/
theorem checkOut_recorded {revision : String} (hbranch : branchSchema n = true)
    (hrev : revisionSchema revision = true) :
    checkOut git [] ⟨revision, some n, none⟩ =
      if git.checkRefFormat n then (git.fetch revision).map (⟨some n, ·⟩) else none := by
  have hne := ne_empty_of_branchSchema hbranch
  have hfilled : revision ≠ "" := by
    rintro rfl
    exact absurd hrev (by decide)
  simp only [revisionSchema, matchesClass, Bool.and_eq_true] at hrev
  simp only [checkOut, beq_iff_eq, hne, hfilled, if_false, hrev, Bool.and_self, guard, if_true,
    truthy, Option.filter, bne_iff_ne, ne_eq, not_false_eq_true, List.lookup_nil,
    Option.getD_none]
  rcases git.fetch revision with _ | tip
  · simp
  · by_cases hformat : git.checkRefFormat n <;> simp [hformat]

theorem branchSchema_of_recorded {refs : Refs} (h : workspaceRefs project name source = .ok refs) :
    refs.branch.all branchSchema = true := by
  unfold workspaceRefs at h
  split at h
  · cases h
  split at h
  · cases h
  obtain ⟨revision, -, h⟩ := bind_eq_ok.mp h
  obtain ⟨branch, -, h⟩ := bind_eq_ok.mp h
  dsimp only at h
  split at h
  · next hschema =>
    cases h
    exact (Bool.and_eq_true_iff.mp hschema).2
  · cases h

theorem checkOut_branch {locals : List (String × Fetched)} {refs : Refs} {head : Head}
    (h : checkOut git locals refs = some head) : head.branch = truthy refs.branch := by
  simp only [checkOut, Option.bind_eq_bind, Option.bind_eq_some_iff] at h
  obtain ⟨-, -, tip, -, h⟩ := h
  rcases hbranch : truthy refs.branch with _ | branch
  · simp only [hbranch] at h
    cases h
    rfl
  · simp only [hbranch, Option.bind_eq_some_iff] at h
    obtain ⟨-, -, h⟩ := h
    cases h
    rfl

/-! ### The branch that gets used -/

/-- What Git promises of an `ls-remote --heads` output and of the names in it: each is a
    head of the remote, and `check-ref-format --branch` takes a head's name unless it
    begins with a dash or is `HEAD`. -/
structure LsRemote (git : Git) (output : String) (names : List String) : Prop where
  parsed : parseRefs output = .ok names
  heads : ∀ n ∈ names, "refs/heads/" ++ n ∈ git.refs
  legal : ∀ n ∈ names, startsWith n "-" = false → n ≠ "HEAD" → git.checkRefFormat n = true

/-- Both validations name `n`, and a workspace with `n` selected has the branch `n` checked
    out at what was fetched from `refs/heads/n`. -/
structure Used (git : Git) (n : String) : Prop where
  inspector : normalizeName n = some n
  gateway : normalizeProjectBranchName n = some n
  created : ∀ project name source, Selects source n →
    createAndCheckOut git project name source = some ⟨some n, .ref ("refs/heads/" ++ n)⟩

/-- A name in the characters of a branch that nothing is taken off, that is none of the
    words with a meaning of their own, and that the remote uses for no other ref. -/
structure Unambiguous (git : Git) (n : String) : Prop where
  branch : branchSchema n = true
  plain : Plain n
  word : n ≠ "HEAD" ∧ n ≠ "origin" ∧ n ≠ "tag"
  notId : isObjectId n = false
  first : ∀ other ∈ [n, "refs/" ++ n, "refs/tags/" ++ n], other ∉ git.refs

/-- The source that says no more than the branch. -/
def picked (n : String) : WorktreeSource where
  action := some .checkout
  refName := some n
  baseBranch := none
  branchName := none
  worktreeSlug := none
  checkoutSource := none
  githubPrNumber := none

theorem selects_picked (n : String) : Selects (picked n) n := ⟨rfl, rfl, rfl, rfl, rfl, rfl⟩

theorem createAndCheckOut_selected (hsel : Selects source n) (hplain : Plain n)
    (hbranch : branchSchema n = true) :
    createAndCheckOut git project name source =
      if git.checkRefFormat n then (git.fetch n).map (⟨some n, ·⟩) else none := by
  have hrev := revisionSchema_of_branch hbranch
  simp only [createAndCheckOut, workspaceRefs_selected hsel (ne_empty_of_branchSchema hbranch)
    (fetchRevisionForRef_plain hplain) (checkedOutBranchName_plain hplain) hbranch hrev,
    checkOut_recorded hbranch hrev]

theorem no_dash_of_branchSchema (h : branchSchema n = true) : startsWith n "-" = false := by
  rw [Bool.eq_false_iff]
  intro hdash
  rw [eq_append_of_startsWith hdash] at h
  simp [branchSchema, initialIsAlnum, isAlnum, isUpper, isLower, isDigit] at h

theorem used_iff {output : String} {names : List String} (hls : LsRemote git output names)
    (hn : n ∈ names) : Used git n ↔ Unambiguous git n := by
  have hfetch := fetch_head_iff (hls.heads n hn)
  constructor
  · intro hused
    have hcreated := hused.created ⟨"p", "c", "HEAD", none, none, ""⟩ "w" (picked n)
      (selects_picked n)
    have hbranch : branchSchema n = true := by
      unfold createAndCheckOut at hcreated
      split at hcreated
      · cases hcreated
      next refs hrefs =>
      have hrecorded := checkOut_branch hcreated
      have hall := branchSchema_of_recorded hrefs
      obtain ⟨hsome, -⟩ := Option.filter_eq_some_iff.mp hrecorded.symm
      simpa [hsome] using hall
    have htrim : Js.trim n = n := by
      simp only [branchSchema, matchesClass, Bool.and_eq_true] at hbranch
      exact trim_of_branchClass hbranch.1.2
    obtain ⟨hplain, -, hhead, horigin⟩ := (normalizeName_self_iff htrim).mp hused.inspector
    rw [createAndCheckOut_selected (selects_picked n) hplain hbranch] at hcreated
    have hfetched : git.fetch n = some (.ref ("refs/heads/" ++ n)) := by
      split at hcreated
      · obtain ⟨tip, htip, heq⟩ := Option.map_eq_some_iff.mp hcreated
        cases heq
        exact htip
      · cases hcreated
    obtain ⟨htag, hid, hfirst⟩ := hfetch.mp hfetched
    exact ⟨hbranch, hplain, ⟨hhead, horigin, htag⟩, hid, hfirst⟩
  · rintro ⟨hbranch, hplain, ⟨hhead, horigin, htag⟩, hid, hfirst⟩
    have htrim : Js.trim n = n := by
      simp only [branchSchema, matchesClass, Bool.and_eq_true] at hbranch
      exact trim_of_branchClass hbranch.1.2
    have hnorm : normalizeName n = some n :=
      (normalizeName_self_iff htrim).mpr ⟨hplain, ne_empty_of_branchSchema hbranch, hhead, horigin⟩
    refine ⟨hnorm, normalize_agree n ▸ hnorm, fun project name source hsel => ?_⟩
    have hlegal := hls.legal n hn (no_dash_of_branchSchema hbranch) hhead
    rw [createAndCheckOut_selected hsel hplain hbranch, hlegal,
      hfetch.mpr ⟨htag, hid, hfirst⟩]
    rfl

/-- A name is found where it is legal and listed. -/
theorem found_listed {checkRefFormat : String → Bool} {lsRemote : String → Except String String}
    {refName : String} {valid : Bool}
    (h : inspectName checkRefFormat lsRemote refName = .ok ⟨valid, true⟩) :
    ∃ name output names, normalizeName refName = some name ∧ checkRefFormat name = true ∧
      lsRemote ("refs/heads/" ++ name) = .ok output ∧ parseRefs output = .ok names ∧
      name ∈ names := by
  unfold inspectName at h
  split at h
  · cases h
  · rename_i name hname
    split at h
    · cases h
    · split at h
      · rename_i hlegal
        obtain ⟨output, hout, h⟩ := bind_eq_ok.mp h
        obtain ⟨names, hnames, h⟩ := bind_eq_ok.mp h
        simp only [pure, Except.pure, Except.ok.injEq, Validation.mk.injEq] at h
        exact ⟨name, output, names, hname, hlegal, hout, hnames, by simpa using h.2⟩
      · cases h

theorem suggestions_listed {toLowerCase : String → String} {refQuery output : String}
    {limit : Option Nat} {names suggested : List String} (hparsed : parseRefs output = .ok names)
    (h : inspectQuery toLowerCase (.ok output) refQuery limit = .ok suggested) :
    ∀ n ∈ suggested, n ∈ names := by
  rcases limit with _ | limit
  · cases h
  simp only [inspectQuery] at h
  split at h
  · cases h
  obtain ⟨out, hout, h⟩ := bind_eq_ok.mp h
  obtain ⟨refs, hrefs, h⟩ := bind_eq_ok.mp h
  cases hout
  rw [hparsed] at hrefs
  cases hrefs
  cases h
  intro n hn
  have hsorted := List.mem_mergeSort.mp (List.mem_of_mem_take hn)
  exact List.mem_dedup.mp (List.mem_of_mem_filter hsorted)

/-! ### Branches by their full names -/

/-- A name in the characters of a branch that leaves room for the full one in a record. -/
structure Recordable (n : String) : Prop where
  branch : branchSchema n = true
  room : Js.length n ≤ 189
  notHead : n ≠ "HEAD"

/-- Each full name is validated as `n`, and a workspace with it selected has the branch `n`
    checked out at what was fetched from `refs/heads/n`. -/
structure UsedByFullName (git : Git) (n : String) : Prop where
  inspector : n ≠ "origin" → ∀ start ∈ fullNames, normalizeName (start ++ n) = some n
  gateway : n ≠ "origin" → ∀ start ∈ fullNames, normalizeProjectBranchName (start ++ n) = some n
  created : ∀ start ∈ fullNames, ∀ project name source, Selects source (start ++ n) →
    createAndCheckOut git project name source = some ⟨some n, .ref ("refs/heads/" ++ n)⟩

theorem revisionSchema_head (h : Recordable n) : revisionSchema ("refs/heads/" ++ n) = true := by
  have hrev := revisionSchema_of_branch h.branch
  have hlength : Js.length ("refs/heads/" ++ n) = 11 + Js.length n := by
    simp only [Js.length, String.toList_append, List.map_append, List.sum_append]
    rfl
  have hroom := h.room
  simp only [revisionSchema, matchesClass, Bool.and_eq_true, decide_eq_true_eq, hlength,
    String.toList_append, List.all_append] at hrev ⊢
  refine ⟨⟨⟨by omega, by omega⟩, by decide, hrev.1.2⟩, ?_⟩
  have hinitial : isAlnum 'r' = true := by decide
  simp [initialIsAlnum, hinitial]

/-- A full name of the remote's branch is that branch for Git. -/
theorem fetch_full (hhead : "refs/heads/" ++ n ∈ git.refs) :
    git.fetch ("refs/heads/" ++ n) = some (.ref ("refs/heads/" ++ n)) := by
  have htag : "refs/heads/" ++ n ≠ "tag" := by
    intro heq
    have hlen := congrArg (·.toList.length) heq
    simp only [String.toList_append, List.length_append] at hlen
    have hstart : "refs/heads/".toList.length = 11 := rfl
    have hshort : "tag".toList.length = 3 := rfl
    omega
  have hid : isObjectId ("refs/heads/" ++ n) = false := by
    have hno : isHex 'r' = false := by decide
    simp [isObjectId, hno]
  simp [Git.fetch, htag, hid, candidates, hhead]

theorem usedByFullName {output : String} {names : List String} (hls : LsRemote git output names)
    (hn : n ∈ names) (h : Recordable n) : UsedByFullName git n := by
  have hfilled := ne_empty_of_branchSchema h.branch
  have hclass : n.toList.all branchClass = true := by
    have hbranch := h.branch
    simp only [branchSchema, matchesClass, Bool.and_eq_true] at hbranch
    exact hbranch.1.2
  have hspace : ∀ c ∈ n.toList, Js.isSpace c = false := fun c hc =>
    not_isSpace_of_branchClass (List.all_eq_true.mp hclass c hc)
  have hnormalized : n ≠ "origin" → ∀ start ∈ fullNames, normalizeName (start ++ n) = some n :=
    fun horigin start hstart => normalizeName_full hstart hspace hfilled h.notHead horigin
  refine ⟨hnormalized, hnormalized, fun start hstart project name source hsel => ?_⟩
  have hlegal := hls.legal n hn (no_dash_of_branchSchema h.branch) h.notHead
  have hne : start ++ n ≠ "" := by
    intro heq
    have hnil := congrArg String.toList heq
    rw [String.toList_append] at hnil
    have hzero := (List.append_eq_nil_iff.mp hnil).2
    exact hfilled (by rw [String.ext_iff, hzero]; rfl)
  rw [createAndCheckOut, workspaceRefs_selected hsel hne
    (fetchRevisionForRef_full hstart hfilled h.notHead)
    (checkedOutBranchName_full hstart hfilled h.notHead) h.branch (revisionSchema_head h)]
  simp only [checkOut_recorded h.branch (revisionSchema_head h), hlegal, if_true,
    fetch_full (hls.heads n hn), Option.map_some]

/-- The two normalisers agree and denote a name exactly where it is plain; a listed branch is
    the one that gets used by each of its full names, and by its bare name where that is
    unambiguous. -/
theorem listed_branch_used :
    (∀ s, normalizeName s = normalizeProjectBranchName s) ∧
    (∀ n, normalizeName n = some n ↔ Denoted n) ∧
    ∀ git output names n, LsRemote git output names → n ∈ names →
      (Recordable n → UsedByFullName git n) ∧ (Unambiguous git n → Used git n) :=
  ⟨normalize_agree, denoted_iff, fun _ _ _ _ hls hn =>
    ⟨fun h => usedByFullName hls hn h, fun h => (used_iff hls hn).mpr h⟩⟩

/-- A remote with three branches, a tag of the name of one, and its `ls-remote --heads`. -/
def sampleGit : Git where
  refs := ["HEAD", "refs/heads/main", "refs/heads/origin/main", "refs/heads/v1", "refs/tags/v1"]
  checkRefFormat name := !startsWith name "-" && name != "HEAD"

def sampleId : String := "0123456789012345678901234567890123456789"

def sampleOutput : String :=
  sampleId ++ "\trefs/heads/main\n" ++ sampleId ++ "\trefs/heads/origin/main\n" ++
    sampleId ++ "\trefs/heads/v1\n"

theorem sample_listed : LsRemote sampleGit sampleOutput ["main", "origin/main", "v1"] where
  parsed := by
    simp only [parseRefs, sampleOutput, String.toList_append]
    decide +kernel
  heads := by decide
  legal := by decide

/-- The branch `main` by its bare name, and the branches that are `origin/main` and share the
    name of a tag by their full ones. -/
theorem listed_branch_used_main : Used sampleGit "main" ∧
    UsedByFullName sampleGit "origin/main" ∧ UsedByFullName sampleGit "v1" := by
  have hused := fun n => listed_branch_used.2.2 sampleGit sampleOutput _ n sample_listed
  refine ⟨(hused "main" (by decide)).2 ?_, (hused "origin/main" (by decide)).1 ?_,
    (hused "v1" (by decide)).1 ?_⟩
  · exact ⟨by rfl, by decide, by decide, by rfl, by decide⟩
  · exact ⟨by rfl, by decide, by decide⟩
  · exact ⟨by rfl, by decide, by decide⟩

/-- A branch named `origin/main` is taken for the tracking name of `main`, and one that
    shares its name with a tag gives way to the tag. -/
theorem not_every_listed_branch_used :
    ¬ (∀ git output names n, LsRemote git output names → n ∈ names → Used git n) ∧
    normalizeName "origin/main" = some "main" ∧
    createAndCheckOut sampleGit ⟨"p", "c", "HEAD", none, none, ""⟩ "w" (picked "origin/main") =
      some ⟨some "main", .ref "refs/heads/main"⟩ ∧
    createAndCheckOut sampleGit ⟨"p", "c", "HEAD", none, none, ""⟩ "w" (picked "v1") =
      some ⟨some "v1", .ref "refs/tags/v1"⟩ := by
  have hstripped : normalizeName "origin/main" = some "main" := by rfl
  refine ⟨fun h => ?_, hstripped, by rfl, by rfl⟩
  have hused := h sampleGit sampleOutput _ "origin/main" sample_listed (by decide)
  rw [hused.inspector] at hstripped
  exact absurd hstripped (by decide)

end PaseoGateway.BranchSelection

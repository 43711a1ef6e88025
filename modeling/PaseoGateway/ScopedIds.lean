/-
  PaseoGateway/ScopedIds.lean
  ===========================
  **Scoped ids as a bijective encoding.**

  `parseScopedId` of `src/src/domain.ts` with the decoders it calls: the base64url reader
  drops spare bits and the UTF-8 reader replaces what it cannot read.  Only the comparison
  with the id that the result encodes to makes it strict, and that is enough
  (`scopedId_bijective`).  The version of `Domain.lean`, which reads UTF-8 strictly, is the
  same function (`parseScopedId_eq`).
-/
import PaseoGateway.CredentialSchema
import PaseoGateway.Domain
import PaseoGateway.Utf8Decoder

namespace PaseoGateway.ScopedIds

/-- `/^[a-z0-9][a-z0-9-]*$/` -/
def isWorkspaceId (name : String) : Bool :=
  (name.toList.head?.map isLowerAlnum).getD false &&
    name.toList.all fun c => isLowerAlnum c || c == '-'

/-- `/^([a-z0-9][a-z0-9-]*)~([A-Za-z0-9_-]+)$/`: the tilde is in neither group. -/
@[irreducible] def matchScopedId (id : String) : Option (String × List Char) :=
  let workspaceId := String.ofList (id.toList.takeWhile (· ≠ '~'))
  let code := (id.toList.dropWhile (· ≠ '~')).drop 1
  if isWorkspaceId workspaceId && !code.isEmpty && code.all isUrlChar then some (workspaceId, code)
  else none

/-- `buffer.toString("utf8")` -/
def toUtf8String (bytes : List UInt8) : String := String.ofList (Utf8Decoder.decode bytes)

/-- The comparison that refuses every other spelling. -/
def canonical (id workspaceId backendId : String) : Except String (String × String) :=
  if scopedId workspaceId backendId ≠ id then .error "Noncanonical scoped ID"
  else .ok (workspaceId, backendId)

def parseScopedId (id : String) : Except String (String × String) :=
  match matchScopedId id with
  | none => .error "Invalid scoped ID"
  | some (workspaceId, code) => canonical id workspaceId (toUtf8String (fromBase64Url code))

/-! ### The two decoders -/

theorem toUtf8String_toUTF8 (s : String) : toUtf8String s.toUTF8.toList = s := by
  rw [toUtf8String, byteArray_toList_eq, Utf8Decoder.decode_encode, String.ofList_toList]

/-- The decoders undo what a canonical id was written with. -/
theorem decode_scopedId (backendId : String) :
    toUtf8String (fromBase64Url (base64UrlEncode backendId.toUTF8.toList)) = backendId := by
  rw [fromBase64Url_encode, toUtf8String_toUTF8]

/-! ### The grammar -/

variable {workspaceId backendId id : String} {code : List Char}

theorem tilde_notMem (h : isWorkspaceId workspaceId = true) : '~' ∉ workspaceId.toList := by
  intro hmem
  have hall := List.all_eq_true.mp (Bool.and_eq_true_iff.mp h).2 '~' hmem
  exact absurd hall (by decide)

section Split

variable {p : Char → Bool} {sep : Char} {l r : List Char}

theorem takeWhile_sep (h : ∀ c ∈ l, p c = true) (hsep : p sep = false) :
    (l ++ sep :: r).takeWhile p = l := by
  rw [List.takeWhile_append_of_pos h, List.takeWhile_cons_of_neg (by simp [hsep]), List.append_nil]

theorem dropWhile_sep (h : ∀ c ∈ l, p c = true) (hsep : p sep = false) :
    (l ++ sep :: r).dropWhile p = sep :: r := by
  rw [List.dropWhile_append_of_pos h, List.dropWhile_cons_of_neg (by simp [hsep])]

theorem not_of_dropWhile_cons (h : l.dropWhile p = sep :: r) : p sep = false := by
  have hhead := List.head_dropWhile_not p (l := l) (by simp [h])
  simpa [h] using hhead

end Split

theorem matchScopedId_eq_some :
    matchScopedId id = some (workspaceId, code) ↔
      id = workspaceId ++ "~" ++ String.ofList code ∧ isWorkspaceId workspaceId = true ∧
        code ≠ [] ∧ code.all isUrlChar = true := by
  unfold matchScopedId
  generalize hp : (fun c : Char => decide (c ≠ '~')) = p
  have htilde : p '~' = false := by simp [← hp]
  simp only [Option.ite_none_right_eq_some, Option.some.injEq, Prod.mk.injEq, Bool.and_eq_true,
    Bool.not_eq_true', List.isEmpty_eq_false_iff]
  constructor
  · rintro ⟨⟨⟨hname, hne⟩, hcode⟩, rfl, rfl⟩
    refine ⟨?_, hname, hne, hcode⟩
    -- the rest is not empty, so it begins with the tilde
    rcases hdrop : id.toList.dropWhile p with _ | ⟨c, rest⟩
    · simp [hdrop] at hne
    have hc : c = '~' := by
      have hnot := not_of_dropWhile_cons hdrop
      simpa [← hp] using hnot
    have hsplit : id.toList = id.toList.takeWhile p ++ '~' :: rest := by
      rw [← hc, ← hdrop, List.takeWhile_append_dropWhile]
    rw [String.ext_iff]
    simpa using hsplit
  · rintro ⟨rfl, hname, hne, hcode⟩
    have hkeep : ∀ c ∈ workspaceId.toList, p c = true := by
      intro c hc
      have htilde := tilde_notMem hname
      rw [← hp, decide_eq_true_eq]
      rintro rfl
      exact htilde hc
    have hlist : (workspaceId ++ "~" ++ String.ofList code).toList =
        workspaceId.toList ++ '~' :: code := by simp
    rw [hlist, takeWhile_sep hkeep htilde, dropWhile_sep hkeep htilde, String.ofList_toList]
    exact ⟨⟨⟨hname, hne⟩, hcode⟩, rfl, rfl⟩

/-- A canonical id is one that is matched. -/
theorem matchScopedId_scopedId (hname : isWorkspaceId workspaceId = true) (hne : backendId ≠ "") :
    matchScopedId (scopedId workspaceId backendId) =
      some (workspaceId, base64UrlEncode backendId.toUTF8.toList) := by
  refine matchScopedId_eq_some.mpr ⟨rfl, hname, ?_, List.all_eq_true.mpr isUrlChar_of_encode⟩
  intro hnil
  have hid := decode_scopedId backendId
  rw [hnil] at hid
  exact hne hid.symm

theorem parse_scopedId (hname : isWorkspaceId workspaceId = true) (hne : backendId ≠ "") :
    parseScopedId (scopedId workspaceId backendId) = .ok (workspaceId, backendId) := by
  rw [parseScopedId, matchScopedId_scopedId hname hne]
  simp only [decode_scopedId, canonical, ne_eq, not_true, if_false]

theorem scopedId_of_parsed {id : String} {pair : String × String} (h : parseScopedId id = .ok pair) :
    scopedId pair.1 pair.2 = id := by
  unfold parseScopedId at h
  split at h
  · cases h
  unfold canonical at h
  split at h
  · cases h
  · next hcanon =>
    cases h
    exact not_not.mp hcanon

/-! ### The strict reader -/

theorem eq_toUTF8_of_fromUTF8 {bytes : List UInt8} {s : String}
    (h : String.fromUTF8? ⟨bytes.toArray⟩ = some s) : bytes = s.toUTF8.toList := by
  unfold String.fromUTF8? at h
  split at h
  · cases h
    rw [byteArray_toList_eq]
    rfl
  · cases h

/-- Every character of the code stands for a sextet. -/
theorem length_sextets (code : List Char) :
    ((code.filterMap fun c => base64UrlAlphabet.idxOf? c).length == code.length) =
      code.all isUrlChar := by
  have hurl : ∀ c, isUrlChar c = (base64UrlAlphabet.idxOf? c).isSome := by
    intro c
    rw [isUrlChar, Bool.eq_iff_iff, List.isSome_idxOf?, List.contains_iff_mem]
  rw [Bool.eq_iff_iff, beq_iff_eq, List.filterMap_length_eq_length, List.all_eq_true]
  simp only [hurl]

/-- The version of `Domain.lean` reads the bytes strictly: what it refuses does not encode
    to the id it came from. -/
theorem parseScopedId_eq (id : String) : parseScopedId id = PaseoGateway.parseScopedId id := by
  unfold PaseoGateway.parseScopedId
  simp only [length_sextets]
  rcases hmatch : matchScopedId id with _ | ⟨workspaceId, code⟩
  · rw [parseScopedId, hmatch]
    unfold matchScopedId at hmatch
    simp only [isWorkspaceId, String.toList_ofList, ite_eq_right_iff, reduceCtorEq, imp_false]
      at hmatch
    rw [if_neg hmatch]
  · have hid := matchScopedId_eq_some.mp hmatch
    rw [parseScopedId, hmatch]
    unfold matchScopedId at hmatch
    simp only [isWorkspaceId, String.toList_ofList, Option.ite_none_right_eq_some,
      Option.some.injEq, Prod.mk.injEq] at hmatch
    obtain ⟨hgrammar, hname, hcode⟩ := hmatch
    rw [if_pos hgrammar, hname, hcode]
    dsimp only
    rw [← fromBase64Url]
    rcases htext : String.fromUTF8? ⟨(fromBase64Url code).toArray⟩ with _ | backendId
    · -- an id that encodes back would have been read
      refine if_pos fun hcanon => ?_
      rw [hid.1] at hcanon
      have hsame : base64UrlEncode (toUtf8String (fromBase64Url code)).toUTF8.toList = code := by
        rw [scopedId, String.append_right_inj] at hcanon
        simpa using congrArg String.toList hcanon
      have hbytes := congrArg fromBase64Url hsame
      rw [fromBase64Url_encode] at hbytes
      rw [← hbytes, fromUTF8_toUTF8] at htext
      cases htext
    · rw [eq_toUTF8_of_fromUTF8 htext, toUtf8String_toUTF8, canonical]
      simp only [ne_eq, ite_not]

/-- Parsing undoes encoding, encoding undoes parsing, and so no two ids that are accepted
    mean the same. -/
theorem scopedId_bijective :
    (∀ workspaceId backendId, isWorkspaceId workspaceId = true → backendId ≠ "" →
      parseScopedId (scopedId workspaceId backendId) = .ok (workspaceId, backendId)) ∧
    (∀ id pair, parseScopedId id = .ok pair → scopedId pair.1 pair.2 = id) ∧
    ∀ id id' pair, parseScopedId id = .ok pair → parseScopedId id' = .ok pair → id = id' := by
  refine ⟨fun _ _ => parse_scopedId, fun _ _ => scopedId_of_parsed, fun id id' pair h h' => ?_⟩
  rw [← scopedId_of_parsed h, ← scopedId_of_parsed h']

theorem scopedId_bijective_demo :
    parseScopedId (scopedId "team-1" "é~1") = .ok ("team-1", "é~1") :=
  scopedId_bijective.1 "team-1" "é~1" (by rfl) (by decide)

end PaseoGateway.ScopedIds

/-
  PaseoGateway/WorkspaceTokenSafety.lean
  ======================================
  **Tokens verify as they were granted.**

  The parts of a token are told apart by the dots, which no base64url character is
  (`matchToken_iff`), and its claims read back from the body (`claims_read`).  So a token
  verifies when key, audience, time and id say so (`verify_issued_iff`), and a string
  that verifies has the form of an issued one (`verified_signed`).
-/
import PaseoGateway.WorkspaceToken
import PaseoGateway.Fallible

namespace PaseoGateway.WorkspaceToken

open PaseoGateway.Fallible (bind_eq_ok)

variable {rt : Runtime}

/-! ### Tokens as texts -/

/-- A digest of 32 bytes has 43 characters. -/
def Digest (rt : Runtime) : Prop :=
  ∀ block text, (rt.mac block text).toList.length = 43 ∧ (rt.mac block text).toList.all isUrlChar

theorem dot_notMem {chars : List Char} (h : chars.all isUrlChar) : '.' ∉ chars := by
  intro hmem
  have hdot := List.all_eq_true.mp h '.' hmem
  rw [not_isUrlChar.1] at hdot
  cases hdot

/-- A token is matched as its two parts, and nothing else is. -/
theorem matchToken_iff {token : String} {body signature : List Char} :
    matchToken token = some (body, signature) ↔
      token = "pgw1." ++ String.ofList body ++ "." ++ String.ofList signature ∧ body ≠ [] ∧
        body.all isUrlChar ∧ signature.length = 43 ∧ signature.all isUrlChar := by
  have hjoined : ∀ body signature : List Char,
      ("pgw1." ++ String.ofList body ++ "." ++ String.ofList signature).toList =
        ['.'].intercalate ["pgw1".toList, body, signature] := by
    intro body signature
    simp [List.intercalate, List.intersperse]
  constructor
  · intro h
    unfold matchToken at h
    split at h
    · rename_i version code tag hsplit
      split at h
      · rename_i hparts
        obtain ⟨rfl, rfl⟩ : code = body ∧ tag = signature := by simpa using h
        obtain ⟨rfl, hrest⟩ := hparts
        refine ⟨String.toList_inj.mp ?_, hrest⟩
        rw [hjoined, ← hsplit, List.intercalate_splitOn]
      · cases h
    · cases h
  · rintro ⟨rfl, hparts⟩
    have hsplit : ("pgw1." ++ String.ofList body ++ "." ++ String.ofList signature).toList.splitOn '.'
        = ["pgw1".toList, body, signature] := by
      rw [hjoined]
      refine List.splitOn_intercalate '.' ?_ (by simp)
      intro part hpart
      simp only [List.mem_cons, List.not_mem_nil, or_false] at hpart
      rcases hpart with rfl | rfl | rfl
      · decide
      · exact dot_notMem hparts.2.1
      · exact dot_notMem hparts.2.2.2
    unfold matchToken
    rw [hsplit]
    exact if_pos ⟨rfl, hparts⟩

/-! ### Claims as JSON -/

theorem textsOf_map (names : List String) : textsOf (.arr (names.map .str)) = some names := by
  induction names with
  | nil => rfl
  | cons first rest ih =>
    rw [textsOf] at ih ⊢
    rw [List.map_cons, List.mapM_cons, ih]
    rfl

/-- The fields of the claims, in the order of the schema. -/
theorem field_json (claims : Claims) : claimsShape.map claims.json.field? =
    [some (.arr (claims.projectIds.map .str)), some (.arr (claims.credentialProfiles.map .str)),
      some (.str claims.originWorkspaceId), some (.str claims.originWorkspaceUid),
      some (.str "workspace"), some (.num 1), some (.str claims.audience),
      some (.num claims.issuedAt), some (.num claims.expiresAt), some (.str claims.tokenId)] := by
  simp only [claimsShape, List.map_cons, List.map_nil, Claims.json, Json.field?, List.lookup]
  rfl

theorem readClaims_json (claims : Claims) : readClaims claims.json = some claims := by
  have hstrict : strictClaims claims.json = true := by
    simp [strictClaims, Claims.json, claimsShape]
  have hfields := field_json claims
  simp only [claimsShape, List.map_cons, List.map_nil, List.cons.injEq] at hfields
  obtain ⟨h1, h2, h3, h4, h5, h6, h7, h8, h9, h10, -⟩ := hfields
  rw [readClaims, if_pos hstrict, h1, h2, h3, h4, h5, h6, h7, h8, h9, h10]
  simp only [Option.bind_some, textsOf_map, textOf, numberOf]
  rfl

/-- The claims read back from what they are written to. -/
theorem ClaimsSchema_json {claims : Claims} (h : claims.valid rt = true) :
    ClaimsSchema rt claims.json = some claims := by
  rw [ClaimsSchema, readClaims_json, Option.filter_some, if_pos h]

/-! ### Verifying -/

/-- The JSON text of the claims reads back. -/
structure ReadsBack (rt : Runtime) (claims : Claims) : Prop where
  text : rt.jsonStringify claims.json ≠ ""
  parsed : rt.jsonParse (rt.jsonStringify claims.json) = some claims.json

/-- What it takes for a token to verify. -/
theorem verify_iff {token : String} {options : ScopedAuthOptions} {nowSeconds : Int}
    {claims : Claims} :
    verifyWorkspaceToken rt token options nowSeconds = .ok (some claims) ↔
      validateScopedAuth options = .ok () ∧ Js.length token ≤ 16384 ∧
      ∃ body signature, matchToken token = some (body, signature) ∧
        equalSecret rt (hmac rt options.signingKey ("pgw1." ++ String.ofList body))
          (String.ofList signature) = true ∧
        (rt.jsonParse (bodyText rt body)).bind (ClaimsSchema rt) = some claims ∧
        refused options nowSeconds claims = false := by
  unfold verifyWorkspaceToken
  rw [bind_eq_ok]
  constructor
  · rintro ⟨_, hvalid, h⟩
    refine ⟨hvalid, ?_⟩
    split at h
    · cases h
    · rename_i hsize
      refine ⟨by omega, ?_⟩
      split at h
      · cases h
      · rename_i body signature hmatch
        refine ⟨body, signature, hmatch, ?_⟩
        dsimp only at h
        split at h
        · cases h
        · rename_i hsecret
          split at h
          · cases h
          · rename_i found hclaims
            split at h
            · cases h
            · rename_i hrefused
              cases h
              exact ⟨by simpa using hsecret, hclaims, by simpa using hrefused⟩
  · rintro ⟨hvalid, hsize, body, signature, hmatch, hsecret, hclaims, hrefused⟩
    refine ⟨(), hvalid, ?_⟩
    rw [if_neg (by omega), hmatch]
    simp [hsecret, hclaims, hrefused]

theorem issue_iff {options : ScopedAuthOptions} {grant : WorkspaceGrant} {nowSeconds : Int}
    {tokenId token : String} :
    issueWorkspaceToken rt options grant nowSeconds tokenId = .ok token ↔
      validateScopedAuth options = .ok () ∧ WorkspaceGrantSchema grant = true ∧
        (workspaceClaims options grant nowSeconds tokenId).valid rt = true ∧
        token = signed rt options.signingKey
          (claimsBody rt (workspaceClaims options grant nowSeconds tokenId)) := by
  unfold issueWorkspaceToken
  rw [bind_eq_ok]
  constructor
  · rintro ⟨_, hvalid, h⟩
    split at h
    · rename_i hgrant
      dsimp only at h
      split at h
      · rename_i hclaims
        cases h
        exact ⟨hvalid, hgrant, hclaims, rfl⟩
      · cases h
    · cases h
  · rintro ⟨hvalid, hgrant, hclaims, rfl⟩
    exact ⟨(), hvalid, by rw [if_pos hgrant]; exact if_pos hclaims⟩

section Issued

variable {claims : Claims} {key : String}

theorem bodyText_claimsBody (claims : Claims) :
    bodyText rt (claimsBody rt claims).toList = rt.jsonStringify claims.json := by
  rw [bodyText, claimsBody, String.toList_ofList, fromBase64Url_encode, fromUTF8_toUTF8]
  rfl

theorem claimsBody_ne (h : ReadsBack rt claims) : (claimsBody rt claims).toList ≠ [] := by
  intro hnil
  rw [claimsBody, String.toList_ofList] at hnil
  have hbytes : (rt.jsonStringify claims.json).toUTF8.toList = [] :=
    base64UrlEncode_inj (by rw [hnil]; rfl)
  exact h.text (toUTF8_inj (by rw [hbytes, byteArray_toList_eq]; rfl))

/-- A signed token is matched as its body and its signature. -/
theorem matchToken_signed (hdigest : Digest rt) (hreads : ReadsBack rt claims) :
    matchToken (signed rt key (claimsBody rt claims)) = some ((claimsBody rt claims).toList,
      (hmac rt key ("pgw1." ++ claimsBody rt claims)).toList) := by
  obtain ⟨hlength, hchars⟩ := hdigest (hmacBlock rt key) ("pgw1." ++ claimsBody rt claims)
  rw [matchToken_iff, String.ofList_toList, String.ofList_toList]
  refine ⟨rfl, claimsBody_ne hreads, ?_, hlength, hchars⟩
  rw [claimsBody, String.toList_ofList]
  exact List.all_eq_true.mpr isUrlChar_of_encode

end Issued

/-! ### What verifies -/

/-- One issuance of a token. -/
structure Issuance where
  options : ScopedAuthOptions
  grant : WorkspaceGrant
  issuedAt : Int
  tokenId : String

def Issuance.claims (i : Issuance) : Claims :=
  workspaceClaims i.options i.grant i.issuedAt i.tokenId

def Issuance.token (rt : Runtime) (i : Issuance) : Except String String :=
  issueWorkspaceToken rt i.options i.grant i.issuedAt i.tokenId

/-- The text that is signed for an issuance. -/
def Issuance.text (rt : Runtime) (i : Issuance) : String := "pgw1." ++ claimsBody rt i.claims

/-- The tag of the issuance under the key differs from its own, unless the two keys have one
    block. -/
def Separates (rt : Runtime) (i : Issuance) (key : String) : Prop :=
  equalSecret rt (hmac rt key (i.text rt)) (hmac rt i.options.signingKey (i.text rt)) = true →
    hmacBlock rt key = hmacBlock rt i.options.signingKey

/-- Whoever presents a text with a tag that checks has the tag itself, and of a body that was
    signed under the key. -/
def Unforgeable (rt : Runtime) (issuances : Set Issuance) (key token : String) : Prop :=
  ∀ body signature, token = "pgw1." ++ body ++ "." ++ signature →
    equalSecret rt (hmac rt key ("pgw1." ++ body)) signature = true →
    signature = hmac rt key ("pgw1." ++ body) ∧
      ∃ i ∈ issuances, hmacBlock rt i.options.signingKey = hmacBlock rt key ∧
        (∃ token', i.token rt = .ok token') ∧ body = claimsBody rt i.claims

/-- The verifier accepts the token of an issuance. -/
structure Accepts (rt : Runtime) (i : Issuance) (verifier : ScopedAuthOptions) (nowSeconds : Int) :
    Prop where
  valid : validateScopedAuth verifier = .ok ()
  key : hmacBlock rt verifier.signingKey = hmacBlock rt i.options.signingKey
  audience : verifier.audience = i.options.audience
  started : i.issuedAt ≤ nowSeconds
  unexpired : nowSeconds < i.issuedAt + i.grant.ttlSeconds
  kept : i.tokenId ∉ verifier.revokedTokenIds

section Verify

variable {i : Issuance} {verifier : ScopedAuthOptions} {nowSeconds : Int} {token : String}

theorem not_refused {claims : Claims} : refused verifier nowSeconds claims = false ↔
    claims.audience = verifier.audience ∧ claims.issuedAt ≤ nowSeconds ∧
      nowSeconds < claims.expiresAt ∧ claims.issuedAt < claims.expiresAt ∧
      claims.expiresAt - claims.issuedAt ≤ 86400 ∧
      claims.tokenId ∉ verifier.revokedTokenIds := by
  simp [refused, and_assoc]

/-- The life of a granted token is one of those that are not refused. -/
theorem refused_iff (hgrant : WorkspaceGrantSchema i.grant = true) :
    refused verifier nowSeconds i.claims = false ↔ verifier.audience = i.options.audience ∧
      i.issuedAt ≤ nowSeconds ∧ nowSeconds < i.issuedAt + i.grant.ttlSeconds ∧
      i.tokenId ∉ verifier.revokedTokenIds := by
  have hlife : 1 ≤ i.grant.ttlSeconds ∧ i.grant.ttlSeconds ≤ 86400 := by
    simp only [WorkspaceGrantSchema, Bool.and_eq_true, decide_eq_true_eq] at hgrant
    exact ⟨hgrant.1.2, hgrant.2⟩
  rw [not_refused]
  simp only [Issuance.claims, workspaceClaims]
  constructor
  · rintro ⟨haudience, hstart, hend, -, -, hkept⟩
    exact ⟨haudience.symm, hstart, hend, hkept⟩
  · rintro ⟨haudience, hstart, hend, hkept⟩
    exact ⟨haudience.symm, hstart, hend, by omega, by omega, hkept⟩

/-- An issued token verifies with its own claims, or not at all. -/
theorem verify_token_iff (hdigest : Digest rt) (hreads : ReadsBack rt i.claims)
    (hseparates : Separates rt i verifier.signingKey)
    (htoken : i.token rt = .ok token) (hsize : Js.length token ≤ 16384) (claims : Claims) :
    verifyWorkspaceToken rt token verifier nowSeconds = .ok (some claims) ↔
      claims = i.claims ∧ Accepts rt i verifier nowSeconds := by
  obtain ⟨-, hgrant, hvalid, rfl⟩ := issue_iff.mp htoken
  have hmatch := @matchToken_signed rt i.claims i.options.signingKey hdigest hreads
  have hparsed : (rt.jsonParse (bodyText rt (claimsBody rt i.claims).toList)).bind
      (ClaimsSchema rt) = some i.claims := by
    rw [bodyText_claimsBody, hreads.parsed, Option.bind_some]
    exact ClaimsSchema_json hvalid
  rw [verify_iff]
  constructor
  · rintro ⟨hverifier, -, body, signature, hparts, hsecret, hclaims, hrefused⟩
    obtain ⟨rfl, rfl⟩ := Prod.mk.inj (Option.some.inj (hmatch.symm.trans hparts))
    obtain rfl := Option.some.inj (hparsed.symm.trans hclaims)
    rw [String.ofList_toList, String.ofList_toList] at hsecret
    obtain ⟨haudience, hstart, hend, hkept⟩ := (refused_iff hgrant).mp hrefused
    exact ⟨rfl, hverifier, hseparates hsecret, haudience, hstart, hend, hkept⟩
  · rintro ⟨rfl, haccepts⟩
    refine ⟨haccepts.valid, hsize, _, _, hmatch, ?_, hparsed, ?_⟩
    · rw [String.ofList_toList, String.ofList_toList, hmac, hmac, haccepts.key]
      simp [equalSecret]
    · exact (refused_iff hgrant).mpr
        ⟨haccepts.audience, haccepts.started, haccepts.unexpired, haccepts.kept⟩

/-- What verifies was issued under the key. -/
theorem verified_issued {issuances : Set Issuance} {claims : Claims}
    (hunforgeable : Unforgeable rt issuances verifier.signingKey token)
    (h : verifyWorkspaceToken rt token verifier nowSeconds = .ok (some claims)) :
    ∃ i ∈ issuances, hmacBlock rt i.options.signingKey = hmacBlock rt verifier.signingKey ∧
      i.token rt = .ok token := by
  obtain ⟨-, -, body, signature, hmatch, hsecret, -, -⟩ := verify_iff.mp h
  obtain ⟨rfl, -⟩ := matchToken_iff.mp hmatch
  obtain ⟨hsignature, i, hi, hblock, ⟨token', htoken⟩, hbody⟩ := hunforgeable _ _ rfl hsecret
  refine ⟨i, hi, hblock, ?_⟩
  rw [htoken, (issue_iff.mp htoken).2.2.2, hsignature, signed, hmac, hmac, hblock, hbody]
  rfl

end Verify

/-- The tokens of a deployment: `issuances` are those that were made in it. -/
structure Exact (rt : Runtime) (issuances : Set Issuance) : Prop where
  /-- an issued token is accepted under its key, for its audience, in its time, unless revoked -/
  accepted : ∀ (i : Issuance) (token : String) (verifier : ScopedAuthOptions) (nowSeconds : Int),
    i.token rt = .ok token → Js.length token ≤ 16384 → ReadsBack rt i.claims →
    Separates rt i verifier.signingKey →
    ((∃ claims, verifyWorkspaceToken rt token verifier nowSeconds = .ok (some claims)) ↔
      Accepts rt i verifier nowSeconds)
  /-- and stands for what was granted -/
  granted : ∀ (i : Issuance) (token : String) (verifier : ScopedAuthOptions) (nowSeconds : Int)
      (claims : Claims),
    i.token rt = .ok token → Js.length token ≤ 16384 → ReadsBack rt i.claims →
    Separates rt i verifier.signingKey →
    verifyWorkspaceToken rt token verifier nowSeconds = .ok (some claims) →
    claims.projectIds = i.grant.projectIds ∧
      claims.credentialProfiles = i.grant.credentialProfiles ∧
      claims.originWorkspaceId = i.grant.originWorkspaceId ∧
      claims.originWorkspaceUid = i.grant.originWorkspaceUid
  /-- a text that verifies is a token that was issued under the key -/
  issued : ∀ (token : String) (verifier : ScopedAuthOptions) (nowSeconds : Int) (claims : Claims),
    Unforgeable rt issuances verifier.signingKey token →
    verifyWorkspaceToken rt token verifier nowSeconds = .ok (some claims) →
    ∃ i ∈ issuances, hmacBlock rt i.options.signingKey = hmacBlock rt verifier.signingKey ∧
      i.token rt = .ok token

theorem tokens_exact (issuances : Set Issuance) (hdigest : Digest rt) : Exact rt issuances where
  accepted := by
    intro i token verifier nowSeconds htoken hsize hreads hseparates
    simp [verify_token_iff hdigest hreads hseparates htoken hsize]
  granted := by
    intro i token verifier nowSeconds claims htoken hsize hreads hseparates hverify
    obtain ⟨rfl, -⟩ := (verify_token_iff hdigest hreads hseparates htoken hsize claims).mp hverify
    exact ⟨rfl, rfl, rfl, rfl⟩
  issued := fun _ _ _ _ hunforgeable hverify => verified_issued hunforgeable hverify

/-- A token whose parts have no dot has one body. -/
theorem unforgeable_of_one {i : Issuance} {key body signature token : String}
    (hbody : '.' ∉ body.toList) (hsignature : '.' ∉ signature.toList)
    (hmac : hmac rt key ("pgw1." ++ body) = signature)
    (hblock : hmacBlock rt i.options.signingKey = hmacBlock rt key)
    (hissued : i.token rt = .ok token) (hclaims : body = claimsBody rt i.claims) :
    Unforgeable rt {i} key ("pgw1." ++ body ++ "." ++ signature) := by
  intro body' signature' htoken _
  have hlists : body.toList ++ '.' :: signature.toList =
      body'.toList ++ '.' :: signature'.toList := by
    have hall := congrArg String.toList htoken
    simpa using hall
  obtain ⟨hsame, -, htag⟩ := (List.append_cons_inj_of_notMem hbody hsignature).mp hlists
  rw [← String.toList_inj.mp hsame, ← String.toList_inj.mp htag]
  exact ⟨hmac.symm, i, rfl, hblock, ⟨token, hissued⟩, hclaims⟩

theorem length_token_le (body signature : String) :
    Js.length ("pgw1." ++ body ++ "." ++ signature) ≤
      2 * (6 + body.toList.length + signature.toList.length) := by
  have hsize := Js.length_le ("pgw1." ++ body ++ "." ++ signature)
  simp at hsize
  omega

section Demo

def demoKey : String := "kkkkkkkkkkkkkkkkkkkkkkkkkkkkkkkk"

/-- The key with a zero behind it. -/
def paddedKey : String := demoKey.push (Char.ofNat 0)

def demoIssuance : Issuance where
  options := { signingKey := demoKey, audience := "gateway" }
  grant := {
    projectIds := ["p"]
    credentialProfiles := ["c"]
    originWorkspaceId := "ws"
    originWorkspaceUid := "uid"
    ttlSeconds := 3600 }
  issuedAt := 0
  tokenId := "00000000-0000-4000-8000-000000000000"

def demoText : String :=
  "\x7b\"projectIds\":[\"p\"],\"credentialProfiles\":[\"c\"],\"originWorkspaceId\":\"ws\"" ++
    ",\"originWorkspaceUid\":\"uid\",\"kind\":\"workspace\",\"version\":1,\"audience\":\"ga" ++
    "teway\",\"issuedAt\":0,\"expiresAt\":3600,\"tokenId\":\"00000000-0000-4000-8000-000000" ++
    "000000\"\x7d"

def demoBody : String := String.ofList (base64UrlEncode demoText.toUTF8.toList)

def demoSignature : String := "r61r0H0hNBDKtQMo-IhJsRHxeswKLEcMzutGEza-VtQ"

/-- A key that nothing was signed under. -/
def otherKey : String := "oooooooooooooooooooooooooooooooo"

def otherSignature : String := "Hha97K8JpRsf7cEA6tnmAbFYfy7LhdKUSfb9svjGLQg"

/-- The tags of one text under two keys, and their digests. -/
def demoRuntime : Runtime where
  sha256 bytes :=
    if bytes = demoSignature.toUTF8.toList then
      [219, 62, 255, 218, 68, 230, 132, 142, 151, 239, 226, 253, 35, 37, 20, 252, 68, 3, 182, 39,
        193, 121, 192, 56, 72, 218, 56, 215, 130, 217, 253, 74]
    else
      [231, 40, 47, 58, 13, 211, 210, 155, 186, 46, 206, 9, 210, 224, 163, 184, 217, 28, 123, 13,
        228, 221, 128, 67, 29, 236, 69, 55, 226, 189, 164, 230]
  mac block text :=
    if block = List.replicate 32 107 ++ List.replicate 32 0 ∧ text = "pgw1." ++ demoBody then
      demoSignature
    else otherSignature
  jsonStringify _ := demoText
  jsonParse text := if text = demoText then some demoIssuance.claims.json else none
  replaced _ := ""
  uuid text := text = "00000000-0000-4000-8000-000000000000"

def demoToken : String := "pgw1." ++ demoBody ++ "." ++ demoSignature

theorem demo_keys : paddedKey ≠ demoKey ∧
    hmacBlock demoRuntime demoKey = List.replicate 32 107 ++ List.replicate 32 0 ∧
    hmacBlock demoRuntime paddedKey = List.replicate 32 107 ++ List.replicate 32 0 ∧
    hmacBlock demoRuntime otherKey ≠ List.replicate 32 107 ++ List.replicate 32 0 := by
  decide +kernel

theorem demo_signatures : demoSignature ≠ otherSignature ∧
    (demoSignature.toList.length = 43 ∧ demoSignature.toList.all isUrlChar) ∧
    otherSignature.toList.length = 43 ∧ otherSignature.toList.all isUrlChar := by
  decide

theorem demo_accepted : validateScopedAuth demoIssuance.options = .ok () ∧
    validateScopedAuth { signingKey := paddedKey, audience := "gateway" } = .ok () ∧
    WorkspaceGrantSchema demoIssuance.grant = true ∧
    demoIssuance.claims.valid demoRuntime = true ∧
    demoText ≠ "" ∧ demoText.toUTF8.data.toList.length ≤ 512 := by
  decide +kernel

theorem demo_body : claimsBody demoRuntime demoIssuance.claims = demoBody := rfl

theorem demo_mac : hmac demoRuntime demoKey ("pgw1." ++ demoBody) = demoSignature := by
  rw [hmac, demo_keys.2.1]
  exact if_pos ⟨rfl, rfl⟩

theorem demo_issued : demoIssuance.token demoRuntime = .ok demoToken := by
  obtain ⟨hoptions, -, hgrant, hvalid, -⟩ := demo_accepted
  refine issue_iff.mpr ⟨hoptions, hgrant, hvalid, ?_⟩
  change demoToken = signed demoRuntime demoKey (claimsBody demoRuntime demoIssuance.claims)
  rw [demo_body, signed, demo_mac]
  rfl

theorem demo_size : Js.length demoToken ≤ 16384 := by
  have hbytes : demoText.toUTF8.toList.length ≤ 512 := by
    rw [byteArray_toList_eq]
    exact demo_accepted.2.2.2.2.2
  have hbody : demoBody.toList.length ≤ 4 * demoText.toUTF8.toList.length := by
    rw [demoBody, String.toList_ofList]
    exact length_base64UrlEncode_le _
  have hsignature : demoSignature.toList.length = 43 := demo_signatures.2.1.1
  have hsize := length_token_le demoBody demoSignature
  rw [demoToken]
  omega

theorem demo_digest : Digest demoRuntime := by
  intro block text
  simp only [demoRuntime]
  split
  · exact demo_signatures.2.1
  · exact demo_signatures.2.2

theorem demo_reads : ReadsBack demoRuntime demoIssuance.claims := by
  refine ⟨demo_accepted.2.2.2.2.1, ?_⟩
  simp [demoRuntime]

theorem demo_padded : hmacBlock demoRuntime paddedKey = hmacBlock demoRuntime demoKey := by
  rw [demo_keys.2.1, demo_keys.2.2.1]

/-- The other key gives the text another tag, with another digest. -/
theorem demo_separates : Separates demoRuntime demoIssuance otherKey := by
  intro h
  have htext : demoIssuance.text demoRuntime = "pgw1." ++ demoBody := by
    rw [Issuance.text, demo_body]
  have hother : hmac demoRuntime otherKey ("pgw1." ++ demoBody) = otherSignature :=
    if_neg fun hsame => demo_keys.2.2.2 hsame.1
  have hdiffers : equalSecret demoRuntime otherSignature demoSignature = false := by
    have hbytes : otherSignature.toUTF8.toList ≠ demoSignature.toUTF8.toList :=
      fun hsame => demo_signatures.1 (toUTF8_inj hsame).symm
    simpa [equalSecret, demoRuntime] using hbytes
  rw [htext, hother] at h
  change equalSecret demoRuntime _ (hmac demoRuntime demoKey ("pgw1." ++ demoBody)) = true at h
  rw [demo_mac, hdiffers] at h
  cases h

theorem demo_unforgeable : Unforgeable demoRuntime {demoIssuance} demoKey demoToken := by
  have hbody : '.' ∉ demoBody.toList := by
    rw [← demo_body, claimsBody, String.toList_ofList]
    exact dot_notMem (List.all_eq_true.mpr isUrlChar_of_encode)
  have hsignature : '.' ∉ demoSignature.toList := dot_notMem demo_signatures.2.1.2
  exact unforgeable_of_one hbody hsignature demo_mac rfl demo_issued demo_body.symm

theorem tokens_exact_demo :
    (∃ claims, verifyWorkspaceToken demoRuntime demoToken demoIssuance.options 3599 =
      .ok (some claims)) ∧
    (¬ ∃ claims, verifyWorkspaceToken demoRuntime demoToken demoIssuance.options 3600 =
      .ok (some claims)) ∧
    (¬ ∃ claims, verifyWorkspaceToken demoRuntime demoToken
      { signingKey := otherKey, audience := "gateway" } 3599 = .ok (some claims)) ∧
    ∃ i ∈ ({demoIssuance} : Set Issuance), i.token demoRuntime = .ok demoToken := by
  have hexact := tokens_exact {demoIssuance} demo_digest
  have hnow : ∃ claims, verifyWorkspaceToken demoRuntime demoToken demoIssuance.options 3599 =
      .ok (some claims) :=
    (hexact.accepted demoIssuance demoToken demoIssuance.options 3599 demo_issued demo_size
      demo_reads fun _ => rfl).mpr ⟨demo_accepted.1, rfl, rfl, by decide, by decide, by decide⟩
  refine ⟨hnow, fun h => ?_, fun h => ?_, ?_⟩
  · have hunexpired := ((hexact.accepted demoIssuance demoToken demoIssuance.options 3600
      demo_issued demo_size demo_reads fun _ => rfl).mp h).unexpired
    revert hunexpired
    decide
  · have hkey := ((hexact.accepted demoIssuance demoToken
      { signingKey := otherKey, audience := "gateway" } 3599 demo_issued demo_size demo_reads
      demo_separates).mp h).key
    exact demo_keys.2.2.2 (hkey.trans demo_keys.2.1)
  · obtain ⟨claims, hclaims⟩ := hnow
    obtain ⟨i, hi, -, htoken⟩ := hexact.issued demoToken demoIssuance.options 3599 claims
      demo_unforgeable hclaims
    exact ⟨i, hi, htoken⟩

/-- A token verifies under the signing key with a zero behind it, which is another key. -/
theorem padded_key_verifies :
    demoIssuance.token demoRuntime = .ok demoToken ∧ paddedKey ≠ demoIssuance.options.signingKey ∧
    ∃ claims, verifyWorkspaceToken demoRuntime demoToken
      { signingKey := paddedKey, audience := "gateway" } 0 = .ok (some claims) := by
  refine ⟨demo_issued, demo_keys.1, demoIssuance.claims, ?_⟩
  refine (verify_token_iff demo_digest demo_reads (fun _ => demo_padded) demo_issued demo_size
    _).mpr ⟨rfl, ?_⟩
  exact ⟨demo_accepted.2.1, demo_padded, rfl, by decide, by decide, by decide⟩

end Demo

end PaseoGateway.WorkspaceToken

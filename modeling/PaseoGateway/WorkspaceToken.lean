/-
  PaseoGateway/WorkspaceToken.lean
  ================================
  **The tokens of workspaces.**

  Mirrors `issueWorkspaceToken` and `verifyWorkspaceToken` of `src/src/gateway/auth.ts`
  with the schemas they parse by.  SHA-256, HMAC, JSON texts and the pattern of an UUID
  are the runtime's, and parameters; an HMAC key is brought to the length of a block
  first: a longer one is hashed, a shorter one padded with zeros.  A JSON text with a
  number that is no integer is none here: the schema has no place for one.
-/
import PaseoGateway.Base64Url
import PaseoGateway.CredentialSchema
import PaseoGateway.Json

namespace PaseoGateway.WorkspaceToken

open PaseoGateway.Credentials (name)

/-- What the JavaScript runtime and the libraries compute. -/
structure Runtime where
  sha256 : List UInt8 → List UInt8
  /-- HMAC-SHA-256 of a text under a key of one block, in base64url -/
  mac : List UInt8 → String → String
  jsonStringify : Json → String
  jsonParse : String → Option Json
  /-- bytes that are no UTF-8 text, with replacement characters in them -/
  replaced : List UInt8 → String
  /-- `z.string().uuid()` -/
  uuid : String → Bool

/-! ### Schemas -/

structure WorkspaceGrant where
  projectIds : List String
  credentialProfiles : List String
  originWorkspaceId : String
  originWorkspaceUid : String
  ttlSeconds : Int
deriving DecidableEq, Repr

/-- The literals `kind` and `version` are not kept. -/
structure Claims where
  projectIds : List String
  credentialProfiles : List String
  originWorkspaceId : String
  originWorkspaceUid : String
  audience : String
  issuedAt : Int
  expiresAt : Int
  tokenId : String
deriving DecidableEq, Repr

/-- `z.array(scopeName).min(1).max(32)` -/
def scopeNames (names : List String) : Bool :=
  names.all name && decide (1 ≤ names.length) && decide (names.length ≤ 32)

/-- `z.string().min(1).max(200)` -/
def uidText (value : String) : Bool := decide (1 ≤ Js.length value) && decide (Js.length value ≤ 200)

def WorkspaceGrantSchema (grant : WorkspaceGrant) : Bool :=
  scopeNames grant.projectIds && scopeNames grant.credentialProfiles &&
    name grant.originWorkspaceId && uidText grant.originWorkspaceUid &&
    decide (1 ≤ grant.ttlSeconds) && decide (grant.ttlSeconds ≤ 86400)

/-- `Number.MAX_SAFE_INTEGER` -/
def maxSafeInteger : Int := 9007199254740991

/-- `z.number().int().nonnegative()` -/
def instant (value : Int) : Bool := decide (0 ≤ value) && decide (value ≤ maxSafeInteger)

/-- What `ClaimsSchema` asks of the fields. -/
def Claims.valid (rt : Runtime) (claims : Claims) : Bool :=
  scopeNames claims.projectIds && scopeNames claims.credentialProfiles &&
    name claims.originWorkspaceId && uidText claims.originWorkspaceUid &&
    decide (1 ≤ Js.length claims.audience) && instant claims.issuedAt &&
    instant claims.expiresAt && rt.uuid claims.tokenId

def Claims.json (claims : Claims) : Json :=
  .obj [("projectIds", .arr (claims.projectIds.map .str)),
    ("credentialProfiles", .arr (claims.credentialProfiles.map .str)),
    ("originWorkspaceId", .str claims.originWorkspaceId),
    ("originWorkspaceUid", .str claims.originWorkspaceUid),
    ("kind", .str "workspace"),
    ("version", .num 1),
    ("audience", .str claims.audience),
    ("issuedAt", .num claims.issuedAt),
    ("expiresAt", .num claims.expiresAt),
    ("tokenId", .str claims.tokenId)]

def claimsShape : List String :=
  ["projectIds", "credentialProfiles", "originWorkspaceId", "originWorkspaceUid", "kind", "version",
    "audience", "issuedAt", "expiresAt", "tokenId"]

def textOf : Json → Option String
  | .str s => some s
  | _ => none

def numberOf : Json → Option Int
  | .num n => some n
  | _ => none

def textsOf : Json → Option (List String)
  | .arr items => items.mapM textOf
  | _ => none

/-- An object with no other fields than those of the schema. -/
def strictClaims : Json → Bool
  | .obj fields => fields.all fun field => claimsShape.contains field.1
  | _ => false

def readClaims (value : Json) : Option Claims :=
  if strictClaims value then do
    let projectIds ← (value.field? "projectIds").bind textsOf
    let credentialProfiles ← (value.field? "credentialProfiles").bind textsOf
    let originWorkspaceId ← (value.field? "originWorkspaceId").bind textOf
    let originWorkspaceUid ← (value.field? "originWorkspaceUid").bind textOf
    let kind ← (value.field? "kind").bind textOf
    let version ← (value.field? "version").bind numberOf
    let audience ← (value.field? "audience").bind textOf
    let issuedAt ← (value.field? "issuedAt").bind numberOf
    let expiresAt ← (value.field? "expiresAt").bind numberOf
    let tokenId ← (value.field? "tokenId").bind textOf
    if kind = "workspace" ∧ version = 1 then
      some ⟨projectIds, credentialProfiles, originWorkspaceId, originWorkspaceUid, audience,
        issuedAt, expiresAt, tokenId⟩
    else none
  else none

def ClaimsSchema (rt : Runtime) (value : Json) : Option Claims :=
  (readClaims value).filter (Claims.valid rt)

/-! ### Keys and digests -/

structure ScopedAuthOptions where
  signingKey : String
  audience : String
  revokedTokenIds : List String := []

def validateScopedAuth (options : ScopedAuthOptions) : Except String Unit :=
  if options.signingKey.utf8ByteSize < 32 ∨ Js.trim options.audience = "" then
    .error "Scoped authentication requires a dedicated 32-byte key and audience"
  else .ok ()

section Token

variable (rt : Runtime)

/-- `timingSafeEqual` of the digests -/
def equalSecret (left right : String) : Bool :=
  rt.sha256 left.toUTF8.toList = rt.sha256 right.toUTF8.toList

/-- The block of an HMAC key: a key that is longer than a block is hashed, a shorter one is
    filled up with zeros. -/
def hmacBlock (key : String) : List UInt8 :=
  let bytes := key.toUTF8.toList
  let short := if 64 < bytes.length then rt.sha256 bytes else bytes
  short ++ List.replicate (64 - short.length) 0

/-- `createHmac("sha256", key).update(text).digest("base64url")` -/
def hmac (key text : String) : String := rt.mac (hmacBlock rt key) text

/-! ### Issuing -/

def workspaceClaims (options : ScopedAuthOptions) (grant : WorkspaceGrant) (nowSeconds : Int)
    (tokenId : String) : Claims where
  projectIds := grant.projectIds
  credentialProfiles := grant.credentialProfiles
  originWorkspaceId := grant.originWorkspaceId
  originWorkspaceUid := grant.originWorkspaceUid
  audience := options.audience
  issuedAt := nowSeconds
  expiresAt := nowSeconds + grant.ttlSeconds
  tokenId := tokenId

def claimsBody (claims : Claims) : String :=
  String.ofList (base64UrlEncode (rt.jsonStringify claims.json).toUTF8.toList)

/-- `pgw1.${body}` with the signature behind it -/
def signed (key body : String) : String :=
  "pgw1." ++ body ++ "." ++ hmac rt key ("pgw1." ++ body)

/-- Issuance is trusted controller/owner code, never an operation exposed to scoped callers. -/
def issueWorkspaceToken (options : ScopedAuthOptions) (grant : WorkspaceGrant) (nowSeconds : Int)
    (tokenId : String) : Except String String := do
  validateScopedAuth options
  if WorkspaceGrantSchema grant then
    let claims := workspaceClaims options grant nowSeconds tokenId
    if claims.valid rt then .ok (signed rt options.signingKey (claimsBody rt claims))
    else .error "ClaimsSchema"
  else .error "WorkspaceGrantSchema"

/-! ### Verifying -/

/-- `/^pgw1\.([A-Za-z0-9_-]+)\.([A-Za-z0-9_-]{43})$/` -/
def matchToken (token : String) : Option (List Char × List Char) :=
  match token.toList.splitOn '.' with
  | [version, body, signature] =>
    if version = "pgw1".toList ∧ body ≠ [] ∧ body.all isUrlChar ∧ signature.length = 43 ∧
        signature.all isUrlChar then some (body, signature)
    else none
  | _ => none

/-- `Buffer.from(body, "base64url").toString("utf8")` -/
def bodyText (body : List Char) : String :=
  let bytes := fromBase64Url body
  (String.fromUTF8? ⟨bytes.toArray⟩).getD (rt.replaced bytes)

def refused (options : ScopedAuthOptions) (nowSeconds : Int) (claims : Claims) : Bool :=
  decide (claims.audience ≠ options.audience) || decide (nowSeconds < claims.issuedAt) ||
    decide (claims.expiresAt ≤ nowSeconds) || decide (claims.expiresAt ≤ claims.issuedAt) ||
    decide (86400 < claims.expiresAt - claims.issuedAt) ||
    options.revokedTokenIds.contains claims.tokenId

def verifyWorkspaceToken (token : String) (options : ScopedAuthOptions) (nowSeconds : Int) :
    Except String (Option Claims) := do
  validateScopedAuth options
  if 16384 < Js.length token then .ok none
  else
    match matchToken token with
    | none => .ok none
    | some (body, signature) =>
      let expected := hmac rt options.signingKey ("pgw1." ++ String.ofList body)
      if !equalSecret rt expected (String.ofList signature) then .ok none
      else
        match (rt.jsonParse (bodyText rt body)).bind (ClaimsSchema rt) with
        | none => .ok none
        | some claims => if refused options nowSeconds claims then .ok none else .ok (some claims)

end Token

end PaseoGateway.WorkspaceToken

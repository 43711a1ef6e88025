/-
  PaseoGateway/CodexFence.lean
  ============================
  **The refresh-intent fence as a discipline of histories.**

  `Step` says which entries a history of Secrets may gain: a lease claim, a native
  invocation and its result, a commit, writes of output Secrets, and what the
  operator does.  `Legal` histories gain nothing else.  Every statement about the
  fence is a statement about legal histories (`Facts`); that the broker only makes
  legal ones is the subject of `CodexSubscriptionSafety.lean`.

  A refresh token is *pending* between the claim that wrote its intent and the
  commit of its result.  The intent annotation alone keeps a pending token from
  being claimed again (`fenced`), and no token is pending twice (`unique`).
-/
import PaseoGateway.CodexSubscription

namespace PaseoGateway.CodexSubscription

open Async

/-- The identity and configuration each thread renews for. -/
abbrev Who := Tid → Option (String × Config)

/-- A profile some broker may renew. -/
structure Known (configOf : String → Option Config) (owner : String) (config : Config) :
    Prop where
  configured : configOf owner = some config
  names : config.authSecretRef.name ≠ config.outputSecretName
  key : config.authSecretRef.key ≠ ACCESS_KEY
  identity : owner ≠ ""

/-- Every thread renews for a known profile. -/
def Identified (configOf : String → Option Config) (who : Who) : Prop :=
  ∀ t owner config, who t = some (owner, config) → Known configOf owner config

def Config.authority (config : Config) : Key := .secret config.authSecretRef.name
def Config.output (config : Config) : Key := .secret config.outputSecretName

/-- The auth material of an authority. -/
def Config.material (config : Config) (secret : Secret) : Option String :=
  secret.get config.authSecretRef.key

def tokenAt (rt : Runtime) (config : Config) (secret : Secret) : Option String :=
  (config.material secret).bind (refreshToken rt)

/-! ### What a thread has done -/

/-- Thread `t` claimed the lease by writing `claimed`. -/
def Claim (t : Tid) (config : Config) (claimed : Secret) (tr : History) : Prop :=
  .update (some t) config.authority claimed ∈ tr ∧ claimed.annotations.intent ≠ none

def Claims (rt : Runtime) (t : Tid) (config : Config) (token : String) (tr : History) : Prop :=
  ∃ claimed, Claim t config claimed tr ∧ tokenAt rt config claimed = some token

/-- Thread `t` committed a result, which removes the intent. -/
def Commits (t : Tid) (config : Config) (tr : History) : Prop :=
  ∃ committed : Secret, .update (some t) config.authority committed ∈ tr ∧
    committed.annotations.intent = none

def Pending (rt : Runtime) (t : Tid) (config : Config) (token : String) (tr : History) : Prop :=
  Claims rt t config token tr ∧ ¬ Commits t config tr

def Invoked (t : Tid) (tr : History) : Prop := ∃ authJson, .note (some t) (.native authJson) ∈ tr

/-- Output writes of a thread that invoked the native refresh follow its commit. -/
def MayWrite (t : Tid) (config : Config) (tr : History) : Prop :=
  Invoked t tr → Commits t config tr

/-- What the completion check compares: the lease and the auth material are those
    of the claim, and the lease has not expired. -/
def LeaseHeld (rt : Runtime) (t : Tid) (config : Config) (n : Nat) (latest : Secret)
    (tr : History) : Prop :=
  ∃ claimed, Claim t config claimed tr ∧ lookup config.authority tr = some (n, latest) ∧
    latest.annotations.lease = claimed.annotations.lease ∧
    config.material latest = config.material claimed ∧
    notAfter rt latest.annotations.leaseUntil (clockOf tr) = false

/-! ### Legal histories -/

section Legal

variable (rt : Runtime) (who : Who)

/-- The entries the history `older` may gain. -/
inductive Step (older : History) : Entry Key (fun _ => Secret) Note → Prop where
  | claim {t owner config n old token lease leaseUntil} (hwho : who t = some (owner, config))
      (hold : lookup config.authority older = some (n, old))
      (howner : ownedByOther old owner = false) (htoken : tokenAt rt config old = some token)
      (hintent : old.annotations.intent ≠ some (rt.sha256 token))
      (hcommits : ¬ Commits t config older) :
      Step older (.update (some t) config.authority
        (claimedSecret old owner (rt.sha256 token) lease leaseUntil))
  | native {t owner config claimed encoded} (hwho : who t = some (owner, config))
      (hclaim : Claim t config claimed older) (hencoded : config.material claimed = some encoded)
      (hinvoked : ¬ Invoked t older) (hcommits : ¬ Commits t config older) :
      Step older (.note (some t) (.native (rt.fromBase64 encoded)))
  | refreshed {t given authJson} (hgiven : .note (some t) (.native given) ∈ older)
      (hrotates : rotates rt older given authJson = true) :
      Step older (.note (some t) (.refreshed authJson))
  | commit {t owner config n latest authJson accessData binding reread}
      (hwho : who t = some (owner, config))
      (hold : lookup config.authority older = some (n, latest))
      (hcommits : ¬ Commits t config older) (hreread : reread <:+ older)
      (hresult : .note (some t) (.refreshed authJson) ∈ reread)
      (hheld : LeaseHeld rt t config n latest reread) :
      Step older (.update (some t) config.authority
        (committedSecret rt latest config (rt.toBase64 authJson) accessData binding))
  | invalidate {t owner config n old} (hwho : who t = some (owner, config))
      (hold : lookup config.output older = some (n, old))
      (howner : old.annotations.owner = some owner) (hmay : MayWrite t config older) :
      Step older (.update (some t) config.output { old with data := [("access.json", "")] })
  | republish {t owner config n old secret} (hwho : who t = some (owner, config))
      (hold : lookup config.output older = some (n, old))
      (howner : old.annotations.owner = some owner)
      (hsecret : secret.annotations.owner = some owner ∧ secret.annotations.lease = none)
      (hmay : MayWrite t config older) : Step older (.update (some t) config.output secret)
  | publish {t owner config secret} (hwho : who t = some (owner, config))
      (hold : lookup config.output older = none)
      (hsecret : secret.annotations.owner = some owner ∧ secret.annotations.lease = none)
      (hmay : MayWrite t config older) : Step older (.create (some t) config.output secret)
  | clock {instant} (hclock : clockOf older ≤ instant) : Step older (.note none (.clock instant))
  | supply {name secret} (hallowed : editAllowed rt older name secret = true) :
      Step older (.create none (.secret name) secret)
  | edit {name secret} (hallowed : editAllowed rt older name secret = true) :
      Step older (.update none (.secret name) secret)
  | remove {name} : Step older (.delete none (.secret name))

def Legal : History → Prop
  | [] => True
  | e :: older => Legal older ∧ Step rt who older e

variable {rt who}

theorem Legal.append {newer older : History} (h : Legal rt who (newer ++ older)) :
    Legal rt who older := by
  induction newer with
  | nil => exact h
  | cons e newer ih => exact ih h.1

/-- Each entry was a legal step where it was made. -/
theorem Legal.of_mem {tr : History} (h : Legal rt who tr)
    {e : Entry Key (fun _ => Secret) Note} (he : e ∈ tr) :
    ∃ newer older, tr = newer ++ e :: older ∧ Legal rt who older ∧ Step rt who older e := by
  obtain ⟨newer, older, rfl⟩ := List.append_of_mem he
  obtain ⟨hlegal, hstep⟩ := h.append
  exact ⟨newer, older, rfl, hlegal, hstep⟩

theorem clockOf_cons_of_ne {e : Entry Key (fun _ => Secret) Note} {tr : History}
    (h : ∀ a instant, e ≠ .note a (.clock instant)) : clockOf (e :: tr) = clockOf tr := by
  cases e with
  | note a n =>
    cases n with
    | clock instant => exact absurd rfl (h a instant)
    | native authJson => rfl
    | refreshed authJson => rfl
  | create a k v => rfl
  | update a k v => rfl
  | delete a k => rfl

theorem Step.clockOf_le {older : History} {e : Entry Key (fun _ => Secret) Note}
    (h : Step rt who older e) : clockOf older ≤ clockOf (e :: older) := by
  cases h with
  | clock hclock => exact hclock
  | _ =>
    rw [clockOf_cons_of_ne]
    intro a instant heq
    cases heq

theorem Legal.clockOf_le {newer older : History} (h : Legal rt who (newer ++ older)) :
    clockOf older ≤ clockOf (newer ++ older) := by
  induction newer with
  | nil => exact le_refl _
  | cons e newer ih => exact le_trans (ih h.1) h.2.clockOf_le

end Legal

/-! ### Data of a Secret -/

section Secrets

variable {rt : Runtime} {config : Config}

@[simp] theorem material_claimed (secret : Secret) (owner digest lease leaseUntil : String) :
    config.material (claimedSecret secret owner digest lease leaseUntil)
      = config.material secret := rfl

@[simp] theorem tokenAt_claimed (secret : Secret) (owner digest lease leaseUntil : String) :
    tokenAt rt config (claimedSecret secret owner digest lease leaseUntil)
      = tokenAt rt config secret := rfl

/-- A commit stores the new material under the profile's key. -/
theorem material_committed {latest : Secret} {newAuth accessData binding : String}
    (hkey : config.authSecretRef.key ≠ ACCESS_KEY) :
    config.material (committedSecret rt latest config newAuth accessData binding)
      = some newAuth := by
  simp only [Config.material, Secret.get, committedSecret, Json.lookup_setField, if_neg hkey,
    if_true]

/-- It leaves other keys alone. -/
theorem material_committed_ne {other : Config} {latest : Secret}
    {newAuth accessData binding : String} (haccess : other.authSecretRef.key ≠ ACCESS_KEY)
    (hkey : other.authSecretRef.key ≠ config.authSecretRef.key) :
    other.material (committedSecret rt latest config newAuth accessData binding)
      = other.material latest := by
  simp only [Config.material, Secret.get, committedSecret, Json.lookup_setField, if_neg haccess,
    if_neg hkey]

theorem tokenAt_invalidated (secret : Secret) :
    tokenAt rt config { secret with data := [("access.json", "")] } = none := by
  simp only [tokenAt, Config.material, Secret.get, List.lookup_cons, List.lookup_nil]
  split
  · simp [refreshToken]
  · rfl

theorem mem_of_lookup {key value : String} {data : List (String × String)}
    (h : data.lookup key = some value) : (key, value) ∈ data := by
  obtain ⟨before, rest, rfl, _⟩ := List.lookup_eq_some_iff.mp h
  exact List.mem_append_right before List.mem_cons_self

theorem carries_of_tokenAt {secret : Secret} {token : String}
    (h : tokenAt rt config secret = some token) : carries rt secret token = true := by
  obtain ⟨encoded, hencoded, htoken⟩ := Option.bind_eq_some_iff.mp h
  exact List.any_eq_true.mpr ⟨_, mem_of_lookup hencoded, by simp [htoken]⟩

end Secrets

theorem owned_of_not_other {secret : Secret} {owner other : String}
    (h : ownedByOther secret owner = false) (hother : secret.annotations.owner = some other)
    (hne : other ≠ "") : other = owner := by
  simpa [ownedByOther, hother, hne] using h

theorem not_other_of_owned {secret : Secret} {owner : String}
    (h : secret.annotations.owner = some owner) : ownedByOther secret owner = false := by
  simp [ownedByOther, h]

/-! ### What stays and what a step adds -/

section Growth

variable {rt : Runtime} {t : Tid} {config : Config} {token : String} {older : History}
  {e : Entry Key (fun _ => Secret) Note}

theorem Claim.cons {claimed : Secret} (h : Claim t config claimed older)
    (e : Entry Key (fun _ => Secret) Note) : Claim t config claimed (e :: older) :=
  ⟨List.mem_cons_of_mem _ h.1, h.2⟩

theorem Claims.cons (h : Claims rt t config token older)
    (e : Entry Key (fun _ => Secret) Note) : Claims rt t config token (e :: older) := by
  obtain ⟨claimed, hclaim, htoken⟩ := h
  exact ⟨claimed, hclaim.cons e, htoken⟩

theorem Commits.cons (h : Commits t config older) (e : Entry Key (fun _ => Secret) Note) :
    Commits t config (e :: older) := by
  obtain ⟨committed, hmem, hintent⟩ := h
  exact ⟨committed, List.mem_cons_of_mem _ hmem, hintent⟩

theorem Invoked.cons (h : Invoked t older) (e : Entry Key (fun _ => Secret) Note) :
    Invoked t (e :: older) := by
  obtain ⟨authJson, hmem⟩ := h
  exact ⟨authJson, List.mem_cons_of_mem _ hmem⟩

theorem Claim.of_cons {claimed : Secret} (h : Claim t config claimed (e :: older)) :
    Claim t config claimed older ∨
      (e = .update (some t) config.authority claimed ∧ claimed.annotations.intent ≠ none) := by
  obtain ⟨hmem, hintent⟩ := h
  rcases List.mem_cons.mp hmem with rfl | hold
  · exact .inr ⟨rfl, hintent⟩
  · exact .inl ⟨hold, hintent⟩

end Growth

section Discipline

variable (rt : Runtime) (configOf : String → Option Config) (who : Who)

/-- The token was in the place the profile reads, where it may claim it. -/
def Visible (owner : String) (config : Config) (token : String) (tr : History) : Prop :=
  ∃ n secret, Stored tr n config.authority secret ∧ ownedByOther secret owner = false ∧
    tokenAt rt config secret = some token

/-- The Secret is an output of some profile, published since its authority was lost. -/
def Alien (config : Config) (secret : Secret) : Prop :=
  ∃ other otherConfig, Known configOf other otherConfig ∧
    otherConfig.output = config.authority ∧ secret.annotations.owner = some other ∧
    secret.annotations.lease = none

/-- What holds of every legal history. -/
structure Facts (tr : History) : Prop where
  shaped : ∀ t owner config claimed, who t = some (owner, config) → Claim t config claimed tr →
    claimed.annotations.lease ≠ none ∧ ∃ token, tokenAt rt config claimed = some token
  visible : ∀ t owner config token, who t = some (owner, config) →
    Claims rt t config token tr → Visible rt owner config token tr
  natives : ∀ t authJson, .note (some t) (.native authJson) ∈ tr →
    ∃ owner config claimed encoded, who t = some (owner, config) ∧ Claim t config claimed tr ∧
      config.material claimed = some encoded ∧ authJson = rt.fromBase64 encoded
  /-- a token may be claimed in one place only -/
  located : ∀ owner config owner' config' token, Known configOf owner config →
    Known configOf owner' config' → Visible rt owner config token tr →
    Visible rt owner' config' token tr → config.authSecretRef = config'.authSecretRef
  unique : ∀ t t' owner config owner' config' token, who t = some (owner, config) →
    who t' = some (owner', config') → Pending rt t config token tr →
    Pending rt t' config' token tr → t = t'
  /-- a pending token in place is fenced by the intent annotation -/
  fenced : ∀ t owner config token n secret, who t = some (owner, config) →
    Pending rt t config token tr → lookup config.authority tr = some (n, secret) →
    tokenAt rt config secret = some token →
    (secret.annotations.owner = some owner ∧
      secret.annotations.intent = some (rt.sha256 token)) ∨ Alien configOf config secret
  /-- a result not yet committed is the token refreshed, or nowhere to be claimed -/
  rotated : ∀ t owner config authJson token, who t = some (owner, config) →
    .note (some t) (.refreshed authJson) ∈ tr → ¬ Commits t config tr →
    rotatedToken rt authJson = some token → Claims rt t config token tr ∨
      ∀ owner' config', Known configOf owner' config' → ¬ Visible rt owner' config' token tr
  apart : ∀ t t' owner config owner' config' authJson authJson' token,
    who t = some (owner, config) → who t' = some (owner', config') →
    .note (some t) (.refreshed authJson) ∈ tr → .note (some t') (.refreshed authJson') ∈ tr →
    rotatedToken rt authJson = some token → rotatedToken rt authJson' = some token →
    ¬ Claims rt t config token tr → ¬ Claims rt t' config' token tr → t = t'

variable {rt configOf who}

theorem newToken_not_mem {tr : History} {token : String} (h : newToken rt tr token = true)
    {e : Entry Key (fun _ => Secret) Note} (he : e ∈ tr) : mentions rt token e = false := by
  simpa using List.all_eq_true.mp h e he

theorem not_visible_of_new {tr : History} {token : String} (h : newToken rt tr token = true)
    (owner : String) (config : Config) : ¬ Visible rt owner config token tr := by
  rintro ⟨n, secret, ⟨newer, e, older, rfl, _, hputs⟩, _, htoken⟩
  have hno := newToken_not_mem h (List.mem_append_right newer (List.mem_cons_self (a := e)))
  have hcarries := carries_of_tokenAt htoken
  cases e with
  | create a k v =>
    by_cases hk : k = config.authority
    · subst hk
      rw [Entry.puts_create_self] at hputs
      cases hputs
      simp [mentions, hcarries] at hno
    · rw [Entry.puts_create_ne hk] at hputs
      cases hputs
  | update a k v =>
    by_cases hk : k = config.authority
    · subst hk
      rw [Entry.puts_update_self] at hputs
      cases hputs
      simp [mentions, hcarries] at hno
    · rw [Entry.puts_update_ne hk] at hputs
      cases hputs
  | delete a k => cases hputs
  | note a n => cases hputs

theorem Visible.cons {owner : String} {config : Config} {token : String} {tr : History}
    (h : Visible rt owner config token tr) (e : Entry Key (fun _ => Secret) Note) :
    Visible rt owner config token (e :: tr) := by
  obtain ⟨n, secret, hstored, hrest⟩ := h
  exact ⟨n, secret, hstored.cons e, hrest⟩

theorem Visible.of_lookup {owner : String} {config : Config} {token : String} {tr : History}
    {n : Nat} {secret : Secret} (hlook : lookup config.authority tr = some (n, secret))
    (howner : ownedByOther secret owner = false)
    (htoken : tokenAt rt config secret = some token) : Visible rt owner config token tr :=
  ⟨n, secret, lookup_stored hlook, howner, htoken⟩

section Steps

variable {owner : String} {config : Config} {token : String} {older : History}
  {e : Entry Key (fun _ => Secret) Note}

/-- A claim gained is the step's own. -/
theorem Step.claims {t : Tid} (h : Step rt who older e) (hwho : who t = some (owner, config))
    (hknown : Known configOf owner config) {claimed : Secret}
    (hclaim : Claim t config claimed (e :: older)) :
    Claim t config claimed older ∨ ∃ n old token' lease leaseUntil,
      e = .update (some t) config.authority claimed ∧
      claimed = claimedSecret old owner (rt.sha256 token') lease leaseUntil ∧
      lookup config.authority older = some (n, old) ∧ ownedByOther old owner = false ∧
      tokenAt rt config old = some token' ∧
      old.annotations.intent ≠ some (rt.sha256 token') := by
  rcases hclaim.of_cons with hold | ⟨rfl, hintent⟩
  · exact .inl hold
  have hnames : config.output ≠ config.authority := by
    intro heq
    simp only [Config.output, Config.authority, Key.secret.injEq] at heq
    exact hknown.names heq.symm
  -- the same thread renews for the same profile
  generalize hk : config.authority = k at h ⊢
  cases h with
  | claim hwho' hold howner htoken hcond =>
    rw [hwho] at hwho'
    cases hwho'
    exact .inr ⟨_, _, _, _, _, rfl, rfl, hold, howner, htoken, hcond⟩
  | commit hwho' => exact absurd rfl hintent
  | invalidate hwho' =>
    rw [hwho] at hwho'
    cases hwho'
    exact absurd hk.symm hnames
  | republish hwho' =>
    rw [hwho] at hwho'
    cases hwho'
    exact absurd hk.symm hnames

theorem Known.output_ne (h : Known configOf owner config) : config.output ≠ config.authority := by
  intro heq
  simp only [Config.output, Config.authority, Key.secret.injEq] at heq
  exact h.names heq.symm

theorem Known.same {owner' : String} {config' : Config} (h : Known configOf owner config)
    (h' : Known configOf owner' config') (heq : owner' = owner) : config' = config := by
  have hboth := h.configured
  rw [← heq, h'.configured] at hboth
  exact Option.some.inj hboth

/-- Only a profile that claims there may take a Secret that is another's output. -/
theorem Alien.not_owned {secret : Secret} (h : Alien configOf config secret)
    (hknown : Known configOf owner config) : ownedByOther secret owner = true := by
  obtain ⟨other, otherConfig, hother, houtput, howner, _⟩ := h
  by_contra hnot
  rw [Bool.not_eq_true] at hnot
  have heq := owned_of_not_other hnot howner hother.identity
  have hconfig := hknown.same hother heq
  subst hconfig
  exact hother.output_ne houtput

/-- The Secret a completion may commit to is its own. -/
theorem Facts.held {tr reread : History} (hf : Facts rt configOf who tr) {t : Tid}
    (hwho : who t = some (owner, config)) (hcommits : ¬ Commits t config tr)
    (hreread : reread <:+ tr) {n m : Nat} {latest : Secret}
    (hold : lookup config.authority tr = some (m, latest))
    (hheld : LeaseHeld rt t config n latest reread) :
    latest.annotations.lease ≠ none ∧ latest.annotations.owner = some owner ∧
      ∃ token, Claims rt t config token tr ∧ tokenAt rt config latest = some token := by
  obtain ⟨claimed, ⟨hmem, hintent⟩, _, hlease, hmaterial, _⟩ := hheld
  have hclaim : Claim t config claimed tr := ⟨hreread.subset hmem, hintent⟩
  obtain ⟨hsome, token, htoken⟩ := hf.shaped t owner config claimed hwho hclaim
  have htoken' : tokenAt rt config latest = some token := by
    rw [tokenAt, hmaterial]
    exact htoken
  have hclaims : Claims rt t config token tr := ⟨claimed, hclaim, htoken⟩
  rw [← hlease] at hsome
  refine ⟨hsome, ?_, token, hclaims, htoken'⟩
  rcases hf.fenced t owner config token m latest hwho ⟨hclaims, hcommits⟩ hold htoken' with
    ⟨howner, _⟩ | ⟨_, _, _, _, _, hnone⟩
  · exact howner
  · exact absurd hnone hsome

/-- How a token may become visible. -/
inductive Gained (rt : Runtime) (who : Who) (older : History)
    (e : Entry Key (fun _ => Secret) Note) (owner : String) (config : Config) (token : String) :
    Prop where
  | supplied {secret : Secret} (hauthor : e.author = none)
      (hputs : e.puts config.authority = some secret)
      (htoken : tokenAt rt config secret = some token) (hnew : newToken rt older token = true)
      (honly : ∀ entry ∈ secret.data, refreshToken rt entry.2 = some token →
        entry.1 = config.authSecretRef.key)
  | committed {t : Tid} {authJson : String} (hwho : who t = some (owner, config))
      (hauthor : e.author = some t) (hresult : .note (some t) (.refreshed authJson) ∈ older)
      (hcommits : ¬ Commits t config older) (hdone : Commits t config (e :: older))
      (htoken : rotatedToken rt authJson = some token)

/-- What an edit of the operator puts in place. -/
theorem editAllowed_token {name : String} {secret : Secret}
    (h : editAllowed rt older name secret = true) {key encoded : String}
    (hmem : (key, encoded) ∈ secret.data) (htoken : refreshToken rt encoded = some token) :
    (newToken rt older token = true ∧ ∀ entry ∈ secret.data,
        refreshToken rt entry.2 = some token → entry.1 = key) ∨
      ∃ n old, lookup (ν := fun _ => Secret) (.secret name) older = some (n, old) ∧
        (old.get key).bind (refreshToken rt) = some token ∧
        secret.annotations.owner = old.annotations.owner ∧
        secret.annotations.intent = old.annotations.intent ∧
        (secret.annotations.lease = none ∨
          secret.annotations.lease = old.annotations.lease) := by
  obtain ⟨hlease, hdata⟩ := Bool.and_eq_true_iff.mp h
  have hentry := List.all_eq_true.mp hdata _ hmem
  rw [htoken] at hentry
  rcases Bool.or_eq_true_iff.mp hentry with hnew | hkept
  · obtain ⟨hfresh, hall⟩ := Bool.and_eq_true_iff.mp hnew
    refine .inl ⟨hfresh, fun entry he hsame => ?_⟩
    have hone := List.all_eq_true.mp hall entry he
    simpa [hsame] using hone
  · refine .inr ?_
    cases hlook : lookup (ν := fun _ => Secret) (.secret name) older with
    | none =>
      rw [hlook] at hkept
      cases hkept
    | some p =>
      rw [hlook] at hkept hlease
      simp only [Option.map_some, Option.any_some, keptToken, Bool.and_eq_true,
        beq_iff_eq] at hkept
      simp only [Option.map_some, Option.bind_some, Bool.or_eq_true, Option.isNone_iff_eq_none,
        beq_iff_eq] at hlease
      exact ⟨p.1, p.2, rfl, hkept.1.1, hkept.1.2, hkept.2, hlease⟩

theorem Visible.of_cons (h : Visible rt owner config token (e :: older)) :
    Visible rt owner config token older ∨ ∃ secret, e.puts config.authority = some secret ∧
      ownedByOther secret owner = false ∧ tokenAt rt config secret = some token := by
  obtain ⟨n, secret, hstored, howner, htoken⟩ := h
  rcases hstored.cons_cases with ⟨hputs, _⟩ | hold
  · exact .inr ⟨secret, hputs, howner, htoken⟩
  · exact .inl ⟨n, secret, hold, howner, htoken⟩

/-- An edit of the operator makes no token visible but new ones. -/
theorem visible_edit {name : String} {secret : Secret}
    (hallowed : editAllowed rt older name secret = true)
    (hkey : .secret name = config.authority) (howner : ownedByOther secret owner = false)
    (htoken : tokenAt rt config secret = some token) :
    Visible rt owner config token older ∨ (newToken rt older token = true ∧
      ∀ entry ∈ secret.data, refreshToken rt entry.2 = some token →
        entry.1 = config.authSecretRef.key) := by
  obtain ⟨encoded, hencoded, hrefresh⟩ := Option.bind_eq_some_iff.mp htoken
  rcases editAllowed_token hallowed (mem_of_lookup hencoded) hrefresh with
    hnew | ⟨n, old, hlook, hsame, howner', _⟩
  · exact .inr hnew
  · rw [hkey] at hlook
    refine .inl (Visible.of_lookup hlook ?_ hsame)
    rw [ownedByOther, howner'] at howner
    exact howner

/-- What a step makes visible. -/
theorem Step.visible (h : Step rt who older e) (hf : Facts rt configOf who older)
    (hwho : Identified configOf who)
    (hknown : Known configOf owner config) (hvis : Visible rt owner config token (e :: older)) :
    Visible rt owner config token older ∨ Gained rt who older e owner config token := by
  rcases hvis.of_cons with hold | ⟨secret, hputs, howner, htoken⟩
  · exact .inl hold
  have hkey := Entry.key_of_puts hputs
  -- a Secret owned by a profile is visible to that profile only
  have hsame : ∀ t owner' config', who t = some (owner', config') →
      secret.annotations.owner = some owner' → owner' = owner ∧ config' = config := by
    intro t owner' config' ht hsecret
    have hknown' := hwho t owner' config' ht
    have heq := owned_of_not_other howner hsecret hknown'.identity
    exact ⟨heq, hknown.same hknown' heq⟩
  cases h with
  | @claim t owner' config' n old token' lease leaseUntil ht hold howner' htoken' =>
    simp only [Entry.key?, Option.some.injEq] at hkey
    rw [← hkey, Entry.puts_update_self, Option.some.injEq] at hputs
    subst hputs
    obtain ⟨rfl, rfl⟩ := hsame t owner' config' ht rfl
    exact .inl (Visible.of_lookup hold howner' htoken)
  | native => cases hkey
  | refreshed => cases hkey
  | @commit t owner' config' n latest authJson accessData binding reread ht hold hcommits
      hreread hresult hheld =>
    simp only [Entry.key?, Option.some.injEq] at hkey
    rw [← hkey, Entry.puts_update_self, Option.some.injEq] at hputs
    obtain ⟨_, howned, _⟩ := hf.held ht hcommits hreread hold hheld
    obtain ⟨rfl, rfl⟩ := hsame t owner' config' ht (by rw [← hputs]; exact howned)
    subst hputs
    refine .inr (.committed ht rfl (hreread.mem hresult) hcommits ⟨_, List.mem_cons_self, rfl⟩ ?_)
    rw [tokenAt, material_committed hknown.key] at htoken
    exact htoken
  | @invalidate t owner' config' n old ht hold howner' =>
    simp only [Entry.key?, Option.some.injEq] at hkey
    rw [← hkey, Entry.puts_update_self, Option.some.injEq] at hputs
    subst hputs
    rw [tokenAt_invalidated] at htoken
    cases htoken
  | @republish t owner' config' n old secret' ht hold howner' hsecret =>
    simp only [Entry.key?, Option.some.injEq] at hkey
    rw [← hkey, Entry.puts_update_self, Option.some.injEq] at hputs
    subst hputs
    obtain ⟨rfl, rfl⟩ := hsame t owner' config' ht hsecret.1
    exact absurd hkey hknown.output_ne
  | @publish t owner' config' secret' ht hnone hsecret =>
    simp only [Entry.key?, Option.some.injEq] at hkey
    rw [← hkey, Entry.puts_create_self, Option.some.injEq] at hputs
    subst hputs
    obtain ⟨rfl, rfl⟩ := hsame t owner' config' ht hsecret.1
    exact absurd hkey hknown.output_ne
  | clock => cases hkey
  | @supply name secret' hallowed =>
    simp only [Entry.key?, Option.some.injEq] at hkey
    have hputs' := hputs
    rw [← hkey, Entry.puts_create_self, Option.some.injEq] at hputs'
    subst hputs'
    exact (visible_edit hallowed hkey howner htoken).imp id fun h =>
      .supplied rfl hputs htoken h.1 h.2
  | @edit name secret' hallowed =>
    simp only [Entry.key?, Option.some.injEq] at hkey
    have hputs' := hputs
    rw [← hkey, Entry.puts_update_self, Option.some.injEq] at hputs'
    subst hputs'
    exact (visible_edit hallowed hkey howner htoken).imp id fun h =>
      .supplied rfl hputs htoken h.1 h.2
  | remove => cases hputs

/-! ### Every step keeps the facts -/

theorem Step.pending (h : Step rt who older e)
    (hwho : Identified configOf who) {t : Tid}
    (ht : who t = some (owner, config)) (hpending : Pending rt t config token (e :: older)) :
    Pending rt t config token older ∨ ∃ n old lease leaseUntil,
      e = .update (some t) config.authority
        (claimedSecret old owner (rt.sha256 token) lease leaseUntil) ∧
      lookup config.authority older = some (n, old) ∧ ownedByOther old owner = false ∧
      tokenAt rt config old = some token ∧
      old.annotations.intent ≠ some (rt.sha256 token) := by
  obtain ⟨⟨claimed, hclaim, htoken⟩, hcommits⟩ := hpending
  rcases h.claims ht (hwho t owner config ht) hclaim with
    hold | ⟨n, old, token', lease, leaseUntil, he, hclaimed, hlook, howner, htoken', hintent⟩
  · exact .inl ⟨⟨claimed, hold, htoken⟩, fun hc => hcommits (hc.cons e)⟩
  · subst hclaimed
    rw [tokenAt_claimed, htoken'] at htoken
    cases htoken
    exact .inr ⟨n, old, lease, leaseUntil, he, hlook, howner, htoken', hintent⟩

theorem Step.shaped (h : Step rt who older e) (hf : Facts rt configOf who older)
    (hwho : Identified configOf who)
    {t : Tid} (ht : who t = some (owner, config)) {claimed : Secret}
    (hclaim : Claim t config claimed (e :: older)) : claimed.annotations.lease ≠ none ∧
      ∃ token, tokenAt rt config claimed = some token := by
  rcases h.claims ht (hwho t owner config ht) hclaim with
    hold | ⟨n, old, token', lease, leaseUntil, _, rfl, _, _, htoken', _⟩
  · exact hf.shaped t owner config claimed ht hold
  · exact ⟨Option.some_ne_none _, token', htoken'⟩

theorem Step.visible_claims (h : Step rt who older e) (hf : Facts rt configOf who older)
    (hwho : Identified configOf who)
    {t : Tid} (ht : who t = some (owner, config))
    (hclaims : Claims rt t config token (e :: older)) :
    Visible rt owner config token (e :: older) := by
  obtain ⟨claimed, hclaim, htoken⟩ := hclaims
  rcases h.claims ht (hwho t owner config ht) hclaim with
    hold | ⟨n, old, token', lease, leaseUntil, _, rfl, hlook, howner, htoken', _⟩
  · exact (hf.visible t owner config token ht ⟨claimed, hold, htoken⟩).cons e
  · exact (Visible.of_lookup hlook howner htoken).cons e

theorem Step.natives (h : Step rt who older e) (hf : Facts rt configOf who older) {t : Tid}
    {authJson : String} (hmem : .note (some t) (.native authJson) ∈ e :: older) :
    ∃ owner config claimed encoded, who t = some (owner, config) ∧
      Claim t config claimed (e :: older) ∧ config.material claimed = some encoded ∧
      authJson = rt.fromBase64 encoded := by
  rcases List.mem_cons.mp hmem with heq | hold
  · subst heq
    cases h with
    | native ht hclaim hencoded => exact ⟨_, _, _, _, ht, hclaim.cons _, hencoded, rfl⟩
  · obtain ⟨owner, config, claimed, encoded, ht, hclaim, hencoded, hauth⟩ :=
      hf.natives t authJson hold
    exact ⟨owner, config, claimed, encoded, ht, hclaim.cons e, hencoded, hauth⟩

/-- A token committed was not visible to another profile before. -/
theorem Facts.committed_place (hf : Facts rt configOf who older)
    (hwho : Identified configOf who)
    {t : Tid} (ht : who t = some (owner, config)) {authJson : String}
    (hresult : .note (some t) (.refreshed authJson) ∈ older) (hcommits : ¬ Commits t config older)
    (htoken : rotatedToken rt authJson = some token) {owner' : String} {config' : Config}
    (hknown' : Known configOf owner' config') (hvis : Visible rt owner' config' token older) :
    config.authSecretRef = config'.authSecretRef := by
  rcases hf.rotated t owner config authJson token ht hresult hcommits htoken with hclaims | hnot
  · exact hf.located owner config owner' config' token (hwho t owner config ht) hknown'
      (hf.visible t owner config token ht hclaims) hvis
  · exact absurd hvis (hnot owner' config' hknown')

theorem Step.located (h : Step rt who older e) (hf : Facts rt configOf who older)
    (hwho : Identified configOf who)
    {owner' : String} {config' : Config} (hknown : Known configOf owner config)
    (hknown' : Known configOf owner' config')
    (hvis : Visible rt owner config token (e :: older))
    (hvis' : Visible rt owner' config' token (e :: older)) :
    config.authSecretRef = config'.authSecretRef := by
  have hboth := h.visible hf hwho hknown hvis
  have hboth' := h.visible hf hwho hknown' hvis'
  rcases hboth with hold | hgain
  · rcases hboth' with hold' | hgain'
    · exact hf.located owner config owner' config' token hknown hknown' hold hold'
    · cases hgain' with
      | supplied _ _ _ hnew => exact absurd hold (not_visible_of_new hnew owner config)
      | committed ht _ hresult hcommits _ htoken =>
        exact (hf.committed_place hwho ht hresult hcommits htoken hknown hold).symm
  · cases hgain with
    | supplied hauthor hputs htoken hnew honly =>
      rcases hboth' with hold' | hgain'
      · exact absurd hold' (not_visible_of_new hnew owner' config')
      · cases hgain' with
        | supplied hauthor' hputs' htoken' hnew' honly' =>
          have hkey := (Entry.key_of_puts hputs).symm.trans (Entry.key_of_puts hputs')
          have hname : config.authority = config'.authority := Option.some.inj hkey
          rw [← hname, hputs] at hputs'
          cases hputs'
          obtain ⟨encoded, hencoded, hrefresh⟩ := Option.bind_eq_some_iff.mp htoken
          have hk := honly' _ (mem_of_lookup hencoded) hrefresh
          simp only [Config.authority, Key.secret.injEq] at hname
          cases hr : config.authSecretRef
          cases hr' : config'.authSecretRef
          simp_all
        | committed ht hauthor' =>
          rw [hauthor] at hauthor'
          cases hauthor'
    | committed ht hauthor hresult hcommits hdone htoken =>
      rcases hboth' with hold' | hgain'
      · exact hf.committed_place hwho ht hresult hcommits htoken hknown' hold'
      · cases hgain' with
        | supplied hauthor' =>
          rw [hauthor] at hauthor'
          cases hauthor'
        | committed ht' hauthor' =>
          rw [hauthor] at hauthor'
          cases hauthor'
          rw [ht] at ht'
          cases ht'
          rfl

/-- A claim is refused while the token is pending anywhere. -/
theorem Facts.not_pending (hf : Facts rt configOf who older)
    (hwho : Identified configOf who)
    {t t' : Tid} (ht : who t = some (owner, config)) {owner' : String} {config' : Config}
    (ht' : who t' = some (owner', config')) {n : Nat} {old : Secret}
    (hlook : lookup config'.authority older = some (n, old))
    (howner : ownedByOther old owner' = false) (htoken : tokenAt rt config' old = some token)
    (hintent : old.annotations.intent ≠ some (rt.sha256 token)) :
    ¬ Pending rt t config token older := by
  intro hpending
  have hknown := hwho t owner config ht
  have hknown' := hwho t' owner' config' ht'
  have hvis := hf.visible t owner config token ht hpending.1
  have href := hf.located owner config owner' config' token hknown hknown' hvis
    (Visible.of_lookup hlook howner htoken)
  have hauthority : config'.authority = config.authority := by
    rw [Config.authority, Config.authority, href]
  have htoken' : tokenAt rt config old = some token := by
    rw [tokenAt, Config.material, href]
    exact htoken
  rw [hauthority] at hlook
  rcases hf.fenced t owner config token n old ht hpending hlook htoken' with
    ⟨_, hfence⟩ | halien
  · exact hintent hfence
  · obtain ⟨other, otherConfig, hother, houtput, hsecret, hlease⟩ := halien
    have hmoved : Alien configOf config' old :=
      ⟨other, otherConfig, hother, houtput.trans hauthority.symm, hsecret, hlease⟩
    rw [hmoved.not_owned hknown'] at howner
    cases howner

theorem Step.unique (h : Step rt who older e) (hf : Facts rt configOf who older)
    (hwho : Identified configOf who)
    {t t' : Tid} {owner' : String} {config' : Config} (ht : who t = some (owner, config))
    (ht' : who t' = some (owner', config')) (hp : Pending rt t config token (e :: older))
    (hp' : Pending rt t' config' token (e :: older)) : t = t' := by
  rcases h.pending hwho ht hp with hold | ⟨n, old, _, _, he, hlook, howner, htoken, hintent⟩
  · rcases h.pending hwho ht' hp' with
      hold' | ⟨n, old, _, _, _, hlook, howner, htoken, hintent⟩
    · exact hf.unique t t' owner config owner' config' token ht ht' hold hold'
    · exact absurd hold (hf.not_pending hwho ht ht' hlook howner htoken hintent)
  · rcases h.pending hwho ht' hp' with hold' | ⟨_, _, _, _, he', _⟩
    · exact absurd hold' (hf.not_pending hwho ht' ht hlook howner htoken hintent)
    · exact Option.some.inj (congrArg Entry.author (he.symm.trans he'))

/-- An edit of the operator keeps the fence of a token it keeps. -/
theorem Facts.fenced_edit (hf : Facts rt configOf who older) {t : Tid} (ht : who t = some (owner, config))
    (hp : Pending rt t config token older) {name : String} {secret : Secret}
    (hallowed : editAllowed rt older name secret = true)
    (hkey : .secret name = config.authority) (htoken : tokenAt rt config secret = some token) :
    (secret.annotations.owner = some owner ∧
      secret.annotations.intent = some (rt.sha256 token)) ∨ Alien configOf config secret := by
  obtain ⟨encoded, hencoded, hrefresh⟩ := Option.bind_eq_some_iff.mp htoken
  rcases editAllowed_token hallowed (mem_of_lookup hencoded) hrefresh with
    ⟨hnew, _⟩ | ⟨n, old, hlook, hsame, howner, hintent, hlease⟩
  · exact absurd (hf.visible t owner config token ht hp.1) (not_visible_of_new hnew owner config)
  · rw [hkey] at hlook
    rcases hf.fenced t owner config token n old ht hp hlook hsame with
      ⟨hsecret, hfence⟩ | ⟨other, otherConfig, hother, houtput, hsecret, hnone⟩
    · exact .inl ⟨howner.trans hsecret, hintent.trans hfence⟩
    · refine .inr ⟨other, otherConfig, hother, houtput, howner.trans hsecret, ?_⟩
      rcases hlease with h | h
      · exact h
      · exact h.trans hnone

theorem Step.fenced (h : Step rt who older e) (hf : Facts rt configOf who older)
    (hwho : Identified configOf who) {t : Tid} (ht : who t = some (owner, config))
    (hp : Pending rt t config token (e :: older)) {n : Nat} {secret : Secret}
    (hlook : lookup config.authority (e :: older) = some (n, secret))
    (htoken : tokenAt rt config secret = some token) :
    (secret.annotations.owner = some owner ∧
      secret.annotations.intent = some (rt.sha256 token)) ∨ Alien configOf config secret := by
  have hknown := hwho t owner config ht
  rcases h.pending hwho ht hp with hold | ⟨m, old, lease, leaseUntil, rfl, _, _, htoken', _⟩
  · -- the token was pending before, so `e` is not the claim of `t`
    by_cases hkey : e.key? = some config.authority
    · cases h with
      | @claim t' owner' config' m old token' lease leaseUntil ht' hlook' howner htoken' hintent =>
        simp only [Entry.key?, Option.some.injEq] at hkey
        rw [← hkey, lookup_update_self] at hlook
        cases hlook
        rw [tokenAt_claimed] at htoken
        rcases hf.fenced t owner config token m old ht hold (hkey ▸ hlook') htoken with
          ⟨hsecret, hfence⟩ | halien
        · -- the claimant is the same profile, and claims the same token
          have heq := owned_of_not_other howner hsecret hknown.identity
          have hconfig := (hwho t' owner' config' ht').same hknown heq
          subst hconfig
          rw [htoken] at htoken'
          cases htoken'
          exact absurd hfence hintent
        · obtain ⟨other, otherConfig, hother, houtput, hsecret, hlease⟩ := halien
          have hmoved : Alien configOf config' old :=
            ⟨other, otherConfig, hother, houtput.trans hkey.symm, hsecret, hlease⟩
          rw [hmoved.not_owned (hwho t' owner' config' ht')] at howner
          cases howner
      | native => cases hkey
      | refreshed => cases hkey
      | @commit t' owner' config' m latest authJson accessData binding reread ht' hlook'
          hcommits hreread hresult hheld =>
        simp only [Entry.key?, Option.some.injEq] at hkey
        rw [← hkey, lookup_update_self] at hlook
        cases hlook
        obtain ⟨hlease, hsecret, token', hclaims', _⟩ :=
          hf.held ht' hcommits hreread hlook' hheld
        have hne : t ≠ t' := by
          rintro rfl
          rw [ht] at ht'
          cases ht'
          exact hp.2 ⟨_, List.mem_cons_self, rfl⟩
        by_cases hsame : config.authSecretRef.key = config'.authSecretRef.key
        · -- the token just committed is not pending elsewhere
          have hrotated : rotatedToken rt authJson = some token := by
            have hmaterial : config'.material (committedSecret rt latest config'
                (rt.toBase64 authJson) accessData binding) = some (rt.toBase64 authJson) :=
              material_committed (hwho t' owner' config' ht').key
            rw [tokenAt, Config.material, hsame] at htoken
            rw [Config.material] at hmaterial
            rw [hmaterial] at htoken
            exact htoken
          rcases hf.rotated t' owner' config' authJson token ht' (hreread.mem hresult) hcommits
            hrotated with hclaims | hnot
          · exact absurd (hf.unique t t' owner config owner' config' token ht ht' hold
              ⟨hclaims, hcommits⟩) hne
          · exact absurd (hf.visible t owner config token ht hold.1) (hnot owner config hknown)
        · rw [tokenAt, material_committed_ne hknown.key hsame] at htoken
          rcases hf.fenced t owner config token m latest ht hold (hkey ▸ hlook') htoken with
            ⟨howner, _⟩ | ⟨_, _, _, _, _, hnone⟩
          · have heq : owner' = owner := Option.some.inj (hsecret.symm.trans howner)
            have hconfig := hknown.same (hwho t' owner' config' ht') heq
            subst hconfig
            exact absurd rfl hsame
          · exact absurd hnone hlease
      | @invalidate t' owner' config' m old ht' =>
        simp only [Entry.key?, Option.some.injEq] at hkey
        rw [← hkey, lookup_update_self] at hlook
        cases hlook
        rw [tokenAt_invalidated] at htoken
        cases htoken
      | @republish t' owner' config' m old secret' ht' hlook' howner hsecret =>
        simp only [Entry.key?, Option.some.injEq] at hkey
        rw [← hkey, lookup_update_self] at hlook
        cases hlook
        exact .inr ⟨owner', config', hwho t' owner' config' ht', hkey, hsecret.1, hsecret.2⟩
      | @publish t' owner' config' secret' ht' hnone hsecret =>
        simp only [Entry.key?, Option.some.injEq] at hkey
        rw [← hkey, lookup_create_self] at hlook
        cases hlook
        exact .inr ⟨owner', config', hwho t' owner' config' ht', hkey, hsecret.1, hsecret.2⟩
      | clock => cases hkey
      | @supply name secret' hallowed =>
        simp only [Entry.key?, Option.some.injEq] at hkey
        rw [← hkey, lookup_create_self] at hlook
        cases hlook
        exact hf.fenced_edit ht hold hallowed hkey htoken
      | @edit name secret' hallowed =>
        simp only [Entry.key?, Option.some.injEq] at hkey
        rw [← hkey, lookup_update_self] at hlook
        cases hlook
        exact hf.fenced_edit ht hold hallowed hkey htoken
      | remove =>
        simp only [Entry.key?, Option.some.injEq] at hkey
        rw [← hkey, lookup_delete_self] at hlook
        cases hlook
    · rw [lookup_cons_of_ne hkey] at hlook
      exact hf.fenced t owner config token n secret ht hold hlook htoken
  · rw [lookup_update_self] at hlook
    cases hlook
    exact .inl ⟨rfl, rfl⟩

/-- A native result names the token refreshed or a new one. -/
theorem Facts.rotates (hf : Facts rt configOf who older) {t : Tid}
    (ht : who t = some (owner, config)) {given authJson : String}
    (hgiven : .note (some t) (.native given) ∈ older)
    (hrotates : rotates rt older given authJson = true)
    (htoken : rotatedToken rt authJson = some token) :
    Claims rt t config token older ∨ newToken rt older token = true := by
  obtain ⟨owner', config', claimed, encoded, ht', hclaim, hencoded, rfl⟩ :=
    hf.natives t given hgiven
  rw [ht] at ht'
  cases ht'
  rw [CodexSubscription.rotates, htoken] at hrotates
  rcases Bool.or_eq_true_iff.mp hrotates with hsame | hnew
  · refine .inl ⟨claimed, hclaim, ?_⟩
    obtain ⟨_, token', htoken'⟩ := hf.shaped t owner config claimed ht hclaim
    -- an empty value would have had no token to claim
    have hne : encoded ≠ "" := by
      rintro rfl
      simp [tokenAt, hencoded, refreshToken] at htoken'
    simpa [tokenAt, hencoded, refreshToken, hne] using hsame
  · exact .inr hnew

theorem rotated_not_new {tr : History} {a : Option Tid} {authJson : String}
    (hmem : .note a (.refreshed authJson) ∈ tr) (htoken : rotatedToken rt authJson = some token) :
    newToken rt tr token ≠ true := by
  intro hnew
  have hno := newToken_not_mem hnew hmem
  simp [mentions, htoken] at hno

theorem Step.refreshed_token {t : Tid} {authJson : String}
    (h : Step rt who older (.note (some t) (.refreshed authJson)))
    (hf : Facts rt configOf who older) (ht : who t = some (owner, config))
    (htoken : rotatedToken rt authJson = some token) :
    Claims rt t config token older ∨ newToken rt older token = true := by
  cases h with
  | refreshed hgiven hrotates => exact hf.rotates ht hgiven hrotates htoken

theorem Step.rotated (h : Step rt who older e) (hf : Facts rt configOf who older)
    (hwho : Identified configOf who) {t : Tid} (ht : who t = some (owner, config))
    {authJson : String} (hmem : .note (some t) (.refreshed authJson) ∈ e :: older)
    (hcommits : ¬ Commits t config (e :: older)) (htoken : rotatedToken rt authJson = some token) :
    Claims rt t config token (e :: older) ∨
      ∀ owner' config', Known configOf owner' config' →
        ¬ Visible rt owner' config' token (e :: older) := by
  have hbefore : ¬ Commits t config older := fun hc => hcommits (hc.cons e)
  rcases List.mem_cons.mp hmem with heq | hold
  · subst heq
    rcases h.refreshed_token hf ht htoken with hclaims | hnew
    · exact .inl (hclaims.cons _)
    · refine .inr fun owner' config' _ hvis => ?_
      rcases hvis.of_cons with hvis' | ⟨secret, hputs, _⟩
      · exact not_visible_of_new hnew owner' config' hvis'
      · cases hputs
  · rcases hf.rotated t owner config authJson token ht hold hbefore htoken with hclaims | hnot
    · exact .inl (hclaims.cons e)
    · by_cases hclaims : Claims rt t config token older
      · exact .inl (hclaims.cons e)
      refine .inr fun owner' config' hknown' hvis => ?_
      rcases h.visible hf hwho hknown' hvis with hvis' | hgain
      · exact hnot owner' config' hknown' hvis'
      · cases hgain with
        | supplied _ _ _ hnew => exact rotated_not_new hold htoken hnew
        | @committed t' authJson' ht' _ hresult' hcommits' hdone htoken' =>
          -- a result committed is the only one with its token
          have hclaims' : ¬ Claims rt t' config' token older := fun hc =>
            hnot owner' config' hknown' (hf.visible t' owner' config' token ht' hc)
          have hsame := hf.apart t t' owner config owner' config' authJson authJson' token ht ht'
            hold hresult' htoken htoken' hclaims hclaims'
          subst hsame
          rw [ht] at ht'
          cases ht'
          exact hcommits hdone

theorem Step.apart (h : Step rt who older e) (hf : Facts rt configOf who older) {t t' : Tid}
    {owner' : String} {config' : Config} (ht : who t = some (owner, config))
    (ht' : who t' = some (owner', config')) {authJson authJson' : String}
    (hmem : .note (some t) (.refreshed authJson) ∈ e :: older)
    (hmem' : .note (some t') (.refreshed authJson') ∈ e :: older)
    (htoken : rotatedToken rt authJson = some token)
    (htoken' : rotatedToken rt authJson' = some token)
    (hclaims : ¬ Claims rt t config token (e :: older))
    (hclaims' : ¬ Claims rt t' config' token (e :: older)) : t = t' := by
  have hbefore : ¬ Claims rt t config token older := fun hc => hclaims (hc.cons e)
  have hbefore' : ¬ Claims rt t' config' token older := fun hc => hclaims' (hc.cons e)
  rcases List.mem_cons.mp hmem with heq | hold
  · rcases List.mem_cons.mp hmem' with heq' | hold'
    · exact Option.some.inj (congrArg Entry.author (heq.trans heq'.symm))
    · subst heq
      rcases h.refreshed_token hf ht htoken with hc | hnew
      · exact absurd hc hbefore
      · exact absurd hnew (rotated_not_new hold' htoken')
  · rcases List.mem_cons.mp hmem' with heq' | hold'
    · subst heq'
      rcases h.refreshed_token hf ht' htoken' with hc | hnew
      · exact absurd hc hbefore'
      · exact absurd hnew (rotated_not_new hold htoken)
    · exact hf.apart t t' owner config owner' config' authJson authJson' token ht ht' hold hold'
        htoken htoken' hbefore hbefore'

theorem Step.facts (h : Step rt who older e) (hf : Facts rt configOf who older)
    (hwho : Identified configOf who) : Facts rt configOf who (e :: older) where
  shaped _ _ _ _ ht hclaim := h.shaped hf hwho ht hclaim
  visible _ _ _ _ ht hclaims := h.visible_claims hf hwho ht hclaims
  natives _ _ hmem := h.natives hf hmem
  located _ _ _ _ _ hknown hknown' hvis hvis' := h.located hf hwho hknown hknown' hvis hvis'
  unique _ _ _ _ _ _ _ ht ht' hp hp' := h.unique hf hwho ht ht' hp hp'
  fenced _ _ _ _ _ _ ht hp hlook htoken := h.fenced hf hwho ht hp hlook htoken
  rotated _ _ _ _ _ ht hmem hcommits htoken := h.rotated hf hwho ht hmem hcommits htoken
  apart _ _ _ _ _ _ _ _ _ ht ht' hmem hmem' htoken htoken' hclaims hclaims' :=
    h.apart hf ht ht' hmem hmem' htoken htoken' hclaims hclaims'

theorem Legal.facts {tr : History} (h : Legal rt who tr) (hwho : Identified configOf who) :
    Facts rt configOf who tr := by
  induction tr with
  | nil =>
    have hclaim : ∀ {t config claimed}, ¬ Claim t config claimed [] := fun hc => by
      cases hc.1
    have hvis : ∀ {owner config token}, ¬ Visible rt owner config token [] := by
      rintro owner config token ⟨n, secret, ⟨newer, e, older, htr, _⟩, _⟩
      cases newer <;> cases htr
    constructor
    · exact fun _ _ _ _ _ hc => absurd hc hclaim
    · rintro _ _ _ _ _ ⟨claimed, hc, _⟩
      exact absurd hc hclaim
    · intro _ _ hmem
      cases hmem
    · exact fun _ _ _ _ _ _ _ hv => absurd hv hvis
    · rintro _ _ _ _ _ _ _ _ _ ⟨⟨claimed, hc, _⟩, _⟩
      exact absurd hc hclaim
    · rintro _ _ _ _ _ _ _ ⟨⟨claimed, hc, _⟩, _⟩
      exact absurd hc hclaim
    · intro _ _ _ _ _ _ hmem
      cases hmem
    · intro _ _ _ _ _ _ _ _ _ _ _ hmem
      cases hmem
  | cons e older ih => exact h.2.facts (ih h.1) hwho

/-! ### What legal histories promise -/

/-- The result of the native refresh of `t` is durable. -/
def ResultCommitted (rt : Runtime) (t : Tid) (config : Config) (tr : History) : Prop :=
  ∃ authJson committed, .note (some t) (.refreshed authJson) ∈ tr ∧
    .update (some t) config.authority committed ∈ tr ∧
    config.material committed = some (rt.toBase64 authJson) ∧
    committed.annotations.intent = none

/-- Where a completion commits `authJson`, the authority was read again after the native
    refresh had returned it; the lease was held then, and the authority has not changed
    since. -/
def HeldWhenRead (rt : Runtime) (t : Tid) (config : Config) (authJson : String)
    (tr : History) : Prop :=
  ∃ n latest reread, lookup config.authority tr = some (n, latest) ∧ reread <:+ tr ∧
    .note (some t) (.refreshed authJson) ∈ reread ∧ LeaseHeld rt t config n latest reread

/-- What a thread may replace: its output when it owns it, or the authority when no
    one else owns it. -/
def MayReplace (owner : String) (config : Config) (k : Key) (old : Secret) : Prop :=
  (k = config.output ∧ old.annotations.owner = some owner) ∨
    (k = config.authority ∧ ownedByOther old owner = false)

theorem Step.commit_inv {t : Tid} {committed : Secret}
    (h : Step rt who older (.update (some t) config.authority committed))
    (ht : who t = some (owner, config)) (hknown : Known configOf owner config)
    (hintent : committed.annotations.intent = none) :
    ∃ authJson, config.material committed = some (rt.toBase64 authJson) ∧
      HeldWhenRead rt t config authJson older := by
  generalize hk : config.authority = k at h
  cases h with
  | claim => cases hintent
  | @commit _ owner' config' n latest authJson accessData binding reread ht' hold
      hcommits hreread hresult hheld =>
    rw [ht] at ht'
    cases ht'
    exact ⟨authJson, material_committed hknown.key, n, latest, reread, hold, hreread, hresult,
      hheld⟩
  | invalidate ht' =>
    rw [ht] at ht'
    cases ht'
    exact absurd hk.symm hknown.output_ne
  | republish ht' =>
    rw [ht] at ht'
    cases ht'
    exact absurd hk.symm hknown.output_ne

theorem Legal.committed {tr : History} (h : Legal rt who tr) {t : Tid}
    (ht : who t = some (owner, config)) (hknown : Known configOf owner config)
    (hcommits : Commits t config tr) : ResultCommitted rt t config tr := by
  obtain ⟨committed, hmem, hintent⟩ := hcommits
  obtain ⟨newer, older, rfl, _, hstep⟩ := h.of_mem hmem
  obtain ⟨authJson, hmaterial, _, _, reread, _, hreread, hresult, _⟩ :=
    hstep.commit_inv ht hknown hintent
  have hold : .note (some t) (.refreshed authJson) ∈ older := hreread.mem hresult
  exact ⟨authJson, committed, List.mem_append_right _ (List.mem_cons_of_mem _ hold), hmem,
    hmaterial, hintent⟩

/-- A refresh token is refreshed again only after its earlier result was committed. -/
theorem Step.native_once {t t' : Tid} {authJson authJson' : String}
    (h : Step rt who older (.note (some t) (.native authJson))) (hlegal : Legal rt who older)
    (hwho : Identified configOf who) (hmem : .note (some t') (.native authJson') ∈ older)
    (htoken : authToken rt authJson = some token) (htoken' : authToken rt authJson' = some token) :
    ∃ owner' config', who t' = some (owner', config') ∧ ResultCommitted rt t' config' older := by
  have hf := hlegal.facts hwho
  have hclaims : ∀ {u : Tid} {owner config claimed encoded}, who u = some (owner, config) →
      Claim u config claimed older → config.material claimed = some encoded →
      authToken rt (rt.fromBase64 encoded) = some token → Claims rt u config token older := by
    intro u owner config claimed encoded hu hclaim hencoded hauth
    obtain ⟨_, token', hclaimed⟩ := hf.shaped u owner config claimed hu hclaim
    have hne : encoded ≠ "" := by
      rintro rfl
      simp [tokenAt, hencoded, refreshToken] at hclaimed
    exact ⟨claimed, hclaim, by simpa [tokenAt, hencoded, refreshToken, hne] using hauth⟩
  cases h with
  | @native _ owner config claimed encoded ht hclaim hencoded hinvoked hcommits =>
    obtain ⟨owner', config', claimed', encoded', ht', hclaim', hencoded', rfl⟩ :=
      hf.natives t' authJson' hmem
    refine ⟨owner', config', ht', ?_⟩
    by_cases hdone : Commits t' config' older
    · exact hlegal.committed ht' (hwho t' owner' config' ht') hdone
    · have hsame := hf.unique t t' owner config owner' config' token ht ht'
        ⟨hclaims ht hclaim hencoded htoken, hcommits⟩
        ⟨hclaims ht' hclaim' hencoded' htoken', hdone⟩
      subst hsame
      exact absurd ⟨_, hmem⟩ hinvoked

/-- A write of a thread creates its output or replaces what it may replace. -/
theorem Step.owned (h : Step rt who older e) (hf : Facts rt configOf who older) {t : Tid}
    (hauthor : e.author = some t) (ht : who t = some (owner, config)) {k : Key}
    (hkey : e.key? = some k) : (k = config.output ∧ lookup k older = none) ∨
      ∃ n old, lookup k older = some (n, old) ∧ MayReplace owner config k old := by
  have hsame : ∀ {owner' config'}, who t = some (owner', config') →
      owner' = owner ∧ config' = config := by
    intro owner' config' ht'
    rw [ht] at ht'
    cases ht'
    exact ⟨rfl, rfl⟩
  cases h with
  | claim ht' hold howner =>
    cases hauthor
    cases hkey
    obtain ⟨rfl, rfl⟩ := hsame ht'
    exact .inr ⟨_, _, hold, .inr ⟨rfl, howner⟩⟩
  | commit ht' hold hcommits hreread hresult hheld =>
    cases hauthor
    cases hkey
    obtain ⟨rfl, rfl⟩ := hsame ht'
    obtain ⟨_, howner, _⟩ := hf.held ht hcommits hreread hold hheld
    exact .inr ⟨_, _, hold, .inr ⟨rfl, not_other_of_owned howner⟩⟩
  | invalidate ht' hold howner =>
    cases hauthor
    cases hkey
    obtain ⟨rfl, rfl⟩ := hsame ht'
    exact .inr ⟨_, _, hold, .inl ⟨rfl, howner⟩⟩
  | republish ht' hold howner =>
    cases hauthor
    cases hkey
    obtain ⟨rfl, rfl⟩ := hsame ht'
    exact .inr ⟨_, _, hold, .inl ⟨rfl, howner⟩⟩
  | publish ht' hnone =>
    cases hauthor
    cases hkey
    obtain ⟨rfl, rfl⟩ := hsame ht'
    exact .inl ⟨rfl, hnone⟩
  | native => cases hkey
  | refreshed => cases hkey
  | clock => cases hkey
  | supply => cases hauthor
  | edit => cases hauthor
  | remove => cases hauthor

/-- After its native refresh a thread publishes only what it committed. -/
theorem Step.publishes (h : Step rt who older e) {t : Tid} (hauthor : e.author = some t)
    (ht : who t = some (owner, config)) (hknown : Known configOf owner config)
    (hkey : e.key? = some config.output) : MayWrite t config older := by
  have hsame : ∀ {owner' config'}, who t = some (owner', config') → config' = config := by
    intro owner' config' ht'
    rw [ht] at ht'
    cases ht'
    rfl
  cases h with
  | claim ht' =>
    cases hauthor
    obtain rfl := hsame ht'
    exact absurd (Option.some.inj hkey).symm hknown.output_ne
  | commit ht' =>
    cases hauthor
    obtain rfl := hsame ht'
    exact absurd (Option.some.inj hkey).symm hknown.output_ne
  | invalidate ht' _ _ hmay =>
    cases hauthor
    obtain rfl := hsame ht'
    exact hmay
  | republish ht' _ _ _ hmay =>
    cases hauthor
    obtain rfl := hsame ht'
    exact hmay
  | publish ht' _ _ hmay =>
    cases hauthor
    obtain rfl := hsame ht'
    exact hmay
  | native => cases hkey
  | refreshed => cases hkey
  | clock => cases hkey
  | supply => cases hauthor
  | edit => cases hauthor
  | remove => cases hauthor

end Steps

end Discipline

end PaseoGateway.CodexSubscription

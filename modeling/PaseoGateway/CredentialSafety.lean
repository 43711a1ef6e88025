/-
  PaseoGateway/CredentialSafety.lean
  ==================================
  **Which Secrets a credential profile brings into a Pod.**

  The volumes of a projection select exactly the references `projectedRefs` lists, so
  what a profile must not name is a question about its specification.  The schema
  answers it for the Secret of the Codex authority in every field; for the private key
  of a GitHub App it asks about one field only.
-/
import PaseoGateway.CredentialProjection
import PaseoGateway.Fallible

namespace PaseoGateway.Credentials

open PaseoGateway.CodexSubscription (KeyReference)
open Cluster (CredentialReference secretReference)
open Fallible

/-! ### What the schema promises -/

section Accepted

variable {spec : ProfileSpec} {app : GithubApp} {codex : CodexSubscription}

@[simp] theorem issueIf_eq_nil {condition : Bool} {message : String} {path : List String} :
    issueIf condition message path = [] ↔ condition = false := by
  cases condition <;> simp [issueIf]

theorem superRefine_nil (h : accepts spec) : superRefine spec = [] := by
  simp only [accepts, Bool.and_eq_true, List.isEmpty_iff] at h
  exact h.2

theorem valid_of_accepts (h : accepts spec) : spec.valid := by
  simp only [accepts, Bool.and_eq_true] at h
  exact h.1

theorem accepted_codex (h : accepts spec) (hcodex : spec.codexSubscription = some codex) :
    codex.authSecretRef.name ≠ codex.outputSecretName ∧
      projectsAuthority spec codex.authSecretRef.name = false := by
  have hnil := superRefine_nil h
  simp only [superRefine, hcodex, Option.elim_some, codexIssues, List.append_eq_nil_iff,
    issueIf_eq_nil, beq_eq_false_iff_ne] at hnil
  exact ⟨hnil.1.1.1.1.1.1.1.1.1, hnil.1.1.1.1.1.2⟩

theorem accepted_app (h : accepts spec) (happ : spec.git.bind Git.githubApp = some app) :
    spec.git.bind Git.tokenSecretRef = none ∧
      app.outputSecretName ≠ app.privateKeySecretRef.name := by
  have hnil := superRefine_nil h
  simp only [superRefine, happ, Option.elim_some, appIssues, List.append_eq_nil_iff,
    issueIf_eq_nil, beq_eq_false_iff_ne, Option.isSome_some, Bool.and_true,
    Option.isSome_eq_false_iff, Option.isNone_iff_eq_none] at hnil
  exact ⟨hnil.1.1.1.1.2, hnil.1.1.1.2.1⟩

end Accepted

/-! ### The references of a projection -/

/-- A Secret a volume takes, with the keys it selects; without keys it takes all. -/
structure Selection where
  secret : String
  keys : List String
deriving DecidableEq, Repr

def Selection.names (selection : Selection) (ref : KeyReference) : Prop :=
  selection.secret = ref.name ∧ (selection.keys = [] ∨ ref.key ∈ selection.keys)

def ProjectedSource.selections (source : ProjectedSource) : List Selection :=
  match source.kind with
  | .Secret => [⟨source.name, source.items.map KeyToPath.key⟩]
  | .ConfigMap => []

def Volume.selections (volume : Volume) : List Selection :=
  match volume.source with
  | .secret secretName items _ => [⟨secretName, items.map KeyToPath.key⟩]
  | .projected _ sources => sources.flatMap ProjectedSource.selections
  | _ => []

def EnvVar.secretRef (env : EnvVar) : Option KeyReference :=
  env.valueFrom.bind ValueReference.secretKeyRef

/-- Some variable or volume takes something out of the Secret. -/
def Projection.NamesSecret (projection : Projection) (secret : String) : Prop :=
  (∃ env ∈ projection.env, ∃ ref, env.secretRef = some ref ∧ ref.name = secret) ∨
    ∃ volume ∈ projection.volumes, ∃ selection ∈ volume.selections, selection.secret = secret

/-- Some variable or volume takes this key of the Secret. -/
def Projection.NamesKey (projection : Projection) (ref : KeyReference) : Prop :=
  (∃ env ∈ projection.env, env.secretRef = some ref) ∨
    ∃ volume ∈ projection.volumes, ∃ selection ∈ volume.selections, selection.names ref

/-- The references of the volumes, in their order. -/
def projectedRefs (spec : ProfileSpec) : List KeyReference :=
  spec.files.flatMap (fun file => file.valueFrom.secretKeyRef.toList) ++
  (spec.codexSubscription.map fun codex => ⟨codex.outputSecretName, "access.json"⟩).toList ++
  (spec.git.bind Git.ssh).elim [] (fun ssh =>
    ssh.keySecretRef :: ssh.knownHostsRef.secretKeyRef.toList) ++
  (spec.git.bind gitToken).toList ++
  ((spec.git.bind Git.signing).map Signing.keySecretRef).toList

def select (ref : KeyReference) : Selection := ⟨ref.name, [ref.key]⟩

@[simp] theorem select_names {ref other : KeyReference} : (select ref).names other ↔ ref = other := by
  obtain ⟨name, key⟩ := ref
  obtain ⟨name', key'⟩ := other
  simp [select, Selection.names, eq_comm]

/-- What the volumes of a list of features select. -/
def selectionsOf (pushed : List Pushed) : List Selection :=
  pushed.flatMap fun p => p.volumes.flatMap Volume.selections

@[simp] theorem selectionsOf_append (a b : List Pushed) :
    selectionsOf (a ++ b) = selectionsOf a ++ selectionsOf b := by
  simp [selectionsOf]

@[simp] theorem selectionsOf_nil : selectionsOf [] = [] := rfl

@[simp] theorem selectionsOf_cons (p : Pushed) (rest : List Pushed) :
    selectionsOf (p :: rest) = p.volumes.flatMap Volume.selections ++ selectionsOf rest := by
  simp [selectionsOf]

/-- No feature takes the value of a variable from a Secret. -/
def Literal (p : Pushed) : Prop := ∀ env ∈ p.env, env.secretRef = none

section Features

variable {parseUrl : String → Option Url} {project : SourceProject}

theorem filePushed_spec {file : FileItem × Nat} {p : Pushed} (h : filePushed file = .ok p) :
    p.volumes.flatMap Volume.selections =
        file.1.valueFrom.secretKeyRef.toList.map select ∧ Literal p := by
  unfold filePushed at h
  rcases hsecret : file.1.valueFrom.secretKeyRef with _ | secret
  · rcases hconfig : file.1.valueFrom.configMapKeyRef with _ | config
    · simp [hsecret, hconfig] at h
    · simp only [hsecret, hconfig, Option.none_or, Except.ok.injEq] at h
      subst h
      exact ⟨rfl, by simp [Literal]⟩
  · simp only [hsecret, Option.some_or, Except.ok.injEq] at h
    subst h
    exact ⟨rfl, by simp [Literal]⟩

theorem filesPushed_spec {files : List (FileItem × Nat)} {pushed : List Pushed}
    (h : files.mapM filePushed = .ok pushed) :
    selectionsOf pushed =
        (files.flatMap fun file => file.1.valueFrom.secretKeyRef.toList).map select ∧
      ∀ p ∈ pushed, Literal p := by
  induction mapM_eq_ok.mp h with
  | nil => simp
  | @cons file p files pushed hfile _ ih =>
    obtain ⟨hselections, hliteral⟩ := filePushed_spec hfile
    obtain ⟨ihselections, ihliteral⟩ := ih (mapM_eq_ok.mpr ‹_›)
    simp [hselections, ihselections, hliteral]
    exact ihliteral

theorem codexPushed_spec (codex : CodexSubscription) :
    (codexPushed codex).volumes.flatMap Volume.selections =
        [select ⟨codex.outputSecretName, "access.json"⟩] ∧ Literal (codexPushed codex) :=
  ⟨rfl, by simp [Literal, codexPushed, EnvVar.secretRef]⟩

theorem sshPushed_spec {ssh : Ssh} {p : Pushed} (h : sshPushed ssh = .ok p) :
    p.volumes.flatMap Volume.selections =
        (ssh.keySecretRef :: ssh.knownHostsRef.secretKeyRef.toList).map select ∧ Literal p := by
  unfold sshPushed at h
  rcases hsecret : ssh.knownHostsRef.secretKeyRef with _ | secret
  · rcases hconfig : ssh.knownHostsRef.configMapKeyRef with _ | config
    · simp [hsecret, hconfig] at h
    · simp only [hsecret, hconfig, Option.none_or, Except.ok.injEq] at h
      subst h
      exact ⟨rfl, by simp [Literal, EnvVar.secretRef]⟩
  · simp only [hsecret, Option.some_or, Except.ok.injEq] at h
    subst h
    exact ⟨rfl, by simp [Literal, EnvVar.secretRef]⟩

theorem tokenPushed_spec (git : Git) (repository : Location) (token : KeyReference) :
    (tokenPushed git repository token).volumes.flatMap Volume.selections = [select token] ∧
      Literal (tokenPushed git repository token) :=
  ⟨rfl, by simp [Literal, tokenPushed, EnvVar.secretRef]⟩

theorem gitTokenPushed_spec {git : Git} {pushed : List Pushed}
    (h : gitTokenPushed parseUrl project git = .ok pushed) :
    selectionsOf pushed = (gitToken git).toList.map select ∧ ∀ p ∈ pushed, Literal p := by
  unfold gitTokenPushed at h
  rcases htoken : gitToken git with _ | token
  · simp only [htoken, Except.ok.injEq] at h
    subst h
    simp
  · simp only [htoken] at h
    obtain ⟨repository, _, h⟩ := bind_eq_ok.mp h
    split at h
    · simp at h
    · obtain rfl := Except.ok.inj h
      obtain ⟨hselections, hliteral⟩ := tokenPushed_spec git repository token
      simp [hselections, hliteral]

theorem signingPushed_spec (signing : Signing) :
    (signingPushed signing).volumes.flatMap Volume.selections = [select signing.keySecretRef] ∧
      Literal (signingPushed signing) :=
  ⟨rfl, by simp [Literal, signingPushed]⟩

end Features

section Assembled

variable {parseUrl : String → Option Url} {workspace : PlacedWorkspace} {project : SourceProject}
variable {spec : ProfileSpec} {pushed : List Pushed} {profile : CredentialProfile}
variable {projection : Projection} {app : GithubApp} {codex : CodexSubscription}

/-- The features of a profile, one after the other. -/
theorem profilePushed_parts (h : profilePushed parseUrl project spec = .ok pushed) :
    ∃ files ssh token, spec.files.zipIdx.mapM filePushed = .ok files ∧
      (spec.git.bind Git.ssh).toList.mapM sshPushed = .ok ssh ∧
      spec.git.elim (.ok []) (gitTokenPushed parseUrl project) = .ok token ∧
      pushed = files ++ spec.codexSubscription.toList.map codexPushed ++ ssh ++ token ++
        (spec.git.bind Git.identity).toList.map identityPushed ++
        (spec.git.bind Git.signing).toList.map signingPushed := by
  obtain ⟨files, hfiles, h⟩ := bind_eq_ok.mp h
  obtain ⟨_, _, h⟩ := bind_eq_ok.mp h
  split at h
  · simp at h
  · obtain ⟨ssh, hssh, h⟩ := bind_eq_ok.mp h
    obtain ⟨token, htoken, h⟩ := bind_eq_ok.mp h
    exact ⟨files, ssh, token, hfiles, hssh, htoken, (Except.ok.inj h).symm⟩

theorem profilePushed_spec (h : profilePushed parseUrl project spec = .ok pushed) :
    selectionsOf pushed = (projectedRefs spec).map select ∧ ∀ p ∈ pushed, Literal p := by
  obtain ⟨files, ssh, token, hfiles, hssh, htoken, rfl⟩ := profilePushed_parts h
  have hf := filesPushed_spec hfiles
  have hs : selectionsOf ssh = ((spec.git.bind Git.ssh).elim [] fun ssh =>
      ssh.keySecretRef :: ssh.knownHostsRef.secretKeyRef.toList).map select ∧
        ∀ p ∈ ssh, Literal p := by
    rcases hopt : spec.git.bind Git.ssh with _ | key
    · simp only [hopt, Option.toList_none, List.mapM_nil] at hssh
      obtain rfl := Except.ok.inj hssh
      simp
    · rw [hopt, Option.toList_some, mapM_eq_ok] at hssh
      obtain ⟨p, _, hp, hnil, rfl⟩ := List.forall₂_cons_left_iff.mp hssh
      obtain rfl := List.forall₂_nil_left_iff.mp hnil
      obtain ⟨hselections, hliteral⟩ := sshPushed_spec hp
      simp [hselections, hliteral]
  have ht : selectionsOf token = (spec.git.bind gitToken).toList.map select ∧
      ∀ p ∈ token, Literal p := by
    rcases hgit : spec.git with _ | git
    · simp only [hgit, Option.elim_none] at htoken
      obtain rfl := Except.ok.inj htoken
      simp
    · simp only [hgit, Option.elim_some] at htoken
      simpa using gitTokenPushed_spec htoken
  constructor
  · have hindices : (spec.files.zipIdx.flatMap fun file =>
        file.1.valueFrom.secretKeyRef.toList) =
        spec.files.flatMap fun file => file.valueFrom.secretKeyRef.toList := by
      conv_rhs => rw [← List.zipIdx_map_fst 0 spec.files, List.flatMap_map]
    have hc : selectionsOf (spec.codexSubscription.toList.map codexPushed) =
        ((spec.codexSubscription.map fun codex =>
          (⟨codex.outputSecretName, "access.json"⟩ : KeyReference)).toList).map select := by
      rcases spec.codexSubscription with _ | codex
      · rfl
      · simp [(codexPushed_spec codex).1]
    have hi : selectionsOf ((spec.git.bind Git.identity).toList.map identityPushed) = [] := by
      rcases spec.git.bind Git.identity with _ | identity
      · rfl
      · rfl
    have hg : selectionsOf ((spec.git.bind Git.signing).toList.map signingPushed) =
        ((spec.git.bind Git.signing).map Signing.keySecretRef).toList.map select := by
      rcases spec.git.bind Git.signing with _ | signing
      · rfl
      · simp [(signingPushed_spec signing).1]
    simp only [selectionsOf_append, hf.1, hindices, hc, hs.1, ht.1, hi, hg, projectedRefs,
      List.map_append, List.append_nil]
  · intro p hp
    simp only [List.mem_append, List.mem_map, Option.mem_toList] at hp
    rcases hp with ((((hp | ⟨codex, _, rfl⟩) | hp) | hp) | ⟨identity, _, rfl⟩) | ⟨signing, _, rfl⟩
    · exact hf.2 p hp
    · exact (codexPushed_spec codex).2
    · exact hs.2 p hp
    · exact ht.2 p hp
    · simp [Literal, identityPushed]
    · exact (signingPushed_spec signing).2

theorem secretRef_gitConfigEnv (gitConfig : List (String × String)) :
    ∀ env ∈ gitConfigEnv gitConfig, env.secretRef = none := by
  intro env henv
  unfold gitConfigEnv at henv
  split at henv
  · simp at henv
  · simp only [List.mem_cons, List.mem_flatMap, List.not_mem_nil, or_false] at henv
    rcases henv with rfl | ⟨_, _, rfl | rfl⟩ <;> rfl

/-- A projection takes the values of the variables of the profile, and what `projectedRefs`
    lists. -/
theorem credentialProjection_spec
    (h : credentialProjection parseUrl workspace project (some profile) = .ok projection) :
    accepts profile.spec ∧
      (∀ ref, (∃ env ∈ projection.env, env.secretRef = some ref) ↔
        ∃ item ∈ profile.spec.env, item.valueFrom.secretKeyRef = some ref) ∧
      projection.volumes.flatMap Volume.selections = (projectedRefs profile.spec).map select := by
  simp only [credentialProjection] at h
  split at h
  · simp at h
  · rename_i hschema
    split at h
    · simp at h
    · obtain ⟨pushed, hpushed, h⟩ := bind_eq_ok.mp h
      obtain rfl := Except.ok.inj h
      obtain ⟨hselections, hliteral⟩ := profilePushed_spec hpushed
      refine ⟨?_, fun ref => ?_, ?_⟩
      · simp only [CredentialProfileSchema, Bool.not_eq_true, Bool.not_eq_false',
          Bool.and_eq_true] at hschema
        simpa using hschema.2
      · simp only [assembled, List.mem_append, List.mem_map, List.mem_flatMap, List.mem_cons]
        constructor
        · rintro ⟨env, (⟨item, hitem, rfl⟩ | ⟨p, hp, henv⟩) | rfl | henv, href⟩
          · exact ⟨item, hitem, href⟩
          · rw [hliteral p hp env henv] at href
            cases href
          · cases href
          · rw [secretRef_gitConfigEnv _ env henv] at href
            cases href
        · rintro ⟨item, hitem, href⟩
          exact ⟨_, .inl (.inl ⟨item, hitem, rfl⟩), href⟩
      · simpa [assembled, selectionsOf, List.flatMap_assoc] using hselections

theorem exists_selection {P : Selection → Prop} :
    (∃ volume ∈ projection.volumes, ∃ selection ∈ volume.selections, P selection) ↔
      ∃ selection ∈ projection.volumes.flatMap Volume.selections, P selection := by
  simp only [List.mem_flatMap]
  grind

end Assembled

/-! ### The Codex authority -/

theorem named_eq_false {ref : Option KeyReference} {secret : String} :
    named ref secret = false ↔ ∀ r, ref = some r → r.name ≠ secret := by
  rcases ref with _ | r
  · simp [named]
  · simp [named]

section Authority

variable {spec : ProfileSpec} {codex : CodexSubscription}

/-- Every reference the worker gets is to another Secret than the authority's. -/
structure Apart (spec : ProfileSpec) (codex : CodexSubscription) : Prop where
  output : codex.authSecretRef.name ≠ codex.outputSecretName
  valueFroms : ∀ valueFrom ∈ spec.valueFroms, ∀ ref, valueFrom.secretKeyRef = some ref →
    ref.name ≠ codex.authSecretRef.name
  token : ∀ ref, spec.git.bind Git.tokenSecretRef = some ref → ref.name ≠ codex.authSecretRef.name
  app : ∀ app, spec.git.bind Git.githubApp = some app →
    app.outputSecretName ≠ codex.authSecretRef.name
  sshKey : ∀ ssh, spec.git.bind Git.ssh = some ssh →
    ssh.keySecretRef.name ≠ codex.authSecretRef.name
  knownHosts : ∀ ssh, spec.git.bind Git.ssh = some ssh →
    ∀ ref, ssh.knownHostsRef.secretKeyRef = some ref → ref.name ≠ codex.authSecretRef.name
  signing : ∀ signing, spec.git.bind Git.signing = some signing →
    signing.keySecretRef.name ≠ codex.authSecretRef.name

theorem apart (h : accepts spec) (hcodex : spec.codexSubscription = some codex) :
    Apart spec codex := by
  obtain ⟨houtput, hauthority⟩ := accepted_codex h hcodex
  simp only [projectsAuthority, Bool.or_eq_false_iff, List.any_eq_false, Bool.not_eq_true,
    named_eq_false] at hauthority
  obtain ⟨⟨⟨⟨⟨hvalues, htoken⟩, hkey⟩, hknown⟩, hsigning⟩, happ⟩ := hauthority
  exact {
    output := houtput
    valueFroms := hvalues
    token := htoken
    app := fun app happ' heq => by simp [happ', heq] at happ
    sshKey := fun ssh hssh => hkey _ (by simp [hssh])
    knownHosts := fun ssh hssh ref href => hknown ref (by simp [hssh, href])
    signing := fun signing hsign => hsigning _ (by simp [hsign]) }

theorem Apart.projectedRefs (h : Apart spec codex) (hcodex : spec.codexSubscription = some codex) :
    ∀ ref ∈ projectedRefs spec, ref.name ≠ codex.authSecretRef.name := by
  intro ref href
  simp only [Credentials.projectedRefs, List.mem_append, List.mem_flatMap, Option.mem_toList,
    Option.map_eq_some_iff] at href
  rcases href with (((⟨file, hfile, href⟩ | ⟨codex', hcodex', rfl⟩) | hssh) | htoken) |
    ⟨signing, hsigning, rfl⟩
  · exact h.valueFroms file.valueFrom (List.mem_append_right _ (List.mem_map_of_mem hfile)) ref href
  · rw [hcodex, Option.some.injEq] at hcodex'
    subst hcodex'
    exact h.output.symm
  · rcases hopt : spec.git.bind Git.ssh with _ | ssh
    · simp [hopt] at hssh
    · simp only [hopt, Option.elim_some, List.mem_cons, Option.mem_toList] at hssh
      rcases hssh with rfl | hknown
      · exact h.sshKey ssh hopt
      · exact h.knownHosts ssh hopt ref hknown
  · obtain ⟨git, hgit, htoken⟩ := Option.bind_eq_some_iff.mp htoken
    simp only [gitToken, Option.or_eq_some_iff, Option.map_eq_some_iff] at htoken
    rcases htoken with htoken | ⟨_, app, happ, rfl⟩
    · exact h.token ref (by simp [hgit, htoken])
    · exact h.app app (by simp [hgit, happ])
  · exact h.signing signing hsigning

theorem mem_referencedCredentials {profile : CredentialProfile} {ref : CredentialReference}
    (h : ref ∈ referencedCredentials profile) : ref ∈ references profile.spec := by
  have hfold : ∀ (refs : List CredentialReference) (seen : Js.Map String CredentialReference),
      ref ∈ (refs.foldl (fun seen ref => seen.set (referenceKey ref) ref) seen).values →
        ref ∈ refs ∨ ref ∈ seen.values := by
    intro refs
    induction refs with
    | nil => exact fun seen hmem => .inr hmem
    | cons head rest ih =>
      intro seen hmem
      rcases ih _ hmem with hrest | hset
      · exact .inl (List.mem_cons_of_mem head hrest)
      · rcases Js.Map.mem_values_set hset with rfl | hseen
        · exact .inl List.mem_cons_self
        · exact .inr hseen
  rcases hfold _ _ h with hmem | hmem
  · exact hmem
  · simp [Js.Map.values] at hmem

theorem secret_of_references {value : ValueReference} {ref : CredentialReference}
    (h : ref ∈ value.references) (hkind : ref.kind = .Secret) :
    ∃ key, value.secretKeyRef = some key ∧ ref = secretReference key := by
  obtain ⟨_ | secret, config⟩ := value
  · rcases config with _ | config
    · simp [ValueReference.references] at h
    · rw [List.mem_singleton.mp h] at hkind
      cases hkind
  · exact ⟨secret, rfl, List.mem_singleton.mp h⟩

theorem Apart.references (h : Apart spec codex) (hcodex : spec.codexSubscription = some codex)
    {ref : CredentialReference} (href : ref ∈ references spec) (hkind : ref.kind = .Secret) :
    ref.name ≠ codex.authSecretRef.name := by
  simp only [Credentials.references, List.mem_append, List.mem_flatMap, Option.mem_toList,
    Option.map_eq_some_iff] at href
  rcases href with ((((⟨value, hvalue, href⟩ | ⟨codex', hcodex', rfl⟩) | ⟨key, hkey, rfl⟩) |
    ⟨app, happ, rfl⟩) | hssh) | ⟨signing, hsigning, rfl⟩
  · obtain ⟨key, hkey, rfl⟩ := secret_of_references href hkind
    exact h.valueFroms value hvalue key hkey
  · rw [hcodex, Option.some.injEq] at hcodex'
    subst hcodex'
    exact h.output.symm
  · exact h.token key hkey
  · exact h.app app happ
  · rcases hopt : spec.git.bind Git.ssh with _ | ssh
    · simp [hopt] at hssh
    · simp only [hopt, Option.elim_some, List.mem_cons] at hssh
      rcases hssh with rfl | hknown
      · exact h.sshKey ssh hopt
      · obtain ⟨key, hkey, rfl⟩ := secret_of_references hknown hkind
        exact h.knownHosts ssh hopt key hkey
  · exact h.signing signing hsigning

end Authority

/-- The Secret of the Codex authority is named by nothing a worker gets, and by no
    reference the controller checks. -/
theorem authority_never_projected {parseUrl : String → Option Url} {profile : CredentialProfile}
    {codex : CodexSubscription} (haccepts : accepts profile.spec)
    (hcodex : profile.spec.codexSubscription = some codex) :
    (∀ workspace project projection,
      credentialProjection parseUrl workspace project (some profile) = .ok projection →
        ¬ projection.NamesSecret codex.authSecretRef.name) ∧
    ∀ ref ∈ referencedCredentials profile, ref.kind = .Secret →
      ref.name ≠ codex.authSecretRef.name := by
  have hapart := apart haccepts hcodex
  constructor
  · intro workspace project projection hok hnames
    obtain ⟨_, henv, hselections⟩ := credentialProjection_spec hok
    rcases hnames with ⟨env, hin, ref, href, hname⟩ | hvolume
    · obtain ⟨item, hitem, hitemref⟩ := (henv ref).mp ⟨env, hin, href⟩
      exact hapart.valueFroms item.valueFrom
        (List.mem_append_left _ (List.mem_map_of_mem hitem)) ref hitemref hname
    · rw [exists_selection, hselections] at hvolume
      obtain ⟨selection, hselection, hname⟩ := hvolume
      obtain ⟨ref, href, rfl⟩ := List.mem_map.mp hselection
      exact hapart.projectedRefs hcodex ref href hname
  · exact fun ref href hkind => hapart.references hcodex (mem_referencedCredentials href) hkind

section Demo

def demoUrl (value : String) : Option Url :=
  if value = "https://github.com/o/r" then
    some { protocol := "https:", host := "github.com", hostname := "github.com", pathname := "/o/r" }
  else none

def demoWorkspace : PlacedWorkspace where
  metadata := { name := "w", uid := some "uid" }
  spec := { projectRef := "p", displayName := "d", credentialProfile := "c" }
  inNamespace := "n"

def demoProject : SourceProject where
  name := "p"
  credentialProfile := "c"
  repository := "https://github.com/o/r"

def demoCodex : CodexSubscription where
  authSecretRef := ⟨"authority", "auth.json"⟩
  outputSecretName := "access"

def demoCodexProfile : CredentialProfile where
  name := "c"
  inNamespace := "n"
  spec := {
    env := [⟨"API_KEY", { secretKeyRef := some ⟨"api", "key"⟩ }⟩]
    codexSubscription := some demoCodex }

theorem authority_never_projected_demo :
    (∃ projection, credentialProjection demoUrl demoWorkspace demoProject (some demoCodexProfile) =
      .ok projection ∧ ¬ projection.NamesSecret "authority") ∧
    ∀ ref ∈ referencedCredentials demoCodexProfile, ref.kind = .Secret → ref.name ≠ "authority" := by
  have h := @authority_never_projected demoUrl demoCodexProfile demoCodex (by rfl) rfl
  refine ⟨?_, h.2⟩
  rcases hok : credentialProjection demoUrl demoWorkspace demoProject (some demoCodexProfile) with
    e | projection
  · have hisOk : (credentialProjection demoUrl demoWorkspace demoProject
        (some demoCodexProfile)).isOk = true := by rfl
    rw [hok] at hisOk
    cases hisOk
  · exact ⟨projection, rfl, h.1 _ _ _ hok⟩

end Demo

/-! ### The private key of the App -/

/-- No field of the profile that a worker gets is the reference. -/
structure Unnamed (spec : ProfileSpec) (ref : KeyReference) : Prop where
  valueFroms : ∀ valueFrom ∈ spec.valueFroms, valueFrom.secretKeyRef ≠ some ref
  sshKey : ∀ ssh, spec.git.bind Git.ssh = some ssh → ssh.keySecretRef ≠ ref
  knownHosts : ∀ ssh, spec.git.bind Git.ssh = some ssh → ssh.knownHostsRef.secretKeyRef ≠ some ref
  signing : ∀ signing, spec.git.bind Git.signing = some signing → signing.keySecretRef ≠ ref
  codex : ∀ codex, spec.codexSubscription = some codex →
    (⟨codex.outputSecretName, "access.json"⟩ : KeyReference) ≠ ref

section PrivateKey

variable {spec : ProfileSpec} {app : GithubApp}

/-- With an App the token is the broker's, which is in another Secret than the key. -/
theorem gitToken_of_app (h : accepts spec) (happ : spec.git.bind Git.githubApp = some app) :
    spec.git.bind gitToken = some ⟨app.outputSecretName, "token"⟩ := by
  obtain ⟨git, hgit, hgitApp⟩ := Option.bind_eq_some_iff.mp happ
  have htoken := (accepted_app h happ).1
  simp only [hgit, Option.bind_some] at htoken ⊢
  simp [gitToken, htoken, hgitApp]

theorem unnamed_iff (h : accepts spec) (happ : spec.git.bind Git.githubApp = some app) :
    Unnamed spec app.privateKeySecretRef ↔
      (∀ item ∈ spec.env, item.valueFrom.secretKeyRef ≠ some app.privateKeySecretRef) ∧
        app.privateKeySecretRef ∉ projectedRefs spec := by
  have houtput : (⟨app.outputSecretName, "token"⟩ : KeyReference) ≠ app.privateKeySecretRef :=
    fun heq => (accepted_app h happ).2 (congrArg KeyReference.name heq)
  have htoken := gitToken_of_app h happ
  constructor
  · intro hun
    refine ⟨fun item hitem => hun.valueFroms _ (List.mem_append_left _ (List.mem_map_of_mem hitem)),
      fun hmem => ?_⟩
    simp only [projectedRefs, List.mem_append, List.mem_flatMap, Option.mem_toList,
      Option.map_eq_some_iff, htoken] at hmem
    rcases hmem with (((⟨file, hfile, href⟩ | ⟨codex, hcodex, heq⟩) | hssh) | heq) |
      ⟨signing, hsigning, heq⟩
    · exact hun.valueFroms _ (List.mem_append_right _ (List.mem_map_of_mem hfile)) href
    · exact hun.codex codex hcodex heq
    · rcases hopt : spec.git.bind Git.ssh with _ | ssh
      · simp [hopt] at hssh
      · simp only [hopt, Option.elim_some, List.mem_cons, Option.mem_toList] at hssh
        rcases hssh with heq | hknown
        · exact hun.sshKey ssh hopt heq.symm
        · exact hun.knownHosts ssh hopt hknown
    · exact houtput (Option.some.inj heq)
    · exact hun.signing signing hsigning heq
  · rintro ⟨henv, hrefs⟩
    simp only [projectedRefs, List.mem_append, List.mem_flatMap, Option.mem_toList,
      Option.map_eq_some_iff, not_or, not_exists, not_and] at hrefs
    obtain ⟨⟨⟨⟨hfiles, hcodex⟩, hssh⟩, _⟩, hsigning⟩ := hrefs
    refine ⟨fun value hvalue => ?_, fun ssh hopt heq => ?_, fun ssh hopt heq => ?_,
      hsigning, hcodex⟩
    · rcases List.mem_append.mp hvalue with hmem | hmem
      · obtain ⟨item, hitem, rfl⟩ := List.mem_map.mp hmem
        exact henv item hitem
      · obtain ⟨file, hfile, rfl⟩ := List.mem_map.mp hmem
        exact hfiles file hfile
    · simp [hopt, heq] at hssh
    · simp [hopt, heq] at hssh

/-- The private key stays out of the workers exactly when no other field of the profile
    names it. -/
theorem key_projected_iff {parseUrl : String → Option Url} {profile : CredentialProfile}
    {app : GithubApp} (happ : profile.spec.git.bind Git.githubApp = some app)
    {workspace : PlacedWorkspace} {project : SourceProject} {projection : Projection}
    (hok : credentialProjection parseUrl workspace project (some profile) = .ok projection) :
    ¬ projection.NamesKey app.privateKeySecretRef ↔
      Unnamed profile.spec app.privateKeySecretRef := by
  obtain ⟨haccepts, henv, hselections⟩ := credentialProjection_spec hok
  rw [unnamed_iff haccepts happ, Projection.NamesKey, not_or, exists_selection, hselections, henv]
  simp only [not_exists, not_and, List.mem_map, forall_exists_index, and_imp,
    forall_apply_eq_imp_iff₂, select_names]
  exact and_congr_right fun _ =>
    ⟨fun hall hmem => hall _ hmem rfl, fun hnot ref href heq => hnot (heq ▸ href)⟩

end PrivateKey

section Demo

def demoApp : GithubApp where
  appId := 1
  installationId := 2
  privateKeySecretRef := ⟨"app", "key.pem"⟩
  outputSecretName := "minted"
  repositories := ["o/r"]

def demoAppProfile (env : List EnvItem) : CredentialProfile where
  name := "c"
  inNamespace := "n"
  spec := { env := env, git := some { githubApp := some demoApp } }

/-- A variable that takes the key itself. -/
def leak : EnvItem := ⟨"API_KEY", { secretKeyRef := some ⟨"app", "key.pem"⟩ }⟩

theorem demoProjection {env : List EnvItem}
    (h : (credentialProjection demoUrl demoWorkspace demoProject
      (some (demoAppProfile env))).isOk = true) :
    ∃ projection, credentialProjection demoUrl demoWorkspace demoProject
      (some (demoAppProfile env)) = .ok projection := by
  rcases hok : credentialProjection demoUrl demoWorkspace demoProject (some (demoAppProfile env))
    with e | projection
  · rw [hok] at h
    cases h
  · exact ⟨projection, rfl⟩

theorem key_projected_demo :
    ∃ projection, credentialProjection demoUrl demoWorkspace demoProject
      (some (demoAppProfile [])) = .ok projection ∧
        ¬ projection.NamesKey demoApp.privateKeySecretRef := by
  obtain ⟨projection, hok⟩ := @demoProjection [] (by decide +kernel)
  refine ⟨projection, hok, (key_projected_iff rfl hok).mpr ?_⟩
  exact ⟨by simp [demoAppProfile, ProfileSpec.valueFroms], by simp [demoAppProfile],
    by simp [demoAppProfile], by simp [demoAppProfile], by simp [demoAppProfile]⟩

/-- An accepted profile may hand the private key to its workspaces. -/
theorem key_leaks :
    accepts (demoAppProfile [leak]).spec = true ∧
      ∃ projection, credentialProjection demoUrl demoWorkspace demoProject
        (some (demoAppProfile [leak])) = .ok projection ∧
          projection.NamesKey demoApp.privateKeySecretRef := by
  obtain ⟨projection, hok⟩ := @demoProjection [leak] (by decide +kernel)
  obtain ⟨haccepts, henv, _⟩ := credentialProjection_spec hok
  exact ⟨haccepts, projection, hok, .inl ((henv _).mpr ⟨leak, List.mem_singleton_self leak, rfl⟩)⟩

end Demo

end PaseoGateway.Credentials

/-
  PaseoGateway/ResourcesSafety.lean
  =================================
  **Every desired Pod is well formed.**

  The names and paths of a container come from three places: the entries of the profile,
  the features the profile turns on, and the container itself.  Those of the last two are
  sublists of lists without repetitions; the schema reserves them, and the entries of the
  profile lie under prefixes of their own.
-/
import PaseoGateway.CredentialSafety
import PaseoGateway.Resources

namespace PaseoGateway.Resources

open Credentials Fallible
open PaseoGateway.CodexSubscription (KeyReference)

/-! ### Texts -/

theorem toString_inj {m n : Nat} (h : toString m = toString n) : m = n := by
  have hm := congrArg (fun s : String => Nat.ofDigitChars 10 s.toList 0) h
  simpa [Nat.toString_eq_ofList_toDigits, Nat.ofDigitChars_ten_toDigits] using hm

theorem append_inj {start s t : String} (h : start ++ s = start ++ t) : s = t := by
  have h' := congrArg String.toList h
  rw [String.toList_append, String.toList_append, List.append_cancel_left_eq] at h'
  exact String.toList_injective h'

@[simp] theorem startsWith_append (start rest : String) : startsWith (start ++ rest) start := by
  simp [startsWith]

theorem startsWith_trans {value : String} (start more : String)
    (h : startsWith value (start ++ more)) : startsWith value start := by
  simp only [startsWith, String.toList_append, List.isPrefixOf_iff_prefix] at h ⊢
  exact (List.prefix_append _ _).trans h

theorem startsWith_append_iff {start s t : String} :
    startsWith (start ++ s) (start ++ t) = startsWith s t := by
  rw [startsWith, startsWith, Bool.eq_iff_iff]
  simp only [String.toList_append, List.isPrefixOf_iff_prefix, List.prefix_append_right_inj]

/-- Numbered names differ. -/
theorem nodup_numbered {α : Type} (start : String) (l : List α) :
    (l.zipIdx.map fun entry => start ++ toString entry.2).Nodup := by
  have hsnd : (l.zipIdx.map Prod.snd).Nodup := by
    rw [List.zipIdx_map_snd]
    exact List.nodup_range'
  have hinj : Function.Injective fun n : Nat => start ++ toString n :=
    fun m n h => toString_inj (append_inj h)
  have hmap := hsnd.map hinj
  rwa [List.map_map] at hmap

/-- Names under a prefix, and names of a list that has none under it. -/
theorem nodup_under (start : String) {own others fixed : List String} (hown : own.Nodup)
    (hunder : ∀ x ∈ own, startsWith x start) (hothers : others.Sublist fixed) (hfixed : fixed.Nodup)
    (hout : ∀ x ∈ fixed, ¬ startsWith x start) : (own ++ others).Nodup := by
  refine List.nodup_append.mpr ⟨hown, hfixed.sublist hothers, fun x hx y hy heq => ?_⟩
  exact hout y (hothers.subset hy) (heq ▸ hunder x hx)

/-! ### What makes a Pod well formed -/

def Pod.allContainers (pod : Pod) : List Container := pod.initContainers ++ pod.containers

/-- The mount of an entry of `files` of the profile. -/
def ofProfile (mount : VolumeMount) : Bool := startsWith mount.name "profile-file-"

/-- A mount at `above` hides `path`. -/
def hides (above path : String) : Bool := above == path || startsWith path (above ++ "/")

structure Container.WellFormed (container : Container) (volumes : List String) : Prop where
  env : (container.env.map EnvVar.name).Nodup
  mountPaths : (container.volumeMounts.map VolumeMount.mountPath).Nodup
  files : ∀ file ∈ container.volumeMounts, ofProfile file →
    ∀ mount ∈ container.volumeMounts, mount ≠ file → ¬ hides file.mountPath mount.mountPath
  declared : ∀ mount ∈ container.volumeMounts, mount.name ∈ volumes

structure Pod.WellFormed (pod : Pod) : Prop where
  containers : ∀ container ∈ pod.allContainers,
    container.WellFormed (pod.volumes.map Volume.name)
  volumes : (pod.volumes.map Volume.name).Nodup

/-! ### The shape of what a feature pushes -/

/-- The names a feature takes, and where it mounts. -/
structure Shape where
  env : List String
  volumes : List String
  daemonMounts : List VolumeMount
  checkoutMounts : List VolumeMount

def shape (p : Pushed) : Shape :=
  ⟨p.env.map EnvVar.name, p.volumes.map Volume.name, p.daemonMounts, p.checkoutMounts⟩

def fileShape (file : FileItem × Nat) : Shape :=
  let name := "profile-file-" ++ toString file.2
  ⟨[], [name], [⟨name, "/home/paseo/" ++ file.1.path, some "value", true⟩],
    [⟨name, "/data/home/" ++ file.1.path, some "value", true⟩]⟩

def both (name path : String) (env : List String) : Shape :=
  ⟨env, [name], [⟨name, path, none, true⟩], [⟨name, path, none, true⟩]⟩

/-- All features but the files, in the order in which they push. -/
def features : List Shape :=
  [⟨["PASEO_CODEX_ACCESS_FILE"], ["codex-access"],
      [⟨"codex-access", "/run/paseo-codex", none, true⟩], []⟩,
   both "git-ssh" "/run/paseo-ssh" ["GIT_SSH_COMMAND"],
   both "git-token" "/run/paseo-git" ["PASEO_GIT_TOKEN_FILE", "PASEO_GIT_HOST", "PASEO_GIT_PATH",
     "PASEO_GIT_USERNAME", "GH_HOST"],
   ⟨[], [], [], []⟩,
   both "git-signing" "/run/paseo-signing" []]

section Shapes

variable {parseUrl : String → Option Url} {project : SourceProject} {spec : ProfileSpec}
variable {pushed : List Pushed}

theorem shape_filePushed {file : FileItem × Nat} {p : Pushed} (h : filePushed file = .ok p) :
    shape p = fileShape file := by
  unfold filePushed at h
  split at h
  · simp at h
  · obtain rfl := Except.ok.inj h
    rfl

theorem shape_filesPushed {files : List (FileItem × Nat)} (h : files.mapM filePushed = .ok pushed) :
    pushed.map shape = files.map fileShape := by
  induction mapM_eq_ok.mp h with
  | nil => rfl
  | @cons file p files pushed hfile hrest ih =>
    rw [List.map_cons, List.map_cons, shape_filePushed hfile, ih (mapM_eq_ok.mpr hrest)]

theorem shape_sshPushed {ssh : Ssh} {p : Pushed} (h : sshPushed ssh = .ok p) :
    shape p = both "git-ssh" "/run/paseo-ssh" ["GIT_SSH_COMMAND"] := by
  unfold sshPushed at h
  split at h
  · simp at h
  · obtain rfl := Except.ok.inj h
    rfl

theorem shape_gitTokenPushed {git : Git} (h : gitTokenPushed parseUrl project git = .ok pushed) :
    (pushed = [] ∨ (gitToken git).isSome) ∧
      (pushed.map shape).Sublist [both "git-token" "/run/paseo-git" ["PASEO_GIT_TOKEN_FILE",
        "PASEO_GIT_HOST", "PASEO_GIT_PATH", "PASEO_GIT_USERNAME", "GH_HOST"]] := by
  unfold gitTokenPushed at h
  split at h
  · obtain rfl := Except.ok.inj h
    simp
  · rename_i token htoken
    obtain ⟨repository, _, h⟩ := bind_eq_ok.mp h
    split at h
    · simp at h
    · obtain rfl := Except.ok.inj h
      exact ⟨.inr (by simp [htoken]), List.Sublist.refl _⟩

/-- What a profile pushes: its files, then some of the features.  The host of the token is
    set only with a token. -/
theorem shape_profilePushed (h : profilePushed parseUrl project spec = .ok pushed) :
    ∃ others, pushed.map shape = spec.files.zipIdx.map fileShape ++ others ∧
      others.Sublist features ∧
      ("GH_HOST" ∈ others.flatMap Shape.env → (spec.git.bind gitToken).isSome) := by
  obtain ⟨files, ssh, token, hfiles, hssh, htoken, rfl⟩ := profilePushed_parts h
  have hs : (ssh.map shape).Sublist [both "git-ssh" "/run/paseo-ssh" ["GIT_SSH_COMMAND"]] := by
    rcases hopt : spec.git.bind Git.ssh with _ | key
    · simp only [hopt, Option.toList_none, List.mapM_nil] at hssh
      obtain rfl := Except.ok.inj hssh
      simp
    · rw [hopt, Option.toList_some, mapM_eq_ok] at hssh
      obtain ⟨p, _, hp, hnil, rfl⟩ := List.forall₂_cons_left_iff.mp hssh
      obtain rfl := List.forall₂_nil_left_iff.mp hnil
      simp [shape_sshPushed hp]
  have ht : (token = [] ∨ (spec.git.bind gitToken).isSome) ∧
      (token.map shape).Sublist [both "git-token" "/run/paseo-git" ["PASEO_GIT_TOKEN_FILE",
        "PASEO_GIT_HOST", "PASEO_GIT_PATH", "PASEO_GIT_USERNAME", "GH_HOST"]] := by
    rcases hgit : spec.git with _ | git
    · simp only [hgit, Option.elim_none] at htoken
      obtain rfl := Except.ok.inj htoken
      simp
    · simp only [hgit, Option.elim_some] at htoken
      simpa using shape_gitTokenPushed htoken
  have hc : ((spec.codexSubscription.toList.map codexPushed).map shape).Sublist
      [⟨["PASEO_CODEX_ACCESS_FILE"], ["codex-access"],
        [⟨"codex-access", "/run/paseo-codex", none, true⟩], []⟩] := by
    rcases spec.codexSubscription with _ | codex
    · simp
    · exact List.Sublist.refl _
  have hi : (((spec.git.bind Git.identity).toList.map identityPushed).map shape).Sublist
      [⟨[], [], [], []⟩] := by
    rcases spec.git.bind Git.identity with _ | identity
    · simp
    · exact List.Sublist.refl _
  have hg : (((spec.git.bind Git.signing).toList.map signingPushed).map shape).Sublist
      [both "git-signing" "/run/paseo-signing" []] := by
    rcases spec.git.bind Git.signing with _ | signing
    · simp
    · exact List.Sublist.refl _
  refine ⟨((spec.codexSubscription.toList.map codexPushed ++ ssh ++ token ++
    (spec.git.bind Git.identity).toList.map identityPushed ++
    (spec.git.bind Git.signing).toList.map signingPushed).map shape), ?_, ?_, ?_⟩
  · simp only [List.map_append, List.append_assoc, shape_filesPushed hfiles]
  · simp only [List.map_append]
    exact ((((hc.append hs).append ht.2).append hi).append hg)
  · intro hmem
    rcases ht.1 with rfl | hsome
    · -- without a token the name is in no feature that is left
      have hsub := ((hc.append hs).append hi).append hg
      exfalso
      have hnot : "GH_HOST" ∉ (([⟨["PASEO_CODEX_ACCESS_FILE"], ["codex-access"],
          [⟨"codex-access", "/run/paseo-codex", none, true⟩], []⟩] ++
          [both "git-ssh" "/run/paseo-ssh" ["GIT_SSH_COMMAND"]] ++ [⟨[], [], [], []⟩] ++
          [both "git-signing" "/run/paseo-signing" []]) : List Shape).flatMap Shape.env := by decide
      apply hnot
      obtain ⟨s, hs', hin⟩ := List.mem_flatMap.mp hmem
      exact List.mem_flatMap.mpr ⟨s, hsub.subset (by simpa using hs'), hin⟩
    · exact hsome

end Shapes

/-! ### The variables of the Git configuration -/

theorem key_ne_value (m n : Nat) :
    "GIT_CONFIG_KEY_" ++ toString m ≠ "GIT_CONFIG_VALUE_" ++ toString n := by
  intro h
  have hchar := congrArg (fun s : String => s.toList[11]?) h
  simp [String.toList_append] at hchar

theorem gitConfigEnv_names (gitConfig : List (String × String)) :
    ((gitConfigEnv gitConfig).map EnvVar.name).Nodup ∧
      ∀ n ∈ (gitConfigEnv gitConfig).map EnvVar.name, startsWith n "GIT_CONFIG_" := by
  unfold gitConfigEnv
  split
  · simp
  · rw [List.map_cons, List.map_flatMap]
    have hunder : ∀ start n, startsWith ("GIT_CONFIG_" ++ start ++ n) "GIT_CONFIG_" := fun start n => by
      rw [String.append_assoc]
      exact startsWith_append _ _
    constructor
    · refine List.nodup_cons.mpr ⟨?_, List.nodup_flatMap.mpr ⟨?_, ?_⟩⟩
      · intro hmem
        obtain ⟨entry, _, hentry⟩ := List.mem_flatMap.mp hmem
        simp only [List.map_cons, List.map_nil, List.mem_cons, List.not_mem_nil, or_false] at hentry
        rcases hentry with h | h
        · have hchar := congrArg (fun s : String => s.toList[11]?) h
          simp [String.toList_append] at hchar
        · have hchar := congrArg (fun s : String => s.toList[11]?) h
          simp [String.toList_append] at hchar
      · intro entry _
        simp
      · have hsnd : (gitConfig.zipIdx.map Prod.snd).Nodup := by
          rw [List.zipIdx_map_snd]
          exact List.nodup_range'
        refine (List.pairwise_map.mp hsnd).imp fun {a b} hne => ?_
        simp only [Function.onFun, List.map_cons, List.map_nil, List.disjoint_left, List.mem_cons,
          List.not_mem_nil, or_false]
        rintro n (rfl | rfl) (h | h)
        · exact hne (toString_inj (append_inj h))
        · exact key_ne_value _ _ h
        · exact key_ne_value _ _ h.symm
        · exact hne (toString_inj (append_inj h))
    · intro n hn
      rcases List.mem_cons.mp hn with rfl | hn
      · exact hunder "COUNT" ""
      · obtain ⟨entry, _, hentry⟩ := List.mem_flatMap.mp hn
        simp only [List.map_cons, List.map_nil, List.mem_cons, List.not_mem_nil, or_false] at hentry
        rcases hentry with rfl | rfl
        · exact hunder "KEY_" _
        · exact hunder "VALUE_" _

/-! ### The projection of an accepted profile -/

section Accepted

variable {spec : ProfileSpec}

theorem env_accepted (h : accepts spec) :
    (spec.env.map EnvItem.name).Nodup ∧ ∀ item ∈ spec.env, allowedEnvironmentName item.name := by
  have hnil := superRefine_nil h
  simp only [superRefine, List.append_eq_nil_iff, issueIf_eq_nil, Bool.not_eq_false',
    decide_eq_true_eq] at hnil
  refine ⟨hnil.1.1.2, fun item hitem => ?_⟩
  have hvalid := valid_of_accepts h
  simp only [ProfileSpec.valid, Bool.and_eq_true, List.all_eq_true] at hvalid
  have hitem' := hvalid.1.1.1.1.1.1 item hitem
  simp only [EnvItem.valid, Bool.and_eq_true] at hitem'
  exact hitem'.1.2

theorem host_accepted (h : accepts spec) (htoken : (spec.git.bind gitToken).isSome) :
    "GH_HOST" ∉ spec.env.map EnvItem.name := by
  have hnil := superRefine_nil h
  simp only [superRefine, List.append_eq_nil_iff, issueIf_eq_nil, Bool.and_eq_false_iff,
    Bool.or_eq_false_iff, Option.isSome_eq_false_iff, Option.isNone_iff_eq_none] at hnil
  rcases hnil.2 with ⟨hstatic, happ⟩ | hnames
  · rcases hgit : spec.git with _ | git
    · simp [hgit] at htoken
    · simp only [hgit, Option.bind_some] at hstatic happ htoken
      simp [gitToken, hstatic, happ] at htoken
  · intro hmem
    obtain ⟨item, hitem, hname⟩ := List.mem_map.mp hmem
    have hany := List.any_eq_false.mp hnames item hitem
    simp [hname] at hany

theorem files_apart (h : accepts spec) {a b : FileItem × Nat} (ha : a ∈ spec.files.zipIdx)
    (hb : b ∈ spec.files.zipIdx) (hne : a.2 ≠ b.2) : ¬ hides a.1.path b.1.path := by
  have hnil := superRefine_nil h
  simp only [superRefine, List.append_eq_nil_iff, List.flatMap_eq_nil_iff, issueIf_eq_nil] at hnil
  have hoverlap := List.any_eq_false.mp (hnil.1.2 b hb) a ha
  simpa [hides, hne] using hoverlap

end Accepted

/-- What a projection consists of: the variables of the profile, its files, some of the
    features and the Git configuration. -/
structure Laid (projection : Projection) (files : List FileItem) (own : List String)
    (others : List Shape) (config : List (String × String)) : Prop where
  env : projection.env.map EnvVar.name = own ++ others.flatMap Shape.env ++
    "GIT_TERMINAL_PROMPT" :: (gitConfigEnv config).map EnvVar.name
  volumes : projection.volumes.map Volume.name =
    (files.zipIdx.map fileShape ++ others).flatMap Shape.volumes
  daemonMounts : projection.daemonMounts =
    (files.zipIdx.map fileShape ++ others).flatMap Shape.daemonMounts
  checkoutMounts : projection.checkoutMounts =
    (files.zipIdx.map fileShape ++ others).flatMap Shape.checkoutMounts
  features : others.Sublist features
  nodup : own.Nodup
  allowed : ∀ n ∈ own, allowedEnvironmentName n
  host : "GH_HOST" ∈ others.flatMap Shape.env → "GH_HOST" ∉ own
  apart : ∀ a ∈ files.zipIdx, ∀ b ∈ files.zipIdx, a.2 ≠ b.2 → ¬ hides a.1.path b.1.path

theorem laid_assembled {env : List EnvVar} {pushed : List Pushed} {files : List FileItem}
    {others : List Shape} (hshape : pushed.map shape = files.zipIdx.map fileShape ++ others)
    (hfeatures : others.Sublist features) (hnodup : (env.map EnvVar.name).Nodup)
    (hallowed : ∀ n ∈ env.map EnvVar.name, allowedEnvironmentName n)
    (hhost : "GH_HOST" ∈ others.flatMap Shape.env → "GH_HOST" ∉ env.map EnvVar.name)
    (hapart : ∀ a ∈ files.zipIdx, ∀ b ∈ files.zipIdx, a.2 ≠ b.2 → ¬ hides a.1.path b.1.path) :
    Laid (assembled env pushed) files (env.map EnvVar.name) others
      (pushed.flatMap Pushed.gitConfig) := by
  have hfiles : (files.zipIdx.map fileShape).flatMap Shape.env = [] := by
    simp [List.flatMap_map, fileShape]
  have henv : (pushed.flatMap Pushed.env).map EnvVar.name = others.flatMap Shape.env := by
    have hflat := congrArg (List.flatMap Shape.env) hshape
    rw [List.flatMap_append, hfiles, List.nil_append, List.flatMap_map] at hflat
    rw [← hflat, List.map_flatMap]
    rfl
  refine ⟨?_, ?_, ?_, ?_, hfeatures, hnodup, hallowed, hhost, hapart⟩
  · simp only [assembled, List.map_append, List.map_cons, henv]
  · rw [← hshape, List.flatMap_map, assembled, List.map_flatMap]
    rfl
  · rw [← hshape, List.flatMap_map]
    rfl
  · rw [← hshape, List.flatMap_map]
    rfl

theorem laid {parseUrl : String → Option Url} {workspace : PlacedWorkspace}
    {project : SourceProject} {profile : Option CredentialProfile} {projection : Projection}
    (h : credentialProjection parseUrl workspace project profile = .ok projection) :
    ∃ own others config, Laid projection (files profile) own others config := by
  rcases profile with _ | profile
  · obtain ⟨pushed, hpushed, h⟩ := bind_eq_ok.mp h
    obtain rfl := Except.ok.inj h
    obtain ⟨others, hshape, hfeatures, _⟩ := shape_profilePushed hpushed
    exact ⟨_, others, _, laid_assembled hshape hfeatures (by simp) (by simp [legacyEnv]; decide)
      (by simp [legacyEnv]) (by simp [files])⟩
  · have haccepts := (credentialProjection_spec h).1
    simp only [credentialProjection] at h
    split at h
    · simp at h
    · split at h
      · simp at h
      · obtain ⟨pushed, hpushed, h⟩ := bind_eq_ok.mp h
        obtain rfl := Except.ok.inj h
        obtain ⟨others, hshape, hfeatures, hhost⟩ := shape_profilePushed hpushed
        have hnames : (profile.spec.env.map EnvItem.envVar).map EnvVar.name =
            profile.spec.env.map EnvItem.name := by simp [EnvItem.envVar]
        refine ⟨_, others, _, laid_assembled hshape hfeatures ?_ ?_ ?_ ?_⟩
        · rw [hnames]
          exact (env_accepted haccepts).1
        · rw [hnames]
          intro n hn
          obtain ⟨item, hitem, rfl⟩ := List.mem_map.mp hn
          exact (env_accepted haccepts).2 item hitem
        · rw [hnames]
          exact fun hmem => host_accepted haccepts (hhost hmem)
        · exact fun a ha b hb hne => files_apart haccepts ha hb hne

/-! ### Containers -/

section Containers

variable {projection : Projection} {files : List FileItem} {own : List String}
variable {others : List Shape} {config : List (String × String)}

theorem not_allowed_of_gitConfig {n : String} (h : startsWith n "GIT_CONFIG_") :
    allowedEnvironmentName n = false := by
  have hgit : startsWith n "GIT_" := startsWith_trans "GIT_" "CONFIG_" h
  simp [allowedEnvironmentName, protectedEnv, hgit]

/-- The variables a container adds to those of the projection are reserved names. -/
theorem env_nodup (h : Laid projection files own others config) {extra fixed : List String}
    (hextra : extra.Sublist fixed)
    (hfixed : (Resources.features.flatMap Shape.env ++ "GIT_TERMINAL_PROMPT" :: fixed).Nodup)
    (hreserved : ∀ n ∈ fixed, ¬ startsWith n "GIT_CONFIG_" ∧ allowedEnvironmentName n = false) :
    (projection.env.map EnvVar.name ++ extra).Nodup := by
  obtain ⟨hconfig, hunder⟩ := gitConfigEnv_names config
  have hsub : (others.flatMap Shape.env ++ "GIT_TERMINAL_PROMPT" :: extra).Sublist
      (Resources.features.flatMap Shape.env ++ "GIT_TERMINAL_PROMPT" :: fixed) :=
    (h.features.flatMap _).append (hextra.cons_cons _)
  have hfeatures : ∀ n ∈ Resources.features.flatMap Shape.env ++ ["GIT_TERMINAL_PROMPT"],
      ¬ startsWith n "GIT_CONFIG_" ∧ (n = "GH_HOST" ∨ allowedEnvironmentName n = false) := by
    decide
  have hgateway : ((gitConfigEnv config).map EnvVar.name ++
      (others.flatMap Shape.env ++ "GIT_TERMINAL_PROMPT" :: extra)).Nodup := by
    refine nodup_under "GIT_CONFIG_" hconfig hunder hsub hfixed fun n hn => ?_
    simp only [List.mem_append, List.mem_cons] at hn
    rcases hn with hn | rfl | hn
    · exact (hfeatures n (List.mem_append_left _ hn)).1
    · exact (hfeatures _ (List.mem_append_right _ (List.mem_singleton_self _))).1
    · exact (hreserved n hn).1
  have hdisjoint : ∀ n ∈ own, n ∉ (gitConfigEnv config).map EnvVar.name ++
      (others.flatMap Shape.env ++ "GIT_TERMINAL_PROMPT" :: extra) := by
    intro n hn hmem
    have hallowed := h.allowed n hn
    simp only [List.mem_append, List.mem_cons] at hmem
    rcases hmem with hmem | hmem | rfl | hmem
    · simp [not_allowed_of_gitConfig (hunder n hmem)] at hallowed
    · rcases (hfeatures n (List.mem_append_left _ ((h.features.flatMap _).subset hmem))).2 with
        rfl | hnot
      · exact h.host hmem hn
      · simp [hnot] at hallowed
    · exact absurd hallowed (by decide)
    · simp [(hreserved n (hextra.subset hmem)).2] at hallowed
  have hperm : (projection.env.map EnvVar.name ++ extra).Perm
      (own ++ ((gitConfigEnv config).map EnvVar.name ++
        (others.flatMap Shape.env ++ "GIT_TERMINAL_PROMPT" :: extra))) := by
    rw [h.env]
    simp only [List.append_assoc, List.cons_append]
    exact .append_left own (((List.perm_append_comm_assoc ["GIT_TERMINAL_PROMPT"] _ _).append_left
      _).trans (List.perm_append_comm_assoc _ _ _))
  exact hperm.nodup_iff.mpr (List.nodup_append.mpr
    ⟨h.nodup, hgateway, fun n hn m hm heq => hdisjoint n hn (heq ▸ hm)⟩)

/-- The mounts of the files of a profile under a home directory. -/
def fileMounts (root : String) (files : List FileItem) : List VolumeMount :=
  files.zipIdx.map fun file =>
    ⟨"profile-file-" ++ toString file.2, root ++ file.1.path, some "value", true⟩

theorem daemonMounts_laid (h : Laid projection files own others config) :
    projection.daemonMounts =
      fileMounts "/home/paseo/" files ++ others.flatMap Shape.daemonMounts := by
  rw [h.daemonMounts, List.flatMap_append, List.flatMap_map, fileMounts, List.map_eq_flatMap]
  rfl

theorem checkoutMounts_laid (h : Laid projection files own others config) :
    projection.checkoutMounts =
      fileMounts "/data/home/" files ++ others.flatMap Shape.checkoutMounts := by
  rw [h.checkoutMounts, List.flatMap_append, List.flatMap_map, fileMounts, List.map_eq_flatMap]
  rfl

theorem volumes_laid (h : Laid projection files own others config) :
    projection.volumes.map Volume.name =
      (files.zipIdx.map fun file => "profile-file-" ++ toString file.2) ++
        others.flatMap Shape.volumes := by
  rw [h.volumes, List.flatMap_append, List.flatMap_map, List.map_eq_flatMap]
  rfl

theorem append_cancel {root a b : String} : root ++ a = root ++ b ↔ a = b :=
  ⟨append_inj, congrArg _⟩

theorem hides_append {root a b : String} : hides (root ++ a) (root ++ b) = hides a b := by
  rw [hides, hides, String.append_assoc, startsWith_append_iff, Bool.eq_iff_iff]
  simp only [Bool.or_eq_true, beq_iff_eq, append_cancel]

/-- Mounts that are no files of the profile and do not lie in its home directory. -/
structure Beside (root : String) (mounts : List VolumeMount) : Prop where
  nodup : (mounts.map VolumeMount.mountPath).Nodup
  out : ∀ path ∈ mounts.map VolumeMount.mountPath, ¬ startsWith path root
  names : ∀ n ∈ mounts.map VolumeMount.name, ¬ startsWith n "profile-file-"

theorem Beside.sublist {root : String} {mounts fixed : List VolumeMount} (h : Beside root fixed)
    (hsub : mounts.Sublist fixed) : Beside root mounts where
  nodup := h.nodup.sublist (hsub.map _)
  out := fun path hpath => h.out path ((hsub.map _).subset hpath)
  names := fun n hn => h.names n ((hsub.map _).subset hn)

theorem not_hides_beside {root path : String} {mounts : List VolumeMount} {mount : VolumeMount}
    (hbeside : Beside root mounts) (hmount : mount ∈ mounts) :
    ¬ hides (root ++ path) mount.mountPath := by
  intro hhides
  refine hbeside.out mount.mountPath (List.mem_map_of_mem hmount) ?_
  rcases Bool.or_eq_true_iff.mp hhides with heq | hstart
  · exact beq_iff_eq.mp heq ▸ startsWith_append root path
  · rw [String.append_assoc] at hstart
    exact startsWith_trans root (path ++ "/") hstart

theorem not_hides_file (h : Laid projection files own others config) {root : String}
    {a b : FileItem × Nat} (ha : a ∈ files.zipIdx) (hb : b ∈ files.zipIdx) (hne : a.2 ≠ b.2) :
    ¬ hides (root ++ a.1.path) (root ++ b.1.path) := by
  rw [hides_append]
  exact h.apart a ha b hb hne

theorem mountPaths_nodup (h : Laid projection files own others config) {root : String}
    {mounts : List VolumeMount} (hbeside : Beside root mounts) :
    ((fileMounts root files ++ mounts).map VolumeMount.mountPath).Nodup := by
  have hsnd : (files.zipIdx.map Prod.snd).Nodup := by
    rw [List.zipIdx_map_snd]
    exact List.nodup_range'
  have hfiles : ((fileMounts root files).map VolumeMount.mountPath).Nodup := by
    rw [fileMounts, List.map_map]
    refine List.pairwise_map.mpr ((List.pairwise_map.mp hsnd).imp_of_mem ?_)
    intro a b ha hb hne heq
    have hsame : root ++ a.1.path = root ++ b.1.path := heq
    refine @not_hides_file _ _ _ _ _ h root a b ha hb hne ?_
    simp [hides, hsame]
  rw [List.map_append]
  refine List.nodup_append.mpr ⟨hfiles, hbeside.nodup, fun path hfile path' hmount heq => ?_⟩
  rw [fileMounts, List.map_map] at hfile
  obtain ⟨file, _, rfl⟩ := List.mem_map.mp hfile
  exact hbeside.out path' hmount (heq ▸ startsWith_append root file.1.path)

theorem files_hide_nothing (h : Laid projection files own others config) {root : String}
    {mounts : List VolumeMount} (hbeside : Beside root mounts) :
    ∀ file ∈ fileMounts root files ++ mounts, ofProfile file →
      ∀ mount ∈ fileMounts root files ++ mounts, mount ≠ file →
        ¬ hides file.mountPath mount.mountPath := by
  intro file hfile hprofile mount hmount hne
  rcases List.mem_append.mp hfile with hfile | hfile
  · obtain ⟨a, ha, rfl⟩ := List.mem_map.mp hfile
    rcases List.mem_append.mp hmount with hmount | hmount
    · obtain ⟨b, hb, rfl⟩ := List.mem_map.mp hmount
      refine not_hides_file h ha hb fun heq => hne ?_
      have hentry : a = b := by
        have hfirst := List.mem_zipIdx_iff_getElem?.mp ha
        rw [heq, List.mem_zipIdx_iff_getElem?.mp hb] at hfirst
        exact Prod.ext (Option.some.inj hfirst).symm heq
      rw [hentry]
    · exact not_hides_beside hbeside hmount
  · exact absurd hprofile (hbeside.names file.name (List.mem_map_of_mem hfile))

/-- What a feature mounts, it declares. -/
theorem declared_laid (h : Laid projection files own others config) (root : String)
    {mounts : Shape → List VolumeMount}
    (hfeature : ∀ s ∈ Resources.features, ∀ mount ∈ mounts s, mount.name ∈ s.volumes) :
    ∀ mount ∈ fileMounts root files ++ others.flatMap mounts,
      mount.name ∈ projection.volumes.map Volume.name := by
  intro mount hmount
  rw [volumes_laid h]
  rcases List.mem_append.mp hmount with hfile | hother
  · obtain ⟨file, hin, rfl⟩ := List.mem_map.mp hfile
    exact List.mem_append_left _ (List.mem_map.mpr ⟨file, hin, rfl⟩)
  · obtain ⟨s, hs, hmount⟩ := List.mem_flatMap.mp hother
    exact List.mem_append_right _ (List.mem_flatMap.mpr
      ⟨s, hs, hfeature s (h.features.subset hs) mount hmount⟩)

end Containers

/-! ### The Pod -/

def daemonNames : List String :=
  ["HOME", "PASEO_HOME", "PASEO_LISTEN", "PASEO_HOSTNAMES", "PASEO_PASSWORD",
    "NODE_EXTRA_CA_CERTS", "PATH", "PASEO_GATEWAY_URL", "PASEO_GATEWAY_TOKEN_FILE",
    "PASEO_CLUSTER_WORKSPACE_ID", "PASEO_CLUSTER_PROJECT_ID"]

def checkoutNames : List String :=
  ["HOME", "FETCH_DEPTH", "PULL_REQUEST", "REPOSITORY", "REVISION", "BRANCH"]

/-- The mounts of the daemon but those of the files. -/
def daemonFixed (workspace : PlacedWorkspace) : List VolumeMount :=
  features.flatMap Shape.daemonMounts ++
    [⟨"data", "/home/paseo", some "home", false⟩,
     ⟨"data", workspacePath workspace.metadata.name, some "workspace", false⟩,
     ⟨"tmp", "/tmp", none, false⟩, ⟨"transport-ca", "/run/paseo-tls", none, true⟩,
     ⟨"gateway-access", "/run/paseo-gateway", none, true⟩]

/-- The mounts of the checkout but those of the files. -/
def checkoutFixed (subPath : Option String) : List VolumeMount :=
  features.flatMap Shape.checkoutMounts ++
    [⟨"reference-cache", "/reference/git", subPath, true⟩, ⟨"data", "/data", none, false⟩,
     ⟨"tmp", "/tmp", none, false⟩, ⟨"checkout-budget", "/run/paseo-checkout", none, false⟩]

theorem beside_daemon (workspace : PlacedWorkspace) :
    Beside "/home/paseo/" (daemonFixed workspace) := by
  have hpaths : (daemonFixed workspace).map VolumeMount.mountPath =
      ["/run/paseo-codex", "/run/paseo-ssh", "/run/paseo-git", "/run/paseo-signing",
        "/home/paseo"] ++ workspacePath workspace.metadata.name ::
      ["/tmp", "/run/paseo-tls", "/run/paseo-gateway"] := rfl
  have hworkspace : startsWith (workspacePath workspace.metadata.name) "/workspaces/" :=
    startsWith_append "/workspaces/" workspace.metadata.name
  refine ⟨?_, ?_, ?_⟩
  · rw [hpaths, List.perm_middle.nodup_iff]
    refine List.nodup_cons.mpr ⟨fun hmem => ?_, by decide⟩
    have hnone : ∀ path ∈ ["/run/paseo-codex", "/run/paseo-ssh", "/run/paseo-git",
        "/run/paseo-signing", "/home/paseo"] ++ ["/tmp", "/run/paseo-tls", "/run/paseo-gateway"],
        ¬ startsWith path "/workspaces/" := by decide
    exact hnone _ hmem hworkspace
  · have hhome : ¬ startsWith (workspacePath workspace.metadata.name) "/home/paseo/" := by
      simp [workspacePath, startsWith, String.toList_append]
    rw [hpaths]
    simp only [List.forall_mem_append, List.forall_mem_cons, hhome]
    decide
  · have hnames : (daemonFixed workspace).map VolumeMount.name = ["codex-access", "git-ssh",
        "git-token", "git-signing", "data", "data", "tmp", "transport-ca", "gateway-access"] := rfl
    rw [hnames]
    decide

theorem beside_checkout (subPath : Option String) :
    Beside "/data/home/" (checkoutFixed subPath) := by
  have hpaths : (checkoutFixed subPath).map VolumeMount.mountPath = ["/run/paseo-ssh",
      "/run/paseo-git", "/run/paseo-signing", "/reference/git", "/data", "/tmp",
      "/run/paseo-checkout"] := rfl
  have hnames : (checkoutFixed subPath).map VolumeMount.name = ["git-ssh", "git-token",
      "git-signing", "reference-cache", "data", "tmp", "checkout-budget"] := rfl
  refine ⟨?_, ?_, ?_⟩
  · rw [hpaths]
    decide
  · rw [hpaths]
    decide
  · rw [hnames]
    decide

section Desired

variable {rt : Cluster.Runtime} {parseUrl : String → Option Url} {workspace : PlacedWorkspace}
variable {project : SourceProject} {config : RuntimeConfig} {profile : Option CredentialProfile}
variable {credentials : Projection} {uid : String}

/-- The Pod of `desiredResources`. -/
def desiredPod (rt : Cluster.Runtime) (workspace : PlacedWorkspace) (project : SourceProject)
    (config : RuntimeConfig) (profile : Option CredentialProfile) (credentials : Projection)
    (uid : String) : Pod :=
  withGateway rt workspace config (withTls project config profile
    (basePod rt workspace project config profile credentials uid))

/-- The names the daemon adds to those of the projection. -/
def addedNames (tls gateway : Bool) : List String :=
  ["HOME", "PASEO_HOME", "PASEO_LISTEN", "PASEO_HOSTNAMES", "PASEO_PASSWORD"] ++
    (if tls then ["NODE_EXTRA_CA_CERTS"] else []) ++
    if gateway then ["PATH", "PASEO_GATEWAY_URL", "PASEO_GATEWAY_TOKEN_FILE",
      "PASEO_CLUSTER_WORKSPACE_ID", "PASEO_CLUSTER_PROJECT_ID"] else []

def addedMounts (workspace : PlacedWorkspace) (tls gateway : Bool) : List VolumeMount :=
  [⟨"data", "/home/paseo", some "home", false⟩,
   ⟨"data", workspacePath workspace.metadata.name, some "workspace", false⟩,
   ⟨"tmp", "/tmp", none, false⟩] ++
    (if tls then [⟨"transport-ca", "/run/paseo-tls", none, true⟩] else []) ++
    if gateway then [⟨"gateway-access", "/run/paseo-gateway", none, true⟩] else []

def addedVolumes (tls gateway : Bool) : List String :=
  (if tls then ["transport", "transport-ca"] else []) ++
    if gateway then ["gateway-access"] else []

/-- What the Pod becomes with TLS and a gateway, or without them. -/
structure Finished (rt : Cluster.Runtime) (workspace : PlacedWorkspace) (project : SourceProject)
    (config : RuntimeConfig) (profile : Option CredentialProfile) (credentials : Projection)
    (pod : Pod) (daemon : Container) (tls gateway : Bool) : Prop where
  initContainers : pod.initContainers =
    (if (files profile).isEmpty then [] else [prepareHome project config profile]) ++
      [checkout workspace project config profile credentials]
  containers : pod.containers =
    daemon :: if tls then [transport project config profile] else []
  env : daemon.env.map EnvVar.name = credentials.env.map EnvVar.name ++ addedNames tls gateway
  mounts : daemon.volumeMounts = credentials.daemonMounts ++ addedMounts workspace tls gateway
  volumes : pod.volumes.map Volume.name =
    (volumes rt workspace project config credentials).map Volume.name ++ addedVolumes tls gateway

theorem finished : ∃ daemon tls gateway, Finished rt workspace project config profile credentials
    (desiredPod rt workspace project config profile credentials uid) daemon tls gateway := by
  rcases htls : truthy config.tlsSecret with _ | tls
  · rcases hgateway : truthy config.gatewayUrl with _ | url
    · simp only [desiredPod, withGateway, withTls, htls, hgateway]
      exact ⟨_, false, false, rfl, rfl, by simp [daemon, addedNames], rfl, by simp [basePod, addedVolumes]⟩
    · simp only [desiredPod, withGateway, withTls, htls, hgateway]
      exact ⟨_, false, true, rfl, rfl, by simp [daemon, addedNames, Container.push, gatewayEnv],
        by simp [daemon, addedMounts, Container.push], by simp [basePod, addedVolumes]⟩
  · rcases hgateway : truthy config.gatewayUrl with _ | url
    · simp only [desiredPod, withGateway, withTls, htls, hgateway]
      exact ⟨_, true, false, rfl, rfl, by simp [daemon, addedNames, Container.push, tlsDaemon],
        by simp [daemon, addedMounts, Container.push, tlsDaemon], by simp [basePod, addedVolumes]⟩
    · simp only [desiredPod, withGateway, withTls, htls, hgateway]
      exact ⟨_, true, true, rfl, rfl,
        by simp [daemon, addedNames, Container.push, tlsDaemon, gatewayEnv],
        by simp [daemon, addedMounts, Container.push, tlsDaemon], by simp [basePod, addedVolumes]⟩

theorem addedNames_sublist : ∀ tls gateway, (addedNames tls gateway).Sublist daemonNames := by
  decide

theorem addedMounts_sublist (tls gateway : Bool) :
    (features.flatMap Shape.daemonMounts ++ addedMounts workspace tls gateway).Sublist
      (daemonFixed workspace) := by
  refine (List.Sublist.refl _).append ?_
  cases tls <;> cases gateway <;> simp [addedMounts]

theorem addedMounts_names (tls gateway : Bool) : ∀ mount ∈ addedMounts workspace tls gateway,
    mount.name ∈ ["data", "tmp"] ++ addedVolumes tls gateway := by
  cases tls <;> cases gateway <;> simp [addedMounts, addedVolumes]

/-- The names of the volumes, with or without the reference cache. -/
theorem names_volumes : (volumes rt workspace project config credentials).map Volume.name =
    credentials.volumes.map Volume.name ++ ((cacheMounts project config).map VolumeMount.name ++
      ["data", "tmp", "checkout-budget"]) := by
  rcases hcache : referenceCache project config with _ | cache
  · simp [volumes, cacheMounts, hcache, dataVolume]
  · simp [volumes, cacheMounts, hcache, dataVolume]

theorem cacheMounts_sublist : ∃ subPath, (cacheMounts project config).Sublist
    [⟨"reference-cache", "/reference/git", subPath, true⟩] := by
  rcases hcache : referenceCache project config with _ | cache
  · exact ⟨none, by simp [cacheMounts, hcache]⟩
  · exact ⟨cache.subPath, by simp [cacheMounts, hcache]⟩

theorem allVolumes_sublist (tls gateway : Bool) :
    ((cacheMounts project config).map VolumeMount.name ++
      ["data", "tmp", "checkout-budget"] ++ addedVolumes tls gateway).Sublist
      ["reference-cache", "data", "tmp", "checkout-budget", "transport", "transport-ca",
        "gateway-access"] := by
  obtain ⟨subPath, hcache⟩ := @cacheMounts_sublist project config
  have hadded : ∀ tls gateway, (addedVolumes tls gateway).Sublist
      ["transport", "transport-ca", "gateway-access"] := by decide
  exact ((hcache.map VolumeMount.name).append (List.Sublist.refl _)).append (hadded tls gateway)

variable {own : List String} {others : List Shape} {gitConfig : List (String × String)}

/-- A container made of the files, the features and mounts of its own. -/
theorem wellFormed_of_laid (h : Laid credentials (files profile) own others gitConfig)
    {container : Container} (root : String) (mounts : Shape → List VolumeMount)
    (fixed : List VolumeMount) {added : List VolumeMount} {names volumes : List String}
    (henv : container.env.map EnvVar.name = credentials.env.map EnvVar.name ++ names)
    (hnodup : (credentials.env.map EnvVar.name ++ names).Nodup)
    (hmounts : container.volumeMounts =
      fileMounts root (files profile) ++ others.flatMap mounts ++ added)
    (hbeside : Beside root fixed) (hadded : (features.flatMap mounts ++ added).Sublist fixed)
    (hfeature : ∀ s ∈ features, ∀ mount ∈ mounts s, mount.name ∈ s.volumes)
    (hvolumes : credentials.volumes.map Volume.name ⊆ volumes)
    (hdeclared : ∀ mount ∈ added, mount.name ∈ volumes) : container.WellFormed volumes := by
  have hbeside' := hbeside.sublist (((h.features.flatMap mounts).append_right added).trans hadded)
  rw [List.append_assoc] at hmounts
  refine ⟨?_, ?_, ?_, ?_⟩
  · rw [henv]
    exact hnodup
  · rw [hmounts]
    exact mountPaths_nodup h hbeside'
  · rw [hmounts]
    exact files_hide_nothing h hbeside'
  · rw [hmounts, ← List.append_assoc]
    intro mount hmount
    rcases List.mem_append.mp hmount with hmount | hmount
    · exact hvolumes (declared_laid h root hfeature mount hmount)
    · exact hdeclared mount hmount

theorem wellFormed_prepareHome {volumes : List String} (hdata : "data" ∈ volumes)
    (htmp : "tmp" ∈ volumes) : (prepareHome project config profile).WellFormed volumes := by
  refine ⟨List.nodup_nil, by simp [prepareHome], ?_, by simp [prepareHome, hdata, htmp]⟩
  intro file hfile hprofile
  simp only [prepareHome, List.mem_cons, List.not_mem_nil, or_false] at hfile
  rcases hfile with rfl | rfl
  · exact absurd hprofile (by decide)
  · exact absurd hprofile (by decide)

theorem wellFormed_transport {volumes : List String} (htransport : "transport" ∈ volumes) :
    (transport project config profile).WellFormed volumes := by
  refine ⟨List.nodup_nil, by simp [transport], ?_, by simp [transport, htransport]⟩
  intro file hfile hprofile
  simp only [transport, List.mem_singleton] at hfile
  subst hfile
  exact absurd hprofile (by decide)

theorem wellFormed_checkout (h : Laid credentials (files profile) own others gitConfig)
    {volumes : List String} (hvolumes : credentials.volumes.map Volume.name ++
      ((cacheMounts project config).map VolumeMount.name ++ ["data", "tmp", "checkout-budget"]) ⊆
        volumes) :
    (checkout workspace project config profile credentials).WellFormed volumes := by
  have henv := env_nodup h (List.Sublist.refl checkoutNames) (by decide) (by decide)
  obtain ⟨subPath, hcache⟩ := @cacheMounts_sublist project config
  refine wellFormed_of_laid h "/data/home/" Shape.checkoutMounts (checkoutFixed subPath)
    (by simp [checkout]; rfl) henv (by rw [checkout, checkoutMounts_laid h, List.append_assoc])
    (beside_checkout subPath) ((List.Sublist.refl _).append (hcache.append_right _)) (by decide)
    (List.append_subset.mp hvolumes).1 fun mount hmount => ?_
  have hname := List.mem_map_of_mem (f := VolumeMount.name) hmount
  rw [List.map_append] at hname
  exact (List.append_subset.mp hvolumes).2 hname

theorem wellFormed_daemon (h : Laid credentials (files profile) own others gitConfig) {pod : Pod}
    {daemon : Container} {tls gateway : Bool}
    (hf : Finished rt workspace project config profile credentials pod daemon tls gateway)
    {volumes : List String} (hvolumes : credentials.volumes.map Volume.name ++
      (["data", "tmp"] ++ addedVolumes tls gateway) ⊆ volumes) :
    daemon.WellFormed volumes := by
  have henv := env_nodup h (addedNames_sublist tls gateway) (by decide) (by decide)
  refine wellFormed_of_laid h "/home/paseo/" Shape.daemonMounts (daemonFixed workspace) hf.env henv
    (by rw [hf.mounts, daemonMounts_laid h]) (beside_daemon workspace)
    (addedMounts_sublist tls gateway) (by decide) (List.append_subset.mp hvolumes).1
    fun mount hmount => ?_
  exact (List.append_subset.mp hvolumes).2 (addedMounts_names tls gateway mount hmount)

theorem names_finished {pod : Pod} {daemon : Container} {tls gateway : Bool}
    (hf : Finished rt workspace project config profile credentials pod daemon tls gateway) :
    pod.volumes.map Volume.name = credentials.volumes.map Volume.name ++
      ((cacheMounts project config).map VolumeMount.name ++ ["data", "tmp", "checkout-budget"] ++
        addedVolumes tls gateway) := by
  rw [hf.volumes, names_volumes]
  simp only [List.append_assoc]

theorem volumes_nodup (h : Laid credentials (files profile) own others gitConfig) {pod : Pod}
    {daemon : Container} {tls gateway : Bool}
    (hf : Finished rt workspace project config profile credentials pod daemon tls gateway) :
    (pod.volumes.map Volume.name).Nodup := by
  rw [names_finished hf, volumes_laid h, List.append_assoc]
  refine nodup_under "profile-file-" (nodup_numbered "profile-file-" (files profile)) ?_
    ((h.features.flatMap _).append (allVolumes_sublist tls gateway)) (by decide) (by decide)
  intro n hn
  obtain ⟨file, _, rfl⟩ := List.mem_map.mp hn
  exact startsWith_append _ _

/-- Whatever the profile, the project and the configuration turn on, no name or path is
    taken twice, and no file of a profile hides another mount. -/
theorem desired_wellFormed {desired : Desired}
    (h : desiredResources rt parseUrl workspace project config profile = .ok desired) :
    desired.pod.WellFormed := by
  obtain ⟨credentials, hcredentials, h⟩ := bind_eq_ok.mp h
  obtain ⟨own, others, gitConfig, hlaid⟩ := laid hcredentials
  split at h
  · simp at h
  · rename_i uid _
    obtain rfl := Except.ok.inj h
    obtain ⟨daemon, tls, gateway, hf⟩ :=
      @finished rt workspace project config profile credentials uid
    refine ⟨fun container hcontainer => ?_, volumes_nodup hlaid hf⟩
    have hnames := names_finished hf
    have hin : ∀ names, names ⊆ credentials.volumes.map Volume.name ++
        ((cacheMounts project config).map VolumeMount.name ++ ["data", "tmp", "checkout-budget"] ++
          addedVolumes tls gateway) → names ⊆ (desiredPod rt workspace project config profile
            credentials uid).volumes.map Volume.name := fun names hsub => hnames ▸ hsub
    have hcontainer' : container ∈ (desiredPod rt workspace project config profile
        credentials uid).allContainers := hcontainer
    rw [Pod.allContainers, hf.initContainers, hf.containers] at hcontainer'
    simp only [List.mem_append, List.mem_cons, List.not_mem_nil, or_false] at hcontainer'
    rcases hcontainer' with (hprepare | rfl) | rfl | htransport
    · split at hprepare
      · simp at hprepare
      · rw [List.mem_singleton.mp hprepare]
        exact wellFormed_prepareHome (hin ["data"] (by simp) (List.mem_singleton_self _))
          (hin ["tmp"] (by simp) (List.mem_singleton_self _))
    · refine wellFormed_checkout hlaid (hin _ ?_)
      intro n hn
      simp only [List.mem_append] at hn ⊢
      tauto
    · refine wellFormed_daemon hlaid hf (hin _ ?_)
      intro n hn
      simp only [List.mem_append, List.mem_cons] at hn ⊢
      tauto
    · split at htransport
      · rename_i htls
        rw [List.mem_singleton.mp htransport]
        exact wellFormed_transport
          (hin ["transport"] (by simp [addedVolumes, htls]) (List.mem_singleton_self _))
      · simp at htransport

end Desired

/-! ### A Pod with every kind of entry -/

section Demo

def demoRuntime : Cluster.Runtime where
  sha256 text :=
    if text = "uid" then "17b788a70eeccbdc2fcb2d2d3db216c02fa88ac668beeb164bb2328c864bf3f4"
    else ""
  dateParse _ := none
  jsonParse _ := none
  projectable _ _ _ := true

def demoConfig : RuntimeConfig where
  workspaceImage := "image"
  tlsSecret := some "tls"
  storageSize := "1Gi"
  backendSecret := "backend"
  imagePullPolicy := .Always
  gatewayUrl := some "https://gateway"

def demoProfile : CredentialProfile where
  name := "c"
  inNamespace := "n"
  spec := {
    env := [⟨"API_KEY", { secretKeyRef := some ⟨"api", "key"⟩ }⟩]
    files := [⟨".config/a", { configMapKeyRef := some ⟨"settings", "a"⟩ }, 288⟩,
      ⟨".config/b", { secretKeyRef := some ⟨"api", "b"⟩ }, 292⟩]
    git := some {
      githubApp := some demoApp
      signing := some ⟨⟨"signing", "key"⟩⟩ }
    codexSubscription := some demoCodex }

theorem desired_wellFormed_demo :
    ∃ desired, desiredResources demoRuntime demoUrl demoWorkspace demoProject demoConfig
      (some demoProfile) = .ok desired ∧ desired.pod.WellFormed := by
  rcases hok : desiredResources demoRuntime demoUrl demoWorkspace demoProject demoConfig
    (some demoProfile) with e | desired
  · have hisOk : (desiredResources demoRuntime demoUrl demoWorkspace demoProject demoConfig
        (some demoProfile)).isOk = true := by decide +kernel
    rw [hok] at hisOk
    cases hisOk
  · exact ⟨desired, rfl, desired_wellFormed hok⟩

end Demo

end PaseoGateway.Resources

/-
  PaseoGateway/LexicalPath.lean
  =============================
  **Lexical resolution of POSIX paths.**

  A path is resolved segment by segment from a directory: an empty segment and a dot stay,
  two dots go up, any other segment goes down (`resolve`).  `posix.normalize` keeps what a
  path resolves to (`segments_normalize_absolute`, `resolve_normalize_relative`), and a
  prefix of a normalized path that ends at a slash resolves to a directory above it
  (`resolve_prefix`).
-/
import PaseoGateway.JsString
import PaseoGateway.Routing

namespace PaseoGateway.LexicalPath

open Routing (normalize normalizeSegments)
open Js (segments)

/-- `posix.isAbsolute` -/
def isAbsolute (path : String) : Bool := path.toList.head? == some '/'

/-- The directory that a segment leads to. -/
def enter (dir : List String) (segment : String) : List String :=
  if segment = "" ∨ segment = "." then dir
  else if segment = ".." then dir.dropLast
  else dir ++ [segment]

/-- The directories on the way to where a path leads from a directory. -/
def resolve (base : List String) (path : String) : List String :=
  (segments path).foldl enter (if isAbsolute path then [] else base)

/-! ### Segments -/

/-- The segment leads down. -/
structure Plain (segment : String) : Prop where
  filled : segment ≠ ""
  notDot : segment ≠ "."
  notDots : segment ≠ ".."
  noSlash : '/' ∉ segment.toList

theorem segments_append (a b : String) : segments (a ++ "/" ++ b) = segments a ++ segments b := by
  have hsplit : (a ++ "/" ++ b).toList = a.toList ++ '/' :: b.toList := by simp
  rw [segments, hsplit, List.splitOn_append_cons_self, List.map_append]
  rfl

theorem notMem_of_mem_splitOn {α : Type} [BEq α] [LawfulBEq α] {a : α} {l part : List α}
    (h : part ∈ l.splitOn a) : a ∉ part := by
  induction l generalizing part with
  | nil => simp_all
  | cons b l ih =>
    rw [List.splitOn_cons_eq_if_modifyHead] at h
    split at h
    · rcases List.mem_cons.mp h with rfl | h
      · simp
      · exact ih h
    · rename_i hne
      rcases hsplit : l.splitOn a with _ | ⟨first, rest⟩
      · simp [hsplit] at h
      · rw [hsplit] at h ih
        rcases List.mem_cons.mp h with rfl | h
        · have hfirst := ih List.mem_cons_self
          have hba : ¬ a = b := fun heq => hne (by simp [heq])
          simp [hfirst, hba]
        · exact ih (List.mem_cons_of_mem _ h)

theorem noSlash_of_mem {path segment : String} (h : segment ∈ segments path) :
    '/' ∉ segment.toList := by
  obtain ⟨part, hpart, rfl⟩ := List.mem_map.mp h
  rw [String.toList_ofList]
  exact notMem_of_mem_splitOn hpart

theorem segments_intercalate {parts : List String} (hne : parts ≠ [])
    (hparts : ∀ part ∈ parts, '/' ∉ part.toList) : segments ("/".intercalate parts) = parts := by
  have hsplit : ("/".intercalate parts).toList.splitOn '/' = parts.map String.toList := by
    rw [String.toList_intercalate]
    refine List.splitOn_intercalate '/' ?_ (by simpa using hne)
    rintro _ hpart
    obtain ⟨part, hin, rfl⟩ := List.mem_map.mp hpart
    exact hparts part hin
  rw [segments, hsplit, List.map_map]
  simp [Function.comp_def]

section Enter

variable {dir segs : List String}

theorem enter_empty : enter dir "" = dir := by simp [enter]

theorem foldl_enter_plain (h : ∀ segment ∈ segs, Plain segment) :
    segs.foldl enter dir = dir ++ segs := by
  induction segs generalizing dir with
  | nil => simp
  | cons segment rest ih =>
    obtain ⟨hsegment, hrest⟩ := List.forall_mem_cons.mp h
    rw [List.foldl_cons, ih hrest, enter, if_neg (by simp [hsegment.filled, hsegment.notDot]),
      if_neg hsegment.notDots, List.append_assoc, List.singleton_append]

/-- Without two dots a path leads down. -/
theorem prefix_foldl_enter (h : ".." ∉ segs) : dir <+: segs.foldl enter dir := by
  induction segs generalizing dir with
  | nil => exact List.prefix_rfl
  | cons segment rest ih =>
    rw [List.mem_cons, not_or] at h
    refine List.IsPrefix.trans ?_ (ih h.2)
    rw [enter]
    split
    · exact List.prefix_rfl
    · rw [if_neg (Ne.symm h.1)]
      exact List.prefix_append _ _

end Enter

/-! ### `posix.normalize` -/

section Normalize

variable {done segs : List String}

/-- From the root two dots are never kept. -/
theorem normalizeSegments_absolute (hdone : ".." ∉ done) :
    normalizeSegments false done segs = segs.foldl enter done.reverse := by
  induction segs generalizing done with
  | nil => rw [normalizeSegments, List.foldl_nil]
  | cons segment rest ih =>
    rw [PaseoGateway.Routing.normalizeSegments.eq_def, List.foldl_cons, enter]
    dsimp only
    split
    · exact ih hdone
    · split
      · rcases done with _ | ⟨last, before⟩
        · exact ih (by simp)
        · rw [List.mem_cons, not_or] at hdone
          dsimp only
          rw [if_pos (Ne.symm hdone.1), ih hdone.2, List.reverse_cons, List.dropLast_concat]
      · rename_i hdots
        rw [ih (by simp [hdone, Ne.symm hdots]), List.reverse_cons]

/-- Otherwise those that lead above the start come first. -/
structure Climbs (parts : List String) (up : Nat) (down : List String) : Prop where
  eq : parts = List.replicate up ".." ++ down
  plain : ∀ part ∈ down, Plain part

theorem normalizeSegments_relative {up : Nat} {down : List String}
    (hdone : Climbs done.reverse up down) (hsegs : ∀ segment ∈ segs, '/' ∉ segment.toList) :
    (∃ up' down', Climbs (normalizeSegments true done segs) up' down') ∧
      ∀ base, (normalizeSegments true done segs).foldl enter base =
        segs.foldl enter (done.reverse.foldl enter base) := by
  induction segs generalizing done up down with
  | nil => exact ⟨⟨up, down, hdone⟩, fun base => rfl⟩
  | cons segment rest ih =>
    obtain ⟨hsegment, hrest⟩ := List.forall_mem_cons.mp hsegs
    rw [PaseoGateway.Routing.normalizeSegments.eq_def]
    dsimp only
    split
    · rename_i hstay
      obtain ⟨hclimbs, hsame⟩ := ih hdone hrest
      refine ⟨hclimbs, fun base => ?_⟩
      rw [hsame, List.foldl_cons, enter, if_pos hstay]
    · rename_i hgo
      split
      · rename_i hdots
        subst hdots
        rcases done with _ | ⟨last, before⟩
        · have hclimbs : Climbs [".."].reverse 1 [] := ⟨rfl, by simp⟩
          obtain ⟨hclimbs', hsame⟩ := ih hclimbs hrest
          exact ⟨hclimbs', fun base => by rw [if_pos rfl, hsame]; rfl⟩
        · dsimp only
          rcases List.eq_nil_or_concat down with rfl | ⟨down', deepest, rfl⟩
          · -- everything read so far leads up
            have hlast : last = ".." := by
              have hmem : last ∈ (last :: before).reverse := by simp
              rw [hdone.eq, List.append_nil] at hmem
              exact List.eq_of_mem_replicate hmem
            subst hlast
            have hclimbs : Climbs (".." :: ".." :: before).reverse (up + 1) [] := by
              refine ⟨?_, by simp⟩
              rw [List.reverse_cons, hdone.eq, List.append_nil, List.append_nil,
                List.replicate_succ']
            obtain ⟨hclimbs', hsame⟩ := ih hclimbs hrest
            rw [if_neg (by simp), if_pos rfl]
            refine ⟨hclimbs', fun base => ?_⟩
            rw [hsame, List.reverse_cons, List.foldl_append]
            rfl
          · -- the last segment that leads down is taken back
            have heq : before.reverse ++ [last] = (List.replicate up ".." ++ down') ++ [deepest] := by
              rw [← List.reverse_cons, hdone.eq, List.concat_eq_append, List.append_assoc]
            obtain ⟨hbefore, hlast⟩ := List.append_inj' heq rfl
            obtain rfl : last = deepest := by simpa using hlast
            have hdeepest : Plain last := hdone.plain last (by simp)
            have hclimbs : Climbs before.reverse up down' :=
              ⟨hbefore, fun part hpart => hdone.plain part (by simp [hpart])⟩
            obtain ⟨hclimbs', hsame⟩ := ih hclimbs hrest
            rw [if_pos hdeepest.notDots]
            refine ⟨hclimbs', fun base => ?_⟩
            rw [hsame, List.reverse_cons, List.foldl_append, List.foldl_cons, List.foldl_cons,
              List.foldl_nil]
            congr 1
            rw [enter, enter, if_neg (by simp), if_pos rfl,
              if_neg (by simp [hdeepest.filled, hdeepest.notDot]), if_neg hdeepest.notDots,
              List.dropLast_concat]
      · rename_i hdots
        have hplain : Plain segment :=
          ⟨fun h => hgo (.inl h), fun h => hgo (.inr h), hdots, hsegment⟩
        have hclimbs : Climbs (segment :: done).reverse up (down ++ [segment]) := by
          refine ⟨by rw [List.reverse_cons, hdone.eq, List.append_assoc], ?_⟩
          simp only [List.mem_append, List.mem_singleton]
          rintro part (hpart | rfl)
          · exact hdone.plain part hpart
          · exact hplain
        obtain ⟨hclimbs', hsame⟩ := ih hclimbs hrest
        refine ⟨hclimbs', fun base => ?_⟩
        rw [hsame, List.reverse_cons, List.foldl_append]
        rfl

end Normalize

section Normalized

variable {path : String} {dir parts : List String}

theorem foldl_enter_all {segs : List String} (hdir : ∀ part ∈ dir, Plain part)
    (hsegs : ∀ segment ∈ segs, '/' ∉ segment.toList) :
    ∀ part ∈ segs.foldl enter dir, Plain part := by
  induction segs generalizing dir with
  | nil => exact hdir
  | cons segment rest ih =>
    obtain ⟨hsegment, hrest⟩ := List.forall_mem_cons.mp hsegs
    refine ih ?_ hrest
    intro part hpart
    rw [enter] at hpart
    split at hpart
    · exact hdir part hpart
    · rename_i hgo
      split at hpart
      · exact hdir part (List.dropLast_subset _ hpart)
      · rename_i hdots
        rcases List.mem_append.mp hpart with hpart | hpart
        · exact hdir part hpart
        · obtain rfl := List.mem_singleton.mp hpart
          exact ⟨fun h => hgo (.inl h), fun h => hgo (.inr h), hdots, hsegment⟩

/-- An absolute path resolves to directories with plain names. -/
theorem resolve_plain (h : isAbsolute path = true) (base : List String) :
    ∀ part ∈ resolve base path, Plain part := by
  rw [resolve, if_pos h]
  exact foldl_enter_all (by simp) fun segment hsegment => noSlash_of_mem hsegment

theorem intercalate_ne_empty (hne : parts ≠ []) (hparts : ∀ part ∈ parts, '/' ∉ part.toList)
    (hfilled : ∀ part ∈ parts, part ≠ "") : "/".intercalate parts ≠ "" := by
  intro hempty
  have hsegments := segments_intercalate hne hparts
  rw [hempty] at hsegments
  have hmem : "" ∈ parts := by
    rw [← hsegments]
    exact List.mem_singleton_self _
  exact hfilled "" hmem rfl

/-- Where a path ends. -/
def trailing (path : String) : String := if path.toList.getLast? == some '/' then "/" else ""

theorem normalize_eq (hne : path ≠ "") (hinner : "/".intercalate
      (normalizeSegments (!isAbsolute path) [] (segments path)) ≠ "") :
    normalize path = (if isAbsolute path then "/" else "") ++
      "/".intercalate (normalizeSegments (!isAbsolute path) [] (segments path)) ++
        trailing path := by
  rw [Routing.normalize, if_neg hne]
  exact if_neg hinner

theorem normalize_bare (hne : path ≠ "") (hinner : "/".intercalate
      (normalizeSegments (!isAbsolute path) [] (segments path)) = "") :
    normalize path = if isAbsolute path then "/"
      else if path.toList.getLast? == some '/' then "./" else "." := by
  rw [Routing.normalize, if_neg hne]
  exact if_pos hinner

theorem ne_empty_of_absolute (h : isAbsolute path = true) : path ≠ "" := by
  rintro rfl
  cases h

theorem segments_slash (rest : String) : segments ("/" ++ rest) = "" :: segments rest := by
  have happend := segments_append "" rest
  rw [String.empty_append] at happend
  rw [happend]
  rfl

theorem intercalate_segments (path : String) : "/".intercalate (segments path) = path := by
  apply String.toList_inj.mp
  rw [String.toList_intercalate, segments, List.map_map]
  simp [Function.comp_def]

/-- The segments of a normalized absolute path are what it resolves to, between empty ones. -/
theorem segments_normalize (h : isAbsolute path = true) : ∃ tail,
    segments (normalize path) = "" :: (resolve [] path ++ tail) ∧
      resolve [] path ++ tail ≠ [] ∧ ∀ segment ∈ tail, segment = "" := by
  have hparts : normalizeSegments (!isAbsolute path) [] (segments path) = resolve [] path := by
    rw [h, resolve, if_pos h]
    exact normalizeSegments_absolute (by simp)
  have hplain := resolve_plain h []
  by_cases hnil : resolve [] path = []
  · have hroot : normalize path = "/" := by
      rw [normalize_bare (ne_empty_of_absolute h) (by rw [hparts, hnil]; rfl), if_pos h]
    exact ⟨[""], by rw [hroot, hnil]; rfl, by simp, by simp⟩
  · have hinner := intercalate_ne_empty hnil (fun part hpart => (hplain part hpart).noSlash)
      fun part hpart => (hplain part hpart).filled
    have hsegments := segments_intercalate hnil fun part hpart => (hplain part hpart).noSlash
    have hnormal := normalize_eq (ne_empty_of_absolute h) (by rw [hparts]; exact hinner)
    rw [hparts, if_pos h, trailing] at hnormal
    split at hnormal
    · refine ⟨[""], ?_, by simp, by simp⟩
      have hback := segments_append ("/" ++ "/".intercalate (resolve [] path)) ""
      rw [String.append_empty] at hback
      rw [hnormal, hback, segments_slash, hsegments]
      rfl
    · refine ⟨[], ?_, by simpa using hnil, by simp⟩
      rw [hnormal, String.append_empty, segments_slash, hsegments, List.append_nil]

theorem isAbsolute_iff : isAbsolute path = true ↔ ∃ rest, path = "/" ++ rest := by
  constructor
  · intro h
    rcases hchars : path.toList with _ | ⟨first, rest⟩
    · simp [isAbsolute, hchars] at h
    · obtain rfl : first = '/' := by simpa [isAbsolute, hchars] using h
      exact ⟨String.ofList rest, String.toList_inj.mp (by simp [hchars])⟩
  · rintro ⟨rest, rfl⟩
    simp [isAbsolute]

theorem Climbs.part {up : Nat} {down : List String} (h : Climbs parts up down) :
    ∀ part ∈ parts, '/' ∉ part.toList ∧ part ≠ "" := by
  intro part hpart
  rw [h.eq] at hpart
  rcases List.mem_append.mp hpart with hpart | hpart
  · rw [List.eq_of_mem_replicate hpart]
    decide
  · exact ⟨(h.plain part hpart).noSlash, (h.plain part hpart).filled⟩

/-- The parts of a relative path lead up, and then down; they lead where the path leads. -/
theorem climbs_relative (path : String) :
    (∃ up down, Climbs (normalizeSegments true [] (segments path)) up down) ∧
      ∀ base, (normalizeSegments true [] (segments path)).foldl enter base =
        (segments path).foldl enter base := by
  have hstart : Climbs (List.reverse []) 0 [] := ⟨rfl, by simp⟩
  exact normalizeSegments_relative hstart fun segment hsegment => noSlash_of_mem hsegment

theorem segments_normalize_relative (h : isAbsolute path = false)
    (hne : normalizeSegments true [] (segments path) ≠ []) : ∃ tail,
    segments (normalize path) = normalizeSegments true [] (segments path) ++ tail := by
  obtain ⟨⟨up, down, hclimbs⟩, -⟩ := climbs_relative path
  have hfilled : path ≠ "" := by
    rintro rfl
    exact hne rfl
  have hinner := intercalate_ne_empty hne (fun part hpart => (hclimbs.part part hpart).1)
    fun part hpart => (hclimbs.part part hpart).2
  have hsegments := segments_intercalate hne fun part hpart => (hclimbs.part part hpart).1
  have hnormal := normalize_eq hfilled (by rw [h]; exact hinner)
  rw [h, if_neg (by simp), String.empty_append, trailing, Bool.not_false] at hnormal
  split at hnormal
  · have hback := segments_append
      ("/".intercalate (normalizeSegments true [] (segments path))) ""
    rw [String.append_empty] at hback
    exact ⟨_, by rw [hnormal, hback, hsegments]⟩
  · exact ⟨[], by rw [hnormal, String.append_empty, hsegments, List.append_nil]⟩

/-- Normalizing does not move a path to the root or away from it. -/
theorem isAbsolute_normalize (path : String) : isAbsolute (normalize path) = isAbsolute path := by
  rcases h : isAbsolute path
  · by_cases hnil : normalizeSegments true [] (segments path) = []
    · have hdot : normalize path = "." ∨ normalize path = "./" := by
        by_cases hempty : path = ""
        · exact .inl (by rw [hempty]; rfl)
        · rw [normalize_bare hempty (by rw [h, Bool.not_false, hnil]; rfl), h, if_neg (by simp)]
          split
          · exact .inr rfl
          · exact .inl rfl
      rcases hdot with hdot | hdot <;> rw [hdot] <;> rfl
    · obtain ⟨tail, htail⟩ := segments_normalize_relative h hnil
      obtain ⟨⟨up, down, hclimbs⟩, -⟩ := climbs_relative path
      by_contra habsolute
      obtain ⟨rest, hrest⟩ := isAbsolute_iff.mp (by simpa using habsolute)
      rw [hrest, segments_slash] at htail
      rcases hparts : normalizeSegments true [] (segments path) with _ | ⟨first, parts⟩
      · exact hnil hparts
      · rw [hparts] at htail hclimbs
        exact (hclimbs.part first List.mem_cons_self).2 (List.cons.inj htail).1.symm
  · obtain ⟨tail, hsegments, hne, -⟩ := segments_normalize h
    rw [isAbsolute_iff]
    rcases hrest : resolve [] path ++ tail with _ | ⟨first, rest⟩
    · exact absurd hrest hne
    · refine ⟨"/".intercalate (first :: rest), ?_⟩
      rw [← intercalate_segments (normalize path), hsegments, hrest]
      apply String.toList_inj.mp
      simp [List.intercalate]

/-- A relative path that does not begin with two dots leads down. -/
theorem prefix_of_relative (h : isAbsolute path = false) (hdots : normalize path ≠ "..")
    (hup : ¬ "../".toList <+: (normalize path).toList) (base : List String) :
    base <+: resolve base path := by
  obtain ⟨⟨up, down, hclimbs⟩, hsame⟩ := climbs_relative path
  have hdown : up = 0 := by
    rcases up with _ | up
    · rfl
    · exfalso
      have hparts : normalizeSegments true [] (segments path) =
          ".." :: (List.replicate up ".." ++ down) := by rw [hclimbs.eq]; rfl
      obtain ⟨tail, htail⟩ := segments_normalize_relative h (by simp [hparts])
      have hjoined := intercalate_segments (normalize path)
      rw [htail, hparts] at hjoined
      rcases hrest : List.replicate up ".." ++ down ++ tail with _ | ⟨next, rest⟩
      · rw [List.cons_append, hrest] at hjoined
        exact hdots hjoined.symm
      · rw [List.cons_append, hrest] at hjoined
        refine hup ⟨("/".intercalate (next :: rest)).toList, ?_⟩
        rw [← hjoined]
        simp [List.intercalate]
  subst hdown
  have heq : (segments path).foldl enter base = base ++ down := by
    rw [← hsame base, hclimbs.eq]
    exact foldl_enter_plain hclimbs.plain
  rw [resolve, h, if_neg (by simp), heq]
  exact List.prefix_append _ _

theorem resolve_normalize (h : isAbsolute path = true) (base : List String) :
    resolve base (normalize path) = resolve [] path := by
  obtain ⟨tail, hsegments, -, htail⟩ := segments_normalize h
  have hempty : ∀ {segs : List String} {dir}, (∀ segment ∈ segs, segment = "") →
      segs.foldl enter dir = dir := by
    intro segs dir hsegs
    induction segs with
    | nil => rfl
    | cons segment rest ih =>
      obtain ⟨rfl, hrest⟩ := List.forall_mem_cons.mp hsegs
      rw [List.foldl_cons, enter_empty, ih hrest]
  rw [resolve, isAbsolute_normalize, h, if_pos rfl, hsegments, List.foldl_cons, enter_empty,
    List.foldl_append, foldl_enter_plain (resolve_plain h []), hempty htail, List.nil_append]

/-- A path below a root, as its text shows, resolves to a directory below the root. -/
theorem resolve_prefix {root : String} (h : isAbsolute path = true)
    (hroot : normalize path = root ∨ (root ++ "/").toList <+: (normalize path).toList) :
    resolve [] root <+: resolve [] path := by
  have hmore : ∃ more, segments (normalize path) = segments root ++ more := by
    rcases hroot with rfl | ⟨rest, hrest⟩
    · exact ⟨[], by simp⟩
    · have hsplit : normalize path = root ++ "/" ++ String.ofList rest :=
        String.toList_inj.mp (by rw [← hrest]; simp)
      exact ⟨segments (String.ofList rest), by rw [hsplit, segments_append]⟩
  obtain ⟨more, hmore⟩ := hmore
  obtain ⟨tail, hsegments, -, htail⟩ := segments_normalize h
  have hdots : ".." ∉ more := by
    intro hin
    have hmem : ".." ∈ "" :: (resolve [] path ++ tail) := by
      rw [← hsegments, hmore]
      exact List.mem_append_right _ hin
    rcases List.mem_cons.mp hmem with hempty | hmem
    · simp at hempty
    · rcases List.mem_append.mp hmem with hpart | hend
      · exact (resolve_plain h [] _ hpart).notDots rfl
      · exact absurd (htail _ hend) (by simp)
  have hwhole : (segments (normalize path)).foldl enter [] = resolve [] path := by
    rw [← resolve_normalize h [], resolve, ite_self]
  rw [resolve, ite_self, ← hwhole, hmore, List.foldl_append]
  exact prefix_foldl_enter hdots

end Normalized

/-! ### `posix.relative` -/

/-- How many directories two paths share from the root on. -/
def shared : List String → List String → Nat
  | a :: as, b :: bs => if a = b then shared as bs + 1 else 0
  | _, _ => 0

/-- `posix.relative`; relative arguments start at the directory of the process. -/
def relative (processDir : List String) (start target : String) : String :=
  let source := resolve processDir start
  let goal := resolve processDir target
  "/".intercalate (List.replicate (source.length - shared source goal) ".." ++
    goal.drop (shared source goal))

theorem prefix_of_shared {source goal : List String} (h : source.length ≤ shared source goal) :
    source <+: goal := by
  induction source generalizing goal with
  | nil => exact List.nil_prefix
  | cons a as ih =>
    rcases goal with _ | ⟨b, bs⟩
    · simp [shared] at h
    · rw [shared] at h
      split at h
      · rename_i heq
        subst heq
        exact List.cons_prefix_cons.mpr ⟨rfl, ih (by simpa using h)⟩
      · simp at h

/-- What is reached without going up lies below the start. -/
theorem prefix_of_descent {processDir : List String} {start target : String}
    (hdots : relative processDir start target ≠ "..")
    (hup : ¬ "../".toList <+: (relative processDir start target).toList) :
    resolve processDir start <+: resolve processDir target := by
  apply prefix_of_shared
  by_contra hless
  obtain ⟨up, hclimb⟩ : ∃ up, (resolve processDir start).length -
      shared (resolve processDir start) (resolve processDir target) = up + 1 :=
    ⟨_, (Nat.succ_pred_eq_of_pos (by omega)).symm⟩
  rw [relative, hclimb, List.replicate_succ, List.cons_append] at hdots hup
  rcases hrest : List.replicate up ".." ++ (resolve processDir target).drop
      (shared (resolve processDir start) (resolve processDir target)) with _ | ⟨next, rest⟩
  · rw [hrest] at hdots
    exact hdots rfl
  · rw [hrest] at hup
    exact hup ⟨("/".intercalate (next :: rest)).toList, by simp [List.intercalate]⟩

end PaseoGateway.LexicalPath

/-
  PaseoGateway/SnapshotNames.lean
  ===============================
  **What a snapshot file name says.**

  A name built by `writeSnapshot` and accepted by the client parses back to the
  generation and the millisecond it was built from, and a temporary name never
  parses.
-/
import PaseoGateway.RetainedHistory

namespace PaseoGateway.RetainedHistory

/-! ### Pieces of the patterns -/

theorem afterPrefix_append (pre s : List Char) : afterPrefix pre (pre ++ s) = some s := by
  simp [afterPrefix]

theorem afterPrefix_some {pre s rest : List Char} (h : afterPrefix pre s = some rest) :
    rest <:+ s := by
  unfold afterPrefix at h
  split at h
  · cases h
    exact List.drop_suffix _ _
  · cases h

theorem matchThen_suffix {p : Char → Bool} {suffix s : List Char}
    (h : matchThen p suffix s = true) : suffix <:+ s := by
  simp only [matchThen, Bool.and_eq_true, beq_iff_eq] at h
  obtain ⟨⟨hsuffix, _⟩, _⟩ := h
  rw [← hsuffix]
  exact List.drop_suffix _ _

theorem matchCaptured_some {s : List Char} {n : Nat} (h : matchCaptured s = some n) :
    ∃ rest, s.drop 13 = '-' :: rest ∧ matchThen isHexDash json rest = true ∧
      (∀ c ∈ s.take 13, c.isDigit = true) ∧ (s.take 13).length = 13 ∧
      n = Nat.ofDigitChars 10 (s.take 13) 0 := by
  unfold matchCaptured at h
  split at h
  · rename_i rest hdrop
    simp only at h
    split at h
    · rename_i hmatch
      obtain ⟨hlen, hdigits, hrest⟩ := hmatch
      exact ⟨rest, hdrop, hrest, by simpa using hdigits, hlen, (Option.some.inj h).symm⟩
    · cases h
  · cases h

theorem matchCaptured_suffix {s : List Char} {n : Nat} (h : matchCaptured s = some n) :
    json <:+ s := by
  obtain ⟨rest, hdrop, hmatch, _⟩ := matchCaptured_some h
  have hrest : rest <:+ s.drop 13 := by
    rw [hdrop]
    exact List.suffix_cons _ _
  exact (matchThen_suffix hmatch).trans (hrest.trans (List.drop_suffix _ _))

theorem matchGeneration_suffix {s : List Char} {p : List Char × List Char}
    (h : matchGeneration s = some p) : p.2 <:+ s := by
  unfold matchGeneration at h
  simp only at h
  split at h
  · rename_i rest hdrop
    split at h
    · cases h
    · cases h
      have hrest : rest <:+ s.dropWhile Char.isDigit := by
        rw [hdrop]
        exact List.suffix_cons _ _
      exact hrest.trans (List.dropWhile_suffix _)
  · cases h

theorem matchGeneration_digits {digits : List Char} (rest : List Char)
    (hdigits : ∀ c ∈ digits, c.isDigit = true) (hne : digits ≠ []) :
    matchGeneration (digits ++ '-' :: rest) = some (digits, rest) := by
  have hdash : ('-' : Char).isDigit = false := by decide
  have htake : (digits ++ '-' :: rest).takeWhile Char.isDigit = digits := by
    rw [List.takeWhile_append_of_pos hdigits, List.takeWhile_cons_of_neg (by simp [hdash]),
      List.append_nil]
  have hdrop : (digits ++ '-' :: rest).dropWhile Char.isDigit = '-' :: rest := by
    rw [List.dropWhile_append_of_pos hdigits, List.dropWhile_cons_of_neg (by simp [hdash])]
  unfold matchGeneration
  rw [htake, hdrop]
  simp [hne]

/-! ### Temporary names -/

theorem snapshotParts_json {uid name : String} {p : Parts}
    (h : snapshotParts uid name = some p) : json <:+ name.toList := by
  simp only [snapshotParts, Option.bind_eq_bind, Option.bind_eq_some_iff] at h
  obtain ⟨rest, hrest, g, hg, ms, hms, _⟩ := h
  exact (matchCaptured_suffix hms).trans
    ((matchGeneration_suffix hg).trans (afterPrefix_some hrest))

theorem not_json_of_tmp {s : List Char} (h : ".tmp".toList <:+ s) : ¬ json <:+ s := by
  rintro ⟨t, ht⟩
  obtain ⟨t', ht'⟩ := h
  have hlast := congrArg List.getLast? (ht.trans ht'.symm)
  rw [List.getLast?_append, List.getLast?_append] at hlast
  revert hlast
  simp [json]

theorem snapshotParts_of_tmp {uid name : String} (h : ".tmp".toList <:+ name.toList) :
    snapshotParts uid name = none := by
  cases hp : snapshotParts uid name with
  | none => rfl
  | some p => exact absurd (snapshotParts_json hp) (not_json_of_tmp h)

theorem snapshotParts_tempName (uid uuid : String) : snapshotParts uid (tempName uid uuid) = none := by
  apply snapshotParts_of_tmp
  rw [tempName, String.toList_append]
  exact List.suffix_append _ _

theorem snapshotParts_of_isTempName {uid name : String} (h : isTempName uid name = true) :
    snapshotParts uid name = none := by
  apply snapshotParts_of_tmp
  unfold isTempName at h
  split at h
  · cases h
  · rename_i rest hrest
    exact (matchThen_suffix h).trans (afterPrefix_some hrest)

/-! ### Numbers -/

/-- A decimal number does not start with a zero. -/
theorem head_toDigits {n : Nat} (h : 0 < n) : (Nat.toDigits 10 n).head? ≠ some '0' := by
  intro hhead
  obtain ⟨tail, htail⟩ := List.head?_eq_some_iff.mp hhead
  have hdigits : ∀ c ∈ tail, c.isDigit = true := by
    intro c hc
    apply Nat.isDigit_of_mem_toDigits (b := 10) (n := n) (by decide) (by decide)
    rw [htail]
    exact List.mem_cons_of_mem _ hc
  have hvalue : Nat.ofDigitChars 10 tail 0 = n := by
    have hn := Nat.ofDigitChars_toDigits (b := 10) (n := n) (by decide) (by decide)
    rw [htail, Nat.ofDigitChars_cons] at hn
    simpa using hn
  have hlt := Iso.ofDigitChars_lt_pow hdigits
  rw [hvalue] at hlt
  rcases Nat.eq_zero_or_pos tail.length with hzero | hpos
  · rw [hzero] at hlt
    omega
  · have hlen := (Nat.length_toDigits_le_iff (b := 10) (by decide) hpos).mpr hlt
    rw [htail, List.length_cons] at hlen
    omega

theorem capturedText_ofNat (m : Nat) : capturedText (m : Int) = Iso.pad 13 m := by
  have htext : (toString (m : Int)).toList = Nat.toDigits 10 m := by
    rw [show toString (m : Int) = m.repr from rfl, Nat.toList_repr]
  rw [capturedText, htext, Iso.pad]

/-- The text of a negative number has its sign among the first thirteen characters. -/
theorem dash_mem_capturedText (m : Nat) (rest : List Char) :
    '-' ∈ (capturedText (Int.negSucc m) ++ rest).take 13 := by
  have htext : (toString (Int.negSucc m)).toList = '-' :: Nat.toDigits 10 (m + 1) := by
    rw [show toString (Int.negSucc m) = "-" ++ (m + 1).repr from rfl, String.toList_append,
      Nat.toList_repr]
    rfl
  rw [capturedText, htext, List.leftpad, List.append_assoc, List.cons_append,
    List.take_append, List.mem_append]
  refine .inr ?_
  rw [List.length_replicate]
  have hlen : 0 < 13 - (13 - ('-' :: Nat.toDigits 10 (m + 1)).length) := by
    rw [List.length_cons]
    omega
  obtain ⟨k, hk⟩ := Nat.exists_eq_succ_of_ne_zero (Nat.ne_of_gt hlen)
  rw [hk, List.take_succ_cons]
  exact List.mem_cons_self

/-- The thirteen digits of a name are its millisecond. -/
theorem matchCaptured_capturedText {ms : Int} {rest : List Char} {n : Nat}
    (h : matchCaptured (capturedText ms ++ '-' :: rest) = some n) :
    (n : Int) = ms ∧ n < 10 ^ 13 := by
  obtain ⟨rest', hdrop, _, hdigits, hlen, rfl⟩ := matchCaptured_some h
  have hdash : ('-' : Char).isDigit ≠ true := by decide
  cases ms with
  | negSucc m => exact absurd (hdigits '-' (dash_mem_capturedText m _)) hdash
  | ofNat m =>
    rw [Int.ofNat_eq_natCast, capturedText_ofNat] at hdrop hdigits hlen ⊢
    have hpad : 13 ≤ (Iso.pad 13 m).length := by
      rw [Iso.pad, List.leftpad, List.length_append, List.length_replicate]
      omega
    -- a fourteenth digit would stand where the dash is
    have hle : (Iso.pad 13 m).length ≤ 13 := by
      by_contra hgt
      rw [List.drop_append_of_le_length (by omega)] at hdrop
      obtain ⟨c, tail, htail⟩ := List.exists_cons_of_length_pos
        (l := (Iso.pad 13 m).drop 13) (by rw [List.length_drop]; omega)
      rw [htail, List.cons_append] at hdrop
      have hc : c ∈ Iso.pad 13 m := by
        apply List.mem_of_mem_drop (i := 13)
        rw [htail]
        exact List.mem_cons_self
      rw [(List.cons.inj hdrop).1] at hc
      exact hdash (Iso.isDigit_of_mem_pad hc)
    have htake : (Iso.pad 13 m ++ '-' :: rest).take 13 = Iso.pad 13 m := by
      rw [List.take_append_of_le_length (by omega), List.take_of_length_le hle]
    rw [htake] at hdigits hlen ⊢
    constructor
    · rw [Iso.ofDigitChars_pad]
    · have hlt := Iso.ofDigitChars_lt_pow hdigits
      rw [hlen] at hlt
      exact hlt

/-- A written name the client accepts parses back to what it was built from. -/
theorem snapshotParts_snapshotName {uid uuid : String} {generation : Nat} {captured : Int}
    (hpos : 1 ≤ generation) (hsafe : generation ≤ MAX_SAFE_INTEGER)
    (h : isSnapshotName uid (snapshotName uid generation captured uuid) = true) :
    ∃ ms : Nat, snapshotParts uid (snapshotName uid generation captured uuid)
      = some ⟨generation, ms⟩ ∧ (ms : Int) = captured ∧ ms < 10 ^ 13 := by
  have hname : (snapshotName uid generation captured uuid).toList
      = (uid ++ "-").toList ++ (Nat.toDigits 10 generation ++ '-' ::
        (capturedText captured ++ '-' :: (uuid.toList ++ json))) := by
    simp [snapshotName, json, Nat.toString_eq_repr]
  have hparse : afterPrefix (uid ++ "-").toList
      (snapshotName uid generation captured uuid).toList
      = some (Nat.toDigits 10 generation ++ '-' ::
        (capturedText captured ++ '-' :: (uuid.toList ++ json))) := by
    rw [hname, afterPrefix_append]
  have hdigits : ∀ c ∈ Nat.toDigits 10 generation, c.isDigit = true :=
    fun c hc => Nat.isDigit_of_mem_toDigits (by decide) (by decide) hc
  have hgen := matchGeneration_digits (capturedText captured ++ '-' :: (uuid.toList ++ json))
    hdigits Nat.toDigits_ne_nil
  have hvalue : Nat.ofDigitChars 10 (Nat.toDigits 10 generation) 0 = generation :=
    Nat.ofDigitChars_toDigits (by decide) (by decide)
  simp only [isSnapshotName, hparse, Option.bind_eq_bind, Option.bind_some, hgen,
    Option.isSome_iff_exists] at h
  obtain ⟨n, hn⟩ := h
  obtain ⟨hms, hlt⟩ := matchCaptured_capturedText hn
  refine ⟨n, ?_, hms, hlt⟩
  simp only [snapshotParts, hparse, Option.bind_eq_bind, Option.bind_some, hgen, hn, hvalue]
  rw [if_pos ⟨head_toDigits hpos, hsafe⟩]

end PaseoGateway.RetainedHistory

/-
  PaseoGateway/Utf8Decoder.lean
  =============================
  **UTF-8 decoding that replaces what it cannot read.**

  The decoder of the Encoding Standard as a machine that is fed one byte at a time.  It
  never fails: a byte that does not fit the sequence it is in gives U+FFFD and is read
  again as a first byte.  A text comes back from its bytes (`decode_encode`).
-/
import Mathlib

namespace PaseoGateway.Utf8Decoder

/-- A sequence that has begun: the bytes that are missing, the bounds of the next one, and
    the bits read so far. -/
structure Pending where
  needed : Nat
  lower : Nat
  upper : Nat
  point : Nat
deriving DecidableEq, Repr

def replacement : Char := Char.ofNat 0xFFFD

/-- A byte outside any sequence. -/
def first (byte : Nat) : List Char × Option Pending :=
  if byte < 0x80 then ([Char.ofNat byte], none)
  else if 0xC2 ≤ byte ∧ byte ≤ 0xDF then ([], some ⟨1, 0x80, 0xBF, byte % 0x20⟩)
  else if 0xE0 ≤ byte ∧ byte ≤ 0xEF then
    ([], some ⟨2, if byte = 0xE0 then 0xA0 else 0x80, if byte = 0xED then 0x9F else 0xBF,
      byte % 0x10⟩)
  else if 0xF0 ≤ byte ∧ byte ≤ 0xF4 then
    ([], some ⟨3, if byte = 0xF0 then 0x90 else 0x80, if byte = 0xF4 then 0x8F else 0xBF,
      byte % 0x08⟩)
  else ([replacement], none)

def feed : Option Pending → Nat → List Char × Option Pending
  | none, byte => first byte
  | some pending, byte =>
    if pending.lower ≤ byte ∧ byte ≤ pending.upper then
      let point := pending.point * 0x40 + byte % 0x40
      if pending.needed = 1 then ([Char.ofNat point], none)
      else ([], some ⟨pending.needed - 1, 0x80, 0xBF, point⟩)
    else (replacement :: (first byte).1, (first byte).2)

def decodeFrom : Option Pending → List UInt8 → List Char
  | none, [] => []
  | some _, [] => [replacement]
  | state, byte :: rest =>
    (feed state byte.toNat).1 ++ decodeFrom (feed state byte.toNat).2 rest

def decode (bytes : List UInt8) : List Char := decodeFrom none bytes

variable {state : Option Pending} {rest : List UInt8}

theorem decodeFrom_cons (byte : UInt8) : decodeFrom state (byte :: rest) =
    (feed state byte.toNat).1 ++ decodeFrom (feed state byte.toNat).2 rest := by
  rcases state with _ | pending <;> rfl

theorem toNat_ofNat {n : Nat} (h : n < 0x100) : (UInt8.ofNat n).toNat = n := by
  simpa using h

theorem feed_none (byte : Nat) : feed none byte = first byte := rfl

theorem first_two {n : Nat} (hlower : 0xC2 ≤ n) (hupper : n ≤ 0xDF) :
    first n = ([], some ⟨1, 0x80, 0xBF, n % 0x20⟩) := by
  rw [first, if_neg (by omega), if_pos ⟨hlower, hupper⟩]

theorem first_three {n : Nat} (hlower : 0xE0 ≤ n) (hupper : n ≤ 0xEF) :
    first n = ([], some ⟨2, if n = 0xE0 then 0xA0 else 0x80, if n = 0xED then 0x9F else 0xBF,
      n % 0x10⟩) := by
  rw [first, if_neg (by omega), if_neg (by omega), if_pos ⟨hlower, hupper⟩]

theorem first_four {n : Nat} (hlower : 0xF0 ≤ n) (hupper : n ≤ 0xF4) :
    first n = ([], some ⟨3, if n = 0xF0 then 0x90 else 0x80, if n = 0xF4 then 0x8F else 0xBF,
      n % 0x08⟩) := by
  rw [first, if_neg (by omega), if_neg (by omega), if_neg (by omega), if_pos ⟨hlower, hupper⟩]

/-- A byte in the middle of a sequence. -/
theorem feed_more {needed lower upper point n : Nat} (hlower : lower ≤ n) (hupper : n ≤ upper)
    (hneeded : needed ≠ 0) :
    feed (some ⟨needed + 1, lower, upper, point⟩) n =
      ([], some ⟨needed, 0x80, 0xBF, point * 0x40 + n % 0x40⟩) := by
  simp [feed, hlower, hupper, hneeded]

/-- The last byte of a sequence. -/
theorem feed_last {lower upper point n : Nat} (hlower : lower ≤ n) (hupper : n ≤ upper) :
    feed (some ⟨1, lower, upper, point⟩) n = ([Char.ofNat (point * 0x40 + n % 0x40)], none) := by
  simp [feed, hlower, hupper]

theorem val_bounds (c : Char) : c.toNat < 0xD800 ∨ 0xDFFF < c.toNat ∧ c.toNat < 0x110000 := by
  have hvalid := c.valid
  simpa [UInt32.isValidChar, Nat.isValidChar] using hvalid

/-- The bytes of a character are one sequence, which gives the character. -/
theorem decodeFrom_encodeChar (c : Char) :
    decodeFrom none (String.utf8EncodeChar c ++ rest) = c :: decodeFrom none rest := by
  have hchar : Char.ofNat c.toNat = c := Char.ofNat_toNat c
  have hbounds := val_bounds c
  have hval : c.val.toNat = c.toNat := rfl
  unfold String.utf8EncodeChar
  simp only [hval]
  generalize c.toNat = v at hchar hbounds
  split
  · next h =>
    have hbyte : (UInt8.ofNat v).toNat = v := toNat_ofNat (by omega)
    have hfirst : first v = ([Char.ofNat v], none) := if_pos (by omega)
    simp only [List.cons_append, List.nil_append, decodeFrom_cons, feed, hbyte, hfirst, hchar]
  split
  · next h₁ h₂ =>
    have hlead : (UInt8.ofNat (v / 64 % 0x20 + 0xc0)).toNat = v / 64 % 0x20 + 0xc0 :=
      toNat_ofNat (by omega)
    have htail : (UInt8.ofNat (v % 0x40 + 0x80)).toNat = v % 0x40 + 0x80 := toNat_ofNat (by omega)
    have hfirst := first_two (show 0xC2 ≤ v / 64 % 0x20 + 0xc0 by omega) (by omega)
    have hlast : feed (some ⟨1, 0x80, 0xBF, (v / 64 % 0x20 + 0xc0) % 0x20⟩) (v % 0x40 + 0x80) =
        ([c], none) := by
      rw [feed_last (by omega) (by omega)]
      have hpoint : (v / 64 % 0x20 + 0xc0) % 0x20 * 0x40 + (v % 0x40 + 0x80) % 0x40 = v := by
        omega
      rw [hpoint, hchar]
    simp only [List.cons_append, List.nil_append, decodeFrom_cons, hlead, htail, feed_none, hfirst,
      hlast]
  split
  · next h₁ h₂ h₃ =>
    have hlead : (UInt8.ofNat (v / 4096 % 0x10 + 0xe0)).toNat = v / 4096 % 0x10 + 0xe0 :=
      toNat_ofNat (by omega)
    have hsecond : (UInt8.ofNat (v / 64 % 0x40 + 0x80)).toNat = v / 64 % 0x40 + 0x80 :=
      toNat_ofNat (by omega)
    have hthird : (UInt8.ofNat (v % 0x40 + 0x80)).toNat = v % 0x40 + 0x80 := toNat_ofNat (by omega)
    have hfirst := first_three (show 0xE0 ≤ v / 4096 % 0x10 + 0xe0 by omega) (by omega)
    generalize hlower : (if v / 4096 % 0x10 + 0xe0 = 0xE0 then 0xA0 else 0x80) = lower at hfirst
    generalize hupper : (if v / 4096 % 0x10 + 0xe0 = 0xED then 0x9F else 0xBF) = upper at hfirst
    have hmore : feed (some ⟨2, lower, upper, (v / 4096 % 0x10 + 0xe0) % 0x10⟩)
        (v / 64 % 0x40 + 0x80) = ([], some ⟨1, 0x80, 0xBF, v / 64⟩) := by
      -- the tighter bounds keep out the short spellings and the surrogates
      rw [feed_more (by split at hlower <;> omega) (by split at hupper <;> omega) (by decide)]
      have hpoint : (v / 4096 % 0x10 + 0xe0) % 0x10 * 0x40 + (v / 64 % 0x40 + 0x80) % 0x40 =
          v / 64 := by omega
      rw [hpoint]
    have hlast : feed (some ⟨1, 0x80, 0xBF, v / 64⟩) (v % 0x40 + 0x80) = ([c], none) := by
      rw [feed_last (by omega) (by omega)]
      have hpoint : v / 64 * 0x40 + (v % 0x40 + 0x80) % 0x40 = v := by omega
      rw [hpoint, hchar]
    simp only [List.cons_append, List.nil_append, decodeFrom_cons, hlead, hsecond, hthird,
      feed_none, hfirst, hmore, hlast]
  · next h₁ h₂ h₃ =>
    have hlead : (UInt8.ofNat (v / 262144 % 0x08 + 0xf0)).toNat = v / 262144 % 0x08 + 0xf0 :=
      toNat_ofNat (by omega)
    have hsecond : (UInt8.ofNat (v / 4096 % 0x40 + 0x80)).toNat = v / 4096 % 0x40 + 0x80 :=
      toNat_ofNat (by omega)
    have hthird : (UInt8.ofNat (v / 64 % 0x40 + 0x80)).toNat = v / 64 % 0x40 + 0x80 :=
      toNat_ofNat (by omega)
    have hfourth : (UInt8.ofNat (v % 0x40 + 0x80)).toNat = v % 0x40 + 0x80 := toNat_ofNat (by omega)
    have hfirst := first_four (show 0xF0 ≤ v / 262144 % 0x08 + 0xf0 by omega) (by omega)
    generalize hlower : (if v / 262144 % 0x08 + 0xf0 = 0xF0 then 0x90 else 0x80) = lower at hfirst
    generalize hupper : (if v / 262144 % 0x08 + 0xf0 = 0xF4 then 0x8F else 0xBF) = upper at hfirst
    have hmore : feed (some ⟨3, lower, upper, (v / 262144 % 0x08 + 0xf0) % 0x08⟩)
        (v / 4096 % 0x40 + 0x80) = ([], some ⟨2, 0x80, 0xBF, v / 4096⟩) := by
      -- the tighter bounds keep out the short spellings and what lies above the code points
      rw [feed_more (by split at hlower <;> omega) (by split at hupper <;> omega) (by decide)]
      have hpoint : (v / 262144 % 0x08 + 0xf0) % 0x08 * 0x40 + (v / 4096 % 0x40 + 0x80) % 0x40 =
          v / 4096 := by omega
      rw [hpoint]
    have hmore' : feed (some ⟨2, 0x80, 0xBF, v / 4096⟩) (v / 64 % 0x40 + 0x80) =
        ([], some ⟨1, 0x80, 0xBF, v / 64⟩) := by
      rw [feed_more (by omega) (by omega) (by decide)]
      have hpoint : v / 4096 * 0x40 + (v / 64 % 0x40 + 0x80) % 0x40 = v / 64 := by omega
      rw [hpoint]
    have hlast : feed (some ⟨1, 0x80, 0xBF, v / 64⟩) (v % 0x40 + 0x80) = ([c], none) := by
      rw [feed_last (by omega) (by omega)]
      have hpoint : v / 64 * 0x40 + (v % 0x40 + 0x80) % 0x40 = v := by omega
      rw [hpoint, hchar]
    simp only [List.cons_append, List.nil_append, decodeFrom_cons, hlead, hsecond, hthird, hfourth,
      feed_none, hfirst, hmore, hmore', hlast]

/-- A text is the decoding of its bytes. -/
theorem decode_encode (s : String) : decode s.toUTF8.data.toList = s.toList := by
  have hbytes : ∀ l : List Char, decodeFrom none (l.flatMap String.utf8EncodeChar) = l := by
    intro l
    induction l with
    | nil => rfl
    | cons c l ih => rw [List.flatMap_cons, decodeFrom_encodeChar, ih]
  have hdata : s.toUTF8.data.toList = s.toList.flatMap String.utf8EncodeChar := by
    have h : s.toList.utf8Encode = s.toUTF8 := String.utf8Encode_toList
    rw [← h, List.utf8Encode, List.toList_data_toByteArray]
  rw [decode, hdata, hbytes]

end PaseoGateway.Utf8Decoder

/-
  PaseoGateway/Base64Url.lean
  ===========================
  **The base64url text of bytes reads back.**

  Every character that `base64UrlEncode` writes stands for its sextet
  (`idxOf_base64UrlChar`), and the sextets of three bytes give the bytes again, so what
  is encoded is decoded to itself (`fromBase64Url_encode`).
-/
import Mathlib

namespace PaseoGateway

def base64UrlAlphabet : List Char :=
  "ABCDEFGHIJKLMNOPQRSTUVWXYZabcdefghijklmnopqrstuvwxyz0123456789-_".toList

def base64UrlChar (sextet : Nat) : Char := base64UrlAlphabet.getD sextet 'A'

def base64UrlEncode : List UInt8 → List Char
  | [] => []
  | [a] => [base64UrlChar (a.toNat / 4), base64UrlChar (a.toNat % 4 * 16)]
  | [a, b] =>
    [base64UrlChar (a.toNat / 4),
     base64UrlChar (a.toNat % 4 * 16 + b.toNat / 16),
     base64UrlChar (b.toNat % 16 * 4)]
  | a :: b :: c :: rest =>
    base64UrlChar (a.toNat / 4) ::
    base64UrlChar (a.toNat % 4 * 16 + b.toNat / 16) ::
    base64UrlChar (b.toNat % 16 * 4 + c.toNat / 64) ::
    base64UrlChar (c.toNat % 64) :: base64UrlEncode rest

/-- Decoding of sextets; a lone trailing sextet and spare low bits are dropped. -/
def base64UrlDecode : List Nat → List UInt8
  | [] => []
  | [_] => []
  | [a, b] => [UInt8.ofNat (a * 4 + b / 16)]
  | [a, b, c] => [UInt8.ofNat (a * 4 + b / 16), UInt8.ofNat (b % 16 * 16 + c / 4)]
  | a :: b :: c :: d :: rest =>
    UInt8.ofNat (a * 4 + b / 16) :: UInt8.ofNat (b % 16 * 16 + c / 4) ::
      UInt8.ofNat (c % 4 * 64 + d) :: base64UrlDecode rest

/-- A character of the alphabet. -/
def isUrlChar (c : Char) : Bool := base64UrlAlphabet.contains c

/-- `Buffer.from(code, "base64url")`, of a text over the alphabet -/
def fromBase64Url (code : List Char) : List UInt8 :=
  base64UrlDecode (code.filterMap fun c => base64UrlAlphabet.idxOf? c)

theorem idxOf_base64UrlChar {n : Nat} (h : n < 64) :
    base64UrlAlphabet.idxOf? (base64UrlChar n) = some n := by
  have hall : ∀ n < 64, base64UrlAlphabet.idxOf? (base64UrlChar n) = some n := by
    decide
  exact hall n h

theorem isUrlChar_base64UrlChar {n : Nat} (h : n < 64) : isUrlChar (base64UrlChar n) = true := by
  rw [isUrlChar, List.contains_iff_mem]
  by_contra hmem
  have hnone := List.idxOf?_eq_none_iff.mpr hmem
  rw [idxOf_base64UrlChar h] at hnone
  cases hnone

/-- A dot and a tilde are no base64url characters. -/
theorem not_isUrlChar : isUrlChar '.' = false ∧ isUrlChar '~' = false := by decide

section Bounds

variable (a b c : UInt8)

theorem sextet_first_lt : a.toNat / 4 < 64 := by
  have ha := a.toNat_lt
  omega

theorem sextet_second_lt : a.toNat % 4 * 16 + b.toNat / 16 < 64 := by
  have hb := b.toNat_lt
  omega

theorem sextet_third_lt : b.toNat % 16 * 4 + c.toNat / 64 < 64 := by
  have hc := c.toNat_lt
  omega

end Bounds

theorem isUrlChar_of_encode {bytes : List UInt8} :
    ∀ c ∈ base64UrlEncode bytes, isUrlChar c = true := by
  fun_induction base64UrlEncode bytes with
  | case1 => simp
  | case2 a =>
    have ha := sextet_first_lt a
    have hlow : a.toNat % 4 * 16 < 64 := by omega
    simp [isUrlChar_base64UrlChar, ha, hlow]
  | case3 a b =>
    have hlow : b.toNat % 16 * 4 < 64 := by omega
    simp [isUrlChar_base64UrlChar, sextet_first_lt, sextet_second_lt, hlow]
  | case4 a b c rest ih =>
    have hlow : c.toNat % 64 < 64 := by omega
    simpa [isUrlChar_base64UrlChar, sextet_first_lt, sextet_second_lt, sextet_third_lt, hlow] using ih

theorem uint8_ofNat_eq {n : Nat} {a : UInt8} (h : n = a.toNat) : UInt8.ofNat n = a := by
  rw [h, UInt8.ofNat_toNat]

/-- What is encoded is decoded to itself. -/
theorem fromBase64Url_encode (bytes : List UInt8) : fromBase64Url (base64UrlEncode bytes) = bytes := by
  unfold fromBase64Url
  fun_induction base64UrlEncode bytes with
  | case1 => rfl
  | case2 a =>
    have hlow : a.toNat % 4 * 16 < 64 := by omega
    simp only [List.filterMap_cons, List.filterMap_nil, idxOf_base64UrlChar (sextet_first_lt a),
      idxOf_base64UrlChar hlow, base64UrlDecode]
    rw [uint8_ofNat_eq (a := a) (by omega)]
  | case3 a b =>
    have hlow : b.toNat % 16 * 4 < 64 := by omega
    have hb := b.toNat_lt
    simp only [List.filterMap_cons, List.filterMap_nil, idxOf_base64UrlChar (sextet_first_lt a),
      idxOf_base64UrlChar (sextet_second_lt a b), idxOf_base64UrlChar hlow, base64UrlDecode]
    rw [uint8_ofNat_eq (a := a) (by omega), uint8_ofNat_eq (a := b) (by omega)]
  | case4 a b c rest ih =>
    have hlow : c.toNat % 64 < 64 := by omega
    have hb := b.toNat_lt
    have hc := c.toNat_lt
    simp only [List.filterMap_cons, idxOf_base64UrlChar (sextet_first_lt a),
      idxOf_base64UrlChar (sextet_second_lt a b), idxOf_base64UrlChar (sextet_third_lt b c),
      idxOf_base64UrlChar hlow, base64UrlDecode]
    rw [ih, uint8_ofNat_eq (a := a) (by omega), uint8_ofNat_eq (a := b) (by omega),
      uint8_ofNat_eq (a := c) (by omega)]

theorem length_base64UrlEncode_le (bytes : List UInt8) :
    (base64UrlEncode bytes).length ≤ 4 * bytes.length := by
  induction bytes using base64UrlEncode.induct with
  | case1 => simp [base64UrlEncode]
  | case2 a => simp [base64UrlEncode]
  | case3 a b => simp [base64UrlEncode]
  | case4 a b c rest ih =>
    simp only [base64UrlEncode, List.length_cons]
    omega

theorem base64UrlEncode_inj {a b : List UInt8} (h : base64UrlEncode a = base64UrlEncode b) :
    a = b := by
  rw [← fromBase64Url_encode a, h, fromBase64Url_encode]

/-- A tilde is no base64url character. -/
theorem tilde_notMem_base64UrlEncode (bytes : List UInt8) : '~' ∉ base64UrlEncode bytes := by
  intro hmem
  have hchar := not_isUrlChar.2
  simp [isUrlChar_of_encode '~' hmem] at hchar

/-! ### Texts as bytes -/

/-- The bytes of a byte array, from the one with number `i` on. -/
private theorem toList_loop (bytes : ByteArray) (i : Nat) (r : List UInt8) :
    ByteArray.toList.loop bytes i r = r.reverse ++ bytes.data.toList.drop i := by
  fun_induction ByteArray.toList.loop bytes i r with
  | case1 i r h ih =>
    have hlt : i < bytes.data.toList.length := by simpa using h
    rw [ih, List.drop_eq_getElem_cons hlt]
    simp [ByteArray.get!, getElem!_pos, h]
  | case2 i r h =>
    have hge : bytes.data.toList.length ≤ i := by simpa using h
    rw [List.drop_eq_nil_of_le hge]
    simp

theorem byteArray_toList_eq (bytes : ByteArray) : bytes.toList = bytes.data.toList := by
  rw [ByteArray.toList, toList_loop]
  simp

theorem toUTF8_inj {a b : String} (h : a.toUTF8.toList = b.toUTF8.toList) : a = b := by
  rw [byteArray_toList_eq, byteArray_toList_eq] at h
  have hdata : a.toUTF8.data = b.toUTF8.data := Array.toList_inj.mp h
  exact String.toByteArray_inj.mp (ByteArray.ext hdata)

/-- The text of bytes that were a text. -/
theorem fromUTF8_toUTF8 (s : String) : String.fromUTF8? ⟨s.toUTF8.toList.toArray⟩ = some s := by
  rw [byteArray_toList_eq, Array.toArray_toList, String.fromUTF8?]
  exact dif_pos s.isValidUTF8

end PaseoGateway

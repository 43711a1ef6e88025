/-
  PaseoGateway/IsoInstant.lean
  ============================
  **The ISO 8601 text of an instant, and the order of such texts.**

  An instant is a number of milliseconds since 1970-01-01T00:00:00Z and its text
  is what `Date.prototype.toISOString` prints: proleptic Gregorian date, time of
  day, and an expanded year outside 0 … 9999.  Year and month are found as the
  ECMAScript specification says, as the last ones that do not start later.

  `toISOString_lt` is the point of the module: for instants from 1970 until the
  text needs an expanded year, texts compare as the instants do.  Everything rests
  on two observations: a fixed-width decimal field compares as its number
  (`pad_append_lt`), and the last period that has started, with the time passed
  since its start, compares as the instant (`greedy_lt`).
-/
import Mathlib

namespace PaseoGateway.Iso

/-! ### Fixed-width decimal fields -/

/-- `String(n).padStart(width, "0")` -/
def pad (width n : Nat) : List Char := (Nat.toDigits 10 n).leftpad width '0'

theorem ofDigitChars_pad (width n : Nat) : Nat.ofDigitChars 10 (pad width n) 0 = n := by
  rw [pad, List.leftpad, Nat.ofDigitChars_append, Nat.ofDigitChars_replicate_zero,
    Nat.mul_zero, Nat.ofDigitChars_toDigits (by decide) (by decide)]

theorem isDigit_of_mem_pad {width n : Nat} {c : Char} (h : c ∈ pad width n) :
    c.isDigit = true := by
  rw [pad, List.leftpad] at h
  rcases List.mem_append.mp h with hzero | hdigit
  · rw [List.eq_of_mem_replicate hzero]
    decide
  · exact Nat.isDigit_of_mem_toDigits (by decide) (by decide) hdigit

theorem length_pad {width n : Nat} (hw : 0 < width) (h : n < 10 ^ width) :
    (pad width n).length = width := by
  have hlen := (Nat.length_toDigits_le_iff (b := 10) (by decide) hw).mpr h
  rw [pad, List.leftpad, List.length_append, List.length_replicate]
  omega

theorem toNat_of_isDigit {c : Char} (h : c.isDigit = true) : 48 ≤ c.toNat ∧ c.toNat ≤ 57 := by
  simp only [Char.isDigit, Bool.and_eq_true, decide_eq_true_eq] at h
  exact h

theorem ofDigitChars_lt_pow {l : List Char} (h : ∀ c ∈ l, c.isDigit = true) :
    Nat.ofDigitChars 10 l 0 < 10 ^ l.length := by
  induction l with
  | nil => simp
  | cons c l ih =>
    have hl := ih fun d hd => h d (List.mem_cons_of_mem c hd)
    obtain ⟨_, hc⟩ := toNat_of_isDigit (h c List.mem_cons_self)
    have hmul : 10 ^ l.length * (c.toNat - '0'.toNat) ≤ 10 ^ l.length * 9 := by
      apply Nat.mul_le_mul_left
      have hzero : '0'.toNat = 48 := rfl
      omega
    rw [Nat.ofDigitChars_cons, Nat.ofDigitChars_eq_ofDigitChars_zero, List.length_cons,
      Nat.pow_succ, Nat.mul_zero, Nat.zero_add]
    omega

/-- Digit strings of one length compare as the numbers they spell. -/
theorem lt_of_ofDigitChars_lt {l l' : List Char} (hl : ∀ c ∈ l, c.isDigit = true)
    (hl' : ∀ c ∈ l', c.isDigit = true) (hlen : l.length = l'.length)
    (h : Nat.ofDigitChars 10 l 0 < Nat.ofDigitChars 10 l' 0) : l < l' := by
  induction l generalizing l' with
  | nil =>
    cases l' with
    | nil => simp at h
    | cons c' l' => simp at hlen
  | cons c l ih =>
    cases l' with
    | nil => simp at hlen
    | cons c' l' =>
      have hlens : l.length = l'.length := by simpa using hlen
      have htail := fun d hd => hl d (List.mem_cons_of_mem c hd)
      have htail' := fun d hd => hl' d (List.mem_cons_of_mem c' hd)
      have hlt' := ofDigitChars_lt_pow htail'
      obtain ⟨hc, _⟩ := toNat_of_isDigit (hl c List.mem_cons_self)
      obtain ⟨hc', _⟩ := toNat_of_isDigit (hl' c' List.mem_cons_self)
      rw [Nat.ofDigitChars_cons, Nat.ofDigitChars_eq_ofDigitChars_zero, Nat.ofDigitChars_cons,
        Nat.ofDigitChars_eq_ofDigitChars_zero (l := l'), Nat.mul_zero, Nat.zero_add,
        Nat.zero_add, hlens] at h
      have hzero : '0'.toNat = 48 := rfl
      rw [hzero] at h
      rw [List.cons_lt_cons_iff]
      rcases Nat.lt_trichotomy c.toNat c'.toNat with hlt | heq | hgt
      · exact .inl hlt
      · rw [heq] at h
        exact .inr ⟨Char.toNat_inj.mp heq, ih htail htail' hlens (by omega)⟩
      · -- a larger first digit outweighs whatever follows
        have hmul : 10 ^ l'.length * (c'.toNat - 48 + 1) ≤ 10 ^ l'.length * (c.toNat - 48) := by
          apply Nat.mul_le_mul_left
          omega
        rw [Nat.mul_add, Nat.mul_one] at hmul
        omega

theorem append_lt_append {l l' x y : List Char} (hlen : l.length = l'.length) (h : l < l') :
    l ++ x < l' ++ y := by
  induction l generalizing l' with
  | nil =>
    cases l' with
    | nil => exact absurd h (by simp)
    | cons c' l' => simp at hlen
  | cons c l ih =>
    cases l' with
    | nil => simp at hlen
    | cons c' l' =>
      rw [List.cons_append, List.cons_append, List.cons_lt_cons_iff]
      rw [List.cons_lt_cons_iff] at h
      rcases h with hlt | ⟨heq, htail⟩
      · exact .inl hlt
      · exact .inr ⟨heq, ih (by simpa using hlen) htail⟩

theorem append_lt_append_left {l x y : List Char} (h : x < y) : l ++ x < l ++ y := by
  induction l with
  | nil => exact h
  | cons c l ih =>
    rw [List.cons_append, List.cons_append, List.cons_lt_cons_iff]
    exact .inr ⟨rfl, ih⟩

/-- A field decides the order unless it is the same; then what follows it does. -/
theorem pad_append_lt {width n n' : Nat} {x y : List Char} (hw : 0 < width)
    (hn : n < 10 ^ width) (hn' : n' < 10 ^ width) (h : n < n' ∨ (n = n' ∧ x < y)) :
    pad width n ++ x < pad width n' ++ y := by
  rcases h with hlt | ⟨rfl, hrest⟩
  · apply append_lt_append
    · rw [length_pad hw hn, length_pad hw hn']
    · apply lt_of_ofDigitChars_lt (fun _ hc => isDigit_of_mem_pad hc)
        (fun _ hc => isDigit_of_mem_pad hc)
      · rw [length_pad hw hn, length_pad hw hn']
      · rw [ofDigitChars_pad, ofDigitChars_pad]
        exact hlt
  · exact append_lt_append_left hrest

/-! ### The last period that has started -/

/-- The last of the periods `0 … bound` that does not start after `n`. -/
def greedy (start : Nat → Nat) (bound n : Nat) : Nat :=
  Nat.findGreatest (fun k => start k ≤ n) bound

theorem start_greedy_le {start : Nat → Nat} (h0 : start 0 = 0) (bound n : Nat) :
    start (greedy start bound n) ≤ n :=
  Nat.findGreatest_spec (P := fun k => start k ≤ n) (Nat.zero_le bound) (by omega)

/-- Period and time passed in it compare as the instant. -/
theorem greedy_lt {start : Nat → Nat} (h0 : start 0 = 0) {bound bound' n n' : Nat}
    (hbound : bound ≤ bound') (h : n < n') :
    greedy start bound n < greedy start bound' n' ∨
      (greedy start bound n = greedy start bound' n' ∧
        n - start (greedy start bound n) < n' - start (greedy start bound' n')) := by
  have hle : greedy start bound n ≤ greedy start bound' n' :=
    Nat.findGreatest_mono (fun k hk => Nat.le_trans hk (Nat.le_of_lt h)) hbound
  rcases Nat.lt_or_eq_of_le hle with hlt | heq
  · exact .inl hlt
  · refine .inr ⟨heq, ?_⟩
    have hstart := start_greedy_le h0 bound n
    rw [← heq]
    omega

/-! ### Dates -/

/-- Days before January 1st of a year, counted from year 0. -/
def yearStart (y : Nat) : Nat := 365 * y + (y + 3) / 4 - (y + 99) / 100 + (y + 399) / 400

def isLeap (y : Nat) : Bool := y % 4 == 0 && (y % 100 != 0 || y % 400 == 0)

/-- Days before the first of a month, January being month 0. -/
def monthStart (leap : Bool) (m : Nat) : Nat :=
  [0, 31, 59, 90, 120, 151, 181, 212, 243, 273, 304, 334].getD m 365 +
    if leap && 2 ≤ m then 1 else 0

def yearOf (day : Nat) : Nat := greedy yearStart (day / 365) day

def monthOf (leap : Bool) (dayOfYear : Nat) : Nat := greedy (monthStart leap) 11 dayOfYear

/-- `-MM-DD` -/
def monthText (leap : Bool) (dayOfYear : Nat) : List Char :=
  let m := monthOf leap dayOfYear
  '-' :: (pad 2 (m + 1) ++ '-' :: pad 2 (dayOfYear - monthStart leap m + 1))

/-- `Thh:mm:ss.sssZ` -/
def timeText (ms : Nat) : List Char :=
  'T' :: (pad 2 (ms / 3600000) ++ ':' :: (pad 2 (ms % 3600000 / 60000) ++
    ':' :: (pad 2 (ms % 60000 / 1000) ++ '.' :: (pad 3 (ms % 1000) ++ ['Z']))))

/-- Years outside 0 … 9999 are written with a sign and six digits. -/
def yearText (y : Int) : List Char :=
  if 0 ≤ y ∧ y ≤ 9999 then pad 4 y.toNat
  else (if y < 0 then '-' else '+') :: pad 6 y.natAbs

/-- 700 cycles of 400 years bring every time value to a positive year without
    changing month, day or leap years. -/
def cycles : Nat := 280000

/-- Days from January 1st of year −280000 to the epoch. -/
def epochDay : Nat := yearStart (cycles + 1970)

def msPerDay : Nat := 86400000

/-- The text of the `n`-th millisecond since January 1st of year −280000. -/
def textOf (n : Nat) : List Char :=
  let day := n / msPerDay
  let y := yearOf day
  yearText (y - cycles) ++ (monthText (isLeap y) (day - yearStart y) ++ timeText (n % msPerDay))

def toISOString (t : Int) : String := String.ofList (textOf (t + epochDay * msPerDay).toNat)

example : [1700000000000, -1, 253402300800000].map toISOString =
    ["2023-11-14T22:13:20.000Z", "1969-12-31T23:59:59.999Z", "+010000-01-01T00:00:00.000Z"] := by
  rfl

/-! ### Texts compare as instants -/

theorem timeText_lt {a b : Nat} (hb : b < msPerDay) (h : a < b) : timeText a < timeText b := by
  simp only [msPerDay] at hb
  unfold timeText
  refine List.cons_lt_cons_iff.mpr (.inr ⟨rfl, ?_⟩)
  apply pad_append_lt (by decide) (by omega) (by omega)
  rcases Nat.lt_or_ge (a / 3600000) (b / 3600000) with hhour | hhour
  · exact .inl hhour
  refine .inr ⟨by omega, List.cons_lt_cons_iff.mpr (.inr ⟨rfl, ?_⟩)⟩
  apply pad_append_lt (by decide) (by omega) (by omega)
  rcases Nat.lt_or_ge (a % 3600000 / 60000) (b % 3600000 / 60000) with hminute | hminute
  · exact .inl hminute
  refine .inr ⟨by omega, List.cons_lt_cons_iff.mpr (.inr ⟨rfl, ?_⟩)⟩
  apply pad_append_lt (by decide) (by omega) (by omega)
  rcases Nat.lt_or_ge (a % 60000 / 1000) (b % 60000 / 1000) with hsecond | hsecond
  · exact .inl hsecond
  refine .inr ⟨by omega, List.cons_lt_cons_iff.mpr (.inr ⟨rfl, ?_⟩)⟩
  exact pad_append_lt (by decide) (by omega) (by omega) (.inl (by omega))

/-- A day of a year falls in one of twelve months, at most 31 days after its start. -/
theorem monthOf_bounds (leap : Bool) : ∀ n < 366,
    monthOf leap n < 12 ∧ n - monthStart leap (monthOf leap n) < 32 := by
  cases leap <;> decide +kernel

theorem length_monthText {leap : Bool} {n : Nat} (h : n < 366) :
    (monthText leap n).length = 6 := by
  obtain ⟨hmonth, hday⟩ := monthOf_bounds leap n h
  simp only [monthText, List.length_cons, List.length_append]
  rw [length_pad (by decide) (by omega), length_pad (by decide) (by omega)]

theorem monthText_lt {leap : Bool} {a b : Nat} (hb : b < 366) (h : a < b) :
    monthText leap a < monthText leap b := by
  obtain ⟨hmonth, hday⟩ := monthOf_bounds leap a (by omega)
  obtain ⟨hmonth', hday'⟩ := monthOf_bounds leap b hb
  have hstart : monthStart leap 0 = 0 := by
    cases leap <;> rfl
  unfold monthText
  refine List.cons_lt_cons_iff.mpr (.inr ⟨rfl, ?_⟩)
  apply pad_append_lt (by decide) (by omega) (by omega)
  rcases greedy_lt hstart (Nat.le_refl 11) h with hlt | ⟨heq, hrest⟩
  · exact .inl (Nat.succ_lt_succ hlt)
  · refine .inr ⟨congrArg (· + 1) heq, List.cons_lt_cons_iff.mpr (.inr ⟨rfl, ?_⟩)⟩
    have hpad : pad 2 (a - monthStart leap (monthOf leap a) + 1) ++ [] <
        pad 2 (b - monthStart leap (monthOf leap b) + 1) ++ [] :=
      pad_append_lt (by decide) (by omega) (by omega) (.inl (Nat.succ_lt_succ hrest))
    simpa using hpad

theorem dayOfYear_lt (day : Nat) : day - yearStart (yearOf day) < 366 := by
  rcases Nat.lt_or_ge (yearOf day) (day / 365) with hlt | hge
  · -- the next year has not started yet
    have hnext : ¬ yearStart (yearOf day + 1) ≤ day :=
      Nat.findGreatest_is_greatest (P := fun k => yearStart k ≤ day) (Nat.lt_succ_self _) hlt
    simp only [yearStart] at hnext ⊢
    omega
  · simp only [yearStart]
    omega

/-- From 1970 to the end of 9999 the year needs four digits. -/
theorem yearOf_bounds {day : Nat} (h : epochDay ≤ day) (h' : day < yearStart (cycles + 10000)) :
    cycles ≤ yearOf day ∧ yearOf day < cycles + 10000 := by
  constructor
  · apply Nat.le_findGreatest
    · simp only [epochDay, yearStart, cycles] at h ⊢
      omega
    · simp only [epochDay, yearStart, cycles] at h ⊢
      omega
  · by_contra hge
    have hstart : yearStart (yearOf day) ≤ day := start_greedy_le rfl _ _
    simp only [yearStart, cycles] at hstart h' hge
    omega

theorem yearText_of_bounds {y : Nat} (h : cycles ≤ y) (h' : y < cycles + 10000) :
    yearText (y - cycles) = pad 4 (y - cycles) := by
  have hnat : ((y : Int) - cycles).toNat = y - cycles := by omega
  unfold yearText
  rw [if_pos (by omega), hnat]

theorem textOf_lt {n n' : Nat} (h0 : epochDay * msPerDay ≤ n) (h : n < n')
    (h' : n' < yearStart (cycles + 10000) * msPerDay) : textOf n < textOf n' := by
  have hms : msPerDay = 86400000 := rfl
  have hday : epochDay ≤ n / msPerDay := by
    rw [Nat.le_div_iff_mul_le (by decide)]
    exact h0
  have hday' : n' / msPerDay < yearStart (cycles + 10000) :=
    Nat.div_lt_of_lt_mul (by rw [Nat.mul_comm]; exact h')
  have hle : n / msPerDay ≤ n' / msPerDay := Nat.div_le_div_right (Nat.le_of_lt h)
  obtain ⟨hlo, hhi⟩ := yearOf_bounds hday (Nat.lt_of_le_of_lt hle hday')
  obtain ⟨hlo', hhi'⟩ := yearOf_bounds (Nat.le_trans hday hle) hday'
  unfold textOf
  simp only
  rw [yearText_of_bounds hlo hhi, yearText_of_bounds hlo' hhi']
  rcases Nat.lt_or_eq_of_le hle with hlt | heq
  · -- another day: the date decides
    apply pad_append_lt (by decide) (by omega) (by omega)
    have hyear0 : yearStart 0 = 0 := rfl
    rcases greedy_lt hyear0 (Nat.div_le_div_right hle) hlt with hyear | ⟨hyear, hrest⟩
    · change yearOf _ < yearOf _ at hyear
      exact .inl (by omega)
    · change yearOf _ = yearOf _ at hyear
      change _ - yearStart (yearOf _) < _ - yearStart (yearOf _) at hrest
      have hfirst := dayOfYear_lt (n / msPerDay)
      have hsecond := dayOfYear_lt (n' / msPerDay)
      refine .inr ⟨by omega, ?_⟩
      rw [← hyear] at hsecond hrest ⊢
      apply append_lt_append
      · rw [length_monthText hfirst, length_monthText hsecond]
      · exact monthText_lt hsecond hrest
  · -- the same day: the time decides
    rw [← heq]
    apply append_lt_append_left
    apply append_lt_append_left
    apply timeText_lt (Nat.mod_lt _ (by decide))
    simp only [hms] at heq ⊢
    omega

/-- The first instant whose text needs an expanded year. -/
def year10000 : Int := 253402300800000

/-- **Texts compare as instants**, from the epoch to the end of year 9999. -/
theorem toISOString_lt {t t' : Int} (h0 : 0 ≤ t) (h : t < t') (h' : t' < year10000) :
    toISOString t < toISOString t' := by
  have hepoch : epochDay * msPerDay = 8898113779200000 := rfl
  have hlast : yearStart (cycles + 10000) * msPerDay = 9151516080000000 := rfl
  rw [year10000] at h'
  rw [toISOString, toISOString, String.lt_iff_toList_lt, String.toList_ofList,
    String.toList_ofList]
  apply textOf_lt
  · rw [hepoch]
    omega
  · omega
  · rw [hlast]
    omega

end PaseoGateway.Iso

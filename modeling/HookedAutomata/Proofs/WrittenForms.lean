import HookedAutomata.Instant.Text
import HookedAutomata.Uuid

/-!
# Written forms are read back

The written form of an identifier and that of an instant are read back as what they were written
for. The readers take more than is ever written, so each part of a written instant is followed
through its own reader: where blanks may stand there are none, and where the number of digits is
open a character follows that is no digit.

Main statements: `Uuid.ofText?_toText`, `Instant.ofText?_toText`.
-/

namespace HookedAutomata

/-! ## Identifiers -/

theorem Hex.length_encode (l : List UInt8) : (encode l).length = 2 * l.length := by
  induction l with
  | nil => rfl
  | cons b l ih =>
    simp only [encode, List.flatMap_cons, List.length_append, List.length_cons] at ih ⊢
    rw [ih, byte]
    simp only [List.length_cons, List.length_nil]
    omega

theorem Uuid.ofHyphenated?_groups {a b c d e : List Char} (ha : a.length = 8) (hb : b.length = 4)
    (hc : c.length = 4) (hd : d.length = 4) (he : e.length = 12) :
    ofHyphenated? (a ++ '-' :: b ++ '-' :: c ++ '-' :: d ++ '-' :: e) =
      ofDigits? (a ++ b ++ c ++ d ++ e) := by
  rw [ofHyphenated?, if_pos]
  · simp [List.drop_append, ha, hb, hc, hd, List.drop_of_length_le]
  · simp [List.getElem?_append, ha, hb, hc, hd, he]

theorem Uuid.ofText?_toText (u : Uuid) : ofText? u.toText = some u := by
  have hlength : (Hex.encode u.bytes).length = 32 := by rw [Hex.length_encode, u.length_bytes]
  have hdigits : ofDigits? (Hex.encode u.bytes) = some u := by
    simp only [ofDigits?, Hex.decode?_encode, ofBytes?, u.length_bytes, dif_pos,
      Option.bind_eq_bind, Option.bind_some]
  simp only [ofText?, toText, String.toList_ofList]
  generalize Hex.encode u.bytes = digits at hlength hdigits
  rw [if_neg (by simp [hlength]), if_pos (by simp [hlength]),
    ofHyphenated?_groups (by simp [hlength]) (by simp [hlength]) (by simp [hlength])
      (by simp [hlength]) (by simp [hlength])]
  -- the groups make up the digits again
  have hjoin (i j : Nat) : (digits.drop i).take j ++ digits.drop (i + j) = digits.drop i := by
    rw [← List.drop_drop, List.take_append_drop]
  rw [List.append_assoc, List.append_assoc, List.append_assoc, hjoin 16 4, hjoin 12 4, hjoin 8 4,
    List.take_append_drop, hdigits]

/-! ## Numbers in decimal digits -/

namespace Text

theorem isBlank_of_isDigit {c : Char} (h : c.isDigit = true) : isBlank c = false := by
  simp only [Char.isDigit, Bool.and_eq_true, decide_eq_true_eq] at h
  have hlow : 0x30 ≤ c.toNat := h.1
  have hhigh : c.toNat ≤ 0x39 := h.2
  simp [isBlank]
  omega

theorem dropBlank_cons {c : Char} (h : isBlank c = false) (l : List Char) :
    dropBlank (c :: l) = c :: l := by
  rw [dropBlank, List.dropWhile_cons_of_neg (by simp [h])]

end Text

namespace Instant

variable {width n : Nat} {c : Char} {rest : List Char}

theorem isDigit_of_mem_padded (h : c ∈ padded width n) : c.isDigit = true := by
  rcases List.mem_append.1 h with h | h
  · rw [List.eq_of_mem_replicate h]
    rfl
  · exact Nat.isDigit_of_mem_toDigits (by decide) (by decide) h

theorem padded_ne_nil (width n : Nat) : padded width n ≠ [] := by
  simp [padded, Nat.toDigits_ne_nil]

/-- A number begins with a digit, so neither with a blank nor with a sign. -/
theorem exists_padded_eq_cons (width n : Nat) :
    ∃ c l, padded width n = c :: l ∧ c.isDigit = true := by
  obtain ⟨c, l, h⟩ := List.exists_cons_of_ne_nil (padded_ne_nil width n)
  exact ⟨c, l, h, isDigit_of_mem_padded (h ▸ List.mem_cons_self)⟩

theorem length_padded (hwidth : 0 < width) (h : n < Nat.pow 10 width) :
    (padded width n).length = width := by
  have hle : (Nat.toDigits 10 n).length ≤ width :=
    (Nat.length_toDigits_le_iff (by decide) hwidth).2 h
  rw [padded, List.length_append, List.length_replicate]
  omega

theorem digitsValue_padded (width n : Nat) : digitsValue (padded width n) = n := by
  rw [digitsValue, padded, Nat.ofDigitChars_append, Nat.ofDigitChars_replicate_zero, Nat.mul_zero,
    Nat.ofDigitChars_ten_toDigits]

theorem takeWhile_isDigit_padded (hrest : ∀ c ∈ rest.head?, c.isDigit = false) :
    (padded width n ++ rest).takeWhile Char.isDigit = padded width n := by
  rw [List.takeWhile_append_of_pos fun c => isDigit_of_mem_padded]
  cases rest with
  | nil => simp
  | cons c rest => simp [hrest c (by simp)]

theorem dropBlank_padded : Text.dropBlank (padded width n ++ rest) = padded width n ++ rest := by
  obtain ⟨c, l, h, hc⟩ := exists_padded_eq_cons width n
  rw [h, List.cons_append, Text.dropBlank_cons (Text.isBlank_of_isDigit hc)]

/-- A number of as many digits as are asked for, whatever follows. -/
theorem digits?_padded (hwidth : 0 < width) (h : n < Nat.pow 10 width) :
    digits? width (padded width n ++ rest) = some (n, rest) := by
  have hdigits : ((padded width n ++ rest).take width).takeWhile Char.isDigit = padded width n := by
    have hall := @takeWhile_isDigit_padded width n [] (by simp)
    rw [List.append_nil] at hall
    rw [List.take_left' (length_padded hwidth h), hall]
  rw [digits?, hdigits, if_neg (by simp [padded_ne_nil]), digitsValue_padded, List.drop_left]

/-- A number of no more digits than are asked for, before what is no digit. -/
theorem digits?_padded_of_le {most : Nat} (h : (padded width n ++ rest).length ≤ most)
    (hrest : ∀ c ∈ rest.head?, c.isDigit = false) :
    digits? most (padded width n ++ rest) = some (n, rest) := by
  rw [digits?, List.take_of_length_le h, takeWhile_isDigit_padded hrest,
    if_neg (by simp [padded_ne_nil]), digitsValue_padded, List.drop_left]

/-! ## The parts of an instant -/

theorem part?_padded (h : n < 100) : part? (padded 2 n ++ rest) = some (n, rest) := by
  rw [part?, dropBlank_padded, digits?_padded (by decide) h]

theorem separator?_cons (h : Text.isBlank c = false) : separator? c (c :: rest) = some rest := by
  rw [separator?, Text.dropBlank_cons h]
  exact if_pos rfl

theorem year?_yearText (year : Int) (hrest : ∀ c ∈ rest.head?, c.isDigit = false) :
    year? (yearText year ++ rest) = some (year, rest) := by
  have hsigned : digits? (padded 4 year.natAbs ++ rest).length (padded 4 year.natAbs ++ rest) =
      some (year.natAbs, rest) := digits?_padded_of_le (Nat.le_refl _) hrest
  unfold yearText
  split
  · next h =>
    have hlt : year.toNat < Nat.pow 10 4 := show year.toNat < 10000 by omega
    have hdigits : digits? 4 (padded 4 year.toNat ++ rest) = some (year.toNat, rest) :=
      digits?_padded (by decide) hlt
    obtain ⟨c, l, hl, hc⟩ := exists_padded_eq_cons 4 year.toNat
    rw [year?, dropBlank_padded]
    rw [hl, List.cons_append] at hdigits ⊢
    split
    · next heq =>
      rw [(List.cons.inj heq).1] at hc
      exact absurd hc (by decide)
    · next heq =>
      rw [(List.cons.inj heq).1] at hc
      exact absurd hc (by decide)
    · rw [hdigits]
      exact congrArg (fun y => some (y, rest)) (Int.toNat_of_nonneg h.1)
  · split
    · next hneg =>
      rw [year?, List.cons_append, Text.dropBlank_cons (by decide)]
      simp only [hsigned, Option.map_some]
      exact congrArg (fun y => some (y, rest)) (by omega)
    · next hpos =>
      rw [year?, List.cons_append, Text.dropBlank_cons (by decide)]
      simp only [hsigned, Option.map_some]
      exact congrArg (fun y => some (y, rest)) (by omega)

theorem fraction?_padded (hwidth : 0 < width) (hle : width ≤ 9) (h : n < Nat.pow 10 width)
    (hrest : ∀ c ∈ rest.head?, c.isDigit = false) :
    fraction? ('.' :: (padded width n ++ rest)) = some (n * Nat.pow 10 (9 - width), rest) := by
  have hlength := length_padded hwidth h
  simp only [fraction?]
  rw [takeWhile_isDigit_padded hrest, if_neg (by simp [padded_ne_nil]),
    List.take_of_length_le (by omega), digitsValue_padded, List.drop_left, hlength]

theorem fraction?_fractionText {nanos : Nat} (h : nanos < 1000000000) :
    fraction? (fractionText nanos ++ 'Z' :: rest) = some (nanos, 'Z' :: rest) := by
  have hrest : ∀ c ∈ ('Z' :: rest).head?, c.isDigit = false := by simp
  unfold fractionText
  split
  · next hzero => rw [hzero]; rfl
  split
  · next hmod =>
    have hlt : nanos / 1000000 < Nat.pow 10 3 := show nanos / 1000000 < 1000 by omega
    rw [List.cons_append, fraction?_padded (by decide) (by decide) hlt hrest]
    exact congrArg (fun n => some (n, _)) (Nat.div_mul_cancel (Nat.dvd_of_mod_eq_zero hmod))
  split
  · next hmod =>
    have hlt : nanos / 1000 < Nat.pow 10 6 := show nanos / 1000 < 1000000 by omega
    rw [List.cons_append, fraction?_padded (by decide) (by decide) hlt hrest]
    exact congrArg (fun n => some (n, _)) (Nat.div_mul_cancel (Nat.dvd_of_mod_eq_zero hmod))
  · rw [List.cons_append, fraction?_padded (by decide) (by decide) h hrest]
    exact congrArg (fun n => some (n, _)) (Nat.mul_one nanos)

end Instant

/-! ## Instants -/

theorem CivilTime.daysInMonth_le (year : Int) (month : Nat) : daysInMonth year month ≤ 31 := by
  unfold daysInMonth
  split
  · split <;> decide
  all_goals decide

/-- The bounds of the parts of a time that exists. -/
theorem CivilTime.bounds {t : CivilTime} (h : t.isValid = true) :
    t.year.natAbs < 1000000 ∧ t.month < 100 ∧ t.day < 100 ∧ t.hour < 24 ∧ t.minute < 60 ∧
      t.second < 100 ∧ t.nanos < 1000000000 := by
  simp only [isValid, Bool.and_eq_true, decide_eq_true_eq] at h
  have hday := daysInMonth_le t.year t.month
  omega

/-- In universal time nothing is to be added or taken off. -/
theorem CivilTime.minutesEarlier_zero {t : CivilTime} (hhour : t.hour < 24)
    (hminute : t.minute < 60) : t.minutesEarlier 0 = t := by
  obtain ⟨year, month, day, hour, minute, second, nanos⟩ := t
  simp only [minutesEarlier, atMinute] at *
  rw [if_neg (by omega), if_neg (by omega)]
  congr 1 <;> omega

namespace Instant

theorem civil?_toText (t : Instant) : civil? t.toText.toList = some (t.civil, 0, []) := by
  obtain ⟨-, hmonth, hday, hhour, hminute, hsecond, hnanos⟩ := CivilTime.bounds t.valid
  have hhyphen (l : List Char) : separator? '-' ('-' :: l) = some l := separator?_cons (by decide)
  have hcolon (l : List Char) : separator? ':' (':' :: l) = some l := separator?_cons (by decide)
  have hhour : t.civil.hour < 100 := by omega
  have hminute : t.civil.minute < 100 := by omega
  simp only [toText, String.toList_ofList, List.append_assoc, List.cons_append, civil?]
  rw [year?_yearText _ (by simp)]
  simp only [Option.bind_eq_bind, Option.bind_some, hhyphen, hcolon, dateEnd?, part?_padded,
    fraction?_fractionText, hmonth, hday, hhour, hminute, hsecond, hnanos]
  rfl

theorem ofText?_toText (t : Instant) : ofText? t.toText = some t := by
  obtain ⟨-, -, -, hhour, hminute, -, -⟩ := CivilTime.bounds t.valid
  rw [ofText?, civil?_toText]
  simp only [Option.bind_eq_bind, Option.bind_some]
  rw [if_pos ⟨t.valid, rfl⟩, CivilTime.minutesEarlier_zero hhour hminute]
  exact dif_pos t.valid

theorem length_yearText_le {year : Int} (h : year.natAbs < 1000000) :
    (yearText year).length ≤ 7 := by
  have hdigits {n : Nat} (hn : n < 1000000) : (padded 4 n).length ≤ 6 := by
    have hle := (Nat.length_toDigits_le_iff (b := 10) (k := 6) (by decide) (by decide)).2 hn
    rw [padded, List.length_append, List.length_replicate]
    omega
  unfold yearText
  split
  · exact Nat.le_succ_of_le (hdigits (by omega))
  · exact Nat.succ_le_succ (hdigits h)

theorem length_fractionText_le {nanos : Nat} (h : nanos < 1000000000) :
    (fractionText nanos).length ≤ 10 := by
  have hpoint {width n : Nat} (hwidth : 0 < width) (hle : width ≤ 9) (hn : n < Nat.pow 10 width) :
      ('.' :: padded width n).length ≤ 10 := by
    rw [List.length_cons, length_padded hwidth hn]
    omega
  unfold fractionText
  split
  · exact Nat.zero_le _
  split
  · exact hpoint (by decide) (by decide) (show nanos / 1000000 < 1000 by omega)
  split
  · exact hpoint (by decide) (by decide) (show nanos / 1000 < 1000000 by omega)
  · exact hpoint (by decide) (by decide) h

theorem length_toText_le (t : Instant) : t.toText.toList.length ≤ 33 := by
  obtain ⟨hyear, hmonth, hday, hhour, hminute, hsecond, hnanos⟩ := CivilTime.bounds t.valid
  have htwo {n : Nat} (h : n < 100) : (padded 2 n).length = 2 := length_padded (by decide) h
  have hyear := length_yearText_le hyear
  have hnanos := length_fractionText_le hnanos
  simp only [toText, String.toList_ofList, List.length_append, List.length_cons, List.length_nil,
    htwo hmonth, htwo hday, htwo (show t.civil.hour < 100 by omega),
    htwo (show t.civil.minute < 100 by omega), htwo hsecond]
  omega

end Instant

end HookedAutomata

import ZephyrApp.DecimalText

/-!
# Decimal fractions as text

An integer, a point and a number padded with zeros to a fixed width, as `%d` and
`%0nd` print them. Read back as an exact decimal, the text is the integer with the
fraction on the far side of zero; an integer that is zero has no sign to lend it.
-/

namespace ZephyrApp.FixedPointText

open MachineBytes DecimalText

/-- An integer as `%d` prints it. -/
def intText (n : ℤ) : List Byte :=
  if n < 0 then 0x2D::decimalText n.natAbs else decimalText n.natAbs

/-- A number with zeros before it up to a width. -/
def padded (width n : ℕ) : List Byte :=
  List.replicate (width-(decimalText n).length) (digitByte 0)++decimalText n

/-- An integer, a point and a padded number. -/
def fixedText (whole : ℤ) (width frac : ℕ) : List Byte := intText whole++0x2E::padded width frac

/-- The number that digits with a point among them stand for. -/
def magnitude (text : List Byte) : ℚ :=
  let frac := (text.dropWhile isDigit).tail
  digitsValue text+(digitsValue frac : ℚ)/10^frac.length

/-- The exact decimal that a text stands for. -/
def decimalValue (text : List Byte) : ℚ :=
  if text.head?=some 0x2D then -magnitude text.tail else magnitude text

section Lengths

/-- A number below a power of ten has at most so many digits, and one at least. -/
theorem decimalText_length_le {n k : ℕ} (hk : 0 < k) (hn : n < 10^k) :
    (decimalText n).length≤k := by
  rw [decimalText]
  split
  · exact hk
  · rw [List.length_map,List.length_reverse]
    exact (Nat.digits_length_le_iff (by omega) n).mpr hn

/-- A number that fits its width fills it. -/
theorem padded_length {width n : ℕ} (hwidth : 0 < width) (hn : n < 10^width) :
    (padded width n).length=width := by
  have hlen := decimalText_length_le hwidth hn
  rw [padded,List.length_append,List.length_replicate]
  omega

end Lengths

section Values

variable {n : ℕ}

/-- Zeros before a number keep its value. -/
theorem digitsValue_padded (width n : ℕ) : digitsValue (padded width n)=n := by
  have hzeros : ∀ k,digitsValue (List.replicate k (digitByte 0)++decimalText n)=n := by
    intro k
    induction k with
    | zero =>
      have h := digitsValue_decimalText n [] fun c hc => nomatch hc
      rwa [List.append_nil] at h
    | succ k ih =>
      rw [List.replicate_succ,List.cons_append,digitsValue,
        List.takeWhile_cons_of_pos (isDigit_digitByte (by omega)),List.foldl_cons]
      exact ih
  exact hzeros _

/-- What a number before a point stands for. -/
theorem magnitude_fixed (whole : ℕ) {width frac : ℕ} (hwidth : 0 < width)
    (hfrac : frac < 10^width) :
    magnitude (decimalText whole++0x2E::padded width frac)=whole+(frac : ℚ)/10^width := by
  have hpoint : isDigit (0x2E : Byte)=false := by decide
  have hrest : (decimalText whole++0x2E::padded width frac).dropWhile isDigit=
      0x2E::padded width frac := by
    rw [List.dropWhile_append_of_pos fun c hc => isDigit_of_mem hc,
      List.dropWhile_cons_of_neg (by rw [hpoint]; exact Bool.false_ne_true)]
  have hwhole := digitsValue_decimalText whole (0x2E::padded width frac)
    fun c hc => Option.some.inj hc▸hpoint
  simp only [magnitude]
  rw [hrest,List.tail_cons,hwhole,digitsValue_padded,padded_length hwidth hfrac]

/-- A printed number does not start with a sign. -/
theorem decimalText_head (n : ℕ) (tail : List Byte) :
    (decimalText n++tail).head?≠some 0x2D := by
  obtain ⟨c,rest,htext,-⟩ := decimalText_cons n
  have hc : isDigit c=true := isDigit_of_mem (htext▸List.mem_cons_self)
  rw [htext]
  rintro h
  obtain rfl := Option.some.inj h
  exact absurd hc (by decide)

/-- A text with an integer that is not negative stands for the sum. -/
theorem decimalValue_fixed {whole : ℤ} (hwhole : 0≤whole) {width frac : ℕ} (hwidth : 0 < width)
    (hfrac : frac < 10^width) :
    decimalValue (fixedText whole width frac)=whole+(frac : ℚ)/10^width := by
  obtain ⟨n,rfl⟩ := Int.eq_ofNat_of_zero_le hwhole
  rw [fixedText,intText,if_neg (not_lt.mpr hwhole),decimalValue,if_neg (decimalText_head _ _),
    magnitude_fixed _ hwidth hfrac,Int.natAbs_natCast,Int.cast_natCast]

/-- A text with a negative integer stands for the difference. -/
theorem decimalValue_fixed_neg {whole : ℤ} (hwhole : whole < 0) {width frac : ℕ}
    (hwidth : 0 < width) (hfrac : frac < 10^width) :
    decimalValue (fixedText whole width frac)=whole-(frac : ℚ)/10^width := by
  obtain ⟨n,rfl⟩ := Int.exists_eq_neg_ofNat hwhole.le
  rw [fixedText,intText,if_pos hwhole,decimalValue,List.cons_append,List.head?_cons,if_pos rfl,
    List.tail_cons,magnitude_fixed _ hwidth hfrac,Int.natAbs_neg,Int.natAbs_natCast,Int.cast_neg,
    Int.cast_natCast]
  ring

end Values

end ZephyrApp.FixedPointText

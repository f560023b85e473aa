import ZephyrApp.MachineBytes

/-!
# Decimal numbers as text

Printing a natural number in base ten, as `%d` does, and reading a number from
text, as `strtol` does in base ten with a 32-bit result: leading white space,
one sign and the digits up to the first byte that is none. The digits of a
printed number are read as that number.
-/

namespace ZephyrApp.DecimalText

open MachineBytes

/-- The character of a digit. -/
def digitByte (d : ℕ) : Byte := BitVec.ofNat 8 (0x30+d)

/-- A natural number as `%d` prints it. -/
def decimalText (n : ℕ) : List Byte :=
  if n=0 then [digitByte 0] else (Nat.digits 10 n).reverse.map digitByte

/-- `isspace`. -/
def isSpace (c : Byte) : Bool := c=0x20 ∨ 0x09≤c.toNat ∧ c.toNat≤0x0D

/-- `isdigit`. -/
def isDigit (c : Byte) : Bool := 0x30≤c.toNat ∧ c.toNat≤0x39

/-- The number that the leading digits stand for. -/
def digitsValue (text : List Byte) : ℕ :=
  (text.takeWhile isDigit).foldl (fun v c => 10*v+(c.toNat-0x30)) 0

/-- A number cut to the range of a 32-bit `long`. -/
def clampLong (v : ℤ) : ℤ := max (-2^31) (min (2^31-1) v)

/-- `strtol` in base ten on the bytes of a string before its end. -/
def strtol (text : List Byte) : ℤ :=
  match text.dropWhile isSpace with
  | [] => 0
  | c::rest =>
    if c=0x2D then clampLong (-(digitsValue rest : ℤ))
    else if c=0x2B then clampLong (digitsValue rest)
    else clampLong (digitsValue (c::rest))

/-- A digit is at its place among the characters. -/
theorem digitByte_toNat {d : ℕ} (h : d < 10) : (digitByte d).toNat=0x30+d := by
  rw [digitByte,BitVec.toNat_ofNat,Nat.mod_eq_of_lt (by omega)]

/-- A digit is a digit. -/
theorem isDigit_digitByte {d : ℕ} (h : d < 10) : isDigit (digitByte d)=true := by
  simp only [isDigit,digitByte_toNat h,decide_eq_true_eq]
  omega

/-- Every byte of a printed number is a digit. -/
theorem exists_digit_of_mem {n : ℕ} {c : Byte} (h : c∈decimalText n) :
    ∃ d,d < 10 ∧ c=digitByte d := by
  rw [decimalText] at h
  split at h
  · exact ⟨0,by simp,by simpa using h⟩
  · rw [List.mem_map] at h
    obtain ⟨d,hd,rfl⟩ := h
    exact ⟨d,Nat.digits_lt_base (by simp) (List.mem_reverse.mp hd),rfl⟩

/-- Every byte of a printed number passes the digit test. -/
theorem isDigit_of_mem {n : ℕ} {c : Byte} (h : c∈decimalText n) : isDigit c=true := by
  obtain ⟨d,hd,rfl⟩ := exists_digit_of_mem h
  exact isDigit_digitByte hd

/-- A printed number has a first digit, and a second one from ten on. -/
theorem decimalText_cons (n : ℕ) :
    ∃ c rest,decimalText n=c::rest ∧ (10≤n → rest≠[]) := by
  cases h : decimalText n with
  | nil =>
    rw [decimalText] at h
    split at h
    · simp at h
    · next hn => simp [Nat.digits_eq_nil_iff_eq_zero,hn] at h
  | cons c rest =>
    refine ⟨c,rest,rfl,fun hn hrest => ?_⟩
    have hlen : (decimalText n).length=1 := by rw [h,hrest]; rfl
    rw [decimalText,if_neg (by omega),List.length_map,List.length_reverse] at hlen
    have := (Nat.lt_digits_length_iff (b := 10) (k := 1) (by simp) n).mpr (by omega)
    omega

/-- Folding digits from the left is evaluating them from the last one. -/
theorem foldl_digits (ds : List ℕ) (h : ∀ d∈ds,d < 10) :
    ((ds.reverse.map digitByte).foldl (fun v c => 10*v+(c.toNat-0x30)) 0)=Nat.ofDigits 10 ds := by
  induction ds with
  | nil => rfl
  | cons d ds ih =>
    have hd := digitByte_toNat (h d List.mem_cons_self)
    rw [List.reverse_cons,List.map_append,List.foldl_append,
      ih fun e he => h e (List.mem_cons_of_mem d he)]
    simp only [List.map_cons,List.map_nil,List.foldl_cons,List.foldl_nil,hd,Nat.ofDigits_cons]
    omega

/-- Reading the digits of a printed number gives the number, whatever other
byte follows. -/
theorem digitsValue_decimalText (n : ℕ) (tail : List Byte)
    (htail : ∀ c∈tail.head?,isDigit c=false) : digitsValue (decimalText n++tail)=n := by
  have htake : (decimalText n++tail).takeWhile isDigit=decimalText n := by
    rw [List.takeWhile_append_of_pos fun c hc => isDigit_of_mem hc]
    cases tail with
    | nil => simp
    | cons c tail => simp [htail c rfl]
  rw [digitsValue,htake,decimalText]
  split
  · next h => rw [h]; rfl
  · rw [foldl_digits _ fun d hd => Nat.digits_lt_base (by simp) hd,Nat.ofDigits_digits]

end ZephyrApp.DecimalText

import Mathlib

/-!
# Byte buffers of a C program

A C buffer is the list of its bytes; a pointer into it is the list with the
bytes before it dropped. Fixed-width words are bit vectors, written to and
read from a buffer in big- or little-endian order, and a block move copies
the source range before it stores, so that overlapping ranges are exact.
-/

namespace ZephyrApp.MachineBytes

/-- An eight-bit machine byte. -/
abbrev Byte := BitVec 8

/-- A sixteen-bit machine word. -/
abbrev Half := BitVec 16

/-- A thirty-two-bit machine word. -/
abbrev Word := BitVec 32

/-- The four bytes of a word, most significant first. -/
def sysPutBe32 (w : Word) : List Byte :=
  [w.extractLsb' 24 8,w.extractLsb' 16 8,w.extractLsb' 8 8,w.extractLsb' 0 8]

/-- Equal bytes are the ones that compare equal. -/
scoped instance byteLawfulBEq : LawfulBEq Byte := inferInstance

/-- The bytes of a word are counted from zero. -/
scoped instance neZeroFour : NeZero 4 := ⟨by decide⟩

/-- So are the bytes of a radio address. -/
scoped instance neZeroFive : NeZero 5 := ⟨by decide⟩

/-- The two bytes of a half word, most significant first. -/
def sysPutBe16 (h : Half) : List Byte := [h.extractLsb' 8 8,h.extractLsb' 0 8]

/-- The word whose big-endian bytes start at the given offset. -/
def sysGetBe32 (buf : List Byte) (at_ : ℕ) : Word :=
  buf.getD at_ 0++buf.getD (at_+1) 0++buf.getD (at_+2) 0++buf.getD (at_+3) 0

/-- The half word whose big-endian bytes start at the given offset. -/
def sysGetBe16 (buf : List Byte) (at_ : ℕ) : Half :=
  buf.getD at_ 0++buf.getD (at_+1) 0

/-- The word whose little-endian bytes start at the given offset. -/
def sysGetLe32 (buf : List Byte) (at_ : ℕ) : Word :=
  buf.getD (at_+3) 0++buf.getD (at_+2) 0++buf.getD (at_+1) 0++buf.getD at_ 0

/-- The half word whose little-endian bytes start at the given offset. -/
def sysGetLe16 (buf : List Byte) (at_ : ℕ) : Half :=
  buf.getD (at_+1) 0++buf.getD at_ 0

/-- The four bytes of a word, least significant first. -/
def sysPutLe32 (w : Word) : List Byte := (sysPutBe32 w).reverse

/-- The two bytes of a half word, least significant first. -/
def sysPutLe16 (h : Half) : List Byte := (sysPutBe16 h).reverse

/-- The double word whose little-endian bytes start at the given offset. -/
def sysGetLe64 (buf : List Byte) (at_ : ℕ) : BitVec 64 :=
  sysGetLe32 buf (at_+4)++sysGetLe32 buf at_

/-- The eight bytes of a double word, least significant first. -/
def sysPutLe64 (d : BitVec 64) : List Byte :=
  sysPutLe32 (d.extractLsb' 0 32)++sysPutLe32 (d.extractLsb' 32 32)

/-- Move a block of bytes inside one buffer, source range read first. -/
def memmove (buf : List Byte) (dst src n : ℕ) : List Byte :=
  buf.take dst++(buf.drop src).take n++buf.drop (dst+n)

/-- A number that fits in a word is the word's value. -/
theorem word_toNat {n : ℕ} (h : n < 2^32) : (BitVec.ofNat 32 n).toNat=n := by
  rw [BitVec.toNat_ofNat,Nat.mod_eq_of_lt h]

/-- Four bytes determine their word. -/
theorem sysPutBe32_injective : Function.Injective sysPutBe32 := by
  intro a b h
  simp only [sysPutBe32,List.cons.injEq,and_true] at h
  obtain ⟨h3,h2,h1,h0⟩ := h
  have e3 := congrArg BitVec.toNat h3
  have e2 := congrArg BitVec.toNat h2
  have e1 := congrArg BitVec.toNat h1
  have e0 := congrArg BitVec.toNat h0
  simp only [BitVec.extractLsb'_toNat,Nat.shiftRight_eq_div_pow] at e0 e1 e2 e3
  have ha := a.isLt
  have hb := b.isLt
  apply BitVec.eq_of_toNat_eq
  omega

/-- A word is stored in four bytes. -/
@[simp] theorem sysPutBe32_length (w : Word) : (sysPutBe32 w).length=4 := rfl

/-- A word is stored in four bytes in either order. -/
@[simp] theorem sysPutLe32_length (w : Word) : (sysPutLe32 w).length=4 := rfl

/-- A half word is stored in two bytes. -/
@[simp] theorem sysPutBe16_length (h : Half) : (sysPutBe16 h).length=2 := rfl

/-- A half word is stored in two bytes in either order. -/
@[simp] theorem sysPutLe16_length (h : Half) : (sysPutLe16 h).length=2 := rfl

/-- A half word stored at the front of a buffer is read back from it. -/
theorem sysGetBe16_sysPutBe16 (h : Half) (tail : List Byte) :
    sysGetBe16 (sysPutBe16 h++tail) 0=h := by
  have hlt := h.isLt
  apply BitVec.eq_of_toNat_eq
  simp only [sysGetBe16,sysPutBe16,List.cons_append,List.nil_append,List.getD_cons_zero,
    List.getD_cons_succ,Nat.zero_add,BitVec.toNat_append,BitVec.extractLsb'_toNat,
    Nat.shiftRight_eq_div_pow]
  rw [←Nat.shiftLeft_add_eq_or_of_lt (by omega),Nat.shiftLeft_eq]
  omega

/-- The four bytes of a word, put together again, are the word. -/
theorem append_extractLsb' (w : Word) :
    w.extractLsb' 24 8++w.extractLsb' 16 8++w.extractLsb' 8 8++w.extractLsb' 0 8=w := by
  have hlt := w.isLt
  apply BitVec.eq_of_toNat_eq
  simp only [BitVec.toNat_append,BitVec.extractLsb'_toNat,Nat.shiftRight_eq_div_pow]
  rw [←Nat.shiftLeft_add_eq_or_of_lt (by omega),←Nat.shiftLeft_add_eq_or_of_lt (by omega),
    ←Nat.shiftLeft_add_eq_or_of_lt (by omega),Nat.shiftLeft_eq,Nat.shiftLeft_eq,Nat.shiftLeft_eq]
  omega

/-- A word stored in the middle of a buffer is read back from there. -/
theorem sysGetLe32_sysPutLe32 (w : Word) {before : List Byte} {at_ : ℕ} (h : before.length=at_)
    (tail : List Byte) : sysGetLe32 (before++sysPutLe32 w++tail) at_=w := by
  subst h
  have hget : ∀ i,(before++sysPutLe32 w++tail).getD (before.length+i) 0=
      (sysPutLe32 w++tail).getD i 0 := by
    intro i
    rw [List.append_assoc,List.getD_append_right _ _ _ _ (by omega),Nat.add_sub_cancel_left]
  have hget0 := hget 0
  rw [Nat.add_zero] at hget0
  rw [sysGetLe32,hget,hget,hget,hget0]
  exact append_extractLsb' w

/-- A half word stored in the middle of a buffer is read back from there. -/
theorem sysGetLe16_sysPutLe16 (h : Half) {before : List Byte} {at_ : ℕ} (hat : before.length=at_)
    (tail : List Byte) : sysGetLe16 (before++sysPutLe16 h++tail) at_=h := by
  subst hat
  have hget : ∀ i,(before++sysPutLe16 h++tail).getD (before.length+i) 0=
      (sysPutLe16 h++tail).getD i 0 := by
    intro i
    rw [List.append_assoc,List.getD_append_right _ _ _ _ (by omega),Nat.add_sub_cancel_left]
  have hget0 := hget 0
  rw [Nat.add_zero] at hget0
  rw [sysGetLe16,hget,hget0]
  exact sysGetBe16_sysPutBe16 h []

/-- The two words of a double word, put together again, are the double word. -/
theorem append_extractLsb'_words (d : BitVec 64) :
    d.extractLsb' 32 32++d.extractLsb' 0 32=d := by
  have hlt := d.isLt
  apply BitVec.eq_of_toNat_eq
  simp only [BitVec.toNat_append,BitVec.extractLsb'_toNat,Nat.shiftRight_eq_div_pow]
  rw [←Nat.shiftLeft_add_eq_or_of_lt (by omega),Nat.shiftLeft_eq]
  omega

/-- A double word stored in the middle of a buffer is read back from there. -/
theorem sysGetLe64_sysPutLe64 (d : BitVec 64) {before : List Byte} {at_ : ℕ}
    (h : before.length=at_) (tail : List Byte) :
    sysGetLe64 (before++sysPutLe64 d++tail) at_=d := by
  have hlow := sysGetLe32_sysPutLe32 (d.extractLsb' 0 32) h
    (sysPutLe32 (d.extractLsb' 32 32)++tail)
  have hlen : (before++sysPutLe32 (d.extractLsb' 0 32)).length=at_+4 := by
    rw [List.length_append,h,sysPutLe32_length]
  have hhigh := sysGetLe32_sysPutLe32 (d.extractLsb' 32 32) hlen tail
  rw [sysGetLe64,sysPutLe64,←List.append_assoc,hhigh]
  rw [List.append_assoc (before++_)]
  rw [hlow]
  exact append_extractLsb'_words d

/-- Concatenated bit vectors are equal only part by part. -/
theorem append_eq_append {m n : ℕ} {a a' : BitVec m} {b b' : BitVec n} (h : a++b=a'++b') :
    a=a' ∧ b=b' := by
  have hn := congrArg BitVec.toNat h
  have hb := b.isLt
  have hb' := b'.isLt
  rw [BitVec.toNat_append,BitVec.toNat_append,←Nat.shiftLeft_add_eq_or_of_lt hb,
    ←Nat.shiftLeft_add_eq_or_of_lt hb',Nat.shiftLeft_eq,Nat.shiftLeft_eq] at hn
  have hd := congrArg (·/2^n) hn
  have hm := congrArg (·%2^n) hn
  simp only [Nat.mul_comm _ (2^n),Nat.mul_add_div (Nat.two_pow_pos n),Nat.div_eq_of_lt hb,
    Nat.div_eq_of_lt hb',Nat.add_zero,Nat.mul_add_mod,Nat.mod_eq_of_lt hb,
    Nat.mod_eq_of_lt hb'] at hd hm
  exact ⟨BitVec.eq_of_toNat_eq hd,BitVec.eq_of_toNat_eq hm⟩

/-- The bytes of a word that was put together from four bytes. -/
theorem sysPutBe32_append (b0 b1 b2 b3 : Byte) :
    sysPutBe32 (b0++b1++b2++b3 : Word)=[b0,b1,b2,b3] := by
  have h := append_extractLsb' (b0++b1++b2++b3 : Word)
  obtain ⟨h2,h3⟩ := append_eq_append h
  obtain ⟨h1,h2⟩ := append_eq_append h2
  obtain ⟨h0,h1⟩ := append_eq_append h1
  rw [sysPutBe32,h0,h1,h2,h3]

/-- The bytes of a half word that was put together from two bytes. -/
theorem sysPutBe16_append (b0 b1 : Byte) : sysPutBe16 (b0++b1 : Half)=[b0,b1] := by
  have h := sysGetBe16_sysPutBe16 (b0++b1 : Half) []
  obtain ⟨h0,h1⟩ := append_eq_append (show (b0++b1 : Half).extractLsb' 8 8++
    (b0++b1 : Half).extractLsb' 0 8=(b0++b1 : Half) from h)
  rw [sysPutBe16,h0,h1]

/-- Words read from two buffers agree only when their four bytes do. -/
theorem sysGetBe32_eq {x y : List Byte} {at_ : ℕ} (h : sysGetBe32 x at_=sysGetBe32 y at_) :
    x.getD at_ 0=y.getD at_ 0 ∧ x.getD (at_+1) 0=y.getD (at_+1) 0 ∧
      x.getD (at_+2) 0=y.getD (at_+2) 0 ∧ x.getD (at_+3) 0=y.getD (at_+3) 0 := by
  unfold sysGetBe32 at h
  obtain ⟨h2,h3⟩ := append_eq_append h
  obtain ⟨h1,h2⟩ := append_eq_append h2
  obtain ⟨h0,h1⟩ := append_eq_append h1
  exact ⟨h0,h1,h2,h3⟩

end ZephyrApp.MachineBytes

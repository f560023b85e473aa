import ZephyrApp.DecimalText

/-!
# Internet addresses as text

The two conversions between an address and its text, as far as they belong
together: the text of an address is short, not empty and without zero bytes,
and is read back as the address. Four decimal numbers between dots are a model.
-/

namespace ZephyrApp.InetText

open MachineBytes DecimalText

/-- `INET_ADDRSTRLEN`, the size of a buffer for the text of an address. -/
def inetAddrstrlen : ℕ := 16

/-- The conversions. An address is a word whose first byte is the highest. -/
structure Inet where
  /-- `inet_ntop`, the text without its end. -/
  ntop : Word → List Byte
  /-- `inet_pton` of the text of a string. -/
  pton : List Byte → Option Word

/-- What the conversions promise. -/
structure Inet.Lawful (I : Inet) : Prop where
  /-- Text that was made from an address is read back. -/
  pton_ntop : ∀ a,I.pton (I.ntop a)=some a
  /-- There is no zero byte in it. -/
  plain : ∀ a,∀ b∈I.ntop a,b≠0
  /-- It is not empty. -/
  pos : ∀ a,0 < (I.ntop a).length
  /-- It fits its buffer with the end. -/
  fits : ∀ a,(I.ntop a).length < inetAddrstrlen

/-- The dot. -/
def dot : Byte := 0x2E

/-- A number of a dotted quad: some digits for a number below 256. -/
def quadPart (text : List Byte) : Option Byte :=
  if text≠[] ∧ text.all isDigit=true ∧ digitsValue text < 256 then
    some (BitVec.ofNat 8 (digitsValue text))
  else none

/-- Dotted quads. -/
def dottedQuad : Inet where
  ntop a := [dot].intercalate ((sysPutBe32 a).map fun b => decimalText b.toNat)
  pton text :=
    match (text.splitOn dot).map quadPart with
    | [some b0,some b1,some b2,some b3] => some (b0++b1++b2++b3)
    | _ => none

/-- A printed byte is read back. -/
theorem quadPart_decimalText (b : Byte) : quadPart (decimalText b.toNat)=some b := by
  have hvalue := digitsValue_decimalText b.toNat [] (fun c hc => absurd hc (Option.not_mem_none c))
  rw [List.append_nil] at hvalue
  obtain ⟨c,rest,htext,-⟩ := decimalText_cons b.toNat
  have hdigits : (decimalText b.toNat).all isDigit=true :=
    List.all_eq_true.mpr fun c hc => isDigit_of_mem hc
  rw [quadPart,if_pos ⟨by rw [htext]; exact List.cons_ne_nil c rest,hdigits,by rw [hvalue]; omega⟩,
    hvalue,BitVec.ofNat_toNat,BitVec.setWidth_eq]

/-- A printed byte has one to three digits, none of them zero or a dot. -/
theorem decimalText_byte (b : Byte) : (decimalText b.toNat).length≤3 ∧
    0 < (decimalText b.toNat).length ∧ ∀ c∈decimalText b.toNat,c≠0 ∧ c≠dot := by
  obtain ⟨c,rest,htext,-⟩ := decimalText_cons b.toNat
  refine ⟨?_,by rw [htext]; exact Nat.succ_pos _,fun c hc => ?_⟩
  · rw [decimalText]
    split
    · decide
    · rw [List.length_map,List.length_reverse]
      exact (Nat.digits_length_le_iff (by decide) b.toNat).mpr (by omega)
  · have hdigit := isDigit_of_mem hc
    constructor <;> rintro rfl <;> exact absurd hdigit (by decide)

/-- Dotted quads obey the laws. -/
theorem dottedQuad_lawful : dottedQuad.Lawful where
  pton_ntop a := by
    have hparts : ((dottedQuad.ntop a).splitOn dot).map quadPart=(sysPutBe32 a).map some := by
      simp only [dottedQuad]
      rw [List.splitOn_intercalate dot]
      · rw [List.map_map]
        exact List.map_congr_left fun b _ => quadPart_decimalText b
      · intro l hl hdot
        obtain ⟨b,-,rfl⟩ := List.mem_map.mp hl
        exact ((decimalText_byte b).2.2 dot hdot).2 rfl
      · exact List.cons_ne_nil _ _
    simp only [dottedQuad] at hparts ⊢
    rw [hparts]
    exact congrArg some (append_extractLsb' a)
  plain a c hc := by
    simp only [dottedQuad,sysPutBe32,List.map_cons,List.map_nil,List.intercalate_cons_cons,
      List.intercalate_singleton,List.mem_append,List.mem_singleton] at hc
    have hdigit : ∀ b : Byte,c∈decimalText b.toNat → c≠0 :=
      fun b h => ((decimalText_byte b).2.2 c h).1
    have hdot : c=dot → c≠0 := fun h => by rw [h]; decide
    tauto
  pos a := by
    have h := (decimalText_byte (a.extractLsb' 24 8)).2.1
    simp only [dottedQuad,sysPutBe32,List.map_cons,List.intercalate_cons_cons,List.length_append]
    omega
  fits a := by
    have h0 := (decimalText_byte (a.extractLsb' 24 8)).1
    have h1 := (decimalText_byte (a.extractLsb' 16 8)).1
    have h2 := (decimalText_byte (a.extractLsb' 8 8)).1
    have h3 := (decimalText_byte (a.extractLsb' 0 8)).1
    simp only [dottedQuad,sysPutBe32,List.map_cons,List.map_nil,List.intercalate_cons_cons,
      List.intercalate_singleton,List.length_append,List.length_singleton,inetAddrstrlen]
    omega

end ZephyrApp.InetText

import ZephyrApp.FixedPointText
import ZephyrApp.ScannerPath

/-!
# Scanner values on the handler's display

The parser keeps for every value whether it is valid, 1 or -1, and 0 before the
first frame. The display takes that for an unsigned flag: only zero is shown as
dashes. Values are printed in metres with three decimals, whole part and
fraction each from the negated value where it is negative.
-/

namespace ZephyrApp.ScannerDisplay

open MachineBytes CanFrames DecimalText FixedPointText ScannerPath

section Source

/-- The bytes of a text. -/
def chars (text : List Char) : List Byte := text.map fun c => BitVec.ofNat 8 c.toNat

/-- The dashes of a value that is not valid, with the blank before them. -/
def dashes : List Byte := chars [' ','-','-','-','-','-','-','-','-']

/-- `-value` of an `int32_t`, none where it overflows. -/
def negated (value : ℤ) : Option ℤ := if value=-2^31 then none else some (-value)

/-- The number that `int_to_decimal_str` prints for a valid value, with its unit. -/
def metres (value : ℤ) : Option (List Byte) := do
  if value < 0 then
    let positive ← negated value
    let intPart := -(positive.tdiv 1000)
    let decPart := positive.tmod 1000
    some (fixedText intPart 3 decPart.toNat++chars [' ','m'])
  else some (fixedText (value.tdiv 1000) 3 (value.tmod 1000).toNat++chars [' ','m'])

/-- `int_to_decimal_str`: the text in a line of `len` bytes, none where the
negation overflows. The flag has been converted to `uint8_t`. -/
def intToDecimalStr (value : ℤ) (valid : Byte) (len : ℕ) (label : List Byte) :
    Option (List Byte) :=
  if valid=0 then some ((label++dashes).take (len-1))
  else (metres value).map fun number => (label++number).take (len-1)

/-- The configuration of the scanner rows. -/
structure RowConfig where
  /-- `SCANNER_USE_8x16`. -/
  use8x16 : Bool
  /-- `SHOW_XYZ`. -/
  showXyz : Bool

/-- The values of the scanner rows. -/
inductive Field where
  /-- `overbreak_value`. -/
  | overbreak
  /-- `laser_distance`. -/
  | distance
  /-- `coord_x`. -/
  | x
  /-- `coord_y`. -/
  | y
  /-- `coord_z`. -/
  | z
deriving DecidableEq

/-- The text before a value. -/
def Field.label (cfg : RowConfig) : Field → List Byte
  | .overbreak => if cfg.use8x16 then chars ['O','B',':',' ']
      else chars ['O','v','e','r','B','r','e','a','k',':',' ']
  | .distance => if cfg.use8x16 then chars ['D','i','s',':']
      else chars ['D','i','s','t','a','n','c','e',':',' ',' ']
  | .x => if cfg.use8x16 then chars ['X',':']
      else chars ['X',' ','a','x','i','s',':',' ',' ',' ',' ']
  | .y => if cfg.use8x16 then chars ['Y',':']
      else chars ['Y',' ','a','x','i','s',':',' ',' ',' ',' ']
  | .z => if cfg.use8x16 then chars ['Z',':']
      else chars ['Z',' ','a','x','i','s',':',' ',' ',' ',' ']

/-- A value of the scanner data. -/
def Field.value (s : ScannerData) : Field → ℤ
  | .overbreak => s.overbreakValue
  | .distance => s.laserDistance
  | .x => s.coordX
  | .y => s.coordY
  | .z => s.coordZ

/-- Whether it is valid. -/
def Field.valid (s : ScannerData) : Field → ℤ
  | .overbreak => s.overbreakValid
  | .distance => s.laserValid
  | .x => s.coordXyValid
  | .y => s.coordXyValid
  | .z => s.coordZValid

/-- The values whose texts are written, in order. Without coordinates the small
font writes the line of the distance again, twice. -/
def rows (cfg : RowConfig) : List Field :=
  [.overbreak,.distance]++
    if cfg.showXyz then [.x,.y,.z] else if cfg.use8x16 then [] else [.distance,.distance]

/-- The text of a value. -/
def fieldText (cfg : RowConfig) (s : ScannerData) (f : Field) : Option (List Byte) :=
  intToDecimalStr (f.value s) (BitVec.ofInt 8 (f.valid s)) 32 (f.label cfg)

/-- `mod_display_scanner`: the values with their texts, in order. -/
def modDisplayScanner (cfg : RowConfig) (s : ScannerData) : List (Field×Option (List Byte)) :=
  (rows cfg).map fun f => (f,fieldText cfg s f)

/-- The scanner data after frames, from the start. -/
def parsed (frames : List CanFrame) : ScannerData :=
  frames.foldl (fun s frame => (modCanParseScanner s frame).scanner) ScannerData.zero

end Source

section Numbers

/-- The longest text before a value has eleven bytes. -/
theorem label_length_le (cfg : RowConfig) (f : Field) : (f.label cfg).length≤11 := by
  cases f <;> simp only [Field.label] <;> split <;> decide

/-- Whole part and fraction of the number that is printed. -/
def parts (value : ℤ) : ℤ×ℕ :=
  if value < 0 then (-(-value/1000),(-value%1000).toNat) else (value/1000,(value%1000).toNat)

/-- The number of every value that can be negated. -/
theorem metres_eq {value : ℤ} (hmin : value≠-2^31) :
    metres value=some (fixedText (parts value).1 3 (parts value).2++chars [' ','m']) := by
  rw [metres,parts]
  by_cases hneg : value < 0
  · have hpos : 0≤-value := by omega
    rw [if_pos hneg,if_pos hneg,negated,if_neg hmin]
    simp only [Option.bind_eq_bind,Option.bind_some]
    rw [Int.tdiv_eq_ediv_of_nonneg hpos,Int.tmod_eq_emod_of_nonneg hpos]
  · have hpos := not_lt.mp hneg
    rw [if_neg hneg,if_neg hneg,Int.tdiv_eq_ediv_of_nonneg hpos,Int.tmod_eq_emod_of_nonneg hpos]

/-- The fraction has three digits. -/
theorem parts_frac_lt (value : ℤ) : (parts value).2 < 10^3 := by
  rw [parts]
  split <;> omega

/-- The whole part has seven digits at most. -/
theorem parts_whole_lt {value : ℤ} (hlow : -2^31 ≤ value) (hhigh : value < 2^31) :
    (parts value).1.natAbs < 10^7 := by
  rw [parts]
  split <;> omega

/-- A printed integer of seven digits has a sign at most before them. -/
theorem intText_length_le {n : ℤ} (h : n.natAbs < 10^7) : (intText n).length≤8 := by
  have hlen := decimalText_length_le (by omega) h
  rw [intText]
  split
  · rw [List.length_cons]
    omega
  · omega

/-- The text of a valid value that can be negated fits its line. -/
theorem intToDecimalStr_valid {value : ℤ} {valid : Byte} (cfg : RowConfig) (f : Field)
    (hlow : -2^31 < value) (hhigh : value < 2^31) (hvalid : valid≠0) :
    intToDecimalStr value valid 32 (f.label cfg)=some (f.label cfg++
      (fixedText (parts value).1 3 (parts value).2++chars [' ','m'])) := by
  have hlabel := label_length_le cfg f
  have hwhole := intText_length_le (parts_whole_lt hlow.le hhigh)
  have hfrac := padded_length (by omega : 0 < 3) (parts_frac_lt value)
  rw [intToDecimalStr,if_neg hvalid,metres_eq hlow.ne',Option.map_some,List.take_of_length_le]
  simp only [fixedText,List.length_append,List.length_cons,hfrac,chars,List.length_map,
    List.length_nil]
  omega

/-- A number of thousandths is its whole part and its fraction. -/
theorem thousandths (n : ℤ) : ((n/1000 : ℤ) : ℚ)+((n%1000).toNat : ℚ)/10^3=(n : ℚ)/1000 := by
  have hfrac : (((n%1000).toNat : ℤ) : ℚ)=((n%1000 : ℤ) : ℚ) :=
    congrArg Int.cast (Int.toNat_of_nonneg (Int.emod_nonneg n (by omega)))
  have hsum : (1000 : ℚ)*((n/1000 : ℤ) : ℚ)+((n%1000 : ℤ) : ℚ)=(n : ℚ) := by
    exact_mod_cast Int.mul_ediv_add_emod n 1000
  rw [Int.cast_natCast] at hfrac
  rw [hfrac,←hsum]
  ring

/-- What the printed number stands for: a whole part of zero loses the sign. -/
theorem decimalValue_parts (value : ℤ) :
    decimalValue (fixedText (parts value).1 3 (parts value).2)=
      if -1000 < value ∧ value < 0 then -(value : ℚ)/1000 else (value : ℚ)/1000 := by
  have hfrac := parts_frac_lt value
  by_cases hneg : value < 0
  · have hnegated := thousandths (-value)
    have hparts : parts value=(-(-value/1000),(-value%1000).toNat) := if_pos hneg
    rw [hparts] at hfrac ⊢
    by_cases hsmall : -1000 < value
    · have hzero : -value/1000=0 := by omega
      rw [hzero,Int.cast_zero,zero_add,Int.cast_neg] at hnegated
      rw [hzero,neg_zero,decimalValue_fixed le_rfl (by omega) hfrac,if_pos ⟨hsmall,hneg⟩,
        Int.cast_zero,zero_add]
      exact hnegated
    · rw [decimalValue_fixed_neg (by omega) (by omega) hfrac,if_neg (fun h => hsmall h.1),
        Int.cast_neg]
      rw [Int.cast_neg] at hnegated
      linarith
  · have hparts : parts value=(value/1000,(value%1000).toNat) := if_neg hneg
    rw [hparts] at hfrac ⊢
    rw [decimalValue_fixed (by omega) (by omega) hfrac,if_neg (fun h => hneg h.2)]
    exact thousandths value

end Numbers

section Millimetres

/-- Every text of a valid value is its label, a number that stands for the value in
metres, and the unit, inside its line. -/
def Formats (v : Word) : Prop :=
  ∀ (cfg : RowConfig) (f : Field) (valid : Byte),valid≠0 →
    ∃ number,intToDecimalStr v.toInt valid 32 (f.label cfg)=
        some (f.label cfg++(number++chars [' ','m'])) ∧
      decimalValue number=(v.toInt : ℚ)/1000

/-- A value that overflows is not printed. -/
theorem not_formats_of_overflow {v : Word} (h : v.toInt=-2^31) : ¬Formats v := by
  intro hformats
  obtain ⟨number,htext,-⟩ := hformats ⟨true,true⟩ .overbreak 1 (by decide)
  rw [h] at htext
  cases htext

/-- A value that does not overflow is printed as it should be exactly if the
number of its parts stands for it. -/
theorem formats_iff {v : Word} (hlow : -2^31 < v.toInt) :
    Formats v ↔ ¬(-1000 < v.toInt ∧ v.toInt < 0) := by
  have hvalue := decimalValue_parts v.toInt
  constructor
  · rintro hformats hsmall
    obtain ⟨number,htext,hnumber⟩ := hformats ⟨true,true⟩ .overbreak 1 (by decide)
    rw [intToDecimalStr_valid _ _ hlow (BitVec.toInt_lt) (by decide)] at htext
    have hsame := List.append_cancel_right (List.append_cancel_left (Option.some.inj htext))
    rw [hsame,hnumber,if_pos hsmall] at hvalue
    have hzero : (v.toInt : ℚ)=0 := by linarith
    exact absurd (by exact_mod_cast hzero : v.toInt=0) hsmall.2.ne
  · intro hlarge cfg f valid hvalid
    rw [if_neg hlarge] at hvalue
    exact ⟨_,intToDecimalStr_valid cfg f hlow BitVec.toInt_lt hvalid,hvalue⟩

/-- A value is printed as it should be exactly if it is not negative, or is a
metre or more below zero and can be negated; and two values that are printed as
they should be are printed as different texts. -/
theorem millimetres_iff (v : Word) :
    (Formats v ↔ 0 ≤ v.toInt ∨ -2^31 < v.toInt ∧ v.toInt ≤ -1000) ∧
      ∀ (w : Word) (cfg : RowConfig) (f : Field) (valid : Byte),valid≠0 → Formats v → Formats w →
        intToDecimalStr v.toInt valid 32 (f.label cfg)=
          intToDecimalStr w.toInt valid 32 (f.label cfg) → v=w := by
  constructor
  · have hmin : -2^31 ≤ v.toInt := BitVec.le_toInt v
    by_cases hover : v.toInt=-2^31
    · exact iff_of_false (not_formats_of_overflow hover) (by omega)
    · rw [formats_iff (by omega)]
      omega
  · intro w cfg f valid hvalid hv hw htext
    obtain ⟨nv,htv,hnv⟩ := hv cfg f valid hvalid
    obtain ⟨nw,htw,hnw⟩ := hw cfg f valid hvalid
    rw [htv,htw] at htext
    have hsame := List.append_cancel_right (List.append_cancel_left (Option.some.inj htext))
    rw [hsame,hnw] at hnv
    have hq : (w.toInt : ℚ)=v.toInt := by linarith
    exact (BitVec.eq_of_toInt_eq (by exact_mod_cast hq)).symm

/-- Half a metre below zero is printed as half a metre above it. -/
theorem half_metre_loses_sign : ¬∀ v,Formats v :=
  fun h => (formats_iff (v := BitVec.ofInt 32 (-500)) (by decide)).mp (h _) (by decide)

end Millimetres

section Validity

/-- The last value that a list of frames carries. -/
def latest {α : Type} (carried : CanFrame → Option α) (frames : List CanFrame) : Option α :=
  frames.foldl (fun known frame => (carried frame).or known) none

/-- A flag bit of a data byte. -/
def flagBit (frame : CanFrame) (i : ℕ) (mask : Byte) : Bool := frame.data.getD i 0 &&& mask≠0

/-- The validity of a value that a frame carries: horizontal coordinates are valid
as such, and take the flag of the vertical coordinate too. -/
def Field.flag (f : Field) (frame : CanFrame) : Option Bool :=
  match f with
  | .overbreak => if frame.id=overbreakLaser.setWidth 32 then some (flagBit frame 0 1) else none
  | .distance => if frame.id=overbreakLaser.setWidth 32 then some (flagBit frame 0 2) else none
  | .x | .y =>
    if frame.id=coordXy.setWidth 32 then some true
    else if frame.id=coordZ.setWidth 32 then some (flagBit frame 4 1) else none
  | .z => if frame.id=coordZ.setWidth 32 then some (flagBit frame 4 1) else none

/-- The value that a frame carries. -/
def Field.reading (f : Field) (frame : CanFrame) : Option ℤ :=
  match f with
  | .overbreak =>
    if frame.id=overbreakLaser.setWidth 32 then some (sysGetBe16 frame.data 2).toInt else none
  | .distance =>
    if frame.id=overbreakLaser.setWidth 32 then some (sysGetBe32 frame.data 4).toInt else none
  | .x => if frame.id=coordXy.setWidth 32 then some (sysGetBe32 frame.data 0).toInt else none
  | .y => if frame.id=coordXy.setWidth 32 then some (sysGetBe32 frame.data 4).toInt else none
  | .z => if frame.id=coordZ.setWidth 32 then some (sysGetBe32 frame.data 0).toInt else none

/-- The latest value of a field, zero before the first. -/
def Field.lastValue (f : Field) (frames : List CanFrame) : ℤ := (latest f.reading frames).getD 0

/-- How the parser stores what it knows of the validity. -/
def stored : Option Bool → ℤ
  | none => 0
  | some true => 1
  | some false => -1

/-- A flag bit as the parser stores it. -/
theorem flagValue_eq (frame : CanFrame) (i : ℕ) (mask : Byte) :
    flagValue (frame.data.getD i 0) mask=stored (some (flagBit frame i mask)) := by
  rw [flagValue,flagBit]
  by_cases hbit : frame.data.getD i 0 &&& mask≠0
  · rw [if_pos hbit,decide_eq_true hbit,stored]
  · rw [if_neg hbit,decide_eq_false hbit,stored]

/-- A frame sets the flag of a field that it carries, and keeps the others. -/
theorem parse_valid (s : ScannerData) (frame : CanFrame) (f : Field) :
    f.valid (modCanParseScanner s frame).scanner=
      ((f.flag frame).map fun b => stored (some b)).getD (f.valid s) := by
  rw [modCanParseScanner]
  simp only [flagValue_eq]
  by_cases hlaser : frame.id=overbreakLaser.setWidth 32
  · cases f <;> simp [Field.flag,Field.valid,hlaser,overbreakLaser,coordXy,coordZ]
  · by_cases hxy : frame.id=coordXy.setWidth 32
    · cases f <;> simp [Field.flag,Field.valid,hxy,overbreakLaser,coordXy,coordZ,stored]
    · by_cases hz : frame.id=coordZ.setWidth 32
      · cases f <;> simp [Field.flag,Field.valid,hz,overbreakLaser,coordXy,coordZ]
      · cases f <;> simp [Field.flag,Field.valid,hlaser,hxy,hz]

/-- A frame sets the value of a field that it carries, and keeps the others. -/
theorem parse_value (s : ScannerData) (frame : CanFrame) (f : Field) :
    f.value (modCanParseScanner s frame).scanner=(f.reading frame).getD (f.value s) := by
  rw [modCanParseScanner]
  by_cases hlaser : frame.id=overbreakLaser.setWidth 32
  · cases f <;> simp [Field.reading,Field.value,hlaser,overbreakLaser,coordXy,coordZ]
  · by_cases hxy : frame.id=coordXy.setWidth 32
    · cases f <;> simp [Field.reading,Field.value,hxy,overbreakLaser,coordXy,coordZ]
    · by_cases hz : frame.id=coordZ.setWidth 32
      · cases f <;> simp [Field.reading,Field.value,hz,overbreakLaser,coordXy,coordZ]
      · cases f <;> simp [Field.reading,Field.value,hlaser,hxy,hz]

/-- The latest of what frames carry is carried by the last one or before it. -/
theorem latest_append {α : Type} (carried : CanFrame → Option α) (frames : List CanFrame)
    (frame : CanFrame) :
    latest carried (frames++[frame])=(carried frame).or (latest carried frames) := by
  rw [latest,List.foldl_append]
  rfl

/-- After frames every field holds its latest flag and its latest value. -/
theorem parsed_field (frames : List CanFrame) (f : Field) :
    f.valid (parsed frames)=stored (latest f.flag frames) ∧
      f.value (parsed frames)=f.lastValue frames := by
  induction frames using List.reverseRecOn with
  | nil => cases f <;> exact ⟨rfl,rfl⟩
  | append_singleton frames frame ih =>
    obtain ⟨hvalid,hvalue⟩ := ih
    have hparsed : parsed (frames++[frame])=(modCanParseScanner (parsed frames) frame).scanner := by
      rw [parsed,List.foldl_append]
      rfl
    rw [hparsed,parse_valid,parse_value,Field.lastValue,latest_append,latest_append,hvalid,hvalue]
    constructor
    · cases f.flag frame <;> rfl
    · cases f.reading frame <;> rfl

/-- A printed number does not start with a blank. -/
theorem metres_head {value : ℤ} {number : List Byte} (h : metres value=some number) :
    number.head?≠some 0x20 := by
  have hint : ∀ (n : ℤ) (tail : List Byte),(intText n++tail).head?≠some 0x20 := by
    intro n tail
    obtain ⟨c,rest,htext,-⟩ := decimalText_cons n.natAbs
    have hc : isDigit c=true := isDigit_of_mem (htext▸List.mem_cons_self)
    rw [intText]
    split
    · simp
    · rw [htext]
      intro heq
      obtain rfl := Option.some.inj heq
      exact absurd hc (by decide)
  have hmin : value≠-2^31 := by
    rintro rfl
    cases h
  rw [metres_eq hmin] at h
  obtain rfl := Option.some.inj h
  rw [fixedText,List.append_assoc]
  exact hint _ _

/-- The text of a valid value is not dashes. -/
theorem valid_ne_dashes (value : ℤ) {valid : Byte} (hvalid : valid≠0) (cfg : RowConfig) (f : Field) :
    intToDecimalStr value valid 32 (f.label cfg)≠some (f.label cfg++dashes) := by
  rw [intToDecimalStr,if_neg hvalid]
  intro h
  obtain ⟨number,hmetres,htext⟩ := Option.map_eq_some_iff.mp h
  have hlabel := label_length_le cfg f
  rw [List.take_append,List.take_of_length_le (by omega)] at htext
  have hsame := List.append_cancel_left htext
  have hhead : (number.take (32-1-(f.label cfg).length)).head?=some 0x20 := by rw [hsame]; rfl
  rw [List.head?_take,if_neg (by omega)] at hhead
  exact metres_head hmetres hhead

/-- Every text as it should be: dashes exactly if the latest flag of the value says
that it is not valid or there was none, and otherwise the text of its latest value. -/
def ShowsValidity (cfg : RowConfig) (frames : List CanFrame) : Prop :=
  ∀ row∈modDisplayScanner cfg (parsed frames),
    (row.2=some (row.1.label cfg++dashes) ↔ latest row.1.flag frames≠some true) ∧
    (latest row.1.flag frames=some true →
      row.2=intToDecimalStr (row.1.lastValue frames) 1 32 (row.1.label cfg))

/-- The text of a field after frames. -/
theorem fieldText_parsed (cfg : RowConfig) (frames : List CanFrame) (f : Field) :
    fieldText cfg (parsed frames) f=
      if latest f.flag frames=none then some (f.label cfg++dashes)
      else intToDecimalStr (f.lastValue frames) 1 32 (f.label cfg) := by
  obtain ⟨hvalid,hvalue⟩ := parsed_field frames f
  have hlabel := label_length_le cfg f
  rw [fieldText,hvalid,hvalue]
  cases latest f.flag frames with
  | none =>
    rw [if_pos rfl,intToDecimalStr,if_pos (by decide),List.take_of_length_le]
    rw [List.length_append,show dashes.length=9 from rfl]
    omega
  | some b =>
    rw [if_neg (Option.some_ne_none b)]
    cases b <;> rfl

/-- After any frames, every text is as it should be exactly if no value that is
shown was last marked as not valid. -/
theorem validity_shown_iff (cfg : RowConfig) (frames : List CanFrame) :
    ShowsValidity cfg frames ↔ ∀ f∈rows cfg,latest f.flag frames≠some false := by
  rw [ShowsValidity,modDisplayScanner,List.forall_mem_map]
  refine forall₂_congr fun f _ => ?_
  dsimp only
  rw [fieldText_parsed]
  cases latest f.flag frames with
  | none => simp
  | some b =>
    have hnumber := valid_ne_dashes (f.lastValue frames) (by decide : (1 : Byte)≠0) cfg f
    rw [if_neg (Option.some_ne_none b)]
    cases b with
    | false => exact iff_of_false (fun h => hnumber (h.1.mpr (by simp))) fun h => h rfl
    | true => exact iff_of_true ⟨iff_of_false hnumber (fun h => h rfl),fun _ => rfl⟩ (by simp)

/-- A frame that marks the overbreak as not valid. -/
def invalidFrame : CanFrame := ⟨0x263,8,[0,0,0,5,0,0,0,0],rfl⟩

/-- A value that the scanner marks as not valid is shown as a number. -/
theorem invalid_value_shown : ¬∀ cfg frames,ShowsValidity cfg frames := by
  intro h
  have hrow := h ⟨true,false⟩ [invalidFrame]
    (.overbreak,some (chars ['O','B',':',' ','0','.','0','0','5',' ','m'])) (by decide +kernel)
  exact absurd (hrow.1.mpr (by decide +kernel)) (by decide +kernel)

end Validity

end ZephyrApp.ScannerDisplay

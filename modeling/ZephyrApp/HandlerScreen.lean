import ZephyrApp.HandlerPower
import ZephyrApp.LinkQuality
import ZephyrApp.RasterPaint
import ZephyrApp.ScannerDisplay

/-!
# The screen of the handler

Texts in two fonts and small pictures are written to a screen of 128 columns and 64 rows,
each over what was there before: the link with its quality and the battery in the head, the
scanner values below it. What is on the screen is told point by point. While the handler
sleeps nothing is written, and the whole screen is drawn again when it wakes.
-/

namespace ZephyrApp.HandlerScreen

open MachineBytes CanFrames EventRuns RasterPaint
open HandlerPower (Link)
open LinkQuality (TxResult rf24UpdateRssi)
open ScannerDisplay (RowConfig Field fieldText chars)
open ScannerPath (ScannerData modCanParseScanner)

section Source

/-- The columns of the screen. -/
abbrev screenWidth : ℕ := 128

/-- The rows of the screen. -/
abbrev screenHeight : ℕ := 64

/-- The fonts and the pictures. -/
structure Pictures where
  /-- `font_8x16`. -/
  font8x16 : List (List Byte)
  /-- `font_5x8`. -/
  font5x8 : List (List Byte)
  /-- `label_can`. -/
  labelCan : List Byte
  /-- `label_rf24`. -/
  labelRf24 : List Byte
  /-- `signal_levels`. -/
  signalLevels : List (List Byte)
  /-- `battery_levels`. -/
  batteryLevels : List (List Byte)
  /-- `icon_charging`. -/
  iconCharging : List Byte
  /-- The characters from the blank to the tilde. -/
  count8x16 : font8x16.length=95
  /-- The characters from the blank to the tilde. -/
  count5x8 : font5x8.length=95
  /-- The bytes of a character. -/
  size8x16 : ∀ g∈font8x16,g.length=16
  /-- The bytes of a character. -/
  size5x8 : ∀ g∈font5x8,g.length=6
  /-- `LABEL_ICON_SIZE`. -/
  sizeLabelCan : labelCan.length=16
  /-- `LABEL_ICON_SIZE`. -/
  sizeLabelRf24 : labelRf24.length=16
  /-- The levels from 0 to 4. -/
  countSignal : signalLevels.length=5
  /-- `SIGNAL_ICON_SIZE`. -/
  sizeSignal : ∀ g∈signalLevels,g.length=32
  /-- The levels from 0 to 4. -/
  countBattery : batteryLevels.length=5
  /-- `BATTERY_ICON_SIZE`. -/
  sizeBattery : ∀ g∈batteryLevels,g.length=48
  /-- `CHARGING_ICON_SIZE`. -/
  sizeCharging : iconCharging.length=32

/-- What the build chooses. -/
structure ScreenConfig extends RowConfig where
  /-- `ROW0_ASCII`. -/
  row0Ascii : Bool

/-- `battery_status_t`. -/
inductive BatteryStatus where
  /-- `BATTERY_STATUS_UNKNOWN`. -/
  | unknown
  /-- `BATTERY_STATUS_FULL`. -/
  | full
  /-- `BATTERY_STATUS_CHARGING`. -/
  | charging
  /-- `BATTERY_STATUS_NOT_CHARGING`. -/
  | notCharging
  /-- `BATTERY_STATUS_DISCHARGING`. -/
  | discharging
  deriving DecidableEq

/-- A call of `display_write_buf`. -/
structure WriteBuf where
  /-- The first column. -/
  x : ℕ
  /-- The first row. -/
  y : ℕ
  /-- The columns. -/
  w : ℕ
  /-- The rows. -/
  h : ℕ
  /-- The bytes that the pointer leads to. -/
  data : List Byte

/-- The picture that bytes make: one for each column of a page of eight rows, its lowest bit
on top. -/
def bitmap (w : ℕ) (data : List Byte) : Raster Bool :=
  fun i j => (data.getD (j/8*w+i) 0).getLsbD (j%8)

/-- The rectangle that a call writes. -/
def WriteBuf.patch (c : WriteBuf) : Patch Bool := ⟨c.x,c.y,c.w,c.h,bitmap c.w c.data⟩

/-- `display_write_buf`. -/
def displayWriteBuf (sleeping : Bool) (c : WriteBuf) : List (Patch Bool) :=
  if sleeping then [] else [c.patch]

/-- The screen after calls of `display_write_buf`. -/
def display (sleeping : Bool) (s : Raster Bool) (calls : List WriteBuf) : Raster Bool :=
  paintAll s (calls.flatMap (displayWriteBuf sleeping))

/-- The place of a character in a font, a question mark for those that it lacks. -/
def charIndex (ch : Byte) : ℕ :=
  (if ch.toNat < 0x20 ∨ 0x7E < ch.toNat then 0x3F else ch.toNat)-0x20

/-- The first loop of `display_8x16_str_pad` and `display_5x8_str_pad`, with the column after
it. -/
def textLoop (draw : Byte → ℕ → WriteBuf) (cw stop : ℕ) : List Byte → ℕ → List WriteBuf×ℕ
  | [],x => ([],x)
  | c::text,x =>
    if c≠0 ∧ x+cw ≤ stop ∧ x+cw ≤ screenWidth then
      let r := textLoop draw cw stop text (x+cw)
      (draw c x::r.1,r.2)
    else ([],x)

/-- The second loop, which writes blanks; no more than the columns of the screen. -/
def blankLoop (draw : Byte → ℕ → WriteBuf) (cw stop : ℕ) : ℕ → ℕ → List WriteBuf×ℕ
  | 0,x => ([],x)
  | fuel+1,x =>
    if x+cw ≤ stop ∧ x+cw ≤ screenWidth then
      let r := blankLoop draw cw stop fuel (x+cw)
      (draw 0x20 x::r.1,r.2)
    else ([],x)

/-- Both loops. -/
def strPad (draw : Byte → ℕ → WriteBuf) (cw : ℕ) (text : List Byte) (x width : ℕ) :
    List WriteBuf×ℕ :=
  let written := textLoop draw cw (x+width) text x
  let blank := blankLoop draw cw (x+width) screenWidth written.2
  (written.1++blank.1,blank.2)

variable (pics : Pictures)

/-- `display_8x16_char`. -/
def display8x16Char (ch : Byte) (x y : ℕ) : WriteBuf :=
  ⟨x,y,8,16,pics.font8x16.getD (charIndex ch) []⟩

/-- `display_8x16_str_pad`. -/
def display8x16StrPad (text : List Byte) (x y width : ℕ) : List WriteBuf :=
  (strPad (fun ch x => display8x16Char pics ch x y) 8 text x width).1

/-- `display_5x8_char`. -/
def display5x8Char (ch : Byte) (x y : ℕ) : WriteBuf :=
  ⟨x,y,6,8,pics.font5x8.getD (charIndex ch) []⟩

/-- `display_5x8_str_pad`. -/
def display5x8StrPad (text : List Byte) (x y width : ℕ) : List WriteBuf :=
  let r := strPad (fun ch x => display5x8Char pics ch x y) 6 text x width
  -- `empty` has six bytes
  r.1++if 126 < x+width ∧ r.2 < 128 then [⟨r.2,y,128-r.2,8,List.replicate 6 0⟩] else []

/-- The text of one blank. -/
def blank : List Byte := [0x20]

/-- `mod_display_clear`. -/
def modDisplayClear (yResolution : ℕ) : List WriteBuf :=
  ((List.range yResolution).filter fun j => j%16=0).flatMap fun j =>
    display8x16StrPad pics blank 0 j 128

variable (cfg : ScreenConfig)

/-- `mod_display_rf24`. -/
def modDisplayRf24 (connectType : Link) (rssi : Byte) : List WriteBuf :=
  if connectType≠.rf24 then []
  else
    let rssi := if 4 < rssi.toNat then 4 else rssi.toNat
    if cfg.row0Ascii then
      display8x16StrPad pics (chars ['2','4','G']) 0 0 40++
        [⟨40,0,16,16,pics.signalLevels.getD rssi []⟩,display8x16Char pics 0x20 56 0]
    else
      [⟨0,0,8,16,pics.labelRf24⟩,⟨8,0,16,16,pics.signalLevels.getD rssi []⟩]++
        display8x16StrPad pics blank 24 0 40

/-- `mod_display_can`. -/
def modDisplayCan (connectType : Link) : List WriteBuf :=
  if connectType≠.can then []
  else if cfg.row0Ascii then display8x16StrPad pics (chars ['C','A','N']) 0 0 64
  else ⟨0,0,8,16,pics.labelCan⟩::display8x16StrPad pics blank 8 0 64

/-- The level of a battery. -/
def batteryIndex (powerMv : Word) : ℕ :=
  if 3850≤powerMv.toNat then 4
  else if 3750≤powerMv.toNat then 3
  else if 3550≤powerMv.toNat then 2
  else if 3400≤powerMv.toNat then 1
  else 0

/-- `mod_display_battery`. -/
def modDisplayBattery (powerMv : Word) (status : BatteryStatus) : List WriteBuf :=
  let level := pics.batteryLevels.getD (batteryIndex powerMv) []
  if status=.charging then
    display8x16StrPad pics blank 64 0 24++[⟨88,0,24,16,level⟩,⟨112,0,16,16,pics.iconCharging⟩]
  else display8x16StrPad pics blank 64 0 40++[⟨104,0,24,16,level⟩]

/-- The texts that `int_to_decimal_str` leaves where its negation overflows. -/
abbrev OverflowText := Field → List Byte

/-- The text of a value. -/
def lineOf (spill : OverflowText) (s : ScannerData) (f : Field) : List Byte :=
  (fieldText cfg.toRowConfig s f).getD (spill f)

/-- `mod_display_scanner`. -/
def modDisplayScanner (spill : OverflowText) (s : ScannerData) : List WriteBuf :=
  let line := lineOf cfg spill s
  if cfg.use8x16 then
    display5x8StrPad pics blank 0 16 128++display8x16StrPad pics (line .overbreak) 0 24 128++
      display8x16StrPad pics (line .distance) 0 40 128++
      if cfg.showXyz then
        display8x16StrPad pics (line .x) 0 32 64++display8x16StrPad pics (line .y) 64 32 64++
          display8x16StrPad pics (line .z) 0 48 128
      else display5x8StrPad pics blank 0 56 128
  else
    display5x8StrPad pics blank 0 16 128++display5x8StrPad pics (line .overbreak) 0 24 128++
      display5x8StrPad pics (line .distance) 0 32 128++
      if cfg.showXyz then
        display5x8StrPad pics (line .x) 0 40 128++display5x8StrPad pics (line .y) 0 48 128++
          display5x8StrPad pics (line .z) 0 56 128
      else
        -- the line still holds the distance
        display5x8StrPad pics (line .distance) 0 40 128++
          display8x16StrPad pics (line .distance) 0 48 128

/-- What the screen tells, of `global_params_t`. -/
structure GlobalParams where
  /-- `connect_type`. -/
  connectType : Link
  /-- `rssi`. -/
  rssi : Byte
  /-- `power_mv`. -/
  powerMv : Word
  /-- `battery_status`. -/
  batteryStatus : BatteryStatus
  /-- `scanner`. -/
  scanner : ScannerData

/-- `mod_display_all`. -/
def modDisplayAll (spill : OverflowText) (params : GlobalParams) : List WriteBuf :=
  (if params.connectType=.can then modDisplayCan pics cfg params.connectType
    else modDisplayRf24 pics cfg params.connectType params.rssi)++
    modDisplayBattery pics params.powerMv params.batteryStatus++
    modDisplayScanner pics cfg spill params.scanner

end Source

section Lines

variable {draw : Byte → ℕ → WriteBuf} {cw : ℕ}

/-- The characters of a line from a column on, side by side. -/
def cells (draw : Byte → ℕ → WriteBuf) (cw : ℕ) : List Byte → ℕ → List WriteBuf
  | [],_ => []
  | c::text,x => draw c x::cells draw cw text (x+cw)

/-- How many characters fit between a column and the end of the line or the screen. -/
def places (cw stop x : ℕ) : ℕ := (min stop screenWidth-x)/cw

/-- The text up to its terminator. -/
def untilNul (text : List Byte) : List Byte := text.takeWhile (· ≠ 0)

/-- The character of a line at a place: blanks follow the text. -/
def lineChar (text : List Byte) (k : ℕ) : Byte := (untilNul text).getD k 0x20

/-- As many characters of a line as fit. -/
def fit (text : List Byte) (n : ℕ) : List Byte :=
  (untilNul text).take n++List.replicate (n-((untilNul text).take n).length) 0x20

/-- A text and the blanks after it. -/
theorem cells_append (text rest : List Byte) (x : ℕ) :
    cells draw cw (text++rest) x=cells draw cw text x++cells draw cw rest (x+cw*text.length) := by
  induction text generalizing x with
  | nil => rfl
  | cons c text ih =>
    have hlast : x+cw+cw*text.length=x+cw*(c::text).length := by
      rw [List.length_cons,Nat.mul_add,Nat.mul_one]
      omega
    rw [List.cons_append,cells,ih,cells,hlast]
    rfl

/-- One more character fits exactly if there is room for it. -/
theorem places_succ (hcw : 0 < cw) {stop x : ℕ} :
    places cw stop x=
      if x+cw ≤ stop ∧ x+cw ≤ screenWidth then places cw stop (x+cw)+1 else 0 := by
  unfold places
  split
  · rename_i hroom
    have hsplit : min stop screenWidth-x=min stop screenWidth-(x+cw)+cw := by omega
    rw [hsplit,Nat.add_div_right _ hcw]
  · rename_i hroom
    exact Nat.div_eq_of_lt (by omega)

/-- The first loop writes as much of the text as fits. -/
theorem textLoop_eq (hcw : 0 < cw) (stop : ℕ) (text : List Byte) (x : ℕ) :
    textLoop draw cw stop text x=
      (cells draw cw ((untilNul text).take (places cw stop x)) x,
        x+cw*((untilNul text).take (places cw stop x)).length) := by
  induction text generalizing x with
  | nil =>
    rw [show untilNul []=[] from rfl,List.take_nil]
    rfl
  | cons c text ih =>
    rw [textLoop,places_succ hcw]
    by_cases hc : c=0
    · have hnone : untilNul (c::text)=[] := List.takeWhile_cons_of_neg (by simp [hc])
      rw [if_neg fun h => h.1 hc,hnone,List.take_nil]
      rfl
    · have hsome : untilNul (c::text)=c::untilNul text :=
        List.takeWhile_cons_of_pos (decide_eq_true hc)
      by_cases hroom : x+cw ≤ stop ∧ x+cw ≤ screenWidth
      · rw [if_pos ⟨hc,hroom⟩,if_pos hroom,ih,hsome,List.take_succ_cons,cells,List.length_cons,
          Nat.mul_add,Nat.mul_one]
        dsimp only
        rw [Prod.mk.injEq]
        exact ⟨rfl,by omega⟩
      · rw [if_neg fun h => hroom h.2,if_neg hroom]
        rfl

/-- The second loop fills the line with blanks. -/
theorem blankLoop_eq (hcw : 0 < cw) (stop fuel x : ℕ) (hfuel : places cw stop x ≤ fuel) :
    blankLoop draw cw stop fuel x=
      (cells draw cw (List.replicate (places cw stop x) 0x20) x,x+cw*places cw stop x) := by
  induction fuel generalizing x with
  | zero =>
    rw [Nat.le_zero.mp hfuel]
    rfl
  | succ fuel ih =>
    rw [blankLoop]
    rw [places_succ hcw] at hfuel ⊢
    by_cases hroom : x+cw ≤ stop ∧ x+cw ≤ screenWidth
    · rw [if_pos hroom] at hfuel
      rw [if_pos hroom,if_pos hroom,ih _ (Nat.le_of_succ_le_succ hfuel),List.replicate_succ,cells,
        Nat.mul_add,Nat.mul_one]
      dsimp only
      rw [Prod.mk.injEq]
      exact ⟨rfl,by omega⟩
    · rw [if_neg hroom,if_neg hroom]
      rfl

/-- No more places than columns. -/
theorem places_le (cw stop x : ℕ) : places cw stop x ≤ screenWidth :=
  le_trans (Nat.div_le_self _ _) (by omega)

/-- After some characters that fit, the rest of the places is left. -/
theorem places_add (cw stop x k : ℕ) :
    places cw stop (x+cw*k)=places cw stop x-k := by
  unfold places
  rw [←Nat.sub_sub,Nat.sub_mul_div]

/-- The line has as many characters as fit. -/
@[simp] theorem fit_length (text : List Byte) (n : ℕ) : (fit text n).length=n := by
  rw [fit,List.length_append,List.length_replicate,List.length_take]
  omega

/-- The characters of the line. -/
theorem fit_getD (text : List Byte) {n k : ℕ} (hk : k < n) (d : Byte) :
    (fit text n).getD k d=lineChar text k := by
  rw [fit,lineChar,List.getD_eq_getElem?_getD,List.getD_eq_getElem?_getD]
  by_cases hin : k < (untilNul text).length
  · rw [List.getElem?_append_left (by rw [List.length_take]; omega),List.getElem?_take,if_pos hk,
      List.getElem?_eq_getElem hin]
    rfl
  · rw [List.getElem?_append_right (by rw [List.length_take]; omega),List.length_take,
      List.getElem?_replicate,if_pos (by omega),List.getElem?_eq_none (by omega)]
    rfl

/-- Both loops write the line, with blanks after the text. -/
theorem strPad_eq (hcw : 0 < cw) (text : List Byte) (x width : ℕ) :
    strPad draw cw text x width=
      (cells draw cw (fit text (places cw (x+width) x)) x,x+cw*places cw (x+width) x) := by
  rw [strPad,textLoop_eq hcw]
  dsimp only
  rw [blankLoop_eq hcw _ _ _ (places_le _ _ _),places_add,fit,cells_append]
  have hlen : ((untilNul text).take (places cw (x+width) x)).length ≤ places cw (x+width) x := by
    rw [List.length_take]
    omega
  dsimp only
  rw [Prod.mk.injEq,Nat.add_assoc,←Nat.mul_add,Nat.add_sub_cancel' hlen]
  exact ⟨rfl,rfl⟩

end Lines

section Drawing

variable (pics : Pictures)

/-- What the last of some calls that reaches a point writes there, none where none does. -/
def drawn (calls : List WriteBuf) : ℕ → ℕ → Option Bool := content (calls.map WriteBuf.patch)

/-- The screen of a handler that is awake. -/
theorem display_awake (s : Raster Bool) (calls : List WriteBuf) (i j : ℕ) :
    display false s calls i j=(drawn calls i j).getD (s i j) := by
  have hpatches : calls.flatMap (displayWriteBuf false)=calls.map WriteBuf.patch :=
    List.flatMap_pure_eq_map _ _
  rw [display,hpatches,paintAll_apply,drawn]

/-- Calls after each other. -/
theorem drawn_append (cs ds : List WriteBuf) (i j : ℕ) :
    drawn (cs++ds) i j=(drawn ds i j).or (drawn cs i j) := by
  rw [drawn,List.map_append,content_append]
  rfl

/-- A call before others. -/
theorem drawn_cons (c : WriteBuf) (cs : List WriteBuf) (i j : ℕ) :
    drawn (c::cs) i j=(drawn cs i j).or (within c.x c.y c.w c.h (bitmap c.w c.data) i j) := rfl

/-- No call. -/
theorem drawn_nil (i j : ℕ) : drawn [] i j=none := rfl

/-- A character of the large font. -/
def glyph8x16 (ch : Byte) : Raster Bool := bitmap 8 (pics.font8x16.getD (charIndex ch) [])

/-- A character of the small font. -/
def glyph5x8 (ch : Byte) : Raster Bool := bitmap 6 (pics.font5x8.getD (charIndex ch) [])

/-- A line of the large font, of any width. -/
def line8x16 (text : List Byte) : Raster Bool :=
  fun i j => glyph8x16 pics (lineChar text (i/8)) (i%8) j

/-- A line of the small font over the whole screen: twenty-one characters, and two columns of
the background. -/
def line5x8 (text : List Byte) : Raster Bool :=
  fun i j => if i < 126 then glyph5x8 pics (lineChar text (i/6)) (i%6) j else false

/-- Characters side by side are a row of cells. -/
theorem patch_cells {draw : Byte → ℕ → WriteBuf} {cw ch y : ℕ} {glyph : Byte → Raster Bool}
    (hdraw : ∀ c x,(draw c x).patch=⟨x,y,cw,ch,glyph c⟩) (text : List Byte) (x : ℕ) :
    (cells draw cw text x).map WriteBuf.patch=cellRow x y cw ch (text.map glyph) := by
  induction text generalizing x with
  | nil => rfl
  | cons c text ih => rw [cells,List.map_cons,hdraw,ih,List.map_cons,cellRow]

/-- What both loops draw is the line. -/
theorem drawn_strPad {draw : Byte → ℕ → WriteBuf} {cw ch y : ℕ} {glyph : Byte → Raster Bool}
    (hcw : 0 < cw) (hdraw : ∀ c x,(draw c x).patch=⟨x,y,cw,ch,glyph c⟩) (text : List Byte)
    (x width i j : ℕ) :
    drawn (strPad draw cw text x width).1 i j=within x y (cw*places cw (x+width) x) ch
      (fun i j => glyph (lineChar text (i/cw)) (i%cw) j) i j := by
  rw [strPad_eq hcw,drawn,patch_cells hdraw,content_cellRow hcw x y ch _ (glyph 0x20),
    List.length_map,fit_length]
  refine within_congr (fun i j hi _ => ?_) i j
  have hplace : i/cw < places cw (x+width) x := Nat.div_lt_of_lt_mul hi
  rw [List.getD_map,fit_getD text hplace]

/-- A line of the large font. -/
theorem drawn_display8x16StrPad (text : List Byte) (x y width i j : ℕ) :
    drawn (display8x16StrPad pics text x y width) i j=
      within x y (8*places 8 (x+width) x) 16 (line8x16 pics text) i j :=
  drawn_strPad (by decide) (fun _ _ => rfl) text x width i j

/-- Zero bytes are the background. -/
theorem bitmap_zeros (w n i j : ℕ) : bitmap w (List.replicate n 0) i j=false := by
  have hzero : (List.replicate n (0 : Byte)).getD (j/8*w+i) 0=0 := by
    rw [List.getD_eq_getElem?_getD,List.getElem?_replicate]
    split <;> rfl
  rw [bitmap,hzero]
  exact BitVec.getLsbD_zero

/-- A line of the small font over the whole screen. -/
theorem drawn_display5x8StrPad (text : List Byte) (y i j : ℕ) :
    drawn (display5x8StrPad pics text 0 y 128) i j=
      within 0 y 128 8 (line5x8 pics text) i j := by
  have hplaces : places 6 (0+128) 0=21 := by decide
  have hdraw : ∀ c x,(display5x8Char pics c x y).patch=⟨x,y,6,8,glyph5x8 pics c⟩ :=
    fun _ _ => rfl
  have hchars := drawn_strPad (by decide) hdraw text 0 128 i j
  have hend : (strPad (fun ch x => display5x8Char pics ch x y) 6 text 0 128).2=126 := by
    rw [strPad_eq (by decide),hplaces]
  rw [hplaces] at hchars
  rw [display5x8StrPad,hend,if_pos ⟨by decide,by decide⟩,drawn_append,drawn_cons,drawn_nil,Option.none_or,hchars]
  dsimp only
  by_cases hrow : y ≤ j ∧ j < y+8
  · by_cases hchar : i < 126
    · rw [within_neg _ (by omega),Option.none_or,within_pos _ (by omega),
        within_pos _ (by omega),line5x8,if_pos (by omega)]
    · by_cases hlast : i < 128
      · rw [within_pos _ (by omega),Option.some_or,within_pos _ (by omega),line5x8,
          if_neg (by omega),bitmap_zeros]
      · rw [within_neg _ (by omega),within_neg _ (by omega),within_neg _ (by omega)]
        rfl
  · rw [within_neg _ (by omega),within_neg _ (by omega),within_neg _ (by omega)]
    rfl

end Drawing

section Layout

variable (pics : Pictures) (cfg : ScreenConfig)

/-- The left half of the head: the link, and the quality of the radio link. -/
def linkArea (connectType : Link) (rssi : Byte) : Raster Bool := fun i j =>
  let signal := bitmap 16 (pics.signalLevels.getD (min rssi.toNat 4) [])
  match connectType,cfg.row0Ascii with
  | .can,true => line8x16 pics (chars ['C','A','N']) i j
  | .can,false => if i < 8 then bitmap 8 pics.labelCan i j else line8x16 pics blank (i-8) j
  | .rf24,true =>
    if i < 40 then line8x16 pics (chars ['2','4','G']) i j
    else if i < 56 then signal (i-40) j
    else glyph8x16 pics 0x20 (i-56) j
  | .rf24,false =>
    if i < 8 then bitmap 8 pics.labelRf24 i j
    else if i < 24 then signal (i-8) j
    else line8x16 pics blank (i-24) j

/-- The right half of the head: the battery, and whether it is charged. -/
def batteryArea (powerMv : Word) (status : BatteryStatus) : Raster Bool := fun i j =>
  let battery := bitmap 24 (pics.batteryLevels.getD (batteryIndex powerMv) [])
  if status=.charging then
    if i < 24 then line8x16 pics blank i j
    else if i < 48 then battery (i-24) j
    else bitmap 16 pics.iconCharging (i-48) j
  else if i < 40 then line8x16 pics blank i j
  else battery (i-40) j

/-- The rows below the head. With the large font and coordinates, the lower half of the
overbreak and the whole distance lie under the coordinates. -/
def scannerArea (spill : OverflowText) (s : ScannerData) : Raster Bool := fun i j =>
  let line := lineOf cfg spill s
  if j < 8 then line5x8 pics blank i j
  else
    match cfg.use8x16,cfg.showXyz with
    | false,true =>
      if j < 16 then line5x8 pics (line .overbreak) i (j-8)
      else if j < 24 then line5x8 pics (line .distance) i (j-16)
      else if j < 32 then line5x8 pics (line .x) i (j-24)
      else if j < 40 then line5x8 pics (line .y) i (j-32)
      else line5x8 pics (line .z) i (j-40)
    | false,false =>
      if j < 16 then line5x8 pics (line .overbreak) i (j-8)
      else if j < 24 then line5x8 pics (line .distance) i (j-16)
      else if j < 32 then line5x8 pics (line .distance) i (j-24)
      else line8x16 pics (line .distance) i (j-32)
    | true,false =>
      if j < 24 then line8x16 pics (line .overbreak) i (j-8)
      else if j < 40 then line8x16 pics (line .distance) i (j-24)
      else line5x8 pics blank i (j-40)
    | true,true =>
      if j < 16 then line8x16 pics (line .overbreak) i (j-8)
      else if j < 32 then
        if i < 64 then line8x16 pics (line .x) i (j-16)
        else line8x16 pics (line .y) (i-64) (j-16)
      else line8x16 pics (line .z) i (j-32)

/-- What the screen shows. -/
def layout (spill : OverflowText) (params : GlobalParams) : Raster Bool := fun i j =>
  if j < 16 then
    if i < 64 then linkArea pics cfg params.connectType params.rssi i j
    else batteryArea pics params.powerMv params.batteryStatus (i-64) j
  else scannerArea pics cfg spill params.scanner i (j-16)

variable {pics cfg}

/-- The left half of the head is drawn whole. -/
theorem drawn_link {connectType : Link} {rssi : Byte} {i j : ℕ} (hi : i < 64) (hj : j < 16) :
    drawn (if connectType=.can then modDisplayCan pics cfg connectType
      else modDisplayRf24 pics cfg connectType rssi) i j=
      some (linkArea pics cfg connectType rssi i j) := by
  have hcan : places 8 (0+64) 0=8 := by decide
  have hlabel : places 8 (8+64) 8=8 := by decide
  have htext : places 8 (0+40) 0=5 := by decide
  have hblank : places 8 (24+40) 24=5 := by decide
  have hlevel : (if 4 < rssi.toNat then 4 else rssi.toNat)=min rssi.toNat 4 := by
    split <;> omega
  cases connectType with
  | can =>
    rw [if_pos rfl,modDisplayCan,if_neg (not_not.mpr rfl)]
    unfold linkArea
    cases cfg.row0Ascii with
    | true =>
      rw [if_pos rfl,drawn_display8x16StrPad,hcan,within_pos _ (by omega)]
      rfl
    | false =>
      rw [if_neg Bool.false_ne_true,drawn_cons,drawn_display8x16StrPad,hlabel]
      dsimp only
      by_cases hleft : i < 8
      · rw [within_neg _ (by omega),within_pos _ (by omega),if_pos hleft]
        rfl
      · rw [within_pos _ (by omega),if_neg hleft]
        rfl
  | rf24 =>
    rw [if_neg (by decide),modDisplayRf24,if_neg (not_not.mpr rfl),hlevel]
    unfold linkArea
    cases cfg.row0Ascii with
    | true =>
      rw [if_pos rfl,drawn_append,drawn_cons,drawn_cons,drawn_nil,drawn_display8x16StrPad,htext]
      dsimp only [display8x16Char]
      by_cases hleft : i < 40
      · rw [within_neg _ (by omega),within_neg _ (by omega),within_pos _ (by omega),if_pos hleft]
        rfl
      · by_cases hsignal : i < 56
        · rw [within_neg _ (by omega),within_pos _ (by omega),if_neg hleft,if_pos hsignal]
          rfl
        · rw [within_pos _ (by omega),if_neg hleft,if_neg hsignal]
          rfl
    | false =>
      rw [if_neg Bool.false_ne_true,drawn_append,drawn_cons,drawn_cons,drawn_nil,
        drawn_display8x16StrPad,hblank]
      dsimp only
      by_cases hleft : i < 8
      · rw [within_neg _ (by omega),within_neg _ (by omega),within_pos _ (by omega),if_pos hleft]
        rfl
      · by_cases hsignal : i < 24
        · rw [within_neg _ (by omega),within_pos _ (by omega),if_neg hleft,if_pos hsignal]
          rfl
        · rw [within_pos _ (by omega),if_neg hleft,if_neg hsignal]
          rfl

/-- A line of blanks is the same everywhere. -/
theorem lineChar_blank (k : ℕ) : lineChar blank k=0x20 := by
  have hnul : untilNul blank=[0x20] := by decide
  rw [lineChar,hnul]
  cases k <;> rfl

/-- A line of blanks goes on in the battery's blanks. -/
theorem line8x16_blank (i k j : ℕ) (h : i%8=k%8) :
    line8x16 pics blank i j=line8x16 pics blank k j := by
  rw [line8x16,line8x16,lineChar_blank,lineChar_blank,h]

/-- Outside its half the link draws at most blanks over the battery's blanks. -/
theorem drawn_link_outside (pics : Pictures) (cfg : ScreenConfig) (connectType : Link)
    (rssi : Byte) {i j : ℕ} (h : 64 ≤ i ∨ 16 ≤ j) :
    drawn (if connectType=.can then modDisplayCan pics cfg connectType
        else modDisplayRf24 pics cfg connectType rssi) i j=none ∨
      i < 72 ∧ j < 16 ∧ drawn (if connectType=.can then modDisplayCan pics cfg connectType
        else modDisplayRf24 pics cfg connectType rssi) i j=
          some (line8x16 pics blank (i-64) j) := by
  have hcan : places 8 (0+64) 0=8 := by decide
  have hlabel : places 8 (8+64) 8=8 := by decide
  have htext : places 8 (0+40) 0=5 := by decide
  have hblank : places 8 (24+40) 24=5 := by decide
  cases connectType with
  | can =>
    rw [if_pos rfl,modDisplayCan,if_neg (not_not.mpr rfl)]
    cases cfg.row0Ascii with
    | true =>
      rw [if_pos rfl,drawn_display8x16StrPad,hcan,within_neg _ (by omega)]
      exact Or.inl rfl
    | false =>
      rw [if_neg Bool.false_ne_true,drawn_cons,drawn_display8x16StrPad,hlabel]
      dsimp only
      by_cases hover : i < 72 ∧ j < 16
      · rw [within_pos _ (by omega),Option.some_or,line8x16_blank _ (i-64) _ (by omega)]
        exact Or.inr ⟨hover.1,hover.2,rfl⟩
      · rw [within_neg _ (by omega),within_neg _ (by omega)]
        exact Or.inl rfl
  | rf24 =>
    rw [if_neg (by decide),modDisplayRf24,if_neg (not_not.mpr rfl)]
    cases cfg.row0Ascii with
    | true =>
      rw [if_pos rfl,drawn_append,drawn_cons,drawn_cons,drawn_nil,drawn_display8x16StrPad,htext]
      dsimp only [display8x16Char]
      rw [within_neg _ (by omega),within_neg _ (by omega),within_neg _ (by omega)]
      exact Or.inl rfl
    | false =>
      rw [if_neg Bool.false_ne_true,drawn_append,drawn_cons,drawn_cons,drawn_nil,
        drawn_display8x16StrPad,hblank]
      dsimp only
      rw [within_neg _ (by omega),within_neg _ (by omega),within_neg _ (by omega)]
      exact Or.inl rfl

/-- The right half of the head is drawn whole. -/
theorem drawn_battery {powerMv : Word} {status : BatteryStatus} {i j : ℕ} (hlow : 64 ≤ i)
    (hhigh : i < 128) (hj : j < 16) :
    drawn (modDisplayBattery pics powerMv status) i j=
      some (batteryArea pics powerMv status (i-64) j) := by
  have hcharging : places 8 (64+24) 64=3 := by decide
  have hblank : places 8 (64+40) 64=5 := by decide
  rw [modDisplayBattery,batteryArea]
  by_cases hstatus : status=.charging
  · rw [if_pos hstatus,if_pos hstatus,drawn_append,drawn_cons,drawn_cons,drawn_nil,
      drawn_display8x16StrPad,hcharging]
    dsimp only
    by_cases hleft : i-64 < 24
    · rw [within_neg _ (by omega),within_neg _ (by omega),within_pos _ (by omega),if_pos hleft]
      rfl
    · by_cases hlevel : i-64 < 48
      · rw [within_neg _ (by omega),within_pos _ (by omega),if_neg hleft,if_pos hlevel,
          Nat.sub_sub]
        rfl
      · rw [within_pos _ (by omega),if_neg hleft,if_neg hlevel,Nat.sub_sub]
        rfl
  · rw [if_neg hstatus,if_neg hstatus,drawn_append,drawn_cons,drawn_nil,
      drawn_display8x16StrPad,hblank]
    dsimp only
    by_cases hleft : i-64 < 40
    · rw [within_neg _ (by omega),within_pos _ (by omega),if_pos hleft]
      rfl
    · rw [within_pos _ (by omega),if_neg hleft,Nat.sub_sub]
      rfl

/-- The battery draws nothing elsewhere. -/
theorem drawn_battery_outside {powerMv : Word} {status : BatteryStatus} {i j : ℕ}
    (h : i < 64 ∨ 16 ≤ j) : drawn (modDisplayBattery pics powerMv status) i j=none := by
  have hcharging : places 8 (64+24) 64=3 := by decide
  have hblank : places 8 (64+40) 64=5 := by decide
  rw [modDisplayBattery]
  by_cases hstatus : status=.charging
  · rw [if_pos hstatus,drawn_append,drawn_cons,drawn_cons,drawn_nil,drawn_display8x16StrPad,
      hcharging]
    dsimp only
    rw [within_neg _ (by omega),within_neg _ (by omega),within_neg _ (by omega)]
    rfl
  · rw [if_neg hstatus,drawn_append,drawn_cons,drawn_nil,drawn_display8x16StrPad,hblank]
    dsimp only
    rw [within_neg _ (by omega),within_neg _ (by omega)]
    rfl

/-- The rows below the head are drawn whole. -/
theorem drawn_scanner {spill : OverflowText} {data : ScannerData} {i j : ℕ} (hi : i < 128)
    (hlow : 16 ≤ j) (hhigh : j < 64) :
    drawn (modDisplayScanner pics cfg spill data) i j=
      some (scannerArea pics cfg spill data i (j-16)) := by
  have hfull : 8*places 8 (0+128) 0=128 := by decide
  have hleft : 8*places 8 (0+64) 0=64 := by decide
  have hright : 8*places 8 (64+64) 64=64 := by decide
  unfold modDisplayScanner scannerArea
  dsimp only
  cases cfg.use8x16 with
  | true =>
    rw [if_pos rfl]
    cases cfg.showXyz with
    | true =>
      simp only [if_true,drawn_append,drawn_display5x8StrPad,drawn_display8x16StrPad,hfull,
        hleft,hright]
      have hband : j < 24 ∨ 24 ≤ j ∧ j < 32 ∨ (32 ≤ j ∧ j < 48) ∧ i < 64 ∨
        (32 ≤ j ∧ j < 48) ∧ 64 ≤ i ∨ 48 ≤ j := by omega
      rcases hband with h | h | h | h | h <;>
        simp (disch := omega) only [within_pos,within_neg,if_pos,if_neg,Option.some_or,
          Option.none_or,Nat.sub_sub,Nat.sub_zero,Nat.reduceAdd]
    | false =>
      simp only [Bool.false_eq_true,if_false,drawn_append,drawn_display5x8StrPad,
        drawn_display8x16StrPad,hfull]
      have hband : j < 24 ∨ 24 ≤ j ∧ j < 40 ∨ 40 ≤ j ∧ j < 56 ∨ 56 ≤ j := by omega
      rcases hband with h | h | h | h <;>
        simp (disch := omega) only [within_pos,within_neg,if_pos,if_neg,Option.some_or,
          Option.none_or,Nat.sub_sub,Nat.sub_zero,Nat.reduceAdd]
  | false =>
    rw [if_neg Bool.false_ne_true]
    cases cfg.showXyz with
    | true =>
      simp only [if_true,drawn_append,drawn_display5x8StrPad]
      have hband : j < 24 ∨ 24 ≤ j ∧ j < 32 ∨ 32 ≤ j ∧ j < 40 ∨ 40 ≤ j ∧ j < 48 ∨
        48 ≤ j ∧ j < 56 ∨ 56 ≤ j := by omega
      rcases hband with h | h | h | h | h | h <;>
        simp (disch := omega) only [within_pos,within_neg,if_pos,if_neg,Option.some_or,
          Option.none_or,Nat.sub_sub,Nat.sub_zero,Nat.reduceAdd]
    | false =>
      simp only [Bool.false_eq_true,if_false,drawn_append,drawn_display5x8StrPad,
        drawn_display8x16StrPad,hfull]
      have hband : j < 24 ∨ 24 ≤ j ∧ j < 32 ∨ 32 ≤ j ∧ j < 40 ∨ 40 ≤ j ∧ j < 48 ∨ 48 ≤ j := by omega
      rcases hband with h | h | h | h | h <;>
        simp (disch := omega) only [within_pos,within_neg,if_pos,if_neg,Option.some_or,
          Option.none_or,Nat.sub_sub,Nat.sub_zero,Nat.reduceAdd]

/-- They draw nothing in the head. -/
theorem drawn_scanner_outside {spill : OverflowText} {data : ScannerData} {i j : ℕ}
    (h : j < 16) : drawn (modDisplayScanner pics cfg spill data) i j=none := by
  unfold modDisplayScanner
  dsimp only
  cases cfg.use8x16 <;> cases cfg.showXyz <;>
    simp (disch := omega) only [Bool.false_eq_true,if_true,if_false,drawn_append,
      drawn_display5x8StrPad,drawn_display8x16StrPad,within_neg,Option.none_or]

/-- Whatever was on the screen, a handler that is awake shows its whole state after
`mod_display_all` and nothing else. -/
theorem display_all (s : Raster Bool) (spill : OverflowText) (params : GlobalParams) {i j : ℕ}
    (hi : i < screenWidth) (hj : j < screenHeight) :
    display false s (modDisplayAll pics cfg spill params) i j=layout pics cfg spill params i j := by
  rw [display_awake,modDisplayAll,drawn_append,drawn_append,layout]
  by_cases hhead : j < 16
  · rw [drawn_scanner_outside hhead,if_pos hhead,Option.none_or]
    by_cases hleft : i < 64
    · rw [drawn_battery_outside (Or.inl hleft),drawn_link hleft hhead,if_pos hleft]
      rfl
    · rw [drawn_battery (by omega) hi hhead,if_neg hleft]
      rfl
  · rw [drawn_scanner hi (by omega) hj,if_neg hhead]
    rfl

end Layout

section Bounds

variable (pics : Pictures) (cfg : ScreenConfig)

/-- A call that the controller can carry out: whole pages of the screen, and no more bytes
than there are. -/
structure WriteBuf.Valid (c : WriteBuf) : Prop where
  /-- The columns. -/
  columns : c.x+c.w ≤ screenWidth
  /-- The rows. -/
  rows : c.y+c.h ≤ screenHeight
  /-- The first row begins a page. -/
  page : 8∣c.y
  /-- The rows are pages. -/
  pages : 8∣c.h
  /-- The bytes, `buf_size` of the descriptor. -/
  bytes : c.w*(c.h/8) ≤ c.data.length

/-- Calls that can all be carried out. -/
def AllValid (calls : List WriteBuf) : Prop := ∀ c∈calls,c.Valid

/-- The functions that draw. -/
inductive Drawing where
  /-- `mod_display_clear`. -/
  | clear
  /-- `mod_display_rf24`. -/
  | rf24 (connectType : Link) (rssi : Byte)
  /-- `mod_display_can`. -/
  | can (connectType : Link)
  /-- `mod_display_battery`. -/
  | battery (powerMv : Word) (status : BatteryStatus)
  /-- `mod_display_scanner`. -/
  | scanner (spill : OverflowText) (data : ScannerData)
  /-- `mod_display_all`. -/
  | all (spill : OverflowText) (params : GlobalParams)

/-- The calls that a function makes. -/
def Drawing.calls : Drawing → List WriteBuf
  | .clear => modDisplayClear pics screenHeight
  | .rf24 connectType rssi => modDisplayRf24 pics cfg connectType rssi
  | .can connectType => modDisplayCan pics cfg connectType
  | .battery powerMv status => modDisplayBattery pics powerMv status
  | .scanner spill data => modDisplayScanner pics cfg spill data
  | .all spill params => modDisplayAll pics cfg spill params

/-- Calls after each other. -/
theorem AllValid.append {cs ds : List WriteBuf} (hc : AllValid cs) (hd : AllValid ds) :
    AllValid (cs++ds) := by
  intro c hmem
  rcases List.mem_append.mp hmem with h | h
  · exact hc c h
  · exact hd c h

/-- A call before others. -/
theorem AllValid.cons {c : WriteBuf} {cs : List WriteBuf} (hc : c.Valid) (hd : AllValid cs) :
    AllValid (c::cs) := by
  intro d hmem
  rcases List.mem_cons.mp hmem with rfl | h
  · exact hc
  · exact hd d h

/-- No call. -/
theorem AllValid.nil : AllValid [] := fun _ h => absurd h List.not_mem_nil

/-- Every character has its place in a font. -/
theorem charIndex_lt (ch : Byte) : charIndex ch < 95 := by
  rw [charIndex]
  split
  · decide
  · omega

/-- An entry of a table. -/
theorem length_getD {table : List (List Byte)} {n : ℕ} (h : ∀ g∈table,g.length=n) {k : ℕ}
    (hk : k < table.length) : (table.getD k []).length=n := by
  rw [List.getD_eq_getElem _ _ hk]
  exact h _ (List.getElem_mem hk)

/-- The calls of a line are those of its places. -/
theorem mem_cells {draw : Byte → ℕ → WriteBuf} {cw : ℕ} {text : List Byte} {x : ℕ} {c : WriteBuf}
    (h : c∈cells draw cw text x) : ∃ ch k,k < text.length ∧ c=draw ch (x+cw*k) := by
  induction text generalizing x with
  | nil => exact absurd h List.not_mem_nil
  | cons ch text ih =>
    rcases List.mem_cons.mp h with rfl | h
    · exact ⟨ch,0,Nat.succ_pos _,rfl⟩
    · obtain ⟨ch,k,hk,rfl⟩ := ih h
      refine ⟨ch,k+1,Nat.succ_lt_succ hk,?_⟩
      rw [Nat.mul_add,Nat.mul_one]
      congr 1
      omega

/-- A character at a place of the line ends on the screen. -/
theorem place_le {cw stop x k : ℕ} (h : k < places cw stop x) : x+cw*k+cw ≤ screenWidth := by
  have hall : cw*(k+1) ≤ min stop screenWidth-x :=
    (Nat.mul_le_mul_left cw h).trans (Nat.mul_div_le _ _)
  have hsome : 0 < min stop screenWidth-x :=
    Nat.pos_of_ne_zero fun hzero => by
      rw [places,hzero,Nat.zero_div] at h
      exact Nat.not_lt_zero _ h
  rw [Nat.mul_add,Nat.mul_one] at hall
  omega

variable {pics}

/-- The calls of both loops are valid. -/
theorem valid_strPad {draw : Byte → ℕ → WriteBuf} {cw : ℕ} (hcw : 0 < cw) (text : List Byte)
    (x width : ℕ) (hdraw : ∀ ch x,x+cw ≤ screenWidth → (draw ch x).Valid) :
    AllValid (strPad draw cw text x width).1 := by
  intro c hc
  rw [strPad_eq hcw] at hc
  obtain ⟨ch,k,hk,rfl⟩ := mem_cells hc
  rw [fit_length] at hk
  exact hdraw ch _ (place_le hk)

/-- A character of the large font. -/
theorem valid_display8x16Char (ch : Byte) (x : ℕ) {y : ℕ} (hx : x+8 ≤ screenWidth)
    (hy : y+16 ≤ screenHeight) (hpage : 8∣y) : (display8x16Char pics ch x y).Valid where
  columns := hx
  rows := hy
  page := hpage
  pages := (by decide : 8∣16)
  bytes := by
    have hindex : charIndex ch < pics.font8x16.length := by
      rw [pics.count8x16]
      exact charIndex_lt ch
    have hlen := length_getD pics.size8x16 hindex
    exact (by decide : 8*(16/8)=16).trans hlen.symm |>.le

/-- A line of the large font. -/
theorem valid_display8x16StrPad (text : List Byte) (x width : ℕ) {y : ℕ}
    (hy : y+16 ≤ screenHeight) (hpage : 8∣y) :
    AllValid (display8x16StrPad pics text x y width) :=
  valid_strPad (by decide) text x width fun ch x hx => valid_display8x16Char ch x hx hy hpage

/-- A line of the small font, wherever it begins and ends. The bytes that fill it up to the
edge of the screen are never more than the six of `empty`. -/
theorem valid_display5x8StrPad (text : List Byte) (x width : ℕ) {y : ℕ}
    (hy : y+8 ≤ screenHeight) (hpage : 8∣y) :
    AllValid (display5x8StrPad pics text x y width) := by
  have hchars : AllValid (strPad (fun ch x => display5x8Char pics ch x y) 6 text x width).1 := by
    refine valid_strPad (by decide) text x width fun ch x hx =>
      ⟨hx,hy,hpage,(by decide : 8∣8),?_⟩
    have hindex : charIndex ch < pics.font5x8.length := by
      rw [pics.count5x8]
      exact charIndex_lt ch
    have hlen := length_getD pics.size5x8 hindex
    exact (by decide : 6*(8/8)=6).trans hlen.symm |>.le
  rw [display5x8StrPad]
  refine hchars.append ?_
  split
  · rename_i hrest
    have hend : (strPad (fun ch x => display5x8Char pics ch x y) 6 text x width).2=
        x+6*places 6 (x+width) x := by
      rw [strPad_eq (by decide)]
    rw [hend] at hrest ⊢
    -- fewer than six columns are left of the line, and the line ends at the edge
    have hfew : min (x+width) screenWidth-x < 6*places 6 (x+width) x+6 := by
      have hdiv := Nat.lt_div_mul_add (a := min (x+width) screenWidth-x) (b := 6) (by decide)
      rw [places]
      omega
    have hscreen : screenWidth=128 := rfl
    refine .cons ⟨?_,hy,hpage,(by decide : 8∣8),?_⟩ .nil
    · dsimp only
      omega
    · dsimp only
      rw [List.length_replicate]
      omega
  · exact .nil

/-- The picture of a level. -/
theorem valid_signal {k : ℕ} (hk : k < 5) (x : ℕ) (hx : x+16 ≤ screenWidth) :
    (⟨x,0,16,16,pics.signalLevels.getD k []⟩ : WriteBuf).Valid where
  columns := hx
  rows := (by decide : 0+16 ≤ screenHeight)
  page := Nat.dvd_zero 8
  pages := (by decide : 8∣16)
  bytes := by
    have hlen := length_getD pics.sizeSignal (by rw [pics.countSignal]; exact hk)
    exact (by decide : 16*(16/8)=32).trans hlen.symm |>.le

/-- The picture of a battery. -/
theorem valid_level (powerMv : Word) {x : ℕ} (hx : x+24 ≤ screenWidth) :
    (⟨x,0,24,16,pics.batteryLevels.getD (batteryIndex powerMv) []⟩ : WriteBuf).Valid where
  columns := hx
  rows := (by decide : 0+16 ≤ screenHeight)
  page := Nat.dvd_zero 8
  pages := (by decide : 8∣16)
  bytes := by
    have hindex : batteryIndex powerMv < 5 := by
      rw [batteryIndex]
      split
      · decide
      · split
        · decide
        · split
          · decide
          · split <;> decide
    have hlen := length_getD pics.sizeBattery (by rw [pics.countBattery]; exact hindex)
    exact (by decide : 24*(16/8)=48).trans hlen.symm |>.le

/-- The picture of a link, at the left edge. -/
theorem valid_label {data : List Byte} (hdata : data.length=16) :
    (⟨0,0,8,16,data⟩ : WriteBuf).Valid :=
  ⟨(by decide : 0+8 ≤ screenWidth),(by decide : 0+16 ≤ screenHeight),Nat.dvd_zero 8,
    (by decide : 8∣16),(by decide : 8*(16/8)=16).trans hdata.symm |>.le⟩

/-- The radio link. -/
theorem valid_modDisplayRf24 (connectType : Link) (rssi : Byte) :
    AllValid (modDisplayRf24 pics cfg connectType rssi) := by
  have hlevel : (if 4 < rssi.toNat then 4 else rssi.toNat) < 5 := by
    split <;> omega
  rw [modDisplayRf24]
  generalize (if 4 < rssi.toNat then 4 else rssi.toNat)=level at hlevel ⊢
  split
  · exact .nil
  · split
    · exact (valid_display8x16StrPad _ 0 40 (by decide) (Nat.dvd_zero 8)).append
        (.cons (valid_signal hlevel 40 (by decide))
          (.cons (valid_display8x16Char 0x20 56 (by decide) (by decide) (Nat.dvd_zero 8)) .nil))
    · exact AllValid.append (.cons (valid_label pics.sizeLabelRf24)
        (.cons (valid_signal hlevel 8 (by decide)) .nil))
        (valid_display8x16StrPad blank 24 40 (by decide) (Nat.dvd_zero 8))

/-- The CAN link. -/
theorem valid_modDisplayCan (connectType : Link) :
    AllValid (modDisplayCan pics cfg connectType) := by
  rw [modDisplayCan]
  split
  · exact .nil
  · split
    · exact valid_display8x16StrPad _ 0 64 (by decide) (Nat.dvd_zero 8)
    · exact .cons (valid_label pics.sizeLabelCan)
        (valid_display8x16StrPad blank 8 64 (by decide) (Nat.dvd_zero 8))

/-- The battery. -/
theorem valid_modDisplayBattery (powerMv : Word) (status : BatteryStatus) :
    AllValid (modDisplayBattery pics powerMv status) := by
  have hcharging : (⟨112,0,16,16,pics.iconCharging⟩ : WriteBuf).Valid :=
    ⟨(by decide : 112+16 ≤ screenWidth),(by decide : 0+16 ≤ screenHeight),Nat.dvd_zero 8,
      (by decide : 8∣16),(by decide : 16*(16/8)=32).trans pics.sizeCharging.symm |>.le⟩
  rw [modDisplayBattery]
  split
  · exact (valid_display8x16StrPad blank 64 24 (by decide) (Nat.dvd_zero 8)).append
      (.cons (valid_level powerMv (by decide)) (.cons hcharging .nil))
  · exact (valid_display8x16StrPad blank 64 40 (by decide) (Nat.dvd_zero 8)).append
      (.cons (valid_level powerMv (by decide)) .nil)

/-- The scanner values. -/
theorem valid_modDisplayScanner (spill : OverflowText) (data : ScannerData) :
    AllValid (modDisplayScanner pics cfg spill data) := by
  have hlarge : ∀ (text : List Byte) (x width y : ℕ),y+16 ≤ screenHeight → 8∣y →
      AllValid (display8x16StrPad pics text x y width) := fun text x width _ hy hpage =>
    valid_display8x16StrPad text x width hy hpage
  have hsmall : ∀ (text : List Byte) (y : ℕ),y+8 ≤ screenHeight → 8∣y →
      AllValid (display5x8StrPad pics text 0 y 128) := fun text _ hy hpage =>
    valid_display5x8StrPad text 0 128 hy hpage
  rw [modDisplayScanner]
  split
  · refine .append (.append (.append (hsmall _ 16 (by decide) (by decide))
      (hlarge _ 0 128 24 (by decide) (by decide)))
      (hlarge _ 0 128 40 (by decide) (by decide))) ?_
    split
    · exact .append (.append (hlarge _ 0 64 32 (by decide) (by decide))
        (hlarge _ 64 64 32 (by decide) (by decide))) (hlarge _ 0 128 48 (by decide) (by decide))
    · exact hsmall _ 56 (by decide) (by decide)
  · refine .append (.append (.append (hsmall _ 16 (by decide) (by decide))
      (hsmall _ 24 (by decide) (by decide))) (hsmall _ 32 (by decide) (by decide))) ?_
    split
    · exact .append (.append (hsmall _ 40 (by decide) (by decide))
        (hsmall _ 48 (by decide) (by decide))) (hsmall _ 56 (by decide) (by decide))
    · exact .append (hsmall _ 40 (by decide) (by decide))
        (hlarge _ 0 128 48 (by decide) (by decide))

variable (pics)

/-- No function that draws, whatever it is given, writes beyond the screen or across its pages,
or reads beyond the end of a table, a picture or a buffer. -/
theorem display_calls_valid (drawing : Drawing) : AllValid (drawing.calls pics cfg) := by
  cases drawing with
  | clear =>
    intro c hc
    obtain ⟨j,hj,hc⟩ := List.mem_flatMap.mp hc
    obtain ⟨hlt,hrow⟩ := List.mem_filter.mp hj
    have hlt := List.mem_range.mp hlt
    have hrow := of_decide_eq_true hrow
    have hscreen : screenHeight=64 := rfl
    exact valid_display8x16StrPad blank 0 128 (by omega) (by omega) c hc
  | rf24 connectType rssi => exact valid_modDisplayRf24 cfg connectType rssi
  | can connectType => exact valid_modDisplayCan cfg connectType
  | battery powerMv status => exact valid_modDisplayBattery powerMv status
  | scanner spill data => exact valid_modDisplayScanner cfg spill data
  | all spill params =>
    have hlink : AllValid (if params.connectType=.can then
        modDisplayCan pics cfg params.connectType
        else modDisplayRf24 pics cfg params.connectType params.rssi) := by
      split
      · exact valid_modDisplayCan cfg _
      · exact valid_modDisplayRf24 cfg _ _
    exact (hlink.append (valid_modDisplayBattery _ _)).append (valid_modDisplayScanner cfg _ _)

end Bounds

/-- The handler with its screen. -/
structure Panel where
  /-- `global_params`. -/
  params : GlobalParams
  /-- `sleeping`. -/
  sleeping : Bool
  /-- The screen. -/
  screen : Raster Bool

/-- What happens to the handler. -/
inductive PanelEvent where
  /-- `mod_can_parse_scanner` takes a frame. -/
  | frame (frame : CanFrame)
  /-- `rf24_update_rssi` comes to a level. -/
  | level (level : Byte)
  /-- `adc_power_thread` has averaged the voltage of the battery and read its status. -/
  | battery (powerMv : Word) (status : BatteryStatus)
  /-- The link is chosen by the switch or in the shell, and `connect_switch` called. -/
  | connect (type : Link)
  /-- `system_sleep`. The screen loses its supply. -/
  | sleep (left : Raster Bool)
  /-- `system_wake`, with what the screen holds when it has its supply again. -/
  | wake (left : Raster Bool)

section Runs

variable (pics : Pictures) (cfg : ScreenConfig) (spill : OverflowText)

/-- `mod_display_init`. -/
def panelInit (params : GlobalParams) (left : Raster Bool) : Panel :=
  ⟨params,false,display false left (modDisplayAll pics cfg spill params)⟩

/-- The handler after an event. -/
def panelNext (p : Panel) : PanelEvent → Panel
  | .frame frame =>
    let r := modCanParseScanner p.params.scanner frame
    {p with
      params := {p.params with scanner := r.scanner}
      screen := if r.refresh then
        display p.sleeping p.screen (modDisplayScanner pics cfg spill r.scanner) else p.screen}
  | .level level =>
    if p.params.rssi≠level then
      {p with
        params := {p.params with rssi := level}
        screen := display p.sleeping p.screen (modDisplayRf24 pics cfg p.params.connectType level)}
    else p
  | .battery powerMv status =>
    if powerMv≠p.params.powerMv ∨ p.params.batteryStatus≠status then
      {p with
        params := {p.params with powerMv := powerMv,batteryStatus := status}
        screen := display p.sleeping p.screen (modDisplayBattery pics powerMv status)}
    else p
  | .connect type =>
    {p with
      params := {p.params with connectType := type}
      screen := display p.sleeping p.screen
        (if type=.can then modDisplayCan pics cfg type
          else modDisplayRf24 pics cfg type p.params.rssi)}
  | .sleep left => {p with sleeping := true,screen := left}
  | .wake left =>
    if p.sleeping then
      {p with
        sleeping := false
        screen := display false left (modDisplayAll pics cfg spill p.params)}
    else p

/-- The scanner values that an event draws. -/
def drawnScanner (p : Panel) : PanelEvent → Option ScannerData
  | .frame frame =>
    let r := modCanParseScanner p.params.scanner frame
    if r.refresh then some r.scanner else none
  | .wake _ => if p.sleeping then some p.params.scanner else none
  | _ => none

/-- A screen shows the state, with scanner values that may be older. -/
def ShowsWith (p : Panel) (data : ScannerData) : Prop :=
  p.sleeping=false → ∀ i j,i < screenWidth → j < screenHeight →
    p.screen i j=layout pics cfg spill {p.params with scanner := data} i j

variable {pics cfg spill}

/-- A screen that is drawn whole. -/
theorem showsWith_all {p : Panel} {s : Raster Bool}
    (h : p.screen=display false s (modDisplayAll pics cfg spill p.params)) :
    ShowsWith pics cfg spill p p.params.scanner := by
  intro _ i j hi hj
  rw [h,display_all s spill p.params hi hj]

/-- The values are drawn over others. -/
theorem layout_scanner (s : Raster Bool) (params : GlobalParams) (new : ScannerData)
    {i j : ℕ} (hi : i < screenWidth) (hj : j < screenHeight)
    (hs : s i j=layout pics cfg spill params i j) :
    display false s (modDisplayScanner pics cfg spill new) i j=
      layout pics cfg spill {params with scanner := new} i j := by
  rw [display_awake,layout]
  by_cases hhead : j < 16
  · rw [drawn_scanner_outside hhead,if_pos hhead,Option.getD_none,hs,layout,if_pos hhead]
  · rw [drawn_scanner hi (by omega) hj,if_neg hhead]
    rfl

/-- The battery is drawn over another. -/
theorem layout_battery (s : Raster Bool) (params : GlobalParams) (powerMv : Word)
    (status : BatteryStatus) {i j : ℕ} (hi : i < screenWidth)
    (hs : s i j=layout pics cfg spill params i j) :
    display false s (modDisplayBattery pics powerMv status) i j=
      layout pics cfg spill {params with powerMv := powerMv,batteryStatus := status} i j := by
  rw [display_awake,layout]
  by_cases harea : 64 ≤ i ∧ j < 16
  · rw [drawn_battery harea.1 hi harea.2,if_pos harea.2,if_neg (by omega)]
    rfl
  · rw [drawn_battery_outside (by omega),Option.getD_none,hs,layout]
    by_cases hhead : j < 16
    · rw [if_pos hhead,if_pos hhead,if_pos (by omega),if_pos (by omega)]
    · rw [if_neg hhead,if_neg hhead]

/-- Where the battery has its blanks. -/
theorem batteryArea_blank {powerMv : Word} {status : BatteryStatus} {i : ℕ} (hi : i < 24) (j : ℕ) :
    batteryArea pics powerMv status i j=line8x16 pics blank i j := by
  have hleft : i < 40 := by omega
  rw [batteryArea]
  by_cases hstatus : status=.charging
  · rw [if_pos hstatus,if_pos hi]
  · rw [if_neg hstatus,if_pos hleft]

/-- The link is drawn over another, and over the battery's blanks. -/
theorem layout_link (s : Raster Bool) (params : GlobalParams) (type : Link) (rssi : Byte)
    {i j : ℕ} (hs : s i j=layout pics cfg spill params i j) :
    display false s (if type=.can then modDisplayCan pics cfg type
        else modDisplayRf24 pics cfg type rssi) i j=
      layout pics cfg spill {params with connectType := type,rssi := rssi} i j := by
  rw [display_awake,layout]
  by_cases harea : i < 64 ∧ j < 16
  · rw [drawn_link harea.1 harea.2,if_pos harea.2,if_pos harea.1]
    rfl
  · have hkept : s i j=
        if j < 16 then
          if i < 64 then linkArea pics cfg type rssi i j
          else batteryArea pics params.powerMv params.batteryStatus (i-64) j
        else scannerArea pics cfg spill params.scanner i (j-16) := by
      rw [hs,layout]
      by_cases hhead : j < 16
      · rw [if_pos hhead,if_pos hhead,if_neg (by omega),if_neg (by omega)]
      · rw [if_neg hhead,if_neg hhead]
    rcases drawn_link_outside pics cfg type rssi (by omega : 64 ≤ i ∨ 16 ≤ j) with
      hnone | ⟨hover,hhead,hsome⟩
    · rw [hnone]
      exact hkept
    · rw [hsome,if_pos hhead,if_neg (by omega),batteryArea_blank (by omega)]
      rfl

/-- A new level is drawn, or not shown at all. -/
theorem layout_level (s : Raster Bool) (params : GlobalParams) (level : Byte) {i j : ℕ}
    (hs : s i j=layout pics cfg spill params i j) :
    display false s (modDisplayRf24 pics cfg params.connectType level) i j=
      layout pics cfg spill {params with rssi := level} i j := by
  cases htype : params.connectType with
  | rf24 =>
    have hlink := layout_link s params .rf24 level hs
    rw [if_neg (by decide)] at hlink
    rw [hlink]
  | can =>
    have hnone : modDisplayRf24 pics cfg .can level=[] := if_pos (by decide)
    rw [hnone,display_awake,drawn_nil,Option.getD_none,hs]
    unfold layout
    dsimp only
    rw [htype]
    cases hascii : cfg.row0Ascii <;> simp only [linkArea,hascii]

/-- Each event leaves a screen that shows the state, with the scanner values last drawn. -/
theorem showsWith_next {p : Panel} {data : ScannerData} (e : PanelEvent)
    (h : ShowsWith pics cfg spill p data) :
    ShowsWith pics cfg spill (panelNext pics cfg spill p e) ((drawnScanner p e).getD data) := by
  cases e with
  | frame frame =>
    intro hawake i j hi hj
    have hnow := h hawake i j hi hj
    have hflag : p.sleeping=false := hawake
    rw [panelNext,drawnScanner]
    dsimp only
    by_cases hrefresh : (modCanParseScanner p.params.scanner frame).refresh=true
    · rw [if_pos hrefresh,if_pos hrefresh,hflag]
      exact layout_scanner p.screen {p.params with scanner := data} _ hi hj hnow
    · rw [if_neg hrefresh,if_neg hrefresh]
      exact hnow
  | level level =>
    intro hawake i j hi hj
    rw [panelNext] at hawake ⊢
    by_cases hnew : p.params.rssi≠level
    · rw [if_pos hnew] at hawake ⊢
      have hflag : p.sleeping=false := hawake
      dsimp only
      rw [hflag]
      exact layout_level p.screen {p.params with scanner := data} level (h hflag i j hi hj)
    · rw [if_neg hnew] at hawake ⊢
      exact h hawake i j hi hj
  | battery powerMv status =>
    intro hawake i j hi hj
    rw [panelNext] at hawake ⊢
    by_cases hnew : powerMv≠p.params.powerMv ∨ p.params.batteryStatus≠status
    · rw [if_pos hnew] at hawake ⊢
      have hflag : p.sleeping=false := hawake
      dsimp only
      rw [hflag]
      exact layout_battery p.screen {p.params with scanner := data} powerMv status hi
        (h hflag i j hi hj)
    · rw [if_neg hnew] at hawake ⊢
      exact h hawake i j hi hj
  | connect type =>
    intro hawake i j hi hj
    have hflag : p.sleeping=false := hawake
    rw [panelNext]
    dsimp only
    rw [hflag]
    exact layout_link p.screen {p.params with scanner := data} type p.params.rssi
      (h hflag i j hi hj)
  | sleep left =>
    intro hawake
    exact absurd hawake Bool.true_eq_false_eq_False
  | wake left =>
    rw [panelNext,drawnScanner]
    cases hsleeping : p.sleeping with
    | true => exact showsWith_all (s := left) rfl
    | false => exact h

/-- Scanner values that agree but for the coordinates. -/
structure SameReadings (s t : ScannerData) : Prop where
  /-- The flag of the overbreak. -/
  overbreakValid : s.overbreakValid=t.overbreakValid
  /-- The overbreak. -/
  overbreakValue : s.overbreakValue=t.overbreakValue
  /-- The flag of the distance. -/
  laserValid : s.laserValid=t.laserValid
  /-- The distance. -/
  laserDistance : s.laserDistance=t.laserDistance

/-- A frame that does not refresh the screen brings coordinates, or nothing. -/
theorem sameReadings_parse (s : ScannerData) (frame : CanFrame)
    (h : (modCanParseScanner s frame).refresh=false) :
    SameReadings s (modCanParseScanner s frame).scanner := by
  rw [modCanParseScanner] at h ⊢
  split at h
  · exact absurd h Bool.true_eq_false_eq_False
  · rename_i hother
    rw [if_neg hother]
    split
    · exact ⟨rfl,rfl,rfl,rfl⟩
    · split <;> exact ⟨rfl,rfl,rfl,rfl⟩

/-- What has been drawn of the scanner differs from its values in the coordinates at most. -/
theorem sameReadings_next {p : Panel} {data : ScannerData} (e : PanelEvent)
    (h : p.sleeping=false → SameReadings data p.params.scanner) :
    (panelNext pics cfg spill p e).sleeping=false →
      SameReadings ((drawnScanner p e).getD data) (panelNext pics cfg spill p e).params.scanner := by
  intro hawake
  cases e with
  | frame frame =>
    have hnow := h hawake
    rw [panelNext,drawnScanner]
    dsimp only
    cases hrefresh : (modCanParseScanner p.params.scanner frame).refresh with
    | true => exact ⟨rfl,rfl,rfl,rfl⟩
    | false =>
      have hparse := sameReadings_parse p.params.scanner frame hrefresh
      exact ⟨hnow.1.trans hparse.1,hnow.2.trans hparse.2,hnow.3.trans hparse.3,
        hnow.4.trans hparse.4⟩
  | level level =>
    rw [panelNext] at hawake ⊢
    split at hawake
    · rename_i hnew
      rw [if_pos hnew]
      exact h hawake
    · rename_i hnew
      rw [if_neg hnew]
      exact h hawake
  | battery powerMv status =>
    rw [panelNext] at hawake ⊢
    split at hawake
    · rename_i hnew
      rw [if_pos hnew]
      exact h hawake
    · rename_i hnew
      rw [if_neg hnew]
      exact h hawake
  | connect type => exact h hawake
  | sleep left => exact absurd hawake Bool.true_eq_false_eq_False
  | wake left =>
    rw [panelNext,drawnScanner]
    cases hsleeping : p.sleeping with
    | true => exact ⟨rfl,rfl,rfl,rfl⟩
    | false => exact h hsleeping

/-- Without coordinates the rows tell overbreak and distance only. -/
theorem scannerArea_congr (hxyz : cfg.showXyz=false) {s t : ScannerData} (h : SameReadings s t) :
    scannerArea pics cfg spill s=scannerArea pics cfg spill t := by
  have hover : lineOf cfg spill s .overbreak=lineOf cfg spill t .overbreak := by
    simp only [lineOf,fieldText,Field.value,Field.valid,h.overbreakValid,h.overbreakValue]
  have hdistance : lineOf cfg spill s .distance=lineOf cfg spill t .distance := by
    simp only [lineOf,fieldText,Field.value,Field.valid,h.laserValid,h.laserDistance]
  funext i j
  unfold scannerArea
  dsimp only
  rw [hxyz,hover,hdistance]
  cases cfg.use8x16 <;> rfl

/-- The scanner values drawn last in a run. -/
def lastDrawn (pics : Pictures) (cfg : ScreenConfig) (spill : OverflowText) (p : Panel)
    (es : List PanelEvent) : ScannerData :=
  ((outputs (panelNext pics cfg spill) drawnScanner p es).filterMap id).getLast?.getD
    p.params.scanner

/-- Equal rows of a table have their size. -/
theorem size_replicate (n k : ℕ) : ∀ g∈List.replicate n (List.replicate k (0 : Byte)),g.length=k := by
  intro g hg
  rw [List.eq_of_mem_replicate hg]
  exact List.length_replicate

/-- Tables and pictures of the right sizes, all background. -/
def noPictures : Pictures where
  font8x16 := List.replicate 95 (List.replicate 16 0)
  font5x8 := List.replicate 95 (List.replicate 6 0)
  labelCan := List.replicate 16 0
  labelRf24 := List.replicate 16 0
  signalLevels := List.replicate 5 (List.replicate 32 0)
  batteryLevels := List.replicate 5 (List.replicate 48 0)
  iconCharging := List.replicate 32 0
  count8x16 := List.length_replicate
  count5x8 := List.length_replicate
  size8x16 := size_replicate 95 16
  size5x8 := size_replicate 95 6
  sizeLabelCan := List.length_replicate
  sizeLabelRf24 := List.length_replicate
  countSignal := List.length_replicate
  sizeSignal := size_replicate 5 32
  countBattery := List.length_replicate
  sizeBattery := size_replicate 5 48
  sizeCharging := List.length_replicate

/-- The parameters of a handler that has just started. -/
def startParams : GlobalParams := ⟨.can,0,0,.unknown,ScannerData.zero⟩

/-- The build of `prj.conf`. -/
def defaultConfig : ScreenConfig := ⟨⟨true,false⟩,true⟩

end Runs

section Hidden

variable {pics : Pictures} {cfg : ScreenConfig} {spill : OverflowText}

/-- A frame without the distance and its flag. -/
def withoutDistance (frame : CanFrame) : CanFrame :=
  if frame.id=ScannerPath.overbreakLaser.setWidth 32 then
    {frame with
      data := [frame.data.getD 0 0 &&& 1,frame.data.getD 1 0,frame.data.getD 2 0,
        frame.data.getD 3 0,0,0,0,0]
      size := rfl}
  else frame

/-- The same event without the distance. -/
def PanelEvent.withoutDistance : PanelEvent → PanelEvent
  | .frame f => .frame (HandlerScreen.withoutDistance f)
  | e => e

/-- Scanner values that agree but for the distance. -/
def forget (s : ScannerData) : ScannerData := {s with laserValid := 0,laserDistance := 0}

/-- With the large font and coordinates the rows hide the distance. -/
theorem scannerArea_forget (hfont : cfg.use8x16=true) (hxyz : cfg.showXyz=true) (s : ScannerData) :
    scannerArea pics cfg spill (forget s)=scannerArea pics cfg spill s := by
  have hline : ∀ f : Field,f≠.distance → lineOf cfg spill (forget s) f=lineOf cfg spill s f := by
    intro f hf
    cases f with
    | distance => exact absurd rfl hf
    | overbreak | x | y | z => rfl
  funext i j
  unfold scannerArea
  dsimp only
  rw [hfont,hxyz,hline .overbreak (by decide),hline .x (by decide),hline .y (by decide),
    hline .z (by decide)]

/-- The parser takes the rest of a frame without the distance alike. -/
theorem parse_withoutDistance {s t : ScannerData} (h : forget s=forget t) (frame : CanFrame) :
    forget (modCanParseScanner s frame).scanner=
        forget (modCanParseScanner t (withoutDistance frame)).scanner ∧
      (modCanParseScanner s frame).refresh=
        (modCanParseScanner t (withoutDistance frame)).refresh := by
  simp only [forget,ScannerData.mk.injEq,true_and] at h
  obtain ⟨hov,hval,hxyv,hx,hy,hzv,hz⟩ := h
  by_cases hid : frame.id=ScannerPath.overbreakLaser.setWidth 32
  · have hflag : ScannerPath.flagValue (frame.data.getD 0 0 &&& 1) 1=
        ScannerPath.flagValue (frame.data.getD 0 0) 1 := by
      rw [ScannerPath.flagValue,BitVec.and_assoc,BitVec.and_self]
      rfl
    have hblind : (withoutDistance frame).id=ScannerPath.overbreakLaser.setWidth 32 := by
      rw [withoutDistance,if_pos hid]
      exact hid
    rw [modCanParseScanner,modCanParseScanner,if_pos hid,if_pos hblind,withoutDistance,if_pos hid]
    refine ⟨?_,rfl⟩
    simp only [forget,ScannerData.mk.injEq,true_and]
    exact ⟨hflag.symm,rfl,hxyv,hx,hy,hzv,hz⟩
  · rw [withoutDistance,if_neg hid,modCanParseScanner,modCanParseScanner,if_neg hid,if_neg hid]
    split
    · refine ⟨?_,rfl⟩
      simp only [forget,ScannerData.mk.injEq,true_and]
      exact ⟨hov,hval,hzv,hz⟩
    · split
      · refine ⟨?_,rfl⟩
        simp only [forget,ScannerData.mk.injEq,true_and,and_true]
        exact ⟨hov,hval,hx,hy⟩
      · refine ⟨?_,rfl⟩
        simp only [forget,ScannerData.mk.injEq,true_and]
        exact ⟨hov,hval,hxyv,hx,hy,hzv,hz⟩

/-- Handlers that agree but for the distance, with the same screen while they are awake. -/
structure Alike (p q : Panel) : Prop where
  /-- `connect_type`. -/
  connectType : p.params.connectType=q.params.connectType
  /-- `rssi`. -/
  rssi : p.params.rssi=q.params.rssi
  /-- `power_mv`. -/
  powerMv : p.params.powerMv=q.params.powerMv
  /-- `battery_status`. -/
  batteryStatus : p.params.batteryStatus=q.params.batteryStatus
  /-- `scanner` without the distance. -/
  scanner : forget p.params.scanner=forget q.params.scanner
  /-- `sleeping`. -/
  sleeping : p.sleeping=q.sleeping
  /-- The screen. -/
  screen : p.sleeping=false → ∀ i j,i < screenWidth → j < screenHeight →
    p.screen i j=q.screen i j

/-- The same calls on screens that agree. -/
theorem display_congr {s t : Raster Bool} {i j : ℕ} (h : s i j=t i j) (calls : List WriteBuf) :
    display false s calls i j=display false t calls i j := by
  rw [display_awake,display_awake,h]

/-- The rows of two handlers that agree but for the distance. -/
theorem display_scanner_congr (hfont : cfg.use8x16=true) (hxyz : cfg.showXyz=true)
    {s t : ScannerData} (hst : forget s=forget t) {u v : Raster Bool} {i j : ℕ}
    (hi : i < screenWidth) (hj : j < screenHeight) (h : u i j=v i j) :
    display false u (modDisplayScanner pics cfg spill s) i j=
      display false v (modDisplayScanner pics cfg spill t) i j := by
  rw [display_awake,display_awake]
  by_cases hhead : j < 16
  · rw [drawn_scanner_outside hhead,drawn_scanner_outside hhead,h]
  · rw [drawn_scanner hi (by omega) hj,drawn_scanner hi (by omega) hj,
      ←scannerArea_forget hfont hxyz s,←scannerArea_forget hfont hxyz t,hst]
    rfl

/-- Two handlers stay alike when one of them is not told the distance. -/
theorem alike_next (hfont : cfg.use8x16=true) (hxyz : cfg.showXyz=true) {p q : Panel}
    (e : PanelEvent) (h : Alike p q) :
    Alike (panelNext pics cfg spill p e) (panelNext pics cfg spill q e.withoutDistance) := by
  cases e with
  | frame frame =>
    obtain ⟨hscanner,hrefresh⟩ := parse_withoutDistance h.scanner frame
    refine ⟨h.connectType,h.rssi,h.powerMv,h.batteryStatus,hscanner,h.sleeping,?_⟩
    intro hawake i j hi hj
    have hp : p.sleeping=false := hawake
    have hq : q.sleeping=false := h.sleeping.symm.trans hp
    have hnow := h.screen hp i j hi hj
    rw [PanelEvent.withoutDistance,panelNext,panelNext]
    dsimp only
    rw [←hrefresh,hp,hq]
    split
    · exact display_scanner_congr hfont hxyz hscanner hi hj hnow
    · exact hnow
  | level level =>
    dsimp only [PanelEvent.withoutDistance]
    rw [panelNext,panelNext,←h.rssi]
    split
    · refine ⟨h.connectType,rfl,h.powerMv,h.batteryStatus,h.scanner,h.sleeping,?_⟩
      intro hawake i j hi hj
      have hp : p.sleeping=false := hawake
      dsimp only
      rw [←h.sleeping,hp,←h.connectType]
      exact display_congr (h.screen hp i j hi hj) _
    · exact h
  | battery powerMv status =>
    dsimp only [PanelEvent.withoutDistance]
    rw [panelNext,panelNext,←h.powerMv,←h.batteryStatus]
    split
    · refine ⟨h.connectType,h.rssi,rfl,rfl,h.scanner,h.sleeping,?_⟩
      intro hawake i j hi hj
      have hp : p.sleeping=false := hawake
      dsimp only
      rw [←h.sleeping,hp]
      exact display_congr (h.screen hp i j hi hj) _
    · exact h
  | connect type =>
    refine ⟨rfl,h.rssi,h.powerMv,h.batteryStatus,h.scanner,h.sleeping,?_⟩
    intro hawake i j hi hj
    have hp : p.sleeping=false := hawake
    dsimp only [PanelEvent.withoutDistance]
    rw [panelNext,panelNext]
    dsimp only
    rw [←h.sleeping,hp,←h.rssi]
    exact display_congr (h.screen hp i j hi hj) _
  | sleep left =>
    exact ⟨h.connectType,h.rssi,h.powerMv,h.batteryStatus,h.scanner,rfl,fun _ _ _ _ _ => rfl⟩
  | wake left =>
    dsimp only [PanelEvent.withoutDistance]
    rw [panelNext,panelNext,←h.sleeping]
    split
    · refine ⟨h.connectType,h.rssi,h.powerMv,h.batteryStatus,h.scanner,rfl,?_⟩
      intro _ i j hi hj
      dsimp only
      rw [display_all left spill _ hi hj,display_all left spill _ hi hj]
      unfold layout
      rw [h.connectType,h.rssi,h.powerMv,h.batteryStatus,
        ←scannerArea_forget hfont hxyz p.params.scanner,
        ←scannerArea_forget hfont hxyz q.params.scanner,h.scanner]
    · exact h

/-- With the large font and coordinates the screen never tells the laser distance: in every run
it is the same point by point as if no frame had brought one. -/
theorem distance_never_shown (hfont : cfg.use8x16=true) (hxyz : cfg.showXyz=true)
    (params : GlobalParams) (left : Raster Bool) (es : List PanelEvent)
    (hawake : (finalState (panelNext pics cfg spill) (panelInit pics cfg spill params left)
      es).sleeping=false) {i j : ℕ} (hi : i < screenWidth) (hj : j < screenHeight) :
    (finalState (panelNext pics cfg spill) (panelInit pics cfg spill params left) es).screen i j=
      (finalState (panelNext pics cfg spill) (panelInit pics cfg spill params left)
        (es.map PanelEvent.withoutDistance)).screen i j := by
  have hstep : ∀ (p q : Panel) (e : PanelEvent),Alike p q →
      Alike (panelNext pics cfg spill p e) (panelNext pics cfg spill q e.withoutDistance) :=
    fun _ _ e h => alike_next hfont hxyz e h
  have hrun := finalState_simulation hstep
    (⟨rfl,rfl,rfl,rfl,rfl,rfl,fun _ _ _ _ _ => rfl⟩ :
      Alike (panelInit pics cfg spill params left) (panelInit pics cfg spill params left)) es
  have hmap : finalState (panelNext pics cfg spill) (panelInit pics cfg spill params left)
      (es.map PanelEvent.withoutDistance)=finalState (fun q e =>
        panelNext pics cfg spill q e.withoutDistance) (panelInit pics cfg spill params left) es :=
    List.foldl_map
  rw [hmap]
  exact hrun.screen hawake i j hi hj

/-- A distance of nine metres is a frame like any other for a point of the row it would be in. -/
theorem distance_never_shown_nine :
    let cfg : ScreenConfig := ⟨⟨true,true⟩,true⟩
    let frame : CanFrame := ⟨0x263,8,[3,0,0,5,0,0,0x23,0x28],rfl⟩
    (finalState (panelNext noPictures cfg fun _ => [])
        (panelInit noPictures cfg (fun _ => []) startParams fun _ _ => true)
        [.frame frame]).screen 40 44=
      (finalState (panelNext noPictures cfg fun _ => [])
        (panelInit noPictures cfg (fun _ => []) startParams fun _ _ => true)
        [.frame (withoutDistance frame)]).screen 40 44 :=
  distance_never_shown rfl rfl startParams (fun _ _ => true)
    [.frame ⟨0x263,8,[3,0,0,5,0,0,0x23,0x28],rfl⟩] rfl (by decide) (by decide)

end Hidden

end ZephyrApp.HandlerScreen

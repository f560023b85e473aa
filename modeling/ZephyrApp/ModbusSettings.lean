import ZephyrApp.MachineBytes
import ZephyrApp.DaqRegisters

/-!
# Saved settings of the data collector

The settings handler exports ranges of the holding register array under names
and reads them back by name. A saved value is the memory of its range, so the
register array is also seen as bytes, low byte first. Names are C strings; the
settings subsystem hands a saved name on without the name of its handler.
-/

namespace ZephyrApp.ModbusSettings

open MachineBytes DaqRegisters

/-- A byte of the register array. -/
def regByte (regs : HoldingRegs) (k : ℕ) : Byte :=
  if h : k/2<holdingNumbers then
    let reg := regs ⟨k/2,h⟩
    if k%2=0 then reg.extractLsb' 0 8 else reg.extractLsb' 8 8
  else 0

/-- Store one byte of the register array; a store outside it is dropped. -/
def storeByte (regs : HoldingRegs) (k : ℕ) (b : Byte) : HoldingRegs :=
  if h : k/2<holdingNumbers then
    let reg := regs ⟨k/2,h⟩
    Function.update regs ⟨k/2,h⟩
      (if k%2=0 then reg.extractLsb' 8 8++b else b++reg.extractLsb' 0 8)
  else regs

/-- Store bytes one after another. -/
def storeBytes (regs : HoldingRegs) (k : ℕ) : List Byte → HoldingRegs
  | [] => regs
  | b::bytes => storeBytes (storeByte regs k b) (k+1) bytes

/-- The memory of the array from a register on. -/
def memory (regs : HoldingRegs) (idx : HoldingIdx) (len : ℕ) : List Byte :=
  (List.range len).map fun k => regByte regs (2*idx+k)

/-- The two bytes of a register are its two bytes in memory. -/
theorem regByte_pair (regs : HoldingRegs) (idx : HoldingIdx) :
    regs idx=regByte regs (2*idx+1)++regByte regs (2*idx) := by
  have h1 : (2*(idx : ℕ)+1)/2=idx := by omega
  have h0 : (2*(idx : ℕ))/2=idx := by omega
  have m1 : ¬(2*(idx : ℕ)+1)%2=0 := by omega
  have m0 : (2*(idx : ℕ))%2=0 := by omega
  simp only [regByte,h1,h0,idx.isLt,dif_pos,m1,m0,if_true,if_false]
  apply BitVec.eq_of_getLsbD_eq
  intro i hi
  grind

/-- The low byte of a half word made of two bytes. -/
theorem low_append (hi lo : Byte) : BitVec.extractLsb' 0 8 (hi++lo : Half)=lo :=
  BitVec.extractLsb'_append_eq_right

/-- The high byte of a half word made of two bytes. -/
theorem high_append (hi lo : Byte) : BitVec.extractLsb' 8 8 (hi++lo : Half)=hi :=
  BitVec.extractLsb'_append_eq_left

/-- A stored byte is read back and the others keep their value. -/
theorem regByte_storeByte (regs : HoldingRegs) (k : ℕ) (b : Byte) (j : ℕ) :
    regByte (storeByte regs k b) j=
      if j=k ∧ k/2<holdingNumbers then b else regByte regs j := by
  by_cases hk : k/2<holdingNumbers
  · rw [storeByte,dif_pos hk]
    simp only [hk,and_true]
    by_cases hj : j/2<holdingNumbers
    · rw [regByte,dif_pos hj,regByte,dif_pos hj]
      by_cases hsame : j/2=k/2
      · have hidx : (⟨j/2,hj⟩ : HoldingIdx)=⟨k/2,hk⟩ := Fin.ext hsame
        rw [hidx,Function.update_self]
        have hparity : j=k ↔ j%2=k%2 := by omega
        simp only [hparity]
        rcases Nat.mod_two_eq_zero_or_one k with hk2 | hk2 <;>
          rcases Nat.mod_two_eq_zero_or_one j with hj2 | hj2 <;>
          simp [hk2,hj2,low_append,high_append]
      · have hjk : j≠k := fun he => hsame (he▸rfl)
        have hidx : (⟨j/2,hj⟩ : HoldingIdx)≠⟨k/2,hk⟩ := fun he => hsame (Fin.mk.inj he)
        rw [Function.update_of_ne hidx,if_neg hjk]
    · have hjk : j≠k := fun he => hj (he▸hk)
      rw [regByte,dif_neg hj,regByte,dif_neg hj,if_neg hjk]
  · rw [storeByte,dif_neg hk,if_neg (fun h => hk h.2)]

/-- Bytes that were stored from a position on are read back from there. -/
theorem regByte_storeBytes (regs : HoldingRegs) (k : ℕ) (bytes : List Byte) (j : ℕ)
    (hj : j/2<holdingNumbers) :
    regByte (storeBytes regs k bytes) j=
      if k≤j ∧ j<k+bytes.length then bytes.getD (j-k) 0 else regByte regs j := by
  induction bytes generalizing regs k with
  | nil => rw [storeBytes,if_neg (by simp only [List.length_nil]; omega)]
  | cons b bytes ih =>
    rw [storeBytes,ih,regByte_storeByte,List.length_cons]
    by_cases hjk : j=k
    · subst hjk
      rw [if_neg (by omega),if_pos ⟨rfl,hj⟩,if_pos (by omega),Nat.sub_self,List.getD_cons_zero]
    · by_cases hin : k+1≤j ∧ j<k+1+bytes.length
      · rw [if_pos hin,if_pos (by omega),show j-k=(j-(k+1))+1 by omega,List.getD_cons_succ]
      · rw [if_neg hin,if_neg (fun h => hjk h.1),if_neg (by omega)]

/-- `settings_name_next`: the length of the first part of a name and, after a
separator, the rest. -/
def settingsNameNext : List Char → ℕ × Option (List Char)
  | [] => (0,none)
  | c::name =>
    if c = '=' then (0,none)
    else if c = '/' then (0,some name)
    else
      let r := settingsNameNext name
      (r.1+1,r.2)

/-- `strncmp` finds no difference in the first characters of two strings. -/
def strncmpEq : List Char → List Char → ℕ → Bool
  | _,_,0 => true
  | [],[],_ => true
  | a::as,b::bs,n+1 => decide (a=b) && strncmpEq as bs n
  | _,_,_ => false

/-- `settings_name_steq`: a name starts with the given handler name; the part
after the separator is returned. -/
def settingsNameSteq : List Char → List Char → Option (Option (List Char))
  | c::name,k::key => if c=k ∧ c ≠ '=' then settingsNameSteq name key else none
  | [],_::_ => none
  | '/' ::name,[] => some (some name)
  | '=' ::_,[] => some none
  | [],[] => some none
  | _::_,[] => none

/-- A range of the register array: its first register and its size in bytes. -/
abbrev Range := HoldingIdx × ℕ

/-- `sizeof(uint16_t)`. -/
abbrev sizeofU16 : ℕ := 2

/-- The range that `mb_handle_set` reads a name into, none for `-ENOENT`. -/
def setRange (name : List Char) : Option Range :=
  match settingsNameNext name with
  | (nameLen,none) =>
    if strncmpEq name "history".toList nameLen then some (holdingHisSaveIdx,sizeofU16)
    else if strncmpEq name "rs485_bps".toList nameLen then some (holdingRs485BpsIdx,sizeofU16)
    else if strncmpEq name "slave_id".toList nameLen then some (holdingSlaveIdIdx,sizeofU16)
    else if strncmpEq name "tcp_port".toList nameLen then some (holdingTcpPortIdx,sizeofU16)
    else if strncmpEq name "net_mode".toList nameLen then some (holdingNetModeIdx,sizeofU16)
    else if strncmpEq name "ip".toList nameLen then some (holdingIpAddr1Idx,sizeofU16*4)
    else none
  | (nameLen,some _) =>
    let rest := name.drop (nameLen+1)
    let sub (key : List Char) : Bool :=
      match settingsNameNext rest with
      | (len,none) => strncmpEq rest key len
      | (_,some _) => false
    if strncmpEq name "ai".toList nameLen then
      if sub "enable".toList then some (holdingAiEnIdx,sizeofU16)
      else if sub "time".toList then some (holdingAiSiIdx,sizeofU16)
      else none
    else if strncmpEq name "di".toList nameLen then
      if sub "enable".toList then some (holdingDiEnIdx,sizeofU16)
      else if sub "time".toList then some (holdingDiSiIdx,sizeofU16)
      else none
    else if strncmpEq name "can".toList nameLen then
      if sub "id".toList then some (holdingCanIdIdx,sizeofU16)
      else if sub "bps".toList then some (holdingCanBpsIdx,sizeofU16)
      else none
    else if strncmpEq name "heart".toList nameLen then
      if sub "enable".toList then some (holdingHeartEnIdx,sizeofU16)
      else if sub "time".toList then some (holdingHeartTimeoutIdx,sizeofU16)
      else none
    else none

/-- `read_cb`: at most the given number of bytes of the saved value are read
into the register array. -/
def readCb (value : List Byte) (regs : HoldingRegs) (range : Range) : HoldingRegs :=
  storeBytes regs (2*range.1) (value.take range.2)

/-- `mb_handle_set`, none for `-ENOENT`. -/
def mbHandleSet (name : List Char) (value : List Byte) (regs : HoldingRegs) :
    Option HoldingRegs :=
  (setRange name).map (readCb value regs)

/-- The check of `mb_handle_export` that lets the IP address be saved. -/
def IpValid (regs : HoldingRegs) : Prop :=
  getHoldingReg regs holdingIpAddr4Idx≠0xff ∧ getHoldingReg regs holdingIpAddr4Idx≠0 ∧
    ¬(224≤getHoldingReg regs holdingIpAddr1Idx ∧ getHoldingReg regs holdingIpAddr1Idx≤239)

instance (regs : HoldingRegs) : Decidable (IpValid regs) :=
  inferInstanceAs (Decidable (_ ∧ _ ∧ ¬(_ ∧ _)))

/-- The names of `mb_handle_export` before the IP address, with their ranges. -/
def exportsBefore : List (List Char × Range) :=
  [("modbus/ai/enable".toList,holdingAiEnIdx,sizeofU16),
    ("modbus/ai/time".toList,holdingAiSiIdx,sizeofU16),
    ("modbus/di/enable".toList,holdingDiEnIdx,sizeofU16),
    ("modbus/di/time".toList,holdingDiSiIdx,sizeofU16),
    ("modbus/history".toList,holdingHisSaveIdx,sizeofU16),
    ("modbus/can/id".toList,holdingCanIdIdx,sizeofU16),
    ("modbus/can/bps".toList,holdingCanBpsIdx,sizeofU16),
    ("modbus/rs485_bps".toList,holdingRs485BpsIdx,sizeofU16),
    ("modbus/slave_id".toList,holdingSlaveIdIdx,sizeofU16),
    ("modbus/tcp_port".toList,holdingTcpPortIdx,sizeofU16),
    ("modbus/net_mode".toList,holdingNetModeIdx,sizeofU16)]

/-- The IP address, saved as one range of four registers. -/
def exportsIp : List (List Char × Range) :=
  [("modbus/ip".toList,holdingIpAddr1Idx,sizeofU16*4)]

/-- The names of `mb_handle_export` after the IP address, with their ranges. -/
def exportsAfter : List (List Char × Range) :=
  [("modbus/heart/enable".toList,holdingHeartEnIdx,sizeofU16),
    ("modbus/heart/time".toList,holdingHeartTimeoutIdx,sizeofU16)]

/-- The names and ranges that `mb_handle_export` saves. -/
def exports (regs : HoldingRegs) : List (List Char × Range) :=
  exportsBefore++(if IpValid regs then exportsIp else [])++exportsAfter

/-- `mb_handle_export`: the pairs of name and bytes passed to the callback. -/
def mbHandleExport (regs : HoldingRegs) : List (List Char × List Byte) :=
  (exports regs).map fun row => (row.1,memory regs row.2.1 row.2.2)

/-- The settings subsystem finds the handler of a saved name and calls it with
the rest of the name. -/
def loadOne (regs : HoldingRegs) (saved : List Char × List Byte) : HoldingRegs :=
  match settingsNameSteq saved.1 "modbus".toList with
  | some (some key) => (mbHandleSet key saved.2 regs).getD regs
  | _ => regs

/-- `settings_load`: all saved pairs in the order of the store. -/
def settingsLoad (saved : List (List Char × List Byte)) (regs : HoldingRegs) : HoldingRegs :=
  saved.foldl loadOne regs

/-- A register lies in a range. -/
def InRange (range : Range) (idx : HoldingIdx) : Prop :=
  2*range.1.val≤2*idx ∧ 2*idx.val+2≤2*range.1+range.2

instance (range : Range) (idx : HoldingIdx) : Decidable (InRange range idx) :=
  inferInstanceAs (Decidable (_ ∧ _))

/-- A register is saved under some name. -/
def Exported (regs : HoldingRegs) (idx : HoldingIdx) : Prop :=
  ∃ row∈exports regs,InRange row.2 idx

instance (regs : HoldingRegs) (idx : HoldingIdx) : Decidable (Exported regs idx) :=
  inferInstanceAs (Decidable (∃ row∈exports regs,_))

/-- A byte of the register array lies in a range. -/
def Covers (range : Range) (j : ℕ) : Prop := 2*range.1.val≤j ∧ j<2*range.1+range.2

instance (range : Range) (j : ℕ) : Decidable (Covers range j) :=
  inferInstanceAs (Decidable (_ ∧ _))

/-- All rows that can be exported. -/
def rows : List (List Char × Range) := exportsBefore++exportsIp++exportsAfter

/-- The pair that is saved for a row. -/
def savedPair (src : HoldingRegs) (row : List Char × Range) : List Char × List Byte :=
  (row.1,memory src row.2.1 row.2.2)

/-- The range that a saved name is loaded into. -/
def loadRange (name : List Char) : Option Range :=
  match settingsNameSteq name "modbus".toList with
  | some (some key) => setRange key
  | _ => none

/-- The reader's table takes every exported name to the range that the
writer's table saved under it. -/
theorem loadRange_rows : ∀ row∈rows,loadRange row.1=some row.2 := by decide

/-- Exported rows are among all rows. -/
theorem exports_subset (regs : HoldingRegs) : exports regs⊆rows := by
  intro row hrow
  simp only [exports,rows,List.mem_append] at hrow ⊢
  split at hrow
  · exact hrow
  · exact hrow.imp_left fun h => h.imp_right fun h => absurd h List.not_mem_nil

/-- A saved range that is read back gives its bytes the saved values. -/
theorem regByte_readCb (src regs : HoldingRegs) (range : Range) {j : ℕ}
    (hj : j/2<holdingNumbers) :
    regByte (readCb (memory src range.1 range.2) regs range) j=
      if Covers range j then regByte src j else regByte regs j := by
  have hlen : (memory src range.1 range.2).length=range.2 := by
    simp only [memory,List.length_map,List.length_range]
  rw [readCb,List.take_of_length_le hlen.le,regByte_storeBytes _ _ _ _ hj,hlen]
  by_cases hc : Covers range j
  · have hlt : j-2*range.1<(memory src range.1 range.2).length := by
      rw [hlen]
      obtain ⟨hlo,hhi⟩ := hc
      omega
    have hpos : 2*(range.1 : ℕ)+(j-2*range.1)=j := Nat.add_sub_cancel' hc.1
    have hget : (memory src range.1 range.2).getD (j-2*range.1) 0=regByte src j := by
      rw [List.getD_eq_getElem _ _ hlt]
      simp only [memory,List.getElem_map,List.getElem_range,hpos]
    rw [if_pos (show 2*(range.1 : ℕ)≤j ∧ j<2*range.1+range.2 from hc),if_pos hc,hget]
  · rw [if_neg (show ¬(2*(range.1 : ℕ)≤j ∧ j<2*range.1+range.2) from hc),if_neg hc]

/-- Loading the pair of a row reads its range back. -/
theorem loadOne_savedPair (src regs : HoldingRegs) {row : List Char × Range} (hrow : row∈rows) :
    loadOne regs (savedPair src row)=readCb (memory src row.2.1 row.2.2) regs row.2 := by
  have hrange := loadRange_rows row hrow
  simp only [loadRange] at hrange
  simp only [loadOne,savedPair]
  split at hrange
  · simp only [mbHandleSet,hrange,Option.map_some,Option.getD_some]
  · cases hrange

/-- After any saved pairs are loaded, a byte has the saved value if one of the
pairs covers it and its earlier value otherwise. -/
theorem regByte_settingsLoad (src : HoldingRegs) (saved : List (List Char × List Byte))
    (hsaved : ∀ x∈saved,∃ row∈rows,x=savedPair src row) (regs : HoldingRegs) {j : ℕ}
    (hj : j/2<holdingNumbers) :
    regByte (settingsLoad saved regs) j=
      if ∃ row∈rows,savedPair src row∈saved ∧ Covers row.2 j then regByte src j
      else regByte regs j := by
  induction saved generalizing regs with
  | nil =>
    rw [if_neg (fun ⟨_,_,h,_⟩ => absurd h List.not_mem_nil)]
    rfl
  | cons x saved ih =>
    obtain ⟨row,hrow,rfl⟩ := hsaved x List.mem_cons_self
    have hrest := ih (fun y hy => hsaved y (List.mem_cons_of_mem _ hy))
      (loadOne regs (savedPair src row))
    rw [settingsLoad,List.foldl_cons]
    rw [settingsLoad] at hrest
    rw [hrest,loadOne_savedPair src regs hrow,regByte_readCb src regs row.2 hj]
    by_cases hin : ∃ r∈rows,savedPair src r∈saved ∧ Covers r.2 j
    · obtain ⟨r,hr,hmem,hc⟩ := hin
      rw [if_pos ⟨r,hr,hmem,hc⟩,if_pos ⟨r,hr,List.mem_cons_of_mem _ hmem,hc⟩]
    · rw [if_neg hin]
      by_cases hc : Covers row.2 j
      · rw [if_pos hc,if_pos ⟨row,hrow,List.mem_cons_self,hc⟩]
      · rw [if_neg hc,if_neg]
        rintro ⟨r,hr,hmem,hcr⟩
        rcases List.mem_cons.mp hmem with heq | hmem
        · -- two rows saved under one name are loaded into one range
          have hname : r.1=row.1 := (Prod.ext_iff.mp heq).1
          have hrange : some r.2=some row.2 := by
            rw [←loadRange_rows r hr,←loadRange_rows row hrow,hname]
          exact hc (Option.some.inj hrange▸hcr)
        · exact hin ⟨r,hr,hmem,hcr⟩

/-- All ranges hold whole registers. -/
theorem rows_whole : ∀ row∈rows,row.2.2%2=0 := by decide

/-- The saved pairs, in any order, restore the exported registers and keep the others. -/
theorem settingsLoad_export (src regs : HoldingRegs) {saved : List (List Char × List Byte)}
    (hperm : saved.Perm (mbHandleExport src)) (idx : HoldingIdx) :
    settingsLoad saved regs idx=if Exported src idx then src idx else regs idx := by
  have hmem : ∀ x,x∈saved ↔ ∃ row∈exports src,savedPair src row=x := fun x => by
    rw [hperm.mem_iff]
    exact List.mem_map
  have hsaved : ∀ x∈saved,∃ row∈rows,x=savedPair src row := by
    intro x hx
    obtain ⟨row,hrow,rfl⟩ := (hmem x).mp hx
    exact ⟨row,exports_subset src hrow,rfl⟩
  have hcovered : ∀ j : ℕ,j/2=idx → ((∃ row∈rows,savedPair src row∈saved ∧ Covers row.2 j) ↔
      Exported src idx) := by
    intro j hj
    constructor
    · rintro ⟨row,hrow,hin,hlo,hhi⟩
      obtain ⟨row',hrow',heq⟩ := (hmem _).mp hin
      have hname : row'.1=row.1 := (Prod.ext_iff.mp heq).1
      have hrange : row'.2=row.2 := by
        have h := loadRange_rows row' (exports_subset src hrow')
        rw [hname,loadRange_rows row hrow] at h
        exact (Option.some.inj h).symm
      have heven := rows_whole row hrow
      refine ⟨row',hrow',?_⟩
      rw [hrange]
      constructor <;> omega
    · rintro ⟨row,hrow,hlo,hhi⟩
      refine ⟨row,exports_subset src hrow,(hmem _).mpr ⟨row,hrow,rfl⟩,?_⟩
      constructor <;> omega
  have hbyte : ∀ j : ℕ,j/2=idx → regByte (settingsLoad saved regs) j=
      if Exported src idx then regByte src j else regByte regs j := by
    intro j hj
    rw [regByte_settingsLoad src saved hsaved regs (hj▸idx.isLt)]
    by_cases he : Exported src idx
    · rw [if_pos ((hcovered j hj).mpr he),if_pos he]
    · rw [if_neg (fun h => he ((hcovered j hj).mp h)),if_neg he]
  rw [regByte_pair (settingsLoad saved regs),hbyte _ (by omega),hbyte _ (by omega)]
  split
  · exact (regByte_pair src idx).symm
  · exact (regByte_pair regs idx).symm

/-- The four registers of the IP address. -/
def ipRegisters : List HoldingIdx :=
  [holdingIpAddr1Idx,holdingIpAddr2Idx,holdingIpAddr3Idx,holdingIpAddr4Idx]

/-- The registers that keep their value over a restart: seventeen, under fourteen keys. -/
def savedRegisters : List HoldingIdx :=
  [holdingAiEnIdx,holdingAiSiIdx,holdingDiEnIdx,holdingDiSiIdx,holdingHisSaveIdx,holdingCanIdIdx,
    holdingCanBpsIdx,holdingRs485BpsIdx,holdingSlaveIdIdx,holdingTcpPortIdx,holdingNetModeIdx]++
    ipRegisters++[holdingHeartEnIdx,holdingHeartTimeoutIdx]

example : savedRegisters.Nodup ∧ savedRegisters.length=17 := by decide

/-- With a valid IP address all rows are exported. -/
theorem exports_of_valid {regs : HoldingRegs} (hip : IpValid regs) : exports regs=rows := by
  rw [exports,if_pos hip,rows]

/-- The ranges of all rows are the saved registers. -/
theorem inRange_rows_iff : ∀ idx,(∃ row∈rows,InRange row.2 idx) ↔ idx∈savedRegisters := by decide

/-- With a valid IP address the saved registers are the exported ones. -/
theorem exported_iff {regs : HoldingRegs} (hip : IpValid regs) (idx : HoldingIdx) :
    Exported regs idx ↔ idx∈savedRegisters := by
  rw [Exported,exports_of_valid hip]
  exact inRange_rows_iff idx

/-- For registers with a valid IP address, the pairs exported under the fourteen
keys cover exactly the seventeen saved registers, the four of the IP address
included; replayed in any order over the boot defaults they restore these
registers and change no other one. -/
theorem settings_round_trip (regs : HoldingRegs) (t : BitVec 32)
    (saved : List (List Char × List Byte)) (hip : IpValid regs)
    (hperm : saved.Perm (mbHandleExport regs)) :
    saved.length=14 ∧ (∀ idx,Exported regs idx ↔ idx∈savedRegisters) ∧
      (∀ idx∈savedRegisters,settingsLoad saved (modbusInit t) idx=regs idx) ∧
      (∀ idx∉savedRegisters,settingsLoad saved (modbusInit t) idx=modbusInit t idx) ∧
      ∀ idx∈ipRegisters,Exported regs idx := by
  have hexported := exported_iff hip
  refine ⟨?_,hexported,fun idx hidx => ?_,fun idx hidx => ?_,fun idx hidx => ?_⟩
  · rw [hperm.length_eq,mbHandleExport,List.length_map,exports_of_valid hip]
    rfl
  · rw [settingsLoad_export regs _ hperm,if_pos ((hexported idx).mpr hidx)]
  · rw [settingsLoad_export regs _ hperm,if_neg (mt (hexported idx).mp hidx)]
  · exact (hexported idx).mpr (List.mem_append_left _ (List.mem_append_right _ hidx))

/-- Registers none of which has its default. -/
def changedRegs : HoldingRegs := fun idx => BitVec.ofNat 16 (1000+idx)

/-- Registers that all differ from the defaults, saved and replayed backwards: the
saved ones come back, and the others have their defaults. -/
theorem settings_round_trip_changed :
    (∀ idx,modbusInit 0 idx≠changedRegs idx) ∧
      ∀ idx,settingsLoad (mbHandleExport changedRegs).reverse (modbusInit 0) idx=
        if idx∈savedRegisters then changedRegs idx else modbusInit 0 idx := by
  have hip : IpValid changedRegs := by decide
  obtain ⟨-,-,hrestored,hkept,-⟩ :=
    settings_round_trip changedRegs 0 _ hip (List.reverse_perm (mbHandleExport changedRegs))
  refine ⟨by decide,fun idx => ?_⟩
  split
  · rename_i hidx
    exact hrestored idx hidx
  · rename_i hidx
    exact hkept idx hidx

end ZephyrApp.ModbusSettings

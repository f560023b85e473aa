import Mathlib

/-!
# Register bank of the data collector

The Modbus callbacks of the data collector work on an array of sixteen bit
holding registers and an array of coil bytes. The names of the holding
registers, the bounds checks of the callbacks, the reaction of a holding
register write and the defaults that `modbus_init` stores are written as the
source computes them. A rejected address is `none` and changes nothing.
-/

namespace ZephyrApp.DaqRegisters

/-- `CONFIG_MODBUS_HOLDING_REGISTER_NUMBERS` and `HOLDING_MAX_IDX`. -/
abbrev holdingNumbers : ℕ := 23

/-- `CONFIG_MODBUS_COLS_REGISTER_NUMBERS`. -/
abbrev colsNumbers : ℕ := 8

/-- `holding_idx`: the position of a register in the holding register array. -/
abbrev HoldingIdx := Fin holdingNumbers

/-- DO bits 0 to 7. -/
abbrev holdingDoIdx : HoldingIdx := 0
/-- DI enable bits. -/
abbrev holdingDiEnIdx : HoldingIdx := 1
/-- AI enable bits. -/
abbrev holdingAiEnIdx : HoldingIdx := 2
/-- DI sampling interval in milliseconds. -/
abbrev holdingDiSiIdx : HoldingIdx := 3
/-- AI sampling interval in milliseconds. -/
abbrev holdingAiSiIdx : HoldingIdx := 4
/-- History writing, disabled at zero. -/
abbrev holdingHisSaveIdx : HoldingIdx := 5
/-- CAN address. -/
abbrev holdingCanIdIdx : HoldingIdx := 6
/-- CAN bit rate. -/
abbrev holdingCanBpsIdx : HoldingIdx := 7
/-- RS485 baud rate. -/
abbrev holdingRs485BpsIdx : HoldingIdx := 8
/-- Modbus RTU slave id. -/
abbrev holdingSlaveIdIdx : HoldingIdx := 9
/-- First part of the IP address. -/
abbrev holdingIpAddr1Idx : HoldingIdx := 10
/-- Second part of the IP address. -/
abbrev holdingIpAddr2Idx : HoldingIdx := 11
/-- Third part of the IP address. -/
abbrev holdingIpAddr3Idx : HoldingIdx := 12
/-- Fourth part of the IP address. -/
abbrev holdingIpAddr4Idx : HoldingIdx := 13
/-- High half of the time stamp. -/
abbrev holdingTimestamphIdx : HoldingIdx := 14
/-- Low half of the time stamp. -/
abbrev holdingTimestamplIdx : HoldingIdx := 15
/-- Saving of the configuration. -/
abbrev holdingCfgSaveIdx : HoldingIdx := 16
/-- Reboot request. -/
abbrev holdingRebootIdx : HoldingIdx := 17
/-- Heartbeat supervision, disabled at zero. -/
abbrev holdingHeartEnIdx : HoldingIdx := 18
/-- Heartbeat timeout in milliseconds. -/
abbrev holdingHeartTimeoutIdx : HoldingIdx := 19
/-- Heartbeat counter. -/
abbrev holdingHeartIdx : HoldingIdx := 20
/-- Modbus TCP server port. -/
abbrev holdingTcpPortIdx : HoldingIdx := 21
/-- Network mode, static at zero and DHCP at one. -/
abbrev holdingNetModeIdx : HoldingIdx := 22

/-- `holding_reg`. -/
abbrev HoldingRegs := HoldingIdx → BitVec 16

/-- `get_holding_reg`: zero for an address outside the array. -/
def getHoldingReg (regs : HoldingRegs) (addr : ℕ) : BitVec 16 :=
  if h : addr<holdingNumbers then regs ⟨addr,h⟩ else 0

/-- What `holding_reg_wr` calls after it stored a register. -/
inductive WriteCall
  /-- Nothing. -/
  | nothing
  /-- `mb_set_do` with the low byte. -/
  | mbSetDo (reg : BitVec 16)
  /-- `history_enable_write`. -/
  | historyEnableWrite (enable : Bool)
  /-- `set_timestamp` with both time stamp registers. -/
  | setTimestamp (val : BitVec 32)
  /-- `settings_save`. -/
  | settingsSave
  /-- `sys_reboot`. -/
  | sysReboot
deriving DecidableEq

/-- `holding_reg_wr`: the registers after the store and the call that follows
it. The save request is cleared before the settings are saved. -/
def holdingRegWr (regs : HoldingRegs) (addr : ℕ) (reg : BitVec 16) :
    Option (HoldingRegs × WriteCall) :=
  if h : addr<holdingNumbers then
    let idx : HoldingIdx := ⟨addr,h⟩
    let stored := Function.update regs idx reg
    some <|
      if idx=holdingDoIdx then (stored,.mbSetDo (reg&&&0xff))
      else if idx=holdingHisSaveIdx then (stored,.historyEnableWrite (reg != 0))
      else if idx=holdingTimestamphIdx ∨ idx=holdingTimestamplIdx then
        (stored,.setTimestamp
          (((stored holdingTimestamphIdx).zeroExtend 32<<<16)|||
            (stored holdingTimestamplIdx).zeroExtend 32))
      else if idx=holdingCfgSaveIdx then (Function.update stored idx 0,.settingsSave)
      else if idx=holdingRebootIdx then (stored,.sysReboot)
      else (stored,.nothing)
  else none

/-- `coils_state`: one byte an element, of which the coils use the first. -/
abbrev Coils := Fin colsNumbers → BitVec 8

/-- The element of `coils_state` that holds a coil. -/
def coilByte {addr : ℕ} (h : addr<colsNumbers) : Fin colsNumbers := ⟨addr/8,by omega⟩

/-- `coil_rd`. -/
def coilRd (coils : Coils) (addr : ℕ) : Option Bool :=
  if h : addr<colsNumbers then
    some (coils (coilByte h)&&&BitVec.twoPow 8 (addr%8) != 0)
  else none

/-- `coil_wr`: a coil that is switched on has its bit set, one that is
switched off has it cleared. -/
def coilWr (coils : Coils) (addr : ℕ) (state : Bool) : Option Coils :=
  if h : addr<colsNumbers then
    let byte := coils (coilByte h)
    let bit := BitVec.twoPow 8 (addr%8)
    some (Function.update coils (coilByte h) (if state then byte|||bit else byte&&&~~~bit))
  else none

/-- `holding_regs`: the defaults of the registers, zero where the table names none. -/
def holdingRegs : HoldingRegs := fun idx =>
  if idx=holdingDiEnIdx then 0xffff
  else if idx=holdingAiEnIdx then 0xf
  else if idx=holdingDiSiIdx then 200
  else if idx=holdingAiSiIdx then 200
  else if idx=holdingHisSaveIdx then 0
  else if idx=holdingCanIdIdx then 0x111
  else if idx=holdingCanBpsIdx then 10
  else if idx=holdingRs485BpsIdx then 9600
  else if idx=holdingSlaveIdIdx then 0x1
  else if idx=holdingIpAddr1Idx then 192
  else if idx=holdingIpAddr2Idx then 168
  else if idx=holdingIpAddr3Idx then 12
  else if idx=holdingIpAddr4Idx then 101
  else if idx=holdingHeartTimeoutIdx then 2000
  else if idx=holdingTcpPortIdx then 502
  else if idx=holdingNetModeIdx then 0
  else 0

/-- The loop of `modbus_init` over the defaults. -/
def storeDefaults (regs : HoldingRegs) : List HoldingIdx → HoldingRegs
  | [] => regs
  | i::rest =>
    storeDefaults (if holdingRegs i≠0 then Function.update regs i (holdingRegs i) else regs) rest

/-- `modbus_init` before it loads the settings: the defaults over the zeroed
array, then the clock in the two time stamp registers. -/
def modbusInit (t : BitVec 32) : HoldingRegs :=
  let regs := storeDefaults (fun _ => 0) (List.finRange holdingNumbers)
  Function.update
    (Function.update regs holdingTimestamphIdx ((t>>>16).truncate 16))
    holdingTimestamplIdx (t.truncate 16)

/-- A write of the DO register stores the value and passes on its low byte. -/
theorem holdingRegWr_do (regs : HoldingRegs) (reg : BitVec 16) :
    holdingRegWr regs holdingDoIdx reg=
      some (Function.update regs holdingDoIdx reg,.mbSetDo (reg&&&0xff)) := by
  rw [holdingRegWr,dif_pos holdingDoIdx.isLt]
  rfl

/-- A write of the heartbeat enable register is a plain store. -/
theorem holdingRegWr_heartEn (regs : HoldingRegs) (reg : BitVec 16) :
    holdingRegWr regs holdingHeartEnIdx reg=
      some (Function.update regs holdingHeartEnIdx reg,.nothing) := by
  rw [holdingRegWr,dif_pos holdingHeartEnIdx.isLt]
  rfl

/-- A coil is read as its bit. -/
theorem coilRd_eq_getLsbD (coils : Coils) {addr : ℕ} (h : addr<colsNumbers) :
    coilRd coils addr=some ((coils 0).getLsbD addr) := by
  have h8 : addr<8 := h
  have hbyte : coilByte h=0 := Fin.ext (Nat.div_eq_of_lt h)
  have hmod : addr%8=addr := Nat.mod_eq_of_lt h
  have hnonzero : BitVec.twoPow 8 addr≠0#8 := by
    intro he
    have hbit := congrArg (·.getLsbD addr) he
    simp [h8] at hbit
  rw [coilRd,dif_pos h,hbyte,hmod,BitVec.and_twoPow]
  cases (coils 0).getLsbD addr <;> simp [hnonzero]

/-- A coil write changes the coil that it names and no other. -/
theorem coilRd_coilWr {coils coils' : Coils} {addr : ℕ} {state : Bool}
    (h : coilWr coils addr state=some coils') (a : ℕ) :
    coilRd coils' a=if a=addr then some state else coilRd coils a := by
  unfold coilWr at h
  split at h
  · rename_i haddr
    obtain rfl := Option.some.inj h
    have hbyte : coilByte haddr=0 := Fin.ext (Nat.div_eq_of_lt haddr)
    have hmod : addr%8=addr := Nat.mod_eq_of_lt haddr
    by_cases ha : a<colsNumbers
    · have h8 : a<8 := ha
      rw [coilRd_eq_getLsbD _ ha,coilRd_eq_getLsbD _ ha,hbyte,hmod,Function.update_self]
      cases state <;> grind
    · have hne : a≠addr := fun he => ha (he▸haddr)
      rw [if_neg hne,coilRd,dif_neg ha,coilRd,dif_neg ha]
  · cases h

end ZephyrApp.DaqRegisters

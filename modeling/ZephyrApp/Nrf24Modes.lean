import ZephyrApp.EventRuns
import ZephyrApp.Nrf24Chip

/-!
# The radio driver's view of the mode

The calls of the driver that change the mode or program the chip, one after
the other. The software keeps the mode it has last set; the chip has the bits
of `CONFIG`, the line CE and its supply. Programming the chip powers it up
whatever the mode, and a chip without supply takes no mode at all.
-/

namespace ZephyrApp.Nrf24Modes

open MachineBytes EventRuns Nrf24Chip

/-- What becomes of a payload that is sent. -/
inductive SendOutcome where
  /-- An acknowledgement arrives. -/
  | acked
  /-- The retransmissions are used up. -/
  | maxRt
  /-- The time runs out. -/
  | timeout
deriving DecidableEq

/-- A call of the driver. -/
inductive Nrf24Call where
  /-- `nrf24_configure`. -/
  | configure (cfg : Option Nrf24Cfg)
  /-- `nrf24_set_mode`. -/
  | setMode (mode : Nrf24Mode)
  /-- `nrf24_start_rx`. -/
  | startRx
  /-- `nrf24_send`, the outcome being the chip's. -/
  | send (p : TxPayload) (outcome : SendOutcome)
  /-- `nrf24_power_enable`. -/
  | powerEnable (enable : Bool)

/-- `nrf24_power_apply`: without supply the registers are lost. -/
def nrf24PowerApply (s : Radio) (enable : Bool) : Radio :=
  {s with
    supplied := enable
    chip := if enable then s.chip else .reset}

/-- The payload leaves the FIFO when it is acknowledged. -/
def transmit (s : Radio) : SendOutcome → Radio
  | .acked => {s with chip := {s.chip with txFifo := s.chip.txFifo.tail}}
  | .maxRt => s
  | .timeout => s

/-- The flags of a finished transmission. -/
def txFlags : Byte := bit txDsBit ||| bit maxRtBit

/-- The part of `nrf24_send` before the wait. -/
def sendStart (p : TxPayload) : List DriverOp :=
  setModeLocked .ptx++[.flushTx,.writeReg regStatus txFlags,.writeTxPayload p,.setCe true]

/-- The part of `nrf24_send` between the wait and the return to reception. -/
def sendCleanup : SendOutcome → List DriverOp
  | .acked => [.setCe false]
  | .maxRt => [.setCe false,.flushTx]
  | .timeout => [.setCe false,.flushTx,.writeReg regStatus txFlags]

/-- The part of `nrf24_send` after the wait. -/
def sendFinish (outcome : SendOutcome) : List DriverOp :=
  sendCleanup outcome++setModeLocked .prx

/-- `nrf24_send`. -/
def nrf24Send (s : Radio) (p : TxPayload) (outcome : SendOutcome) : Radio :=
  if p.bytes.length=0 ∨ nrf24MaxPayload<p.bytes.length then s
  else (transmit (s.run (sendStart p)) outcome).run (sendFinish outcome)

/-- `nrf24_power_enable`. -/
def nrf24PowerEnable (cfg : Nrf24Config) (s : Radio) (enable : Bool) : Radio :=
  if cfg.hasPower=false then s
  else if enable then
    {(nrf24PowerApply s true).run (applyConfigWith cfg true) with
      ready := true
      mode := .prx
      ce := true}
  else nrf24PowerApply {s.run (setModeLocked .powerDown) with ready := false} false

/-- One call. -/
def driverCall (cfg : Nrf24Config) (s : Radio) : Nrf24Call → Radio
  | .configure c => s.run (applyConfigWith (mergeCfg cfg c) (decide (s.mode=.prx)))
  | .setMode mode => s.run (setModeLocked mode)
  | .startRx => s.run (setModeLocked .prx)
  | .send p outcome => nrf24Send s p outcome
  | .powerEnable enable => nrf24PowerEnable cfg s enable

/-- The device with its chip supplied, before the chip is programmed. -/
def unprogrammed : Radio := ⟨.reset,true,false,.standby,false⟩

/-- `nrf24_init`. -/
def nrf24Init (cfg : Nrf24Config) : Radio :=
  {unprogrammed.run (applyConfigWith cfg true) with
    ready := true
    mode := .prx
    ce := true}

/-- A bit of `CONFIG`; without supply none is set. -/
def configBit (s : Radio) (i : ℕ) : Bool := s.supplied && (s.chip.reg regConfig).getLsbD i

/-- The mode that the software keeps is the hardware's. -/
structure ModeMirrored (s : Radio) : Prop where
  /-- The chip is powered up except in the mode power-down. -/
  pwrUp : configBit s pwrUp=true ↔ s.mode≠.powerDown
  /-- The chip is a receiver in the mode PRX only. -/
  primRx : configBit s primRx=true ↔ s.mode=.prx
  /-- CE is high in the mode PRX only. -/
  ce : s.ce=true ↔ s.mode=.prx
  /-- The device is ready when the chip is supplied. -/
  ready : s.ready=true ↔ s.supplied=true

/-- A call does not program a chip that is supplied but powered down, and sets
no mode other than power-down on a chip without supply. -/
def KeepsMirror (s : Radio) : Nrf24Call → Prop
  | .configure _ => s.supplied=true → s.mode≠.powerDown
  | .setMode mode => mode≠.powerDown → s.supplied=true
  | .startRx => s.supplied=true
  | .send p _ => 0<p.bytes.length ∧ p.bytes.length≤nrf24MaxPayload → s.supplied=true
  | .powerEnable _ => True

section Accesses

/-- The value of `CONFIG` after an access. -/
def configAfter (v : Byte) : DriverOp → Byte
  | .writeReg r w => if r=regConfig then w else v
  | .modeConfig mode => modeConfig mode v
  | _ => v

/-- The level of CE after an access. -/
def ceAfter (level : Bool) : DriverOp → Bool
  | .setCe l => l
  | _ => level

/-- The recorded mode after an access. -/
def modeAfter (mode : Nrf24Mode) : DriverOp → Nrf24Mode
  | .setMode m => m
  | _ => mode

/-- An access changes `CONFIG` as its value alone tells. -/
theorem access_config (c : Chip) (op : DriverOp) :
    (c.access op).reg regConfig=configAfter (c.reg regConfig) op := by
  cases op with
  | writeReg r v =>
    simp only [Chip.access,Chip.writeReg,configAfter]
    by_cases hstatus : r=regStatus
    · have hne : regStatus≠regConfig := by decide
      rw [if_pos hstatus,hstatus,if_neg hne]
    · rw [if_neg hstatus]
      by_cases hconfig : r=regConfig
      · rw [if_pos hconfig,hconfig]
        exact Function.update_self regConfig v c.reg
      · rw [if_neg hconfig]
        exact Function.update_of_ne (Ne.symm hconfig) v c.reg
  | modeConfig mode =>
    exact Function.update_self regConfig (modeConfig mode (c.reg regConfig)) c.reg
  | writeTxPayload p =>
    simp only [Chip.access,configAfter]
    split <;> rfl
  | writeMulti r bytes => rfl
  | flushTx => rfl
  | flushRx => rfl
  | setCe level => rfl
  | setMode mode => rfl

/-- What an access leaves of the lines and the software's state. -/
theorem access_lines (s : Radio) (op : DriverOp) :
    (s.access op).ce=ceAfter s.ce op ∧ (s.access op).mode=modeAfter s.mode op ∧
      (s.access op).ready=s.ready ∧ (s.access op).supplied=s.supplied := by
  cases op <;> simp only [Radio.access,ceAfter,modeAfter,and_self]
  all_goals split <;> exact ⟨rfl,rfl,rfl,rfl⟩

/-- What a procedure leaves of the lines and the software's state. -/
theorem run_lines (s : Radio) (ops : List DriverOp) :
    (s.run ops).ce=ops.foldl ceAfter s.ce ∧ (s.run ops).mode=ops.foldl modeAfter s.mode ∧
      (s.run ops).ready=s.ready ∧ (s.run ops).supplied=s.supplied := by
  induction ops generalizing s with
  | nil => exact ⟨rfl,rfl,rfl,rfl⟩
  | cons op ops ih =>
    obtain ⟨hce,hmode,hready,hsupplied⟩ := access_lines s op
    have hrest := ih (s.access op)
    rw [hce,hmode,hready,hsupplied] at hrest
    exact hrest

/-- What a procedure leaves in `CONFIG` of a chip that is supplied. -/
theorem run_config {s : Radio} (hs : s.supplied=true) (ops : List DriverOp) :
    (s.run ops).chip.reg regConfig=ops.foldl configAfter (s.chip.reg regConfig) := by
  induction ops generalizing s with
  | nil => rfl
  | cons op ops ih =>
    have hsupplied : (s.access op).supplied=true := (access_lines s op).2.2.2.trans hs
    have hconfig : (s.access op).chip.reg regConfig=configAfter (s.chip.reg regConfig) op := by
      cases op with
      | setCe level => rfl
      | setMode mode => rfl
      | writeReg r v => simp only [Radio.access,hs,if_true,access_config]
      | writeMulti r bytes => simp only [Radio.access,hs,if_true,access_config]
      | flushTx => simp only [Radio.access,hs,if_true,access_config]
      | flushRx => simp only [Radio.access,hs,if_true,access_config]
      | modeConfig mode => simp only [Radio.access,hs,if_true,access_config]
      | writeTxPayload p => simp only [Radio.access,hs,if_true,access_config]
    have hrest := ih hsupplied
    rw [hconfig] at hrest
    exact hrest

/-- The two mode bits of `CONFIG` after they are replaced. -/
theorem modeConfig_bits (mode : Nrf24Mode) (config : Byte) :
    ((modeConfig mode config).getLsbD pwrUp=true ↔ mode≠.powerDown) ∧
      ((modeConfig mode config).getLsbD primRx=true ↔ mode=.prx) := by
  cases mode <;> simp [modeConfig,modeBits,pwrUp,primRx,bit]

/-- The two mode bits of the programmed `CONFIG`. -/
theorem configByte_bits (cfg : Nrf24Config) (prim : Bool) :
    (configByte cfg prim).getLsbD pwrUp=true ∧ (configByte cfg prim).getLsbD primRx=prim := by
  unfold configByte
  cases prim <;> split <;> decide

/-- Programming the chip leaves the lines and the software's state alone. -/
theorem applyConfigWith_lines (cfg : Nrf24Config) (prim : Bool) (level : Bool)
    (mode : Nrf24Mode) :
    (applyConfigWith cfg prim).foldl ceAfter level=level ∧
      (applyConfigWith cfg prim).foldl modeAfter mode=mode := by
  simp only [applyConfigWith,List.foldl_append]
  split <;> exact ⟨rfl,rfl⟩

/-- Programming the chip leaves its own value in `CONFIG`. -/
theorem applyConfigWith_config (cfg : Nrf24Config) (prim : Bool) (v : Byte) :
    (applyConfigWith cfg prim).foldl configAfter v=configByte cfg prim := by
  simp only [applyConfigWith,List.foldl_append]
  split <;> rfl

/-- What the programming of the chip leaves. -/
theorem run_applyConfigWith (s : Radio) (cfg : Nrf24Config) (prim : Bool) :
    (s.run (applyConfigWith cfg prim)).ce=s.ce ∧
      (s.run (applyConfigWith cfg prim)).mode=s.mode ∧
      (s.run (applyConfigWith cfg prim)).ready=s.ready ∧
      (s.run (applyConfigWith cfg prim)).supplied=s.supplied ∧
      configBit (s.run (applyConfigWith cfg prim)) pwrUp=s.supplied ∧
      configBit (s.run (applyConfigWith cfg prim)) primRx=(s.supplied && prim) := by
  obtain ⟨hce,hmode,hready,hsupplied⟩ := run_lines s (applyConfigWith cfg prim)
  rw [(applyConfigWith_lines cfg prim s.ce s.mode).1] at hce
  rw [(applyConfigWith_lines cfg prim s.ce s.mode).2] at hmode
  refine ⟨hce,hmode,hready,hsupplied,?_,?_⟩
  · unfold configBit
    rw [hsupplied]
    cases hs : s.supplied with
    | false => rfl
    | true => rw [run_config hs,applyConfigWith_config,(configByte_bits cfg prim).1,Bool.true_and]
  · unfold configBit
    rw [hsupplied]
    cases hs : s.supplied with
    | false => rfl
    | true => rw [run_config hs,applyConfigWith_config,(configByte_bits cfg prim).2]

/-- Any procedure that ends by setting a mode leaves the mode, CE and, on a
chip that is supplied, `CONFIG` in agreement. -/
theorem run_setModeLocked (s : Radio) (ops : List DriverOp) (mode : Nrf24Mode) :
    (s.run (ops++setModeLocked mode)).mode=mode ∧
      ((s.run (ops++setModeLocked mode)).ce=true ↔ mode=.prx) ∧
      (s.run (ops++setModeLocked mode)).ready=s.ready ∧
      (s.run (ops++setModeLocked mode)).supplied=s.supplied ∧
      (s.supplied=true →
        (configBit (s.run (ops++setModeLocked mode)) pwrUp=true ↔ mode≠.powerDown) ∧
        (configBit (s.run (ops++setModeLocked mode)) primRx=true ↔ mode=.prx)) := by
  obtain ⟨hce,hmode,hready,hsupplied⟩ := run_lines s (ops++setModeLocked mode)
  rw [List.foldl_append] at hce hmode
  refine ⟨hmode,?_,hready,hsupplied,fun hs => ?_⟩
  · rw [hce]
    exact decide_eq_true_iff
  · have hconfig := run_config hs (ops++setModeLocked mode)
    rw [List.foldl_append] at hconfig
    have hbits := modeConfig_bits mode (ops.foldl configAfter (s.chip.reg regConfig))
    simp only [configBit,hsupplied,hs,hconfig,Bool.true_and]
    exact hbits

end Accesses

section Mirror

variable (cfg : Nrf24Config) {s : Radio}

/-- The chip's side of the mirror without supply. -/
theorem configBit_unsupplied (h : s.supplied=false) (i : ℕ) : configBit s i=false := by
  rw [configBit,h,Bool.false_and]

/-- Setting a mode keeps the mirror exactly when the chip is supplied or the
mode is power-down. -/
theorem setModeLocked_mirrored (h : s.ready=true ↔ s.supplied=true) (ops : List DriverOp)
    (mode : Nrf24Mode) :
    ModeMirrored (s.run (ops++setModeLocked mode)) ↔ (mode≠.powerDown → s.supplied=true) := by
  obtain ⟨hmode,hce,hready,hsupplied,hbits⟩ := run_setModeLocked s ops mode
  constructor
  · intro hmirror hne
    have hup := hmirror.pwrUp.mpr (by rw [hmode]; exact hne)
    rw [configBit,hsupplied,Bool.and_eq_true] at hup
    exact hup.1
  · intro hok
    cases hs : s.supplied with
    | true =>
      obtain ⟨hup,hprim⟩ := hbits hs
      exact ⟨by rw [hup,hmode],by rw [hprim,hmode],by rw [hce,hmode],
        by rw [hready,hsupplied,h]⟩
    | false =>
      have hdown : mode=.powerDown := by
        by_contra hne
        exact absurd (hok hne) (by rw [hs]; exact Bool.false_ne_true)
      have hoff := configBit_unsupplied (hsupplied.trans hs)
      have hnotprx : Nrf24Mode.powerDown≠.prx := by decide
      rw [hdown] at hmode hce hready hsupplied hoff ⊢
      exact ⟨by rw [hoff,hmode]; simp only [Bool.false_eq_true,ne_eq,not_true_eq_false],
        by rw [hoff,hmode]; simp only [Bool.false_eq_true,hnotprx],
        by rw [hce,hmode],by rw [hready,hsupplied,h]⟩

/-- Programming the chip keeps the mirror exactly when the chip is without
supply or not powered down. -/
theorem configure_mirrored (h : ModeMirrored s) (c : Nrf24Config) :
    ModeMirrored (s.run (applyConfigWith c (decide (s.mode=.prx)))) ↔
      (s.supplied=true → s.mode≠.powerDown) := by
  obtain ⟨hce,hmode,hready,hsupplied,hup,hprim⟩ :=
    run_applyConfigWith s c (decide (s.mode=.prx))
  constructor
  · intro hmirror hs
    have hbit := hmirror.pwrUp
    rw [hup,hmode] at hbit
    exact hbit.mp hs
  · intro hok
    have hoff : s.supplied=false → s.mode=.powerDown := fun hs => by
      by_contra hne
      have hset := h.pwrUp.mpr hne
      rw [configBit_unsupplied hs] at hset
      exact Bool.false_ne_true hset
    refine ⟨?_,?_,?_,?_⟩
    · rw [hup,hmode]
      exact ⟨hok,fun hne => Bool.eq_true_of_not_eq_false fun hs => hne (hoff hs)⟩
    · rw [hprim,hmode,Bool.and_eq_true,decide_eq_true_iff]
      refine and_iff_right_of_imp fun hprx => Bool.eq_true_of_not_eq_false fun hs => ?_
      have hdown := hoff hs
      rw [hprx] at hdown
      exact nomatch hdown
    · rw [hce,hmode]
      exact h.ce
    · rw [hready,hsupplied]
      exact h.ready

/-- The state that powering up and booting end with is mirrored. -/
theorem programmed_mirrored (c : Nrf24Config) {r : Radio} (hr : r.supplied=true) :
    ModeMirrored {r.run (applyConfigWith c true) with
      ready := true
      mode := .prx
      ce := true} := by
  obtain ⟨-,-,-,hsupplied,hup,hprim⟩ := run_applyConfigWith r c true
  rw [hr] at hsupplied hup hprim
  rw [configBit] at hup hprim
  have hne : Nrf24Mode.prx≠.powerDown := by decide
  refine ⟨?_,?_,?_,?_⟩
  · rw [configBit]
    exact iff_of_true hup hne
  · rw [configBit]
    exact iff_of_true hprim rfl
  · exact iff_of_true rfl rfl
  · exact iff_of_true rfl hsupplied

/-- Booting leaves the mode mirrored. -/
theorem nrf24Init_mirrored : ModeMirrored (nrf24Init cfg) := programmed_mirrored cfg rfl

/-- Switching the supply always leaves the mode mirrored. -/
theorem nrf24PowerEnable_mirrored (h : ModeMirrored s) (enable : Bool) :
    ModeMirrored (nrf24PowerEnable cfg s enable) := by
  unfold nrf24PowerEnable
  split
  · exact h
  · cases enable with
    | true => exact programmed_mirrored cfg rfl
    | false =>
      obtain ⟨hmode,hce,-,-,-⟩ := run_setModeLocked s [] .powerDown
      rw [List.nil_append] at hmode hce
      refine ⟨?_,?_,?_,?_⟩
      · exact iff_of_false Bool.false_ne_true (not_not_intro hmode)
      · refine iff_of_false Bool.false_ne_true fun hprx => ?_
        have hne := hmode.symm.trans hprx
        exact nomatch hne
      · exact hce.trans (iff_of_eq (congrArg (·=Nrf24Mode.prx) hmode.symm))
      · exact Iff.rfl

/-- Sending leaves the mode mirrored exactly when nothing is sent, the length
being refused, or the chip is supplied. -/
theorem nrf24Send_mirrored (h : ModeMirrored s) (p : TxPayload) (outcome : SendOutcome) :
    ModeMirrored (nrf24Send s p outcome) ↔
      (0<p.bytes.length ∧ p.bytes.length≤nrf24MaxPayload → s.supplied=true) := by
  unfold nrf24Send
  split
  · rename_i hrefused
    exact iff_of_true h fun hlen => absurd hrefused (by omega)
  · rename_i hlen
    have hready : (transmit (s.run (sendStart p)) outcome).ready=s.ready := by
      rw [←(run_lines s (sendStart p)).2.2.1]
      cases outcome <;> rfl
    have hsupplied : (transmit (s.run (sendStart p)) outcome).supplied=s.supplied := by
      rw [←(run_lines s (sendStart p)).2.2.2]
      cases outcome <;> rfl
    have hiff := setModeLocked_mirrored (s := transmit (s.run (sendStart p)) outcome)
      (by rw [hready,hsupplied]; exact h.ready) (sendCleanup outcome) .prx
    rw [hsupplied] at hiff
    rw [sendFinish,hiff]
    have hprx : Nrf24Mode.prx≠.powerDown := by decide
    exact ⟨fun hs _ => hs hprx,fun hs _ => hs (by omega)⟩

/-- A call keeps the mirror exactly when it meets the condition. -/
theorem driverCall_mirrored (s : Radio) (call : Nrf24Call) (h : ModeMirrored s) :
    ModeMirrored (driverCall cfg s call) ↔ KeepsMirror s call := by
  cases call with
  | configure c => exact configure_mirrored h (mergeCfg cfg c)
  | setMode mode => exact setModeLocked_mirrored h.ready [] mode
  | startRx =>
    have hprx : Nrf24Mode.prx≠.powerDown := by decide
    exact (setModeLocked_mirrored h.ready [] .prx).trans ⟨fun hs => hs hprx,fun hs _ => hs⟩
  | send p outcome => exact nrf24Send_mirrored h p outcome
  | powerEnable enable => exact iff_of_true (nrf24PowerEnable_mirrored cfg h enable) trivial

/-- Throughout a sequence of calls the software's mode is the hardware's,
exactly when no call programs a chip that is supplied but powered down or sets
another mode than power-down on a chip without supply. -/
theorem modeMirrored_iff (calls : List Nrf24Call) :
    Throughout (driverCall cfg) ModeMirrored (nrf24Init cfg) calls ↔
      AlongRun (driverCall cfg) KeepsMirror (nrf24Init cfg) calls :=
  throughout_iff_alongRun (driverCall_mirrored cfg) (nrf24Init_mirrored cfg) calls

end Mirror

/-- A configuration of the device. -/
def sampleConfig : Nrf24Config :=
  ⟨true,1,"250k","0dbm",5,"dynamic",32,"2-byte",0x10,5,[1,2,3,4,5]⟩

/-- Programming a radio that has been set to power-down powers it up behind the
software's back. -/
theorem configure_powers_up :
    ¬Throughout (driverCall sampleConfig) ModeMirrored (nrf24Init sampleConfig)
      [.setMode .powerDown,.configure none] := by
  rintro ⟨-,-,hmirror⟩
  have hup := hmirror.pwrUp
  revert hup
  decide

end ZephyrApp.Nrf24Modes

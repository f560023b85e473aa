import ZephyrApp.LinkQuality
import ZephyrApp.Nrf24Modes
import ZephyrApp.Rf24Send

/-!
# What a failed transmission reports

The driver's sending function has two cleanup labels. The exits before the
payload is in the chip pass both without a word about the result, which the
handler keeps on its stack and feeds to the signal quality after its last
attempt. An earlier attempt that got further has left a failure there.
-/

namespace ZephyrApp.Rf24SendResult

open MachineBytes Nrf24Chip Nrf24Crypt LinkQuality Rf24Send

/-- What a call of `nrf24_send` meets: the values returned by the transfers
that it looks at, the wait, and what the interrupt thread has read. The other
transfers are made without a look at their values. -/
structure SendEnv where
  /-- The transfer that reads `CONFIG` for the mode PTX. -/
  readConfig : ℤ
  /-- The transfer that writes it. -/
  writeConfig : ℤ
  /-- The transfer of the payload. -/
  writePayload : ℤ
  /-- `k_sem_take`. -/
  semTake : ℤ
  /-- `last_status`. -/
  lastStatus : Byte
  /-- `last_observe_tx`. -/
  lastObserveTx : Byte

/-- `struct nrf24_tx_result` in memory, none while nothing was written to it. -/
abbrev ResultCell := Option TxResult

/-- `set_mode_locked` by the values of its two transfers. -/
def setModeLocked (readConfig writeConfig : ℤ) : ℤ :=
  if readConfig < 0 then readConfig
  else if writeConfig < 0 then writeConfig
  else 0

/-- `nrf24_send`: the value returned and the result's memory. -/
def nrf24Send (len : ℕ) (env : SendEnv) (result : ResultCell) : ℤ×ResultCell :=
  if len=0 ∨ nrf24MaxPayload < len then (-22,result)
  else
    let ret := setModeLocked env.readConfig env.writeConfig
    if ret < 0 then (ret,result)
    else if env.writePayload < 0 then (env.writePayload,result)
    else if env.semTake < 0 then (-11,some ⟨false,0⟩)
    else
      let maxRt := env.lastStatus.getLsbD maxRtBit
      (if maxRt then -5 else 0,some ⟨!maxRt,env.lastObserveTx&&&0x0F⟩)

/-- The loop of `rf24_data_send` from an attempt on, with the number of
attempts after it. -/
def sendLoop (len : ℕ) (attempts : ℕ → SendEnv) (attempt : ℕ) : ℕ → ResultCell → ℤ×ResultCell
  | 0,result => nrf24Send len (attempts attempt) result
  | left+1,result =>
    let report := nrf24Send len (attempts attempt) result
    if report.1=0 then report else sendLoop len attempts (attempt+1) left report.2

/-- What `rf24_data_send` hands to `rf24_update_rssi`. -/
inductive Fed where
  /-- The call ended before the first attempt. -/
  | nothing
  /-- Memory that nothing was written to. -/
  | uninitialised
  /-- A result. -/
  | given (r : TxResult)
deriving DecidableEq

/-- `rf24_data_send` with the frame it builds: the value returned and what the
signal quality is fed. -/
def rf24DataSend (frame : Option (List Byte)) (attempts : ℕ → SendEnv) : Bool×Fed :=
  match frame with
  | none => (false,.nothing)
  | some frame =>
    let (ret,result) := sendLoop frame.length attempts 0 rf24TxRetries none
    (decide (ret=0),result.elim .uninitialised .given)

/-- The transfers up to the payload succeed. -/
def BusWorks (env : SendEnv) : Prop :=
  0 ≤ env.readConfig ∧ 0 ≤ env.writeConfig ∧ 0 ≤ env.writePayload

instance (env : SendEnv) : Decidable (BusWorks env) := inferInstanceAs (Decidable (_ ∧ _))

/-- Whatever was in the memory, a call that fails leaves a failed result there. -/
def SetsFailure (len : ℕ) (env : SendEnv) : Prop :=
  ∀ result : ResultCell,(nrf24Send len env result).1≠0 →
    ∃ r,(nrf24Send len env result).2=some r ∧ r.acked=false

/-- The signal quality is fed what the call returns, or nothing. -/
def RightlyFed (report : Bool×Fed) : Prop :=
  match report.2 with
  | .nothing => True
  | .uninitialised => False
  | .given r => r.acked=report.1

section Attempts

variable {len : ℕ} {env : SendEnv}

/-- A call that ends before the payload is in the chip fails and writes nothing. -/
theorem nrf24Send_early (h : ¬(0 < len ∧ len ≤ nrf24MaxPayload ∧ BusWorks env))
    (result : ResultCell) :
    (nrf24Send len env result).1≠0 ∧ (nrf24Send len env result).2=result := by
  rw [nrf24Send]
  by_cases hlen : len=0 ∨ nrf24MaxPayload < len
  · rw [if_pos hlen]
    exact ⟨show (-22 : ℤ)≠0 by decide,rfl⟩
  · have hbus : ¬BusWorks env := fun hbus => h ⟨by omega,by omega,hbus⟩
    rw [if_neg hlen,setModeLocked]
    unfold BusWorks at hbus
    dsimp only
    split_ifs <;> first | exact ⟨by dsimp only; omega,rfl⟩ | omega

/-- A call that gets further writes a result that agrees with what it returns. -/
theorem nrf24Send_late (hlen : 0 < len ∧ len ≤ nrf24MaxPayload) (hbus : BusWorks env)
    (result : ResultCell) :
    ∃ r,(nrf24Send len env result).2=some r ∧
      r.acked=decide ((nrf24Send len env result).1=0) := by
  obtain ⟨hread,hwrite,hpayload⟩ := hbus
  have hmode : setModeLocked env.readConfig env.writeConfig=0 := by
    rw [setModeLocked,if_neg (by omega),if_neg (by omega)]
  rw [nrf24Send,if_neg (by omega)]
  dsimp only
  rw [if_neg (by omega),if_neg (by omega)]
  by_cases hsem : env.semTake < 0
  · rw [if_pos hsem]
    exact ⟨_,rfl,rfl⟩
  · rw [if_neg hsem]
    refine ⟨_,rfl,?_⟩
    dsimp only
    cases env.lastStatus.getLsbD maxRtBit <;> rfl

/-- A call leaves a failure whenever it fails exactly if it gets past the payload. -/
theorem setsFailure_iff :
    SetsFailure len env ↔ 0 < len ∧ len ≤ nrf24MaxPayload ∧ BusWorks env := by
  constructor
  · intro h
    by_contra hearly
    obtain ⟨hret,hcell⟩ := nrf24Send_early hearly none
    obtain ⟨r,hr,-⟩ := h none hret
    rw [hcell] at hr
    nomatch hr
  · rintro ⟨hpos,hmax,hbus⟩ result hret
    obtain ⟨r,hr,hacked⟩ := nrf24Send_late ⟨hpos,hmax⟩ hbus result
    exact ⟨r,hr,hacked.trans (decide_eq_false hret)⟩

end Attempts

section Loop

variable {len : ℕ} {attempts : ℕ → SendEnv}

/-- If the memory holds a failure, it holds what the call returns after the loop. -/
theorem sendLoop_of_failure (hlen : 0 < len ∧ len ≤ nrf24MaxPayload) (left attempt : ℕ)
    {r : TxResult} (hr : r.acked=false) :
    ∃ r',(sendLoop len attempts attempt left (some r)).2=some r' ∧
      r'.acked=decide ((sendLoop len attempts attempt left (some r)).1=0) := by
  have hone : ∀ {attempt : ℕ} {r : TxResult},r.acked=false →
      ∃ r',(nrf24Send len (attempts attempt) (some r)).2=some r' ∧
        r'.acked=decide ((nrf24Send len (attempts attempt) (some r)).1=0) := by
    intro attempt r hr
    by_cases hbus : BusWorks (attempts attempt)
    · exact nrf24Send_late hlen hbus (some r)
    · obtain ⟨hret,hcell⟩ := nrf24Send_early (fun h => hbus h.2.2) (some r)
      exact ⟨r,hcell,hr.trans (decide_eq_false hret).symm⟩
  induction left generalizing attempt r with
  | zero => exact hone hr
  | succ left ih =>
    obtain ⟨r',hcell,hacked⟩ := hone hr
    rw [sendLoop]
    split
    · exact ⟨r',hcell,hacked⟩
    · rename_i hret
      rw [hcell]
      exact ih (attempt+1) (hacked.trans (decide_eq_false hret))

/-- From untouched memory the loop leaves what the call returns exactly if one
of its attempts gets past the payload; otherwise it fails and writes nothing. -/
theorem sendLoop_of_none (hlen : 0 < len ∧ len ≤ nrf24MaxPayload) (left attempt : ℕ) :
    let report := sendLoop len attempts attempt left none
    if ∃ i≤left,BusWorks (attempts (attempt+i)) then
      ∃ r,report.2=some r ∧ r.acked=decide (report.1=0)
    else report.2=none := by
  induction left generalizing attempt with
  | zero =>
    simp only [Nat.le_zero_eq,exists_eq_left,Nat.add_zero]
    split
    · rename_i hbus
      exact nrf24Send_late hlen hbus none
    · rename_i hbus
      exact (nrf24Send_early (fun h => hbus h.2.2) none).2
  | succ left ih =>
    dsimp only
    by_cases hbus : BusWorks (attempts attempt)
    · rw [if_pos ⟨0,Nat.zero_le _,hbus⟩]
      obtain ⟨r,hcell,hacked⟩ := nrf24Send_late hlen hbus none
      rw [sendLoop]
      split
      · exact ⟨r,hcell,hacked⟩
      · rename_i hret
        rw [hcell]
        exact sendLoop_of_failure hlen left (attempt+1) (hacked.trans (decide_eq_false hret))
    · obtain ⟨hret,hcell⟩ := nrf24Send_early (fun h => hbus h.2.2) none
      have hlater : (∃ i≤left+1,BusWorks (attempts (attempt+i))) ↔
          ∃ i≤left,BusWorks (attempts (attempt+1+i)) := by
        constructor
        · rintro ⟨i,hi,hworks⟩
          cases i with
          | zero => exact absurd hworks hbus
          | succ i => exact ⟨i,by omega,by rwa [Nat.add_right_comm]⟩
        · rintro ⟨i,hi,hworks⟩
          exact ⟨i+1,by omega,by rwa [Nat.add_right_comm] at hworks⟩
      rw [sendLoop]
      rw [if_neg hret,hcell]
      simp only [hlater]
      exact ih (attempt+1)

/-- Either the call is rejected before a frame is built, or the frame has a
length that the radio takes. -/
theorem buildFrame_cases (crypt ready : Bool) (s : CryptState) (stack : StackBuf) (canId : Half)
    (data : List Byte) :
    ((ready=false ∨ payloadLimit crypt < data.length) ∧
        (buildFrame crypt ready s stack canId data).1=none) ∨
      (¬(ready=false ∨ payloadLimit crypt < data.length) ∧
        ∃ frame,(buildFrame crypt ready s stack canId data).1=some frame ∧
          0 < frame.length ∧ frame.length ≤ nrf24MaxPayload) := by
  by_cases hrejected : ready=false ∨ payloadLimit crypt < data.length
  · exact .inl ⟨hrejected,by rw [buildFrame_rejects crypt ready s stack canId hrejected]⟩
  · obtain ⟨hready,hlength⟩ := not_or.mp hrejected
    rw [Bool.not_eq_false] at hready
    rw [Nat.not_lt] at hlength
    subst hready
    refine .inr ⟨hrejected,?_⟩
    cases crypt with
    | true =>
      refine ⟨_,by rw [buildFrame_crypt s stack canId hlength],?_⟩
      rw [sealedFrame_length,callPlaintext_length]
      change data.length≤29 at hlength
      change _ ∧ _≤32
      omega
    | false =>
      refine ⟨_,by rw [buildFrame_plain s stack canId hlength],?_⟩
      rw [callPlaintext_length]
      change data.length≤30 at hlength
      change _ ∧ _≤32
      omega

/-- A call whose frame is built feeds what it returns exactly if one of its
attempts gets past the payload. -/
theorem rightlyFed_some_iff {frame : List Byte}
    (hlen : 0 < frame.length ∧ frame.length ≤ nrf24MaxPayload) :
    RightlyFed (rf24DataSend (some frame) attempts) ↔
      ∃ i≤rf24TxRetries,BusWorks (attempts i) := by
  have hloop := @sendLoop_of_none _ attempts hlen rf24TxRetries 0
  simp only [Nat.zero_add] at hloop
  rw [rf24DataSend,RightlyFed]
  dsimp only
  split at hloop
  · rename_i hbus
    obtain ⟨r,hcell,hacked⟩ := hloop
    rw [hcell]
    exact iff_of_true hacked hbus
  · rename_i hbus
    rw [hloop]
    exact iff_of_false id hbus

/-- A call of the driver leaves a failure whenever it fails exactly if its
length is legal and its transfers up to the payload succeed; a call of the
handler's sending function feeds the signal quality what it returns exactly if
it ends before the first attempt or one of its attempts gets past the payload. -/
theorem results_defined_iff (len : ℕ) (env : SendEnv) (crypt ready : Bool) (s : CryptState)
    (stack : StackBuf) (canId : Half) (data : List Byte) (attempts : ℕ → SendEnv) :
    (SetsFailure len env ↔ 0 < len ∧ len ≤ nrf24MaxPayload ∧ BusWorks env) ∧
      (RightlyFed (rf24DataSend (buildFrame crypt ready s stack canId data).1 attempts) ↔
        ready=false ∨ payloadLimit crypt < data.length ∨
          ∃ i≤rf24TxRetries,BusWorks (attempts i)) := by
  refine ⟨setsFailure_iff,?_⟩
  rw [←or_assoc]
  rcases buildFrame_cases crypt ready s stack canId data with
    ⟨hrejected,hframe⟩ | ⟨hbuilt,frame,hframe,hlength⟩
  · rw [hframe]
    exact iff_of_true trivial (.inl hrejected)
  · rw [hframe,rightlyFed_some_iff hlength,or_iff_right hbuilt]

/-- With a dead bus all six attempts fail and the memory is still untouched. -/
theorem dead_bus_feeds_garbage :
    ¬∀ (frame : List Byte) (attempts : ℕ → SendEnv),
      0 < frame.length ∧ frame.length ≤ nrf24MaxPayload →
        RightlyFed (rf24DataSend (some frame) attempts) := by
  intro h
  exact h [1,2] (fun _ => ⟨-5,-5,-5,-11,0,0⟩) (by decide)

end Loop

end ZephyrApp.Rf24SendResult

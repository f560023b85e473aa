import ZephyrApp.XxteaInverse
import ZephyrApp.EventRuns

/-!
# Radio address and cipher key

Every entry point of both applications that changes the radio address or
programs the radio: booting, the UDP and shell settings of the gateway, and
the shell setting, link switch, sleep and wake of the handler. Three pieces of
state have to agree: the address parameter, the address last programmed into
the radio and the cipher key. Whether a programming succeeds is open.
-/

namespace ZephyrApp.Rf24Config

open MachineBytes EventRuns Nrf24Crypt

section Arguments

/-- The value of a hexadecimal digit. -/
def hexDigit (c : Char) : Option ℕ :=
  if '0' ≤ c ∧ c ≤ '9' then some (c.toNat-0x30)
  else if 'a' ≤ c ∧ c ≤ 'f' then some (c.toNat-0x61+10)
  else if 'A' ≤ c ∧ c ≤ 'F' then some (c.toNat-0x41+10)
  else none

/-- The digits at the start of a text. -/
def hexDigits : List Char → List ℕ
  | [] => []
  | c::cs =>
    match hexDigit c with
    | none => []
    | some d => d::hexDigits cs

/-- The white space that a number may start with. -/
def isSpace (c : Char) : Bool := c = ' ' ∨ (9≤c.toNat ∧ c.toNat≤13)

/-- `strtol` in base 16: white space, a sign, an optional prefix and the digits
up to the first other character, saturating; zero when there is no digit. -/
def strtol16 (text : List Char) : ℤ :=
  let text := text.dropWhile isSpace
  let signed : Bool×List Char :=
    match text with
    | '-'::rest => (true,rest)
    | '+'::rest => (false,rest)
    | rest => (false,rest)
  let digits :=
    match signed.2 with
    | '0'::x::rest =>
      if (x = 'x' ∨ x = 'X') ∧ hexDigits rest≠[] then hexDigits rest else hexDigits signed.2
    | rest => hexDigits rest
  let value : ℤ := digits.foldl (fun acc d => 16*acc+d) 0
  if signed.1 then max (-value) (-2^31) else min value (2^31-1)

/-- The shell's byte loop: write the argument bytes into an address one by one
and stop at the first value that is no byte. The flag tells whether all five
were written. -/
def writeAddrBytes : Rf24Addr → ℕ → List (List Char) → Rf24Addr×Bool
  | addr,_,[] => (addr,true)
  | addr,i,arg::args =>
    if i<5 then
      let v := strtol16 arg
      if v<0 ∨ 0xFF<v then (addr,false)
      else writeAddrBytes (Function.update addr (Fin.ofNat 5 i) (BitVec.ofInt 8 v)) (i+1) args
    else (addr,true)

/-- The address in the first bytes of a UDP payload. -/
def addrOfBytes (data : List Byte) : Rf24Addr := fun i => data.getD i 0

end Arguments

/-- The radio side of an endpoint. -/
structure RadioState where
  /-- The parameter `rf24_addr`. -/
  addr : Rf24Addr
  /-- The address last programmed by `nrf24_configure`, none while the radio is
  off or its programming has failed. -/
  radio : Option Rf24Addr
  /-- The cipher statics. -/
  crypt : CryptState

/-- Before anything has run: zeroed memory, radio not programmed. -/
def RadioState.powerUp : RadioState := ⟨fun _ => 0,none,.boot⟩

/-- The key in force is derived from the address the radio is programmed with. -/
def KeyFollows (s : RadioState) : Prop := ∀ a∈s.radio,s.crypt.cryptKey=deriveKey a

/-- `nrf24_configure`, by whether the device accepted the whole programming. -/
def nrf24Configure (ok : Bool) (addr : Rf24Addr) : Option Rf24Addr :=
  if ok then some addr else none

/-- A programmed radio has the address it was asked to take. -/
theorem eq_of_mem_nrf24Configure {ok : Bool} {addr a : Rf24Addr}
    (h : a∈nrf24Configure ok addr) : a=addr := by
  cases ok with
  | false => exact absurd h (Option.not_mem_none a)
  | true => exact (Option.mem_some_iff.mp h).symm

section Gateway

/-- Entry points of the gateway. -/
inductive GatewayEvent where
  /-- The gateway boots, with the address loaded from the settings. -/
  | boot (loaded : Option Rf24Addr) (ok : Bool)
  /-- The UDP command `SET_RF24` arrives with its payload. -/
  | udpSetRf24 (cmdData : List Byte) (ok : Bool)
  /-- The shell command `rf24 addr` is entered with its arguments. -/
  | shellAddr (args : List (List Char)) (ok : Bool)

/-- Take an address: parameter, key and, on a ready device, the radio. -/
def gwRf24SetConfig (ready ok : Bool) (s : RadioState) (addr : Rf24Addr) : RadioState :=
  let s := {s with addr := addr,crypt := nrf24CryptSetKey s.crypt addr}
  if ready=false then s else {s with radio := nrf24Configure ok s.addr}

/-- Bring up the radio of a ready device with the parameter. -/
def gwRf24Init (ready ok : Bool) (s : RadioState) : RadioState :=
  if ready=false then s else gwRf24SetConfig ready ok s s.addr

/-- The gateway's `rf24 addr`: the bytes are collected in a local array first. -/
def gatewayCmdAddr (ready ok : Bool) (s : RadioState) (args : List (List Char)) : RadioState :=
  if args.length<5 ∨ ready=false then s
  else
    match writeAddrBytes (fun _ => 0) 0 args with
    | (_,false) => s
    | (addr,true) => gwRf24SetConfig ready ok s addr

/-- One entry point of the gateway. -/
def gatewayStep (ready : Bool) (s : RadioState) : GatewayEvent → RadioState
  | .boot loaded ok =>
    gwRf24Init ready ok {RadioState.powerUp with addr := loaded.getD fun _ => 0}
  | .udpSetRf24 cmdData ok =>
    if cmdData.length<5 then s
    else gwRf24SetConfig ready ok {s with addr := addrOfBytes cmdData} (addrOfBytes cmdData)
  | .shellAddr args ok => gatewayCmdAddr ready ok s args

/-- Taking an address makes the key follow, unless the device is not ready and
the radio has been programmed before. -/
theorem gwRf24SetConfig_keyFollows {ready : Bool} (ok : Bool) {s : RadioState} (addr : Rf24Addr)
    (h : ready=false → s.radio=none) : KeyFollows (gwRf24SetConfig ready ok s addr) := by
  unfold gwRf24SetConfig
  intro a ha
  cases ready with
  | false =>
    have hnone : s.radio=none := h rfl
    rw [if_pos rfl] at ha
    change a∈s.radio at ha
    rw [hnone] at ha
    exact absurd ha (Option.not_mem_none a)
  | true =>
    rw [if_neg (by decide)] at ha
    rw [if_neg (by decide),eq_of_mem_nrf24Configure ha]
    rfl

/-- What every entry point of the gateway keeps. -/
structure GatewayInv (ready : Bool) (s : RadioState) : Prop where
  /-- The key follows the address. -/
  follows : KeyFollows s
  /-- A device that is not ready is never programmed. -/
  unready : ready=false → s.radio=none

/-- Taking an address keeps the gateway's invariant. -/
theorem gwRf24SetConfig_inv {ready : Bool} (ok : Bool) {s : RadioState} (addr : Rf24Addr)
    (h : ready=false → s.radio=none) : GatewayInv ready (gwRf24SetConfig ready ok s addr) := by
  refine ⟨gwRf24SetConfig_keyFollows ok addr h,fun hr => ?_⟩
  unfold gwRf24SetConfig
  rw [if_pos hr]
  exact h hr

/-- Every entry point of the gateway keeps its invariant. -/
theorem gatewayStep_inv (ready : Bool) (s : RadioState) (e : GatewayEvent)
    (h : GatewayInv ready s) : GatewayInv ready (gatewayStep ready s e) := by
  cases e with
  | boot loaded ok =>
    unfold gatewayStep gwRf24Init
    dsimp only
    by_cases hr : ready=false
    · rw [if_pos hr]
      exact ⟨fun a ha => absurd ha (Option.not_mem_none a),fun _ => rfl⟩
    · rw [if_neg hr]
      exact gwRf24SetConfig_inv ok _ fun hf => absurd hf hr
  | udpSetRf24 cmdData ok =>
    unfold gatewayStep
    dsimp only
    by_cases hlen : cmdData.length<5
    · rw [if_pos hlen]
      exact h
    · rw [if_neg hlen]
      exact gwRf24SetConfig_inv ok _ h.unready
  | shellAddr args ok =>
    unfold gatewayStep gatewayCmdAddr
    dsimp only
    by_cases hreject : args.length<5 ∨ ready=false
    · rw [if_pos hreject]
      exact h
    · rw [if_neg hreject]
      split
      · exact h
      · exact gwRf24SetConfig_inv ok _ h.unready

end Gateway

section Handler

/-- The link in use. -/
inductive LinkType where
  /-- The wired link, `CAN_TYPE`. -/
  | can
  /-- The radio link, `RF24_TYPE`. -/
  | rf24
  deriving DecidableEq

/-- The handler's state: its radio side, the link in use and the sleep flag. -/
structure HandlerState extends RadioState where
  /-- The parameter `connect_type`. -/
  connectType : LinkType
  /-- The flag `sleeping`. -/
  sleeping : Bool

/-- Entry points of the handler. -/
inductive HandlerEvent where
  /-- The handler boots, with its serial number and the loaded settings. -/
  | boot (sn : Rf24Addr) (loaded : Option Rf24Addr) (loadedType : Option LinkType) (ok : Bool)
  /-- The work item of the link switch finds the switch pressed. -/
  | linkswWork (ok : Bool)
  /-- One of the shell commands `link can` and `link rf24`. -/
  | shellLink (type : LinkType) (ok : Bool)
  /-- The inactivity timeout or the shell command `sleep`. -/
  | sleep
  /-- The work item of the power key finds the key pressed. -/
  | sleepWork (ok : Bool)
  /-- The shell command `rf24 addr` is entered with its arguments. -/
  | shellAddr (args : List (List Char)) (ok : Bool)

/-- Power the radio up, derive the key and program the parameter. -/
def rf24Init (ready ok : Bool) (s : HandlerState) : HandlerState :=
  if ready=false then s
  else
    let crypt := nrf24CryptRxReset (nrf24CryptSetKey s.crypt s.addr)
    {s with crypt := crypt,radio := nrf24Configure ok s.addr}

/-- Power the radio down. -/
def rf24Deinit (ready : Bool) (s : HandlerState) : HandlerState :=
  if ready=false then s else {s with radio := none}

/-- Switch to the link the parameter names. -/
def connectSwitch (ready ok : Bool) (s : HandlerState) : HandlerState :=
  if s.connectType=.can then rf24Deinit ready s else rf24Init ready ok s

/-- Go to sleep; only the radio of a radio link is powered down. -/
def systemSleep (ready : Bool) (s : HandlerState) : HandlerState :=
  let s := {s with sleeping := true}
  if s.connectType=.can then s else rf24Deinit ready s

/-- Wake up; only the radio of a radio link is brought up. -/
def systemWake (ready ok : Bool) (s : HandlerState) : HandlerState :=
  let s := if s.connectType=.can then s else rf24Init ready ok s
  {s with sleeping := false}

/-- Program the parameter into the radio and leave the key alone. -/
def rf24ApplyConfig (ok : Bool) (s : HandlerState) : HandlerState :=
  {s with radio := nrf24Configure ok s.addr}

/-- The handler's `rf24 addr`: the bytes go straight into the parameter. -/
def handlerCmdAddr (ready ok : Bool) (s : HandlerState) (args : List (List Char)) : HandlerState :=
  if args.length<5 ∨ ready=false then s
  else
    match writeAddrBytes s.addr 0 args with
    | (addr,false) => {s with addr := addr}
    | (addr,true) => rf24ApplyConfig ok {s with addr := addr}

/-- Before anything has run. -/
def HandlerState.powerUp : HandlerState := ⟨.powerUp,.can,false⟩

/-- One entry point of the handler. -/
def handlerStep (ready : Bool) (s : HandlerState) : HandlerEvent → HandlerState
  | .boot sn loaded loadedType ok =>
    connectSwitch ready ok {HandlerState.powerUp with
      addr := loaded.getD sn
      connectType := loadedType.getD .can}
  | .linkswWork ok =>
    connectSwitch ready ok
      {s with connectType := if s.connectType=.can then .rf24 else .can}
  | .shellLink type ok => connectSwitch ready ok {s with connectType := type}
  | .sleep => if s.sleeping then s else systemSleep ready s
  | .sleepWork ok => if s.sleeping then systemWake ready ok s else s
  | .shellAddr args ok => handlerCmdAddr ready ok s args

/-- The address that a shell setting programs into the radio, if it does. -/
def programmedAddr (ready ok : Bool) (addr : Rf24Addr) (args : List (List Char)) :
    Option Rf24Addr :=
  if args.length<5 ∨ ready=false then none
  else
    match writeAddrBytes addr 0 args with
    | (_,false) => none
    | (addr,true) => nrf24Configure ok addr

/-- A shell setting that programs the radio programs an address whose key is
the one in force. -/
def AddrKeyed (ready : Bool) (s : HandlerState) : HandlerEvent → Prop
  | .shellAddr args ok => ∀ a∈programmedAddr ready ok s.addr args,s.crypt.cryptKey=deriveKey a
  | _ => True

/-- Bringing the radio up makes the key follow. -/
theorem rf24Init_keyFollows (ready ok : Bool) {s : HandlerState} (h : KeyFollows s.toRadioState) :
    KeyFollows (rf24Init ready ok s).toRadioState := by
  unfold rf24Init
  by_cases hr : ready=false
  · rw [if_pos hr]
    exact h
  · rw [if_neg hr]
    intro a ha
    rw [eq_of_mem_nrf24Configure ha]
    rfl

/-- Powering the radio down leaves no address to follow. -/
theorem rf24Deinit_keyFollows (ready : Bool) {s : HandlerState} (h : KeyFollows s.toRadioState) :
    KeyFollows (rf24Deinit ready s).toRadioState := by
  unfold rf24Deinit
  by_cases hr : ready=false
  · rw [if_pos hr]
    exact h
  · rw [if_neg hr]
    exact fun a ha => absurd ha (Option.not_mem_none a)

/-- Switching the link makes the key follow. -/
theorem connectSwitch_keyFollows (ready ok : Bool) {s : HandlerState}
    (h : KeyFollows s.toRadioState) : KeyFollows (connectSwitch ready ok s).toRadioState := by
  unfold connectSwitch
  split
  · exact rf24Deinit_keyFollows ready h
  · exact rf24Init_keyFollows ready ok h

/-- A shell setting makes the key follow exactly when the address it programs,
if any, is the one the key in force belongs to. -/
theorem handlerCmdAddr_keyFollows (ready ok : Bool) {s : HandlerState} (args : List (List Char))
    (h : KeyFollows s.toRadioState) :
    KeyFollows (handlerCmdAddr ready ok s args).toRadioState ↔
      ∀ a∈programmedAddr ready ok s.addr args,s.crypt.cryptKey=deriveKey a := by
  unfold handlerCmdAddr programmedAddr
  by_cases hreject : args.length<5 ∨ ready=false
  · rw [if_pos hreject,if_pos hreject]
    exact ⟨fun _ a ha => absurd ha (Option.not_mem_none a),fun _ => h⟩
  · rw [if_neg hreject,if_neg hreject]
    split
    · exact ⟨fun _ a ha => absurd ha (Option.not_mem_none a),fun _ => h⟩
    · exact Iff.rfl

/-- Every entry point of the handler keeps the key on the address exactly when
it is no shell setting of an address with another key. -/
theorem handlerStep_keyFollows (ready : Bool) (s : HandlerState) (e : HandlerEvent)
    (h : KeyFollows s.toRadioState) :
    KeyFollows (handlerStep ready s e).toRadioState ↔ AddrKeyed ready s e := by
  have hup : ∀ addr type,KeyFollows
      ({HandlerState.powerUp with addr := addr,connectType := type} : HandlerState).toRadioState :=
    fun addr type a ha => absurd ha (Option.not_mem_none a)
  cases e with
  | boot sn loaded loadedType ok =>
    exact iff_of_true (connectSwitch_keyFollows ready ok (hup _ _)) trivial
  | linkswWork ok => exact iff_of_true (connectSwitch_keyFollows ready ok h) trivial
  | shellLink type ok => exact iff_of_true (connectSwitch_keyFollows ready ok h) trivial
  | sleep =>
    refine iff_of_true ?_ trivial
    unfold handlerStep systemSleep
    dsimp only
    split
    · exact h
    · split
      · exact h
      · exact rf24Deinit_keyFollows ready h
  | sleepWork ok =>
    refine iff_of_true ?_ trivial
    unfold handlerStep systemWake
    dsimp only
    split
    · split
      · exact h
      · exact rf24Init_keyFollows ready ok h
    · exact h
  | shellAddr args ok => exact handlerCmdAddr_keyFollows ready ok args h

end Handler

/-- On the gateway the key follows the address in every run. On the handler it
does so throughout a run exactly when every shell setting that programs the
radio programs an address whose key is already in force. -/
theorem keyFollows_runs (ready : Bool) :
    (∀ events,Throughout (gatewayStep ready) KeyFollows .powerUp events) ∧
      ∀ events,Throughout (handlerStep ready) (fun s => KeyFollows s.toRadioState) .powerUp
          events ↔
        AlongRun (handlerStep ready) (AddrKeyed ready) .powerUp events := by
  have hstart : KeyFollows .powerUp := fun a ha => absurd ha (Option.not_mem_none a)
  constructor
  · intro events
    have hinv : GatewayInv ready .powerUp := ⟨hstart,fun _ => rfl⟩
    refine (throughout_iff _ events).mpr fun pre _ => ?_
    exact (finalState_preserves (gatewayStep_inv ready) hinv pre).follows
  · intro events
    exact throughout_iff_alongRun (handlerStep_keyFollows ready) hstart events

/-- The handler boots on the radio link and a shell setting changes the
address: the radio is programmed, the key stays. -/
theorem keyFollows_fails :
    ¬Throughout (handlerStep true) (fun s => KeyFollows s.toRadioState) .powerUp
      [.boot (fun _ => 0xE7) none (some .rf24) true,
        .shellAddr [['0','1'],['0','2'],['0','3'],['0','4'],['0','5']] true] := by
  intro h
  have hlast := h.last
  have hkey := congrFun (hlast (fun i => BitVec.ofNat 8 (i+1)) (by decide +kernel)) 0
  revert hkey
  decide +kernel

end ZephyrApp.Rf24Config

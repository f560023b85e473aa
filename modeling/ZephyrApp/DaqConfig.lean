import ZephyrApp.ChunkAssembly
import ZephyrApp.DaqRegisters
import ZephyrApp.UdpConfigPort

/-!
# Configuration of the data collector over CAN and UDP

Fourteen commands set and report the parameters of the data collector. One
function carries them out on the holding registers and builds the response; a
datagram of the configuration port is answered with it in one reply, and a CAN
command frame in numbered frames of six bytes each.
-/

namespace ZephyrApp.DaqConfig

open MachineBytes CanFrames FlashReadback DaqRegisters UdpFwUpgrade UdpConfigPort
open CanFwUpgrade (RxCanFrame payload_length)
open ChunkAssembly (eq_of_numbered)

/-- `UDP_CMD_SET_NET`. -/
def udpCmdSetNet : Byte := 0x12

/-- `UDP_CMD_GET_NET`. -/
def udpCmdGetNet : Byte := 0x13

/-- `UDP_CMD_SET_NET_MODE`. -/
def udpCmdSetNetMode : Byte := 0x16

/-- `UDP_CMD_GET_NET_MODE`. -/
def udpCmdGetNetMode : Byte := 0x17

/-- `UDP_CMD_SET_MODBUS`. -/
def udpCmdSetModbus : Byte := 0x18

/-- `UDP_CMD_GET_MODBUS`. -/
def udpCmdGetModbus : Byte := 0x19

/-- `UDP_CMD_SET_SAMPLE`. -/
def udpCmdSetSample : Byte := 0x1A

/-- `UDP_CMD_GET_SAMPLE`. -/
def udpCmdGetSample : Byte := 0x1B

/-- `UDP_CMD_SET_CAN`. -/
def udpCmdSetCan : Byte := 0x1C

/-- `UDP_CMD_GET_CAN`. -/
def udpCmdGetCan : Byte := 0x1D

/-- `UDP_CMD_SET_HEART`. -/
def udpCmdSetHeart : Byte := 0x1E

/-- `UDP_CMD_GET_HEART`. -/
def udpCmdGetHeart : Byte := 0x1F

/-- `UDP_CMD_SET_TIME`. -/
def udpCmdSetTime : Byte := 0x20

/-- `UDP_CMD_GET_INFO`. -/
def udpCmdGetInfo : Byte := 0x21

/-- `DC_CAN_CFG_CMD`. -/
def dcCanCfgCmd : Word := 0x1A0

/-- `DC_CAN_CFG_RESP`. -/
def dcCanCfgResp : Word := 0x1A1

/-- `DC_NET_MODE_STATIC`. -/
def dcNetModeStatic : Half := 0

/-- What a command calls besides storing registers. -/
inductive ConfigCall where
  /-- `history_enable_write`. -/
  | historyEnableWrite (enable : Bool)
  /-- `set_timestamp`. -/
  | setTimestamp (t : Word)
  /-- `settings_save`. -/
  | settingsSave
deriving DecidableEq

/-- The data collector as its configuration sees it. -/
structure DaqEnv where
  /-- `holding_reg`. -/
  regs : HoldingRegs
  /-- The calls made so far, in order. -/
  calls : List ConfigCall
  /-- `time(NULL)`. -/
  clock : BitVec 64
  /-- `k_uptime_get()`. -/
  uptime : ℕ
  /-- What `dc_get_live_ipv4` points to, the first byte the highest. -/
  liveIpv4 : Option Word
  /-- `APPVERSION`. -/
  appVersion : Word
  /-- The default network interface. -/
  iface : Option NetIface

section Interpreter

/-- `update_holding_reg`. -/
def updateHoldingReg (regs : HoldingRegs) (addr : ℕ) (reg : Half) : HoldingRegs :=
  if h : addr < holdingNumbers then Function.update regs ⟨addr,h⟩ reg else regs

/-- What a set command does before the settings are saved. -/
structure SetReport where
  /-- The registers afterwards. -/
  regs : HoldingRegs
  /-- The calls it makes. -/
  calls : List ConfigCall
  /-- Whether the settings are to be saved. -/
  saved : Bool

/-- The body of `UDP_CMD_SET_NET`: the address is only taken in static mode. -/
def setNet (regs : HoldingRegs) (req : List Byte) : SetReport :=
  if 6 ≤ req.length then
    let addressed :=
      if getHoldingReg regs holdingNetModeIdx=dcNetModeStatic then
        updateHoldingReg (updateHoldingReg (updateHoldingReg (updateHoldingReg regs
          holdingIpAddr1Idx ((req.getD 0 0).setWidth 16))
          holdingIpAddr2Idx ((req.getD 1 0).setWidth 16))
          holdingIpAddr3Idx ((req.getD 2 0).setWidth 16))
          holdingIpAddr4Idx ((req.getD 3 0).setWidth 16)
      else regs
    ⟨updateHoldingReg addressed holdingTcpPortIdx (sysGetBe16 req 4),[],true⟩
  else ⟨regs,[],false⟩

/-- The body of `UDP_CMD_SET_NET_MODE`. -/
def setNetMode (regs : HoldingRegs) (req : List Byte) : SetReport :=
  if 1 ≤ req.length ∧ (req.getD 0 0).toNat ≤ 1 then
    ⟨updateHoldingReg regs holdingNetModeIdx ((req.getD 0 0).setWidth 16),[],true⟩
  else ⟨regs,[],false⟩

/-- The body of `UDP_CMD_SET_MODBUS`: each value is taken if it is in range. -/
def setModbus (regs : HoldingRegs) (req : List Byte) : SetReport :=
  if 6 ≤ req.length then
    let slaveId := sysGetBe16 req 0
    let bps := sysGetBe32 req 2
    let baud : SetReport :=
      if 0 < bps.toNat ∧ bps.toNat ≤ 0xffff then
        ⟨updateHoldingReg regs holdingRs485BpsIdx (bps.setWidth 16),[],true⟩
      else ⟨regs,[],false⟩
    if 0 < slaveId.toNat ∧ slaveId.toNat < 0x100 then
      ⟨updateHoldingReg baud.regs holdingSlaveIdIdx slaveId,[],true⟩
    else baud
  else ⟨regs,[],false⟩

/-- The body of `UDP_CMD_SET_SAMPLE`. -/
def setSample (regs : HoldingRegs) (req : List Byte) : SetReport :=
  if 5 ≤ req.length then
    ⟨updateHoldingReg (updateHoldingReg (updateHoldingReg regs
        holdingDiSiIdx (sysGetBe16 req 0))
        holdingAiSiIdx (sysGetBe16 req 2))
        holdingHisSaveIdx ((req.getD 4 0).setWidth 16),
      [.historyEnableWrite (decide (req.getD 4 0≠0))],true⟩
  else ⟨regs,[],false⟩

/-- The body of `UDP_CMD_SET_CAN`. -/
def setCan (regs : HoldingRegs) (req : List Byte) : SetReport :=
  if 4 ≤ req.length then
    ⟨updateHoldingReg (updateHoldingReg regs
      holdingCanIdIdx (sysGetBe16 req 0))
      holdingCanBpsIdx (sysGetBe16 req 2),[],true⟩
  else ⟨regs,[],false⟩

/-- The body of `UDP_CMD_SET_HEART`: the timeout is at least 500. -/
def setHeart (regs : HoldingRegs) (req : List Byte) : SetReport :=
  if 3 ≤ req.length then
    let timeout := sysGetBe16 req 1
    ⟨updateHoldingReg (updateHoldingReg regs
      holdingHeartEnIdx (if req.getD 0 0≠0 then 1 else 0))
      holdingHeartTimeoutIdx (if 500 < timeout.toNat then timeout else 500),[],true⟩
  else ⟨regs,[],false⟩

variable (env : DaqEnv) (outLen : ℕ)

/-- The response of `UDP_CMD_GET_NET`: the live address if there is one. -/
def getNet : Option (List Byte) :=
  if 6 ≤ outLen then
    let ip :=
      match env.liveIpv4 with
      | some live => sysPutBe32 live
      | none =>
        [(getHoldingReg env.regs holdingIpAddr1Idx).setWidth 8,
          (getHoldingReg env.regs holdingIpAddr2Idx).setWidth 8,
          (getHoldingReg env.regs holdingIpAddr3Idx).setWidth 8,
          (getHoldingReg env.regs holdingIpAddr4Idx).setWidth 8]
    some (ip++sysPutBe16 (getHoldingReg env.regs holdingTcpPortIdx))
  else none

/-- The response of `UDP_CMD_GET_NET_MODE`. -/
def getNetMode : Option (List Byte) :=
  if 1 ≤ outLen then some [(getHoldingReg env.regs holdingNetModeIdx).setWidth 8] else none

/-- The response of `UDP_CMD_GET_MODBUS`. -/
def getModbus : Option (List Byte) :=
  if 6 ≤ outLen then
    some (sysPutBe16 (getHoldingReg env.regs holdingSlaveIdIdx)++
      sysPutBe32 ((getHoldingReg env.regs holdingRs485BpsIdx).setWidth 32))
  else none

/-- The response of `UDP_CMD_GET_SAMPLE`. -/
def getSample : Option (List Byte) :=
  if 5 ≤ outLen then
    some (sysPutBe16 (getHoldingReg env.regs holdingDiSiIdx)++
      sysPutBe16 (getHoldingReg env.regs holdingAiSiIdx)++
      [(getHoldingReg env.regs holdingHisSaveIdx).setWidth 8])
  else none

/-- The response of `UDP_CMD_GET_CAN`. -/
def getCan : Option (List Byte) :=
  if 4 ≤ outLen then
    some (sysPutBe16 (getHoldingReg env.regs holdingCanIdIdx)++
      sysPutBe16 (getHoldingReg env.regs holdingCanBpsIdx))
  else none

/-- The response of `UDP_CMD_GET_HEART`. -/
def getHeart : Option (List Byte) :=
  if 3 ≤ outLen then
    some ((getHoldingReg env.regs holdingHeartEnIdx).setWidth 8::
      sysPutBe16 (getHoldingReg env.regs holdingHeartTimeoutIdx))
  else none

/-- The response of `UDP_CMD_GET_INFO`. -/
def getInfo : Option (List Byte) :=
  if 8 ≤ outLen then
    some (sysPutBe32 env.appVersion++sysPutBe32 (BitVec.ofNat 32 (env.uptime/1000)))
  else none

/-- `UDP_CMD_SET_TIME`: a time other than zero is set, and the time is the
response. -/
def setTime (req : List Byte) : DaqEnv×Option (List Byte) :=
  let t := if 4 ≤ req.length then sysGetBe32 req 0 else 0
  let set : DaqEnv×Word :=
    if t≠0 then
      ({env with
        calls := env.calls++[.setTimestamp t]
        regs := updateHoldingReg (updateHoldingReg env.regs
          holdingTimestamphIdx ((t >>> 16).setWidth 16))
          holdingTimestamplIdx ((t &&& 0xffff).setWidth 16)},t)
    else (env,env.clock.setWidth 32)
  (set.1,if 4 ≤ outLen then some (sysPutBe32 set.2) else none)

/-- A set command falls through to the get command, and the settings are saved
at the end. -/
def answerSet (set : SetReport) (get : DaqEnv → ℕ → Option (List Byte)) :
    DaqEnv×Option (List Byte) :=
  let stored := {env with
    regs := set.regs
    calls := env.calls++set.calls}
  (if set.saved=true then {stored with calls := stored.calls++[.settingsSave]} else stored,
    get stored outLen)

/-- `dc_build_config_payload`: the data collector afterwards and the response,
none for an unknown command. -/
def dcBuildConfigPayload (cmd : Byte) (req : List Byte) : DaqEnv×Option (List Byte) :=
  if cmd=udpCmdSetNet then answerSet env outLen (setNet env.regs req) getNet
  else if cmd=udpCmdGetNet then (env,getNet env outLen)
  else if cmd=udpCmdSetNetMode then answerSet env outLen (setNetMode env.regs req) getNetMode
  else if cmd=udpCmdGetNetMode then (env,getNetMode env outLen)
  else if cmd=udpCmdSetModbus then answerSet env outLen (setModbus env.regs req) getModbus
  else if cmd=udpCmdGetModbus then (env,getModbus env outLen)
  else if cmd=udpCmdSetSample then answerSet env outLen (setSample env.regs req) getSample
  else if cmd=udpCmdGetSample then (env,getSample env outLen)
  else if cmd=udpCmdSetCan then answerSet env outLen (setCan env.regs req) getCan
  else if cmd=udpCmdGetCan then (env,getCan env outLen)
  else if cmd=udpCmdSetHeart then answerSet env outLen (setHeart env.regs req) getHeart
  else if cmd=udpCmdGetHeart then (env,getHeart env outLen)
  else if cmd=udpCmdSetTime then setTime env outLen req
  else if cmd=udpCmdGetInfo then (env,getInfo env outLen)
  else (env,none)

/-- The size of the response buffer of both transports. -/
def respSize : ℕ := 8

end Interpreter

section Transports

/-- One response frame: the command, its number and up to six bytes. -/
def configFrame (sub seq : Byte) (chunk : List Byte) : CanFrame :=
  ⟨dcCanCfgResp,canBytesToDlc 8,copyToData (sub::seq::chunk),copyToData_length _⟩

/-- The loop of `can_send_config_resp` over what is left of the response. Each
pass sends six bytes, so that a fuel of the length is never exhausted. -/
def sendLoop (sub : Byte) : ℕ → Byte → List Byte → List CanFrame
  | 0,seq,rest => [configFrame sub seq rest]
  | fuel+1,seq,rest =>
    configFrame sub seq (rest.take 6)::
      if 6 < rest.length then sendLoop sub fuel (seq+1) (rest.drop 6) else []

/-- `can_send_config_resp`. -/
def canSendConfigResp (sub : Byte) (payload : List Byte) : List CanFrame :=
  sendLoop sub payload.length 0 payload

/-- `dc_can_app_rx`: the data collector afterwards, the frames it sends and
whether the frame was a command. -/
def dcCanAppRx (env : DaqEnv) (frame : RxCanFrame) : DaqEnv×List CanFrame×Bool :=
  if frame.id=dcCanCfgCmd then
    let sub := frame.data.getD 0 0
    if canDlcToBytes frame.dlc < 2 then (env,[],true)
    else
      let reqLen := min (canDlcToBytes frame.dlc-1) 7
      let req := (frame.data.drop 1).take reqLen
      let built := dcBuildConfigPayload env respSize sub req
      match built.2 with
      | some resp => (built.1,canSendConfigResp sub resp,true)
      | none => (built.1,[],true)
  else (env,[],false)

/-- `app_cmd_handler`: the reply is left to the library. -/
def appCmdHandler (env : DaqEnv) (cmd : Byte) (cmdData : List Byte) : AppCall DaqEnv :=
  let built := dcBuildConfigPayload env respSize cmd cmdData
  match built.2 with
  | some resp => ⟨built.1,[⟨built.1,cmd,resp⟩]⟩
  | none => ⟨built.1,[]⟩

/-- The data collector on the configuration port: one callback is registered
and no command is allowed across subnets. After a restart the environment is
what the boot makes of it. -/
def dataCollect (boot : DaqEnv → DaqEnv) : Application Unit DaqEnv where
  iface env := env.iface
  call _ env cmd data := appCmdHandler env cmd data
  restart := boot
  bootHandlers := [some ⟨(),0⟩,none,none,none]
  bootAllowed := []

end Transports

section Responses

/-- The commands that `dc_build_config_payload` knows. -/
def configCmds : List Byte :=
  [udpCmdSetNet,udpCmdGetNet,udpCmdSetNetMode,udpCmdGetNetMode,udpCmdSetModbus,udpCmdGetModbus,
    udpCmdSetSample,udpCmdGetSample,udpCmdSetCan,udpCmdGetCan,udpCmdSetHeart,udpCmdGetHeart,
    udpCmdSetTime,udpCmdGetInfo]

/-- The commands that the upgrade library keeps to itself. -/
def fwCmds : List Byte := [fwCmdStart,fwCmdData,fwCmdEnd,fwCmdGetVersion,fwCmdReboot]

/-- The documented length of the response to a command. -/
def responseLen (cmd : Byte) : ℕ :=
  if cmd∈[udpCmdSetNet,udpCmdGetNet,udpCmdSetModbus,udpCmdGetModbus] then 6
  else if cmd∈[udpCmdSetNetMode,udpCmdGetNetMode] then 1
  else if cmd∈[udpCmdSetSample,udpCmdGetSample] then 5
  else if cmd∈[udpCmdSetCan,udpCmdGetCan,udpCmdSetTime] then 4
  else if cmd∈[udpCmdSetHeart,udpCmdGetHeart] then 3
  else 8

variable {env : DaqEnv} {cmd : Byte} {req : List Byte}

/-- The network response has six bytes. -/
theorem getNet_length (env : DaqEnv) :
    ∃ resp,getNet env respSize=some resp ∧ resp.length=6 := by
  refine ⟨_,rfl,?_⟩
  rw [List.length_append]
  cases env.liveIpv4 <;> rfl

/-- A command that is known has a response of the documented length. -/
theorem dcBuildConfigPayload_known (env : DaqEnv) (req : List Byte) (h : cmd∈configCmds) :
    ∃ resp,(dcBuildConfigPayload env respSize cmd req).2=some resp ∧
      resp.length=responseLen cmd := by
  simp only [configCmds,List.mem_cons,List.not_mem_nil,or_false] at h
  rcases h with rfl | rfl | rfl | rfl | rfl | rfl | rfl | rfl | rfl | rfl | rfl | rfl | rfl | rfl
  · exact getNet_length _
  · exact getNet_length _
  all_goals exact ⟨_,rfl,rfl⟩

/-- Any other command does nothing. -/
theorem dcBuildConfigPayload_unknown (env : DaqEnv) (req : List Byte) (h : cmd∉configCmds) :
    dcBuildConfigPayload env respSize cmd req=(env,none) := by
  simp only [configCmds,List.mem_cons,List.not_mem_nil,or_false,not_or] at h
  simp only [dcBuildConfigPayload,h,if_false]

end Responses

section Frames

/-- The number of a response frame. -/
def respSeq (frame : CanFrame) : ℕ := (frame.data.getD 1 0).toNat

/-- The payload part of a response frame. -/
def respPayload (frame : CanFrame) : List Byte := frame.data.drop 2

variable {sub seq : Byte} {fuel : ℕ} {rest : List Byte}

/-- A frame carries its bytes, padded with zeros. -/
theorem respPayload_configFrame (sub seq : Byte) {chunk : List Byte} (h : chunk.length≤6) :
    respPayload (configFrame sub seq chunk)=chunk++List.replicate (6-chunk.length) 0 := by
  change ((chunk++List.replicate 8 0).take 6)=_
  rw [List.take_append,List.take_of_length_le h,List.take_replicate,min_eq_left (by omega)]

/-- The frames of a response are numbered one after the other. -/
theorem sendLoop_numbered (hseq : 6*seq.toNat+rest.length≤6*255) :
    (sendLoop sub fuel seq rest).map respSeq=
      List.range' seq.toNat (sendLoop sub fuel seq rest).length := by
  induction fuel generalizing seq rest with
  | zero => rfl
  | succ fuel ih =>
    rw [sendLoop]
    split
    · have hnext : (seq+1).toNat=seq.toNat+1 := by
        rw [BitVec.toNat_add]
        simp only [BitVec.reduceToNat]
        omega
      rw [List.map_cons,ih (by rw [hnext,List.length_drop]; omega),hnext,List.length_cons,
        List.range'_succ]
      rfl
    · rfl

/-- The payload parts of the frames are the response, up to its length. -/
theorem sendLoop_payload (h : rest.length≤6*(fuel+1)) :
    ((sendLoop sub fuel seq rest).flatMap respPayload).take rest.length=rest := by
  induction fuel generalizing seq rest with
  | zero =>
    rw [sendLoop,List.flatMap_singleton,respPayload_configFrame sub seq (by omega),
      List.take_left]
  | succ fuel ih =>
    have hchunk : (rest.take 6).length≤6 := by
      rw [List.length_take]
      omega
    rw [sendLoop,List.flatMap_cons,respPayload_configFrame sub seq hchunk]
    split
    · rename_i hmore
      have hfull : (rest.take 6).length=6 := List.length_take_of_le (by omega)
      have hrest : ((sendLoop sub fuel (seq+1) (rest.drop 6)).flatMap respPayload).take
          (rest.drop 6).length=rest.drop 6 := ih (by
        rw [List.length_drop]
        omega)
      rw [List.length_drop] at hrest
      rw [hfull,Nat.sub_self,List.replicate_zero,List.append_nil,List.take_append,hfull,hrest,
        List.take_of_length_le (by omega),List.take_append_drop]
    · rename_i hlast
      have hall : rest.take 6=rest := List.take_of_length_le (by omega)
      rw [hall,List.flatMap_nil,List.append_nil,List.take_left]

/-- All frames of a response are response frames to its command. -/
theorem sendLoop_frames : sendLoop sub fuel seq rest≠[] ∧
    ∀ frame∈sendLoop sub fuel seq rest,frame.id=dcCanCfgResp ∧ frame.data.getD 0 0=sub := by
  induction fuel generalizing seq rest with
  | zero =>
    refine ⟨List.cons_ne_nil _ _,fun frame hframe => ?_⟩
    rw [List.mem_singleton.mp hframe]
    exact ⟨rfl,rfl⟩
  | succ fuel ih =>
    refine ⟨List.cons_ne_nil _ _,fun frame hframe => ?_⟩
    rw [sendLoop,List.mem_cons] at hframe
    rcases hframe with rfl | hframe
    · exact ⟨rfl,rfl⟩
    · split at hframe
      · exact ih.2 frame hframe
      · exact absurd hframe List.not_mem_nil

/-- A response of up to 255 bytes is read back from its frames in the order of
their numbers, whatever order they arrive in. -/
theorem canSendConfigResp_readback {resp : List Byte} (h : resp.length≤255)
    {received : List CanFrame} (harrived : received.Perm (canSendConfigResp sub resp))
    (hsorted : received.Pairwise fun f g => respSeq f ≤ respSeq g) :
    (received.flatMap respPayload).take resp.length=resp := by
  have hcount : 6*(0 : Byte).toNat+resp.length≤6*255 := by
    change 6*0+resp.length≤6*255
    omega
  rw [eq_of_numbered (sendLoop_numbered hcount) harrived hsorted]
  exact sendLoop_payload (by omega)

end Frames

section Agreement

/-- The replies among what the port does. -/
def portReplies (effects : List (PortEffect Unit)) : List (List Byte) :=
  effects.filterMap fun
    | .reply bytes _ => some bytes
    | _ => none

/-- Neither path answers, or both do and the response frames, in the order of
their numbers and cut to the documented length, carry the bytes of the reply. -/
def AnswersAgree (cmd : Byte) (frames : List CanFrame) (replies : List (List Byte)) : Prop :=
  frames=[] ∧ replies=[] ∨
    frames≠[] ∧ (∀ f∈frames,f.id=dcCanCfgResp ∧ f.data.getD 0 0=cmd) ∧
      ∃ resp,replies=[cmd::resp] ∧ ∀ received : List CanFrame,received.Perm frames →
        (received.Pairwise fun f g => respSeq f ≤ respSeq g) →
          (received.flatMap respPayload).take (responseLen cmd)=resp

variable {δ : Type} (F : ReadableImage δ) (cfg : PortConfig) (boot : DaqEnv → DaqEnv)

/-- A command sent in a frame and in a datagram leaves the same registers and
calls, and the same answer. -/
def PathsAgree (s : PortState δ Unit DaqEnv) (src : SockAddr) (frame : RxCanFrame) (cmd : Byte)
    (payload : List Byte) : Prop :=
  let can := dcCanAppRx s.env frame
  let udp := udpFwRxThread F cfg (dataCollect boot) s src (cmd::payload)
  can.1=udp.1.env ∧ AnswersAgree cmd can.2.1 (portReplies udp.2)

/-- The port is open with the callback of the data collector, and the sender is
in its subnet. -/
structure Listening (s : PortState δ Unit DaqEnv) (src : SockAddr) : Prop where
  /-- The socket is open. -/
  opened : 0 ≤ s.configSock
  /-- The callback is the one that the boot registers. -/
  handlers : s.handlers=(dataCollect boot).bootHandlers
  /-- The sender is in the subnet. -/
  near : ¬OutsideSubnet s.env.iface src.addr

variable {F cfg boot} {s : PortState δ Unit DaqEnv} {src : SockAddr} {frame : RxCanFrame}
  {cmd : Byte} {payload : List Byte}

/-- A command frame is carried out as the command and payload it carries. -/
theorem dcCanAppRx_carried (env : DaqEnv) (hid : frame.id=dcCanCfgCmd)
    (hcarries : frame.payload=cmd::payload) :
    dcCanAppRx env frame=
      if payload=[] then (env,[],true)
      else ((dcBuildConfigPayload env respSize cmd payload).1,
        (dcBuildConfigPayload env respSize cmd payload).2.elim [] (canSendConfigResp cmd),true) := by
  have hdlc : canDlcToBytes frame.dlc=payload.length+1 := by
    rw [←payload_length,hcarries,List.length_cons]
  have hshort : payload.length≤7 := by
    have hle := frame.size
    have hlen := congrArg List.length hcarries
    rw [RxCanFrame.payload,List.length_take,List.length_cons] at hlen
    omega
  have hdata : frame.data=cmd::payload++frame.data.drop (payload.length+1) := by
    rw [←hcarries,RxCanFrame.payload,hdlc,List.take_append_drop]
  have hcmd : frame.data.getD 0 0=cmd := by
    rw [hdata]
    rfl
  have hreq : (frame.data.drop 1).take payload.length=payload := by
    rw [hdata]
    exact List.take_left
  rw [dcCanAppRx,if_pos hid,hdlc]
  dsimp only
  rw [hcmd,Nat.add_sub_cancel,min_eq_left hshort,hreq]
  by_cases hnil : payload=[]
  · rw [if_pos hnil,if_pos (by rw [hnil]; decide)]
  · have hpos := List.length_pos_iff.mpr hnil
    rw [if_neg hnil,if_neg (by omega)]
    cases (dcBuildConfigPayload env respSize cmd payload).2 <;> rfl

/-- A datagram with a command that the library does not keep is carried out by
the callback. -/
theorem udpFwRxThread_config (hs : Listening boot s src) (hcmd : cmd∉fwCmds)
    (hshort : payload.length≤7) :
    (udpFwRxThread F cfg (dataCollect boot) s src (cmd::payload)).1.env=
        (dcBuildConfigPayload s.env respSize cmd payload).1 ∧
      portReplies (udpFwRxThread F cfg (dataCollect boot) s src (cmd::payload)).2=
        (dcBuildConfigPayload s.env respSize cmd payload).2.elim []
          fun resp => [replyBytes cmd resp] := by
  have hnear : ¬(OutsideSubnet ((dataCollect boot).iface s.env) src.addr ∧ cmd∉s.allowed) :=
    fun h => hs.near h.1
  have hwhole : payload.take (rxBufSize-1)=payload :=
    List.take_of_length_le (hshort.trans (by decide))
  simp only [fwCmds,List.mem_cons,List.not_mem_nil,or_false,not_or] at hcmd
  have hopen : ¬s.configSock < 0 := Int.not_lt.mpr hs.opened
  rw [udpFwRxThread_cons]
  dsimp only
  rw [if_neg hnear,hwhole]
  simp only [handleCommand,handleFwCmd,hcmd,if_false,Bool.false_eq_true,hs.handlers,dataCollect,
    callHandlers,appCmdHandler]
  cases (dcBuildConfigPayload s.env respSize cmd payload).2 with
  | none => exact ⟨rfl,rfl⟩
  | some resp =>
    refine ⟨rfl,?_⟩
    simp only [Option.elim_some,List.flatMap_cons,List.flatMap_nil,udpFwReply,if_neg hopen]
    split <;> rfl

/-- Every command that the library does not keep has the same effects and the
same answer over both transports, unless it is a configuration command in a CAN
frame without payload. -/
theorem paths_agree (hs : Listening boot s src) (hid : frame.id=dcCanCfgCmd)
    (hcarries : frame.payload=cmd::payload) (hcmd : cmd∉fwCmds)
    (hsent : payload≠[] ∨ cmd∉configCmds) : PathsAgree F cfg boot s src frame cmd payload := by
  have hshort : payload.length≤7 := by
    have hle := frame.dlc_le
    have hlen := payload_length frame
    rw [hcarries,List.length_cons,canDlcToBytes_of_le hle] at hlen
    omega
  have hudp := @udpFwRxThread_config δ F cfg boot s src cmd payload hs hcmd hshort
  rw [PathsAgree,hudp.1,hudp.2,dcCanAppRx_carried s.env hid hcarries]
  by_cases hknown : cmd∈configCmds
  · obtain ⟨resp,hresp,hlen⟩ := dcBuildConfigPayload_known s.env payload hknown
    have hbytes : resp.length≤8 ∧ 0 < resp.length := by
      rw [hlen]
      unfold responseLen
      split_ifs <;> omega
    rw [if_neg (hsent.resolve_right (not_not.mpr hknown)),hresp]
    refine ⟨rfl,Or.inr ⟨sendLoop_frames.1,sendLoop_frames.2,resp,?_,?_⟩⟩
    · rw [Option.elim_some,replyBytes,Nat.mod_eq_of_lt (by omega),
        if_pos ⟨hbytes.2,hbytes.1.trans (by decide)⟩,List.take_length]
    · intro received harrived hsorted
      rw [←hlen]
      exact canSendConfigResp_readback (by omega) harrived hsorted
  · rw [dcBuildConfigPayload_unknown s.env payload hknown]
    split <;> exact ⟨rfl,Or.inl ⟨rfl,rfl⟩⟩

/-- A port after a boot without a network interface, on a slot of 64 bytes. -/
def bootedPort : PortState BufferedFlash Unit DaqEnv :=
  .boot (dataCollect id) (.boot ⟨List.replicate 64 0xFF,none,0⟩) ⟨modbusInit 0,[],0,0,none,0,none⟩ 3

/-- The port is listening. -/
theorem listening_bootedPort (src : SockAddr) : Listening id bootedPort src :=
  ⟨by decide,rfl,fun ⟨_,h,_⟩ => absurd h (Option.not_mem_none _)⟩

/-- A command frame with the six bytes of a set sample command. -/
def sampleFrame : RxCanFrame := ⟨⟨dcCanCfgCmd,6,[0x1A,0,100,0,100,1,0,0],rfl⟩,by decide⟩

/-- The sample intervals and the history switch are set. -/
theorem paths_agree_sample : PathsAgree (bufferedFlash 64) ⟨.plain,8600,8⟩ id bootedPort ⟨8601,1⟩
    sampleFrame udpCmdSetSample [0,100,0,100,1] :=
  paths_agree (listening_bootedPort _) rfl rfl (by decide) (Or.inl (by decide))

/-- A command frame with the version command of the upgrade library. -/
def versionFrame : RxCanFrame := ⟨⟨dcCanCfgCmd,2,[4,0,0,0,0,0,0,0],rfl⟩,by decide⟩

/-- The version command is answered over UDP only. -/
theorem paths_disagree : ¬∀ (frame : RxCanFrame) (cmd : Byte) (payload : List Byte),
    frame.id=dcCanCfgCmd → frame.payload=cmd::payload →
      PathsAgree (bufferedFlash 64) ⟨.plain,8600,8⟩ id bootedPort ⟨8601,1⟩ frame cmd payload := by
  intro h
  have hreply : portReplies (udpFwRxThread (bufferedFlash 64) ⟨.plain,8600,8⟩ (dataCollect id)
      bootedPort ⟨8601,1⟩ [fwCmdGetVersion,0]).2=[[fwCmdGetVersion]] := by decide +kernel
  rcases (h versionFrame fwCmdGetVersion [0] rfl rfl).2 with ⟨-,hnone⟩ | ⟨hsome,-⟩
  · rw [hreply] at hnone
    exact List.cons_ne_nil _ _ hnone
  · exact hsome rfl

end Agreement

end ZephyrApp.DaqConfig

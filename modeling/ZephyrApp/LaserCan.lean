import ZephyrApp.LaserFirmware
import ZephyrApp.LaserRegisters
import ZephyrApp.LaserReplies

/-!
# The CAN node of the laser controller

The messages that the controller takes from the bus, with everything they reach: the sensor
behind a serial line, the registers in flash, the firmware upgrade, and the bits of the
status word that these share. A request to the sensor waits for an event, and while it waits
the thread of the serial line takes the lines that come in.
-/

namespace ZephyrApp.LaserCan

open MachineBytes CanFrames EventRuns DecimalText LaserRegisters FlashReadback
open CanFwUpgrade (RxCanFrame)
open LaserFirmware (LaserVersions ImageFwMsg LaserAction platformRx fwDataRx)
open LaserReplies (LaserEventBit LaserSerial laserRequest laserMsgProcessThread)

section Numbers

/-- `COB_ID1_RX`. -/
def cobId1Rx : Word := 0x664

/-- `COB_ID1_TX`. -/
def cobId1Tx : Word := 0x5E4

/-- `COB_ID2_RX`. -/
def cobId2Rx : Word := 0x665

/-- `COB_ID2_TX`. -/
def cobId2Tx : Word := 0x5E5

/-- `CAN_HOST_MASK`. -/
def canHostMask : Word := 0x00FFFFFF

/-- `CAN_HOST_ACK_ID`. -/
def canHostAckId : Word := 0x60000000

/-- `CAN_HOST_NOACK_ID`. -/
def canHostNoackId : Word := 0x80000000

/-- `SYSTEMSTATUSWORKING`. -/
def systemStatusWorking : Word := 0x01

/-- `SYSTEMSTATUSEEPROM`. -/
def systemStatusEeprom : Word := 0x10

/-- `SYSTEMSTATUSWRIERR`, which the answers give as a number. -/
def systemStatusWriErr : Word := 0x12

/-- `SYSTEMSTATUSREADERR`, which the answers give as a number. -/
def systemStatusReadErr : Word := 0x11

/-- `CANREADSYSTEMSTATUS`. -/
def canReadSystemStatus : Word := 0x40000000

/-- `CANWRITESYSTEMSTATUS`. -/
def canWriteSystemStatus : Word := 0x22000000

/-- `CANCMD_LASER_CTRL`. -/
def canCmdLaserCtrl : Word := 0x22416200

/-- `CANCMD_LASER_PEROID_CONF`. -/
def canCmdLaserPeroidConf : Word := 0x22426200

/-- `CANCMD_LASER_PEROID_GET`. -/
def canCmdLaserPeroidGet : Word := 0x40426200

/-- `CANCMD_LASER_CTRL_ENABLE`. -/
def canCmdLaserCtrlEnable : Word := 1

/-- `CANCMD_LASER_CTRL_DISABLE`. -/
def canCmdLaserCtrlDisable : Word := 0

/-- The commands, those with two numbers once. -/
inductive Command where
  /-- `CANRECSDOREADCONWORD`. -/
  | readConWord
  /-- `CANRECSDOWRITECONWORD`, `CANRECSDOWRITECONWORD_NEW`. -/
  | writeConWord
  /-- `CANRECSDOREADXAXISREALVAL`. -/
  | readXAxisRealVal
  /-- `CANRECSDOREADYAXISREALVAL`. -/
  | readYAxisRealVal
  /-- `CANRECSDOREADXAXIS`. -/
  | readXAxis
  /-- `CANRECSDOREADYAXIS`. -/
  | readYAxis
  /-- `CANRECSDOWRITEXAXIS`. -/
  | writeXAxis
  /-- `CANRECSDOWRITEYAXIS`. -/
  | writeYAxis
  /-- `CANREADSYSTEMSTATUS`. -/
  | readSystemStatus
  /-- `CANWRITESYSTEMSTATUS`, `CANWRITESYSTEMSTATUS_NEW`. -/
  | writeSystemStatus
  /-- `CANCMD_LASER_CTRL`, `CANCMD_LASER_CTRL_NEW`. -/
  | laserCtrl
  /-- `CANCMD_LASER_PEROID_CONF`, `CANCMD_LASER_PEROID_CONFN`. -/
  | peroidConf
  /-- `CANCMD_LASER_PEROID_GET`. -/
  | peroidGet
  deriving DecidableEq

/-- The numbers of the commands, the newer one of a command second. -/
def Command.numbers : Command → List Word
  | .readConWord => [0x40406200]
  | .writeConWord => [0x22406200,0x23406200]
  | .readXAxisRealVal => [0x40466200]
  | .readYAxisRealVal => [0x40486200]
  | .readXAxis => [0x40016200]
  | .readYAxis => [0x40026200]
  | .writeXAxis => [0x22016200]
  | .writeYAxis => [0x22026200]
  | .readSystemStatus => [canReadSystemStatus]
  | .writeSystemStatus => [canWriteSystemStatus,0x23000000]
  | .laserCtrl => [canCmdLaserCtrl,0x23416200]
  | .peroidConf => [canCmdLaserPeroidConf,0x23426200]
  | .peroidGet => [canCmdLaserPeroidGet]

/-- All commands. -/
def Command.all : List Command :=
  [.readConWord,.writeConWord,.readXAxisRealVal,.readYAxisRealVal,.readXAxis,.readYAxis,
    .writeXAxis,.writeYAxis,.readSystemStatus,.writeSystemStatus,.laserCtrl,.peroidConf,
    .peroidGet]

/-- The command that a word stands for. -/
def Command.ofWord (w : Word) : Option Command := Command.all.find? fun c => c.numbers.contains w

end Numbers

/-- What the node sends. -/
inductive NodeOut where
  /-- An answer, `cob_msg_send`. -/
  | reply (data1 data2 id : Word)
  /-- A measurement, the frame with the encoders' positions and the distance. -/
  | measurement (laserVal : BitVec 24)
  /-- A line to the sensor. -/
  | request (text : List Byte)
  /-- What the firmware upgrade does. -/
  | firmware (action : LaserAction)

/-- A line of the sensor, and the time that passes before it is taken. -/
structure SensorLine where
  /-- The milliseconds since what happened before. -/
  after : ℕ
  /-- Its bytes. -/
  data : List Byte

/-- What meets a message while it is handled: the lines that come in while a request to the
sensor waits, the outcomes of the flash operations, and what an unset variable holds. -/
structure Surroundings where
  /-- The lines after the request to stop. -/
  stop : List SensorLine
  /-- The lines after the request to switch on. -/
  on : List SensorLine
  /-- The lines after the request for the error. -/
  readError : List SensorLine
  /-- The lines after the request to clear the error. -/
  clearError : List SensorLine
  /-- The lines after the request to measure. -/
  measure : List SensorLine
  /-- The outcome of an initialisation of the registers. -/
  init : InitOutcome
  /-- The outcome of an erase. -/
  flatten : FlashOutcome
  /-- The outcome of a write. -/
  write : FlashOutcome
  /-- The value of an unset variable. -/
  stack : Word

/-- The statics of the controller. The bits `LASER_WRITE_MODE` and `LASER_FW_UPDATE` of the
status word stand with the registers. -/
structure Controller (δ : Type) where
  /-- Milliseconds since the start. -/
  uptime : ℕ
  /-- `latest_fw_up_times`. -/
  latestFwUpTimes : ℕ
  /-- `LASER_DEVICE_STATUS`. -/
  deviceStatus : Bool
  /-- `LASER_ON`. -/
  laserOn : Bool
  /-- `LASER_CON_MESURE`. -/
  conMesure : Bool
  /-- `id`. -/
  id : Byte
  /-- `first_on`. -/
  firstOn : Bool
  /-- The registers. -/
  registers : LaserFlash
  /-- `gcXaxisInitValue`. -/
  gcXaxisInitValue : Half
  /-- `gcYaxisInitValue`. -/
  gcYaxisInitValue : Half
  /-- `LaserPeriod`. -/
  laserPeriod : Word
  /-- `SystemStatus`. -/
  systemStatus : Word
  /-- The statics of the firmware upgrade. -/
  msg : ImageFwMsg δ

/-- The start: `laser_can_init` enters read mode. -/
def booted {δ : Type} (flash : Regs) (device : δ) (init : InitOutcome) : Controller δ where
  uptime := 0
  latestFwUpTimes := 0
  deviceStatus := false
  laserOn := false
  conMesure := false
  id := 0
  firstOn := false
  registers := (laserFlashReadMode (laserBoot flash) init).1
  gcXaxisInitValue := 0
  gcYaxisInitValue := 0
  laserPeriod := 100
  systemStatus := systemStatusWorking
  msg := .boot device

/-- What a call leaves: whether it succeeded, the statics, and what was sent. -/
structure NodeReport (δ : Type) where
  /-- The success. -/
  ok : Bool
  /-- The statics. -/
  state : Controller δ
  /-- What was sent, in order. -/
  out : List NodeOut

section Sensor

variable {δ : Type}

/-- The statics that the thread of the serial line uses. -/
def Controller.serial (s : Controller δ) : LaserSerial :=
  ⟨s.id,s.firstOn,s.conMesure,s.registers.fwUpdate⟩

/-- The time goes on. -/
def Controller.wait (s : Controller δ) (ms : ℕ) : Controller δ := {s with uptime := s.uptime+ms}

/-- More than ten seconds have passed since the latest frame of an upgrade. -/
def Controller.late (s : Controller δ) : Bool := decide (10000 < s.uptime-s.latestFwUpTimes)

/-- One line taken by `laser_msg_process_thread`, with the events it sets. -/
def takeLine (s : Controller δ) (line : SensorLine) :
    Controller δ×List LaserEventBit×List NodeOut :=
  let s := s.wait line.after
  let r := laserMsgProcessThread s.serial line.data s.late
  ({s with
      firstOn := r.state.firstOn
      registers := {s.registers with fwUpdate := r.state.fwUpdate}},
    r.events,(r.laserVal.map .measurement).toList)

/-- `k_event_wait`: the lines that are taken until one sets the event. That line is taken
whole before the wait ends, the measurement it may send included. -/
def awaitEvent (event : LaserEventBit) : Controller δ → List SensorLine → NodeReport δ
  | s,[] => ⟨false,s,[]⟩
  | s,line::lines =>
    let t := takeLine s line
    if event∈t.2.1 then ⟨true,t.1,t.2.2⟩
    else
      let rest := awaitEvent event t.1 lines
      ⟨rest.ok,rest.state,t.2.2++rest.out⟩

/-- `serial_send`. -/
def serialSend (s : Controller δ) (text : List Byte) (event : LaserEventBit)
    (lines : List SensorLine) : NodeReport δ :=
  let r := awaitEvent event s lines
  ⟨r.ok,r.state,.request text::r.out⟩

/-- `laser_stopclear`. -/
def laserStopclear (s : Controller δ) (env : Surroundings) : NodeReport δ :=
  let r := serialSend s (LaserReplies.laserStopclear s.id) .stopOn env.stop
  if r.ok=false then r else {r with state := {r.state with laserOn := false,conMesure := false}}

/-- `laser_on`. -/
def laserOn (s : Controller δ) (env : Surroundings) : NodeReport δ :=
  let r := serialSend s (LaserReplies.laserOn s.id) .stopOn env.on
  if r.ok=false then r else {r with state := {r.state with laserOn := true}}

/-- `%d` of a word. -/
def signedText (w : Word) : List Byte :=
  if w.toInt < 0 then 0x2D::decimalText (-w.toInt).toNat else decimalText w.toInt.toNat

/-- `laser_con_measure`. -/
def laserConMeasure (s : Controller δ) (val : Word) (env : Surroundings) : NodeReport δ :=
  let r1 := serialSend s (laserRequest s.id [0x72,0x65]) .error env.readError
  if r1.ok=false then r1
  else
    let r2 := serialSend r1.state (laserRequest s.id [0x63,0x65]) .error env.clearError
    if r2.ok=false then ⟨false,r2.state,r1.out++r2.out⟩
    else
      let r3 := serialSend r2.state (laserRequest s.id (0x68::0x2B::signedText val)) .msg
        env.measure
      if r3.ok=false then ⟨false,r3.state,r1.out++r2.out++r3.out⟩
      else ⟨true,{r3.state with conMesure := true,deviceStatus := true},r1.out++r2.out++r3.out⟩

end Sensor

/-- A big-endian word of a frame. -/
def be32 (frame : RxCanFrame) (i : ℕ) : Word := sysGetBe32 frame.data (4*i)

/-- The register number of a frame, counted from one, zero meaning one. -/
def registerAddress (frame : RxCanFrame) : ℕ :=
  let address := (frame.data.getD 1 0).toNat+(frame.data.getD 2 0).toNat*10
  if address=0 then 1 else address

section Messages

variable {δ : Type}

/-- An answer of the first object dictionary. -/
def answer (s : Controller δ) (data1 data2 : Word) : NodeReport δ :=
  ⟨true,s,[.reply data1 data2 cobId1Tx]⟩

/-- `CANCMD_LASER_CTRL`. -/
def handleLaserCtrl (s : Controller δ) (value : Word) (env : Surroundings) : NodeReport δ :=
  let ack := canCmdLaserCtrl &&& canHostMask ||| canHostAckId
  let noack := canCmdLaserCtrl &&& canHostMask ||| canHostNoackId
  if value=canCmdLaserCtrlEnable then
    let on := laserOn s env
    if on.ok=false then ⟨true,on.state,on.out++[.reply noack value cobId1Tx]⟩
    else
      let measure := laserConMeasure on.state s.laserPeriod env
      ⟨true,measure.state,on.out++measure.out++
        [.reply (if measure.ok then ack else noack) value cobId1Tx]⟩
  else if value=canCmdLaserCtrlDisable then
    let stop := laserStopclear s env
    ⟨true,stop.state,stop.out++[.reply (if stop.ok then ack else noack) value cobId1Tx]⟩
  else answer s noack value

/-- The cases of `laser_canrx_msg_handler` for `COB_ID1_RX`. -/
def handleCommand (s : Controller δ) (value : Word) (env : Surroundings) :
    Command → NodeReport δ
  | .readConWord => answer s 0x43406200 (if s.deviceStatus then 1 else 0)
  | .writeConWord => answer {s with deviceStatus := decide (value≠0)} 0x60406200 value
  | .readXAxisRealVal => answer s 0x43466200 0x1234
  | .readYAxisRealVal => answer s 0x43486200 0x1234
  | .readXAxis => answer s 0x43016200 (s.gcXaxisInitValue.signExtend 32)
  | .readYAxis => answer s 0x43026200 (s.gcYaxisInitValue.signExtend 32)
  | .writeXAxis =>
    let axis := value.setWidth 16
    answer {s with gcXaxisInitValue := axis} 0x60016200 (axis.signExtend 32)
  | .writeYAxis =>
    let axis := value.setWidth 16
    answer {s with gcYaxisInitValue := axis} 0x60026200 (axis.signExtend 32)
  | .readSystemStatus =>
    answer {s with
      systemStatus := systemStatusWorking
      registers := (laserFlashReadMode s.registers env.init).1} systemStatusWorking
      canReadSystemStatus
  | .writeSystemStatus =>
    answer {s with
      systemStatus := systemStatusEeprom
      registers := (laserFlashWriteMode s.registers env.init).1} systemStatusEeprom
      canWriteSystemStatus
  | .laserCtrl => handleLaserCtrl s value env
  | .peroidConf =>
    answer {s with laserPeriod := value} (canCmdLaserPeroidConf &&& canHostMask ||| canHostAckId)
      value
  | .peroidGet =>
    answer s (canCmdLaserPeroidGet &&& canHostMask ||| canHostAckId) s.laserPeriod

/-- The case of `laser_canrx_msg_handler` for `COB_ID2_RX`. -/
def handleRegister (s : Controller δ) (frame : RxCanFrame) (env : Surroundings) : NodeReport δ :=
  let address := BitVec.ofNat 16 (registerAddress frame-1)
  if frame.data.getD 0 0=0x22 then
    let val := be32 frame 1
    let w := laserFlashWrite s.registers address val env.flatten env.write
    ⟨true,{s with registers := w.1},
      [.reply (if w.2≠0 then systemStatusWriErr else 1) val cobId2Tx]⟩
  else if frame.data.getD 0 0=0x40 then
    match laserFlashRead s.registers address with
    | none => ⟨true,s,[.reply systemStatusReadErr env.stack cobId2Tx]⟩
    | some val => ⟨true,s,[.reply 1 val cobId2Tx]⟩
  else ⟨true,s,[]⟩

variable (F : ReadableImage δ) (v : LaserVersions)

/-- `LASER_FW_UPDATE` after what the firmware upgrade did. -/
def updatingAfter (updating : Bool) (actions : List LaserAction) : Bool :=
  actions.foldl (fun b a =>
    match a with
    | .updating on => on
    | _ => b) updating

/-- Whether the firmware upgrade has restarted the system. -/
def reboots (actions : List LaserAction) : Bool :=
  actions.any fun
    | .reboot => true
    | _ => false

/-- The case of `laser_canrx_msg_handler` for the frames of an upgrade. -/
def handleFirmware (s : Controller δ) (frame : RxCanFrame) (env : Surroundings) : NodeReport δ :=
  let r := LaserFirmware.fwUpdate F v s.msg frame
  let out := r.actions.map NodeOut.firmware
  if reboots r.actions then ⟨true,booted s.registers.flash r.state.device env.init,out⟩
  else
    ⟨true,{s with
      latestFwUpTimes := s.uptime
      msg := r.state
      registers := {s.registers with
        fwUpdate := updatingAfter s.registers.fwUpdate r.actions}},out⟩

/-- `laser_canrx_msg_handler`. -/
def laserCanrxMsgHandler (s : Controller δ) (frame : RxCanFrame) (env : Surroundings) :
    NodeReport δ :=
  if frame.id=cobId1Rx then
    match Command.ofWord (be32 frame 0) with
    | none => ⟨true,s,[]⟩
    | some command => handleCommand s (be32 frame 1) env command
  else if frame.id=cobId2Rx then handleRegister s frame env
  else if frame.id=platformRx ∨ frame.id=fwDataRx then handleFirmware F v s frame env
  else ⟨true,s,[]⟩

end Messages

/-- What happens to the controller. -/
inductive NodeEvent where
  /-- A message is taken from the bus. -/
  | can (frame : RxCanFrame) (env : Surroundings)
  /-- A line of the sensor is taken. -/
  | line (line : SensorLine)
  /-- Time passes. -/
  | pass (ms : ℕ)
  /-- The command `laser id`. -/
  | setId (id : Byte)
  /-- The controller loses its supply and starts again. -/
  | restart (init : InitOutcome)

section Events

variable {δ : Type} (F : ReadableImage δ) (v : LaserVersions)

/-- One event. -/
def nodeStep (s : Controller δ) : NodeEvent → Controller δ×List NodeOut
  | .can frame env =>
    let r := laserCanrxMsgHandler F v s frame env
    (r.state,r.out)
  | .line line =>
    let t := takeLine s line
    (t.1,t.2.2)
  | .pass ms => (s.wait ms,[])
  | .setId id => ({s with id := id},[])
  | .restart init => (booted s.registers.flash (F.reboot s.msg.device) init,[])

/-- The statics after an event. -/
def nodeNext (s : Controller δ) (e : NodeEvent) : Controller δ := (nodeStep F v s e).1

/-- What an event makes the node send. -/
def nodeOut (s : Controller δ) (e : NodeEvent) : List NodeOut := (nodeStep F v s e).2

end Events

section Answers

variable {δ : Type} {F : ReadableImage δ} {v : LaserVersions} {s : Controller δ}
variable {env : Surroundings}

/-- The answers among what is sent. -/
def replies (out : List NodeOut) : List (Word×Word×Word) :=
  out.filterMap fun
    | .reply data1 data2 id => some (data1,data2,id)
    | _ => none

/-- The answers of two parts follow each other. -/
@[simp] theorem replies_append (xs ys : List NodeOut) :
    replies (xs++ys)=replies xs++replies ys := List.filterMap_append

/-- A message that the node answers. -/
def IsRequest (frame : RxCanFrame) : Prop :=
  frame.id=cobId1Rx ∧ (Command.ofWord (be32 frame 0)).isSome=true ∨
    frame.id=cobId2Rx ∧ (frame.data.getD 0 0=0x22 ∨ frame.data.getD 0 0=0x40)

instance (frame : RxCanFrame) : Decidable (IsRequest frame) :=
  inferInstanceAs (Decidable (_ ∧ _ ∨ _ ∧ _))

/-- The message of an event that asks for an answer. -/
def requestOf : NodeEvent → List RxCanFrame
  | .can frame _ => if IsRequest frame then [frame] else []
  | _ => []

/-- An answer belongs to a message: its identifier is that of the answers to the message's,
and it names the object of the message. The answers about the system status name theirs in
the second word, the others in the first. -/
structure Answers (frame : RxCanFrame) (reply : Word×Word×Word) : Prop where
  /-- The identifier. -/
  id : reply.2.2+0x80=frame.id
  /-- The object. -/
  object : frame.id=cobId1Rx →
    reply.1 &&& canHostMask=be32 frame 0 &&& canHostMask ∨
      be32 frame 0 &&& canHostMask=0 ∧ reply.2.1 &&& canHostMask=0

/-- A command is one of its numbers. -/
theorem mem_numbers {w : Word} {command : Command} (h : Command.ofWord w=some command) :
    w∈command.numbers := by
  have hfound := List.find?_some h
  exact List.contains_iff_mem.mp hfound

/-- A line of the sensor is not answered. -/
theorem replies_takeLine (line : SensorLine) : replies (takeLine s line).2.2=[] := by
  dsimp only [takeLine]
  cases (laserMsgProcessThread (s.wait line.after).serial line.data
    (s.wait line.after).late).laserVal with
  | none => rfl
  | some _ => rfl

/-- Nothing is answered while a request to the sensor waits. -/
theorem replies_awaitEvent (event : LaserEventBit) (lines : List SensorLine) :
    replies (awaitEvent event s lines).out=[] := by
  induction lines generalizing s with
  | nil => rfl
  | cons line lines ih =>
    rw [awaitEvent]
    dsimp only
    split
    · exact replies_takeLine line
    · rw [replies_append,replies_takeLine,ih]
      rfl

/-- A request to the sensor is not answered on the bus. -/
theorem replies_serialSend (text : List Byte) (event : LaserEventBit) (lines : List SensorLine) :
    replies (serialSend s text event lines).out=[] := replies_awaitEvent event lines

/-- Nor is switching the laser on. -/
theorem replies_laserOn : replies (laserOn s env).out=[] := by
  rw [laserOn]
  split
  · exact replies_serialSend _ _ _
  · exact replies_serialSend _ _ _

/-- Nor stopping it. -/
theorem replies_laserStopclear : replies (laserStopclear s env).out=[] := by
  rw [laserStopclear]
  split
  · exact replies_serialSend _ _ _
  · exact replies_serialSend _ _ _

/-- Nor starting to measure. -/
theorem replies_laserConMeasure (val : Word) : replies (laserConMeasure s val env).out=[] := by
  rw [laserConMeasure]
  dsimp only
  split
  · exact replies_serialSend _ _ _
  · split
    · simp only [replies_append,replies_serialSend,List.append_nil]
    · split <;> simp only [replies_append,replies_serialSend,List.append_nil]

/-- The laser's control is answered once, with its own object. -/
theorem replies_handleLaserCtrl (s : Controller δ) (env : Surroundings) (value : Word) :
    ∃ data1 data2,replies (handleLaserCtrl s value env).out=[(data1,data2,cobId1Tx)] ∧
      data1 &&& canHostMask=canCmdLaserCtrl &&& canHostMask := by
  have hack : (canCmdLaserCtrl &&& canHostMask ||| canHostAckId) &&& canHostMask=
      canCmdLaserCtrl &&& canHostMask := by decide
  have hnoack : (canCmdLaserCtrl &&& canHostMask ||| canHostNoackId) &&& canHostMask=
      canCmdLaserCtrl &&& canHostMask := by decide
  rw [handleLaserCtrl]
  dsimp only
  split
  · split
    · exact ⟨_,_,by rw [replies_append,replies_laserOn]; rfl,hnoack⟩
    · refine ⟨_,_,by
        rw [replies_append,replies_append,replies_laserOn,replies_laserConMeasure]; rfl,?_⟩
      split
      · exact hack
      · exact hnoack
  · split
    · refine ⟨_,_,by rw [replies_append,replies_laserStopclear]; rfl,?_⟩
      split
      · exact hack
      · exact hnoack
    · exact ⟨_,_,rfl,hnoack⟩

/-- A command is answered once, with its object. -/
theorem replies_handleCommand {frame : RxCanFrame} {command : Command}
    (hid : frame.id=cobId1Rx) (h : Command.ofWord (be32 frame 0)=some command) :
    List.Forall₂ Answers [frame] (replies (handleCommand s (be32 frame 1) env command).out) := by
  have hsame : cobId1Tx+0x80=cobId1Rx := by decide
  have hone : ∀ data1 data2 : Word,
      (data1 &&& canHostMask=be32 frame 0 &&& canHostMask ∨
        be32 frame 0 &&& canHostMask=0 ∧ data2 &&& canHostMask=0) →
      List.Forall₂ Answers [frame] [(data1,data2,cobId1Tx)] := fun data1 data2 hobject =>
    .cons ⟨hsame.trans hid.symm,fun _ => hobject⟩ .nil
  have hnumber := mem_numbers h
  cases command with
  | laserCtrl =>
    obtain ⟨data1,data2,hreplies,hobject⟩ := replies_handleLaserCtrl s env (be32 frame 1)
    rw [handleCommand,hreplies]
    refine hone data1 data2 (Or.inl (hobject.trans ?_))
    rcases List.mem_pair.mp hnumber with hw | hw
    · rw [hw]
    · rw [hw]
      decide
  | readSystemStatus =>
    refine hone _ _ (Or.inr ?_)
    rw [List.mem_singleton.mp hnumber]
    decide
  | writeSystemStatus =>
    refine hone _ _ (Or.inr ?_)
    rcases List.mem_pair.mp hnumber with hw | hw
    · rw [hw]
      decide
    · rw [hw]
      decide
  | writeConWord =>
    refine hone _ _ (Or.inl ?_)
    rcases List.mem_pair.mp hnumber with hw | hw
    · rw [hw]
      decide
    · rw [hw]
      decide
  | peroidConf =>
    refine hone _ _ (Or.inl ?_)
    rcases List.mem_pair.mp hnumber with hw | hw
    · rw [hw]
      decide
    · rw [hw]
      decide
  | readConWord | readXAxisRealVal | readYAxisRealVal | readXAxis | readYAxis | writeXAxis
  | writeYAxis | peroidGet =>
    refine hone _ _ (Or.inl ?_)
    rw [List.mem_singleton.mp hnumber]
    decide

/-- What an event makes the node answer. -/
theorem replies_nodeOut (s : Controller δ) (e : NodeEvent) :
    List.Forall₂ Answers (requestOf e) (replies (nodeOut F v s e)) := by
  cases e with
  | line line =>
    rw [nodeOut,nodeStep]
    dsimp only
    rw [replies_takeLine]
    exact .nil
  | pass ms => exact .nil
  | setId id => exact .nil
  | restart init => exact .nil
  | can frame env =>
    rw [nodeOut,nodeStep,requestOf]
    dsimp only
    rw [laserCanrxMsgHandler]
    by_cases hone : frame.id=cobId1Rx
    · rw [if_pos hone]
      cases hcommand : Command.ofWord (be32 frame 0) with
      | none =>
        have hnot : ¬IsRequest frame := by
          rintro (⟨-,hsome⟩ | ⟨htwo,-⟩)
          · rw [hcommand] at hsome
            exact Bool.false_ne_true hsome
          · exact absurd (hone.symm.trans htwo) (by decide)
        rw [if_neg hnot]
        exact .nil
      | some command =>
        have hrequest : IsRequest frame := Or.inl ⟨hone,by rw [hcommand]; rfl⟩
        rw [if_pos hrequest]
        exact replies_handleCommand hone hcommand
    · rw [if_neg hone]
      by_cases htwo : frame.id=cobId2Rx
      · rw [if_pos htwo,handleRegister]
        have hsame : cobId2Tx+0x80=cobId2Rx := by decide
        have hanswer : ∀ data1 data2 : Word,
            List.Forall₂ Answers [frame] [(data1,data2,cobId2Tx)] := fun data1 data2 =>
          .cons ⟨hsame.trans htwo.symm,fun h => absurd h hone⟩ .nil
        dsimp only
        by_cases hwrite : frame.data.getD 0 0=0x22
        · have hrequest : IsRequest frame := Or.inr ⟨htwo,Or.inl hwrite⟩
          rw [if_pos hwrite,if_pos hrequest]
          exact hanswer _ _
        · rw [if_neg hwrite]
          by_cases hread : frame.data.getD 0 0=0x40
          · have hrequest : IsRequest frame := Or.inr ⟨htwo,Or.inr hread⟩
            rw [if_pos hread,if_pos hrequest]
            split <;> exact hanswer _ _
          · rw [if_neg hread,if_neg]
            · exact .nil
            · rintro (⟨h,-⟩ | ⟨-,h | h⟩)
              · exact hone h
              · exact hwrite h
              · exact hread h
      · rw [if_neg htwo,if_neg]
        · have hquiet : ∀ actions : List LaserAction,
              replies (actions.map NodeOut.firmware)=[] := by
            intro actions
            rw [replies,List.filterMap_map]
            exact List.filterMap_eq_nil_iff.mpr fun _ _ => rfl
          split
          · rw [handleFirmware]
            dsimp only
            split
            · rw [hquiet]
              exact .nil
            · rw [hquiet]
              exact .nil
          · exact .nil
        · rintro (⟨h,-⟩ | ⟨h,-⟩)
          · exact hone h
          · exact htwo h

end Answers

section Waits

variable {δ : Type} {s t u : Controller δ} {env : Surroundings}

/-- What the lines of the sensor and the requests to it leave alone: the settings, the
registers, and the statics of the upgrade. Of the status word they may clear
`LASER_FW_UPDATE`, never set it. -/
structure Undisturbed (s t : Controller δ) : Prop where
  /-- `gcXaxisInitValue`. -/
  xAxis : t.gcXaxisInitValue=s.gcXaxisInitValue
  /-- `gcYaxisInitValue`. -/
  yAxis : t.gcYaxisInitValue=s.gcYaxisInitValue
  /-- `LaserPeriod`. -/
  peroid : t.laserPeriod=s.laserPeriod
  /-- The registers but for the bit. -/
  registers : t.registers={s.registers with fwUpdate := t.registers.fwUpdate}
  /-- The bit. -/
  cleared : t.registers.fwUpdate=true → s.registers.fwUpdate=true

/-- Doing nothing disturbs nothing. -/
theorem Undisturbed.refl (s : Controller δ) : Undisturbed s s := ⟨rfl,rfl,rfl,rfl,id⟩

/-- Two parts that disturb nothing. -/
theorem Undisturbed.trans (h : Undisturbed s t) (h' : Undisturbed t u) : Undisturbed s u where
  xAxis := h'.xAxis.trans h.xAxis
  yAxis := h'.yAxis.trans h.yAxis
  peroid := h'.peroid.trans h.peroid
  registers := by
    rw [h'.registers,h.registers]
  cleared bit := h.cleared (h'.cleared bit)

/-- A line leaves the bit as it was or clears it. -/
theorem fwUpdate_laserMsgProcessThread (l : LaserSerial) (data : List Byte) (late : Bool)
    (h : (laserMsgProcessThread l data late).state.fwUpdate=true) : l.fwUpdate=true := by
  have hreport : ∀ (l : LaserSerial) (events : List LaserEventBit) (d : ℤ),
      (LaserReplies.reportDistance l events late d).state.fwUpdate=true → l.fwUpdate=true := by
    intro l events d hbit
    rw [LaserReplies.reportDistance] at hbit
    split at hbit
    · rename_i hset
      exact hset
    · exact hbit
  rw [laserMsgProcessThread] at h
  split at h
  · exact h
  · split at h
    · exact hreport {l with firstOn := false} _ _ h
    · exact hreport l _ _ h
  · exact hreport l _ _ h
  · exact h
  · exact h

/-- No measurement is sent. -/
def Silent (out : List NodeOut) : Prop := ∀ val,NodeOut.measurement val∉out

/-- Two silent parts. -/
theorem Silent.append {xs ys : List NodeOut} (hx : Silent xs) (hy : Silent ys) :
    Silent (xs++ys) := by
  intro val hmem
  rcases List.mem_append.mp hmem with h | h
  · exact hx val h
  · exact hy val h

/-- One thing sent that is no measurement. -/
theorem Silent.cons {x : NodeOut} {xs : List NodeOut} (hx : ∀ val,x≠.measurement val)
    (hxs : Silent xs) : Silent (x::xs) := by
  intro val hmem
  rcases List.mem_cons.mp hmem with h | h
  · exact hx val h.symm
  · exact hxs val h

/-- Nothing sent. -/
theorem Silent.nil : Silent [] := fun _ => List.not_mem_nil

/-- An answer. -/
theorem Silent.reply (data1 data2 id : Word) : Silent [.reply data1 data2 id] :=
  .cons (fun _ h => by cases h) .nil

/-- A line that leaves the bit set sends no measurement. -/
theorem silent_takeLine (line : SensorLine) (h : (takeLine s line).1.registers.fwUpdate=true) :
    Silent (takeLine s line).2.2 := by
  have hreport : ∀ (l : LaserSerial) (events : List LaserEventBit) (late : Bool) (d : ℤ),
      (LaserReplies.reportDistance l events late d).state.fwUpdate=true →
        (LaserReplies.reportDistance l events late d).laserVal=none := by
    intro l events late d hbit
    rw [LaserReplies.reportDistance] at hbit ⊢
    split at hbit
    · rename_i hset
      rw [if_pos hset]
    · rename_i hclear
      exact absurd hbit hclear
  have hnone : ∀ (l : LaserSerial) (data : List Byte) (late : Bool),
      (laserMsgProcessThread l data late).state.fwUpdate=true →
        (laserMsgProcessThread l data late).laserVal=none := by
    intro l data late hbit
    rw [laserMsgProcessThread] at hbit ⊢
    split at hbit
    · rfl
    · split at hbit
      · rename_i hfirst
        rw [if_pos hfirst]
        exact hreport _ _ _ _ hbit
      · rename_i hfirst
        rw [if_neg hfirst]
        exact hreport _ _ _ _ hbit
    · exact hreport _ _ _ _ hbit
    · rfl
    · rfl
  have hval := hnone (s.wait line.after).serial line.data (s.wait line.after).late h
  have hout : (takeLine s line).2.2=[] := by
    dsimp only [takeLine]
    rw [hval]
    rfl
  rw [hout]
  exact .nil

/-- What is left alone and not sent, of a part that ends in a state. -/
structure Calm (s t : Controller δ) (out : List NodeOut) : Prop extends Undisturbed s t where
  /-- Where the bit is still set at the end, no measurement is sent. -/
  silent : t.registers.fwUpdate=true → Silent out

/-- An answer alone. -/
theorem Calm.reply (data1 data2 id : Word) : Calm s s [.reply data1 data2 id] :=
  ⟨.refl s,fun _ => .reply data1 data2 id⟩

/-- Two calm parts. The second only clears the bit, so that the first is silent too. -/
theorem Calm.append {xs ys : List NodeOut} (hx : Calm s t xs) (hy : Calm t u ys) :
    Calm s u (xs++ys) :=
  ⟨hx.toUndisturbed.trans hy.toUndisturbed,fun bit =>
    (hx.silent (hy.cleared bit)).append (hy.silent bit)⟩

/-- A line is calm. -/
theorem calm_takeLine (s : Controller δ) (line : SensorLine) :
    Calm s (takeLine s line).1 (takeLine s line).2.2 :=
  ⟨⟨rfl,rfl,rfl,rfl,fwUpdate_laserMsgProcessThread _ _ _⟩,silent_takeLine line⟩

/-- So is waiting for an event. -/
theorem calm_awaitEvent (event : LaserEventBit) (s : Controller δ) (lines : List SensorLine) :
    Calm s (awaitEvent event s lines).state (awaitEvent event s lines).out := by
  induction lines generalizing s with
  | nil => exact ⟨.refl s,fun _ => .nil⟩
  | cons line lines ih =>
    have hline := calm_takeLine s line
    rw [awaitEvent]
    dsimp only
    split
    · exact hline
    · exact hline.append (ih _)

/-- So is a request. -/
theorem calm_serialSend (s : Controller δ) (text : List Byte) (event : LaserEventBit)
    (lines : List SensorLine) :
    Calm s (serialSend s text event lines).state (serialSend s text event lines).out := by
  have hwait := calm_awaitEvent event s lines
  exact ⟨hwait.toUndisturbed,fun bit => .cons (fun _ heq => by cases heq) (hwait.silent bit)⟩

/-- So is stopping. -/
theorem calm_laserStopclear (s : Controller δ) (env : Surroundings) :
    Calm s (laserStopclear s env).state (laserStopclear s env).out := by
  have hsend := calm_serialSend s (LaserReplies.laserStopclear s.id) .stopOn env.stop
  rw [laserStopclear]
  split
  · exact hsend
  · exact ⟨⟨hsend.xAxis,hsend.yAxis,hsend.peroid,hsend.registers,hsend.cleared⟩,hsend.silent⟩

/-- So is switching on. -/
theorem calm_laserOn (s : Controller δ) (env : Surroundings) :
    Calm s (laserOn s env).state (laserOn s env).out := by
  have hsend := calm_serialSend s (LaserReplies.laserOn s.id) .stopOn env.on
  rw [laserOn]
  split
  · exact hsend
  · exact ⟨⟨hsend.xAxis,hsend.yAxis,hsend.peroid,hsend.registers,hsend.cleared⟩,hsend.silent⟩

/-- So is starting to measure. -/
theorem calm_laserConMeasure (s : Controller δ) (val : Word) (env : Surroundings) :
    Calm s (laserConMeasure s val env).state (laserConMeasure s val env).out := by
  rw [laserConMeasure]
  dsimp only
  have hread := calm_serialSend s (laserRequest s.id [0x72,0x65]) .error env.readError
  split
  · exact hread
  · have hclear := hread.append (calm_serialSend _
      (laserRequest s.id [0x63,0x65]) .error env.clearError)
    split
    · exact hclear
    · have hmeasure := hclear.append (calm_serialSend _
        (laserRequest s.id (0x68::0x2B::signedText val)) .msg env.measure)
      split
      · exact hmeasure
      · exact ⟨⟨hmeasure.xAxis,hmeasure.yAxis,hmeasure.peroid,hmeasure.registers,
          hmeasure.cleared⟩,hmeasure.silent⟩

/-- So is the laser's control. -/
theorem calm_handleLaserCtrl (s : Controller δ) (value : Word) (env : Surroundings) :
    Calm s (handleLaserCtrl s value env).state (handleLaserCtrl s value env).out := by
  rw [handleLaserCtrl]
  dsimp only
  split
  · split
    · exact (calm_laserOn s env).append (.reply _ _ _)
    · exact ((calm_laserOn s env).append (calm_laserConMeasure _ _ env)).append (.reply _ _ _)
  · split
    · exact (calm_laserStopclear s env).append (.reply _ _ _)
    · exact .reply _ _ _

end Waits

section Settings

variable {δ : Type} {F : ReadableImage δ} {v : LaserVersions} {s : Controller δ}

/-- The settings that messages write and read. -/
inductive Setting where
  /-- The start of the X axis. -/
  | xAxis
  /-- The start of the Y axis. -/
  | yAxis
  /-- The time between two measurements. -/
  | peroid
  deriving DecidableEq

/-- The command that writes a setting. -/
def Setting.writer : Setting → Command
  | .xAxis => .writeXAxis
  | .yAxis => .writeYAxis
  | .peroid => .peroidConf

/-- The command that reads it. -/
def Setting.reader : Setting → Command
  | .xAxis => .readXAxis
  | .yAxis => .readYAxis
  | .peroid => .peroidGet

/-- The object that the answer to a read names. -/
def Setting.object : Setting → Word
  | .xAxis => 0x43016200
  | .yAxis => 0x43026200
  | .peroid => 0x60426200

/-- What is kept of a value that is written: of an axis the low half, with its sign. -/
def Setting.kept (value : Word) : Setting → Word
  | .peroid => value
  | _ => (value.setWidth 16).signExtend 32

/-- What a setting holds after a start. -/
def Setting.initial : Setting → Word
  | .peroid => 100
  | _ => 0

/-- What a setting holds. -/
def Setting.value (s : Controller δ) : Setting → Word
  | .xAxis => s.gcXaxisInitValue.signExtend 32
  | .yAxis => s.gcYaxisInitValue.signExtend 32
  | .peroid => s.laserPeriod

/-- The frames that make the firmware upgrade restart the system. -/
def IsReboot (frame : RxCanFrame) : Prop :=
  frame.id=platformRx ∧ frame.data32 0=LaserFirmware.boardReboot

instance (frame : RxCanFrame) : Decidable (IsReboot frame) :=
  inferInstanceAs (Decidable (_ ∧ _))

/-- What an event writes to a setting, told from the event alone. -/
def Setting.written (setting : Setting) : NodeEvent → Option Word
  | .can frame _ =>
    if frame.id=cobId1Rx then
      if Command.ofWord (be32 frame 0)=some setting.writer then
        some (setting.kept (be32 frame 1))
      else none
    else if IsReboot frame then some setting.initial
    else none
  | .restart _ => some setting.initial
  | _ => none

/-- A start gives every setting its initial value. -/
theorem value_booted (setting : Setting) (flash : Regs) (device : δ) (init : InitOutcome) :
    setting.value (booted flash device init)=setting.initial := by
  cases setting <;> rfl

/-- What disturbs nothing leaves every setting. -/
theorem Undisturbed.value {t : Controller δ} (h : Undisturbed s t) (setting : Setting) :
    setting.value t=setting.value s := by
  cases setting with
  | xAxis => exact congrArg (BitVec.signExtend 32) h.xAxis
  | yAxis => exact congrArg (BitVec.signExtend 32) h.yAxis
  | peroid => exact h.peroid

/-- A command writes a setting or leaves it. -/
theorem value_handleCommand (setting : Setting) (value : Word) (env : Surroundings)
    (command : Command) :
    setting.value (handleCommand s value env command).state=
      if command=setting.writer then setting.kept value else setting.value s := by
  cases command with
  | laserCtrl =>
    have hkept := (calm_handleLaserCtrl s value env).toUndisturbed.value setting
    cases setting <;> exact hkept
  | readConWord | writeConWord | readXAxisRealVal | readYAxisRealVal | readXAxis | readYAxis
  | writeXAxis | writeYAxis | readSystemStatus | writeSystemStatus | peroidConf | peroidGet =>
    cases setting <;> rfl

/-- Only the command to restart makes the upgrade restart the system. -/
theorem reboots_fwUpdate (msg : ImageFwMsg δ) (frame : RxCanFrame) :
    reboots (LaserFirmware.fwUpdate F v msg frame).actions=true ↔ IsReboot frame := by
  have hstart : reboots (LaserFirmware.handleStart F msg frame).actions=false := by
    rw [LaserFirmware.handleStart]
    dsimp only
    split
    · rfl
    · split
      · rfl
      · split <;> rfl
  have hconfirm : reboots (LaserFirmware.handleConfirm F msg frame).actions=false := by
    rw [LaserFirmware.handleConfirm]
    dsimp only
    split <;> rfl
  have hdata : reboots (LaserFirmware.handleData F msg frame).actions=false := by
    rw [LaserFirmware.handleData]
    dsimp only
    split
    · rfl
    · split
      · rfl
      · split <;> rfl
  rw [LaserFirmware.fwUpdate]
  by_cases hplatform : frame.id=platformRx
  · rw [if_pos hplatform]
    by_cases hreboot : frame.data32 0=LaserFirmware.boardReboot
    · rw [hreboot,if_neg (by decide),if_neg (by decide),if_neg (by decide),if_neg (by decide),
        if_pos rfl]
      exact iff_of_true rfl ⟨hplatform,hreboot⟩
    · refine iff_of_false ?_ fun h => hreboot h.2
      rw [Bool.not_eq_true,if_neg hreboot]
      split
      · exact hstart
      · split
        · exact hconfirm
        · split
          · rfl
          · split <;> rfl
  · refine iff_of_false ?_ fun h => hplatform h.1
    rw [Bool.not_eq_true,if_neg hplatform]
    split
    · exact hdata
    · rfl

/-- The frames of an upgrade write no setting but by a restart. -/
theorem value_handleFirmware (setting : Setting) (frame : RxCanFrame) (env : Surroundings) :
    setting.value (handleFirmware F v s frame env).state=
      if IsReboot frame then setting.initial else setting.value s := by
  rw [handleFirmware]
  dsimp only
  by_cases hreboot : IsReboot frame
  · rw [if_pos ((reboots_fwUpdate s.msg frame).mpr hreboot),if_pos hreboot]
    exact value_booted setting _ _ _
  · rw [if_neg (mt (reboots_fwUpdate s.msg frame).mp hreboot),if_neg hreboot]
    cases setting <;> rfl

/-- The messages to the registers write no setting. -/
theorem value_handleRegister (setting : Setting) (frame : RxCanFrame) (env : Surroundings) :
    setting.value (handleRegister s frame env).state=setting.value s := by
  rw [handleRegister]
  dsimp only
  split
  · cases setting <;> rfl
  · split
    · split <;> rfl
    · rfl

/-- What an event does to a setting is told from the event. -/
theorem value_nodeNext (setting : Setting) (s : Controller δ) (e : NodeEvent) :
    setting.value (nodeNext F v s e)=(setting.written e).getD (setting.value s) := by
  cases e with
  | line line => exact (calm_takeLine s line).toUndisturbed.value setting
  | pass ms => cases setting <;> rfl
  | setId id => cases setting <;> rfl
  | restart init => exact value_booted setting _ _ _
  | can frame env =>
    rw [nodeNext,nodeStep,Setting.written]
    dsimp only
    rw [laserCanrxMsgHandler]
    by_cases hone : frame.id=cobId1Rx
    · rw [if_pos hone,if_pos hone]
      cases hcommand : Command.ofWord (be32 frame 0) with
      | none => rfl
      | some command =>
        dsimp only
        rw [value_handleCommand]
        by_cases hwriter : command=setting.writer
        · rw [if_pos hwriter,if_pos (congrArg some hwriter)]
          rfl
        · rw [if_neg hwriter,if_neg fun h => hwriter (Option.some.inj h)]
          rfl
    · rw [if_neg hone,if_neg hone]
      by_cases htwo : frame.id=cobId2Rx
      · have hnot : ¬IsReboot frame := fun h => absurd (htwo.symm.trans h.1) (by decide)
        rw [if_pos htwo,if_neg hnot]
        exact value_handleRegister setting frame env
      · rw [if_neg htwo]
        by_cases hfirmware : frame.id=platformRx ∨ frame.id=fwDataRx
        · rw [if_pos hfirmware,value_handleFirmware]
          split <;> rfl
        · have hnot : ¬IsReboot frame := fun h => hfirmware (Or.inl h.1)
          rw [if_neg hfirmware,if_neg hnot]
          rfl

/-- After every run, with restarts anywhere in it, a message that reads a setting is answered
with what the last message that wrote it since the last restart left, an axis cut to its low
half with the sign, and with the initial value if there was none. -/
theorem settings_read_back (flash : Regs) (device : δ) (init : InitOutcome) (es : List NodeEvent)
    (setting : Setting) (frame : RxCanFrame) (env : Surroundings) (hid : frame.id=cobId1Rx)
    (hread : Command.ofWord (be32 frame 0)=some setting.reader) :
    nodeOut F v (finalState (nodeNext F v) (booted flash device init) es) (.can frame env)=
      [.reply setting.object ((es.filterMap setting.written).getLast?.getD setting.initial)
        cobId1Tx] := by
  have hkeep : ∀ (s : Controller δ) (e : NodeEvent),True → True := fun _ _ h => h
  have hlast := @observed_last _ _ _ _ _ (fun s : Controller δ => setting.value s)
    setting.written hkeep (fun s e _ => value_nodeNext (F := F) (v := v) setting s e)
    (booted flash device init) trivial es
  rw [value_booted] at hlast
  rw [←hlast,nodeOut,nodeStep]
  dsimp only
  rw [laserCanrxMsgHandler,if_pos hid,hread]
  cases setting <;> rfl

/-- A message with two words in network order. -/
def objectFrame (id word0 word1 : Word) : RxCanFrame :=
  ⟨⟨id,8,sysPutBe32 word0++sysPutBe32 word1,rfl⟩,Nat.le_refl 8⟩

/-- No line comes in, and the flash works. -/
def silentSensor : Surroundings := ⟨[],[],[],[],[],.done,.done,.done,0⟩

/-- A start of the X axis with the top bit of its half set is read back negative. -/
theorem settings_read_back_negative :
    nodeOut (bufferedFlash 8) ⟨1,2⟩
      (finalState (nodeNext (bufferedFlash 8) ⟨1,2⟩)
        (booted (fun _ => 0) ⟨[],none,0⟩ .done)
        [.can (objectFrame cobId1Rx 0x22016200 0x12348000) silentSensor])
      (.can (objectFrame cobId1Rx 0x40016200 0) silentSensor)=
      [.reply 0x43016200 0xFFFF8000 cobId1Tx] := by
  have hlast : ([NodeEvent.can (objectFrame cobId1Rx 0x22016200 0x12348000)
      silentSensor].filterMap Setting.xAxis.written).getLast?.getD Setting.xAxis.initial=
      0xFFFF8000 := by decide
  rw [settings_read_back _ _ _ _ .xAxis _ _ rfl (by decide),hlast]
  rfl

end Settings

section Upgrade

variable {δ : Type} {F : ReadableImage δ} {v : LaserVersions} {s : Controller δ}

/-- The registers hold what they held: the flash, and the memory once it has been filled. -/
structure Frozen (r r' : LaserFlash) : Prop where
  /-- The flash. -/
  flash : r'.flash=r.flash
  /-- The memory stays filled. -/
  inited : r.inited=true → r'.inited=true
  /-- The memory. -/
  regs : r.inited=true → r'.laserRegs=r.laserRegs

/-- Registers that nothing touches. -/
theorem Frozen.refl (r : LaserFlash) : Frozen r r := ⟨rfl,id,fun _ => rfl⟩

/-- Two parts that touch nothing. -/
theorem Frozen.trans {r r' r'' : LaserFlash} (h : Frozen r r') (h' : Frozen r' r'') :
    Frozen r r'' where
  flash := h'.flash.trans h.flash
  inited hin := h'.inited (h.inited hin)
  regs hin := (h'.regs (h.inited hin)).trans (h.regs hin)

/-- Read mode touches no filled registers. -/
theorem frozen_readMode (r : LaserFlash) (init : InitOutcome) :
    Frozen r (laserFlashReadMode r init).1 := by
  cases hin : r.inited with
  | true => exact ⟨by simp [laserFlashReadMode,hin],by simp [laserFlashReadMode,hin],
      by simp [laserFlashReadMode,hin]⟩
  | false => cases init <;> exact ⟨by simp [laserFlashReadMode,laserFlashInit,hin],by simp [hin],
      by simp [hin]⟩

/-- Nor does write mode. -/
theorem frozen_writeMode (r : LaserFlash) (init : InitOutcome) :
    Frozen r (laserFlashWriteMode r init).1 := by
  cases hin : r.inited with
  | true => exact ⟨by simp [laserFlashWriteMode,hin],by simp [laserFlashWriteMode,hin],
      by simp [laserFlashWriteMode,hin]⟩
  | false => cases init <;> exact ⟨by simp [laserFlashWriteMode,laserFlashInit,hin],by simp [hin],
      by simp [hin]⟩

/-- What disturbs nothing freezes the registers. -/
theorem Undisturbed.frozen {t : Controller δ} (h : Undisturbed s t) :
    Frozen s.registers t.registers := by
  rw [h.registers]
  exact ⟨rfl,id,fun _ => rfl⟩

/-- No command touches the registers. -/
theorem frozen_handleCommand (value : Word) (env : Surroundings) (command : Command) :
    Frozen s.registers (handleCommand s value env command).state.registers := by
  cases command with
  | laserCtrl => exact (calm_handleLaserCtrl s value env).toUndisturbed.frozen
  | readSystemStatus => exact frozen_readMode _ _
  | writeSystemStatus => exact frozen_writeMode _ _
  | readConWord | writeConWord | readXAxisRealVal | readYAxisRealVal | readXAxis | readYAxis
  | writeXAxis | writeYAxis | peroidConf | peroidGet => exact .refl _

/-- A command after which the bit is set sends no measurement. -/
theorem silent_handleCommand (value : Word) (env : Surroundings) (command : Command)
    (h : (handleCommand s value env command).state.registers.fwUpdate=true) :
    Silent (handleCommand s value env command).out := by
  cases command with
  | laserCtrl => exact (calm_handleLaserCtrl s value env).silent h
  | readSystemStatus | writeSystemStatus | readConWord | writeConWord | readXAxisRealVal
  | readYAxisRealVal | readXAxis | readYAxis | writeXAxis | writeYAxis | peroidConf
  | peroidGet => exact .reply _ _ _

/-- A message that writes a register. -/
def IsRegisterWrite (frame : RxCanFrame) : Prop :=
  frame.id=cobId2Rx ∧ frame.data.getD 0 0=0x22

/-- A message that reads one. -/
def IsRegisterRead (frame : RxCanFrame) : Prop :=
  frame.id=cobId2Rx ∧ frame.data.getD 0 0=0x40

instance (frame : RxCanFrame) : Decidable (IsRegisterWrite frame) :=
  inferInstanceAs (Decidable (_ ∧ _))

/-- A write that meets the bit is refused. -/
theorem handleRegister_refused {frame : RxCanFrame} (env : Surroundings)
    (hwrite : frame.data.getD 0 0=0x22) (h : s.registers.fwUpdate=true) :
    handleRegister s frame env=
      ⟨true,s,[.reply systemStatusWriErr (be32 frame 1) cobId2Tx]⟩ := by
  have hrefused : ∀ address : Half,laserFlashWrite s.registers address (be32 frame 1)
      env.flatten env.write=(s.registers,-1) := by
    intro address
    rw [laserFlashWrite,if_pos (Or.inr h)]
  rw [handleRegister]
  dsimp only
  rw [if_pos hwrite,hrefused]
  rfl

/-- A message to the registers under the bit touches none, and sends no measurement. -/
theorem handleRegister_frozen (frame : RxCanFrame) (env : Surroundings)
    (h : s.registers.fwUpdate=true) :
    Frozen s.registers (handleRegister s frame env).state.registers ∧
      Silent (handleRegister s frame env).out := by
  by_cases hwrite : frame.data.getD 0 0=0x22
  · rw [handleRegister_refused env hwrite h]
    exact ⟨.refl _,.reply _ _ _⟩
  · rw [handleRegister]
    dsimp only
    rw [if_neg hwrite]
    split
    · split
      · exact ⟨.refl _,.reply _ _ _⟩
      · exact ⟨.refl _,.reply _ _ _⟩
    · exact ⟨.refl _,.nil⟩

/-- The controller starts without the bit. -/
theorem fwUpdate_booted (flash : Regs) (device : δ) (init : InitOutcome) :
    (booted flash device init).registers.fwUpdate=false := by
  cases init <;> rfl

/-- A frame of an upgrade after which the bit is set touches no register, and sends no
measurement. -/
theorem handleFirmware_frozen (frame : RxCanFrame) (env : Surroundings)
    (h : (handleFirmware F v s frame env).state.registers.fwUpdate=true) :
    Frozen s.registers (handleFirmware F v s frame env).state.registers ∧
      Silent (handleFirmware F v s frame env).out := by
  have hsilent : ∀ actions : List LaserAction,Silent (actions.map NodeOut.firmware) := by
    intro actions val hmem
    obtain ⟨action,-,heq⟩ := List.mem_map.mp hmem
    cases heq
  rw [handleFirmware] at h ⊢
  dsimp only at h ⊢
  split at h
  · rw [fwUpdate_booted] at h
    exact absurd h Bool.false_ne_true
  · rename_i hkept
    rw [if_neg hkept]
    exact ⟨⟨rfl,id,fun _ => rfl⟩,hsilent _⟩

/-- Between two states with the bit set, an event touches no register and sends no
measurement. -/
theorem nodeStep_frozen (s : Controller δ) (e : NodeEvent) (h : s.registers.fwUpdate=true)
    (h' : (nodeNext F v s e).registers.fwUpdate=true) :
    Frozen s.registers (nodeNext F v s e).registers ∧ Silent (nodeOut F v s e) := by
  cases e with
  | line line =>
    have hline := calm_takeLine s line
    exact ⟨hline.toUndisturbed.frozen,hline.silent h'⟩
  | pass ms => exact ⟨.refl _,.nil⟩
  | setId id => exact ⟨.refl _,.nil⟩
  | restart init =>
    rw [nodeNext,nodeStep] at h'
    dsimp only at h'
    rw [fwUpdate_booted] at h'
    exact absurd h' Bool.false_ne_true
  | can frame env =>
    rw [nodeNext,nodeStep] at h' ⊢
    rw [nodeOut,nodeStep]
    dsimp only at h' ⊢
    rw [laserCanrxMsgHandler] at h' ⊢
    split at h'
    · rename_i hone
      rw [if_pos hone]
      split at h'
      · exact ⟨.refl _,.nil⟩
      · exact ⟨frozen_handleCommand _ _ _,silent_handleCommand _ _ _ h'⟩
    · rename_i hone
      rw [if_neg hone]
      split at h'
      · rename_i htwo
        rw [if_pos htwo]
        exact handleRegister_frozen frame env h
      · rename_i htwo
        rw [if_neg htwo]
        split at h'
        · rename_i hfirmware
          rw [if_pos hfirmware]
          exact handleFirmware_frozen frame env h'
        · rename_i hfirmware
          rw [if_neg hfirmware]
          exact ⟨.refl _,.nil⟩

/-- As long as an upgrade holds `LASER_FW_UPDATE` set, whatever else is asked of the node, the
registers keep what they held in the flash and in memory, every message that writes one is
refused, and no measurement is sent. -/
theorem registers_frozen_during_upgrade (s : Controller δ) (es : List NodeEvent)
    (h : Throughout (nodeNext F v) (fun s => s.registers.fwUpdate=true) s es) :
    Frozen s.registers (finalState (nodeNext F v) s es).registers ∧
      AlongRun (nodeNext F v) (fun s e => Silent (nodeOut F v s e) ∧
        ∀ frame env,e=.can frame env → IsRegisterWrite frame →
          nodeOut F v s e=[.reply systemStatusWriErr (be32 frame 1) cobId2Tx]) s es := by
  induction es generalizing s with
  | nil => exact ⟨.refl _,trivial⟩
  | cons e es ih =>
    have hset : s.registers.fwUpdate=true := h.1
    have hnext : (nodeNext F v s e).registers.fwUpdate=true := by
      cases es with
      | nil => exact h.2
      | cons _ _ => exact h.2.1
    obtain ⟨hfrozen,hsilent⟩ := nodeStep_frozen s e hset hnext
    obtain ⟨hrest,halong⟩ := ih (nodeNext F v s e) h.2
    refine ⟨hfrozen.trans hrest,⟨hsilent,?_⟩,halong⟩
    rintro frame env rfl ⟨hid,hwrite⟩
    have hone : ¬frame.id=cobId1Rx := fun hone => absurd (hid.symm.trans hone) (by decide)
    rw [nodeOut,nodeStep]
    dsimp only
    rw [laserCanrxMsgHandler,if_neg hone,if_pos hid,handleRegister_refused env hwrite hset]

/-- The node after a start command in write mode. -/
def upgrading : Controller BufferedFlash :=
  finalState (nodeNext (bufferedFlash 8) ⟨1,2⟩) (booted (fun _ => 7) ⟨[],none,0⟩ .done)
    [.can (objectFrame cobId1Rx canWriteSystemStatus 0) silentSensor,
      .can (CanFwUpgrade.commandFrame LaserFirmware.boardStartUpdate 8) silentSensor]

/-- A write of a register and a distance five seconds after the start. -/
theorem registers_frozen_five_seconds :
    Frozen upgrading.registers (finalState (nodeNext (bufferedFlash 8) ⟨1,2⟩) upgrading
      [.can (objectFrame cobId2Rx 0x22010000 5) silentSensor,
        .line ⟨5000,[0x67,0,0x68,0x2B,0x31,0x0D,0x0A]⟩]).registers :=
  (registers_frozen_during_upgrade upgrading _ (by
    refine ⟨?_,?_,?_⟩
    · decide
    · decide
    · rfl)).1

end Upgrade

section Memory

variable {δ : Type} {F : ReadableImage δ} {v : LaserVersions} {s : Controller δ}

/-- The flash operations that an event asks for succeed. -/
def FlashWorks : NodeEvent → Prop
  | .can _ env => env.init=.done ∧ env.flatten=.done ∧ env.write=.done
  | .restart init => init=.done
  | _ => True

variable (F v) in
/-- What a message writes to a register, where the answer acknowledges it. -/
def acknowledged (i : Fin 50) (s : Controller δ) : NodeEvent → Option Word
  | .can frame env =>
    if IsRegisterWrite frame ∧ registerAddress frame-1=i.val ∧
        replies (nodeOut F v s (.can frame env))=[(1,be32 frame 1,cobId2Tx)] then
      some (be32 frame 1)
    else none
  | _ => none

/-- The registers in memory are filled and those of the flash. -/
structure Filled (r : LaserFlash) : Prop where
  /-- `inited`. -/
  inited : r.inited=true
  /-- Memory and flash agree. -/
  agree : r.laserRegs=r.flash

/-- Registers that nothing touches stay filled. -/
theorem Frozen.filled {r r' : LaserFlash} (h : Frozen r r') (hr : Filled r) : Filled r' where
  inited := h.inited hr.inited
  agree := by rw [h.regs hr.inited,h.flash,hr.agree]

/-- A start that reads the flash fills the registers and keeps the flash. -/
theorem filled_booted (flash : Regs) (device : δ) :
    Filled (booted flash device .done).registers ∧
      (booted flash device .done).registers.flash=flash := ⟨⟨rfl,rfl⟩,rfl⟩

/-- The number of a register fits the argument that carries it. -/
theorem registerAddress_half (frame : RxCanFrame) :
    (BitVec.ofNat 16 (registerAddress frame-1)).toNat=registerAddress frame-1 := by
  have hlow := (frame.data.getD 1 0).isLt
  have hhigh := (frame.data.getD 2 0).isLt
  rw [BitVec.toNat_ofNat]
  refine Nat.mod_eq_of_lt ?_
  rw [registerAddress]
  split <;> omega

/-- A write with a working flash fills the register it names if it is acknowledged, and
changes nothing if it is not. -/
theorem laserFlashWrite_works {r : LaserFlash} (address : Half) (val : Word) (h : Filled r) :
    Filled (laserFlashWrite r address val .done .done).1 ∧
      ((laserFlashWrite r address val .done .done).2=0 ∧ address.toNat < 50 ∧
          (∀ i : Fin 50,(laserFlashWrite r address val .done .done).1.flash i=
            if i.val=address.toNat then val else r.flash i) ∨
        (laserFlashWrite r address val .done .done).2=-1 ∧
          (laserFlashWrite r address val .done .done).1=r) := by
  by_cases hchanges : Changes r address val
  · rw [laserFlashWrite_done hchanges]
    obtain ⟨-,-,hlt,-⟩ := hchanges
    refine ⟨⟨h.inited,rfl⟩,Or.inl ⟨rfl,hlt,fun i => ?_⟩⟩
    rw [←h.agree]
    rfl
  · rcases laserFlashWrite_unchanged .done .done hchanges with hrun | ⟨hrun,-,hlt,hval⟩
    · rw [hrun]
      exact ⟨h,Or.inr ⟨rfl,rfl⟩⟩
    · rw [hrun]
      refine ⟨h,Or.inl ⟨rfl,hlt,fun i => ?_⟩⟩
      split
      · rename_i hi
        rw [←h.agree,←hval]
        exact congrArg r.laserRegs (Fin.ext hi)
      · rfl

/-- A message that writes a register, with a working flash: the answer acknowledges it exactly
if the flash then holds its value at the register it names, and else nothing changes. -/
theorem handleRegister_works {frame : RxCanFrame} {env : Surroundings}
    (hwrite : frame.data.getD 0 0=0x22) (hworks : FlashWorks (.can frame env))
    (h : Filled s.registers) (i : Fin 50) :
    Filled (handleRegister s frame env).state.registers ∧
      (handleRegister s frame env).state.registers.flash i=
        (if registerAddress frame-1=i.val ∧
            replies (handleRegister s frame env).out=[(1,be32 frame 1,cobId2Tx)] then
          some (be32 frame 1)
        else none).getD (s.registers.flash i) := by
  obtain ⟨hflatten,hprogram⟩ := hworks.2
  obtain ⟨hfilled,hcase⟩ := laserFlashWrite_works
    (BitVec.ofNat 16 (registerAddress frame-1)) (be32 frame 1) h
  rw [registerAddress_half] at hcase
  rw [handleRegister]
  dsimp only
  rw [if_pos hwrite,hflatten,hprogram]
  refine ⟨hfilled,?_⟩
  rcases hcase with ⟨hret,hlt,hflash⟩ | ⟨hret,hsame⟩
  · rw [hret,hflash]
    by_cases hi : i.val=registerAddress frame-1
    · rw [if_pos hi,if_pos ⟨hi.symm,rfl⟩]
      rfl
    · rw [if_neg hi,if_neg fun h => hi h.1.symm]
      rfl
  · have hrefused : ¬replies [NodeOut.reply systemStatusWriErr (be32 frame 1) cobId2Tx]=
        [(1,be32 frame 1,cobId2Tx)] := by
      intro heq
      have hne : systemStatusWriErr≠1 := by decide
      exact hne (Prod.mk.inj (List.cons.inj heq).1).1
    have hfailed : (-1 : ℤ)≠0 := by decide
    rw [hret,if_pos hfailed,if_neg fun h => hrefused h.2]
    exact congrArg (fun r : LaserFlash => r.flash i) hsame

/-- An event with a working flash keeps the registers filled, and changes a register exactly
by a write that is acknowledged. -/
theorem flash_nodeNext (i : Fin 50) (s : Controller δ) (e : NodeEvent) (h : Filled s.registers)
    (hworks : FlashWorks e) :
    Filled (nodeNext F v s e).registers ∧
      (nodeNext F v s e).registers.flash i=
        (acknowledged F v i s e).getD (s.registers.flash i) := by
  have hfrozen : ∀ {t : Controller δ},Frozen s.registers t.registers →
      Filled t.registers ∧ t.registers.flash i=s.registers.flash i := fun hf =>
    ⟨hf.filled h,congrFun hf.flash i⟩
  cases e with
  | line line => exact hfrozen (calm_takeLine s line).toUndisturbed.frozen
  | pass ms => exact hfrozen (.refl _)
  | setId id => exact hfrozen (.refl _)
  | restart init =>
    have hinit : init=.done := hworks
    subst hinit
    exact ⟨(filled_booted _ _).1,rfl⟩
  | can frame env =>
    by_cases hwrite : IsRegisterWrite frame
    · have hone : ¬frame.id=cobId1Rx := fun hone =>
        absurd (hwrite.1.symm.trans hone) (by decide)
      have hstep := handleRegister_works hwrite.2 hworks h i
      rw [nodeNext,acknowledged,nodeOut,nodeStep]
      dsimp only
      rw [laserCanrxMsgHandler,if_neg hone,if_pos hwrite.1]
      refine ⟨hstep.1,hstep.2.trans ?_⟩
      congr 1
      exact if_congr ⟨fun hack => ⟨hwrite,hack⟩,fun hack => hack.2⟩ rfl rfl
    · have hnone : acknowledged F v i s (.can frame env)=none := if_neg fun h => hwrite h.1
      rw [hnone,Option.getD_none,nodeNext,nodeStep]
      dsimp only
      rw [laserCanrxMsgHandler]
      split
      · split
        · exact hfrozen (.refl _)
        · exact hfrozen (frozen_handleCommand _ _ _)
      · split
        · rename_i htwo
          have hother : ¬frame.data.getD 0 0=0x22 := fun h => hwrite ⟨htwo,h⟩
          rw [handleRegister]
          dsimp only
          rw [if_neg hother]
          split
          · split <;> exact hfrozen (.refl _)
          · exact hfrozen (.refl _)
        · split
          · rw [handleFirmware]
            dsimp only
            split
            · rw [hworks.1]
              exact ⟨(filled_booted _ _).1,rfl⟩
            · exact hfrozen ⟨rfl,id,fun _ => rfl⟩
          · exact hfrozen (.refl _)

end Memory

section Measuring

variable {δ : Type} {F : ReadableImage δ} {v : LaserVersions} {s : Controller δ}
variable {env : Surroundings}

/-- The answer that acknowledges the laser's control. -/
def controlAck (value : Word) : Word×Word×Word :=
  (canCmdLaserCtrl &&& canHostMask ||| canHostAckId,value,cobId1Tx)

/-- The answer that does not. -/
def controlNoack (value : Word) : Word×Word×Word :=
  (canCmdLaserCtrl &&& canHostMask ||| canHostNoackId,value,cobId1Tx)

/-- The two answers differ. -/
theorem controlNoack_ne (value : Word) : controlNoack value≠controlAck value := by
  have hne : canCmdLaserCtrl &&& canHostMask ||| canHostNoackId≠
      canCmdLaserCtrl &&& canHostMask ||| canHostAckId := by decide
  exact fun h => hne (Prod.mk.inj h).1

variable (F v) in
/-- The laser's control is acknowledged. -/
def IsControlled (s : Controller δ) (frame : RxCanFrame) (env : Surroundings) : Prop :=
  frame.id=cobId1Rx ∧ Command.ofWord (be32 frame 0)=some .laserCtrl ∧
    replies (nodeOut F v s (.can frame env))=[controlAck (be32 frame 1)]

instance (s : Controller δ) (frame : RxCanFrame) (env : Surroundings) :
    Decidable (IsControlled F v s frame env) := inferInstanceAs (Decidable (_ ∧ _ ∧ _))

variable (F v) in
/-- What an event makes of `LASER_CON_MESURE`, told from what is asked and answered. -/
def measured (s : Controller δ) : NodeEvent → Option Bool
  | .can frame env =>
    if IsControlled F v s frame env then some (decide (be32 frame 1=canCmdLaserCtrlEnable))
    else if IsReboot frame then some false
    else none
  | .restart _ => some false
  | _ => none

variable (F v) in
/-- What an event makes of `LASER_DEVICE_STATUS`, told from what is asked and answered. -/
def controlWord (s : Controller δ) : NodeEvent → Option Bool
  | .can frame env =>
    if IsControlled F v s frame env ∧ be32 frame 1=canCmdLaserCtrlEnable then some true
    else if frame.id=cobId1Rx ∧ Command.ofWord (be32 frame 0)=some .writeConWord then
      some (decide (be32 frame 1≠0))
    else if IsReboot frame then some false
    else none
  | .restart _ => some false
  | _ => none

/-- The two bits of the status word. -/
def Controller.status (s : Controller δ) : Bool×Bool := (s.conMesure,s.deviceStatus)

/-- Waiting for an event leaves the two bits. -/
theorem status_awaitEvent (event : LaserEventBit) (s : Controller δ) (lines : List SensorLine) :
    (awaitEvent event s lines).state.status=s.status := by
  induction lines generalizing s with
  | nil => rfl
  | cons line lines ih =>
    rw [awaitEvent]
    dsimp only
    split
    · rfl
    · exact ih _

/-- Switching on leaves them. -/
theorem status_laserOn : (laserOn s env).state.status=s.status := by
  have hsend := status_awaitEvent .stopOn s env.on
  rw [laserOn]
  split <;> exact hsend

/-- Stopping ends the measuring if it succeeds. -/
theorem status_laserStopclear (s : Controller δ) (env : Surroundings) :
    (laserStopclear s env).state.status=
      if (laserStopclear s env).ok then (false,s.deviceStatus) else s.status := by
  have hsend := status_awaitEvent .stopOn s env.stop
  rw [laserStopclear]
  split
  · rename_i hfailed
    rw [hfailed]
    exact hsend
  · rename_i hok
    rw [Bool.not_eq_false] at hok
    dsimp only
    rw [hok,if_pos rfl]
    have hdevice : (awaitEvent .stopOn s env.stop).state.deviceStatus=s.deviceStatus :=
      congrArg Prod.snd hsend
    exact congrArg (Prod.mk false) hdevice

/-- Starting to measure sets both if it succeeds. -/
theorem status_laserConMeasure (s : Controller δ) (env : Surroundings) (val : Word) :
    (laserConMeasure s val env).state.status=
      if (laserConMeasure s val env).ok then (true,true) else s.status := by
  rw [laserConMeasure]
  dsimp only
  have hread := status_awaitEvent .error s env.readError
  split
  · rename_i hfailed
    rw [hfailed]
    exact hread
  · have hclear := (status_awaitEvent .error (serialSend s (laserRequest s.id [0x72,0x65])
      .error env.readError).state env.clearError).trans hread
    split
    · exact hclear
    · split
      · exact (status_awaitEvent .msg _ env.measure).trans hclear
      · rfl

/-- The laser's control is acknowledged exactly if it has done what it was asked for, and
otherwise leaves both bits. -/
theorem status_handleLaserCtrl (s : Controller δ) (env : Surroundings) (value : Word) :
    replies (handleLaserCtrl s value env).out=[controlAck value] ∧
        (handleLaserCtrl s value env).state.status=
          (decide (value=canCmdLaserCtrlEnable),
            decide (value=canCmdLaserCtrlEnable) || s.deviceStatus) ∨
      replies (handleLaserCtrl s value env).out=[controlNoack value] ∧
        (handleLaserCtrl s value env).state.status=s.status := by
  rw [handleLaserCtrl]
  dsimp only
  by_cases henable : value=canCmdLaserCtrlEnable
  · rw [if_pos henable,decide_eq_true henable]
    split
    · refine Or.inr ⟨?_,status_laserOn⟩
      rw [replies_append,replies_laserOn]
      rfl
    · have hmeasure := status_laserConMeasure (laserOn s env).state env s.laserPeriod
      rw [replies_append,replies_append,replies_laserOn,replies_laserConMeasure]
      dsimp only
      rw [hmeasure]
      cases (laserConMeasure (laserOn s env).state s.laserPeriod env).ok with
      | true => exact Or.inl ⟨rfl,rfl⟩
      | false => exact Or.inr ⟨rfl,status_laserOn⟩
  · rw [if_neg henable,decide_eq_false henable]
    split
    · have hstop := status_laserStopclear s env
      rw [replies_append,replies_laserStopclear]
      dsimp only
      rw [hstop]
      cases (laserStopclear s env).ok with
      | true => exact Or.inl ⟨rfl,rfl⟩
      | false => exact Or.inr ⟨rfl,rfl⟩
    · exact Or.inr ⟨rfl,rfl⟩

/-- A command is taken as such. -/
theorem laserCanrxMsgHandler_command {frame : RxCanFrame} {command : Command}
    (hone : frame.id=cobId1Rx) (hcommand : Command.ofWord (be32 frame 0)=some command) :
    laserCanrxMsgHandler F v s frame env=handleCommand s (be32 frame 1) env command := by
  rw [laserCanrxMsgHandler,if_pos hone,hcommand]

/-- A command but the laser's control leaves `LASER_CON_MESURE`, and `LASER_DEVICE_STATUS` but
for the one that writes it. -/
theorem status_handleCommand {command : Command} (value : Word) (h : command≠.laserCtrl) :
    (handleCommand s value env command).state.status=(s.conMesure,
      (if command=.writeConWord then some (decide (value≠0)) else none).getD s.deviceStatus) := by
  cases command with
  | laserCtrl => exact absurd rfl h
  | readConWord | writeConWord | readXAxisRealVal | readYAxisRealVal | readXAxis | readYAxis
  | writeXAxis | writeYAxis | readSystemStatus | writeSystemStatus | peroidConf | peroidGet => rfl

/-- What an event does to the two bits is told from what is asked and answered. -/
theorem status_nodeNext (s : Controller δ) (e : NodeEvent) :
    (nodeNext F v s e).status=
      ((measured F v s e).getD s.conMesure,(controlWord F v s e).getD s.deviceStatus) := by
  cases e with
  | line line => rfl
  | pass ms => rfl
  | setId id => rfl
  | restart init => rfl
  | can frame env =>
    by_cases hone : frame.id=cobId1Rx
    · have hnot : ¬IsReboot frame := fun h => absurd (hone.symm.trans h.1) (by decide)
      cases hcommand : Command.ofWord (be32 frame 0) with
      | none =>
        have hcontrolled : ¬IsControlled F v s frame env := by
          rintro ⟨-,hctrl,-⟩
          rw [hcommand] at hctrl
          cases hctrl
        have hword : ¬(frame.id=cobId1Rx ∧
            Command.ofWord (be32 frame 0)=some .writeConWord) := by
          rintro ⟨-,hwrite⟩
          rw [hcommand] at hwrite
          cases hwrite
        have hon : ¬(IsControlled F v s frame env ∧ be32 frame 1=canCmdLaserCtrlEnable) :=
          fun h => hcontrolled h.1
        rw [measured,controlWord,if_neg hcontrolled,if_neg hnot,if_neg hon,if_neg hword,
          nodeNext,nodeStep]
        dsimp only
        rw [laserCanrxMsgHandler,if_pos hone,hcommand]
        rfl
      | some command =>
        have hnext : nodeNext F v s (.can frame env)=
            (handleCommand s (be32 frame 1) env command).state :=
          congrArg NodeReport.state (laserCanrxMsgHandler_command hone hcommand)
        have hout : nodeOut F v s (.can frame env)=
            (handleCommand s (be32 frame 1) env command).out :=
          congrArg NodeReport.out (laserCanrxMsgHandler_command hone hcommand)
        by_cases hctrl : command=.laserCtrl
        · subst hctrl
          have hword : ¬(frame.id=cobId1Rx ∧
              Command.ofWord (be32 frame 0)=some .writeConWord) := by
            rintro ⟨-,hwrite⟩
            rw [hcommand] at hwrite
            cases hwrite
          rw [measured,controlWord,if_neg hword,if_neg hnot,hnext]
          rcases status_handleLaserCtrl s env (be32 frame 1) with
            ⟨hack,hstatus⟩ | ⟨hnoack,hstatus⟩
          · have hcontrolled : IsControlled F v s frame env := by
              refine ⟨hone,hcommand,?_⟩
              rw [hout]
              exact hack
            rw [if_pos hcontrolled]
            refine hstatus.trans ?_
            by_cases henable : be32 frame 1=canCmdLaserCtrlEnable
            · rw [if_pos ⟨hcontrolled,henable⟩,decide_eq_true henable]
              rfl
            · rw [if_neg fun h => henable h.2,decide_eq_false henable]
              rfl
          · have hcontrolled : ¬IsControlled F v s frame env := by
              rintro ⟨-,-,hack⟩
              rw [hout] at hack
              exact controlNoack_ne _ (List.cons.inj (hnoack.symm.trans hack)).1
            rw [if_neg hcontrolled,if_neg fun h => hcontrolled h.1]
            exact hstatus
        · have hcontrolled : ¬IsControlled F v s frame env := by
            rintro ⟨-,hcontrol,-⟩
            exact hctrl (Option.some.inj (hcommand.symm.trans hcontrol))
          have hon : ¬(IsControlled F v s frame env ∧ be32 frame 1=canCmdLaserCtrlEnable) :=
            fun h => hcontrolled h.1
          rw [measured,controlWord,if_neg hcontrolled,if_neg hnot,if_neg hon,hnext,
            status_handleCommand _ hctrl]
          congr 2
          exact if_congr ⟨fun h => ⟨hone,hcommand.trans (congrArg some h)⟩,fun h =>
            Option.some.inj (hcommand.symm.trans h.2)⟩ rfl rfl
    · have hcontrolled : ¬IsControlled F v s frame env := fun h => hone h.1
      have hon : ¬(IsControlled F v s frame env ∧ be32 frame 1=canCmdLaserCtrlEnable) :=
        fun h => hcontrolled h.1
      have hword : ¬(frame.id=cobId1Rx ∧
          Command.ofWord (be32 frame 0)=some .writeConWord) := fun h => hone h.1
      rw [measured,controlWord,if_neg hcontrolled,if_neg hon,if_neg hword,nodeNext,nodeStep]
      dsimp only
      rw [laserCanrxMsgHandler,if_neg hone]
      by_cases htwo : frame.id=cobId2Rx
      · have hnot : ¬IsReboot frame := fun h => absurd (htwo.symm.trans h.1) (by decide)
        rw [if_pos htwo,if_neg hnot,handleRegister]
        dsimp only
        split
        · rfl
        · split
          · split <;> rfl
          · rfl
      · rw [if_neg htwo]
        by_cases hreboot : IsReboot frame
        · rw [if_pos hreboot,if_pos (Or.inl hreboot.1),handleFirmware]
          dsimp only
          rw [if_pos ((reboots_fwUpdate s.msg frame).mpr hreboot)]
          rfl
        · rw [if_neg hreboot]
          split
          · rw [handleFirmware]
            dsimp only
            rw [if_neg (mt (reboots_fwUpdate s.msg frame).mp hreboot)]
            rfl
          · rfl

end Measuring

end ZephyrApp.LaserCan

import ZephyrApp.CanFwUpgrade
import ZephyrApp.FlashReadback

/-!
# The firmware upgrade of the laser controller

The handling of the command and data frames that the message handler of the
controller passes on. The statics are the announced size, the offset and the
image context, all zero after a boot and again at every start command; no flag
says whether a session is open. Every frame reports its replies and its calls
of the flash layer, with their outcomes, in order.
-/

namespace ZephyrApp.LaserFirmware

open MachineBytes CanFrames FlashSlots FlashReadback
open CanFwUpgrade (RxCanFrame FlashCall)

/-- `PLATFORM_RX`, the id of commands. -/
def platformRx : Word := 0x101

/-- `FW_DATA_RX`, the id of firmware data. -/
def fwDataRx : Word := 0x103

/-- `BOARD_START_UPDATE`. -/
def boardStartUpdate : Word := 0

/-- `BOARD_CONFIRM`. -/
def boardConfirm : Word := 1

/-- `BOARD_VERSION`. -/
def boardVersion : Word := 2

/-- `BOARD_REBOOT`. -/
def boardReboot : Word := 3

/-- `FPGA_VERSION`. -/
def fpgaVersion : Word := 4

/-- The codes of a reply, in the order of their numbers. -/
inductive LaserCode where
  /-- `FW_CODE_OFFSET`. -/
  | offset
  /-- `FW_CODE_UPDATE_SUCCESS`. -/
  | updateSuccess
  /-- `FW_CODE_VERSION`. -/
  | version
  /-- `FW_CODE_CONFIRM`. -/
  | confirm
  /-- `FW_CODE_FLASH_ERROR`. -/
  | flashError
  /-- `FW_CODE_TRANFER_ERROR`. -/
  | tranferError
  /-- `FW_CODE_FPGA_VERSION`. -/
  | fpgaVersion
  deriving DecidableEq

/-- The number that a code has on the bus. -/
def LaserCode.number : LaserCode → Word
  | .offset => 0
  | .updateSuccess => 1
  | .version => 2
  | .confirm => 3
  | .flashError => 4
  | .tranferError => 5
  | .fpgaVersion => 6

/-- What a frame makes the controller do besides changing the statics. -/
inductive LaserAction where
  /-- Send a reply with code and offset. -/
  | reply (code : LaserCode) (offset : Word)
  /-- Set or clear `LASER_FW_UPDATE` in the status that other threads read. -/
  | updating (on : Bool)
  /-- Call the flash layer, with the outcome. -/
  | flash (call : FlashCall) (ok : Bool)
  /-- Call `boot_request_upgrade`, with the outcome. -/
  | bootRequest (permanent : Word) (ok : Bool)
  /-- Restart the system. -/
  | reboot
  deriving DecidableEq

/-- `struct image_fw_msg`. The image context is part of the device. -/
structure ImageFwMsg (δ : Type) where
  /-- The flash device with the image context. -/
  device : δ
  /-- `total_size`, the announced size. -/
  totalSize : Word
  /-- `offset`, the bytes written. -/
  offset : Word

/-- The statics after a boot. -/
def ImageFwMsg.boot {δ : Type} (device : δ) : ImageFwMsg δ := ⟨device,0,0⟩

/-- What a frame leaves and does. -/
structure LaserReport (δ : Type) where
  /-- The statics and the device afterwards. -/
  state : ImageFwMsg δ
  /-- Replies and calls, in order. -/
  actions : List LaserAction
  /-- The return value. -/
  ret : ℤ

/-- The versions that the build and the board fix. -/
structure LaserVersions where
  /-- `APPVERSION`. -/
  app : Word
  /-- The version that the fpga reports. -/
  fpga : Word

section Handlers

variable {δ : Type} (F : ReadableImage δ) (v : LaserVersions)

/-- The command start: forget the statics, start an image and erase the area. -/
def handleStart (msg : ImageFwMsg δ) (frame : RxCanFrame) : LaserReport δ :=
  if canDlcToBytes frame.dlc≠8 then
    ⟨msg,[.updating true,.reply .flashError 0,.updating false],-1⟩
  else
    let begun := F.imgInit (F.clear msg.device)
    if begun.1=false then
      ⟨⟨begun.2,0,0⟩,
        [.updating true,.flash .imgInit false,.reply .flashError 0,.updating false],-1⟩
    else
      let erased := F.areaErase begun.2
      if erased.1=false then
        ⟨⟨erased.2,0,0⟩,
          [.updating true,.flash .imgInit true,.flash .areaErase false,.reply .flashError 0,
            .updating false],-1⟩
      else
        ⟨⟨erased.2,frame.data32 1,0⟩,
          [.updating true,.flash .imgInit true,.flash .areaErase true,.reply .offset 0],0⟩

/-- The command confirm: flush, and compare the announced size with the bytes
that have reached the flash. Neither the outcome of the flush nor that of the
boot request is looked at. -/
def handleConfirm (msg : ImageFwMsg δ) (frame : RxCanFrame) : LaserReport δ :=
  let flushed := F.imgFlush msg.device
  if msg.totalSize≠BitVec.ofNat 32 (F.bytesWritten flushed.2) then
    ⟨{msg with device := flushed.2},
      [.flash .imgFlush flushed.1,.reply .tranferError msg.offset],-1⟩
  else
    let requested := F.bootRequest flushed.2 (frame.data32 1)
    ⟨{msg with device := requested.2},
      [.flash .imgFlush flushed.1,.bootRequest (frame.data32 1) requested.1,
        .reply .confirm 0x55AA55AA],0⟩

/-- A firmware data frame. A failed write is answered, and changes nothing else. -/
def handleData (msg : ImageFwMsg δ) (frame : RxCanFrame) : LaserReport δ :=
  let size := canDlcToBytes frame.dlc
  let wrote := F.imgWrite msg.device frame.payload
  let call := LaserAction.flash (.imgWrite frame.payload) wrote.1
  let msg := {msg with device := wrote.2}
  if wrote.1=false then ⟨msg,[call,.reply .flashError 0,.updating false],-1⟩
  else
    let msg := {msg with offset := msg.offset+BitVec.ofNat 32 size}
    if msg.offset=msg.totalSize then
      ⟨msg,[call,.reply .updateSuccess msg.totalSize,.updating false],0⟩
    else if msg.offset.toNat%64=0 then ⟨msg,[call,.reply .offset msg.offset],0⟩
    else ⟨msg,[call],0⟩

/-- `fw_update`. -/
def fwUpdate (msg : ImageFwMsg δ) (frame : RxCanFrame) : LaserReport δ :=
  if frame.id=platformRx then
    if frame.data32 0=boardStartUpdate then handleStart F msg frame
    else if frame.data32 0=boardConfirm then handleConfirm F msg frame
    else if frame.data32 0=boardVersion then ⟨msg,[.reply .version v.app],0⟩
    else if frame.data32 0=fpgaVersion then ⟨msg,[.reply .fpgaVersion v.fpga],0⟩
    else if frame.data32 0=boardReboot then ⟨.boot (F.reboot msg.device),[.reboot],0⟩
    else ⟨msg,[],0⟩
  else if frame.id=fwDataRx then handleData F msg frame
  else ⟨msg,[],0⟩

end Handlers

/-- A start command. -/
def IsStart (frame : RxCanFrame) : Prop :=
  frame.id=platformRx ∧ frame.data32 0=boardStartUpdate

/-- A confirm command. -/
def IsConfirm (frame : RxCanFrame) : Prop := frame.id=platformRx ∧ frame.data32 0=boardConfirm

/-- A frame of firmware data. -/
def IsData (frame : RxCanFrame) : Prop := frame.id=fwDataRx

instance (frame : RxCanFrame) : Decidable (IsStart frame) := inferInstanceAs (Decidable (_ ∧ _))

instance (frame : RxCanFrame) : Decidable (IsConfirm frame) := inferInstanceAs (Decidable (_ ∧ _))

instance (frame : RxCanFrame) : Decidable (IsData frame) := inferInstanceAs (Decidable (_=_))

/-- Asking for the upgrade: the boot request and the reply that goes with it. -/
def LaserAction.IsUpgrade : LaserAction → Prop
  | .reply code _ => code=.confirm
  | .bootRequest _ _ => True
  | _ => False

/-- A reply that refuses. -/
def LaserAction.IsRefusal : LaserAction → Prop
  | .reply code _ => code=.flashError ∨ code=.tranferError
  | _ => False

section Dispatch

variable {δ : Type} (F : ReadableImage δ) (v : LaserVersions) (msg : ImageFwMsg δ)
variable {frame : RxCanFrame}

/-- A start command is handled as such. -/
theorem fwUpdate_start (h : IsStart frame) : fwUpdate F v msg frame=handleStart F msg frame := by
  rw [fwUpdate,if_pos h.1,if_pos h.2]

/-- A confirm command is handled as such. -/
theorem fwUpdate_confirm (h : IsConfirm frame) :
    fwUpdate F v msg frame=handleConfirm F msg frame := by
  have hc : frame.data32 0=boardConfirm := h.2
  rw [fwUpdate,if_pos h.1,if_neg (by rw [hc]; decide),if_pos hc]

/-- A data frame is handled as such. -/
theorem fwUpdate_data (h : IsData frame) : fwUpdate F v msg frame=handleData F msg frame := by
  have hid : frame.id=fwDataRx := h
  rw [fwUpdate,if_neg (by rw [hid]; decide),if_pos hid]

/-- Every other frame leaves the statics or restarts them, and does nothing but
answer with a version. -/
theorem fwUpdate_other (hs : ¬IsStart frame) (hc : ¬IsConfirm frame) (hd : ¬IsData frame) :
    (∀ a∈(fwUpdate F v msg frame).actions,¬a.IsUpgrade) ∧
      ((fwUpdate F v msg frame).state=msg ∧ .reboot∉(fwUpdate F v msg frame).actions ∨
        (fwUpdate F v msg frame).state=.boot (F.reboot msg.device) ∧
          .reboot∈(fwUpdate F v msg frame).actions) := by
  unfold fwUpdate
  by_cases hid : frame.id=platformRx
  · rw [if_pos hid,if_neg fun h => hs ⟨hid,h⟩,if_neg fun h => hc ⟨hid,h⟩]
    split
    · simp [LaserAction.IsUpgrade]
    · split
      · simp [LaserAction.IsUpgrade]
      · split
        · simp [LaserAction.IsUpgrade]
        · simp
  · have hdata : ¬frame.id=fwDataRx := hd
    rw [if_neg hid,if_neg hdata]
    simp

/-- What a start command can come to. -/
inductive StartCase (frame : RxCanFrame) : LaserReport δ → Prop
  /-- The length is wrong, and all is as before. -/
  | ignored (why : canDlcToBytes frame.dlc≠8) :
      StartCase frame ⟨msg,[.updating true,.reply .flashError 0,.updating false],-1⟩
  /-- Starting the image or erasing the area fails. -/
  | failed (device : δ) (calls : List LaserAction)
      (flash : ∀ a∈calls,∃ call ok,a=.flash call ok) :
      StartCase frame ⟨⟨device,0,0⟩,
        .updating true::(calls++[.reply .flashError 0,.updating false]),-1⟩
  /-- An image is started over the erased area. -/
  | opened (full : canDlcToBytes frame.dlc=8) (init : (F.imgInit (F.clear msg.device)).1=true)
      (erase : (F.areaErase (F.imgInit (F.clear msg.device)).2).1=true) :
      StartCase frame ⟨⟨(F.areaErase (F.imgInit (F.clear msg.device)).2).2,frame.data32 1,0⟩,
        [.updating true,.flash .imgInit true,.flash .areaErase true,.reply .offset 0],0⟩

/-- Every start command comes to one of these. -/
theorem handleStart_cases (frame : RxCanFrame) :
    StartCase F msg frame (handleStart F msg frame) := by
  unfold handleStart
  by_cases hsize : canDlcToBytes frame.dlc=8
  · rw [if_neg (not_not.mpr hsize)]
    dsimp only
    split
    · refine .failed _ [_] fun a ha => ?_
      exact ⟨_,_,List.mem_singleton.mp ha⟩
    · rename_i hinit
      split
      · refine .failed _ [_,_] fun a ha => ?_
        simp only [List.mem_cons,List.not_mem_nil,or_false] at ha
        rcases ha with rfl | rfl
        · exact ⟨_,_,rfl⟩
        · exact ⟨_,_,rfl⟩
      · rename_i herase
        exact .opened hsize (Bool.eq_true_of_not_eq_false hinit)
          (Bool.eq_true_of_not_eq_false herase)
  · rw [if_pos hsize]
    exact .ignored hsize

/-- A start command asks for no upgrade. -/
theorem handleStart_quiet (frame : RxCanFrame) :
    ∀ a∈(handleStart F msg frame).actions,¬a.IsUpgrade := by
  have hcase := handleStart_cases F msg frame
  generalize handleStart F msg frame=report at hcase
  cases hcase with
  | ignored why => simp [LaserAction.IsUpgrade]
  | failed device calls flash =>
    intro a ha hupgrade
    simp only [List.mem_cons,List.mem_append,List.not_mem_nil,or_false] at ha
    rcases ha with rfl | hcall | rfl | rfl
    · exact hupgrade
    · obtain ⟨call,ok,rfl⟩ := flash a hcall
      exact hupgrade
    · cases hupgrade
    · exact hupgrade
  | opened full init erase => simp [LaserAction.IsUpgrade]

/-- A data frame whose write fails is refused. -/
theorem handleData_failed (h : (F.imgWrite msg.device frame.payload).1=false) :
    handleData F msg frame=⟨{msg with device := (F.imgWrite msg.device frame.payload).2},
      [.flash (.imgWrite frame.payload) false,.reply .flashError 0,.updating false],-1⟩ := by
  rw [handleData]
  dsimp only
  rw [if_pos h,h]

/-- Whatever a data frame comes to, it writes its payload, keeps the announced
size and asks for no upgrade. -/
theorem handleData_kept (frame : RxCanFrame) :
    (handleData F msg frame).state.device=(F.imgWrite msg.device frame.payload).2 ∧
      (handleData F msg frame).state.totalSize=msg.totalSize ∧
      .flash (.imgWrite frame.payload) (F.imgWrite msg.device frame.payload).1∈
        (handleData F msg frame).actions ∧
      ∀ a∈(handleData F msg frame).actions,¬a.IsUpgrade := by
  unfold handleData
  dsimp only
  split
  · simp [LaserAction.IsUpgrade]
  · split
    · simp [LaserAction.IsUpgrade]
    · split
      · simp [LaserAction.IsUpgrade]
      · simp [LaserAction.IsUpgrade]

end Dispatch

end ZephyrApp.LaserFirmware

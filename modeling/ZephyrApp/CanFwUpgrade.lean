import ZephyrApp.CanFrames
import ZephyrApp.FlashSlots

/-!
# The CAN firmware upgrade library

The receive thread's handling of the upgrade frames: the commands start,
confirm, version and reboot, the firmware data and the key hash chunks. The
state is spread over the statics of the library and the flash image context.
Every handler reports the frames it sends and the calls it makes into the
flash layer, with their outcomes, in order.
-/

namespace ZephyrApp.CanFwUpgrade

open MachineBytes CanFrames FlashSlots

/-- `CAN_FW_PLATFORM_RX`, the id of commands. -/
def canFwPlatformRx : Word := 0x101

/-- `CAN_FW_FW_DATA_RX`, the id of firmware data. -/
def canFwFwDataRx : Word := 0x103

/-- `CAN_FW_KEYHASH_RX`, the id of key hash chunks. -/
def canFwKeyhashRx : Word := 0x104

/-- `FW_KEYHASH_KEY_LEN`, the length of a key hash. -/
def fwKeyhashKeyLen : ℕ := 32

/-- `CAN_FW_KEYHASH_CHUNK_BYTES`, the key hash bytes of one frame. -/
def canFwKeyhashChunkBytes : ℕ := 7

/-- `CAN_FW_KEYHASH_CHUNKS`, the frames of one key hash. -/
def canFwKeyhashChunks : ℕ :=
  (fwKeyhashKeyLen+canFwKeyhashChunkBytes-1)/canFwKeyhashChunkBytes

/-- `CAN_FW_KEYHASH_FULL_MASK`, one bit for every chunk. -/
def canFwKeyhashFullMask : Byte := BitVec.ofNat 8 (2^canFwKeyhashChunks-1)

/-- `FW_CMD_START_UPDATE`. -/
def fwCmdStartUpdate : Word := 0

/-- `FW_CMD_CONFIRM`. -/
def fwCmdConfirm : Word := 1

/-- `FW_CMD_VERSION`. -/
def fwCmdVersion : Word := 2

/-- `FW_CMD_REBOOT`. -/
def fwCmdReboot : Word := 3

/-- The codes of a reply, in the order of their numbers. -/
inductive FwCode where
  /-- `FW_CODE_OFFSET`. -/
  | offset
  /-- `FW_CODE_UPDATE_SUCCESS`. -/
  | updateSuccess
  /-- `FW_CODE_VERSION`. -/
  | version
  /-- `FW_CODE_CONFIRM`. -/
  | confirm
  /-- `FW_CODE_FLASH_ERROR`. -/
  | flashError
  /-- `FW_CODE_TRANFER_ERROR`. -/
  | tranferError
  /-- `FW_CODE_KEYHASH_ERROR`. -/
  | keyhashError
  deriving DecidableEq

/-- The number that a code has on the bus. -/
def FwCode.number : FwCode → Word
  | .offset => 0
  | .updateSuccess => 1
  | .version => 2
  | .confirm => 3
  | .flashError => 4
  | .tranferError => 5
  | .keyhashError => 6

/-- A call into the flash layer. -/
inductive FlashCall where
  /-- `flash_area_open`. -/
  | areaOpen
  /-- `flash_area_erase` of the whole slot. -/
  | areaErase
  /-- `flash_img_init`. -/
  | imgInit
  /-- `flash_img_buffered_write` of some bytes. -/
  | imgWrite (bytes : List Byte)
  /-- `flash_img_buffered_write` with the flush flag. -/
  | imgFlush
  deriving DecidableEq

/-- What a handler does besides changing the statics. -/
inductive FwAction where
  /-- Send a reply with code and offset. -/
  | reply (code : FwCode) (offset : Word)
  /-- Send a chunk of the version text. -/
  | versionText (seq : Byte) (text : List Byte)
  /-- Call the flash layer, with the outcome. -/
  | flash (call : FlashCall) (ok : Bool)
  /-- Call `boot_request_upgrade`, with the bytes of the slot at that moment and
  the outcome. -/
  | bootRequest (permanent : Word) (slot : List Byte) (ok : Bool)
  /-- Restart the system. -/
  | reboot
  deriving DecidableEq

/-- A frame as a classic controller receives it: at most eight bytes long. -/
structure RxCanFrame extends CanFrame where
  /-- The length code of a classic frame is its number of bytes. -/
  dlc_le : dlc≤8

/-- The two words that the data bytes hold on a little-endian core. -/
def RxCanFrame.data32 (frame : RxCanFrame) (i : ℕ) : Word := sysGetLe32 frame.data (4*i)

/-- The bytes the frame carries. -/
def RxCanFrame.payload (frame : RxCanFrame) : List Byte :=
  frame.data.take (canDlcToBytes frame.dlc)

/-- A command frame with its two words, the first byte the lowest. -/
def commandFrame (cmd val : Word) : RxCanFrame :=
  ⟨⟨canFwPlatformRx,8,(sysPutBe32 cmd).reverse++(sysPutBe32 val).reverse,by simp⟩,le_refl 8⟩

/-- A data frame of eight equal bytes. -/
def dataFrame (b : Byte) : RxCanFrame := ⟨⟨canFwFwDataRx,8,List.replicate 8 b,rfl⟩,le_refl 8⟩

/-- What the build fixes. -/
structure FwConfig where
  /-- The key hash, none without a signature key. -/
  keyhash : Option (List Byte)
  /-- The version text. -/
  version : List Byte
  /-- A key hash fills the buffer it is compared with. -/
  keyhash_size : ∀ key∈keyhash,key.length=fwKeyhashKeyLen
  /-- The version text fits in the buffer it is printed to. -/
  version_lt : version.length<24

/-- A build without a signature key and with an empty version text. -/
def FwConfig.plain : FwConfig :=
  ⟨none,[],fun key h => absurd h (Option.not_mem_none key),by decide⟩

/-- The statics of the library with the device they act on. -/
structure FwState (δ : Type) where
  /-- The flash device with the image context. -/
  device : δ
  /-- `fw_img_initialized`, whether a session is open. -/
  imgInitialized : Bool
  /-- `fw_written`, the bytes written in it. -/
  written : Word
  /-- `fw_total_size`, the announced size. -/
  totalSize : Word
  /-- `rx_keybuf`, the key hash received. -/
  rxKeybuf : List Byte
  /-- `key_chunk_mask`, the chunks received. -/
  keyChunkMask : Byte

/-- The statics after a boot. -/
def FwState.boot {δ : Type} (device : δ) : FwState δ :=
  ⟨device,false,0,0,List.replicate fwKeyhashKeyLen 0,0⟩

/-- What a handler leaves and does. -/
structure FwReport (δ : Type) where
  /-- The statics and the device afterwards. -/
  state : FwState δ
  /-- Replies and calls, in order. -/
  actions : List FwAction

section Handlers

variable {δ : Type} (F : FlashImage δ) (cfg : FwConfig)

/-- The key check of a start command: it is made only when all chunks have
been received since the last check. -/
def keyhashGate (s : FwState δ) : Bool×FwState δ :=
  match cfg.keyhash with
  | none => (true,s)
  | some key =>
    if s.keyChunkMask &&& canFwKeyhashFullMask=canFwKeyhashFullMask then
      (decide (s.rxKeybuf=key),{s with keyChunkMask := 0})
    else (true,s)

/-- Prepare the slot unless a session is open: open the area, erase it and
start an image. The outcome of the erase is not looked at. -/
def openSession (s : FwState δ) : Bool×FwReport δ :=
  if s.imgInitialized then (true,⟨s,[]⟩)
  else
    let opened := F.areaOpen s.device
    if opened.1=false then
      (false,⟨{s with device := opened.2},[.flash .areaOpen false]⟩)
    else
      let erased := F.areaErase opened.2
      let started := F.imgInit erased.2
      let calls := [.flash .areaOpen true,.flash .areaErase erased.1,.flash .imgInit started.1]
      if started.1=false then (false,⟨{s with device := started.2},calls⟩)
      else
        (true,⟨{s with device := started.2,imgInitialized := true,written := 0},calls⟩)

/-- The command start. -/
def handleStart (s : FwState δ) (frame : RxCanFrame) : FwReport δ :=
  if canDlcToBytes frame.dlc≠8 then ⟨s,[.reply .flashError 0]⟩
  else
    let gate := keyhashGate cfg s
    if gate.1=false then ⟨gate.2,[.reply .keyhashError 0]⟩
    else
      let session := openSession F gate.2
      if session.1=false then ⟨session.2.state,session.2.actions++[.reply .flashError 0]⟩
      else
        ⟨{session.2.state with totalSize := frame.data32 1},
          session.2.actions++[.reply .offset 0]⟩

/-- The command confirm: flush, close the session and compare the lengths. The
outcome of the flush is not looked at. -/
def handleConfirm (s : FwState δ) (frame : RxCanFrame) : FwReport δ :=
  if s.imgInitialized=false then ⟨s,[.reply .tranferError 0]⟩
  else
    let permanent := frame.data32 1
    let flushed := F.imgFlush s.device
    let s := {s with device := flushed.2,imgInitialized := false}
    if s.written≠s.totalSize then ⟨s,[.flash .imgFlush flushed.1,.reply .tranferError 0]⟩
    else
      let requested := F.bootRequest s.device permanent
      ⟨{s with device := requested.2},
        [.flash .imgFlush flushed.1,.bootRequest permanent (F.slot s.device) requested.1,
          if requested.1 then .reply .confirm 0x55AA55AA else .reply .tranferError 0]⟩

/-- The frames of the version text, seven bytes each and the last one padded. -/
def versionFrames (text : List Byte) : List FwAction :=
  (List.range ((text.length+6)/7)).map fun seq =>
    let chunk := (text.drop (7*seq)).take 7
    .versionText (BitVec.ofNat 8 seq) (chunk++List.replicate (7-chunk.length) 0)

/-- A command frame. -/
def handlePlatformRx (s : FwState δ) (frame : RxCanFrame) : FwReport δ :=
  let cmd := frame.data32 0
  if cmd=fwCmdStartUpdate then handleStart F cfg s frame
  else if cmd=fwCmdConfirm then handleConfirm F s frame
  else if cmd=fwCmdVersion then
    ⟨s,.reply .version (BitVec.ofNat 32 cfg.version.length)::versionFrames cfg.version⟩
  else if cmd=fwCmdReboot then ⟨.boot (F.reboot s.device),[.reboot]⟩
  else ⟨s,[]⟩

/-- A firmware data frame. -/
def handleFwData (s : FwState δ) (frame : RxCanFrame) : FwReport δ :=
  if s.imgInitialized=false then ⟨s,[.reply .tranferError 0]⟩
  else
    let size := canDlcToBytes frame.dlc
    let wrote := F.imgWrite s.device frame.payload
    let call := FwAction.flash (.imgWrite frame.payload) wrote.1
    let s := {s with device := wrote.2}
    if wrote.1=false then ⟨s,[call,.reply .flashError 0]⟩
    else
      let s := {s with written := s.written+BitVec.ofNat 32 size}
      if s.written=s.totalSize then ⟨s,[call,.reply .updateSuccess s.totalSize]⟩
      else if s.written.toNat%64=0 then ⟨s,[call,.reply .offset s.written]⟩
      else ⟨s,[call]⟩

/-- A key hash frame: a sequence number and a chunk, which is stored when the
number and the length fit. The remaining length is computed in eight bits. -/
def handleKeyhashFrame (s : FwState δ) (frame : RxCanFrame) : FwReport δ :=
  let seq := (frame.data.getD 0 0).toNat
  let rem := (BitVec.ofInt 8 (fwKeyhashKeyLen-seq*canFwKeyhashChunkBytes)).toNat
  let chunk := min rem canFwKeyhashChunkBytes
  if canFwKeyhashChunks ≤ seq ∨ canDlcToBytes frame.dlc<1+chunk then ⟨s,[]⟩
  else
    let at_ := seq*canFwKeyhashChunkBytes
    let bytes := (frame.data.drop 1).take chunk
    ⟨{s with
        rxKeybuf := s.rxKeybuf.take at_++bytes++s.rxKeybuf.drop (at_+chunk)
        keyChunkMask := s.keyChunkMask ||| BitVec.ofNat 8 (2^seq)},[]⟩

/-- One pass of the receive thread. Other frames go to the application. -/
def canFwRxThread (s : FwState δ) (frame : RxCanFrame) : FwReport δ :=
  if frame.id=canFwPlatformRx then handlePlatformRx F cfg s frame
  else if frame.id=canFwFwDataRx then handleFwData F s frame
  else if frame.id=canFwKeyhashRx ∧ cfg.keyhash.isSome then handleKeyhashFrame s frame
  else ⟨s,[]⟩

end Handlers

/-- A frame is a start command. -/
def RxCanFrame.IsStart (frame : RxCanFrame) : Prop :=
  frame.id=canFwPlatformRx ∧ frame.data32 0=fwCmdStartUpdate

/-- A frame is a confirm command. -/
def RxCanFrame.IsConfirm (frame : RxCanFrame) : Prop :=
  frame.id=canFwPlatformRx ∧ frame.data32 0=fwCmdConfirm

/-- A frame carries firmware data. -/
def RxCanFrame.IsData (frame : RxCanFrame) : Prop := frame.id=canFwFwDataRx

instance (frame : RxCanFrame) : Decidable frame.IsStart :=
  inferInstanceAs (Decidable (frame.id=canFwPlatformRx ∧ frame.data32 0=fwCmdStartUpdate))

instance (frame : RxCanFrame) : Decidable frame.IsConfirm :=
  inferInstanceAs (Decidable (frame.id=canFwPlatformRx ∧ frame.data32 0=fwCmdConfirm))

instance (frame : RxCanFrame) : Decidable frame.IsData :=
  inferInstanceAs (Decidable (frame.id=canFwFwDataRx))

/-- A command frame carries its two words. -/
theorem commandFrame_data32 (cmd val : Word) :
    (commandFrame cmd val).data32 0=cmd ∧ (commandFrame cmd val).data32 1=val := by
  have hsecond := sysGetLe32_sysPutLe32 val (sysPutLe32_length cmd) []
  rw [List.append_nil] at hsecond
  exact ⟨sysGetLe32_sysPutLe32 cmd List.length_nil (sysPutLe32 val),hsecond⟩

section Dispatch

variable {δ : Type} (F : FlashImage δ) (cfg : FwConfig) (s : FwState δ)

/-- The frame carries as many bytes as its length code says. -/
@[simp] theorem payload_length (frame : RxCanFrame) :
    frame.payload.length=canDlcToBytes frame.dlc := by
  have h := frame.dlc_le
  rw [RxCanFrame.payload,List.length_take,frame.size,canDlcToBytes_of_le h]
  omega

/-- A start command is handled as such. -/
theorem canFwRxThread_start {frame : RxCanFrame} (h : frame.IsStart) :
    canFwRxThread F cfg s frame=handleStart F cfg s frame := by
  rw [canFwRxThread,if_pos h.1,handlePlatformRx,if_pos h.2]

/-- A confirm command is handled as such. -/
theorem canFwRxThread_confirm {frame : RxCanFrame} (h : frame.IsConfirm) :
    canFwRxThread F cfg s frame=handleConfirm F s frame := by
  have hc : frame.data32 0=fwCmdConfirm := h.2
  have hne : ¬frame.data32 0=fwCmdStartUpdate := by
    rw [hc]
    decide
  rw [canFwRxThread,if_pos h.1,handlePlatformRx,if_neg hne,if_pos hc]

/-- A data frame is handled as such. -/
theorem canFwRxThread_data {frame : RxCanFrame} (h : frame.IsData) :
    canFwRxThread F cfg s frame=handleFwData F s frame := by
  have hid : frame.id=canFwFwDataRx := h
  have hne : ¬frame.id=canFwPlatformRx := by
    rw [hid]
    decide
  rw [canFwRxThread,if_neg hne,if_pos hid]

/-- The device and the session statics are the same. -/
structure SameSession (s t : FwState δ) : Prop where
  /-- The device. -/
  device : t.device=s.device
  /-- Whether a session is open. -/
  imgInitialized : t.imgInitialized=s.imgInitialized
  /-- The bytes written. -/
  written : t.written=s.written

/-- A reply that neither accepts a start nor confirms. -/
def FwAction.IsPlainReply : FwAction → Prop
  | .reply code _ => code≠.confirm
  | .versionText _ _ => True
  | .reboot => True
  | _ => False

/-- An action that neither confirms an image nor requests a boot. -/
def FwAction.IsQuiet : FwAction → Prop
  | .reply code _ => code≠.confirm
  | .bootRequest _ _ _ => False
  | _ => True

/-- Plain replies are quiet. -/
theorem FwAction.IsPlainReply.isQuiet {a : FwAction} (h : a.IsPlainReply) : a.IsQuiet := by
  cases a with
  | reply code offset => exact h
  | versionText seq text => trivial
  | flash call ok => trivial
  | bootRequest permanent slot ok => exact h
  | reboot => trivial

/-- A start command is no data frame. -/
theorem RxCanFrame.IsStart.not_isData {frame : RxCanFrame} (h : frame.IsStart) :
    ¬frame.IsData := by
  intro hd
  have hid : frame.id=canFwFwDataRx := hd
  rw [h.1] at hid
  exact absurd hid (by decide)

/-- The key check changes no session static. -/
theorem keyhashGate_same :
    SameSession s (keyhashGate cfg s).2 ∧ (keyhashGate cfg s).2.totalSize=s.totalSize := by
  unfold keyhashGate
  split
  · exact ⟨⟨rfl,rfl,rfl⟩,rfl⟩
  · split <;> exact ⟨⟨rfl,rfl,rfl⟩,rfl⟩

/-- What a start command can come to. -/
inductive StartCase (frame : RxCanFrame) : FwReport δ → Prop
  /-- The length or the key hash is refused. -/
  | refused (state : FwState δ) (code : FwCode) (same : SameSession s state)
      (total : state.totalSize=s.totalSize) (error : code=.flashError ∨ code=.keyhashError) :
      StartCase frame ⟨state,[.reply code 0]⟩
  /-- Opening the area or starting the image fails. -/
  | failed (state : FwState δ) (calls : List FwAction) (closed : state.imgInitialized=false)
      (flash : ∀ a∈calls,∃ call ok,a=.flash call ok) :
      StartCase frame ⟨state,calls++[.reply .flashError 0]⟩
  /-- A session is open already and only its announced size changes. -/
  | continued (state : FwState δ) (size : canDlcToBytes frame.dlc=8)
      (gate : (keyhashGate cfg s).1=true) (isOpen : s.imgInitialized=true)
      (same : SameSession s state) (total : state.totalSize=frame.data32 1) :
      StartCase frame ⟨state,[.reply .offset 0]⟩
  /-- A session is opened; the erase may have failed. -/
  | opened (state : FwState δ) (device : δ)
      (init : (F.imgInit (F.areaErase device).2).1=true)
      (isOpen : state.imgInitialized=true)
      (started : state.device=(F.imgInit (F.areaErase device).2).2) (fresh : state.written=0)
      (total : state.totalSize=frame.data32 1) :
      StartCase frame ⟨state,[.flash .areaOpen true,.flash .areaErase (F.areaErase device).1,
        .flash .imgInit true,.reply .offset 0]⟩

/-- Every start command comes to one of these. -/
theorem handleStart_cases (frame : RxCanFrame) :
    StartCase F cfg s frame (handleStart F cfg s frame) := by
  obtain ⟨hgate,htotal⟩ := keyhashGate_same cfg s
  unfold handleStart
  by_cases hsize : canDlcToBytes frame.dlc=8
  · rw [if_neg (not_not.mpr hsize)]
    dsimp only
    by_cases hkey : (keyhashGate cfg s).1=false
    · rw [if_pos hkey]
      exact .refused _ _ hgate htotal (Or.inr rfl)
    · rw [if_neg hkey,openSession]
      have hadmit : (keyhashGate cfg s).1=true := Bool.eq_true_of_not_eq_false hkey
      by_cases hopen : (keyhashGate cfg s).2.imgInitialized=true
      · rw [if_pos hopen]
        exact .continued _ hsize hadmit (hgate.imgInitialized.symm.trans hopen)
          ⟨hgate.device,hgate.imgInitialized,hgate.written⟩ rfl
      · rw [if_neg hopen]
        have hclosed : (keyhashGate cfg s).2.imgInitialized=false := Bool.eq_false_iff.mpr hopen
        dsimp only
        by_cases harea : (F.areaOpen (keyhashGate cfg s).2.device).1=false
        · rw [if_pos harea]
          refine .failed _ [_] hclosed fun a ha => ?_
          rw [List.mem_singleton] at ha
          exact ⟨_,_,ha⟩
        · rw [if_neg harea]
          set erased := F.areaErase (F.areaOpen (keyhashGate cfg s).2.device).2 with herased
          by_cases hinit : (F.imgInit erased.2).1=false
          · rw [if_pos hinit]
            refine .failed _ _ hclosed fun a ha => ?_
            simp only [List.mem_cons,List.not_mem_nil,or_false] at ha
            rcases ha with rfl | rfl | rfl <;> exact ⟨_,_,rfl⟩
          · rw [if_neg hinit]
            have hok : (F.imgInit erased.2).1=true := Bool.eq_true_of_not_eq_false hinit
            rw [hok]
            exact .opened _ (F.areaOpen (keyhashGate cfg s).2.device).2 hok rfl rfl rfl rfl
  · rw [if_pos hsize]
    exact .refused s _ ⟨rfl,rfl,rfl⟩ rfl (Or.inl rfl)

/-- A start command confirms nothing and requests no boot. -/
theorem handleStart_quiet (frame : RxCanFrame) :
    ∀ a∈(handleStart F cfg s frame).actions,a.IsQuiet := by
  have hcase := handleStart_cases F cfg s frame
  generalize handleStart F cfg s frame=report at hcase
  intro a ha
  cases hcase with
  | refused state code same total error =>
    rw [List.mem_singleton] at ha
    subst ha
    rcases error with rfl | rfl <;> simp [FwAction.IsQuiet]
  | failed state calls closed flash =>
    rcases List.mem_append.mp ha with ha | ha
    · obtain ⟨call,ok,rfl⟩ := flash a ha
      trivial
    · rw [List.mem_singleton] at ha
      subst ha
      simp [FwAction.IsQuiet]
  | continued state size gate isOpen same total =>
    rw [List.mem_singleton] at ha
    subst ha
    simp [FwAction.IsQuiet]
  | opened state device init isOpen started fresh total =>
    simp only [List.mem_cons,List.not_mem_nil,or_false] at ha
    rcases ha with rfl | rfl | rfl | rfl <;> simp [FwAction.IsQuiet]

/-- A confirm command closes the session, if there is one. -/
theorem handleConfirm_closed (frame : RxCanFrame) :
    (handleConfirm F s frame).state.imgInitialized=false := by
  unfold handleConfirm
  split
  · assumption
  · dsimp only
    split <;> rfl

/-- A confirm command that finds an open session with all announced bytes
written requests the boot, whatever the flush came to. -/
theorem handleConfirm_requests {frame : RxCanFrame} (hopen : s.imgInitialized=true)
    (htotal : s.written=s.totalSize) :
    ∃ last ok,(ok=true → last=.reply .confirm 0x55AA55AA) ∧ (ok=false → last.IsPlainReply) ∧
      (handleConfirm F s frame).actions=[.flash .imgFlush (F.imgFlush s.device).1,
        .bootRequest (frame.data32 1) (F.slot (F.imgFlush s.device).2) ok,last] := by
  unfold handleConfirm
  rw [if_neg (by rw [hopen]; decide)]
  dsimp only
  rw [if_neg (not_not.mpr htotal)]
  set requested := F.bootRequest (F.imgFlush s.device).2 (frame.data32 1) with hreq
  refine ⟨_,requested.1,fun hok => ?_,fun hok => ?_,rfl⟩
  · rw [if_pos hok]
  · rw [if_neg (by rw [hok]; decide)]
    exact fun h => by cases h

/-- Any other confirm command is answered with an error. -/
theorem handleConfirm_refuses {frame : RxCanFrame}
    (h : ¬(s.imgInitialized=true ∧ s.written=s.totalSize)) :
    ∀ a∈(handleConfirm F s frame).actions,a.IsQuiet := by
  unfold handleConfirm
  by_cases hclosed : s.imgInitialized=false
  · rw [if_pos hclosed]
    simp [FwAction.IsQuiet]
  · rw [if_neg hclosed]
    have htotal : s.written≠s.totalSize := fun ht => h ⟨Bool.eq_true_of_not_eq_false hclosed,ht⟩
    dsimp only
    rw [if_pos htotal]
    simp [FwAction.IsQuiet]

/-- In an open session, a data frame is written, counted when the write
succeeds, and answered with at most one plain reply. -/
theorem handleFwData_open {frame : RxCanFrame} (hopen : s.imgInitialized=true) :
    (handleFwData F s frame).state.device=(F.imgWrite s.device frame.payload).2 ∧
      (handleFwData F s frame).state.imgInitialized=true ∧
      (handleFwData F s frame).state.totalSize=s.totalSize ∧
      ((F.imgWrite s.device frame.payload).1=true →
        (handleFwData F s frame).state.written=
          s.written+BitVec.ofNat 32 frame.payload.length) ∧
      ∃ replies : List FwAction,(∀ a∈replies,a.IsPlainReply) ∧
        (handleFwData F s frame).actions=
          .flash (.imgWrite frame.payload) (F.imgWrite s.device frame.payload).1::replies := by
  have hreply : ∀ (code : FwCode) (offset : Word),code≠.confirm →
      ∀ a∈[FwAction.reply code offset],a.IsPlainReply := by
    intro code offset hcode a ha
    rw [List.mem_singleton] at ha
    subst ha
    exact hcode
  unfold handleFwData
  rw [if_neg (by rw [hopen]; decide),payload_length]
  dsimp only
  by_cases hok : (F.imgWrite s.device frame.payload).1=false
  · rw [if_pos hok]
    exact ⟨rfl,hopen,rfl,fun h => absurd (hok.symm.trans h) Bool.false_ne_true,_,
      hreply .flashError 0 (by decide),rfl⟩
  · rw [if_neg hok]
    split
    · exact ⟨rfl,hopen,rfl,fun _ => rfl,_,hreply .updateSuccess s.totalSize (by decide),rfl⟩
    · split
      · exact ⟨rfl,hopen,rfl,fun _ => rfl,_,hreply .offset _ (by decide),rfl⟩
      · exact ⟨rfl,hopen,rfl,fun _ => rfl,[],fun a ha => absurd ha List.not_mem_nil,rfl⟩

/-- Without a session a data frame is answered with an error. -/
theorem handleFwData_closed {frame : RxCanFrame} (h : s.imgInitialized=false) :
    handleFwData F s frame=⟨s,[.reply .tranferError 0]⟩ := by
  rw [handleFwData,if_pos h]

/-- A data frame confirms nothing and requests no boot. -/
theorem handleFwData_quiet (frame : RxCanFrame) :
    ∀ a∈(handleFwData F s frame).actions,a.IsQuiet := by
  by_cases hopen : s.imgInitialized=true
  · obtain ⟨-,-,-,-,replies,hplain,hact⟩ := handleFwData_open F s hopen
    rw [hact]
    intro a ha
    rcases List.mem_cons.mp ha with rfl | ha
    · trivial
    · exact (hplain a ha).isQuiet
  · rw [handleFwData_closed F s (Bool.eq_false_iff.mpr hopen)]
    simp [FwAction.IsQuiet]

/-- What a frame of no other kind does: it leaves the session alone or closes
it, and sends plain replies only. -/
structure Passive (report : FwReport δ) : Prop where
  /-- The session is untouched, or there is none. -/
  session : report.state.imgInitialized=false ∨
    (SameSession s report.state ∧ report.state.totalSize=s.totalSize)
  /-- No flash call is made and nothing is confirmed. -/
  quiet : ∀ a∈report.actions,a.IsPlainReply

/-- Every frame that is no start, confirm or data frame is passive. -/
theorem canFwRxThread_passive {frame : RxCanFrame} (hs : ¬frame.IsStart) (hc : ¬frame.IsConfirm)
    (hd : ¬frame.IsData) : Passive s (canFwRxThread F cfg s frame) := by
  have hkeep : Passive s (⟨s,[]⟩ : FwReport δ) :=
    ⟨Or.inr ⟨⟨rfl,rfl,rfl⟩,rfl⟩,fun a ha => absurd ha List.not_mem_nil⟩
  unfold canFwRxThread
  by_cases hid : frame.id=canFwPlatformRx
  · rw [if_pos hid,handlePlatformRx]
    rw [if_neg fun h => hs ⟨hid,h⟩,if_neg fun h => hc ⟨hid,h⟩]
    split
    · refine ⟨Or.inr ⟨⟨rfl,rfl,rfl⟩,rfl⟩,fun a ha => ?_⟩
      rcases List.mem_cons.mp ha with rfl | ha
      · exact fun h => by cases h
      · obtain ⟨seq,-,rfl⟩ := List.mem_map.mp ha
        trivial
    · split
      · refine ⟨Or.inl rfl,fun a ha => ?_⟩
        rw [List.mem_singleton] at ha
        subst ha
        trivial
      · exact hkeep
  · have hdata : ¬frame.id=canFwFwDataRx := hd
    rw [if_neg hid,if_neg hdata]
    split
    · unfold handleKeyhashFrame
      dsimp only
      split
      · exact hkeep
      · exact ⟨Or.inr ⟨⟨rfl,rfl,rfl⟩,rfl⟩,fun a ha => absurd ha List.not_mem_nil⟩
    · exact hkeep

end Dispatch

end ZephyrApp.CanFwUpgrade

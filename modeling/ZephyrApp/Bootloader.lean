import ZephyrApp.CanFwUpgrade
import ZephyrApp.FlashPages

/-!
# The firmware upgrade of the bootloader

The handling of the frames that the two transports pass on: the commands start,
confirm, version and reboot, and the firmware data, which is collected in a
buffer of 64 bytes and written to flash from a fixed address on. A byte stored
past the end of the buffer overwrites other statics, and then nothing is known
about the program any more. Every frame reports the responses and the flash
operations, with their outcomes, in order.
-/

namespace ZephyrApp.Bootloader

open MachineBytes CanFrames FlashPages
open CanFwUpgrade (RxCanFrame FwCode)

/-- `FLASH_APP_START_ADDR`. -/
def flashAppStartAddr : Word := 0x08010000

/-- `FLASH_APP_END_ADDR`. -/
def flashAppEndAddr : Word := 0x08040000

/-- The bytes of the application region. -/
def flashAppSize : ℕ := (flashAppEndAddr-flashAppStartAddr).toNat

/-- `FLASH_BUFFER_SIZE`. -/
def flashBufferSize : ℕ := 64

/-- `CAN_ID_PLATFORM_RX`, the id of commands. -/
def canIdPlatformRx : Word := 0x101

/-- `CAN_ID_FW_DATA_RX`, the id of firmware data. -/
def canIdFwDataRx : Word := 0x103

/-- `BOARD_START_UPDATE`. -/
def boardStartUpdate : Word := 0

/-- `BOARD_CONFIRM`. -/
def boardConfirm : Word := 1

/-- `BOARD_VERSION`. -/
def boardVersion : Word := 2

/-- `BOARD_REBOOT`. -/
def boardReboot : Word := 3

/-- What a frame makes the bootloader do besides changing its statics. The codes
of its responses are the first six of the upgrade library's. -/
inductive BootAction where
  /-- Send a response with code and value. -/
  | response (code : FwCode) (value : Word)
  /-- `flash_erase`, with the outcome. -/
  | erase (addr size : ℕ) (ok : Bool)
  /-- `flash_write`, with the outcome. -/
  | write (addr : ℕ) (bytes : List Byte) (ok : Bool)
  /-- `JumpToApp`. -/
  | jump
  /-- Restart the system. -/
  | reboot
  deriving DecidableEq

/-- The statics of the bootloader with the device they act on. -/
structure BootState (δ : Type) where
  /-- The flash device. -/
  device : δ
  /-- The bytes of `flash_buffer` before `flash_buffer_index`. -/
  buffer : List Byte
  /-- `current_flash_addr`. -/
  flashAddr : Word
  /-- `total_fw_size`, the announced size. -/
  total : Word
  /-- `received_fw_size`. -/
  received : Word

/-- The statics after a boot. -/
def BootState.boot {δ : Type} (device : δ) : BootState δ := ⟨device,[],flashAppStartAddr,0,0⟩

/-- What a frame leaves and does. -/
structure BootReport (δ : Type) where
  /-- The statics and the device afterwards. -/
  state : BootState δ
  /-- Responses and flash operations, in order. -/
  actions : List BootAction
  /-- The return value. -/
  ret : ℤ

section Handlers

variable {δ : Type} (F : PagedFlash δ) (appVersion : Word)

/-- The erase loop of a start command: erase the page of the address, then go
on behind it until the size is used up. Each pass uses up at least one byte, so
that a fuel of the size is never exhausted. -/
def eraseLoop : ℕ → δ → ℕ → ℕ → Bool×δ×List BootAction
  | 0,d,_,_ => (true,d,[])
  | fuel+1,d,addr,size =>
    if 0 < size then
      match F.pageInfo addr with
      | none => (false,d,[])
      | some page =>
        let erased := F.erase d page.start page.size
        let call := BootAction.erase page.start page.size erased.1
        if erased.1=false then (false,erased.2,[call])
        else
          let size := if page.size ≤ size then size-page.size else 0
          let rest := eraseLoop fuel erased.2 (addr+page.size) size
          (rest.1,rest.2.1,call::rest.2.2)
    else (true,d,[])

/-- The command start: the statics are reset before the region is erased, and a
larger size than the region is clipped for the erase only. -/
def handleStart (s : BootState δ) (frame : RxCanFrame) : BootReport δ :=
  if canDlcToBytes frame.dlc≠8 then ⟨s,[.response .flashError 0],-1⟩
  else
    let total := frame.data32 1
    let eraseSize := if flashAppSize < total.toNat then flashAppSize else total.toNat
    let erased := eraseLoop F eraseSize s.device flashAppStartAddr.toNat eraseSize
    let s := ⟨erased.2.1,[],flashAppStartAddr,total,0⟩
    if erased.1=false then ⟨s,erased.2.2++[.response .flashError 0],-1⟩
    else ⟨s,erased.2.2++[.response .offset 0],0⟩

/-- Write out what is buffered. The outcome is not looked at. -/
def flushBuffer (s : BootState δ) : BootState δ×List BootAction :=
  if 0 < s.buffer.length then
    let wrote := F.write s.device s.flashAddr.toNat s.buffer
    ({s with
        device := wrote.2
        flashAddr := s.flashAddr+BitVec.ofNat 32 s.buffer.length
        buffer := []},
      [.write s.flashAddr.toNat s.buffer wrote.1])
  else (s,[])

/-- The command confirm: flush, compare the sizes and jump to the application.
What runs next of the bootloader is its next boot. -/
def handleConfirm (s : BootState δ) : BootReport δ :=
  let flushed := flushBuffer F s
  if flushed.1.received≠flushed.1.total then
    ⟨flushed.1,flushed.2++[.response .tranferError flushed.1.received],-1⟩
  else
    ⟨.boot (F.restart flushed.1.device),flushed.2++[.response .confirm 0x55AA55AA,.jump],0⟩

/-- The response after a successful write: none at a multiple of 4096. -/
def progress (s : BootState δ) : List BootAction :=
  if s.total ≤ s.received then [.response .updateSuccess s.received]
  else if s.received.toNat%4096=0 then []
  else if s.received.toNat%64=0 then [.response .offset s.received]
  else []

/-- One pass of the loop over the bytes of a data frame: store the byte, and
write the buffer out when it is full or the image is complete. None when the
byte is stored past the end of the buffer. -/
def storeByte (s : BootState δ) (b : Byte) : Option (BootReport δ) :=
  if flashBufferSize ≤ s.buffer.length then none
  else
    let s := {s with buffer := s.buffer++[b],received := s.received+1}
    if flashBufferSize ≤ s.buffer.length ∨ s.total ≤ s.received then
      let wrote := F.write s.device s.flashAddr.toNat s.buffer
      let call := BootAction.write s.flashAddr.toNat s.buffer wrote.1
      if wrote.1=false then
        some ⟨{s with device := wrote.2},[call,.response .flashError s.received],-1⟩
      else
        let s := {s with
          device := wrote.2
          flashAddr := s.flashAddr+BitVec.ofNat 32 s.buffer.length
          buffer := []}
        some ⟨s,call::progress s,0⟩
    else some ⟨s,[],0⟩

/-- The loop over the bytes of a data frame. A failed pass ends it. -/
def dataLoop : BootState δ → List Byte → Option (BootReport δ)
  | s,[] => some ⟨s,[],0⟩
  | s,b::bytes =>
    if s.total ≤ s.received then some ⟨s,[],0⟩
    else
      match storeByte F s b with
      | none => none
      | some first =>
        if first.ret≠0 then some first
        else (dataLoop first.state bytes).map fun rest =>
          {rest with actions := first.actions++rest.actions}

/-- A firmware data frame. -/
def handleData (s : BootState δ) (frame : RxCanFrame) : Option (BootReport δ) :=
  if s.total ≤ s.received then some ⟨s,[],-1⟩ else dataLoop F s frame.payload

/-- `fw_update`. -/
def fwUpdate (s : BootState δ) (frame : RxCanFrame) : Option (BootReport δ) :=
  if frame.id=canIdPlatformRx then
    if frame.data32 0=boardStartUpdate then some (handleStart F s frame)
    else if frame.data32 0=boardConfirm then some (handleConfirm F s)
    else if frame.data32 0=boardVersion then some ⟨s,[.response .version appVersion],0⟩
    else if frame.data32 0=boardReboot then some ⟨.boot (F.restart s.device),[.reboot],0⟩
    else some ⟨s,[],0⟩
  else if frame.id=canIdFwDataRx then handleData F s frame
  else some ⟨s,[],0⟩

end Handlers

/-- A start command of the right length. -/
def IsFullStart (frame : RxCanFrame) : Prop :=
  frame.id=canIdPlatformRx ∧ frame.data32 0=boardStartUpdate ∧ canDlcToBytes frame.dlc=8

/-- A confirm command. -/
def IsConfirm (frame : RxCanFrame) : Prop :=
  frame.id=canIdPlatformRx ∧ frame.data32 0=boardConfirm

/-- A frame of firmware data. -/
def IsData (frame : RxCanFrame) : Prop := frame.id=canIdFwDataRx

instance (frame : RxCanFrame) : Decidable (IsFullStart frame) :=
  inferInstanceAs (Decidable (_ ∧ _ ∧ _))

instance (frame : RxCanFrame) : Decidable (IsConfirm frame) :=
  inferInstanceAs (Decidable (_ ∧ _))

instance (frame : RxCanFrame) : Decidable (IsData frame) :=
  inferInstanceAs (Decidable (_=_))

/-- Whether a flash operation succeeded; other actions count as such. -/
def BootAction.succeeded : BootAction → Bool
  | .erase _ _ ok => ok
  | .write _ _ ok => ok
  | _ => true

/-- A flash operation touches addresses of the range only. -/
def BootAction.Inside (lo hi : ℕ) : BootAction → Prop
  | .erase addr size _ => lo≤addr ∧ addr+size≤hi
  | .write addr bytes _ => lo≤addr ∧ addr+bytes.length≤hi
  | _ => True

/-- An action that is no flash operation and no jump. -/
def BootAction.IsPlain : BootAction → Prop
  | .response code _ => code≠.updateSuccess
  | .reboot => True
  | _ => False

section Dispatch

variable {δ : Type} (F : PagedFlash δ) (appVersion : Word) (s : BootState δ)
variable {frame : RxCanFrame}

/-- A full start command is handled as such. -/
theorem fwUpdate_start (h : IsFullStart frame) :
    fwUpdate F appVersion s frame=some (handleStart F s frame) := by
  rw [fwUpdate,if_pos h.1,if_pos h.2.1]

/-- A confirm command is handled as such. -/
theorem fwUpdate_confirm (h : IsConfirm frame) :
    fwUpdate F appVersion s frame=some (handleConfirm F s) := by
  have hc : frame.data32 0=boardConfirm := h.2
  rw [fwUpdate,if_pos h.1,if_neg (by rw [hc]; decide),if_pos hc]

/-- A data frame is handled as such. -/
theorem fwUpdate_data (h : IsData frame) :
    fwUpdate F appVersion s frame=handleData F s frame := by
  have hid : frame.id=canIdFwDataRx := h
  rw [fwUpdate,if_neg (by rw [hid]; decide),if_pos hid]

/-- Every other frame leaves the statics or restarts them, and does neither a
flash operation nor a jump. -/
theorem fwUpdate_other (hs : ¬IsFullStart frame) (hc : ¬IsConfirm frame) (hd : ¬IsData frame) :
    ∃ report,fwUpdate F appVersion s frame=some report ∧ (∀ a∈report.actions,a.IsPlain) ∧
      (report.state=s ∧ .reboot∉report.actions ∨
        report.state=.boot (F.restart s.device) ∧ .reboot∈report.actions) := by
  unfold fwUpdate
  by_cases hid : frame.id=canIdPlatformRx
  · rw [if_pos hid]
    by_cases hstart : frame.data32 0=boardStartUpdate
    · have hsize : canDlcToBytes frame.dlc≠8 := fun h => hs ⟨hid,hstart,h⟩
      rw [if_pos hstart,handleStart,if_pos hsize]
      refine ⟨_,rfl,?_,Or.inl ⟨rfl,?_⟩⟩ <;> simp [BootAction.IsPlain]
    · rw [if_neg hstart,if_neg fun h => hc ⟨hid,h⟩]
      split
      · refine ⟨_,rfl,?_,Or.inl ⟨rfl,?_⟩⟩ <;> simp [BootAction.IsPlain]
      · split
        · refine ⟨_,rfl,?_,Or.inr ⟨rfl,?_⟩⟩ <;> simp [BootAction.IsPlain]
        · refine ⟨_,rfl,?_,Or.inl ⟨rfl,?_⟩⟩ <;> simp
  · have hdata : ¬frame.id=canIdFwDataRx := hd
    rw [if_neg hid,if_neg hdata]
    refine ⟨_,rfl,?_,Or.inl ⟨rfl,?_⟩⟩ <;> simp

/-- The erase of a full start command: the announced size or the region,
whichever is smaller. -/
def startErase (frame : RxCanFrame) : Bool×δ×List BootAction :=
  eraseLoop F (min flashAppSize (frame.data32 1).toNat) s.device flashAppStartAddr.toNat
    (min flashAppSize (frame.data32 1).toNat)

/-- A full start command resets the statics, erases, and is answered with offset
0 exactly when the erase loop succeeds. -/
theorem handleStart_eq (h : canDlcToBytes frame.dlc=8) :
    handleStart F s frame=
      ⟨⟨(startErase F s frame).2.1,[],flashAppStartAddr,frame.data32 1,0⟩,
        (startErase F s frame).2.2++
          [if (startErase F s frame).1 then .response .offset 0 else .response .flashError 0],
        if (startErase F s frame).1 then 0 else -1⟩ := by
  have hsize : (if flashAppSize < (frame.data32 1).toNat then flashAppSize
      else (frame.data32 1).toNat)=min flashAppSize (frame.data32 1).toNat := by
    split <;> omega
  unfold handleStart startErase
  rw [if_neg (not_not.mpr h)]
  dsimp only
  rw [hsize]
  split
  · rename_i hfail
    rw [hfail]
    simp only [Bool.false_eq_true,if_false]
  · rename_i hok
    rw [Bool.eq_true_of_not_eq_false hok]
    simp only [if_true]

end Dispatch

section Frames

variable {frame : RxCanFrame}

/-- A confirm command is no start command. -/
theorem IsConfirm.not_isFullStart (h : IsConfirm frame) : ¬IsFullStart frame := by
  intro hs
  have hcmd := hs.2.1
  rw [h.2] at hcmd
  exact absurd hcmd (by decide)

/-- A data frame is no command. -/
theorem IsData.not_command (h : IsData frame) : ¬frame.id=canIdPlatformRx := by
  intro hid
  have hdata : frame.id=canIdFwDataRx := h
  rw [hid] at hdata
  exact absurd hdata (by decide)

end Frames

section Flushing

variable {δ : Type} (F : PagedFlash δ) (s : BootState δ)

/-- Writing out the buffer keeps the sizes. -/
theorem flushBuffer_sizes :
    (flushBuffer F s).1.received=s.received ∧ (flushBuffer F s).1.total=s.total := by
  unfold flushBuffer
  split
  · exact ⟨rfl,rfl⟩
  · exact ⟨rfl,rfl⟩

/-- Writing out an empty buffer does nothing, and otherwise it is one write. -/
theorem flushBuffer_actions :
    s.buffer=[] ∧ (flushBuffer F s).2=[] ∨
      s.buffer≠[] ∧ (flushBuffer F s).2=
        [.write s.flashAddr.toNat s.buffer (F.write s.device s.flashAddr.toNat s.buffer).1] := by
  unfold flushBuffer
  split
  · rename_i hbuffer
    exact Or.inr ⟨List.length_pos_iff.mp hbuffer,rfl⟩
  · rename_i hbuffer
    exact Or.inl ⟨List.length_eq_zero_iff.mp (by omega),rfl⟩

end Flushing

section Erasing

variable {δ : Type} {F : PagedFlash δ}

/-- What holds of every page erased, from a relation of address and size that a
pass keeps, holds of every action of the erase loop. -/
theorem eraseLoop_actions {P : BootAction → Prop} {I : ℕ → ℕ → Prop}
    (hpass : ∀ d addr size page,I addr size → 0 < size → F.pageInfo addr=some page →
      P (.erase page.start page.size (F.erase d page.start page.size).1) ∧
        I (addr+page.size) (if page.size ≤ size then size-page.size else 0))
    {fuel : ℕ} {d : δ} {addr size : ℕ} (h : I addr size) :
    ∀ a∈(eraseLoop F fuel d addr size).2.2,P a := by
  induction fuel generalizing d addr size with
  | zero => simp [eraseLoop]
  | succ fuel ih =>
    rw [eraseLoop]
    split
    · rename_i hpos
      cases hpage : F.pageInfo addr with
      | none => simp
      | some page =>
        obtain ⟨herase,hnext⟩ := hpass d addr size page h hpos hpage
        dsimp only
        split
        · intro a ha
          rw [List.mem_singleton.mp ha]
          exact herase
        · intro a ha
          rcases List.mem_cons.mp ha with rfl | ha
          · exact herase
          · exact ih hnext a ha
    · simp

/-- The erase loop only erases. -/
theorem eraseLoop_erases {fuel : ℕ} {d : δ} {addr size : ℕ} :
    ∀ a∈(eraseLoop F fuel d addr size).2.2,∃ start n ok,a=.erase start n ok :=
  eraseLoop_actions (I := fun _ _ => True) (fun _ _ _ _ _ _ _ => ⟨⟨_,_,_,rfl⟩,trivial⟩) trivial

/-- The erase loop goes page by page from the address on, and stays below
a boundary that the size does not exceed. -/
theorem eraseLoop_inside (hF : F.Lawful) {hi : ℕ} (hhi : F.Boundary hi) {fuel : ℕ} {d : δ}
    {addr size : ℕ} (haddr : F.Boundary addr) (hsize : addr+size≤hi) :
    ∀ a∈(eraseLoop F fuel d addr size).2.2,
      ∃ start n ok,a=.erase start n ok ∧ addr ≤ start ∧ start+n≤hi := by
  refine eraseLoop_actions (I := fun at_ left => F.Boundary at_ ∧ addr≤at_ ∧ at_+left≤hi) ?_
    ⟨haddr,le_refl addr,hsize⟩
  rintro d at_ left page ⟨hat,hlow,hleft⟩ hpos hpage
  have hstart := page_start hF hat hpage
  have hend : page.start+page.size≤hi := (hhi at_ page hpage).resolve_right (by omega)
  have hnext := page_end_boundary hF hpage
  rw [hstart] at hnext hend
  refine ⟨⟨_,_,_,rfl,by omega,by omega⟩,hnext,by omega,?_⟩
  split <;> omega

/-- A successful erase loop leaves the region erased, and all its operations
succeeded. -/
theorem eraseLoop_erased (hF : F.Lawful) {lo fuel : ℕ} {d : δ} {addr size : ℕ}
    (haddr : F.Boundary addr) (hfuel : size≤fuel) (h : F.Erased d lo addr)
    (hok : (eraseLoop F fuel d addr size).1=true) :
    F.Erased (eraseLoop F fuel d addr size).2.1 lo (addr+size) ∧
      (eraseLoop F fuel d addr size).2.2.all BootAction.succeeded=true := by
  induction fuel generalizing d addr size with
  | zero =>
    rw [Nat.le_zero.mp hfuel]
    exact ⟨h,rfl⟩
  | succ fuel ih =>
    rw [eraseLoop] at hok ⊢
    by_cases hpos : 0 < size
    · rw [if_pos hpos] at hok ⊢
      cases hpage : F.pageInfo addr with
      | none =>
        rw [hpage] at hok
        exact absurd hok Bool.false_ne_true
      | some page =>
        have hstart := page_start hF haddr hpage
        have hsize := page_size_pos hF hpage
        have hnext := page_end_boundary hF hpage
        rw [hpage] at hok
        dsimp only at hok ⊢
        split at hok
        · exact absurd hok Bool.false_ne_true
        · rename_i herase
          have herased := Bool.eq_true_of_not_eq_false herase
          have hpart := erased_page hF hpage hstart h herased
          rw [hstart] at hnext hpart herase herased hok ⊢
          rw [if_neg herase]
          obtain ⟨hrest,hall⟩ := ih hnext (by split <;> omega) hpart hok
          refine ⟨hrest.mono (le_refl lo) (by split <;> omega),?_⟩
          rw [List.all_cons,hall,Bool.and_true]
          exact herased
    · rw [if_neg hpos]
      exact ⟨h.mono (le_refl lo) (by omega),rfl⟩

/-- On a faultless device with pages in the region the erase loop succeeds. -/
theorem eraseLoop_faultless (hF : F.Lawful) (hfault : F.Faultless) {hi : ℕ}
    (hhi : F.Boundary hi) {fuel : ℕ} {d : δ} {addr size : ℕ} (haddr : F.Boundary addr)
    (hsize : addr+size≤hi) (hpages : F.Covers addr hi) :
    (eraseLoop F fuel d addr size).1=true := by
  induction fuel generalizing d addr size with
  | zero => rfl
  | succ fuel ih =>
    rw [eraseLoop]
    split
    · obtain ⟨page,hpage⟩ := Option.isSome_iff_exists.mp (hpages addr (le_refl addr) (by omega))
      have hstart := page_start hF haddr hpage
      have hpos := page_size_pos hF hpage
      have hend : page.start+page.size≤hi := (hhi addr page hpage).resolve_right (by omega)
      have hnext := page_end_boundary hF hpage
      rw [hpage]
      dsimp only
      rw [if_neg (by rw [hfault.erase_ok d addr page hpage]; decide)]
      rw [hstart] at hnext hend
      exact ih hnext (by split <;> omega) fun a ha => hpages a (by omega)
    · rfl

end Erasing

section Storing

variable {δ : Type} (F : PagedFlash δ) (s : BootState δ)

/-- The statics after a successful write of the buffer with one more byte. -/
def BootState.written (b : Byte) : BootState δ :=
  ⟨(F.write s.device s.flashAddr.toNat (s.buffer++[b])).2,[],
    s.flashAddr+BitVec.ofNat 32 (s.buffer.length+1),s.total,s.received+1⟩

/-- What storing a byte can come to. -/
inductive StoreCase (b : Byte) : Option (BootReport δ) → Prop
  /-- The buffer is full already. -/
  | overrun (full : flashBufferSize ≤ s.buffer.length) : StoreCase b none
  /-- The byte is only buffered. -/
  | kept (room : s.buffer.length+1 < flashBufferSize) (more : ¬s.total ≤ s.received+1) :
      StoreCase b (some ⟨{s with buffer := s.buffer++[b],received := s.received+1},[],0⟩)
  /-- The buffer is to be written and the write fails. -/
  | failed (room : s.buffer.length < flashBufferSize)
      (err : (F.write s.device s.flashAddr.toNat (s.buffer++[b])).1=false) :
      StoreCase b (some ⟨{s with
          device := (F.write s.device s.flashAddr.toNat (s.buffer++[b])).2
          buffer := s.buffer++[b]
          received := s.received+1},
        [.write s.flashAddr.toNat (s.buffer++[b]) false,.response .flashError (s.received+1)],-1⟩)
  /-- The buffer is written. -/
  | flushed (room : s.buffer.length < flashBufferSize)
      (due : s.buffer.length+1=flashBufferSize ∨ s.total ≤ s.received+1)
      (ok : (F.write s.device s.flashAddr.toNat (s.buffer++[b])).1=true) :
      StoreCase b (some ⟨s.written F b,
        .write s.flashAddr.toNat (s.buffer++[b]) true::progress (s.written F b),0⟩)

/-- Storing a byte comes to one of these. -/
theorem storeByte_cases (b : Byte) : StoreCase F s b (storeByte F s b) := by
  unfold storeByte
  split
  · rename_i hfull
    exact .overrun hfull
  · rename_i hroom
    rw [Nat.not_le] at hroom
    dsimp only
    rw [List.length_append,List.length_singleton]
    split
    · rename_i hdue
      have hdue' : s.buffer.length+1=flashBufferSize ∨ s.total ≤ s.received+1 := by
        rcases hdue with hfull | hend
        · exact Or.inl (by omega)
        · exact Or.inr hend
      by_cases hok : (F.write s.device s.flashAddr.toNat (s.buffer++[b])).1=false
      · rw [if_pos hok,hok]
        exact .failed hroom hok
      · have hwrote := Bool.eq_true_of_not_eq_false hok
        rw [if_neg hok,hwrote]
        exact .flushed hroom hdue' hwrote
    · rename_i hdue
      rw [not_or,Nat.not_le] at hdue
      exact .kept hdue.1 hdue.2

/-- What a byte that is stored without a failed write leaves and does. -/
inductive Stored (b : Byte) : BootState δ → List BootAction → Prop
  /-- It is only buffered. -/
  | kept (room : s.buffer.length+1 < flashBufferSize) (more : ¬s.total ≤ s.received+1) :
      Stored b {s with buffer := s.buffer++[b],received := s.received+1} []
  /-- The buffer is written with it. -/
  | flushed (room : s.buffer.length < flashBufferSize)
      (due : s.buffer.length+1=flashBufferSize ∨ s.total ≤ s.received+1)
      (ok : (F.write s.device s.flashAddr.toNat (s.buffer++[b])).1=true) :
      Stored b (s.written F b)
        (.write s.flashAddr.toNat (s.buffer++[b]) true::progress (s.written F b))

/-- The loop goes on only after a byte that is stored without a failed write. -/
theorem storeByte_stored {b : Byte} {m : BootState δ} {actions : List BootAction}
    (h : storeByte F s b=some ⟨m,actions,0⟩) : Stored F s b m actions := by
  have hcase := storeByte_cases F s b
  rw [h] at hcase
  generalize hreport : some (BootReport.mk m actions 0)=result at hcase
  cases hcase with
  | overrun full => cases hreport
  | kept room more =>
    cases hreport
    exact .kept room more
  | failed room err => cases hreport
  | flushed room due ok =>
    cases hreport
    exact .flushed room due ok

/-- A byte finds no room exactly in a full buffer. -/
theorem storeByte_eq_none (b : Byte) :
    storeByte F s b=none ↔ flashBufferSize ≤ s.buffer.length := by
  have hcase := storeByte_cases F s b
  generalize storeByte F s b=result at hcase
  cases hcase with
  | overrun full => exact iff_of_true rfl full
  | kept room more => exact iff_of_false (by simp) (by omega)
  | failed room err => exact iff_of_false (by simp) (by omega)
  | flushed room due ok => exact iff_of_false (by simp) (by omega)

/-- Only responses follow a successful write. -/
theorem progress_responses : ∀ a∈progress s,∃ code value,a=.response code value := by
  intro a ha
  unfold progress at ha
  split at ha
  · exact ⟨_,_,List.mem_singleton.mp ha⟩
  · split at ha
    · exact absurd ha List.not_mem_nil
    · split at ha
      · exact ⟨_,_,List.mem_singleton.mp ha⟩
      · exact absurd ha List.not_mem_nil

/-- Storing a byte makes no jump. -/
theorem storeByte_jump {b : Byte} {report : BootReport δ} (h : storeByte F s b=some report) :
    .jump∉report.actions := by
  have hcase := storeByte_cases F s b
  rw [h] at hcase
  cases hcase with
  | kept room more => simp
  | failed room err => simp
  | flushed room due ok =>
    intro ha
    rcases List.mem_cons.mp ha with ha | ha
    · cases ha
    · obtain ⟨code,value,he⟩ := progress_responses _ _ ha
      cases he

/-- The loop over the bytes of a data frame makes no jump. -/
theorem dataLoop_jump {bytes : List Byte} {report : BootReport δ}
    (h : dataLoop F s bytes=some report) : .jump∉report.actions := by
  induction bytes generalizing s report with
  | nil =>
    rw [dataLoop] at h
    obtain rfl := Option.some.inj h
    exact List.not_mem_nil
  | cons b bytes ih =>
    rw [dataLoop] at h
    split at h
    · obtain rfl := Option.some.inj h
      exact List.not_mem_nil
    · cases hstore : storeByte F s b with
      | none =>
        rw [hstore] at h
        cases h
      | some first =>
        have hfirst := storeByte_jump F s hstore
        rw [hstore] at h
        dsimp only at h
        split at h
        · obtain rfl := Option.some.inj h
          exact hfirst
        · obtain ⟨rest,hrest,rfl⟩ := Option.map_eq_some_iff.mp h
          intro ha
          rcases List.mem_append.mp ha with ha | ha
          · exact hfirst ha
          · exact ih first.state hrest ha

end Storing

end ZephyrApp.Bootloader

import ZephyrApp.CanFwUpgrade
import ZephyrApp.FlashReadback

/-!
# The UDP firmware upgrade library

The handling of the upgrade commands that arrive on the configuration port:
start, data, end, version and reboot. A command is a byte followed by its
payload. At the end of an upload the image is read back from the slot in
chunks and its checksum compared. Every handler reports its replies and the
calls that change the slot, with their outcomes, in order.
-/

/-!
## CRC-16/CCITT

The reflected checksum with the polynomial 0x1021, one step for each byte. The
checksum of a stream is a fold, so it may be computed piece by piece, each
piece seeded with the checksum of the pieces before it.
-/

namespace ZephyrApp.Crc16

open MachineBytes

/-- Take one byte into the checksum. -/
def crc16Step (crc : Half) (b : Byte) : Half :=
  let e := crc.setWidth 8 ^^^ b
  let f := e ^^^ (e <<< 4)
  (crc >>> 8) ^^^ (f.setWidth 16 <<< 8) ^^^ (f.setWidth 16 <<< 3) ^^^ (f.setWidth 16 >>> 4)

/-- `crc16_ccitt`, the checksum of some bytes after a seed. -/
def crc16Ccitt (seed : Half) (bytes : List Byte) : Half := bytes.foldl crc16Step seed

/-- No bytes leave the seed. -/
@[simp] theorem crc16Ccitt_nil (seed : Half) : crc16Ccitt seed []=seed := rfl

/-- The checksum of two pieces seeds the second with the first. -/
theorem crc16Ccitt_append (seed : Half) (xs ys : List Byte) :
    crc16Ccitt seed (xs++ys)=crc16Ccitt (crc16Ccitt seed xs) ys :=
  List.foldl_append

/-- The check value of the nine digits. -/
example : crc16Ccitt 0 [0x31,0x32,0x33,0x34,0x35,0x36,0x37,0x38,0x39]=0x2189 := by decide

end ZephyrApp.Crc16

namespace ZephyrApp.UdpFwUpgrade

open MachineBytes FlashSlots FlashReadback Crc16
open CanFwUpgrade (FwConfig FlashCall fwKeyhashKeyLen)

/-- `FW_CMD_START`. -/
def fwCmdStart : Byte := 1

/-- `FW_CMD_DATA`. -/
def fwCmdData : Byte := 2

/-- `FW_CMD_END`. -/
def fwCmdEnd : Byte := 3

/-- `FW_CMD_GET_VERSION`. -/
def fwCmdGetVersion : Byte := 4

/-- `FW_CMD_REBOOT`. -/
def fwCmdReboot : Byte := 5

/-- `FW_START_ERR_FAIL`. -/
def fwStartErrFail : Byte := 0

/-- `FW_START_OK`. -/
def fwStartOk : Byte := 1

/-- `FW_START_ERR_KEYHASH`. -/
def fwStartErrKeyhash : Byte := 2

/-- `FW_CRC_CHUNK`, the bytes read back at a time. -/
def fwCrcChunk : ℕ := 64

/-- A command with its payload. -/
structure UdpCmd where
  /-- The first byte of the datagram. -/
  cmd : Byte
  /-- The bytes after it. -/
  data : List Byte

/-- What a handler does besides changing the statics. -/
inductive UdpAction where
  /-- Send a reply, the command followed by some bytes. -/
  | reply (cmd : Byte) (data : List Byte)
  /-- Call the flash layer, with the outcome. -/
  | flash (call : FlashCall) (ok : Bool)
  /-- Call `boot_request_upgrade`, with the outcome. -/
  | bootRequest (permanent : Word) (ok : Bool)
  /-- Restart the system. -/
  | reboot
  deriving DecidableEq

/-- The statics of the library with the device they act on. -/
structure UdpState (δ : Type) where
  /-- The flash device with the image context. -/
  device : δ
  /-- `fw_started`, whether a session is open. -/
  started : Bool
  /-- `fw_size`, the announced size. -/
  size : Word
  /-- `fw_received`, the bytes received in the session. -/
  received : Word

/-- The statics after a boot. -/
def UdpState.boot {δ : Type} (device : δ) : UdpState δ := ⟨device,false,0,0⟩

/-- What a handler leaves and does. -/
structure UdpReport (δ : Type) where
  /-- The statics and the device afterwards. -/
  state : UdpState δ
  /-- Replies and calls, in order. -/
  actions : List UdpAction
  /-- Whether the command was one of the library's. -/
  handled : Bool

/-- A start payload carries a key hash other than the build's. -/
def keyhashMismatch (cfg : FwConfig) (data : List Byte) : Bool :=
  match cfg.keyhash with
  | none => false
  | some key => decide (data.length=4+fwKeyhashKeyLen ∧ data.drop 4≠key)

section Handlers

variable {δ : Type} (F : ReadableImage δ) (cfg : FwConfig)

/-- The command start. The outcome of the erase is not looked at. -/
def handleStart (s : UdpState δ) (data : List Byte) : UdpReport δ :=
  if s.started=true ∨ data.length<4 then ⟨s,[.reply fwCmdStart [fwStartErrFail]],true⟩
  else
    let s := {s with size := sysGetLe32 data 0}
    if keyhashMismatch cfg data=true then ⟨s,[.reply fwCmdStart [fwStartErrKeyhash]],true⟩
    else
      let opened := F.areaOpen s.device
      if opened.1=false then
        ⟨{s with device := opened.2},
          [.flash .areaOpen false,.reply fwCmdStart [fwStartErrFail]],true⟩
      else
        let erased := F.areaErase opened.2
        let begun := F.imgInit erased.2
        let calls := [.flash .areaOpen true,.flash .areaErase erased.1,.flash .imgInit begun.1]
        if begun.1=false then
          ⟨{s with device := begun.2},calls++[.reply fwCmdStart [fwStartErrFail]],true⟩
        else
          ⟨{s with device := begun.2,started := true,received := 0},
            calls++[.reply fwCmdStart [fwStartOk]],true⟩

/-- The command data: write the payload and answer with the running total. A
failed write closes the session. -/
def handleData (s : UdpState δ) (data : List Byte) : UdpReport δ :=
  if s.started=false ∨ data=[] then ⟨s,[.reply fwCmdData (sysPutLe32 0)],true⟩
  else
    let wrote := F.imgWrite s.device data
    let call := UdpAction.flash (.imgWrite data) wrote.1
    if wrote.1=false then
      ⟨{s with device := wrote.2,started := false},
        [call,.reply fwCmdData (sysPutLe32 0)],true⟩
    else
      let s := {s with
        device := wrote.2
        received := s.received+BitVec.ofNat 32 data.length}
      ⟨s,[call,.reply fwCmdData (sysPutLe32 s.received)],true⟩

/-- The loop of the read-back: read the next chunk and take it into the
checksum. Each pass advances, so that a fuel of the length is never exhausted. -/
def crcLoop (written : ℕ) : ℕ → δ → ℕ → Half → Option Half×δ
  | 0,d,_,crc => (some crc,d)
  | fuel+1,d,off,crc =>
    if off<written then
      let len := if written-off<fwCrcChunk then written-off else fwCrcChunk
      let chunk := F.areaRead d off len
      match chunk.1 with
      | none => (none,chunk.2)
      | some buf => crcLoop written fuel chunk.2 (off+fwCrcChunk) (crc16Ccitt crc buf)
    else (some crc,d)

/-- Read the image back and compare its checksum. -/
def fwVerifyCrc (d : δ) (recvCrc : Half) : Bool×δ :=
  let opened := F.areaOpen d
  if opened.1=false then (false,opened.2)
  else
    let written := F.bytesWritten opened.2
    let sum := crcLoop F written written opened.2 0 0
    match sum.1 with
    | none => (false,sum.2)
    | some crc => (decide (crc=recvCrc),sum.2)

/-- The first byte of an end payload asks for a test boot or a lasting one. -/
def permanentOf (data : List Byte) : Word := if data.getD 0 0≠0 then 0 else 1

/-- The command end: flush, compare the checksum and request the boot. The
announced size is not looked at, nor the outcome of the flush. -/
def handleEnd (s : UdpState δ) (data : List Byte) : UdpReport δ :=
  if s.started=false ∨ data.length<3 then ⟨s,[.reply fwCmdEnd [0]],true⟩
  else
    let flushed := F.imgFlush s.device
    let verified := fwVerifyCrc F flushed.2 (sysGetLe16 data 1)
    if verified.1=false then
      ⟨{s with device := verified.2,started := false},
        [.flash .imgFlush flushed.1,.reply fwCmdEnd [0]],true⟩
    else
      let requested := F.bootRequest verified.2 (permanentOf data)
      ⟨{s with device := requested.2,started := false},
        [.flash .imgFlush flushed.1,.bootRequest (permanentOf data) requested.1,
          .reply fwCmdEnd [if requested.1 then 1 else 0]],true⟩

/-- `handle_fw_cmd`. -/
def handleFwCmd (s : UdpState δ) (c : UdpCmd) : UdpReport δ :=
  if c.cmd=fwCmdStart then handleStart F cfg s c.data
  else if c.cmd=fwCmdData then handleData F s c.data
  else if c.cmd=fwCmdEnd then handleEnd F s c.data
  else if c.cmd=fwCmdGetVersion then ⟨s,[.reply fwCmdGetVersion cfg.version],true⟩
  else if c.cmd=fwCmdReboot then
    ⟨.boot (F.reboot s.device),[.reply fwCmdReboot [],.reboot],true⟩
  else ⟨s,[],false⟩

end Handlers

section Cases

variable {δ : Type} (F : ReadableImage δ) (cfg : FwConfig) (s : UdpState δ)

/-- What a start command can come to. -/
inductive StartCase (data : List Byte) : UdpReport δ → Prop
  /-- A session is open or the payload is short. -/
  | refused (why : s.started=true ∨ data.length<4) :
      StartCase data ⟨s,[.reply fwCmdStart [fwStartErrFail]],true⟩
  /-- The key hash is refused, after the announced size has been taken. -/
  | mismatch (closed : s.started=false) (long : 4≤data.length)
      (key : keyhashMismatch cfg data=true) :
      StartCase data ⟨{s with size := sysGetLe32 data 0},
        [.reply fwCmdStart [fwStartErrKeyhash]],true⟩
  /-- Opening the area or starting the image fails. -/
  | failed (state : UdpState δ) (calls : List UdpAction) (closed : state.started=false)
      (flash : ∀ a∈calls,∃ call ok,a=.flash call ok)
      (fault : ∃ d,(F.areaOpen d).1=false ∨ (F.imgInit d).1=false) :
      StartCase data ⟨state,calls++[.reply fwCmdStart [fwStartErrFail]],true⟩
  /-- A session is opened; the erase may have failed. -/
  | opened (device : δ) (closed : s.started=false) (long : 4≤data.length)
      (key : keyhashMismatch cfg data=false)
      (init : (F.imgInit (F.areaErase device).2).1=true) :
      StartCase data
        ⟨⟨(F.imgInit (F.areaErase device).2).2,true,sysGetLe32 data 0,0⟩,
          [.flash .areaOpen true,.flash .areaErase (F.areaErase device).1,.flash .imgInit true,
            .reply fwCmdStart [fwStartOk]],true⟩

/-- Every start command comes to one of these. -/
theorem handleStart_cases (data : List Byte) :
    StartCase F cfg s data (handleStart F cfg s data) := by
  unfold handleStart
  split
  · rename_i hrefused
    exact .refused hrefused
  · rename_i hopen
    rw [not_or,Nat.not_lt] at hopen
    obtain ⟨hopen,hlong⟩ := hopen
    have hclosed : s.started=false := Bool.eq_false_iff.mpr hopen
    dsimp only
    split
    · rename_i hkey
      exact .mismatch hclosed hlong hkey
    · rename_i hkey
      split
      · rename_i harea
        refine .failed _ [_] hclosed (fun a ha => ?_) ⟨_,Or.inl harea⟩
        rw [List.mem_singleton] at ha
        exact ⟨_,_,ha⟩
      · split
        · rename_i hinit
          refine .failed _ _ hclosed (fun a ha => ?_) ⟨_,Or.inr hinit⟩
          simp only [List.mem_cons,List.not_mem_nil,or_false] at ha
          rcases ha with rfl | rfl | rfl <;> exact ⟨_,_,rfl⟩
        · rename_i hinit
          have hok : (F.imgInit (F.areaErase (F.areaOpen s.device).2).2).1=true :=
            Bool.eq_true_of_not_eq_false hinit
          rw [hok]
          exact .opened _ hclosed hlong (Bool.eq_false_iff.mpr hkey) hok

/-- A data command without a session or without bytes changes nothing. -/
theorem handleData_refused {data : List Byte} (h : s.started=false ∨ data=[]) :
    handleData F s data=⟨s,[.reply fwCmdData (sysPutLe32 0)],true⟩ := by
  rw [handleData,if_pos h]

/-- Any other data command is written, and its outcome decides the rest. -/
theorem handleData_written {data : List Byte} (hopen : s.started=true) (hdata : data≠[]) :
    handleData F s data=
      if (F.imgWrite s.device data).1=true then
        ⟨{s with
            device := (F.imgWrite s.device data).2
            received := s.received+BitVec.ofNat 32 data.length},
          [.flash (.imgWrite data) true,
            .reply fwCmdData (sysPutLe32 (s.received+BitVec.ofNat 32 data.length))],true⟩
      else
        ⟨{s with device := (F.imgWrite s.device data).2,started := false},
          [.flash (.imgWrite data) false,.reply fwCmdData (sysPutLe32 0)],true⟩ := by
  have hgo : ¬(s.started=false ∨ data=[]) := by
    simp only [hopen,hdata,Bool.true_eq_false,or_self,not_false_eq_true]
  unfold handleData
  rw [if_neg hgo]
  dsimp only
  cases (F.imgWrite s.device data).1 with
  | false => simp only [if_true,Bool.false_eq_true,if_false]
  | true => simp only [if_true,Bool.true_eq_false,if_false]

/-- An end command without a session or a full payload changes nothing. -/
theorem handleEnd_refused {data : List Byte} (h : s.started=false ∨ data.length<3) :
    handleEnd F s data=⟨s,[.reply fwCmdEnd [0]],true⟩ := by
  rw [handleEnd,if_pos h]

/-- Any other end command closes the session. -/
theorem handleEnd_closed (data : List Byte) (h : 3≤data.length) :
    (handleEnd F s data).state.started=false := by
  unfold handleEnd
  split
  · rename_i hrefused
    exact hrefused.resolve_right (by omega)
  · dsimp only
    split <;> rfl

/-- The actions ask for a boot. -/
def RequestsBoot (actions : List UdpAction) : Prop :=
  ∃ permanent ok,UdpAction.bootRequest permanent ok∈actions

/-- A start command asks for none. -/
theorem handleStart_requests (data : List Byte) :
    ¬RequestsBoot (handleStart F cfg s data).actions := by
  have hcase := handleStart_cases F cfg s data
  generalize handleStart F cfg s data=report at hcase
  rintro ⟨permanent,ok,ha⟩
  cases hcase with
  | refused why => simp at ha
  | mismatch closed long key => simp at ha
  | failed state calls closed flash fault =>
    rw [List.mem_append] at ha
    rcases ha with ha | ha
    · obtain ⟨call,ok',he⟩ := flash _ ha
      cases he
    · simp at ha
  | opened device closed long key init => simp at ha

/-- Neither does a data command. -/
theorem handleData_requests (data : List Byte) :
    ¬RequestsBoot (handleData F s data).actions := by
  unfold RequestsBoot handleData
  dsimp only
  split
  · simp
  · split <;> simp

/-- An end command does with a full payload, in a session, after its checksum. -/
theorem handleEnd_requests_iff (data : List Byte) :
    RequestsBoot (handleEnd F s data).actions ↔ 3≤data.length ∧ s.started=true ∧
      (fwVerifyCrc F (F.imgFlush s.device).2 (sysGetLe16 data 1)).1=true := by
  unfold RequestsBoot handleEnd
  dsimp only
  split
  · rename_i hrefused
    refine iff_of_false (by simp) ?_
    rintro ⟨hlong,hopen,-⟩
    rw [hopen] at hrefused
    simp only [Bool.true_eq_false,false_or] at hrefused
    omega
  · rename_i hgo
    rw [not_or,Nat.not_lt,Bool.not_eq_false] at hgo
    split
    · rename_i hverify
      refine iff_of_false (by simp) ?_
      rintro ⟨-,-,h⟩
      rw [hverify] at h
      exact absurd h Bool.false_ne_true
    · rename_i hverify
      refine iff_of_true ⟨_,_,List.mem_cons_of_mem _ List.mem_cons_self⟩ ?_
      exact ⟨hgo.2,hgo.1,Bool.eq_true_of_not_eq_false hverify⟩

/-- A boot is requested exactly by an end command with a full payload that finds
a session and whose checksum is the one read back. -/
theorem bootRequest_iff (c : UdpCmd) :
    (∃ permanent ok,UdpAction.bootRequest permanent ok∈(handleFwCmd F cfg s c).actions) ↔
      c.cmd=fwCmdEnd ∧ 3≤c.data.length ∧ s.started=true ∧
        (fwVerifyCrc F (F.imgFlush s.device).2 (sysGetLe16 c.data 1)).1=true := by
  change RequestsBoot _ ↔ _
  unfold handleFwCmd
  by_cases hstart : c.cmd=fwCmdStart
  · rw [if_pos hstart,hstart]
    exact iff_of_false (handleStart_requests F cfg s c.data) fun h => absurd h.1 (by decide)
  · rw [if_neg hstart]
    by_cases hdata : c.cmd=fwCmdData
    · rw [if_pos hdata,hdata]
      exact iff_of_false (handleData_requests F s c.data) fun h => absurd h.1 (by decide)
    · rw [if_neg hdata]
      by_cases hend : c.cmd=fwCmdEnd
      · rw [if_pos hend,handleEnd_requests_iff F s c.data]
        exact ⟨fun h => ⟨hend,h⟩,And.right⟩
      · refine iff_of_false ?_ (fun h => absurd h.1 hend)
        rw [if_neg hend]
        unfold RequestsBoot
        split
        · simp
        · split <;> simp

end Cases

section ReadBack

variable {δ : Type} {F : ReadableImage δ}

/-- The loop computes the checksum of what the slot holds from the offset on. -/
theorem crcLoop_spec (hF : F.ReadsBack) {written : ℕ} (hle : written≤F.slotSize) {fuel : ℕ}
    (d : δ) {off : ℕ} (crc : Half) (hfuel : written≤off+fuel) :
    (crcLoop F written fuel d off crc).1=
      some (crc16Ccitt crc (((F.slot d).take written).drop off)) := by
  induction fuel generalizing d off crc with
  | zero =>
    have hnil : ((F.slot d).take written).drop off=[] := by
      rw [List.drop_eq_nil_iff,List.length_take]
      omega
    rw [crcLoop,hnil,crc16Ccitt_nil]
  | succ fuel ih =>
    rw [crcLoop]
    split
    · rename_i hoff
      dsimp only
      set len := if written-off<fwCrcChunk then written-off else fwCrcChunk with hlen
      have hlenle : len≤fwCrcChunk ∧ len≤written-off ∧ (len<fwCrcChunk → off+len=written) := by
        rw [hlen]
        split <;> omega
      have hsome := hF.read_some d off len (by omega)
      cases hread : (F.areaRead d off len).1 with
      | none =>
        rw [hread] at hsome
        exact absurd hsome Bool.false_ne_true
      | some buf =>
        have hbuf := hF.read_ok d off len buf hread
        have hslot := hF.read_slot d off len
        have hchunk : 0<fwCrcChunk := by decide
        dsimp only
        rw [ih (F.areaRead d off len).2 (crc16Ccitt crc buf) (by omega),hslot,
          ←crc16Ccitt_append]
        have hsplit : ((F.slot d).take written).drop off=
            buf++((F.slot d).take written).drop (off+fwCrcChunk) := by
          rw [hbuf]
          have htake : ((F.slot d).drop off).take len=
              (((F.slot d).take written).drop off).take len := by
            rw [List.drop_take,List.take_take,Nat.min_eq_left hlenle.2.1]
          rw [htake]
          by_cases hfull : len=fwCrcChunk
          · rw [hfull,←List.drop_drop,List.take_append_drop]
          · have hshort := hlenle.2.2 (by omega)
            have hnil : ((F.slot d).take written).drop (off+fwCrcChunk)=[] := by
              rw [List.drop_eq_nil_iff,List.length_take]
              omega
            have hall : (((F.slot d).take written).drop off).length≤len := by
              rw [List.length_drop,List.length_take]
              omega
            rw [hnil,List.append_nil,List.take_of_length_le hall]
        rw [hsplit]
    · rename_i hoff
      have hnil : ((F.slot d).take written).drop off=[] := by
        rw [List.drop_eq_nil_iff,List.length_take]
        omega
      rw [hnil,crc16Ccitt_nil]

/-- A flushed stream verifies exactly against its own checksum. -/
theorem fwVerifyCrc_flushed (hF : F.Lawful) (hback : F.ReadsBack) (hfault : F.Faultless) {d : δ}
    {image : List Byte} (hs : F.Streamed d image) (recvCrc : Half) :
    (fwVerifyCrc F (F.imgFlush d).2 recvCrc).1=decide (crc16Ccitt 0 image=recvCrc) := by
  have hflush := hfault.flush_ok d
  have hslot := hF.flush_ok d image hs hflush
  have hcount := hback.flush_ok d image hs hflush
  obtain ⟨hopenSlot,hopenCount⟩ := hback.open_slot (F.imgFlush d).2
  have hopen : ¬(F.areaOpen (F.imgFlush d).2).1=false := by
    rw [hfault.open_ok]
    decide
  have hloop := crcLoop_spec hback (hF.streamed_le d image hs) (F.areaOpen (F.imgFlush d).2).2 0
    (by omega : image.length≤0+image.length)
  have htake : (F.slot (F.areaOpen (F.imgFlush d).2).2).take image.length=image := by
    rw [hopenSlot,hslot]
    exact List.take_left
  rw [htake,List.drop_zero] at hloop
  unfold fwVerifyCrc
  rw [if_neg hopen]
  dsimp only
  rw [hopenCount,hcount,hloop]

end ReadBack

end ZephyrApp.UdpFwUpgrade

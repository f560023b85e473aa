import ZephyrApp.CanFwUpgrade
import ZephyrApp.EventRuns

/-!
# Upgrade sessions over the CAN bus

Runs of the receive thread over arbitrary frames, with two records kept beside
them: the upload since the last accepted start, and the flash outcomes since
the slot was erased last. As long as nothing has failed, an open session
streams exactly the recorded bytes over an erased slot. From this follow when
a confirmed image is the announced one, and when it is whole.
-/

namespace ZephyrApp.CanFwUpgrade

open MachineBytes CanFrames FlashSlots EventRuns

/-- What has been uploaded since the last accepted start. -/
structure Upload where
  /-- The size it announced. -/
  announced : Word
  /-- The payloads of all data frames received since. -/
  payload : List Byte
  deriving DecidableEq

/-- Keep the upload over one frame: an accepted start begins a new one. -/
def noteUpload (upload : Option Upload) (frame : RxCanFrame) (actions : List FwAction) :
    Option Upload :=
  if frame.IsStart ∧ .reply .offset 0∈actions then some ⟨frame.data32 1,[]⟩
  else if frame.IsData then upload.map fun u => {u with payload := u.payload++frame.payload}
  else upload

/-- The outcomes since the slot was erased last. -/
structure FlashLog where
  /-- Whether the erase succeeded. -/
  eraseOk : Bool
  /-- Whether every write since succeeded. -/
  writesOk : Bool
  /-- The bytes written since. -/
  bytes : List Byte

/-- Note one action in the log. -/
def FlashLog.note (log : FlashLog) : FwAction → FlashLog
  | .flash .areaErase ok => ⟨ok,true,[]⟩
  | .flash (.imgWrite bytes) ok =>
    {log with writesOk := log.writesOk && ok,bytes := log.bytes++bytes}
  | _ => log

/-- The library with the two records. -/
structure FwRun (δ : Type) where
  /-- The statics and the device. -/
  fw : FwState δ
  /-- The upload since the last accepted start. -/
  upload : Option Upload
  /-- The outcomes since the last erase. -/
  log : FlashLog

/-- A run from boot, with nothing recorded. -/
def FwRun.boot {δ : Type} (device : δ) : FwRun δ := ⟨.boot device,none,⟨false,true,[]⟩⟩

section Runs

variable {δ : Type} (F : FlashImage δ) (cfg : FwConfig)

/-- The replies and calls of one frame. -/
def fwActions (r : FwRun δ) (frame : RxCanFrame) : List FwAction :=
  (canFwRxThread F cfg r.fw frame).actions

/-- One frame, recorded. -/
def fwStep (r : FwRun δ) (frame : RxCanFrame) : FwRun δ :=
  ⟨(canFwRxThread F cfg r.fw frame).state,noteUpload r.upload frame (fwActions F cfg r frame),
    (fwActions F cfg r frame).foldl FlashLog.note r.log⟩

/-- A frame is answered with the confirm code. -/
def Confirms (r : FwRun δ) (frame : RxCanFrame) : Prop :=
  ∃ offset,.reply .confirm offset∈fwActions F cfg r frame

/-- A boot is requested with the slot holding the given bytes. -/
def RequestsBoot (r : FwRun δ) (frame : RxCanFrame) (slot : List Byte) : Prop :=
  ∃ permanent ok,.bootRequest permanent slot ok∈fwActions F cfg r frame

/-- While a session is open and nothing has failed in it, the device streams
the recorded bytes over an erased slot, and their number is counted. -/
def Streaming (r : FwRun δ) : Prop :=
  r.fw.imgInitialized=true → r.log.eraseOk=true → r.log.writesOk=true →
    F.Streamed r.fw.device r.log.bytes ∧ r.fw.written=BitVec.ofNat 32 r.log.bytes.length

/-- Plain replies leave the log alone. -/
theorem foldl_note_plain (log : FlashLog) {actions : List FwAction}
    (h : ∀ a∈actions,a.IsPlainReply) : actions.foldl FlashLog.note log=log := by
  induction actions generalizing log with
  | nil => rfl
  | cons a actions ih =>
    have ha := h a List.mem_cons_self
    have hnote : log.note a=log := by
      cases a with
      | flash call ok => exact absurd ha id
      | reply code offset => rfl
      | versionText seq text => rfl
      | bootRequest permanent slot ok => rfl
      | reboot => rfl
    rw [List.foldl_cons,hnote]
    exact ih log fun b hb => h b (List.mem_cons_of_mem a hb)

variable {r : FwRun δ} {frame : RxCanFrame}

/-- Quiet actions confirm nothing and request no boot. -/
theorem not_confirms_quiet (h : ∀ a∈fwActions F cfg r frame,a.IsQuiet) :
    ¬Confirms F cfg r frame ∧ ∀ slot,¬RequestsBoot F cfg r frame slot := by
  constructor
  · rintro ⟨offset,ha⟩
    exact h _ ha rfl
  · rintro slot ⟨permanent,ok,ha⟩
    exact h _ ha

/-- Only a confirm command confirms an image or requests a boot. -/
theorem quiet_unless_confirm (hc : ¬frame.IsConfirm) :
    ¬Confirms F cfg r frame ∧ ∀ slot,¬RequestsBoot F cfg r frame slot := by
  apply not_confirms_quiet
  unfold fwActions
  by_cases hs : frame.IsStart
  · rw [canFwRxThread_start F cfg r.fw hs]
    exact handleStart_quiet F cfg r.fw frame
  · by_cases hd : frame.IsData
    · rw [canFwRxThread_data F cfg r.fw hd]
      exact handleFwData_quiet F r.fw frame
    · intro a ha
      exact ((canFwRxThread_passive F cfg r.fw hs hc hd).quiet a ha).isQuiet

/-- A confirm command that finds no session, or not the announced number of
bytes, confirms nothing and requests no boot. -/
theorem confirm_refuses (hc : frame.IsConfirm)
    (h : ¬(r.fw.imgInitialized=true ∧ r.fw.written=r.fw.totalSize)) :
    ¬Confirms F cfg r frame ∧ ∀ slot,¬RequestsBoot F cfg r frame slot := by
  apply not_confirms_quiet
  rw [fwActions,canFwRxThread_confirm F cfg r.fw hc]
  exact handleConfirm_refuses F r.fw h

/-- Any other confirm command flushes and requests a boot with the slot as the
flush left it. -/
theorem confirm_requests (hc : frame.IsConfirm) (hopen : r.fw.imgInitialized=true)
    (htotal : r.fw.written=r.fw.totalSize) :
    (∀ ok,.flash .imgFlush ok∈fwActions F cfg r frame ↔ ok=(F.imgFlush r.fw.device).1) ∧
      ∀ slot,RequestsBoot F cfg r frame slot ↔ slot=F.slot (F.imgFlush r.fw.device).2 := by
  obtain ⟨last,ok,hlast,hplain,hact⟩ := handleConfirm_requests F r.fw hopen htotal
  unfold RequestsBoot fwActions
  rw [canFwRxThread_confirm F cfg r.fw hc,hact]
  have hreply : last=.reply .confirm 0x55AA55AA ∨ last.IsPlainReply := by
    cases ok with
    | true => exact Or.inl (hlast rfl)
    | false => exact Or.inr (hplain rfl)
  refine ⟨fun ok' => ?_,fun slot => ⟨?_,?_⟩⟩
  · have hother : .flash .imgFlush ok'≠last := by
      rintro rfl
      simp [FwAction.IsPlainReply] at hreply
    simp [hother]
  · rintro ⟨permanent,ok',ha⟩
    have hother : .bootRequest permanent slot ok'≠last := by
      rintro rfl
      simp [FwAction.IsPlainReply] at hreply
    simp only [List.mem_cons,List.not_mem_nil,or_false,reduceCtorEq,false_or,
      FwAction.bootRequest.injEq] at ha
    exact (ha.resolve_right hother).2.1
  · rintro rfl
    exact ⟨frame.data32 1,ok,by simp⟩

/-- A data frame in an open session is appended to the log with its outcome. -/
theorem data_open (hd : frame.IsData) (hopen : r.fw.imgInitialized=true) :
    (fwStep F cfg r frame).log={r.log with
      writesOk := r.log.writesOk && (F.imgWrite r.fw.device frame.payload).1
      bytes := r.log.bytes++frame.payload} := by
  obtain ⟨-,-,-,-,replies,hplain,hact⟩ := handleFwData_open F r.fw hopen
  have hactions : fwActions F cfg r frame=
      .flash (.imgWrite frame.payload) (F.imgWrite r.fw.device frame.payload).1::replies := by
    rw [fwActions,canFwRxThread_data F cfg r.fw hd,hact]
  dsimp only [fwStep]
  rw [hactions,List.foldl_cons,foldl_note_plain _ hplain]
  rfl

/-- A data frame without a session changes no static. -/
theorem data_closed (hd : frame.IsData) (hclosed : r.fw.imgInitialized=false) :
    (fwStep F cfg r frame).fw=r.fw := by
  dsimp only [fwStep]
  rw [canFwRxThread_data F cfg r.fw hd,handleFwData_closed F r.fw hclosed]

variable {F cfg}

/-- A start command leaves a closed session, the same session, or a new one on
a slot erased just before. -/
theorem start_streaming (hF : F.Lawful) (hs : frame.IsStart) (hr : Streaming F r) :
    Streaming F (fwStep F cfg r frame) := by
  have hcase := handleStart_cases F cfg r.fw frame
  have hrun := canFwRxThread_start F cfg r.fw hs
  unfold Streaming fwStep fwActions
  rw [hrun]
  generalize handleStart F cfg r.fw frame=report at hcase
  cases hcase with
  | refused state code same total error =>
    dsimp only [List.foldl_cons,List.foldl_nil,FlashLog.note]
    rw [same.imgInitialized,same.device,same.written]
    exact hr
  | failed state calls closed flash =>
    intro hopen
    exact absurd (closed.symm.trans hopen) Bool.false_ne_true
  | continued state size gate isOpen same total =>
    dsimp only [List.foldl_cons,List.foldl_nil,FlashLog.note]
    rw [same.imgInitialized,same.device,same.written]
    exact hr
  | opened state device init isOpen started fresh total =>
    dsimp only [List.foldl_cons,List.foldl_nil,FlashLog.note]
    intro _ herase _
    rw [started,fresh]
    exact ⟨hF.init_ok _ (hF.erase_ok device herase) init,rfl⟩

/-- A frame answered with plain replies only keeps streaming when it leaves the
session alone or closes it. -/
theorem passive_spec (hs : ¬frame.IsStart) (hc : ¬frame.IsConfirm) (hd : ¬frame.IsData)
    (hr : Streaming F r) :
    Streaming F (fwStep F cfg r frame) ∧ (fwStep F cfg r frame).log=r.log ∧
      (fwStep F cfg r frame).upload=r.upload := by
  have hpass := canFwRxThread_passive F cfg r.fw hs hc hd
  have hlog : (fwStep F cfg r frame).log=r.log := foldl_note_plain r.log hpass.quiet
  refine ⟨?_,hlog,?_⟩
  · unfold Streaming
    rw [hlog]
    rcases hpass.session with hclosed | ⟨hsame,-⟩
    · intro hopen
      exact absurd (hclosed.symm.trans hopen) Bool.false_ne_true
    · dsimp only [fwStep]
      rw [hsame.imgInitialized,hsame.device,hsame.written]
      exact hr
  · have hnote : ¬(frame.IsStart ∧ .reply .offset 0∈fwActions F cfg r frame) := fun h => hs h.1
    dsimp only [fwStep,noteUpload]
    rw [if_neg hnote,if_neg hd]

/-- A data frame keeps streaming: a successful write appends its payload, and
after a failed one nothing is claimed any more. -/
theorem data_streaming (hF : F.Lawful) (hd : frame.IsData) (hr : Streaming F r) :
    Streaming F (fwStep F cfg r frame) := by
  intro hopen' herase hwrites
  by_cases hopen : r.fw.imgInitialized=true
  · have hlog := data_open F cfg hd hopen
    obtain ⟨hdevice,-,-,hwritten,-⟩ := handleFwData_open F r.fw hopen
    rw [hlog] at herase hwrites ⊢
    dsimp only at herase hwrites ⊢
    rw [Bool.and_eq_true] at hwrites
    obtain ⟨hstream,hcount⟩ := hr hopen herase hwrites.1
    dsimp only [fwStep]
    rw [canFwRxThread_data F cfg r.fw hd,hdevice,hwritten hwrites.2,hcount,List.length_append,
      BitVec.ofNat_add]
    exact ⟨hF.write_ok _ _ _ hstream hwrites.2,rfl⟩
  · have hclosed : r.fw.imgInitialized=false := Bool.eq_false_iff.mpr hopen
    rw [data_closed F cfg hd hclosed] at hopen'
    exact absurd hopen' hopen

/-- A confirm command closes the session. -/
theorem confirm_closed (hc : frame.IsConfirm) :
    (fwStep F cfg r frame).fw.imgInitialized=false := by
  dsimp only [fwStep]
  rw [canFwRxThread_confirm F cfg r.fw hc]
  exact handleConfirm_closed F r.fw frame

/-- Every frame keeps streaming. -/
theorem streaming_step (hF : F.Lawful) (r : FwRun δ) (frame : RxCanFrame)
    (hr : Streaming F r) : Streaming F (fwStep F cfg r frame) := by
  by_cases hs : frame.IsStart
  · exact start_streaming hF hs hr
  · by_cases hc : frame.IsConfirm
    · intro hopen
      exact absurd ((confirm_closed hc).symm.trans hopen) Bool.false_ne_true
    · by_cases hd : frame.IsData
      · exact data_streaming hF hd hr
      · exact (passive_spec hs hc hd hr).1

/-- The boot state streams nothing. -/
theorem streaming_boot (device : δ) : Streaming F (.boot device) := by
  intro hopen
  exact absurd hopen Bool.false_ne_true

variable (F cfg) in
/-- A confirmation or a boot request stands for a sound image: the erase, all
writes and the flush succeeded, and the slot holds the announced number of
bytes written. -/
def ConfirmSound (r : FwRun δ) (frame : RxCanFrame) : Prop :=
  (Confirms F cfg r frame ∨ ∃ slot,RequestsBoot F cfg r frame slot) →
    r.log.eraseOk=true ∧ r.log.writesOk=true ∧ .flash .imgFlush true∈fwActions F cfg r frame ∧
      r.log.bytes.length=r.fw.totalSize.toNat ∧
      ∀ slot,RequestsBoot F cfg r frame slot ↔ slot=F.padded r.log.bytes

variable (F) in
/-- A confirm command that finds all announced bytes counted finds a session
without a failed erase or write, and its flush succeeds. -/
def ConfirmUndamaged (r : FwRun δ) (frame : RxCanFrame) : Prop :=
  frame.IsConfirm → r.fw.imgInitialized=true → r.fw.written=r.fw.totalSize →
    r.log.eraseOk=true ∧ r.log.writesOk=true ∧ (F.imgFlush r.fw.device).1=true

instance decidableConfirmUndamaged (r : FwRun δ) (frame : RxCanFrame) :
    Decidable (ConfirmUndamaged F r frame) :=
  inferInstanceAs (Decidable (frame.IsConfirm → r.fw.imgInitialized=true →
    r.fw.written=r.fw.totalSize →
      r.log.eraseOk=true ∧ r.log.writesOk=true ∧ (F.imgFlush r.fw.device).1=true))

/-- A session that streams has its bytes in the slot after a successful flush,
and has counted them. -/
theorem flushed_image (hF : F.Lawful) (hr : Streaming F r) (hopen : r.fw.imgInitialized=true)
    (herase : r.log.eraseOk=true) (hwrites : r.log.writesOk=true) :
    r.log.bytes.length=r.fw.written.toNat ∧ ((F.imgFlush r.fw.device).1=true →
      F.slot (F.imgFlush r.fw.device).2=F.padded r.log.bytes) := by
  obtain ⟨hstream,hcount⟩ := hr hopen herase hwrites
  have hle := hF.streamed_le _ _ hstream
  have hlt := hF.slotSize_lt
  refine ⟨?_,hF.flush_ok _ _ hstream⟩
  rw [hcount,word_toNat (by omega)]

/-- At a frame of a streaming session, the confirmation is sound exactly when
the session is undamaged. -/
theorem confirmSound_iff_undamaged (hF : F.Lawful) (r : FwRun δ) (frame : RxCanFrame)
    (hr : Streaming F r) : ConfirmSound F cfg r frame ↔ ConfirmUndamaged F r frame := by
  by_cases hc : frame.IsConfirm
  · by_cases hready : r.fw.imgInitialized=true ∧ r.fw.written=r.fw.totalSize
    · obtain ⟨hopen,htotal⟩ := hready
      obtain ⟨hflush,hslot⟩ := confirm_requests F cfg hc hopen htotal
      constructor
      · intro hsound _ _ _
        obtain ⟨herase,hwrites,hflushed,-,-⟩ := hsound (Or.inr ⟨_,(hslot _).mpr rfl⟩)
        exact ⟨herase,hwrites,((hflush true).mp hflushed).symm⟩
      · intro hgood _
        obtain ⟨herase,hwrites,hok⟩ := hgood hc hopen htotal
        obtain ⟨hlength,himage⟩ := flushed_image hF hr hopen herase hwrites
        rw [←htotal,← himage hok]
        exact ⟨herase,hwrites,(hflush true).mpr hok.symm,hlength,hslot⟩
    · obtain ⟨hconfirm,hboot⟩ := confirm_refuses F cfg hc hready
      constructor
      · intro _ _ hopen htotal
        exact absurd ⟨hopen,htotal⟩ hready
      · rintro _ (h | ⟨slot,h⟩)
        · exact absurd h hconfirm
        · exact absurd h (hboot slot)
  · obtain ⟨hconfirm,hboot⟩ := quiet_unless_confirm F cfg hc
    constructor
    · intro _ h
      exact absurd h hc
    · rintro _ (h | ⟨slot,h⟩)
      · exact absurd h hconfirm
      · exact absurd h (hboot slot)

/-- From boot on, confirmations are sound in exactly those runs in which no
confirm command finds a damaged session complete. -/
theorem confirmSound_runs (hF : F.Lawful) (device : δ) (frames : List RxCanFrame) :
    AlongRun (fwStep F cfg) (ConfirmSound F cfg) (.boot device) frames ↔
      AlongRun (fwStep F cfg) (ConfirmUndamaged F) (.boot device) frames :=
  alongRun_congr (streaming_step hF) (confirmSound_iff_undamaged hF) (streaming_boot device) frames

/-- A start whose area does not open, then a complete upload: the confirmation
is sound. -/
theorem confirmSound_runs_retry :
    AlongRun (fwStep (ramFlash 64).scripted .plain) (ConfirmSound (ramFlash 64).scripted .plain)
      (.boot (⟨List.replicate 64 0,none⟩,[false]))
      [commandFrame fwCmdStartUpdate 8,commandFrame fwCmdStartUpdate 8,dataFrame 1,
        commandFrame fwCmdConfirm 1] :=
  (confirmSound_runs (ramFlash_lawful (by decide)).scripted _ _).mpr (by decide +kernel)

/-- When the erase fails, the upload over the old image is confirmed all the
same. -/
theorem confirmSound_fails :
    ¬AlongRun (fwStep (ramFlash 64).scripted .plain)
      (ConfirmSound (ramFlash 64).scripted .plain)
      (.boot (⟨List.replicate 64 0,none⟩,[true,false]))
      [commandFrame fwCmdStartUpdate 8,dataFrame 1,commandFrame fwCmdConfirm 1] := by
  rintro ⟨-,-,hconfirm,-⟩
  have herase := (hconfirm (Or.inl ⟨0x55AA55AA,by decide +kernel⟩)).1
  revert herase
  decide +kernel

variable (F cfg) in
/-- A confirmation is about the latest upload: its bytes are all that the slot
holds, and as many as were announced. -/
def ConfirmFresh (r : FwRun δ) (frame : RxCanFrame) : Prop :=
  Confirms F cfg r frame → ∃ upload∈r.upload,upload.payload.length=upload.announced.toNat ∧
    ∀ slot,RequestsBoot F cfg r frame slot ↔ slot=F.padded upload.payload

variable (F cfg) in
/-- An accepted start command finds no session with data in it, and the data
of an open session finds room in the slot. -/
def StartsFresh (r : FwRun δ) (frame : RxCanFrame) : Prop :=
  (frame.IsStart → canDlcToBytes frame.dlc=8 → (keyhashGate cfg r.fw).1=true →
    r.fw.imgInitialized=true → r.fw.written=0) ∧
  (frame.IsData → r.fw.imgInitialized=true →
    r.fw.written.toNat+canDlcToBytes frame.dlc≤F.slotSize)

instance decidableStartsFresh (r : FwRun δ) (frame : RxCanFrame) :
    Decidable (StartsFresh F cfg r frame) :=
  inferInstanceAs (Decidable (
    (frame.IsStart → canDlcToBytes frame.dlc=8 → (keyhashGate cfg r.fw).1=true →
      r.fw.imgInitialized=true → r.fw.written=0) ∧
    (frame.IsData → r.fw.imgInitialized=true →
      r.fw.written.toNat+canDlcToBytes frame.dlc≤F.slotSize)))

variable (F) in
/-- An open session streams the latest upload and nothing else. -/
structure FreshSession (r : FwRun δ) : Prop where
  /-- It streams the recorded bytes. -/
  streaming : Streaming F r
  /-- Nothing has failed in it, and the recorded bytes are the upload. -/
  current : r.fw.imgInitialized=true → (r.log.eraseOk=true ∧ r.log.writesOk=true) ∧
    ∃ upload∈r.upload,upload.payload=r.log.bytes ∧ upload.announced=r.fw.totalSize

/-- An accepted start command keeps the session fresh on a faultless device. -/
theorem start_fresh (hF : F.Lawful) (hfault : F.Faultless) (hs : frame.IsStart)
    (hr : FreshSession F r) (hc : StartsFresh F cfg r frame) :
    FreshSession F (fwStep F cfg r frame) := by
  refine ⟨start_streaming hF hs hr.streaming,?_⟩
  have hcase := handleStart_cases F cfg r.fw frame
  have hrun := canFwRxThread_start F cfg r.fw hs
  have hd : ¬frame.IsData := hs.not_isData
  unfold fwStep fwActions noteUpload
  rw [hrun]
  generalize handleStart F cfg r.fw frame=report at hcase
  cases hcase with
  | refused state code same total error =>
    have hoffset : ¬(frame.IsStart ∧ FwAction.reply .offset 0∈[FwAction.reply code 0]) := by
      rcases error with rfl | rfl <;> simp
    dsimp only [List.foldl_cons,List.foldl_nil,FlashLog.note]
    rw [if_neg hoffset,if_neg hd,same.imgInitialized,total]
    exact hr.current
  | failed state calls closed flash =>
    intro hopen
    exact absurd (closed.symm.trans hopen) Bool.false_ne_true
  | continued state size gate isOpen same total =>
    intro _
    obtain ⟨⟨herase,hwrites⟩,-⟩ := hr.current isOpen
    have hlength := (flushed_image hF hr.streaming isOpen herase hwrites).1
    rw [hc.1 hs size gate isOpen] at hlength
    have hnil : r.log.bytes=[] := List.length_eq_zero_iff.mp hlength
    refine ⟨⟨herase,hwrites⟩,⟨frame.data32 1,[]⟩,?_,hnil.symm,total.symm⟩
    simp [hs]
  | opened state device init isOpen started fresh total =>
    intro _
    refine ⟨⟨hfault.erase_ok device,rfl⟩,⟨frame.data32 1,[]⟩,?_,rfl,total.symm⟩
    simp [hs]

/-- A data frame with room keeps the session fresh on a faultless device. -/
theorem data_fresh (hF : F.Lawful) (hfault : F.Faultless) (hd : frame.IsData)
    (hr : FreshSession F r) (hc : StartsFresh F cfg r frame) :
    FreshSession F (fwStep F cfg r frame) := by
  refine ⟨data_streaming hF hd hr.streaming,fun hopen' => ?_⟩
  have hs : ¬frame.IsStart := fun hs => hs.not_isData hd
  by_cases hopen : r.fw.imgInitialized=true
  · obtain ⟨⟨herase,hwrites⟩,upload,hu,hpayload,hannounced⟩ := hr.current hopen
    obtain ⟨hstream,-⟩ := hr.streaming hopen herase hwrites
    have hlength := (flushed_image hF hr.streaming hopen herase hwrites).1
    have hroom := hc.2 hd hopen
    rw [←hlength,← payload_length] at hroom
    have hok := hfault.write_ok _ _ _ hstream hroom
    obtain ⟨-,-,htotal,-,-⟩ := handleFwData_open F r.fw hopen
    have hupload : (fwStep F cfg r frame).upload=
        r.upload.map fun u => {u with payload := u.payload++frame.payload} := by
      dsimp only [fwStep,noteUpload]
      rw [if_neg fun h => hs h.1,if_pos hd]
    have hsize : (fwStep F cfg r frame).fw.totalSize=r.fw.totalSize := by
      dsimp only [fwStep]
      rw [canFwRxThread_data F cfg r.fw hd,htotal]
    rw [data_open F cfg hd hopen,hupload,hsize,hok]
    refine ⟨⟨herase,by rw [hwrites]; rfl⟩,{upload with payload := upload.payload++frame.payload},
      ?_,?_,hannounced⟩
    · rw [Option.mem_def] at hu ⊢
      rw [hu,Option.map_some]
    · dsimp only
      rw [hpayload]
  · rw [data_closed F cfg hd (Bool.eq_false_iff.mpr hopen)] at hopen'
    exact absurd hopen' hopen

/-- A fresh session is confirmed with the latest upload in the slot. -/
theorem confirm_fresh (hF : F.Lawful) (hfault : F.Faultless) (hr : FreshSession F r) :
    ConfirmFresh F cfg r frame := by
  intro hconfirm
  by_cases hc : frame.IsConfirm
  · by_cases hready : r.fw.imgInitialized=true ∧ r.fw.written=r.fw.totalSize
    · obtain ⟨hopen,htotal⟩ := hready
      obtain ⟨⟨herase,hwrites⟩,upload,hu,hpayload,hannounced⟩ := hr.current hopen
      obtain ⟨hlength,himage⟩ := flushed_image hF hr.streaming hopen herase hwrites
      refine ⟨upload,hu,?_,?_⟩
      · rw [hpayload,hannounced,hlength,htotal]
      · rw [hpayload,← himage (hfault.flush_ok _)]
        exact (confirm_requests F cfg hc hopen htotal).2
    · exact absurd hconfirm (confirm_refuses F cfg hc hready).1
  · exact absurd hconfirm (quiet_unless_confirm F cfg hc).1

/-- One frame that starts no upload over another keeps the session fresh, and
what it confirms is the latest upload. -/
theorem fresh_step (hF : F.Lawful) (hfault : F.Faultless) (r : FwRun δ) (frame : RxCanFrame)
    (hr : FreshSession F r) (hc : StartsFresh F cfg r frame) :
    FreshSession F (fwStep F cfg r frame) ∧ ConfirmFresh F cfg r frame := by
  refine ⟨?_,confirm_fresh hF hfault hr⟩
  by_cases hs : frame.IsStart
  · exact start_fresh hF hfault hs hr hc
  · by_cases hconf : frame.IsConfirm
    · refine ⟨streaming_step hF r frame hr.streaming,fun hopen => ?_⟩
      exact absurd ((confirm_closed hconf).symm.trans hopen) Bool.false_ne_true
    · by_cases hd : frame.IsData
      · exact data_fresh hF hfault hd hr hc
      · obtain ⟨hstream,hlog,hupload⟩ := passive_spec hs hconf hd hr.streaming
        refine ⟨hstream,?_⟩
        rw [hlog,hupload]
        rcases (canFwRxThread_passive F cfg r.fw hs hconf hd).session with hclosed | ⟨hsame,htotal⟩
        · intro hopen
          exact absurd (hclosed.symm.trans hopen) Bool.false_ne_true
        · dsimp only [fwStep]
          rw [hsame.imgInitialized,htotal]
          exact hr.current

/-- On a faultless device, a run from boot in which no upload is started over
another and none exceeds the slot confirms only the latest upload. -/
theorem confirmFresh_runs (hF : F.Lawful) (hfault : F.Faultless) (device : δ)
    (frames : List RxCanFrame)
    (h : AlongRun (fwStep F cfg) (StartsFresh F cfg) (.boot device) frames) :
    AlongRun (fwStep F cfg) (ConfirmFresh F cfg) (.boot device) frames :=
  alongRun_of_invariant (fresh_step hF hfault)
    ⟨streaming_boot device,fun hopen => absurd hopen Bool.false_ne_true⟩ h

/-- A repeated start before any data, then a complete upload. -/
theorem confirmFresh_runs_repeated :
    AlongRun (fwStep (ramFlash 64) .plain) (ConfirmFresh (ramFlash 64) .plain)
      (.boot ⟨List.replicate 64 0,none⟩)
      [commandFrame fwCmdStartUpdate 16,commandFrame fwCmdStartUpdate 8,dataFrame 1,
        commandFrame fwCmdConfirm 1] :=
  confirmFresh_runs (ramFlash_lawful (by decide)) (ramFlash_faultless 64) _ _ (by decide +kernel)

/-- A start command amid an upload is answered as accepted, but the upload goes
on: half an image more and the confirmation covers both. -/
theorem confirmFresh_fails :
    ¬AlongRun (fwStep (ramFlash 64) .plain) (ConfirmFresh (ramFlash 64) .plain)
      (.boot ⟨List.replicate 64 0,none⟩)
      [commandFrame fwCmdStartUpdate 16,dataFrame 1,commandFrame fwCmdStartUpdate 16,dataFrame 2,
        commandFrame fwCmdConfirm 1] := by
  rintro ⟨-,-,-,-,hconfirm,-⟩
  obtain ⟨upload,hu,hlength,-⟩ := hconfirm ⟨0x55AA55AA,by decide +kernel⟩
  have hlatest : upload=⟨16,List.replicate 8 2⟩ :=
    Option.mem_unique hu (by decide +kernel)
  rw [hlatest] at hlength
  revert hlength
  decide

end Runs

end ZephyrApp.CanFwUpgrade

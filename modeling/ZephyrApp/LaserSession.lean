import ZephyrApp.EventRuns
import ZephyrApp.LaserFirmware

/-!
# Upgrade sessions of the laser controller

Runs of the controller over arbitrary frames, with a record of the latest start
command kept beside the statics: what it announced, whether it was accepted,
whether every write and flush since has succeeded, and the bytes written. As
long as nothing has failed, the image context counts those bytes. From this
follows when an upgrade is asked for only at the end of a session.
-/

namespace ZephyrApp.LaserFirmware

open MachineBytes CanFrames FlashReadback EventRuns
open CanFwUpgrade (RxCanFrame FlashCall commandFrame dataFrame)

/-- What is known since the latest start command. -/
structure LaserSession where
  /-- The size it announced. -/
  announced : Word
  /-- Whether it was answered with offset 0. -/
  accepted : Bool
  /-- Whether every write and flush since it has succeeded. -/
  intact : Bool
  /-- The bytes of the data frames written since. -/
  written : ℕ
  deriving DecidableEq

/-- Whether a call of the flash layer succeeded; other actions count as such. -/
def LaserAction.succeeded : LaserAction → Bool
  | .flash _ ok => ok
  | _ => true

/-- Keep the record over one frame. A restart ends it. -/
def noteSession (session : Option LaserSession) (frame : RxCanFrame)
    (actions : List LaserAction) : Option LaserSession :=
  let ok := actions.all LaserAction.succeeded
  if .reboot∈actions then none
  else if IsStart frame then some ⟨frame.data32 1,decide (.reply .offset 0∈actions),true,0⟩
  else session.map fun u => {u with
    intact := u.intact && ok
    written := if IsData frame ∧ ok=true then u.written+frame.payload.length else u.written}

/-- The controller with the record. -/
structure LaserRun (δ : Type) where
  /-- The statics and the device. -/
  msg : ImageFwMsg δ
  /-- The session since the latest start command. -/
  session : Option LaserSession

/-- A run from boot, with nothing recorded. -/
def LaserRun.booted {δ : Type} (device : δ) : LaserRun δ := ⟨.boot device,none⟩

/-- The latest start command was answered with offset 0. -/
def LaserRun.IsOpen {δ : Type} (r : LaserRun δ) : Prop := ∃ u∈r.session,u.accepted=true

section Runs

variable {δ : Type} (F : ReadableImage δ) (v : LaserVersions)

/-- One frame, recorded. -/
def laserStep (r : LaserRun δ) (frame : RxCanFrame) : LaserRun δ :=
  let report := fwUpdate F v r.msg frame
  ⟨report.state,noteSession r.session frame report.actions⟩

/-- At one frame, the upgrade is asked for only when the latest start command
was answered with offset 0, every write and flush since has succeeded, the last
flush included, and exactly the announced number of bytes was written. Without
such a start command a confirm command or data frame is refused, and the slot is
as before. -/
structure Gated (r : LaserRun δ) (frame : RxCanFrame) : Prop where
  /-- The upgrade is asked for at the end of a session only. -/
  upgrade : (∃ a∈(fwUpdate F v r.msg frame).actions,a.IsUpgrade) →
    ∃ u∈r.session,u.accepted=true ∧ u.intact=true ∧
      .flash .imgFlush true∈(fwUpdate F v r.msg frame).actions ∧ u.written=u.announced.toNat
  /-- Without a session there is a refusal. -/
  refused : IsConfirm frame ∨ IsData frame → ¬r.IsOpen →
    (∃ a∈(fwUpdate F v r.msg frame).actions,a.IsRefusal) ∧
      F.slot (fwUpdate F v r.msg frame).state.device=F.slot r.msg.device

/-- A confirm command finds a session, and if it finds the announced size in the
flash then without a failed write or flush, its own included. A data frame finds
a session, or it has bytes and finds a blank image context. -/
structure InOrder (r : LaserRun δ) (frame : RxCanFrame) : Prop where
  /-- A confirm command comes in a session. -/
  confirm : IsConfirm frame → r.IsOpen
  /-- It does not find the announced size in the flash after a failure. -/
  undamaged : IsConfirm frame →
    r.msg.totalSize=BitVec.ofNat 32 (F.bytesWritten (F.imgFlush r.msg.device).2) →
      (∃ u∈r.session,u.intact=true) ∧ (F.imgFlush r.msg.device).1=true
  /-- A data frame comes in a session, or the image context refuses it. -/
  data : IsData frame → r.IsOpen ∨ F.Blank r.msg.device ∧ frame.payload≠[]

/-- As long as nothing has failed in an open session, the image context counts
its bytes. -/
def Counting (r : LaserRun δ) : Prop :=
  ∀ u∈r.session,u.accepted=true → u.intact=true →
    F.Holding r.msg.device u.written ∧ r.msg.totalSize=u.announced

variable {F v} {r : LaserRun δ} {frame : RxCanFrame}

/-- A boot has no session. -/
theorem counting_boot (device : δ) : Counting F (.booted device) :=
  fun u hu => absurd hu (Option.not_mem_none u)

/-- Counting survives a frame that is no start command, if it does in the
recorded session. -/
theorem counting_note {state : ImageFwMsg δ} {actions : List LaserAction}
    (hs : ¬IsStart frame)
    (hkeep : ∀ u∈r.session,u.accepted=true → u.intact=true →
      actions.all LaserAction.succeeded=true →
        F.Holding state.device (if IsData frame then u.written+frame.payload.length
          else u.written) ∧ state.totalSize=u.announced) :
    Counting F ⟨state,noteSession r.session frame actions⟩ := by
  intro w hw haccepted hintact
  dsimp only [noteSession] at hw
  by_cases hreboot : .reboot∈actions
  · rw [if_pos hreboot] at hw
    exact absurd hw (Option.not_mem_none w)
  · rw [if_neg hreboot,if_neg hs] at hw
    obtain ⟨u,hu,rfl⟩ := Option.mem_map.mp hw
    dsimp only at haccepted hintact ⊢
    rw [Bool.and_eq_true] at hintact
    have hnext := hkeep u hu haccepted hintact.1 hintact.2
    simp only [hintact.2,and_true]
    exact hnext

/-- A start command begins a session or none. -/
theorem start_counting (hF : F.Counted) (hs : IsStart frame) :
    Counting F (laserStep F v r frame) := by
  intro w hw haccepted hintact
  dsimp only [laserStep,noteSession] at hw ⊢
  rw [fwUpdate_start F v r.msg hs] at hw ⊢
  have hcase := handleStart_cases F r.msg frame
  generalize handleStart F r.msg frame=report at hw hcase ⊢
  rw [if_pos hs] at hw
  split at hw
  · exact absurd hw (Option.not_mem_none w)
  · obtain rfl := Option.some.inj hw
    cases hcase with
    | ignored why => simp at haccepted
    | failed device calls flash =>
      have hoffset := of_decide_eq_true haccepted
      simp only [List.mem_cons,List.mem_append,List.not_mem_nil,or_false,reduceCtorEq,false_or,
        LaserAction.reply.injEq,false_and] at hoffset
      obtain ⟨call,ok,he⟩ := flash _ hoffset
      cases he
    | opened full init erase => exact ⟨hF.erase_ok _ _ (hF.init_ok _ init) erase,rfl⟩

/-- A confirm command keeps the count of an undamaged session. -/
theorem confirm_counting (hF : F.Counted) (hr : Counting F r) (hs : ¬IsStart frame)
    (hd : ¬IsData frame) (hc : IsConfirm frame) : Counting F (laserStep F v r frame) := by
  refine counting_note hs fun u hu haccepted hintact hok => ?_
  obtain ⟨hholding,htotal⟩ := hr u hu haccepted hintact
  rw [fwUpdate_confirm F v r.msg hc,handleConfirm] at hok ⊢
  dsimp only at hok ⊢
  rw [if_neg hd]
  split at hok
  · rename_i hdiff
    have hflush : (F.imgFlush r.msg.device).1=true := by
      simpa [LaserAction.succeeded] using hok
    rw [if_pos hdiff]
    exact ⟨(hF.flush_ok _ _ hholding hflush).1,htotal⟩
  · rename_i hsame
    have hflush : (F.imgFlush r.msg.device).1=true := by
      simpa [LaserAction.succeeded] using hok
    rw [if_neg hsame]
    exact ⟨hF.boot_ok _ _ _ (hF.flush_ok _ _ hholding hflush).1,htotal⟩

/-- A data frame adds to the count of an undamaged session. -/
theorem data_counting (hF : F.Counted) (hr : Counting F r) (hs : ¬IsStart frame)
    (hd : IsData frame) : Counting F (laserStep F v r frame) := by
  refine counting_note hs fun u hu haccepted hintact hok => ?_
  obtain ⟨hholding,htotal⟩ := hr u hu haccepted hintact
  rw [fwUpdate_data F v r.msg hd] at hok ⊢
  obtain ⟨hdevice,hsize,hcall,-⟩ := handleData_kept F r.msg frame
  have hwrote : (F.imgWrite r.msg.device frame.payload).1=true :=
    List.all_eq_true.mp hok _ hcall
  rw [if_pos hd,hdevice,hsize]
  exact ⟨hF.write_ok _ _ _ hholding hwrote,htotal⟩

/-- Every frame keeps the count. -/
theorem counting_step (hF : F.Counted) (hr : Counting F r) (frame : RxCanFrame) :
    Counting F (laserStep F v r frame) := by
  by_cases hs : IsStart frame
  · exact start_counting hF hs
  · by_cases hd : IsData frame
    · exact data_counting hF hr hs hd
    · by_cases hc : IsConfirm frame
      · exact confirm_counting hF hr hs hd hc
      · obtain ⟨-,hkept | hrestart⟩ := fwUpdate_other F v r.msg hs hc hd
        · refine counting_note hs fun u hu haccepted hintact hok => ?_
          rw [if_neg hd,hkept.1]
          exact hr u hu haccepted hintact
        · intro w hw
          dsimp only [laserStep,noteSession] at hw
          rw [if_pos hrestart.2] at hw
          exact absurd hw (Option.not_mem_none w)

/-- A confirm command in order asks for the upgrade at the end of a session
only. -/
theorem confirm_gated (hF : F.Counted) (hr : Counting F r) (hc : IsConfirm frame)
    (h : InOrder F r frame) : Gated F v r frame := by
  obtain ⟨u,hu,haccepted⟩ := h.confirm hc
  refine ⟨?_,fun _ hclosed => absurd (h.confirm hc) hclosed⟩
  rw [fwUpdate_confirm F v r.msg hc,handleConfirm]
  dsimp only
  split
  · rintro ⟨a,ha,hupgrade⟩
    simp only [List.mem_cons,List.not_mem_nil,or_false] at ha
    rcases ha with rfl | rfl
    · exact absurd hupgrade id
    · cases hupgrade
  · rename_i hsame
    rw [not_not] at hsame
    obtain ⟨⟨w,hw,hintact⟩,hflush⟩ := h.undamaged hc hsame
    obtain rfl := Option.mem_unique hu hw
    obtain ⟨hholding,htotal⟩ := hr u hu haccepted hintact
    obtain ⟨hafter,hcount⟩ := hF.flush_ok _ _ hholding hflush
    have hle := hF.holding_le _ _ hholding
    have hlt := hF.slotSize_lt
    intro _
    refine ⟨u,hu,haccepted,hintact,?_,?_⟩
    · rw [hflush]
      exact List.mem_cons_self
    · rw [←htotal,hsame,hcount,word_toNat (by omega)]

/-- A data frame in order asks for no upgrade, and without a session it is
refused by the blank image context. -/
theorem data_gated (hblank : F.Clears) (hd : IsData frame)
    (h : InOrder F r frame) : Gated F v r frame := by
  obtain ⟨-,-,-,hquiet⟩ := handleData_kept F r.msg frame
  refine ⟨?_,fun _ hclosed => ?_⟩
  · rintro ⟨a,ha,hupgrade⟩
    rw [fwUpdate_data F v r.msg hd] at ha
    exact absurd hupgrade (hquiet a ha)
  · obtain ⟨hb,hbytes⟩ := (h.data hd).resolve_left hclosed
    obtain ⟨hfail,hslot,-⟩ := hblank.blank_write _ _ hb hbytes
    rw [fwUpdate_data F v r.msg hd,handleData_failed F r.msg hfail]
    exact ⟨⟨_,List.mem_cons_of_mem _ List.mem_cons_self,Or.inl rfl⟩,hslot⟩

/-- A frame in order is gated. -/
theorem gated_step (hF : F.Counted) (hblank : F.Clears) (r : LaserRun δ) (frame : RxCanFrame)
    (hr : Counting F r) (h : InOrder F r frame) :
    Counting F (laserStep F v r frame) ∧ Gated F v r frame := by
  refine ⟨counting_step hF hr frame,?_⟩
  by_cases hc : IsConfirm frame
  · exact confirm_gated hF hr hc h
  · by_cases hd : IsData frame
    · exact data_gated hblank hd h
    · refine ⟨?_,fun hcd => absurd hcd (not_or.mpr ⟨hc,hd⟩)⟩
      rintro ⟨a,ha,hupgrade⟩
      by_cases hs : IsStart frame
      · rw [fwUpdate_start F v r.msg hs] at ha
        exact absurd hupgrade (handleStart_quiet F r.msg frame a ha)
      · exact absurd hupgrade ((fwUpdate_other F v r.msg hs hc hd).1 a ha)

variable (v) in
/-- From boot on, a run whose confirm commands and data frames are in order asks
for the upgrade at the end of a session only, and refuses what comes without
one. -/
theorem gated_runs (hF : F.Counted) (hblank : F.Clears) (device : δ) (frames : List RxCanFrame)
    (h : AlongRun (laserStep F v) (InOrder F) (.booted device) frames) :
    AlongRun (laserStep F v) (Gated F v) (.booted device) frames :=
  alongRun_of_invariant (gated_step hF hblank) (counting_boot device) h

/-- A data frame too early, then a complete upload of one frame. -/
theorem gated_runs_eight :
    AlongRun (laserStep (bufferedFlash 8) ⟨0,0⟩) (Gated (bufferedFlash 8) ⟨0,0⟩)
      (.booted ⟨List.replicate 8 0,none,0⟩)
      [dataFrame 1,commandFrame boardStartUpdate 8,dataFrame 1,commandFrame boardConfirm 1] := by
  refine gated_runs ⟨0,0⟩ (bufferedFlash_counted (by decide)) (bufferedFlash_clears 8) _ _
    ⟨⟨fun h => absurd h (by decide),fun h => absurd h (by decide),fun _ => Or.inr ⟨rfl,by decide⟩⟩,
      ⟨fun h => absurd h (by decide),fun h => absurd h (by decide),fun h => absurd h (by decide)⟩,
      ⟨fun h => absurd h (by decide),fun h => absurd h (by decide),fun _ => Or.inl ?_⟩,
      ⟨fun _ => ?_,fun _ _ => ⟨?_,rfl⟩,fun h => absurd h (by decide)⟩,trivial⟩
  · exact ⟨⟨8,true,true,0⟩,by decide +kernel,rfl⟩
  · exact ⟨⟨8,true,true,8⟩,by decide +kernel,rfl⟩
  · exact ⟨⟨8,true,true,8⟩,by decide +kernel,rfl⟩

/-- A slot in memory whose erase fails. -/
def unerasable (n : ℕ) : ReadableImage BufferedFlash :=
  {bufferedFlash n with areaErase := fun d => (false,d)}

/-- When the erase fails the start command is refused, but the announced size
and the bytes written are both 0, and the next confirm command asks for the
upgrade. -/
theorem gated_fails :
    (unerasable 8).Counted ∧ (unerasable 8).Clears ∧
      ¬AlongRun (laserStep (unerasable 8) ⟨0,0⟩) (Gated (unerasable 8) ⟨0,0⟩)
        (.booted ⟨List.replicate 8 0,none,0⟩)
        [commandFrame boardStartUpdate 8,commandFrame boardConfirm 1] := by
  have hF : (bufferedFlash 8).Counted := bufferedFlash_counted (by decide)
  have hblank := bufferedFlash_clears 8
  refine ⟨⟨hF.slotSize_lt,hF.init_ok,fun _ _ _ h => absurd h Bool.false_ne_true,hF.write_ok,
    hF.holding_le,hF.flush_ok,hF.boot_ok⟩,⟨hblank.clear_blank,hblank.blank_write⟩,?_⟩
  rintro ⟨-,hgated,-⟩
  obtain ⟨u,hu,haccepted,-⟩ := hgated.upgrade ⟨.bootRequest 1 true,by decide +kernel,trivial⟩
  have hsession : (laserStep (unerasable 8) ⟨0,0⟩ (.booted ⟨List.replicate 8 0,none,0⟩)
      (commandFrame boardStartUpdate 8)).session=some ⟨8,false,true,0⟩ := by decide +kernel
  rw [hsession] at hu
  obtain rfl := Option.some.inj hu
  cases haccepted

end Runs

end ZephyrApp.LaserFirmware

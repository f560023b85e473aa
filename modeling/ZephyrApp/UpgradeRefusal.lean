import ZephyrApp.BootloaderExchange
import ZephyrApp.LaserFirmware
import ZephyrApp.UpgradeExchange

/-!
# Refused starts

What the tool on the host makes of the reply to its start message. It takes a
reply for a refusal only when the code is not offset and the value is not 0.
The upgrade library, the bootloader and the laser controller refuse a start in
many ways, but always with the value 0, so that the tool never notices.
-/

namespace ZephyrApp.UpgradeRefusal

open MachineBytes CanFrames FlashSlots FlashPages FlashReadback LockStep UpgradeHost
open CanFwUpgrade (RxCanFrame FwCode FwConfig FwState canFwRxThread commandFrame)
open Bootloader (BootState BootReport)
open LaserFirmware (LaserAction LaserCode LaserVersions ImageFwMsg)

/-- The reply that an action of the laser controller puts on the bus. -/
def laserReplyOf : LaserAction → Option Reply
  | .reply code offset => some (code.number,offset)
  | _ => none

/-- A reply to a start command, of any length and in any state, by one of the
devices that the tool upgrades. -/
inductive StartReply : Reply → Prop
  /-- The upgrade library. -/
  | library {δ : Type} (F : FlashImage δ) (cfg : FwConfig) (s : FwState δ) {frame : RxCanFrame}
      {reply : Reply} (start : frame.IsStart)
      (sent : reply∈(canFwRxThread F cfg s frame).actions.filterMap UpgradeExchange.replyOf) :
      StartReply reply
  /-- The bootloader. -/
  | bootloader {δ : Type} (F : PagedFlash δ) (appVersion : Word) (s : BootState δ)
      {frame : RxCanFrame} {report : BootReport δ} {reply : Reply}
      (command : frame.id=Bootloader.canIdPlatformRx)
      (start : frame.data32 0=Bootloader.boardStartUpdate)
      (handled : Bootloader.fwUpdate F appVersion s frame=some report)
      (sent : reply∈report.actions.filterMap BootloaderExchange.responseOf) : StartReply reply
  /-- The laser controller. -/
  | laser {δ : Type} (F : ReadableImage δ) (v : LaserVersions) (msg : ImageFwMsg δ)
      {frame : RxCanFrame} {reply : Reply} (start : LaserFirmware.IsStart frame)
      (sent : reply∈(LaserFirmware.fwUpdate F v msg frame).actions.filterMap laserReplyOf) :
      StartReply reply

/-- After this reply to its start message the tool sends no frame any more. -/
def AbortsOn (file : List Byte) (test : Bool) (reply : Reply) : Prop :=
  ∀ next,firmwareUpgrade file test .awaitStart=.receive next →
    Quits (firmwareUpgrade file test) (next reply)

section Host

variable (file : List Byte) (test : Bool)

/-- At the head of its loop the tool always sends a frame. -/
theorem upload_continues : ¬Quits (firmwareUpgrade file test) (.upload 0) := by
  intro hquits
  have hnot := hquits _ .refl
  by_cases hnil : chunkAt file 0=[]
  · exact hnot _ _ (by rw [firmwareUpgrade,if_pos hnil])
  · exact hnot _ _ (by rw [firmwareUpgrade,if_neg hnil])

/-- The tool stops exactly after the replies that it takes for a refusal. -/
theorem abortsOn_iff (reply : Reply) :
    AbortsOn file test reply ↔ reply.1≠fwCodeOffset ∧ reply.2≠0 := by
  constructor
  · intro habort
    by_contra haccept
    have hquits := habort _ rfl
    have hgo : ¬startRefused reply=true := fun h => haccept (of_decide_eq_true h)
    rw [if_neg hgo] at hquits
    exact upload_continues file test hquits
  · intro hrefused next hnext
    obtain rfl := Move.receive.inj hnext
    have hstop : startRefused reply=true := decide_eq_true hrefused
    dsimp only
    rw [if_pos hstop]
    exact quits_of_done rfl

end Host

section Devices

variable {reply : Reply}

/-- A reply has the value 0 when all those of the actions have it. -/
theorem value_of_sent {α : Type*} {f : α → Option Reply} {actions : List α}
    (hvalue : ∀ a∈actions,∀ r∈f a,r.2=0) (h : reply∈actions.filterMap f) : reply.2=0 := by
  obtain ⟨a,ha,hreply⟩ := List.mem_filterMap.mp h
  exact hvalue a ha reply hreply

/-- The upgrade library answers every start command with the value 0. -/
theorem library_start_value {δ : Type} {F : FlashImage δ} {cfg : FwConfig} {s : FwState δ}
    {frame : RxCanFrame} (hs : frame.IsStart)
    (h : reply∈(canFwRxThread F cfg s frame).actions.filterMap UpgradeExchange.replyOf) :
    reply.2=0 := by
  refine value_of_sent (fun a ha => ?_) h
  rw [CanFwUpgrade.canFwRxThread_start F cfg s hs] at ha
  have hcase := CanFwUpgrade.handleStart_cases F cfg s frame
  generalize CanFwUpgrade.handleStart F cfg s frame=report at ha hcase
  cases hcase with
  | refused state code same total error =>
    rw [List.mem_singleton.mp ha]
    simp [UpgradeExchange.replyOf]
  | failed state calls closed flash =>
    rcases List.mem_append.mp ha with hcall | hreply
    · obtain ⟨call,ok,rfl⟩ := flash a hcall
      simp [UpgradeExchange.replyOf]
    · rw [List.mem_singleton.mp hreply]
      simp [UpgradeExchange.replyOf]
  | continued state size gate isOpen same total =>
    rw [List.mem_singleton.mp ha]
    simp [UpgradeExchange.replyOf]
  | opened state device init isOpen started fresh total =>
    simp only [List.mem_cons,List.not_mem_nil,or_false] at ha
    rcases ha with rfl | rfl | rfl | rfl <;> simp [UpgradeExchange.replyOf]

/-- The bootloader answers every start command with the value 0. -/
theorem bootloader_start_value {δ : Type} {F : PagedFlash δ} {appVersion : Word} {s : BootState δ}
    {frame : RxCanFrame} {report : BootReport δ} (hid : frame.id=Bootloader.canIdPlatformRx)
    (hs : frame.data32 0=Bootloader.boardStartUpdate)
    (hreport : Bootloader.fwUpdate F appVersion s frame=some report)
    (h : reply∈report.actions.filterMap BootloaderExchange.responseOf) : reply.2=0 := by
  refine value_of_sent (fun a ha => ?_) h
  rw [Bootloader.fwUpdate,if_pos hid,if_pos hs] at hreport
  obtain rfl := Option.some.inj hreport
  by_cases hsize : canDlcToBytes frame.dlc=8
  · rw [Bootloader.handleStart_eq F s hsize] at ha
    rcases List.mem_append.mp ha with herase | hreply
    · obtain ⟨start,size,ok,rfl⟩ := Bootloader.eraseLoop_erases a herase
      simp [BootloaderExchange.responseOf]
    · rw [List.mem_singleton.mp hreply]
      split
      · simp [BootloaderExchange.responseOf]
      · simp [BootloaderExchange.responseOf]
  · rw [Bootloader.handleStart,if_pos hsize] at ha
    rw [List.mem_singleton.mp ha]
    simp [BootloaderExchange.responseOf]

/-- The laser controller answers every start command with the value 0. -/
theorem laser_start_value {δ : Type} {F : ReadableImage δ} {v : LaserVersions} {msg : ImageFwMsg δ}
    {frame : RxCanFrame} (hs : LaserFirmware.IsStart frame)
    (h : reply∈(LaserFirmware.fwUpdate F v msg frame).actions.filterMap laserReplyOf) :
    reply.2=0 := by
  refine value_of_sent (fun a ha => ?_) h
  rw [LaserFirmware.fwUpdate_start F v msg hs] at ha
  have hcase := LaserFirmware.handleStart_cases F msg frame
  generalize LaserFirmware.handleStart F msg frame=report at ha hcase
  cases hcase with
  | ignored why =>
    simp only [List.mem_cons,List.not_mem_nil,or_false] at ha
    rcases ha with rfl | rfl | rfl <;> simp [laserReplyOf]
  | failed device calls flash =>
    simp only [List.mem_cons,List.mem_append,List.not_mem_nil,or_false] at ha
    rcases ha with rfl | hcall | rfl | rfl
    · simp [laserReplyOf]
    · obtain ⟨call,ok,rfl⟩ := flash a hcall
      simp [laserReplyOf]
    · simp [laserReplyOf]
    · simp [laserReplyOf]
  | opened full init erase =>
    simp only [List.mem_cons,List.not_mem_nil,or_false] at ha
    rcases ha with rfl | rfl | rfl | rfl <;> simp [laserReplyOf]

/-- Every device answers every start command with the value 0. -/
theorem startReply_value (h : StartReply reply) : reply.2=0 := by
  cases h with
  | library F cfg s start sent => exact library_start_value start sent
  | bootloader F appVersion s command start handled sent =>
    exact bootloader_start_value command start handled sent
  | laser F v msg start sent => exact laser_start_value start sent

/-- The tool goes on after every refusal of its start message: it stops only
after a reply whose code and value are both different from 0, and no device
answers a start command in that way. -/
theorem startRefusal_ignored (file : List Byte) (test : Bool) (reply : Reply) :
    (AbortsOn file test reply ↔ reply.1≠fwCodeOffset ∧ reply.2≠0) ∧
      (StartReply reply → reply≠(fwCodeOffset,0) → ¬AbortsOn file test reply) :=
  ⟨abortsOn_iff file test reply,fun hreply _ habort =>
    ((abortsOn_iff file test reply).mp habort).2 (startReply_value hreply)⟩

/-- The upgrade library refuses a start command when its area does not open. -/
theorem startReply_flashError : StartReply (FwCode.flashError.number,0) := by
  refine .library (ramFlash 64).scripted .plain (.boot (⟨List.replicate 64 0,none⟩,[false]))
    ⟨rfl,(startMessage_words [1]).1⟩ ?_
  decide +kernel

/-- A start message refused for its area, and a file of one byte. -/
theorem startRefusal_ignored_one :
    (AbortsOn [1] false (FwCode.flashError.number,0) ↔
        FwCode.flashError.number≠fwCodeOffset ∧ (0 : Word)≠0) ∧
      ¬AbortsOn [1] false (FwCode.flashError.number,0) :=
  have h := startRefusal_ignored [1] false (FwCode.flashError.number,0)
  ⟨h.1,h.2 startReply_flashError (by decide)⟩

/-- After a refused start the tool still sends its data message. -/
theorem startRefusal_fails :
    StartReply (FwCode.flashError.number,0) ∧ (FwCode.flashError.number,0)≠(fwCodeOffset,0) ∧
      ¬AbortsOn [1] false (FwCode.flashError.number,0) :=
  ⟨startReply_flashError,by decide,fun habort =>
    ((abortsOn_iff [1] false _).mp habort).2 rfl⟩

end Devices

end ZephyrApp.UpgradeRefusal

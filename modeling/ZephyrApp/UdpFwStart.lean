import ZephyrApp.EventRuns
import ZephyrApp.UdpFwUpgrade

/-!
# Answers to the start command over UDP

A start is honest if it is accepted only over a slot that was opened, erased and
begun, and if a refused one leaves the session and the slot alone unless the
erase was attempted. The erase may fail unnoticed, and the announced size is
stored before the key hash is compared and the slot opened. A run is honest in
exactly those runs whose starts meet neither.
-/

namespace ZephyrApp.UdpFwUpgrade

open MachineBytes FlashSlots FlashReadback EventRuns
open CanFwUpgrade (FwConfig fwKeyhashKeyLen)

variable {δ : Type} (F : ReadableImage δ) (cfg : FwConfig)

/-- The statics and the device after a command. -/
def fwNext (s : UdpState δ) (c : UdpCmd) : UdpState δ := (handleFwCmd F cfg s c).state

/-- The slot of a device was opened and completely erased, and an image begun. -/
structure SlotBegun (d : δ) : Prop where
  /-- It was opened. -/
  opened : (F.areaOpen d).1=true
  /-- It was erased. -/
  erased : (F.areaErase (F.areaOpen d).2).1=true
  /-- Every byte of it is erased. -/
  blank : F.slot (F.areaErase (F.areaOpen d).2).2=List.replicate F.slotSize 0xFF
  /-- The image was begun. -/
  begun : (F.imgInit (F.areaErase (F.areaOpen d).2).2).1=true

/-- Session and slot are as before. -/
structure Untouched (s t : UdpState δ) : Prop where
  /-- `fw_started`. -/
  started : t.started=s.started
  /-- `fw_size`. -/
  size : t.size=s.size
  /-- `fw_received`. -/
  received : t.received=s.received
  /-- The bytes of the slot. -/
  slot : F.slot t.device=F.slot s.device

/-- A start command is accepted only over a slot that was begun, and otherwise
leaves everything untouched unless an erase was attempted. -/
def StartHonest (s : UdpState δ) (c : UdpCmd) : Prop :=
  c.cmd=fwCmdStart →
    if UdpAction.reply fwCmdStart [fwStartOk]∈(handleFwCmd F cfg s c).actions then
      SlotBegun F s.device
    else (∃ ok,UdpAction.flash .areaErase ok∈(handleFwCmd F cfg s c).actions) ∨
      Untouched F s (fwNext F cfg s c)

/-- A start command that is not refused at once announces the size announced
before if it is refused for its key hash or finds no slot; otherwise its erase
succeeds, or no image is begun. -/
def StartSteady (s : UdpState δ) (c : UdpCmd) : Prop :=
  c.cmd=fwCmdStart → s.started=false → 4≤c.data.length →
    if keyhashMismatch cfg c.data=true ∨ (F.areaOpen s.device).1=false then
      s.size=sysGetLe32 c.data 0
    else (F.areaErase (F.areaOpen s.device).2).1=true ∨
      (F.imgInit (F.areaErase (F.areaOpen s.device).2).2).1=false

instance (s : UdpState δ) (c : UdpCmd) : Decidable (StartSteady F cfg s c) :=
  inferInstanceAs (Decidable (_ → _ → _ → ite _ _ _))

variable {F cfg} {s : UdpState δ} {c : UdpCmd}

/-- A start command is handled as such. -/
theorem handleFwCmd_start (hc : c.cmd=fwCmdStart) :
    handleFwCmd F cfg s c=handleStart F cfg s c.data := by
  rw [handleFwCmd,if_pos hc]

/-- A start that is refused at once leaves everything untouched. -/
theorem startHonest_refused (hc : c.cmd=fwCmdStart) (h : s.started=true ∨ c.data.length<4) :
    StartHonest F cfg s c := by
  intro _
  rw [fwNext,handleFwCmd_start hc,handleStart,if_pos h,
    if_neg (by simp [fwStartErrFail,fwStartOk])]
  exact Or.inr ⟨rfl,rfl,rfl,rfl⟩

/-- A start of enough bytes outside a session is not refused at once. -/
theorem not_refused (hclosed : s.started=false) (hlong : 4≤c.data.length) :
    ¬(s.started=true ∨ c.data.length<4) := by
  rw [hclosed]
  simpa using hlong

/-- A refused start that stores a size and attempts no erase is honest exactly if
the size was stored before. -/
theorem startHonest_stored {size : Word} {d : δ} {actions : List UdpAction}
    (hc : c.cmd=fwCmdStart)
    (hrun : handleFwCmd F cfg s c=⟨{s with size := size,device := d},actions,true⟩)
    (hrefused : UdpAction.reply fwCmdStart [fwStartOk]∉actions)
    (hkept : ∀ ok,UdpAction.flash .areaErase ok∉actions) (hslot : F.slot d=F.slot s.device) :
    StartHonest F cfg s c ↔ s.size=size := by
  rw [StartHonest,fwNext,hrun]
  dsimp only
  rw [if_neg hrefused]
  constructor
  · intro h
    rcases h hc with ⟨ok,herase⟩ | huntouched
    · exact absurd herase (hkept ok)
    · exact huntouched.size.symm
  · exact fun hsize _ => Or.inr ⟨rfl,hsize.symm,rfl,hslot⟩

/-- A start that is refused for its key hash has only stored the size. -/
theorem startHonest_mismatch (hc : c.cmd=fwCmdStart) (hclosed : s.started=false)
    (hlong : 4≤c.data.length) (hkey : keyhashMismatch cfg c.data=true) :
    StartHonest F cfg s c ↔ s.size=sysGetLe32 c.data 0 := by
  have hrun : handleFwCmd F cfg s c=
      ⟨{s with size := sysGetLe32 c.data 0},[.reply fwCmdStart [fwStartErrKeyhash]],true⟩ := by
    rw [handleFwCmd_start hc,handleStart,if_neg (not_refused hclosed hlong)]
    dsimp only
    rw [if_pos hkey]
  exact startHonest_stored hc hrun (by simp [fwStartErrKeyhash,fwStartOk]) (by simp) rfl

/-- A start that finds no slot has only stored the size. -/
theorem startHonest_unopened (hopen : ∀ d,F.slot (F.areaOpen d).2=F.slot d)
    (hc : c.cmd=fwCmdStart) (hclosed : s.started=false) (hlong : 4≤c.data.length)
    (hkey : ¬keyhashMismatch cfg c.data=true) (hfail : (F.areaOpen s.device).1=false) :
    StartHonest F cfg s c ↔ s.size=sysGetLe32 c.data 0 := by
  have hrun : handleFwCmd F cfg s c=
      ⟨{s with size := sysGetLe32 c.data 0,device := (F.areaOpen s.device).2},
        [.flash .areaOpen false,.reply fwCmdStart [fwStartErrFail]],true⟩ := by
    rw [handleFwCmd_start hc,handleStart,if_neg (not_refused hclosed hlong)]
    dsimp only
    rw [if_neg hkey,if_pos hfail]
  exact startHonest_stored hc hrun (by simp [fwStartErrFail,fwStartOk]) (by simp) (hopen _)

/-- A start that opens the slot is honest if the erase succeeds or no image is
begun. -/
theorem startHonest_opened (hF : F.Lawful) (hc : c.cmd=fwCmdStart) (hclosed : s.started=false)
    (hlong : 4≤c.data.length) (hkey : ¬keyhashMismatch cfg c.data=true)
    (hopened : ¬(F.areaOpen s.device).1=false) :
    StartHonest F cfg s c ↔ (F.areaErase (F.areaOpen s.device).2).1=true ∨
      (F.imgInit (F.areaErase (F.areaOpen s.device).2).2).1=false := by
  rw [StartHonest,fwNext,handleFwCmd_start hc,handleStart,
    if_neg (not_refused hclosed hlong)]
  dsimp only
  rw [if_neg hkey,if_neg hopened]
  by_cases hbegun : (F.imgInit (F.areaErase (F.areaOpen s.device).2).2).1=false
  · rw [if_pos hbegun,if_neg (by simp [fwStartErrFail,fwStartOk])]
    exact iff_of_true
      (fun _ => Or.inl ⟨(F.areaErase (F.areaOpen s.device).2).1,by simp⟩) (Or.inr hbegun)
  · rw [if_neg hbegun,if_pos (by simp)]
    constructor
    · exact fun h => Or.inl (h hc).erased
    · intro h _
      have herased := h.resolve_right hbegun
      exact ⟨Bool.eq_true_of_not_eq_false hopened,herased,hF.erase_ok _ herased,
        Bool.eq_true_of_not_eq_false hbegun⟩

/-- A command is honest exactly if it is steady. -/
theorem startHonest_iff_startSteady (hF : F.Lawful)
    (hopen : ∀ d,F.slot (F.areaOpen d).2=F.slot d) (s : UdpState δ) (c : UdpCmd) :
    StartHonest F cfg s c ↔ StartSteady F cfg s c := by
  by_cases hc : c.cmd=fwCmdStart
  · by_cases hrefused : s.started=true ∨ c.data.length<4
    · refine iff_of_true (startHonest_refused hc hrefused) fun _ hclosed hlong => ?_
      rw [hclosed] at hrefused
      simp only [Bool.false_eq_true,false_or] at hrefused
      omega
    · rw [not_or,Nat.not_lt,Bool.not_eq_true] at hrefused
      obtain ⟨hclosed,hlong⟩ := hrefused
      rw [StartSteady,forall_prop_of_true hc,forall_prop_of_true hclosed,forall_prop_of_true hlong]
      by_cases hkey : keyhashMismatch cfg c.data=true
      · rw [if_pos (Or.inl hkey)]
        exact startHonest_mismatch hc hclosed hlong hkey
      · by_cases hfail : (F.areaOpen s.device).1=false
        · rw [if_pos (Or.inr hfail)]
          exact startHonest_unopened hopen hc hclosed hlong hkey hfail
        · rw [if_neg (not_or.mpr ⟨hkey,hfail⟩)]
          exact startHonest_opened hF hc hclosed hlong hkey hfail
  · exact iff_of_true (fun h => absurd h hc) (fun h => absurd h hc)

/-- In every run of commands, whatever fails, all starts are honest exactly if
all of them are steady. -/
theorem startHonest_runs (hF : F.Lawful) (hopen : ∀ d,F.slot (F.areaOpen d).2=F.slot d)
    (device : δ) (commands : List UdpCmd) :
    AlongRun (fwNext F cfg) (StartHonest F cfg) (.boot device) commands ↔
      AlongRun (fwNext F cfg) (StartSteady F cfg) (.boot device) commands :=
  alongRun_congr (I := fun _ => True) (fun _ _ _ => trivial)
    (fun s c _ => startHonest_iff_startSteady hF hopen s c) trivial commands

/-- A second start in an open session, and one that is too short. -/
theorem startHonest_runs_two :
    AlongRun (fwNext (bufferedFlash 64) .plain) (StartHonest (bufferedFlash 64) .plain)
      (.boot ⟨List.replicate 64 0,none,0⟩)
      [⟨fwCmdStart,[8]⟩,⟨fwCmdStart,[8,0,0,0]⟩,⟨fwCmdStart,[9,0,0,0]⟩] :=
  (startHonest_runs (bufferedFlash_lawful (by decide)) (fun _ => rfl) _ _).mpr (by decide +kernel)

/-- A slot of `n` bytes in memory that cannot be erased. -/
def wornFlash (n : ℕ) : ReadableImage BufferedFlash :=
  {bufferedFlash n with areaErase := fun d => (false,d)}

/-- A start is accepted although the erase failed. -/
theorem startHonest_fails :
    ¬AlongRun (fwNext (wornFlash 64) .plain) (StartHonest (wornFlash 64) .plain)
      (.boot ⟨List.replicate 64 0,none,0⟩) [⟨fwCmdStart,[8,0,0,0]⟩] := by
  rintro ⟨h,-⟩
  have hbegun := h rfl
  rw [if_pos (by decide +kernel)] at hbegun
  exact Bool.false_ne_true hbegun.erased

end ZephyrApp.UdpFwUpgrade

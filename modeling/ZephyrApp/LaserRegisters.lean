import ZephyrApp.EventRuns
import ZephyrApp.MachineBytes

/-!
# The registers of the laser controller

Fifty words are cached in memory and kept in the configuration partition. A
write changes the cache first, then erases the page and programs the cache
into it; a write of the value already cached returns at once. Every flash
operation may fail and leave any content behind, and the controller may
restart between any two calls.
-/

namespace ZephyrApp.LaserRegisters

open EventRuns MachineBytes

/-- The values of the fifty registers. -/
abbrev Regs := Fin 50 → Word

/-- The outcome of an erase or a program operation. -/
inductive FlashOutcome where
  /-- The operation succeeds. -/
  | done
  /-- The operation fails with this content left in the partition. -/
  | failed (left : Regs)

/-- The outcomes of the two operations of `laser_flash_init`. -/
inductive InitOutcome where
  /-- Opening and reading succeed. -/
  | done
  /-- The partition cannot be opened. -/
  | openFailed
  /-- Reading fails with this content left in the cache. -/
  | readFailed (left : Regs)

/-- The registers in memory and in flash. -/
structure LaserFlash where
  /-- `laser_regs`. -/
  laserRegs : Regs
  /-- `inited`. -/
  inited : Bool
  /-- `LASER_WRITE_MODE` of `laser_status`. -/
  writeMode : Bool
  /-- `LASER_FW_UPDATE` of `laser_status`. -/
  fwUpdate : Bool
  /-- The words of the partition that the registers occupy. -/
  flash : Regs

/-- `flash_area_flatten` on the page of the registers. -/
def flashAreaFlatten (s : LaserFlash) : FlashOutcome → LaserFlash×ℤ
  | .done => ({s with flash := fun _ => BitVec.allOnes 32},0)
  | .failed left => ({s with flash := left},-1)

/-- `flash_area_write` of the cache: programming clears bits of the page. -/
def flashAreaWrite (s : LaserFlash) : FlashOutcome → LaserFlash×ℤ
  | .done => ({s with flash := fun i => s.flash i &&& s.laserRegs i},0)
  | .failed left => ({s with flash := left},-1)

/-- `laser_flash_init`. -/
def laserFlashInit (s : LaserFlash) : InitOutcome → LaserFlash×ℤ
  | .openFailed => ({s with inited := false},-1)
  | .readFailed left => ({s with laserRegs := left},-1)
  | .done => ({s with laserRegs := s.flash,inited := true},0)

/-- `laser_flash_read_mode`. -/
def laserFlashReadMode (s : LaserFlash) (init : InitOutcome) : LaserFlash×ℤ :=
  let r := if s.inited then (s,0) else laserFlashInit s init
  if r.2≠0 then (r.1,-1) else ({r.1 with writeMode := false},0)

/-- `laser_flash_write_mode`. -/
def laserFlashWriteMode (s : LaserFlash) (init : InitOutcome) : LaserFlash×ℤ :=
  let r := if s.inited then (s,0) else laserFlashInit s init
  if r.2≠0 then (r.1,-1) else ({r.1 with writeMode := true},0)

/-- `laser_flash_write`. -/
def laserFlashWrite (s : LaserFlash) (address : Half) (val : Word)
    (flatten write : FlashOutcome) : LaserFlash×ℤ :=
  if s.writeMode=false ∨ s.fwUpdate=true then (s,-1)
  else if h : address.toNat < 50 then
    if s.laserRegs ⟨address.toNat,h⟩≠val then
      -- the cache is changed before the flash operations and not restored
      let s1 := {s with laserRegs := Function.update s.laserRegs ⟨address.toNat,h⟩ val}
      let r := flashAreaFlatten s1 flatten
      if r.2=0 then
        let w := flashAreaWrite r.1 write
        if w.2=0 then (w.1,0) else (w.1,-1)
      else (r.1,-1)
    else (s,0)
  else (s,-1)

/-- `laser_flash_read`, nothing for a refused read. -/
def laserFlashRead (s : LaserFlash) (address : Half) : Option Word :=
  if s.inited then
    if h : address.toNat < 50 then some (s.laserRegs ⟨address.toNat,h⟩) else none
  else none

/-- The state after power-up: the statics are zero and the flash is kept. -/
def laserBoot (flash : Regs) : LaserFlash := ⟨fun _ => 0,false,false,false,flash⟩

/-- What happens to the registers. -/
inductive LaserEvent where
  /-- `laser_flash_read_mode` is called. -/
  | readMode (init : InitOutcome)
  /-- `laser_flash_write_mode` is called. -/
  | writeMode (init : InitOutcome)
  /-- `laser_flash_write` is called. -/
  | write (address : Half) (val : Word) (flatten write : FlashOutcome)
  /-- `laser_flash_read` is called. -/
  | read (address : Half)
  /-- The firmware upgrade sets or clears its status bit. -/
  | fwUpdate (on : Bool)
  /-- The controller restarts. -/
  | restart

/-- The state after an event. -/
def laserNext (s : LaserFlash) : LaserEvent → LaserFlash
  | .readMode init => (laserFlashReadMode s init).1
  | .writeMode init => (laserFlashWriteMode s init).1
  | .write address val flatten write => (laserFlashWrite s address val flatten write).1
  | .read _ => s
  | .fwUpdate on => {s with fwUpdate := on}
  | .restart => laserBoot s.flash

/-- What an event returns of a register: the value, or nothing. -/
def laserReading (s : LaserFlash) : LaserEvent → Option (Option Word)
  | .read address => some (laserFlashRead s address)
  | _ => none

/-- What a restart and an initialisation find at an address. -/
def afterRestart (s : LaserFlash) (address : Half) : Option Word :=
  laserFlashRead (laserFlashInit (laserBoot s.flash) .done).1 address

section Writes

variable {s : LaserFlash} {address : Half} {val : Word} {flatten write : FlashOutcome}

/-- A write that is let through and changes the cache. -/
def Changes (s : LaserFlash) (address : Half) (val : Word) : Prop :=
  s.writeMode=true ∧ s.fwUpdate=false ∧ ∃ h : address.toNat < 50,s.laserRegs ⟨address.toNat,h⟩≠val

/-- The cache after a write at an address in range. -/
def stored (s : LaserFlash) (address : Half) (val : Word) : Regs :=
  fun i => if i.val=address.toNat then val else s.laserRegs i

/-- A register that is updated is the stored one. -/
theorem update_eq_stored (h : address.toNat < 50) :
    Function.update s.laserRegs ⟨address.toNat,h⟩ val=stored s address val := by
  funext i
  simp only [Function.update_apply,stored,Fin.ext_iff]

/-- A changing write whose flash operations succeed stores cache and flash. -/
theorem laserFlashWrite_done (h : Changes s address val) :
    laserFlashWrite s address val .done .done=
      ({s with laserRegs := stored s address val,flash := stored s address val},0) := by
  obtain ⟨hmode,hup,hlt,hne⟩ := h
  simp [laserFlashWrite,hmode,hup,hlt,hne,flashAreaFlatten,flashAreaWrite,update_eq_stored,
    -BitVec.reduceAllOnes]

/-- A changing write with a failing flash operation fails with the cache changed. -/
theorem laserFlashWrite_failed (h : Changes s address val)
    (hfail : ¬(flatten=.done ∧ write=.done)) :
    ∃ left,laserFlashWrite s address val flatten write=
      ({s with laserRegs := stored s address val,flash := left},-1) := by
  obtain ⟨hmode,hup,hlt,hne⟩ := h
  cases flatten with
  | failed left =>
    exact ⟨left,by simp [laserFlashWrite,hmode,hup,hlt,hne,flashAreaFlatten,update_eq_stored]⟩
  | done =>
    cases write with
    | failed left =>
      exact ⟨left,by
        simp [laserFlashWrite,hmode,hup,hlt,hne,flashAreaFlatten,flashAreaWrite,update_eq_stored]⟩
    | done => exact absurd ⟨rfl,rfl⟩ hfail

/-- Every other write keeps the state; it succeeds when the cache holds the value. -/
theorem laserFlashWrite_unchanged (flatten write : FlashOutcome) (h : ¬Changes s address val) :
    laserFlashWrite s address val flatten write=(s,-1) ∨
    laserFlashWrite s address val flatten write=(s,0) ∧ s.writeMode=true ∧
      ∃ h : address.toNat < 50,s.laserRegs ⟨address.toNat,h⟩=val := by
  by_cases hmode : s.writeMode=false ∨ s.fwUpdate=true
  · exact Or.inl (by simp only [laserFlashWrite,if_pos hmode])
  · obtain ⟨hwrite,hup⟩ := not_or.mp hmode
    rw [Bool.not_eq_false] at hwrite
    rw [Bool.not_eq_true] at hup
    by_cases hlt : address.toNat < 50
    · have hsame : s.laserRegs ⟨address.toNat,hlt⟩=val :=
        of_not_not fun hne => h ⟨hwrite,hup,hlt,hne⟩
      exact Or.inr ⟨by simp [laserFlashWrite,hwrite,hup,hlt,hsame],hwrite,hlt,hsame⟩
    · exact Or.inl (by simp [laserFlashWrite,hwrite,hup,hlt])

end Writes

section Runs

/-- What a write promises: once it returns 0 a restart finds the value, and
once it returns -1 every later run reads what it would have read without it. -/
def WriteSound (s : LaserFlash) : LaserEvent → Prop
  | .write address val flatten write =>
    let r := laserFlashWrite s address val flatten write
    (r.2=0 → afterRestart r.1 address=some val) ∧
    (r.2=-1 → ∀ later,outputs laserNext laserReading r.1 later=
      outputs laserNext laserReading s later)
  | _ => True

/-- No write that changes the cache meets a failing flash operation. -/
def FlashHolds (s : LaserFlash) : LaserEvent → Prop
  | .write address val flatten write => Changes s address val → flatten=.done ∧ write=.done
  | _ => True

/-- Write mode is only entered once the registers are read in. -/
def Enabled (s : LaserFlash) : Prop := s.writeMode=true → s.inited=true

/-- Once read in, the cache is what the flash holds. -/
def Coherent (s : LaserFlash) : Prop := Enabled s ∧ (s.inited=true → s.laserRegs=s.flash)

/-- Write mode stays behind the initialisation. -/
theorem enabled_laserNext (s : LaserFlash) (e : LaserEvent) (hs : Enabled s) :
    Enabled (laserNext s e) := by
  unfold Enabled at hs ⊢
  cases e with
  | readMode init =>
    cases hi : s.inited <;> cases init <;> simp_all [laserNext,laserFlashReadMode,laserFlashInit]
  | writeMode init =>
    cases hi : s.inited <;> cases init <;> simp_all [laserNext,laserFlashWriteMode,laserFlashInit]
  | write address val flatten write =>
    by_cases hc : Changes s address val
    · by_cases hd : flatten=.done ∧ write=.done
      · obtain ⟨rfl,rfl⟩ := hd
        simpa only [laserNext,laserFlashWrite_done hc] using hs
      · obtain ⟨left,hrun⟩ := laserFlashWrite_failed hc hd
        simpa only [laserNext,hrun] using hs
    · rcases laserFlashWrite_unchanged flatten write hc with h | ⟨h,-⟩
      · simpa only [laserNext,h] using hs
      · simpa only [laserNext,h] using hs
  | read address => exact hs
  | fwUpdate on => exact hs
  | restart => simp [laserNext,laserBoot]

/-- A step without a failing flash operation keeps cache and flash together. -/
theorem coherent_laserNext (s : LaserFlash) (e : LaserEvent) (hs : Coherent s)
    (hf : FlashHolds s e) : Coherent (laserNext s e) := by
  refine ⟨enabled_laserNext s e hs.1,?_⟩
  have hco := hs.2
  cases e with
  | readMode init =>
    cases hi : s.inited <;> cases init <;> simp_all [laserNext,laserFlashReadMode,laserFlashInit]
  | writeMode init =>
    cases hi : s.inited <;> cases init <;> simp_all [laserNext,laserFlashWriteMode,laserFlashInit]
  | write address val flatten write =>
    by_cases hc : Changes s address val
    · obtain ⟨rfl,rfl⟩ := hf hc
      simp only [laserNext,laserFlashWrite_done hc,implies_true]
    · rcases laserFlashWrite_unchanged flatten write hc with h | ⟨h,-⟩
      · simpa only [laserNext,h] using hco
      · simpa only [laserNext,h] using hco
  | read address => exact hco
  | fwUpdate on => exact hco
  | restart => simp [laserNext,laserBoot]

/-- A restart finds the register that the flash holds. -/
theorem afterRestart_eq (s : LaserFlash) {address : Half} (h : address.toNat < 50) :
    afterRestart s address=some (s.flash ⟨address.toNat,h⟩) := by
  simp [afterRestart,laserFlashInit,laserBoot,laserFlashRead,h]

/-- While cache and flash agree, a write without failing flash operations keeps its promise. -/
theorem writeSound_of_flashHolds (s : LaserFlash) (e : LaserEvent) (hs : Coherent s)
    (hf : FlashHolds s e) : WriteSound s e := by
  cases e with
  | write address val flatten write =>
    by_cases hc : Changes s address val
    · obtain ⟨rfl,rfl⟩ := hf hc
      have hrun := laserFlashWrite_done hc
      obtain ⟨-,-,hlt,-⟩ := hc
      constructor
      · intro _
        rw [hrun,afterRestart_eq _ hlt]
        simp only [stored,if_true]
      · intro h
        simp [hrun] at h
    · rcases laserFlashWrite_unchanged flatten write hc with
        h | ⟨h,hmode,hlt,hval⟩
      · constructor
        · intro h0
          simp [h] at h0
        · intro _ later
          rw [h]
      · constructor
        · intro _
          rw [h,afterRestart_eq _ hlt,←hs.2 (hs.1 hmode),hval]
        · intro h0
          simp [h] at h0
  | _ => trivial

/-- A write that breaks no promise met no failing flash operation. -/
theorem flashHolds_of_writeSound (s : LaserFlash) (e : LaserEvent) (hs : Enabled s)
    (hw : WriteSound s e) : FlashHolds s e := by
  cases e with
  | write address val flatten write =>
    intro hc
    by_contra hd
    obtain ⟨left,hrun⟩ := laserFlashWrite_failed hc hd
    obtain ⟨hmode,-,hlt,hne⟩ := hc
    -- the failed write is seen by the next read of its register
    have hread := hw.2 (by rw [hrun]) [.read address]
    simp only [hrun,outputs,laserReading,laserFlashRead,hs hmode,hlt,if_true,dif_pos,
      List.cons.injEq,Option.some.injEq,stored,and_true] at hread
    exact hne hread.symm
  | _ => trivial

/-- From power-up on, every write of a run keeps its promise exactly when no
write that changes the cache meets a failing flash operation. -/
theorem laser_writes_sound_iff (flash : Regs) (es : List LaserEvent) :
    AlongRun laserNext WriteSound (laserBoot flash) es ↔
      AlongRun laserNext FlashHolds (laserBoot flash) es := by
  have hboot : Coherent (laserBoot flash) := by
    constructor
    · exact fun h => h
    · simp [laserBoot]
  constructor
  · exact alongRun_of_invariant (fun s e hs hw =>
      ⟨enabled_laserNext s e hs,flashHolds_of_writeSound s e hs hw⟩) hboot.1
  · exact alongRun_of_invariant (fun s e hs hf =>
      ⟨coherent_laserNext s e hs hf,writeSound_of_flashHolds s e hs hf⟩) hboot

/-- A write of 5 whose erase fails returns -1 and is read back as 5; repeated,
it returns 0 and is gone after a restart. -/
theorem laser_failed_write_kept :
    let before := finalState laserNext (laserBoot fun _ => 0) [.writeMode .done]
    let failing : LaserEvent := .write 0 5 (.failed fun _ => 0) .done
    ¬WriteSound before failing ∧
      ¬WriteSound (laserNext before failing) (.write 0 5 .done .done) := by
  constructor
  · intro h
    have hread := h.2 (by decide) [.read 0]
    revert hread
    decide
  · intro h
    have hread := h.1 (by decide)
    revert hread
    decide

end Runs

end ZephyrApp.LaserRegisters

import ZephyrApp.BootloaderImage

/-!
# Bound of the bootloader's staging buffer

The index into the staging buffer survives from frame to frame. It is reset after
a successful write only: a full buffer whose write fails stays full, and the next
data byte is stored behind it. In every run the index is below the size of the
buffer, and all stores are inside, exactly if no write of a full buffer fails.
-/

namespace ZephyrApp.Bootloader

open MachineBytes CanFrames FlashPages EventRuns
open CanFwUpgrade (RxCanFrame commandFrame dataFrame)

section Loop

variable {δ : Type} {F : PagedFlash δ} {s : BootState δ} {bytes : List Byte}

/-- Bytes that do not fill the buffer leave room in it. -/
theorem dataLoop_room (h : s.buffer.length+bytes.length < flashBufferSize) :
    ∃ report,dataLoop F s bytes=some report ∧ report.state.buffer.length < flashBufferSize := by
  induction bytes generalizing s with
  | nil => exact ⟨_,rfl,h⟩
  | cons b bytes ih =>
    rw [List.length_cons] at h
    rw [dataLoop]
    split
    · exact ⟨_,rfl,by dsimp only; omega⟩
    · have hcase := storeByte_cases F s b
      generalize storeByte F s b=result at hcase
      cases hcase with
      | overrun full => omega
      | kept room more =>
        obtain ⟨rest,hrest,hroom⟩ := ih (s := {s with
          buffer := s.buffer++[b]
          received := s.received+1}) (by
            rw [List.length_append,List.length_singleton]
            omega)
        dsimp only
        rw [if_neg (not_not.mpr rfl),hrest]
        exact ⟨_,rfl,hroom⟩
      | failed room err =>
        refine ⟨_,rfl,?_⟩
        dsimp only
        rw [List.length_append,List.length_singleton]
        omega
      | flushed room due ok =>
        obtain ⟨rest,hrest,hroom⟩ := ih (s := s.written F b) (by
          rw [BootState.written,List.length_nil]
          omega)
        dsimp only
        rw [if_neg (not_not.mpr rfl),hrest]
        exact ⟨_,rfl,hroom⟩

/-- A byte whose write fails was the last of a full buffer or of the image. -/
theorem storeByte_due {b : Byte} {report : BootReport δ} (h : storeByte F s b=some report)
    (hret : report.ret≠0) : s.buffer.length+1=flashBufferSize ∨ s.total ≤ s.received+1 := by
  rw [storeByte] at h
  split at h
  · cases h
  · rename_i hroom
    dsimp only at h
    split at h
    · rename_i hdue
      rw [List.length_append,List.length_singleton] at hdue
      rcases hdue with hfull | hend
      · exact Or.inl (by omega)
      · exact Or.inr hend
    · obtain rfl := Option.some.inj h
      exact absurd rfl hret

/-- The bytes that fill the buffer, if there are enough of them and the image
has room for them, are written. -/
def FillWritten (F : PagedFlash δ) (s : BootState δ) (bytes : List Byte) : Prop :=
  ∀ k ≤ bytes.length,s.buffer.length+k=flashBufferSize →
    s.received.toNat+k ≤ s.total.toNat →
      (F.write s.device s.flashAddr.toNat (s.buffer++bytes.take k)).1=true

/-- A byte that is only buffered is part of what fills the buffer. -/
theorem fillWritten_kept {b : Byte} (room : s.buffer.length+1 < flashBufferSize)
    (hmore : ¬s.total ≤ s.received) :
    FillWritten F {s with buffer := s.buffer++[b],received := s.received+1} bytes ↔
      FillWritten F s (b::bytes) := by
  obtain ⟨hcount,-⟩ := received_succ hmore
  have hlen : (s.buffer++[b]).length=s.buffer.length+1 := by
    rw [List.length_append,List.length_singleton]
  constructor
  · intro h k hk hfull hfits
    obtain ⟨j,rfl⟩ : ∃ j,k=j+1 := ⟨k-1,by omega⟩
    have hwrote := h j (by rw [List.length_cons] at hk; omega) (by dsimp only; omega)
      (by dsimp only; omega)
    dsimp only at hwrote
    rwa [List.append_assoc,List.singleton_append] at hwrote
  · intro h j hj hfull hfits
    dsimp only at hfull hfits ⊢
    have hwrote := h (j+1) (by rw [List.length_cons]; omega) (by omega) (by omega)
    rwa [List.take_succ_cons,←List.singleton_append,←List.append_assoc] at hwrote

/-- Fewer bytes than the buffer has leave room in it exactly if those that fill
it are written. -/
theorem dataLoop_staged (hroom : s.buffer.length < flashBufferSize)
    (hshort : bytes.length≤flashBufferSize) : ∃ report,dataLoop F s bytes=some report ∧
      (report.state.buffer.length < flashBufferSize ↔ FillWritten F s bytes) := by
  induction bytes generalizing s with
  | nil =>
    refine ⟨_,rfl,iff_of_true hroom fun k hk hfull => ?_⟩
    rw [List.length_nil] at hk
    omega
  | cons b bytes ih =>
    rw [List.length_cons] at hshort
    rw [dataLoop]
    split
    · rename_i hdone
      rw [BitVec.le_def] at hdone
      exact ⟨_,rfl,iff_of_true hroom fun k hk hfull hfits => by omega⟩
    · rename_i hmore
      obtain ⟨hcount,hlt⟩ := received_succ hmore
      have hcase := storeByte_cases F s b
      have hdue : ∀ report,storeByte F s b=some report → report.ret≠0 → _ := fun _ => storeByte_due
      generalize storeByte F s b=result at hcase hdue
      cases hcase with
      | overrun full => omega
      | kept room more =>
        obtain ⟨rest,hrest,hiff⟩ := ih (s := {s with
          buffer := s.buffer++[b]
          received := s.received+1}) (by
            rw [List.length_append,List.length_singleton]
            exact room) (by omega)
        dsimp only
        rw [if_neg (not_not.mpr rfl),hrest]
        exact ⟨_,rfl,hiff.trans (fillWritten_kept room hmore)⟩
      | failed room err =>
        refine ⟨_,rfl,?_⟩
        dsimp only
        rw [List.length_append,List.length_singleton]
        by_cases hfull : s.buffer.length+1=flashBufferSize
        · refine iff_of_false (by omega) fun h => ?_
          have hwrote := h 1 (by rw [List.length_cons]; omega) hfull (by omega)
          rw [List.take_succ_cons,List.take_zero,err] at hwrote
          exact Bool.false_ne_true hwrote
        · have hend := (hdue _ rfl (by dsimp only; decide)).resolve_left hfull
          rw [BitVec.le_def] at hend
          exact iff_of_true (by omega) fun k hk hk' hfits => by omega
      | flushed room due ok =>
        obtain ⟨rest,hrest,hleft⟩ : ∃ rest,dataLoop F (s.written F b) bytes=some rest ∧
            rest.state.buffer.length < flashBufferSize := dataLoop_room (by
          rw [BootState.written,List.length_nil]
          omega)
        dsimp only
        rw [if_neg (not_not.mpr rfl),hrest]
        refine ⟨_,rfl,iff_of_true hleft fun k hk hfull hfits => ?_⟩
        rcases due with hone | hend
        · obtain rfl : k=1 := by omega
          rw [List.take_succ_cons,List.take_zero]
          exact ok
        · rw [BitVec.le_def] at hend
          obtain rfl : k=1 := by omega
          rw [List.take_succ_cons,List.take_zero]
          exact ok

end Loop

section Runs

variable {δ : Type} (F : PagedFlash δ) (appVersion : Word)

/-- The statics after a frame, none once a byte was stored outside the buffer. -/
def frameNext (r : Option (BootState δ)) (frame : RxCanFrame) : Option (BootState δ) :=
  r.bind fun s => (fwUpdate F appVersion s frame).map BootReport.state

/-- All bytes were stored inside the buffer, and its index is below its size. -/
def Staged (r : Option (BootState δ)) : Prop := ∃ s∈r,s.buffer.length < flashBufferSize

/-- If a data frame fills the buffer, the buffer is written. -/
def FullWritten (r : Option (BootState δ)) (frame : RxCanFrame) : Prop :=
  ∀ s∈r,IsData frame → FillWritten F s frame.payload

variable {F appVersion} {s : BootState δ} {frame : RxCanFrame}

/-- A state with room is staged. -/
theorem staged_some (h : s.buffer.length < flashBufferSize) : Staged (some s) := ⟨s,rfl,h⟩

/-- A frame that is no data frame leaves room in the buffer. -/
theorem staged_command (hroom : s.buffer.length < flashBufferSize) (hd : ¬IsData frame) :
    Staged (frameNext F appVersion (some s) frame) := by
  rw [frameNext,Option.bind_some]
  by_cases hs : IsFullStart frame
  · rw [fwUpdate_start F appVersion s hs,handleStart_eq F s hs.2.2]
    exact staged_some nil_room
  · by_cases hc : IsConfirm frame
    · rw [fwUpdate_confirm F appVersion s hc,handleConfirm]
      have hflushed : (flushBuffer F s).1.buffer.length < flashBufferSize := by
        rw [flushBuffer]
        split
        · exact nil_room
        · exact hroom
      split
      · exact staged_some hflushed
      · exact staged_some nil_room
    · obtain ⟨report,hreport,-,hstate⟩ := fwUpdate_other F appVersion s hs hc hd
      rw [hreport]
      rcases hstate with ⟨hsame,-⟩ | ⟨hboot,-⟩
      · exact staged_some (hsame▸hroom)
      · rw [Option.map_some,hboot]
        exact staged_some nil_room

/-- A frame leaves room in the buffer exactly if a buffer that it fills is written. -/
theorem staged_step (r : Option (BootState δ)) (frame : RxCanFrame) (hr : Staged r) :
    Staged (frameNext F appVersion r frame) ↔ FullWritten F r frame := by
  obtain ⟨s,rfl,hroom⟩ := hr
  by_cases hd : IsData frame
  · have hwritten : FullWritten F (some s) frame ↔ FillWritten F s frame.payload :=
      ⟨fun h => h s rfl hd,fun h t ht _ => Option.some.inj ht▸h⟩
    rw [frameNext,Option.bind_some,fwUpdate_data F appVersion s hd,handleData,hwritten]
    split
    · rename_i hdone
      rw [BitVec.le_def] at hdone
      exact iff_of_true (staged_some hroom) fun k hk hfull hfits => by omega
    · have hshort : frame.payload.length≤flashBufferSize := by
        rw [RxCanFrame.payload,List.length_take,frame.size]
        exact (min_le_right _ _).trans (by decide)
      obtain ⟨report,hreport,hiff⟩ := dataLoop_staged (F := F) hroom hshort
      rw [hreport,←hiff]
      refine ⟨fun hstaged => ?_,staged_some⟩
      obtain ⟨t,ht,hlt⟩ := hstaged
      exact Option.some.inj ht▸hlt
  · exact iff_of_true (staged_command hroom hd) fun t _ hdata => absurd hdata hd

/-- In every run from boot, whatever writes fail, the index is below the size of
the buffer before every frame and all bytes are stored inside exactly if every
buffer that a data frame fills is written. -/
theorem staged_runs (device : δ) (frames : List RxCanFrame) :
    Throughout (frameNext F appVersion) Staged (some (.boot device)) frames ↔
      AlongRun (frameNext F appVersion) (FullWritten F) (some (.boot device)) frames :=
  throughout_iff_alongRun staged_step (staged_some nil_room) frames

/-- On a memory that takes no writes, eight frames of eight bytes leave the
buffer full. -/
theorem staged_fails :
    ¬Throughout (frameNext {ramPages 2048 with write := fun d _ _ => (false,d)} 0) Staged
      (some (.boot fun _ => 0))
      (commandFrame boardStartUpdate 128::List.replicate 8 (dataFrame 1)) := by
  intro h
  have hfull : (finalState (frameNext {ramPages 2048 with write := fun d _ _ => (false,d)} 0)
      (some (.boot fun _ => 0)) (commandFrame boardStartUpdate 128::
        List.replicate 8 (dataFrame 1))).map (fun s => s.buffer.length)=some 64 := by
    decide +kernel
  obtain ⟨s,hs,hroom⟩ := h.last
  rw [Option.mem_def.mp hs,Option.map_some,Option.some.injEq] at hfull
  exact absurd hroom (by rw [hfull]; decide)

end Runs

end ZephyrApp.Bootloader

import ZephyrApp.CanFwUpgrade
import ZephyrApp.ChunkAssembly
import ZephyrApp.EventRuns

/-!
# The key hash gate of the CAN upgrade

Runs of the receive thread of a build with a signature key, with a record of
the valid key hash frames since the last comparison or boot. The received key
and its mask assemble the latest chunks of that record. From this follow when
a start command compares the key hash, which bytes it compares, and that a
mismatch touches nothing but the mask.
-/

namespace ZephyrApp.CanFwUpgrade

open MachineBytes CanFrames FlashSlots EventRuns ChunkAssembly

/-- The chunk number of a key hash frame. -/
def RxCanFrame.keySeq (frame : RxCanFrame) : ℕ := (frame.data.getD 0 0).toNat

/-- The number of key bytes that belong to a chunk. -/
def keyChunkLength (seq : ℕ) : ℕ :=
  min canFwKeyhashChunkBytes (fwKeyhashKeyLen-canFwKeyhashChunkBytes*seq)

/-- The key bytes of a key hash frame. -/
def RxCanFrame.keyChunk (frame : RxCanFrame) : List Byte :=
  (frame.data.drop 1).take (keyChunkLength frame.keySeq)

/-- A valid key hash frame has the number of a chunk and all its bytes. -/
def RxCanFrame.IsKeyChunk (frame : RxCanFrame) : Prop :=
  frame.id=canFwKeyhashRx ∧ frame.keySeq < canFwKeyhashChunks ∧
    1+keyChunkLength frame.keySeq≤canDlcToBytes frame.dlc

instance (frame : RxCanFrame) : Decidable frame.IsKeyChunk :=
  inferInstanceAs (Decidable (frame.id=canFwKeyhashRx ∧ frame.keySeq < canFwKeyhashChunks ∧
    1+keyChunkLength frame.keySeq≤canDlcToBytes frame.dlc))

/-- A start command of the right length. -/
def RxCanFrame.IsFullStart (frame : RxCanFrame) : Prop :=
  frame.IsStart ∧ canDlcToBytes frame.dlc=8

instance (frame : RxCanFrame) : Decidable frame.IsFullStart :=
  inferInstanceAs (Decidable (frame.IsStart ∧ canDlcToBytes frame.dlc=8))

/-- A reboot command. -/
def RxCanFrame.IsReboot (frame : RxCanFrame) : Prop :=
  frame.id=canFwPlatformRx ∧ frame.data32 0=fwCmdReboot

instance (frame : RxCanFrame) : Decidable frame.IsReboot :=
  inferInstanceAs (Decidable (frame.id=canFwPlatformRx ∧ frame.data32 0=fwCmdReboot))

/-- The latest chunk with a number, the newest frame first. -/
def latestChunk (since : List RxCanFrame) (seq : ℕ) : Option (List Byte) :=
  (since.find? fun frame => frame.keySeq=seq).map RxCanFrame.keyChunk

/-- Every chunk number is among the frames. -/
def AllChunks (since : List RxCanFrame) : Prop :=
  ∀ seq < canFwKeyhashChunks,∃ frame∈since,frame.keySeq=seq

/-- The key hash that the latest chunks make, in the order of their numbers. -/
def assembledKey (since : List RxCanFrame) : List Byte :=
  (List.range canFwKeyhashChunks).flatMap fun seq => (latestChunk since seq).getD []

section Observers

variable {δ : Type}

/-- The two key hashes that the check of a start command compares, none when it
makes no comparison. -/
def keyComparison (cfg : FwConfig) (s : FwState δ) : Option (List Byte×List Byte) :=
  if s.keyChunkMask &&& canFwKeyhashFullMask=canFwKeyhashFullMask then
    cfg.keyhash.map fun key => (s.rxKeybuf,key)
  else none

/-- The range of the key buffer that a key hash frame is copied to: its start
and its length. -/
def keyhashCopy (frame : RxCanFrame) : Option (ℕ×ℕ) :=
  let seq := (frame.data.getD 0 0).toNat
  let rem := (BitVec.ofInt 8 (fwKeyhashKeyLen-seq*canFwKeyhashChunkBytes)).toNat
  let chunk := min rem canFwKeyhashChunkBytes
  if canFwKeyhashChunks ≤ seq ∨ canDlcToBytes frame.dlc<1+chunk then none
  else some (seq*canFwKeyhashChunkBytes,chunk)

/-- The key check is this comparison, which consumes the mask. -/
theorem keyhashGate_eq (cfg : FwConfig) (s : FwState δ) :
    keyhashGate cfg s=match keyComparison cfg s with
      | none => (true,s)
      | some (received,key) => (decide (received=key),{s with keyChunkMask := 0}) := by
  unfold keyhashGate keyComparison
  cases cfg.keyhash with
  | none =>
    rw [Option.map_none,ite_self]
  | some key =>
    dsimp only
    split <;> rfl

/-- A key hash frame is this copy and the mark of its number. -/
theorem handleKeyhashFrame_eq (s : FwState δ) (frame : RxCanFrame) :
    handleKeyhashFrame s frame=match keyhashCopy frame with
      | none => ⟨s,[]⟩
      | some (at_,n) => ⟨{s with
          rxKeybuf := s.rxKeybuf.take at_++(frame.data.drop 1).take n++s.rxKeybuf.drop (at_+n)
          keyChunkMask := s.keyChunkMask ||| BitVec.ofNat 8 (2^frame.keySeq)},[]⟩ := by
  unfold handleKeyhashFrame keyhashCopy
  dsimp only
  split <;> rfl

/-- The copied range is the place of a valid frame's chunk. -/
theorem keyhashCopy_eq (frame : RxCanFrame) (hid : frame.id=canFwKeyhashRx) :
    keyhashCopy frame=if frame.IsKeyChunk then
      some (canFwKeyhashChunkBytes*frame.keySeq,keyChunkLength frame.keySeq) else none := by
  unfold keyhashCopy
  dsimp only
  change (if canFwKeyhashChunks ≤ frame.keySeq ∨ canDlcToBytes frame.dlc<
    1+min (BitVec.ofInt 8 (fwKeyhashKeyLen-frame.keySeq*canFwKeyhashChunkBytes)).toNat
      canFwKeyhashChunkBytes then none else _)=_
  by_cases hseq : frame.keySeq < canFwKeyhashChunks
  · -- the eight-bit remainder does not wrap for the number of a chunk
    have hrem : min (BitVec.ofInt 8 (fwKeyhashKeyLen-frame.keySeq*canFwKeyhashChunkBytes)).toNat
        canFwKeyhashChunkBytes=keyChunkLength frame.keySeq := by
      have hlt : frame.keySeq < 5 := hseq
      interval_cases frame.keySeq <;> decide
    change (if _ then none else some (frame.keySeq*canFwKeyhashChunkBytes,
      min (BitVec.ofInt 8 (fwKeyhashKeyLen-frame.keySeq*canFwKeyhashChunkBytes)).toNat
        canFwKeyhashChunkBytes))=_
    rw [hrem,Nat.mul_comm frame.keySeq]
    by_cases hlength : 1+keyChunkLength frame.keySeq≤canDlcToBytes frame.dlc
    · rw [if_neg (by omega),if_pos ⟨hid,hseq,hlength⟩]
    · rw [if_pos (by omega),if_neg fun h => hlength h.2.2]
  · rw [if_pos (by omega),if_neg fun h => hseq h.2.1]

/-- The copied range lies inside the key buffer and inside the frame. -/
theorem keyhashCopy_inside {frame : RxCanFrame} (hid : frame.id=canFwKeyhashRx) {range : ℕ×ℕ}
    (h : range∈keyhashCopy frame) :
    range.1+range.2≤fwKeyhashKeyLen ∧ 1+range.2≤frame.data.length := by
  rw [keyhashCopy_eq frame hid] at h
  split at h
  · rename_i hvalid
    rw [Option.mem_some_iff] at h
    obtain ⟨-,hseq,hlength⟩ := hvalid
    rw [canDlcToBytes_of_le frame.dlc_le] at hlength
    have hdlc := frame.dlc_le
    have hlt : frame.keySeq < 5 := hseq
    have hdef : keyChunkLength frame.keySeq=min 7 (32-7*frame.keySeq) := rfl
    have hwidth : canFwKeyhashChunkBytes=7 := rfl
    have htotal : fwKeyhashKeyLen=32 := rfl
    rw [←h,frame.size]
    dsimp only
    rw [hwidth,htotal]
    omega
  · exact absurd h (Option.not_mem_none range)

end Observers

section KeyStatics

variable {δ : Type} (F : FlashImage δ) (cfg : FwConfig) (s : FwState δ)

/-- The received key hash and its mask are the same. -/
structure SameKey (s t : FwState δ) : Prop where
  /-- The key hash received. -/
  rxKeybuf : t.rxKeybuf=s.rxKeybuf
  /-- The chunks received. -/
  keyChunkMask : t.keyChunkMask=s.keyChunkMask

/-- Opening a session leaves the key statics. -/
theorem openSession_sameKey : SameKey s (openSession F s).2.state := by
  unfold openSession
  split
  · exact ⟨rfl,rfl⟩
  · dsimp only
    split
    · exact ⟨rfl,rfl⟩
    · split <;> exact ⟨rfl,rfl⟩

/-- A full start command leaves the key statics as the check does. -/
theorem handleStart_sameKey {frame : RxCanFrame} (h : canDlcToBytes frame.dlc=8) :
    SameKey (keyhashGate cfg s).2 (handleStart F cfg s frame).state := by
  have hopen := openSession_sameKey F (keyhashGate cfg s).2
  rw [handleStart,if_neg (not_not.mpr h)]
  dsimp only
  split
  · exact ⟨rfl,rfl⟩
  · split
    · exact hopen
    · exact ⟨hopen.rxKeybuf,hopen.keyChunkMask⟩

/-- A confirm command leaves the key statics. -/
theorem handleConfirm_sameKey (frame : RxCanFrame) :
    SameKey s (handleConfirm F s frame).state := by
  unfold handleConfirm
  split
  · exact ⟨rfl,rfl⟩
  · dsimp only
    split <;> exact ⟨rfl,rfl⟩

/-- A data frame leaves the key statics. -/
theorem handleFwData_sameKey (frame : RxCanFrame) : SameKey s (handleFwData F s frame).state := by
  unfold handleFwData
  split
  · exact ⟨rfl,rfl⟩
  · dsimp only
    split
    · exact ⟨rfl,rfl⟩
    · split
      · exact ⟨rfl,rfl⟩
      · split <;> exact ⟨rfl,rfl⟩

/-- Every frame that is no full start, no reboot and no key hash frame leaves
the key statics. -/
theorem canFwRxThread_sameKey {frame : RxCanFrame} (hs : ¬frame.IsFullStart)
    (hr : ¬frame.IsReboot) (hk : frame.id≠canFwKeyhashRx) :
    SameKey s (canFwRxThread F cfg s frame).state := by
  have hsame : SameKey s s := ⟨rfl,rfl⟩
  unfold canFwRxThread
  by_cases hid : frame.id=canFwPlatformRx
  · rw [if_pos hid,handlePlatformRx]
    by_cases hstart : frame.data32 0=fwCmdStartUpdate
    · have hsize : canDlcToBytes frame.dlc≠8 := fun h => hs ⟨⟨hid,hstart⟩,h⟩
      rw [if_pos hstart,handleStart,if_pos hsize]
      exact hsame
    · rw [if_neg hstart]
      split
      · exact handleConfirm_sameKey F s frame
      · split
        · exact hsame
        · rw [if_neg fun h => hr ⟨hid,h⟩]
          exact hsame
  · rw [if_neg hid]
    split
    · exact handleFwData_sameKey F s frame
    · rw [if_neg fun h => hk h.1]
      exact hsame

/-- A reboot command restarts the statics. -/
theorem canFwRxThread_reboot {frame : RxCanFrame} (h : frame.IsReboot) :
    (canFwRxThread F cfg s frame).state=.boot (F.reboot s.device) := by
  have hc : frame.data32 0=fwCmdReboot := h.2
  rw [canFwRxThread,if_pos h.1,handlePlatformRx,if_neg (by rw [hc]; decide),
    if_neg (by rw [hc]; decide),if_neg (by rw [hc]; decide),if_pos hc]

/-- In a build with a key, a key hash frame is handled as such. -/
theorem canFwRxThread_keyhash {frame : RxCanFrame} (h : frame.id=canFwKeyhashRx)
    (hkey : cfg.keyhash.isSome=true) :
    canFwRxThread F cfg s frame=handleKeyhashFrame s frame := by
  rw [canFwRxThread,if_neg (by rw [h]; decide),if_neg (by rw [h]; decide),if_pos ⟨h,hkey⟩]

/-- The answer of a full start command to a comparison: a mismatch is refused
and touches nothing but the mask. -/
theorem handleStart_mismatch {frame : RxCanFrame} (h : canDlcToBytes frame.dlc=8)
    {received key : List Byte} (hcmp : keyComparison cfg s=some (received,key))
    (hne : received≠key) :
    handleStart F cfg s frame=⟨{s with keyChunkMask := 0},[.reply .keyhashError 0]⟩ := by
  rw [handleStart,if_neg (not_not.mpr h),keyhashGate_eq,hcmp]
  dsimp only
  rw [decide_eq_false hne,if_pos rfl]

/-- Opening a session makes calls and sends no reply. -/
theorem openSession_flash : ∀ a∈(openSession F s).2.actions,∃ call ok,a=.flash call ok := by
  intro a ha
  unfold openSession at ha
  split at ha
  · exact absurd ha List.not_mem_nil
  · dsimp only at ha
    split at ha
    · exact ⟨_,_,List.mem_singleton.mp ha⟩
    · split at ha
      all_goals
        simp only [List.mem_cons,List.not_mem_nil,or_false] at ha
        rcases ha with rfl | rfl | rfl <;> exact ⟨_,_,rfl⟩

/-- Without a mismatch the key hash is no reason to refuse. -/
theorem handleStart_admitted {frame : RxCanFrame} (h : canDlcToBytes frame.dlc=8)
    (hgate : (keyhashGate cfg s).1=true) :
    .reply .keyhashError 0∉(handleStart F cfg s frame).actions := by
  have hopen : ∀ code,code≠.keyhashError → .reply .keyhashError 0∉
      (openSession F (keyhashGate cfg s).2).2.actions++[.reply code 0] := by
    intro code hcode ha
    rcases List.mem_append.mp ha with ha | ha
    · obtain ⟨call,ok,he⟩ := openSession_flash F _ _ ha
      exact FwAction.noConfusion he
    · rw [List.mem_singleton,FwAction.reply.injEq] at ha
      exact hcode ha.1.symm
  rw [handleStart,if_neg (not_not.mpr h)]
  dsimp only
  rw [if_neg (by rw [hgate]; decide)]
  split
  · exact hopen .flashError (by decide)
  · exact hopen .offset (by decide)

end KeyStatics

/-- The statics with the valid key hash frames since the last comparison or
boot, the newest first. -/
structure KeyRun (δ : Type) where
  /-- The statics and the device. -/
  fw : FwState δ
  /-- The valid key hash frames. -/
  since : List RxCanFrame

/-- A run from boot, with no key hash frame recorded. -/
def KeyRun.boot {δ : Type} (device : δ) : KeyRun δ := ⟨.boot device,[]⟩

section Runs

variable {δ : Type} (F : FlashImage δ) (cfg : FwConfig)

/-- Keep the record over one frame. -/
def noteChunk (r : KeyRun δ) (frame : RxCanFrame) : List RxCanFrame :=
  if frame.IsReboot then []
  else if frame.IsFullStart ∧ (keyComparison cfg r.fw).isSome then []
  else if frame.IsKeyChunk then frame::r.since
  else r.since

/-- One frame, recorded. -/
def keyStep (r : KeyRun δ) (frame : RxCanFrame) : KeyRun δ :=
  ⟨(canFwRxThread F cfg r.fw frame).state,noteChunk cfg r frame⟩

/-- The key buffer and the mask assemble the recorded chunks. -/
def KeyAssembled (r : KeyRun δ) : Prop :=
  Assembles fwKeyhashKeyLen canFwKeyhashChunkBytes canFwKeyhashChunks r.fw.rxKeybuf
    r.fw.keyChunkMask (latestChunk r.since)

/-- What the gate does with one frame: a full start command compares exactly
when all chunks have arrived, it compares the latest ones with the key of the
build, a mismatch and nothing else is answered with the key hash error and
changes the mask alone, and no key hash frame is copied out of the buffer. -/
structure KeyGated (key : List Byte) (r : KeyRun δ) (frame : RxCanFrame) : Prop where
  /-- A comparison is made exactly when all chunks have arrived. -/
  compares_iff : frame.IsFullStart → ((keyComparison cfg r.fw).isSome=true ↔ AllChunks r.since)
  /-- The latest chunks are compared with the key. -/
  compared : ∀ pair∈keyComparison cfg r.fw,pair=(assembledKey r.since,key)
  /-- The key hash error answers exactly a mismatch. -/
  rejects_iff : frame.IsFullStart →
    (.reply .keyhashError 0∈(canFwRxThread F cfg r.fw frame).actions ↔
      AllChunks r.since ∧ assembledKey r.since≠key)
  /-- A mismatch changes the mask alone. -/
  rejected : frame.IsFullStart → AllChunks r.since → assembledKey r.since≠key →
    canFwRxThread F cfg r.fw frame=⟨{r.fw with keyChunkMask := 0},[.reply .keyhashError 0]⟩
  /-- The copy of a key hash frame stays inside the buffer and the frame. -/
  inside : frame.id=canFwKeyhashRx → ∀ range∈keyhashCopy frame,
    range.1+range.2≤r.fw.rxKeybuf.length ∧ 1+range.2≤frame.data.length

/-- The latest chunks change at the number of a new frame only. -/
theorem latestChunk_cons (frame : RxCanFrame) (since : List RxCanFrame) :
    latestChunk (frame::since)=
      Function.update (latestChunk since) frame.keySeq (some frame.keyChunk) := by
  funext seq
  by_cases h : seq=frame.keySeq
  · subst h
    simp [latestChunk]
  · have hne : ¬frame.keySeq=seq := fun he => h he.symm
    rw [Function.update_of_ne h]
    simp [latestChunk,hne]

/-- All chunks have arrived exactly when every number has a latest one. -/
theorem allChunks_iff (since : List RxCanFrame) :
    AllChunks since ↔ ∀ seq < canFwKeyhashChunks,(latestChunk since seq).isSome=true := by
  refine forall₂_congr fun seq _ => ?_
  rw [latestChunk,Option.isSome_map,List.find?_isSome]
  simp only [decide_eq_true_eq]

variable {F cfg} {r : KeyRun δ} {frame : RxCanFrame} {key : List Byte}

/-- In a build with a key, the check compares exactly when all chunks have
arrived, and then it compares the latest ones. -/
theorem keyComparison_eq (hkey : cfg.keyhash=some key) (hr : KeyAssembled r) :
    ((keyComparison cfg r.fw).isSome=true ↔ AllChunks r.since) ∧
      ∀ pair∈keyComparison cfg r.fw,pair=(assembledKey r.since,key) := by
  have hmask : canFwKeyhashFullMask=fullMask 8 canFwKeyhashChunks := rfl
  have hfull := hr.full_iff (by decide)
  unfold keyComparison
  rw [allChunks_iff,hmask,hkey]
  constructor
  · rw [←hfull]
    split
    · rename_i hm
      simp [hm]
    · rename_i hm
      simp [hm]
  · intro pair hpair
    split at hpair
    · rename_i hall
      have hbuf := hr.buf_eq (by decide) (hfull.mp hall)
      rw [Option.map_some,Option.mem_some_iff] at hpair
      rw [←hpair,hbuf]
      rfl
    · exact absurd hpair (Option.not_mem_none pair)

/-- Whatever the key buffer holds, a cleared mask assembles no chunks. -/
theorem keyAssembled_cleared {s : FwState δ} (hsize : s.rxKeybuf.length=fwKeyhashKeyLen)
    (hmask : s.keyChunkMask=0) : KeyAssembled ⟨s,[]⟩ := by
  unfold KeyAssembled
  rw [hmask]
  exact Assembles.cleared hsize

/-- The key statics decide what is assembled. -/
theorem KeyAssembled.congr {s : FwState δ} (hr : KeyAssembled r) (h : SameKey r.fw s) :
    KeyAssembled ⟨s,r.since⟩ := by
  unfold KeyAssembled
  dsimp only
  rw [h.rxKeybuf,h.keyChunkMask]
  exact hr

/-- A key hash frame adds its chunk when it is valid. -/
theorem keyhashFrame_assembled (hr : KeyAssembled r) (hid : frame.id=canFwKeyhashRx) :
    KeyAssembled ⟨(handleKeyhashFrame r.fw frame).state,
      if frame.IsKeyChunk then frame::r.since else r.since⟩ := by
  rw [handleKeyhashFrame_eq,keyhashCopy_eq frame hid]
  by_cases hvalid : frame.IsKeyChunk
  · rw [if_pos hvalid,if_pos hvalid]
    obtain ⟨-,hseq,hlength⟩ := hvalid
    have hdlc := frame.dlc_le
    rw [canDlcToBytes_of_le hdlc] at hlength
    have hin : canFwKeyhashChunkBytes*frame.keySeq ≤ fwKeyhashKeyLen := by
      have hlt : frame.keySeq < 5 := hseq
      change 7*frame.keySeq ≤ 32
      omega
    have hchunk : frame.keyChunk.length=keyChunkLength frame.keySeq := by
      rw [RxCanFrame.keyChunk,List.length_take,List.length_drop,frame.size]
      omega
    have hstored := hr.stored (by decide) hin hchunk
    unfold KeyAssembled
    rw [latestChunk_cons]
    dsimp only
    rw [store,hchunk] at hstored
    exact hstored
  · rw [if_neg hvalid,if_neg hvalid]
    exact hr

/-- Every frame keeps the key buffer and the mask in step with the record. -/
theorem keyAssembled_step (hkey : cfg.keyhash.isSome=true) (r : KeyRun δ) (frame : RxCanFrame)
    (hr : KeyAssembled r) : KeyAssembled (keyStep F cfg r frame) := by
  unfold keyStep noteChunk
  by_cases hreboot : frame.IsReboot
  · rw [if_pos hreboot,canFwRxThread_reboot F cfg r.fw hreboot]
    exact keyAssembled_cleared List.length_replicate rfl
  · rw [if_neg hreboot]
    by_cases hstart : frame.IsFullStart
    · have hgate := handleStart_sameKey F cfg r.fw hstart.2
      have hnot : ¬frame.IsKeyChunk := by
        intro hk
        have hid := hk.1
        rw [hstart.1.1] at hid
        exact absurd hid (by decide)
      rw [canFwRxThread_start F cfg r.fw hstart.1,if_neg hnot]
      rw [keyhashGate_eq] at hgate
      cases hcmp : keyComparison cfg r.fw with
      | none =>
        rw [hcmp] at hgate
        rw [if_neg (by simp)]
        exact hr.congr hgate
      | some pair =>
        rw [hcmp] at hgate
        rw [if_pos ⟨hstart,rfl⟩]
        exact keyAssembled_cleared (hgate.rxKeybuf ▸ hr.size_eq) hgate.keyChunkMask
    · rw [if_neg fun h => hstart h.1]
      by_cases hid : frame.id=canFwKeyhashRx
      · rw [canFwRxThread_keyhash F cfg r.fw hid hkey]
        exact keyhashFrame_assembled hr hid
      · rw [if_neg fun h => hid h.1]
        exact hr.congr (canFwRxThread_sameKey F cfg r.fw hstart hreboot hid)

/-- The gate does with one frame what it should. -/
theorem keyGated_step (hkey : cfg.keyhash=some key) (hr : KeyAssembled r) :
    KeyGated F cfg key r frame := by
  obtain ⟨hiff,hpair⟩ := keyComparison_eq hkey hr
  have hmismatch : AllChunks r.since → assembledKey r.since≠key → frame.IsFullStart →
      canFwRxThread F cfg r.fw frame=
        ⟨{r.fw with keyChunkMask := 0},[.reply .keyhashError 0]⟩ := by
    intro hall hne hstart
    obtain ⟨pair,hcmp⟩ := Option.isSome_iff_exists.mp (hiff.mpr hall)
    rw [hpair pair hcmp] at hcmp
    rw [canFwRxThread_start F cfg r.fw hstart.1]
    exact handleStart_mismatch F cfg r.fw hstart.2 hcmp hne
  refine ⟨fun _ => hiff,hpair,fun hstart => ⟨fun hreply => ?_,fun ⟨hall,hne⟩ => ?_⟩,
    fun hstart hall hne => hmismatch hall hne hstart,fun hid range hrange => ?_⟩
  · rw [canFwRxThread_start F cfg r.fw hstart.1] at hreply
    by_contra hno
    refine handleStart_admitted F cfg r.fw hstart.2 ?_ hreply
    rw [keyhashGate_eq]
    cases hcmp : keyComparison cfg r.fw with
    | none => rfl
    | some pair =>
      have hall := hiff.mp (by rw [hcmp]; rfl)
      have hsame : assembledKey r.since=key := by
        by_contra hne
        exact hno ⟨hall,hne⟩
      rw [hpair pair hcmp]
      exact decide_eq_true hsame
  · rw [hmismatch hall hne hstart]
    exact List.mem_singleton.mpr rfl
  · rw [hr.size_eq]
    exact keyhashCopy_inside hid hrange

/-- In every run from boot of a build with a key, the gate does with every
frame what it should. -/
theorem keyGated_runs (F : FlashImage δ) (hkey : cfg.keyhash=some key) (device : δ)
    (frames : List RxCanFrame) :
    AlongRun (keyStep F cfg) (KeyGated F cfg key) (.boot device) frames := by
  have hsome : cfg.keyhash.isSome=true := by
    rw [hkey]
    rfl
  exact alongRun_of_kept (keyAssembled_step hsome) (fun r frame hr => keyGated_step hkey hr)
    (keyAssembled_cleared List.length_replicate rfl) frames

/-- A build with a key of equal bytes. -/
def FwConfig.keyed (b : Byte) : FwConfig :=
  ⟨some (List.replicate fwKeyhashKeyLen b),[],fun key h => by
    rw [←Option.mem_some_iff.mp h,List.length_replicate],FwConfig.plain.version_lt⟩

/-- A key hash frame of a chunk of equal bytes. -/
def keyChunkFrame (seq b : Byte) : RxCanFrame :=
  ⟨⟨canFwKeyhashRx,8,seq::List.replicate 7 b,rfl⟩,(dataFrame b).dlc_le⟩

/-- Five chunks out of order, one of them sent twice and wrong at first, then a
start command. -/
theorem keyGated_runs_resent :
    AlongRun (keyStep (ramFlash 64) (.keyed 7)) (KeyGated (ramFlash 64) (.keyed 7)
      (List.replicate fwKeyhashKeyLen 7)) (.boot ⟨List.replicate 64 0,none⟩)
      [keyChunkFrame 4 7,keyChunkFrame 2 9,keyChunkFrame 0 7,keyChunkFrame 2 7,keyChunkFrame 9 7,
        keyChunkFrame 3 7,keyChunkFrame 1 7,
        ⟨⟨canFwPlatformRx,8,List.replicate 8 0,rfl⟩,le_refl 8⟩] :=
  keyGated_runs (ramFlash 64) rfl _ _

end Runs

end ZephyrApp.CanFwUpgrade

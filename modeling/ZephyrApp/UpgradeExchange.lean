import ZephyrApp.UpgradeHost

/-!
# The upgrade tool and the upgrade library

The tool on the host against the receive thread of the device, joined by the
bus. On a device without faults that is idle at first, the library answers
every frame as the turns of the tool say, whatever the length of the file, and
so the two stay in lock step until the image is confirmed.
-/

namespace ZephyrApp.UpgradeExchange

open MachineBytes CanFrames FlashSlots LockStep UpgradeHost
open CanFwUpgrade

/-- The reply that an action puts on the bus. -/
def replyOf : FwAction → Option Reply
  | .reply code offset => some (code.number,offset)
  | _ => none

section Device

variable {δ : Type} (F : FlashImage δ) (cfg : FwConfig)

/-- The tool and the receive thread. -/
def canParties (file : List Byte) (test : Bool) :
    Parties HostState (FwState δ) RxCanFrame Reply where
  host := firmwareUpgrade file test
  device s frame :=
    let report := canFwRxThread F cfg s frame
    (report.state,report.actions.filterMap replyOf)

/-- The device has taken in the first bytes of the file. -/
structure Loading (file : List Byte) (s : FwState δ) (taken : ℕ) : Prop where
  /-- A session is open. -/
  isOpen : s.imgInitialized=true
  /-- The bytes taken in are counted. -/
  written : s.written=BitVec.ofNat 32 taken
  /-- The announced size is the size of the file. -/
  totalSize : s.totalSize=BitVec.ofNat 32 file.length
  /-- The image streams them. -/
  streamed : F.Streamed s.device (file.take taken)
  /-- They are bytes of the file. -/
  le : taken≤file.length

variable {F cfg} {file : List Byte} {test : Bool} {s : FwState δ}

variable (cfg test file) in
/-- An idle device accepts the start message. -/
theorem start_answered (hF : F.Lawful) (hfault : F.Faultless) (hidle : s.imgInitialized=false)
    (hkey : ¬s.keyChunkMask &&& canFwKeyhashFullMask=canFwKeyhashFullMask) :
    ((canParties F cfg file test).device s (startMessage file)).2=[(fwCodeOffset,0)] ∧
      Loading F file ((canParties F cfg file test).device s (startMessage file)).1 0 := by
  have hwords := startMessage_words file
  have hdlc : canDlcToBytes (startMessage file).dlc=8 := rfl
  have hgate : keyhashGate cfg s=(true,s) := by
    unfold keyhashGate
    split
    · rfl
    · rw [if_neg hkey]
  have hopen := hfault.open_ok s.device
  have herase := hfault.erase_ok (F.areaOpen s.device).2
  have hinit := hfault.init_ok (F.areaErase (F.areaOpen s.device).2).2
  have hstream := hF.init_ok _ (hF.erase_ok _ herase) hinit
  have hsession : openSession F s=(true,⟨{s with
      device := (F.imgInit (F.areaErase (F.areaOpen s.device).2).2).2
      imgInitialized := true
      written := 0},[.flash .areaOpen true,.flash .areaErase true,.flash .imgInit true]⟩) := by
    simp only [openSession,hidle,hopen,herase,hinit,Bool.false_eq_true,Bool.true_eq_false,if_false]
  have hstart : canFwRxThread F cfg s (startMessage file)=
      ⟨⟨(F.imgInit (F.areaErase (F.areaOpen s.device).2).2).2,true,0,BitVec.ofNat 32 file.length,
        s.rxKeybuf,s.keyChunkMask⟩,[.flash .areaOpen true,.flash .areaErase true,
          .flash .imgInit true,.reply .offset 0]⟩ := by
    rw [canFwRxThread_start F cfg s ⟨rfl,hwords.1⟩]
    simp only [handleStart,hdlc,hgate,hsession,hwords.2,ne_eq,not_true_eq_false,Bool.true_eq_false,
      if_false]
    rfl
  dsimp only [canParties]
  rw [hstart]
  exact ⟨rfl,rfl,rfl,rfl,hstream,Nat.zero_le _⟩

/-- Two counts of the file are equal when their words are. -/
theorem ofNat_eq_iff (hsize : file.length < 2^32) {n : ℕ} (hn : n≤file.length) :
    BitVec.ofNat 32 n=BitVec.ofNat 32 file.length ↔ n=file.length := by
  constructor
  · intro h
    have hnat := congrArg BitVec.toNat h
    rw [word_toNat hsize,word_toNat (Nat.lt_of_le_of_lt hn hsize)] at hnat
    exact hnat
  · intro h
    rw [h]

variable (cfg test) in
/-- A loading device takes in the next chunk and answers it as the turn says. -/
theorem chunk_answered (hF : F.Lawful) (hfault : F.Faultless) (hfits : file.length≤F.slotSize)
    {i : ℕ} (hlt : 8*i < file.length) (h : Loading F file s (8*i)) :
    ((canParties F cfg file test).device s (dataTurn file i).1).2=(dataTurn file i).2.toList ∧
      Loading F file ((canParties F cfg file test).device s (dataTurn file i).1).1
        (sentAfter file i) := by
  have hsize : file.length < 2^32 := Nat.lt_of_le_of_lt hfits hF.slotSize_lt
  have hchunk := chunkAt_length file (8*i)
  have hsent := sentAfter_eq hlt
  have hle : sentAfter file i≤file.length := Nat.min_le_right _ _
  have hpayload : (dataTurn file i).1.payload=chunkAt file (8*i) :=
    dataMessage_payload (by omega)
  have hlength := payload_length (dataTurn file i).1
  have htake : (file.take (8*i)).length=8*i := List.length_take_of_le h.le
  have hok : (F.imgWrite s.device (chunkAt file (8*i))).1=true :=
    hfault.write_ok _ _ _ h.streamed (by omega)
  have hstream := hF.write_ok _ _ _ h.streamed hok
  rw [take_sentAfter hlt] at hstream
  have hwritten : s.written+BitVec.ofNat 32 (chunkAt file (8*i)).length=
      BitVec.ofNat 32 (sentAfter file i) := by
    rw [h.written,←BitVec.ofNat_add,hsent]
  have hmod : (BitVec.ofNat 32 (sentAfter file i)).toNat=sentAfter file i := by
    rw [word_toNat (Nat.lt_of_le_of_lt hle hsize)]
  have hturn : (dataTurn file i).2=
      if sentAfter file i=file.length then some (fwCodeUpdateSuccess,BitVec.ofNat 32 file.length)
      else if sentAfter file i%64=0 then
        some (fwCodeOffset,BitVec.ofNat 32 (sentAfter file i)) else none := rfl
  dsimp only [canParties]
  rw [canFwRxThread_data F cfg s (rfl : RxCanFrame.IsData (dataTurn file i).1),handleFwData,
    if_neg (by rw [h.isOpen]; decide),←hlength,hpayload,hturn]
  dsimp only
  rw [if_neg (by rw [hok]; decide),hwritten,h.totalSize]
  have hloading : ∀ actions : List FwAction,Loading F file (FwReport.mk
      ⟨(F.imgWrite s.device (chunkAt file (8*i))).2,s.imgInitialized,
        BitVec.ofNat 32 (sentAfter file i),BitVec.ofNat 32 file.length,s.rxKeybuf,s.keyChunkMask⟩
        actions).state (sentAfter file i) :=
    fun _ => ⟨h.isOpen,rfl,rfl,hstream,hle⟩
  by_cases hend : sentAfter file i=file.length
  · rw [if_pos ((ofNat_eq_iff hsize hle).mpr hend),if_pos hend]
    exact ⟨rfl,hloading []⟩
  · rw [if_neg fun he => hend ((ofNat_eq_iff hsize hle).mp he),if_neg hend,hmod]
    split
    · exact ⟨rfl,hloading []⟩
    · exact ⟨rfl,hloading []⟩

variable (cfg test) in
/-- A loading device answers the rest of the chunks as their turns say. -/
theorem data_answered (hF : F.Lawful) (hfault : F.Faultless) (hfits : file.length≤F.slotSize)
    {i n : ℕ} (hi : i+n=chunkCount file) (h : Loading F file s (min (8*i) file.length)) :
    ∃ t,Answers (canParties F cfg file test).device s (dataTurns file i n) t ∧
      Loading F file t file.length := by
  induction n generalizing i s with
  | zero =>
    have hall : min (8*i) file.length=file.length := by
      unfold chunkCount at hi
      omega
    rw [hall] at h
    exact ⟨s,.nil s,h⟩
  | succ n ih =>
    obtain ⟨hlt,-,-⟩ := sentAfter_last hi
    rw [Nat.min_eq_left hlt.le] at h
    have hnext := chunk_answered cfg test hF hfault hfits hlt h
    obtain ⟨t,hanswers,ht⟩ := ih (by omega) hnext.2
    rw [dataTurns_succ]
    exact ⟨t,.cons hnext.1 hanswers,ht⟩

variable (cfg test) in
/-- A device that has taken in the whole file confirms it, with the file in the
slot when it marks it for the next boot. -/
theorem confirm_answered (hF : F.Lawful) (hfault : F.Faultless)
    (hboot : ∀ d permanent,(F.bootRequest d permanent).1=true) (h : Loading F file s file.length) :
    ((canParties F cfg file test).device s (confirmMessage test)).2=
        [(fwCodeConfirm,0x55AA55AA)] ∧
      ∃ d,F.slot d=F.padded file ∧
        ((canParties F cfg file test).device s (confirmMessage test)).1.device=
          (F.bootRequest d (if test then 0 else 1)).2 := by
  have hwords := confirmMessage_words test
  have hstream := h.streamed
  rw [List.take_length] at hstream
  have hflush := hfault.flush_ok s.device
  have hslot := hF.flush_ok s.device file hstream hflush
  have hcount : s.written=s.totalSize := h.written.trans h.totalSize.symm
  dsimp only [canParties]
  rw [canFwRxThread_confirm F cfg s ⟨rfl,hwords.1⟩,handleConfirm,
    if_neg (by rw [h.isOpen]; decide)]
  dsimp only
  rw [if_neg (not_not.mpr hcount),hboot,hwords.2]
  exact ⟨rfl,_,hslot,rfl⟩

/-- Against an idle device without faults, for every file that fits in the slot,
the tool and the device stay in lock step: every interleaving is finite, keeps
at most eight frames and one reply under way, brings the tool the replies it
waits for and no other, and can only end with the upload reported and the file
in the slot. -/
theorem upgrade_lockStep (hF : F.Lawful) (hfault : F.Faultless)
    (hboot : ∀ d permanent,(F.bootRequest d permanent).1=true) (hidle : s.imgInitialized=false)
    (hkey : ¬s.keyChunkMask &&& canFwKeyhashFullMask=canFwKeyhashFullMask)
    (hfits : file.length≤F.slotSize) (test : Bool) :
    ∃ deviceEnd : FwState δ,
      (∃ d,F.slot d=F.padded file ∧
        deviceEnd.device=(F.bootRequest d (if test then 0 else 1)).2) ∧
      ∀ n link,Steps (canParties F cfg file test) n (.start .start s) link →
        n≤3*(upgradeTurns file test).length ∧
          Locked (canParties F cfg file test) 8 (upgradeTurns file test) (.ended .uploaded)
            deviceEnd link := by
  have hsize : file.length < 2^32 := Nat.lt_of_le_of_lt hfits hF.slotSize_lt
  obtain ⟨hstart,hloading⟩ := start_answered cfg file test hF hfault hidle hkey
  have hfirst : min (8*0) file.length=0 := Nat.zero_min _
  obtain ⟨t,hdata,ht⟩ := data_answered cfg test hF hfault hfits
    (Nat.zero_add (chunkCount file)) (by rw [hfirst]; exact hloading)
  obtain ⟨hconfirm,d,hslot,hend⟩ :=
    confirm_answered cfg test hF hfault hboot ht
  refine ⟨_,⟨d,hslot,hend⟩,fun n link hsteps => locked_of_steps rfl (follows_upgrade hsize) ?_
    (within_upgrade file test) hsteps⟩
  exact .cons hstart (hdata.append (.cons hconfirm (.nil _)))

/-- A file of one full block and a bit, in both kinds of upgrade. -/
theorem upgrade_lockStep_seventy :
    ∃ deviceEnd : FwState RamFlash,
      (∃ d,(ramFlash 128).slot d=(ramFlash 128).padded (List.replicate 70 1) ∧
        deviceEnd.device=((ramFlash 128).bootRequest d (if true then 0 else 1)).2) ∧
      ∀ n link,Steps (canParties (ramFlash 128) .plain (List.replicate 70 1) true) n
          (.start .start (.boot ⟨List.replicate 128 0,none⟩)) link →
        n≤3*(upgradeTurns (List.replicate 70 1) true).length ∧
          Locked (canParties (ramFlash 128) .plain (List.replicate 70 1) true) 8
            (upgradeTurns (List.replicate 70 1) true) (.ended .uploaded) deviceEnd link :=
  upgrade_lockStep (ramFlash_lawful (by decide)) (ramFlash_faultless 128) (fun _ _ => rfl) rfl
    (by decide) (by decide) true

end Device

end ZephyrApp.UpgradeExchange

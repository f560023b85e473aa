import ZephyrApp.BootloaderImage
import ZephyrApp.UpgradeHost

/-!
# The upgrade tool and the bootloader

The tool on the host against the bootloader. Both count the bytes of the file,
but the bootloader answers a multiple of 4096 below the end of the file with a
line in its log only, where the tool waits for a reply. So the two stay in lock
step for the files of at most 4096 bytes, and every longer upgrade stalls.
-/

namespace ZephyrApp.BootloaderExchange

open MachineBytes CanFrames FlashPages LockStep UpgradeHost
open CanFwUpgrade (RxCanFrame FwCode payload_length commandFrame)
open Bootloader hiding boardStartUpdate boardConfirm

/-- The reply that an action puts on the bus. -/
def responseOf : BootAction → Option Reply
  | .response code value => some (code.number,value)
  | _ => none

section Parties

variable {δ : Type} (F : PagedFlash δ) (appVersion : Word)

/-- The tool and the bootloader. There is no state any more after a byte stored
past the end of the buffer. -/
def bootParties (file : List Byte) (test : Bool) :
    Parties HostState (Option (BootState δ)) RxCanFrame Reply where
  host := firmwareUpgrade file test
  device s frame :=
    match s.bind fun b => fwUpdate F appVersion b frame with
    | none => (none,[])
    | some report => (some report.state,report.actions.filterMap responseOf)

/-- From the start of an upgrade on, every interleaving is finite, brings the
tool one reply at every wait, the offset or at the end of the file success with
the bytes sent, and no other, and can only end with the upload reported. -/
def InLockStep (file : List Byte) (test : Bool) (s : BootState δ) : Prop :=
  ∃ deviceEnd,∀ n link,
    Steps (bootParties F appVersion file test) n (.start .start (some s)) link →
      n≤3*(upgradeTurns file test).length ∧
        Locked (bootParties F appVersion file test) 8 (upgradeTurns file test) (.ended .uploaded)
          deviceEnd link

/-- The bootloader has taken in the first bytes of an announced number. -/
structure Taking (size : ℕ) (s : BootState δ) (taken : ℕ) : Prop where
  /-- The number is announced. -/
  total : s.total.toNat=size
  /-- The bytes taken in are counted. -/
  received : s.received.toNat=taken
  /-- They are not more than announced. -/
  le : taken ≤ size
  /-- The buffer holds those behind the last multiple of its size. -/
  buffer : taken≠size → s.buffer.length=taken%64

end Parties

section Replies

variable {δ : Type} {F : PagedFlash δ} {s t : BootState δ} {bytes : List Byte}
variable {actions : List BootAction}

/-- Between two multiples of 64 in the image no response is due. -/
theorem progress_quiet (hmore : ¬t.total ≤ t.received) (hmod : t.received.toNat%64≠0) :
    progress t=[] := by
  rw [progress,if_neg hmore,if_neg (by omega),if_neg hmod]

/-- The loop over the bytes up to the next full buffer, or to the end of the
image, makes the response that is due at its last byte. -/
theorem feeds_responses (h : Feeds F s bytes t actions) (hbytes : bytes≠[])
    (hbuffer : s.buffer.length=s.received.toNat%64) (hblock : s.buffer.length+bytes.length≤64)
    (hfits : s.received.toNat+bytes.length ≤ s.total.toNat) :
    actions.filterMap responseOf=(progress t).filterMap responseOf ∧
      (¬t.total ≤ t.received → t.buffer.length=t.received.toNat%64) := by
  induction h with
  | nil s => exact absurd rfl hbytes
  | done s bytes full =>
    have hpos := List.length_pos_iff.mpr hbytes
    rw [BitVec.le_def] at full
    omega
  | @step s m t b bytes first rest more stored tail ih =>
    have hcase := storeByte_stored F s stored
    obtain ⟨hsucc,hlt⟩ := received_succ more
    rw [List.length_cons] at hblock hfits
    have hlast : bytes=[] → t=m ∧ rest=[] := by
      intro hnil
      rw [hnil] at tail
      cases tail with
      | nil => exact ⟨rfl,rfl⟩
      | done _ _ _ => exact ⟨rfl,rfl⟩
    cases hcase with
    | kept room hnext =>
      have hmod : (s.buffer++[b]).length=(s.received+1).toNat%64 := by
        rw [List.length_append,List.length_singleton,hsucc]
        unfold flashBufferSize at room
        omega
      by_cases hnil : bytes=[]
      · obtain ⟨rfl,rfl⟩ := hlast hnil
        refine ⟨?_,fun _ => hmod⟩
        have hquiet : progress {s with buffer := s.buffer++[b],received := s.received+1}=[] := by
          refine progress_quiet hnext ?_
          rw [List.length_append,List.length_singleton] at hmod
          dsimp only
          omega
        rw [hquiet]
        rfl
      · refine ih hnil hmod ?_ ?_
        · dsimp only
          rw [List.length_append,List.length_singleton]
          omega
        · dsimp only
          omega
    | flushed room due ok =>
      have hnil : bytes=[] := by
        apply List.length_eq_zero_iff.mp
        unfold flashBufferSize at due
        rw [BitVec.le_def,hsucc] at due
        omega
      obtain ⟨rfl,rfl⟩ := hlast hnil
      rw [List.append_nil]
      refine ⟨rfl,fun hmore => ?_⟩
      have hfull := due.resolve_right hmore
      dsimp only [BootState.written]
      unfold flashBufferSize at hfull
      rw [hsucc,List.length_nil]
      omega

/-- The response after a successful write has the schedule of the tool, except
at a multiple of 4096 below the end of the image. -/
theorem progress_responseOf {size taken : ℕ} (htotal : t.total.toNat=size)
    (hreceived : t.received=BitVec.ofNat 32 taken) (hle : taken ≤ size) (hsize : size < 2^32) :
    (progress t).filterMap responseOf=
      if taken=size then [(fwCodeUpdateSuccess,BitVec.ofNat 32 size)]
      else if taken%4096=0 then []
      else if taken%64=0 then [(fwCodeOffset,BitVec.ofNat 32 taken)]
      else [] := by
  have hcount : t.received.toNat=taken := by
    rw [hreceived,word_toNat (Nat.lt_of_le_of_lt hle hsize)]
  have hfull : t.total ≤ t.received ↔ taken=size := by
    rw [BitVec.le_def,htotal,hcount]
    omega
  simp only [progress,hfull,hcount]
  split
  · rename_i hend
    rw [hreceived,hend]
    rfl
  · split
    · rfl
    · split
      · rw [hreceived]
        rfl
      · rfl

end Replies

section Device

variable {δ : Type} {F : PagedFlash δ} {appVersion : Word} {file : List Byte} {test : Bool}
variable {b : BootState δ} {i n : ℕ}

variable (appVersion file test) in
/-- The bootloader accepts the start message in every state. -/
theorem start_answered (hF : F.Lawful) (hfault : F.Faultless) (hlow : F.Boundary appStart)
    (hhigh : F.Boundary appEnd) (hpages : F.Covers appStart appEnd)
    (hsize : file.length < 2^32) (b : BootState δ) :
    ∃ c,Taking file.length c 0 ∧ ∀ turns e,
      Answers (bootParties F appVersion file test).device (some c) turns e →
      Answers (bootParties F appVersion file test).device (some b)
        ((startMessage file,some (fwCodeOffset,0))::turns) e := by
  have hregion : appStart+flashAppSize=appEnd := by decide
  have hwords := startMessage_words file
  have hs : IsFullStart (startMessage file) := ⟨rfl,hwords.1,rfl⟩
  have hbelow : appStart+min flashAppSize ((startMessage file).data32 1).toNat ≤ appEnd := by
    omega
  have hok : (startErase F b (startMessage file)).1=true :=
    eraseLoop_faultless hF hfault hhigh hlow hbelow hpages
  have hsilent : (startErase F b (startMessage file)).2.2.filterMap responseOf=[] := by
    rw [List.filterMap_eq_nil_iff]
    intro a ha
    obtain ⟨start,size,ok,rfl⟩ := eraseLoop_erases a ha
    rfl
  have hupdate := fwUpdate_start F appVersion b hs
  rw [handleStart_eq F b hs.2.2,if_pos hok,if_pos hok] at hupdate
  refine ⟨⟨(startErase F b (startMessage file)).2.1,[],flashAppStartAddr,
    (startMessage file).data32 1,0⟩,⟨?_,rfl,Nat.zero_le _,fun _ => rfl⟩,fun turns e hrest => ?_⟩
  · dsimp only
    rw [hwords.2,word_toNat hsize]
  · refine .cons ?_ ?_
    · dsimp only [bootParties]
      rw [Option.bind_some,hupdate]
      dsimp only
      rw [List.filterMap_append,hsilent]
      rfl
    · dsimp only [bootParties] at hrest ⊢
      rw [Option.bind_some,hupdate]
      exact hrest

variable (appVersion test) in
/-- The bootloader takes in the next chunk, and answers it as the tool expects
except at a multiple of 4096 below the end of the file. -/
theorem chunk_answered (hfault : F.Faultless) (hsize : file.length < 2^32)
    (hlt : 8*i < file.length) (h : Taking file.length b (8*i)) :
    ∃ c,(bootParties F appVersion file test).device (some b) (dataMessage (chunkAt file (8*i)))=
        (some c,if sentAfter file i≠file.length ∧ sentAfter file i%4096=0 then []
          else (dataTurn file i).2.toList) ∧ Taking file.length c (sentAfter file i) := by
  have hchunk := chunkAt_length file (8*i)
  have hsent := sentAfter_eq hlt
  have hle : sentAfter file i≤file.length := Nat.min_le_right _ _
  have hpayload : (dataMessage (chunkAt file (8*i))).payload=chunkAt file (8*i) :=
    dataMessage_payload (by omega)
  have hdata : IsData (dataMessage (chunkAt file (8*i))) := rfl
  have hbuffer := h.buffer hlt.ne
  have hreceived := h.received
  have htotal := h.total
  have hmore : ¬b.total ≤ b.received := by
    rw [BitVec.le_def]
    omega
  obtain ⟨c,actions,hfeeds⟩ := feeds_faultless hfault
    (by rw [hbuffer]; exact Nat.mod_lt _ (by decide)) (chunkAt file (8*i))
  obtain ⟨hreplies,hrest⟩ := feeds_responses hfeeds (chunkAt_ne_nil hlt) (by omega) (by omega)
    (by omega)
  have hcount := hfeeds.received_eq (by rw [BitVec.le_def]; omega)
  have hword : c.received=BitVec.ofNat 32 (sentAfter file i) := by
    apply BitVec.eq_of_toNat_eq
    rw [word_toNat (Nat.lt_of_le_of_lt hle hsize)]
    omega
  have hc : c.total.toNat=file.length := by
    rw [hfeeds.total_eq,htotal]
  have htaking : Taking file.length c (sentAfter file i) := by
    refine ⟨hc,by omega,hle,fun hend => ?_⟩
    have hnext := hrest (by rw [BitVec.le_def]; omega)
    omega
  refine ⟨c,?_,htaking⟩
  dsimp only [bootParties]
  rw [Option.bind_some,fwUpdate_data F appVersion b hdata,handleData,
    if_neg hmore,hpayload,hfeeds.dataLoop_eq]
  dsimp only
  rw [hreplies,progress_responseOf hc hword hle hsize,dataTurn]
  dsimp only
  by_cases hend : sentAfter file i=file.length
  · rw [if_pos hend,if_pos hend,if_neg fun hn => hn.1 hend]
    rfl
  · rw [if_neg hend,if_neg hend]
    by_cases hlog : sentAfter file i%4096=0
    · rw [if_pos hlog,if_pos ⟨hend,hlog⟩]
    · rw [if_neg hlog,if_neg (fun hn : _ ∧ _ => hlog hn.2)]
      split
      · rfl
      · rfl

variable (appVersion test) in
/-- Up to the first multiple of 4096 the bootloader answers the chunks as their
turns say. -/
theorem data_answered (hfault : F.Faultless) (hsize : file.length < 2^32)
    (hi : i+n≤chunkCount file) (hlog : 8*(i+n) < 4096 ∨ file.length≤4096)
    (h : Taking file.length b (min (8*i) file.length)) :
    ∃ c,Answers (bootParties F appVersion file test).device (some b) (dataTurns file i n) (some c) ∧
      Taking file.length c (min (8*(i+n)) file.length) := by
  induction n generalizing i b with
  | zero => exact ⟨b,.nil _,h⟩
  | succ n ih =>
    have hlt : 8*i < file.length := by
      unfold chunkCount at hi
      omega
    rw [Nat.min_eq_left hlt.le] at h
    obtain ⟨c,hanswer,hc⟩ := chunk_answered appVersion test hfault hsize hlt h
    rw [if_neg (by unfold sentAfter; omega)] at hanswer
    have hsent : sentAfter file i=min (8*(i+1)) file.length := rfl
    rw [hsent] at hc
    obtain ⟨e,hrest,he⟩ := ih (i := i+1) (by omega) (by omega) hc
    have hindex : i+1+n=i+(n+1) := by omega
    rw [hindex] at he
    rw [dataTurns_succ]
    refine ⟨e,.cons ?_ ?_,he⟩
    · rw [hanswer]
      rfl
    · rw [hanswer]
      exact hrest

variable (F appVersion file test) in
/-- The bootloader confirms a complete image. -/
theorem confirm_answered (h : Taking file.length b file.length) :
    ∃ e,Answers (bootParties F appVersion file test).device (some b)
      [(confirmMessage test,some (fwCodeConfirm,0x55AA55AA))] e := by
  have hwords := confirmMessage_words test
  have hequal : b.received=b.total := BitVec.eq_of_toNat_eq (h.received.trans h.total.symm)
  obtain ⟨hreceived,hsize⟩ := flushBuffer_sizes F b
  have hsilent : (flushBuffer F b).2.filterMap responseOf=[] := by
    obtain ⟨-,hnone⟩ | ⟨-,hwrite⟩ := flushBuffer_actions F b
    · rw [hnone]
      rfl
    · rw [hwrite]
      rfl
  refine ⟨_,.cons ?_ (.nil _)⟩
  dsimp only [bootParties]
  rw [Option.bind_some,fwUpdate_confirm F appVersion b ⟨rfl,hwords.1⟩,handleConfirm]
  dsimp only
  rw [if_neg (not_not.mpr (hreceived.trans (hequal.trans hsize.symm))),List.filterMap_append,
    hsilent]
  rfl

variable (appVersion test) in
/-- A longer upgrade stalls at the first multiple of 4096. -/
theorem upgrade_stalls (hF : F.Lawful) (hfault : F.Faultless) (hlow : F.Boundary appStart)
    (hhigh : F.Boundary appEnd) (hpages : F.Covers appStart appEnd)
    (hfits : file.length≤flashAppSize) (hlong : 4096 < file.length) (b : BootState δ) :
    ∃ n link,Steps (bootParties F appVersion file test) n (.start .start (some b)) link ∧
      Stalled (bootParties F appVersion file test) link := by
  have hregion : flashAppSize=0x30000 := rfl
  have hsize : file.length < 2^32 := by omega
  obtain ⟨c,hc,hstart⟩ :=
    start_answered appVersion file test hF hfault hlow hhigh hpages hsize b
  have hfirst : min (8*0) file.length=0 := Nat.zero_min _
  rw [←hfirst] at hc
  obtain ⟨d,hdata,hd⟩ := data_answered (n := 511) appVersion test hfault hsize
    (by unfold chunkCount; omega) (Or.inl (by decide)) hc
  have hlast : min (8*(0+511)) file.length=8*511 := by omega
  have hsent : sentAfter file 511=4096 := by
    unfold sentAfter
    omega
  rw [hlast] at hd
  obtain ⟨e,hanswer,-⟩ := chunk_answered appVersion test hfault hsize (by omega) hd
  rw [hsent,if_pos ⟨by omega,rfl⟩] at hanswer
  have hsend := upload_sends (i := 511) test (by omega : 8*511 < file.length)
  rw [hsent,if_neg fun hn => hn.1 rfl] at hsend
  have hpart := follows_part (i := 0) (n := 511) test (by omega : 8*(0+511) < file.length)
  have hfollows : Follows (firmwareUpgrade file test) .start
      ((startMessage file,some (fwCodeOffset,0))::dataTurns file 0 511) (.upload (8*511)) :=
    .awaited (start_sends test hsize) rfl hpart
  exact stalls hfollows (hstart _ _ hdata) hsend rfl (by rw [hanswer])

variable (appVersion test) in
/-- On a device without faults, for every file up to the size of the region and
every state of the bootloader, the two stay in lock step exactly for the files
of at most 4096 bytes. -/
theorem inLockStep_iff (hF : F.Lawful) (hfault : F.Faultless) (hlow : F.Boundary appStart)
    (hhigh : F.Boundary appEnd) (hpages : F.Covers appStart appEnd)
    (hfits : file.length≤flashAppSize) (b : BootState δ) :
    InLockStep F appVersion file test b ↔ file.length≤4096 := by
  constructor
  · rintro ⟨deviceEnd,hlocked⟩
    by_contra hlong
    obtain ⟨n,link,hsteps,hstalled⟩ := upgrade_stalls appVersion test hF hfault hlow hhigh hpages
      hfits (Nat.lt_of_not_le hlong) b
    exact (hlocked n link hsteps).2.not_stalled rfl hstalled
  · intro hshort
    have hregion : flashAppSize=0x30000 := rfl
    have hsize : file.length < 2^32 := by omega
    obtain ⟨c,hc,hstart⟩ :=
      start_answered appVersion file test hF hfault hlow hhigh hpages hsize b
    have hfirst : min (8*0) file.length=0 := Nat.zero_min _
    rw [←hfirst] at hc
    obtain ⟨d,hdata,hd⟩ := data_answered (n := chunkCount file) appVersion test hfault hsize
      (Nat.zero_add _).le (Or.inr hshort) hc
    have hall : min (8*(0+chunkCount file)) file.length=file.length := by
      unfold chunkCount
      omega
    rw [hall] at hd
    obtain ⟨e,hconfirm⟩ := confirm_answered F appVersion file test hd
    have hanswers := hstart _ _ (hdata.append hconfirm)
    exact ⟨e,fun n link hsteps => locked_of_steps rfl (follows_upgrade hsize) hanswers
      (within_upgrade file test) hsteps⟩

/-- A file of one full block and a bit is uploaded. -/
theorem inLockStep_iff_seventy :
    InLockStep (ramPages 2048) 0 (List.replicate 70 1) false (.boot fun _ => 0) :=
  (inLockStep_iff 0 false (ramPages_lawful 2048) (ramPages_faultless 2048)
    (ramPages_boundary (by decide)) (ramPages_boundary (by decide))
    (ramPages_covers (by decide) _ _) (by decide) (.boot fun _ => 0)).mpr (by decide)

/-- A file of 4097 bytes fits, and its upload stalls: the tool waits for a reply
after 4096 bytes, and the bootloader has taken all frames without sending one. -/
theorem inLockStep_fails :
    (List.replicate 4097 (0 : Byte)).length≤flashAppSize ∧
      ¬InLockStep (ramPages 2048) 0 (List.replicate 4097 0) false (.boot fun _ => 0) ∧
      ∃ n link,Steps (bootParties (ramPages 2048) 0 (List.replicate 4097 0) false) n
          (.start .start (some (.boot fun _ => 0))) link ∧
        Stalled (bootParties (ramPages 2048) 0 (List.replicate 4097 0) false) link := by
  have hlength : (List.replicate 4097 (0 : Byte)).length=4097 := List.length_replicate
  have hregion : flashAppSize=0x30000 := rfl
  have hfits : (List.replicate 4097 (0 : Byte)).length≤flashAppSize := by omega
  obtain ⟨n,link,hsteps,hstalled⟩ := upgrade_stalls 0 false (ramPages_lawful 2048)
    (ramPages_faultless 2048) (ramPages_boundary (by decide)) (ramPages_boundary (by decide))
    (ramPages_covers (by decide) _ _) hfits (by omega) (.boot fun _ => 0)
  refine ⟨hfits,?_,n,link,hsteps,hstalled⟩
  rintro ⟨deviceEnd,hlocked⟩
  exact (hlocked n link hsteps).2.not_stalled rfl hstalled

end Device

end ZephyrApp.BootloaderExchange

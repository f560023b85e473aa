import ZephyrApp.BootloaderImage

/-!
# The region that the bootloader may touch

The erase loop is clipped to the application region, and stays inside it. The
write address moves over the whole transfer and is not clipped: it stays inside
as long as no more bytes are received than the region has. A transfer that goes
on beyond it writes past the end.
-/

namespace ZephyrApp.Bootloader

open MachineBytes CanFrames FlashPages EventRuns
open CanFwUpgrade (RxCanFrame FwCode payload_length commandFrame dataFrame)

section Erasing

variable {δ : Type} {F : PagedFlash δ}

/-- The call that erases a page, with a good outcome. -/
def eraseCall (page : Page) : BootAction := .erase page.start page.size true

/-- If no call fails, the erase loop ends after as many passes as there are
pages that meet the range, and has erased each of them once, in order. -/
theorem eraseLoop_tiles (hF : F.Lawful)
    (hok : ∀ d a page,F.pageInfo a=some page → (F.erase d page.start page.size).1=true)
    {hi : ℕ} (hhi : F.Boundary hi) (size : ℕ) (d : δ) {addr : ℕ} (haddr : F.Boundary addr)
    (hsize : addr+size≤hi) (hpages : F.Covers addr hi) :
    ∃ pages d',F.Tiles addr (addr+size) pages ∧ pages.length ≤ size ∧ ∀ fuel,pages.length≤fuel →
      eraseLoop F fuel d addr size=(true,d',pages.map eraseCall) := by
  induction size using Nat.strong_induction_on generalizing d addr with
  | _ size ih =>
  by_cases hpos : 0 < size
  · obtain ⟨page,hpage⟩ := Option.isSome_iff_exists.mp (hpages addr (le_refl addr) (by omega))
    have hstart := page_start hF haddr hpage
    have hsome := page_size_pos hF hpage
    have hend : page.start+page.size≤hi := (hhi addr page hpage).resolve_right (by omega)
    have hnext := page_end_boundary hF hpage
    rw [hstart] at hnext hend
    set left := if page.size ≤ size then size-page.size else 0 with hleft
    have hrange : addr+page.size+left=max (addr+size) (addr+page.size) := by
      rw [hleft]
      split <;> omega
    have hless : left < size := by
      rw [hleft]
      split <;> omega
    obtain ⟨rest,d',htiles,hcount,hrun⟩ := ih left hless (F.erase d page.start page.size).2 hnext
      (by omega) fun a ha => hpages a (by omega)
    rw [hrange] at htiles
    refine ⟨page::rest,d',tiles_cons hF (by omega) hpage hstart htiles,
      Nat.succ_le_of_lt (Nat.lt_of_le_of_lt hcount hless),fun fuel hfuel => ?_⟩
    cases fuel with
    | zero => exact absurd hfuel (Nat.not_succ_le_zero _)
    | succ fuel =>
      have herase := hok d addr page hpage
      rw [eraseLoop,if_pos hpos,hpage]
      dsimp only
      rw [if_neg (by rw [herase]; decide),←hleft,hrun fuel (Nat.le_of_succ_le_succ hfuel),herase]
      rfl
  · refine ⟨[],d,tiles_nil F (by omega),Nat.zero_le _,fun fuel _ => ?_⟩
    cases fuel with
    | zero => rfl
    | succ fuel =>
      rw [eraseLoop,if_neg hpos]
      rfl

/-- If no flash call fails, the erase loop of a full start command ends after
as many passes as there are pages that meet the announced part of the region;
it has erased each of them once, in ascending order, and nothing outside the
region, and the command is answered. -/
theorem start_erases_tiles (hF : F.Lawful) (hlow : F.Boundary appStart)
    (hhigh : F.Boundary appEnd) (hpages : F.Covers appStart appEnd)
    (hok : ∀ d a page,F.pageInfo a=some page → (F.erase d page.start page.size).1=true)
    (appVersion : Word) (s : BootState δ) {frame : RxCanFrame} (hs : IsFullStart frame) :
    ∃ pages d',F.Tiles appStart (appStart+min flashAppSize (frame.data32 1).toNat) pages ∧
      (∀ page∈pages,appStart≤page.start ∧ page.start+page.size≤appEnd) ∧
      (∀ fuel,pages.length≤fuel →
        eraseLoop F fuel s.device appStart (min flashAppSize (frame.data32 1).toNat)=
          (true,d',pages.map eraseCall)) ∧
      fwUpdate F appVersion s frame=some ⟨⟨d',[],flashAppStartAddr,frame.data32 1,0⟩,
        pages.map eraseCall++[.response .offset 0],0⟩ := by
  have hregion : appStart+flashAppSize=appEnd := by decide
  set n := min flashAppSize (frame.data32 1).toNat with hn
  have hbelow : appStart+n≤appEnd := by omega
  obtain ⟨pages,d',htiles,hcount,hrun⟩ :=
    eraseLoop_tiles hF hok hhigh n s.device hlow hbelow hpages
  have hstart : startErase F s frame=(true,d',pages.map eraseCall) := hrun n hcount
  refine ⟨pages,d',htiles,htiles.inside hF hlow hhigh hbelow,hrun,?_⟩
  rw [fwUpdate_start F appVersion s hs,handleStart_eq F s hs.2.2,hstart]
  rfl

/-- An image of 5000 bytes meets three pages of 2048 bytes, which are erased in turn. -/
theorem start_erases_tiles_three :
    (eraseLoop (ramPages 2048) 3 (fun _ => 0) appStart 5000).2.2=
      [eraseCall ⟨appStart,2048⟩,eraseCall ⟨appStart+2048,2048⟩,
        eraseCall ⟨appStart+4096,2048⟩] ∧
    ∃ pages d',(ramPages 2048).Tiles appStart (appStart+min flashAppSize
        ((commandFrame boardStartUpdate 5000).data32 1).toNat) pages ∧
      (∀ page∈pages,appStart≤page.start ∧ page.start+page.size≤appEnd) ∧
      (∀ fuel,pages.length≤fuel →
        eraseLoop (ramPages 2048) fuel (fun _ => 0) appStart (min flashAppSize
          ((commandFrame boardStartUpdate 5000).data32 1).toNat)=
            (true,d',pages.map eraseCall)) ∧
      fwUpdate (ramPages 2048) 0 (.boot fun _ => 0) (commandFrame boardStartUpdate 5000)=
        some ⟨⟨d',[],flashAppStartAddr,(commandFrame boardStartUpdate 5000).data32 1,0⟩,
          pages.map eraseCall++[.response .offset 0],0⟩ :=
  ⟨by decide,start_erases_tiles (ramPages_lawful 2048) (ramPages_boundary (by decide))
    (ramPages_boundary (by decide)) (ramPages_covers (by decide) _ _)
    (ramPages_faultless 2048).erase_ok 0 (.boot fun _ => 0) (by decide)⟩

end Erasing

section Runs

variable {δ : Type} (F : PagedFlash δ) (appVersion : Word)

/-- At one frame, the statics are sound, and every flash operation stays inside
the application region. -/
def Confined (r : Option (BootRun δ)) (frame : RxCanFrame) : Prop :=
  ∃ x∈r,∃ report∈fwUpdate F appVersion x.boot frame,∀ a∈report.actions,a.Inside appStart appEnd

/-- A data frame that is taken finds room in the buffer, and does not bring the
number of received bytes beyond the size of the region. -/
def RegionKept (r : Option (BootRun δ)) (frame : RxCanFrame) : Prop :=
  ∀ x∈r,IsData frame → ¬x.boot.total ≤ x.boot.received → 0 < canDlcToBytes frame.dlc →
    x.boot.buffer.length < flashBufferSize ∧
      min (x.boot.received.toNat+canDlcToBytes frame.dlc) x.boot.total.toNat ≤ flashAppSize

/-- The statics are placed, and no more bytes have been received than the region
has. -/
def WithinRegion (s : BootState δ) : Prop := Placed s ∧ s.received.toNat≤flashAppSize

variable {F appVersion} {x : BootRun δ} {frame : RxCanFrame}

/-- The region lies in the address space. -/
theorem region_eq : appStart+flashAppSize=appEnd ∧ appEnd < 2^32 := by decide

/-- The boot state is within the region. -/
theorem withinRegion_boot (d : δ) : WithinRegion (.boot d) := ⟨placed_start d 0,Nat.zero_le _⟩

/-- A start command erases inside the region. -/
theorem start_confined (hF : F.Lawful) (hlow : F.Boundary appStart) (hhigh : F.Boundary appEnd)
    (hs : IsFullStart frame) :
    WithinRegion (handleStart F x.boot frame).state ∧
      ∀ a∈(handleStart F x.boot frame).actions,a.Inside appStart appEnd := by
  have hbelow : appStart+min flashAppSize (frame.data32 1).toNat ≤ appEnd := by
    have hregion := region_eq.1
    omega
  rw [handleStart_eq F x.boot hs.2.2]
  refine ⟨⟨placed_start _ _,Nat.zero_le _⟩,fun a ha => ?_⟩
  rcases List.mem_append.mp ha with ha | ha
  · obtain ⟨start,n,ok,rfl,hstart,hend⟩ := eraseLoop_inside hF hhigh hlow hbelow a ha
    exact ⟨hstart,hend⟩
  · rw [List.mem_singleton.mp ha]
    split <;> trivial

/-- A flush writes inside the region. -/
theorem flush_confined {s : BootState δ} (hr : WithinRegion s) :
    WithinRegion (flushBuffer F s).1 ∧ ∀ a∈(flushBuffer F s).2,a.Inside appStart appEnd := by
  obtain ⟨hplaced,hcount⟩ := hr
  obtain ⟨hregion,hspace⟩ := region_eq
  have haddr := hplaced.addr
  have hcounted := hplaced.counted
  unfold flushBuffer
  split
  · refine ⟨⟨⟨Nat.zero_le _,Nat.zero_le _,?_⟩,hcount⟩,fun a ha => ?_⟩
    · dsimp only
      rw [BitVec.toNat_add,BitVec.toNat_ofNat,List.length_nil]
      omega
    · rw [List.mem_singleton.mp ha]
      dsimp only [BootAction.Inside]
      omega
  · exact ⟨⟨hplaced,hcount⟩,fun a ha => absurd ha List.not_mem_nil⟩

/-- A confirm command flushes inside the region. -/
theorem confirm_confined {s : BootState δ} (hr : WithinRegion s) :
    WithinRegion (handleConfirm F s).state ∧
      ∀ a∈(handleConfirm F s).actions,a.Inside appStart appEnd := by
  obtain ⟨hstate,hinside⟩ := flush_confined (F := F) hr
  unfold handleConfirm
  dsimp only
  split
  · refine ⟨hstate,fun a ha => ?_⟩
    rcases List.mem_append.mp ha with ha | ha
    · exact hinside a ha
    · rw [List.mem_singleton.mp ha]
      trivial
  · refine ⟨withinRegion_boot _,fun a ha => ?_⟩
    rcases List.mem_append.mp ha with ha | ha
    · exact hinside a ha
    · simp only [List.mem_cons,List.not_mem_nil,or_false] at ha
      rcases ha with rfl | rfl <;> trivial

/-- A data frame that meets the condition leaves a state, and writes inside the
region. -/
theorem data_confined (hr : WithinRegion x.boot) (hd : IsData frame)
    (hc : RegionKept (some x) frame) :
    ∃ report,handleData F x.boot frame=some report ∧ WithinRegion report.state ∧
      ∀ a∈report.actions,a.Inside appStart appEnd := by
  obtain ⟨hplaced,hcount⟩ := hr
  obtain ⟨hregion,hspace⟩ := region_eq
  unfold handleData
  split
  · exact ⟨_,rfl,⟨hplaced,hcount⟩,fun a ha => absurd ha List.not_mem_nil⟩
  · rename_i hmore
    by_cases hsize : 0 < canDlcToBytes frame.dlc
    · obtain ⟨hroom,hfits⟩ := hc x rfl hd hmore hsize
      have hsome : (dataLoop F x.boot frame.payload).isSome=true := dataLoop_isSome hroom
      obtain ⟨report,hreport⟩ := Option.isSome_iff_exists.mp hsome
      rw [←payload_length] at hfits
      obtain ⟨hplaced',hcount',hinside⟩ :=
        placed_dataLoop hplaced (by omega) hroom hcount hfits hreport
      rw [hregion] at hinside
      exact ⟨report,hreport,⟨hplaced',hcount'⟩,hinside⟩
    · have hnil : frame.payload=[] := List.length_eq_zero_iff.mp (by
        rw [payload_length]
        omega)
      rw [hnil]
      exact ⟨_,rfl,⟨hplaced,hcount⟩,fun a ha => absurd ha List.not_mem_nil⟩

/-- One frame that meets the condition stays inside the region. -/
theorem confined_step (hF : F.Lawful) (hlow : F.Boundary appStart) (hhigh : F.Boundary appEnd)
    (r : Option (BootRun δ)) (frame : RxCanFrame) (hr : ∃ x∈r,WithinRegion x.boot)
    (hc : RegionKept r frame) :
    (∃ x∈bootStep F appVersion r frame,WithinRegion x.boot) ∧ Confined F appVersion r frame := by
  obtain ⟨x,hx,hrec⟩ := hr
  obtain rfl : r=some x := hx
  have hframe : ∃ report,fwUpdate F appVersion x.boot frame=some report ∧
      WithinRegion report.state ∧ ∀ a∈report.actions,a.Inside appStart appEnd := by
    by_cases hs : IsFullStart frame
    · exact ⟨_,fwUpdate_start F appVersion x.boot hs,start_confined hF hlow hhigh hs⟩
    · by_cases hconf : IsConfirm frame
      · exact ⟨_,fwUpdate_confirm F appVersion x.boot hconf,confirm_confined hrec⟩
      · by_cases hd : IsData frame
        · rw [fwUpdate_data F appVersion x.boot hd]
          exact data_confined hrec hd hc
        · obtain ⟨report,hreport,hplain,hstate⟩ := fwUpdate_other F appVersion x.boot hs hconf hd
          refine ⟨report,hreport,?_,fun a ha => ?_⟩
          · rcases hstate with ⟨hsame,-⟩ | ⟨hboot,-⟩
            · rw [hsame]
              exact hrec
            · rw [hboot]
              exact withinRegion_boot _
          · have hp := hplain a ha
            cases a with
            | response code value => trivial
            | reboot => trivial
            | erase addr size ok => exact absurd hp id
            | write addr bytes ok => exact absurd hp id
            | jump => exact absurd hp id
  obtain ⟨report,hreport,hstate,hinside⟩ := hframe
  refine ⟨⟨⟨report.state,noteSession x.session frame report.actions⟩,?_,hstate⟩,x,rfl,report,
    hreport,hinside⟩
  rw [Option.mem_def,bootStep,Option.bind_some,hreport,Option.map_some]

/-- In every run from boot whose frames all meet the condition, every flash
operation stays inside the application region. -/
theorem confined_runs (hF : F.Lawful) (hlow : F.Boundary appStart) (hhigh : F.Boundary appEnd)
    (device : δ) (frames : List RxCanFrame)
    (h : AlongRun (bootStep F appVersion) RegionKept (some (.booted device)) frames) :
    AlongRun (bootStep F appVersion) (Confined F appVersion) (some (.booted device)) frames :=
  alongRun_of_invariant (confined_step hF hlow hhigh) ⟨_,rfl,withinRegion_boot device⟩ h

instance decidableRegionKept (r : Option (BootRun δ)) (frame : RxCanFrame) :
    Decidable (RegionKept r frame) :=
  match r with
  | none => isTrue fun x hx => absurd hx (Option.not_mem_none x)
  | some x => decidable_of_iff
      (IsData frame → ¬x.boot.total ≤ x.boot.received → 0 < canDlcToBytes frame.dlc →
        x.boot.buffer.length < flashBufferSize ∧
          min (x.boot.received.toNat+canDlcToBytes frame.dlc) x.boot.total.toNat ≤ flashAppSize)
      (by simp [RegionKept,Option.mem_def])

/-- The largest size announced, but only eight bytes sent. -/
theorem confined_runs_short :
    AlongRun (bootStep (ramPages 2048) 0) (Confined (ramPages 2048) 0)
      (some (.booted fun _ => 0))
      [commandFrame boardStartUpdate 0xFFFFFFFF,dataFrame 1,commandFrame boardConfirm 1] :=
  confined_runs (ramPages_lawful 2048) (ramPages_boundary (by decide))
    (ramPages_boundary (by decide)) _ _ (by decide +kernel)

/-- Operations inside a range write addresses of the range. -/
theorem writtenAddrs_inside {lo hi : ℕ} {actions : List BootAction}
    (h : ∀ a∈actions,a.Inside lo hi) : ∀ addr∈writtenAddrs actions,lo≤addr ∧ addr < hi := by
  intro addr haddr
  obtain ⟨a,ha,hin⟩ := List.mem_flatMap.mp haddr
  have hside := h a ha
  cases a with
  | write start bytes ok =>
    obtain ⟨hlow,hhigh⟩ := hside
    rw [List.mem_range'_1] at hin
    omega
  | response code value => exact absurd hin List.not_mem_nil
  | erase start size ok => exact absurd hin List.not_mem_nil
  | jump => exact absurd hin List.not_mem_nil
  | reboot => exact absurd hin List.not_mem_nil

/-- On a device without faults, the data frame that completes an image larger
than the region makes a write past the end of the region. -/
theorem complete_unconfined (hF : F.Lawful) (hfault : F.Faultless) (hlow : F.Boundary appStart)
    (hhigh : F.Boundary appEnd) (hpages : F.Covers appStart appEnd) (x : BootRun δ)
    {start last : RxCanFrame} (hs : IsFullStart start)
    (hlarge : flashAppSize < (start.data32 1).toNat)
    (hspace : appStart+(start.data32 1).toNat < 2^32) {frames : List RxCanFrame}
    (hd : ∀ frame∈frames,IsData frame) (hlast : IsData last)
    (hmore : (frames.flatMap RxCanFrame.payload).length < (start.data32 1).toNat)
    (hdone : (start.data32 1).toNat ≤
      (frames.flatMap RxCanFrame.payload).length+canDlcToBytes last.dlc) :
    ¬Confined F appVersion (finalState (bootStep F appVersion) (some x) (start::frames)) last := by
  obtain ⟨d,ops,-,-,-,hrun⟩ := start_run appVersion hF hfault hlow hhigh hpages x hs
  set n := start.data32 1 with hn
  set stream := frames.flatMap RxCanFrame.payload with hstream
  have hexists : ∃ t actions,Feeds F ⟨d,[],flashAppStartAddr,n,0⟩ stream t actions :=
    feeds_faultless hfault nil_room stream
  obtain ⟨t,actions,hfeeds⟩ := hexists
  obtain ⟨hfinal,-⟩ := hrun frames hd t actions hfeeds
  obtain ⟨y,hy,rfl⟩ := Option.map_eq_some_iff.mp hfinal
  have hstart : (0 : Word) ≤ n := by
    rw [BitVec.le_def]
    exact Nat.zero_le _
  have hroom : y.boot.buffer.length < flashBufferSize := hfeeds.room nil_room
  have htotal : y.boot.total=n := hfeeds.total_eq
  have hcount : y.boot.received.toNat=min (0+stream.length) n.toNat := hfeeds.received_eq hstart
  have hopen : ¬y.boot.total ≤ y.boot.received := by
    rw [BitVec.le_def,htotal,hcount]
    omega
  have hplaced : Placed y.boot := (hfeeds.written (placed_start d n) hspace).1
  obtain ⟨u,rest,hrest⟩ := feeds_faultless hfault hroom last.payload
  have htotal' := hrest.total_eq
  have hcount' := hrest.received_eq (by rw [BitVec.le_def,htotal,hcount]; omega)
  rw [htotal] at htotal' hcount'
  rw [payload_length,hcount] at hcount'
  have hwhole : u.buffer=[] := hrest.whole hopen (by rw [BitVec.le_def,htotal',hcount']; omega)
  obtain ⟨hplaced',k,hk,hwritten⟩ := hrest.written hplaced (by rw [htotal]; exact hspace)
  have haddr := hplaced.addr
  have haddr' := hplaced'.addr
  have hcounted := hplaced.counted
  rw [hwhole,List.length_nil,hcount'] at haddr'
  rw [hcount] at haddr hcounted
  have hregion := region_eq.1
  have hupdate : fwUpdate F appVersion y.boot last=some ⟨u,rest,0⟩ := by
    rw [fwUpdate_data F appVersion y.boot hlast,handleData,if_neg hopen,hrest.dataLoop_eq]
  rw [hy]
  rintro ⟨z,hz,report,hreport,hinside⟩
  obtain rfl := Option.some.inj hz
  obtain rfl := Option.some.inj (hupdate.symm.trans hreport)
  -- the last address of the image is among those written
  have hmem : appStart+n.toNat-1∈writtenAddrs rest := by
    rw [hwritten,List.mem_range'_1]
    omega
  have hbelow := (writtenAddrs_inside hinside _ hmem).2
  omega

/-- Equal frames carry equally many bytes. -/
theorem replicate_payload (k : ℕ) (frame : RxCanFrame) :
    ((List.replicate k frame).flatMap RxCanFrame.payload).length=k*canDlcToBytes frame.dlc := by
  induction k with
  | zero => rw [List.replicate_zero,List.flatMap_nil,List.length_nil,Nat.zero_mul]
  | succ k ih =>
    rw [List.replicate_succ,List.flatMap_cons,List.length_append,ih,payload_length,Nat.succ_mul,
      Nat.add_comm]

/-- A start command may announce more than the region, and the last of the
announced bytes are written past its end. -/
theorem confined_fails :
    ¬AlongRun (bootStep (ramPages 2048) 0) (Confined (ramPages 2048) 0)
      (some (.booted fun _ => 0))
      (commandFrame boardStartUpdate 0x30040::List.replicate 24584 (dataFrame 1)) := by
  intro hrun
  have hn : (commandFrame boardStartUpdate 0x30040).data32 1=0x30040 := by decide
  have hdlc : canDlcToBytes (dataFrame 1).dlc=8 := rfl
  have hdata : IsData (dataFrame 1) := rfl
  have hlength := replicate_payload 24583 (dataFrame 1)
  rw [hdlc] at hlength
  rw [List.replicate_succ',←List.cons_append] at hrun
  refine complete_unconfined (ramPages_lawful 2048) (ramPages_faultless 2048)
    (ramPages_boundary (by decide)) (ramPages_boundary (by decide))
    (ramPages_covers (by decide) _ _) (.booted fun _ => 0) (by decide) ?_ ?_
    (fun frame hf => (List.eq_of_mem_replicate hf).symm ▸ hdata) hdata ?_ ?_
    (AlongRun.at_step hrun)
  · rw [hn]
    decide
  · rw [hn]
    decide
  · rw [hn,hlength]
    decide
  · rw [hn,hlength]
    decide

end Runs

end ZephyrApp.Bootloader

import ZephyrApp.BootloaderImage

/-!
# What the bootloader starts

At every start of the machine the bootloader looks at its key, at a flag that an
application may leave in flash, and at the first two words of the application. The starts,
the frames of an upgrade and the application's own flash operations are the events of one
machine, of which the bootloader runs one part of the time and the application the other.
-/

namespace ZephyrApp.BootSelection

open MachineBytes CanFrames FlashPages EventRuns Bootloader
open CanFwUpgrade (RxCanFrame commandFrame dataFrame)

/-- `FLASH_FLAG_ADDR`. -/
def flashFlagAddr : Word := 0x0803F800

/-- `UPGRADE_FLAG_VALUE`. -/
def upgradeFlagValue : Word := 0x55AADEAD

/-- The pin of the key at a start. -/
inductive KeyPin where
  /-- Held low by the pressed key. -/
  | low
  /-- High. -/
  | high
  /-- The port cannot be read. -/
  | unreadable
  deriving DecidableEq

/-- `gpio_pin_get_dt` of the key, which the board describes as active low. -/
def gpioPinGetKey1 : KeyPin → ℤ
  | .low => 1
  | .high => 0
  | .unreadable => -5

/-- The first two words of an application: a stack pointer in memory and an address to
start from in the application region. -/
def credible (appStackPtr appResetVec : Word) : Bool :=
  decide (0x20000000 ≤ appStackPtr ∧ appStackPtr < 0x2000C000 ∧
    flashAppStartAddr ≤ appResetVec ∧ appResetVec < flashAppEndAddr)

section Decision

variable {δ : Type} (F : PagedFlash δ)

/-- `VerifyAppFirmware`. -/
def verifyAppFirmware (d : δ) : Bool := credible (F.word d appStart) (F.word d (appStart+4))

/-- `CheckUpgradeFlag`. -/
def checkUpgradeFlag (d : δ) : Bool := decide (F.word d flashFlagAddr.toNat=upgradeFlagValue)

/-- `ClearUpgradeFlag`. Neither outcome is looked at: without a page of the flag nothing is
known of what is erased. -/
def clearUpgradeFlag (d : δ) : Option δ :=
  (F.pageInfo flashFlagAddr.toNat).map fun page => (F.erase d page.start page.size).2

/-- `enter_upgrade_mode`. -/
def enterUpgradeMode (key : KeyPin) (d : δ) : Option (Bool×δ) :=
  if gpioPinGetKey1 key=0 then some (true,d)
  else if checkUpgradeFlag F d then (clearUpgradeFlag F d).map fun d => (true,d)
  else some (false,d)

/-- `JumpToApp`: the stack pointer and the address that it ends with. -/
def jumpToApp (d : δ) : Word×Word := (F.word d appStart,F.word d (appStart+4))

end Decision

/-- What runs. -/
inductive Machine (δ : Type) where
  /-- The bootloader, with the lamps of upgrade mode and of no credible application. -/
  | loader (s : BootState δ) (led1 led2 : Bool)
  /-- The application, started with a stack pointer and an address. -/
  | app (vectors : Word×Word) (d : δ)
  /-- Nothing is known any more. -/
  | lost

/-- What happens to the machine. -/
inductive MachineEvent where
  /-- It is restarted. -/
  | reset (key : KeyPin)
  /-- A frame arrives; the key matters if the frame restarts the machine. -/
  | frame (frame : RxCanFrame) (key : KeyPin)
  /-- The application erases some flash. -/
  | appErase (addr size : ℕ)
  /-- The application writes some flash. -/
  | appWrite (addr : ℕ) (bytes : List Byte)

/-- Whether a frame has restarted the system. -/
def restarts (actions : List BootAction) : Bool :=
  actions.any fun
    | .reboot => true
    | _ => false

/-- Whether a frame has left the bootloader for the application. -/
def jumps (actions : List BootAction) : Bool :=
  actions.any fun
    | .jump => true
    | _ => false

section Steps

variable {δ : Type} (F : PagedFlash δ) (appVersion : Word)

/-- `main`. -/
def bootMain (key : KeyPin) (d : δ) : Machine δ :=
  match enterUpgradeMode F key d with
  | none => .lost
  | some (true,d) => .loader (.boot d) true false
  | some (false,d) =>
    if verifyAppFirmware F d then .app (jumpToApp F d) d else .loader (.boot d) false true

/-- The flash of the machine, as long as something is known. -/
def Machine.device? : Machine δ → Option δ
  | .loader s _ _ => some s.device
  | .app _ d => some d
  | .lost => none

/-- A frame that the bootloader takes. -/
def takeFrame (s : BootState δ) (led1 led2 : Bool) (frame : RxCanFrame) (key : KeyPin) :
    Machine δ :=
  match fwUpdate F appVersion s frame with
  | none => .lost
  | some report =>
    if restarts report.actions then bootMain F key report.state.device
    else if jumps report.actions then
      let d := (flushBuffer F s).1.device
      .app (jumpToApp F d) d
    else .loader report.state led1 led2

/-- One event. -/
def machineNext (m : Machine δ) : MachineEvent → Machine δ
  | .reset key =>
    match m.device? with
    | none => .lost
    | some d => bootMain F key (F.restart d)
  | .frame frame key =>
    match m with
    | .loader s led1 led2 => takeFrame F appVersion s led1 led2 frame key
    | m => m
  | .appErase addr size =>
    match m with
    | .app vectors d => .app vectors (F.erase d addr size).2
    | m => m
  | .appWrite addr bytes =>
    match m with
    | .app vectors d => .app vectors (F.write d addr bytes).2
    | m => m

end Steps

section Starts

variable {δ : Type} {F : PagedFlash δ} {d d' : δ}

/-- The decision depends on the contents of the flash only. -/
theorem verifyAppFirmware_congr (h : ∀ a,F.read d a=F.read d' a) :
    verifyAppFirmware F d=verifyAppFirmware F d' := by
  unfold verifyAppFirmware
  rw [word_congr fun b _ _ => h b,word_congr fun b _ _ => h b]

/-- So does the address that the application is started from. -/
theorem jumpToApp_congr (h : ∀ a,F.read d a=F.read d' a) : jumpToApp F d=jumpToApp F d' := by
  unfold jumpToApp
  rw [word_congr fun b _ _ => h b,word_congr fun b _ _ => h b]

/-- So does the flag. -/
theorem checkUpgradeFlag_congr (h : ∀ a,F.read d a=F.read d' a) :
    checkUpgradeFlag F d=checkUpgradeFlag F d' := by
  unfold checkUpgradeFlag
  rw [word_congr fun b _ _ => h b]

/-- A key that reads as zero enters upgrade mode, and the flag stays. -/
theorem bootMain_key {key : KeyPin} (hkey : gpioPinGetKey1 key=0) :
    bootMain F key d=.loader (.boot d) true false := by
  rw [bootMain,enterUpgradeMode,if_pos hkey]

/-- The flag enters upgrade mode, and is erased with its page. -/
theorem bootMain_flag {key : KeyPin} (hkey : gpioPinGetKey1 key≠0)
    (hflag : checkUpgradeFlag F d=true) {page : Page}
    (hpage : F.pageInfo flashFlagAddr.toNat=some page) :
    bootMain F key d=.loader (.boot (F.erase d page.start page.size).2) true false := by
  rw [bootMain,enterUpgradeMode,if_neg hkey,if_pos hflag,clearUpgradeFlag,hpage]
  rfl

/-- Otherwise the application is started if it is credible. -/
theorem bootMain_app {key : KeyPin} (hkey : gpioPinGetKey1 key≠0)
    (hflag : checkUpgradeFlag F d=false) :
    bootMain F key d=
      if verifyAppFirmware F d then .app (jumpToApp F d) d else .loader (.boot d) false true := by
  rw [bootMain,enterUpgradeMode,if_neg hkey,hflag]
  rfl

/-- A start runs the application exactly when the key does not read as zero, the flag is
not set and the application is credible. -/
theorem bootMain_app_iff {key : KeyPin} :
    (∃ v d',bootMain F key d=.app v d') ↔
      gpioPinGetKey1 key≠0 ∧ checkUpgradeFlag F d=false ∧ verifyAppFirmware F d=true := by
  by_cases hkey : gpioPinGetKey1 key=0
  · rw [bootMain_key hkey]
    exact iff_of_false (by simp) fun h => h.1 hkey
  · cases hflag : checkUpgradeFlag F d with
    | true =>
      refine iff_of_false ?_ fun h => Bool.noConfusion h.2.1
      rw [bootMain,enterUpgradeMode,if_neg hkey,if_pos hflag,clearUpgradeFlag]
      cases F.pageInfo flashFlagAddr.toNat with
      | none => simp
      | some page => simp
    | false =>
      rw [bootMain_app hkey hflag]
      cases hvalid : verifyAppFirmware F d with
      | true => exact iff_of_true ⟨_,_,rfl⟩ ⟨hkey,rfl,rfl⟩
      | false => exact iff_of_false (by simp) fun h => Bool.noConfusion h.2.2

/-- Restarting the machine depends on its flash only. -/
theorem reset_eq {appVersion : Word} {m : Machine δ} (h : m.device?=some d) (key : KeyPin) :
    machineNext F appVersion m (.reset key)=bootMain F key (F.restart d) := by
  rw [machineNext,h]

end Starts

section Upgrade

variable {δ : Type} {F : PagedFlash δ} {s t : BootState δ} {bytes : List Byte}
variable {actions : List BootAction} {announced : Word} {stream : List Byte}

/-- The erase loop clears the pages that meet its range, and nothing else. -/
theorem eraseLoop_reads (hF : F.Lawful) (hfault : F.Faultless) {hi : ℕ} (hhi : F.Boundary hi)
    {fuel : ℕ} {d : δ} {addr size : ℕ} (haddr : F.Boundary addr) (hfuel : size≤fuel)
    (hsize : addr+size≤hi) (hpages : F.Covers addr hi) (b : ℕ) :
    (F.Meets b addr (addr+size) → F.read (eraseLoop F fuel d addr size).2.1 b=0xFF) ∧
      (¬F.Meets b addr (addr+size) →
        F.read (eraseLoop F fuel d addr size).2.1 b=F.read d b) := by
  induction fuel generalizing d addr size with
  | zero =>
    refine ⟨?_,fun _ => rfl⟩
    rintro ⟨p,c,-,hlo,hc,-⟩
    omega
  | succ fuel ih =>
    rw [eraseLoop]
    by_cases hpos : 0 < size
    · obtain ⟨page,hpage⟩ := Option.isSome_iff_exists.mp (hpages addr (le_refl addr) (by omega))
      have hstart := page_start hF haddr hpage
      have hsome := page_size_pos hF hpage
      have hend : page.start+page.size≤hi := (hhi addr page hpage).resolve_right (by omega)
      have hnext := page_end_boundary hF hpage
      have hok := hfault.erase_ok d addr page hpage
      have hread := hF.erase_ok d addr page hpage hok b
      rw [meets_cons hF hpage hstart (by omega),if_pos hpos,hpage]
      dsimp only
      rw [if_neg (by rw [hok]; decide)]
      rw [hstart] at hnext hend hread hok ⊢
      set left := if page.size ≤ size then size-page.size else 0 with hleft
      have hrange : addr+page.size+left=max (addr+size) (addr+page.size) := by
        rw [hleft]
        split <;> omega
      have hless : left≤fuel := by
        rw [hleft]
        split <;> omega
      have hbelow : addr+page.size+left≤hi := by
        rw [hleft]
        split <;> omega
      obtain ⟨hmet,hrest⟩ := ih (d := (F.erase d addr page.size).2) hnext hless hbelow
        fun a ha => hpages a (by omega)
      rw [hrange] at hmet hrest
      by_cases hin : F.Meets b (addr+page.size) (max (addr+size) (addr+page.size))
      · exact ⟨fun _ => hmet hin,fun hno => absurd (Or.inr hin) hno⟩
      · have hsame := hrest hin
        by_cases hcontains : page.Contains b
        · rw [if_pos hcontains] at hread
          exact ⟨fun _ => hsame.trans hread,fun hno => absurd (Or.inl hcontains) hno⟩
        · rw [if_neg hcontains] at hread
          exact ⟨fun hor => absurd hor (not_or.mpr ⟨hcontains,hin⟩),fun _ => hsame.trans hread⟩
    · rw [if_neg hpos]
      refine ⟨?_,fun _ => rfl⟩
      rintro ⟨p,c,-,hlo,hc,-⟩
      omega

/-- Storing a byte of an image touches no flash outside the place of the image. -/
theorem stored_frame (hF : F.Lawful) (h : Uploading F s announced stream)
    (hmore : ¬s.total ≤ s.received) {b : Byte} {m : BootState δ} {first : List BootAction}
    (hstore : Stored F s b m first) {a : ℕ}
    (ha : a < appStart ∨ appStart+announced.toNat≤a) : F.read m.device a=F.read s.device a := by
  have haddr := h.addr
  have hle := h.le
  obtain ⟨held,hsplit,-⟩ := h.held
  rw [h.complete_iff] at hmore
  have hlength : stream.length=held.length+s.buffer.length := by
    rw [hsplit,List.length_append]
  cases hstore with
  | kept room more => rfl
  | flushed room due ok =>
    have hnew : (s.buffer++[b]).length=s.buffer.length+1 := List.length_append
    have hread := hF.write_ok s.device s.flashAddr.toNat (s.buffer++[b])
      (fun i hi => h.erased _ (by omega) (by omega)) ok a
    rw [if_neg (by omega)] at hread
    exact hread

/-- Taking in an image touches no flash outside its place. -/
theorem feeds_frame (hF : F.Lawful) (hfeeds : Feeds F s bytes t actions)
    (h : Uploading F s announced stream) {a : ℕ}
    (ha : a < appStart ∨ appStart+announced.toNat≤a) : F.read t.device a=F.read s.device a := by
  induction hfeeds generalizing stream with
  | nil s => rfl
  | done s bytes full => rfl
  | @step s m t b bytes first rest more stored tail ih =>
    rw [ih (h.store hF more stored)]
    exact stored_frame hF h more (storeByte_stored F s stored) ha

/-- As long as the image is incomplete the buffer holds what is left over from blocks of
its size. -/
theorem feeds_buffer_mod (hF : F.Lawful) (hfeeds : Feeds F s bytes t actions)
    (h : Uploading F s announced stream) (hbuffer : s.buffer.length=stream.length%64)
    (hmore : stream.length+bytes.length < announced.toNat) :
    t.buffer.length=(stream.length+bytes.length)%64 := by
  induction hfeeds generalizing stream with
  | nil s => exact hbuffer
  | done s bytes full =>
    rw [h.complete_iff] at full
    omega
  | @step s m t b bytes first rest more stored tail ih =>
    have hnext := h.store hF more stored
    have hcount := hnext.received
    have hlength : (stream++[b]).length=stream.length+1 := List.length_append
    rw [List.length_cons] at hmore ⊢
    have hrest : m.buffer.length=(stream++[b]).length%64 := by
      have hcase := storeByte_stored F s stored
      have hsize : flashBufferSize=64 := rfl
      cases hcase with
      | kept room more =>
        rw [List.length_append,List.length_singleton,hlength]
        omega
      | flushed room due ok =>
        have hwhole := hnext.complete_iff
        have hopen : ¬s.total ≤ s.received+1 := fun hfull => by
          have heq := hwhole.mp hfull
          omega
        have hfull := due.resolve_right hopen
        change 0=(stream++[b]).length%64
        omega
    have hfinal := ih hnext hrest (by omega)
    rw [hfinal,hlength]
    congr 1
    omega

/-- Only writes and responses come of a loop over data. -/
theorem feeds_quiet (hfeeds : Feeds F s bytes t actions) :
    restarts actions=false ∧ jumps actions=false := by
  induction hfeeds with
  | nil s => exact ⟨rfl,rfl⟩
  | done s bytes full => exact ⟨rfl,rfl⟩
  | @step s m t b bytes first rest more stored tail ih =>
    have hprogress : ∀ u : BootState δ,restarts (progress u)=false ∧ jumps (progress u)=false := by
      intro u
      unfold progress
      split
      · exact ⟨rfl,rfl⟩
      · split
        · exact ⟨rfl,rfl⟩
        · split <;> exact ⟨rfl,rfl⟩
    have hfirst : restarts first=false ∧ jumps first=false := by
      have hcase := storeByte_stored F s stored
      cases hcase with
      | kept room more => exact ⟨rfl,rfl⟩
      | flushed room due ok => exact hprogress _
    unfold restarts jumps at *
    rw [List.any_append,List.any_append,hfirst.1,hfirst.2,ih.1,ih.2]
    exact ⟨rfl,rfl⟩

end Upgrade

section Frames

variable {δ : Type} {F : PagedFlash δ} {appVersion : Word} {s t : BootState δ}
variable {actions : List BootAction} {led1 led2 : Bool} {key : KeyPin}

/-- A frame that neither restarts nor jumps leaves the bootloader running. -/
theorem takeFrame_quiet {frame : RxCanFrame} {report : BootReport δ}
    (hupdate : fwUpdate F appVersion s frame=some report)
    (hquiet : restarts report.actions=false ∧ jumps report.actions=false) :
    takeFrame F appVersion s led1 led2 frame key=.loader report.state led1 led2 := by
  rw [takeFrame,hupdate]
  dsimp only
  rw [hquiet.1,hquiet.2]
  rfl

/-- On a device without faults a run over data frames is the loop over all their bytes. -/
theorem data_run (hfault : F.Faultless) (hroom : s.buffer.length < flashBufferSize)
    {frames : List RxCanFrame} (hd : ∀ frame∈frames,IsData frame)
    (h : Feeds F s (frames.flatMap RxCanFrame.payload) t actions) :
    finalState (machineNext F appVersion) (.loader s led1 led2) (frames.map (.frame · key))=
      .loader t led1 led2 := by
  induction frames generalizing s actions with
  | nil =>
    have hnil := h.dataLoop_eq
    rw [List.flatMap_nil,dataLoop,Option.some.injEq,BootReport.mk.injEq] at hnil
    rw [← hnil.1]
    rfl
  | cons frame frames ih =>
    rw [List.flatMap_cons] at h
    obtain ⟨m,first,rest,hfirst,hrest,-⟩ := h.split hfault hroom
    have hupdate : ∃ ret,fwUpdate F appVersion s frame=some ⟨m,first,ret⟩ := by
      rw [fwUpdate_data F appVersion s (hd frame List.mem_cons_self),handleData]
      split
      · rename_i hfull
        have hskip := (Feeds.done (F := F) s frame.payload hfull).dataLoop_eq.symm.trans
          hfirst.dataLoop_eq
        rw [Option.some.injEq,BootReport.mk.injEq] at hskip
        rw [←hskip.1,←hskip.2.1]
        exact ⟨-1,rfl⟩
      · exact ⟨0,hfirst.dataLoop_eq⟩
    obtain ⟨ret,hupdate⟩ := hupdate
    have hstep : machineNext F appVersion (.loader s led1 led2) (.frame frame key)=
        .loader m led1 led2 := takeFrame_quiet hupdate (feeds_quiet hfirst)
    rw [List.map_cons,finalState,List.foldl_cons,hstep]
    exact ih (hfirst.room hroom) (fun f hf => hd f (List.mem_cons_of_mem frame hf)) hrest

variable (appVersion s led1 led2 key) in
/-- On a device without faults a start command clears the pages that meet the place of the
image, and nothing else. -/
theorem start_taken (hF : F.Lawful) (hfault : F.Faultless) (hlow : F.Boundary appStart)
    (hhigh : F.Boundary appEnd) (hpages : F.Covers appStart appEnd) {start : RxCanFrame}
    (hs : IsFullStart start) (hfits : (start.data32 1).toNat≤flashAppSize) :
    ∃ d,machineNext F appVersion (.loader s led1 led2) (.frame start key)=
        .loader ⟨d,[],flashAppStartAddr,start.data32 1,0⟩ led1 led2 ∧
      ∀ b,(F.Meets b appStart (appStart+(start.data32 1).toNat) → F.read d b=0xFF) ∧
        (¬F.Meets b appStart (appStart+(start.data32 1).toNat) →
          F.read d b=F.read s.device b) := by
  have hregion : appStart+flashAppSize=appEnd := by decide
  have hbelow : appStart+min flashAppSize (start.data32 1).toNat ≤ appEnd := by omega
  have hok : (startErase F s start).1=true :=
    eraseLoop_faultless hF hfault hhigh hlow hbelow hpages
  have hreads := eraseLoop_reads hF hfault hhigh (d := s.device) hlow le_rfl hbelow hpages
  have hupdate := fwUpdate_start F appVersion s hs
  rw [handleStart_eq F s hs.2.2,if_pos hok,if_pos hok] at hupdate
  have hquiet : restarts ((startErase F s start).2.2++[.response .offset 0])=false ∧
      jumps ((startErase F s start).2.2++[.response .offset 0])=false := by
    have herase : ∀ a∈(startErase F s start).2.2,∃ addr n ok,a=.erase addr n ok :=
      eraseLoop_erases
    unfold restarts jumps
    rw [List.any_eq_false,List.any_eq_false]
    constructor <;> intro a ha <;> rcases List.mem_append.mp ha with ha | ha
    · obtain ⟨addr,n,ok,rfl⟩ := herase a ha
      exact Bool.false_ne_true
    · rw [List.mem_singleton.mp ha]
      exact Bool.false_ne_true
    · obtain ⟨addr,n,ok,rfl⟩ := herase a ha
      exact Bool.false_ne_true
    · rw [List.mem_singleton.mp ha]
      exact Bool.false_ne_true
  rw [Nat.min_eq_right hfits] at hreads
  refine ⟨(startErase F s start).2.1,takeFrame_quiet hupdate hquiet,fun b => ?_⟩
  rw [startErase,Nat.min_eq_right hfits]
  exact hreads b

/-- A confirm command after a complete image starts the application, whatever its first
two words are. -/
theorem confirm_taken {confirm : RxCanFrame} (hc : IsConfirm confirm) (hbuffer : s.buffer=[])
    (hwhole : s.received=s.total) :
    machineNext F appVersion (.loader s led1 led2) (.frame confirm key)=
      .app (jumpToApp F s.device) s.device := by
  have hflush : flushBuffer F s=(s,[]) := by
    rw [flushBuffer,hbuffer]
    rfl
  have hupdate := fwUpdate_confirm F appVersion s hc
  rw [handleConfirm,hflush] at hupdate
  dsimp only at hupdate
  rw [if_neg (not_not.mpr hwhole)] at hupdate
  have hjumps : restarts ([]++[BootAction.response .confirm 0x55AA55AA,.jump])=false ∧
      jumps ([]++[BootAction.response .confirm 0x55AA55AA,.jump])=true := ⟨rfl,rfl⟩
  change takeFrame F appVersion s led1 led2 confirm key=_
  rw [takeFrame,hupdate]
  dsimp only
  rw [hjumps.1,hjumps.2,hflush]
  rfl

end Frames

section Images

variable {δ : Type} {F : PagedFlash δ} {appVersion : Word} {s t : BootState δ}
variable {led1 led2 : Bool} {key : KeyPin}

/-- The flash after an upgrade: the image, the erased rest of its last page, and what was
there before. -/
structure Installed (F : PagedFlash δ) (before : δ) (image : List Byte) (d : δ) : Prop where
  /-- The image is in place. -/
  held : F.Holds d appStart image
  /-- The rest of its pages is erased. -/
  padding : ∀ a,appStart+image.length≤a → F.Meets a appStart (appStart+image.length) →
    F.read d a=0xFF
  /-- Everything else is as before. -/
  kept : ∀ a,¬F.Meets a appStart (appStart+image.length) → F.read d a=F.read before a

variable (appVersion s led1 led2 key) in
/-- On a device without faults a start command and data frames are the loop over all their
bytes on a cleared place. -/
theorem upload_feeds (hF : F.Lawful) (hfault : F.Faultless) (hlow : F.Boundary appStart)
    (hhigh : F.Boundary appEnd) (hpages : F.Covers appStart appEnd) {start : RxCanFrame}
    (hs : IsFullStart start) (hfits : (start.data32 1).toNat≤flashAppSize)
    {frames : List RxCanFrame} (hd : ∀ frame∈frames,IsData frame) :
    ∃ d t actions,finalState (machineNext F appVersion) (.loader s led1 led2)
        ((start::frames).map (.frame · key))=.loader t led1 led2 ∧
      Feeds F ⟨d,[],flashAppStartAddr,start.data32 1,0⟩ (frames.flatMap RxCanFrame.payload) t
        actions ∧
      Uploading F ⟨d,[],flashAppStartAddr,start.data32 1,0⟩ (start.data32 1) [] ∧
      (∀ b,F.Meets b appStart (appStart+(start.data32 1).toNat) → F.read d b=0xFF) ∧
      ∀ b,¬F.Meets b appStart (appStart+(start.data32 1).toNat) →
        F.read d b=F.read s.device b := by
  obtain ⟨d,hstart,hreads⟩ :=
    start_taken appVersion s led1 led2 key hF hfault hlow hhigh hpages hs hfits
  obtain ⟨t,actions,hfeeds⟩ := feeds_faultless (s := ⟨d,[],flashAppStartAddr,start.data32 1,0⟩)
    hfault nil_room (frames.flatMap RxCanFrame.payload)
  have hregion : appStart+flashAppSize=appEnd := by decide
  have hclear : F.Erased d appStart (appStart+(start.data32 1).toNat) := by
    intro a hlo hhi
    obtain ⟨page,hpage⟩ := Option.isSome_iff_exists.mp (hpages a hlo (by omega))
    exact (hreads a).1 ⟨page,a,hpage,hlo,hhi,hF.page_mem a page hpage⟩
  refine ⟨d,t,actions,?_,hfeeds,uploading_start hfits hclear,fun b => (hreads b).1,
    fun b => (hreads b).2⟩
  rw [List.map_cons,finalState,List.foldl_cons,hstart]
  exact data_run hfault nil_room hd hfeeds

variable (appVersion s led1 led2 key) in
/-- On a device without faults an upload leaves the image installed and nothing buffered. -/
theorem upload_installed (hF : F.Lawful) (hfault : F.Faultless) (hlow : F.Boundary appStart)
    (hhigh : F.Boundary appEnd) (hpages : F.Covers appStart appEnd) {start : RxCanFrame}
    (hs : IsFullStart start) (hfits : (start.data32 1).toNat≤flashAppSize)
    {frames : List RxCanFrame} (hd : ∀ frame∈frames,IsData frame)
    (hlong : (start.data32 1).toNat ≤ (frames.flatMap RxCanFrame.payload).length) :
    ∃ t,finalState (machineNext F appVersion) (.loader s led1 led2)
        ((start::frames).map (.frame · key))=.loader t led1 led2 ∧
      t.buffer=[] ∧ t.received=t.total ∧
      Installed F s.device ((frames.flatMap RxCanFrame.payload).take (start.data32 1).toNat)
        t.device := by
  obtain ⟨d,t,actions,hrun,hfeeds,hempty,hmet,hrest⟩ :=
    upload_feeds appVersion s led1 led2 key hF hfault hlow hhigh hpages hs hfits hd
  have hregion : appStart+flashAppSize=appEnd := by decide
  set n := start.data32 1 with hn
  set stream := frames.flatMap RxCanFrame.payload with hstream
  have hlength : (stream.take n.toNat).length=n.toNat := List.length_take_of_le hlong
  have hup := hfeeds.uploading hF hempty
  rw [List.nil_append,List.length_nil,Nat.sub_zero] at hup
  have hbuffer := hup.whole hlength
  obtain ⟨held,hsplit,hheld⟩ := hup.held
  rw [hbuffer,List.append_nil] at hsplit
  have hcount : t.received=t.total := by
    apply BitVec.eq_of_toNat_eq
    rw [hup.received,hup.total,hlength]
  refine ⟨t,hrun,hbuffer,hcount,⟨hsplit ▸ hheld,fun a ha hmeets => ?_,fun a hapart => ?_⟩⟩
  · rw [hlength] at ha hmeets
    rw [feeds_frame hF hfeeds hempty (Or.inr ha)]
    exact hmet a hmeets
  · rw [hlength] at hapart
    have hout : a < appStart ∨ appStart+n.toNat≤a := by
      by_contra hin
      rw [not_or,Nat.not_lt,Nat.not_le] at hin
      obtain ⟨page,hpage⟩ := Option.isSome_iff_exists.mp (hpages a hin.1 (by omega))
      exact hapart ⟨page,a,hpage,hin.1,hin.2,hF.page_mem a page hpage⟩
    rw [feeds_frame hF hfeeds hempty hout]
    exact hrest a hapart

/-- A credible application without the flag is started again by every start with a key
that does not read as zero. -/
theorem starts_again (hkeep : ∀ d a,F.read (F.restart d) a=F.read d a) {d : δ}
    (hvalid : verifyAppFirmware F d=true) (hflag : checkUpgradeFlag F d=false) {m : Machine δ}
    (hm : ∃ d',m=.app (jumpToApp F d) d' ∧ ∀ a,F.read d' a=F.read d a) {keys : List KeyPin}
    (hkeys : ∀ k∈keys,gpioPinGetKey1 k≠0) :
    ∃ d',finalState (machineNext F appVersion) m (keys.map .reset)=.app (jumpToApp F d) d' ∧
      ∀ a,F.read d' a=F.read d a := by
  induction keys generalizing m with
  | nil => exact hm
  | cons k keys ih =>
    obtain ⟨d',rfl,hsame⟩ := hm
    have hagain : ∀ a,F.read (F.restart d') a=F.read d a :=
      fun a => (hkeep d' a).trans (hsame a)
    have hboot : bootMain F k (F.restart d')=.app (jumpToApp F d) (F.restart d') := by
      rw [bootMain_app (hkeys k List.mem_cons_self) ((checkUpgradeFlag_congr hagain).trans hflag),
        (verifyAppFirmware_congr hagain).trans hvalid,if_pos rfl,jumpToApp_congr hagain]
    exact ih ⟨F.restart d',hboot,hagain⟩ fun k' hk => hkeys k' (List.mem_cons_of_mem k hk)

variable (appVersion) in
/-- On a device without faults, an upgrade with any image starts it, however its bytes are
split into data frames, with the image installed in the flash. From then on every start with
a key that does not read as zero starts the same application on the same flash, exactly if
its first two words are credible and the flash does not hold the flag. -/
theorem upgraded_app_boots_iff (hF : F.Lawful) (hfault : F.Faultless)
    (hkeep : ∀ d a,F.read (F.restart d) a=F.read d a) (hlow : F.Boundary appStart)
    (hhigh : F.Boundary appEnd) (hpages : F.Covers appStart appEnd) {start confirm : RxCanFrame}
    (hs : IsFullStart start) (hfits : (start.data32 1).toNat≤flashAppSize)
    {frames : List RxCanFrame} (hd : ∀ frame∈frames,IsData frame)
    (hlong : (start.data32 1).toNat ≤ (frames.flatMap RxCanFrame.payload).length)
    (hc : IsConfirm confirm) :
    ∃ d,finalState (machineNext F appVersion) (.loader s led1 led2)
        ((start::frames++[confirm]).map (.frame · key))=.app (jumpToApp F d) d ∧
      Installed F s.device ((frames.flatMap RxCanFrame.payload).take (start.data32 1).toNat) d ∧
      ((∀ keys : List KeyPin,(∀ k∈keys,gpioPinGetKey1 k≠0) →
          ∃ d',finalState (machineNext F appVersion) (.app (jumpToApp F d) d) (keys.map .reset)=
              .app (jumpToApp F d) d' ∧ ∀ a,F.read d' a=F.read d a) ↔
        verifyAppFirmware F d=true ∧ checkUpgradeFlag F d=false) := by
  obtain ⟨t,hrun,hbuffer,hcount,hinstalled⟩ :=
    upload_installed appVersion s led1 led2 key hF hfault hlow hhigh hpages hs hfits hd hlong
  refine ⟨t.device,?_,hinstalled,?_⟩
  · rw [List.map_append,finalState,List.foldl_append]
    change finalState _ (finalState _ _ _) _=_
    rw [hrun]
    exact confirm_taken hc hbuffer hcount
  · constructor
    · intro hall
      obtain ⟨d',hboot,-⟩ := hall [.low] (by decide)
      have hstart : bootMain F .low (F.restart t.device)=.app (jumpToApp F t.device) d' := hboot
      have hgood := bootMain_app_iff.mp ⟨_,_,hstart⟩
      rw [checkUpgradeFlag_congr (hkeep t.device),verifyAppFirmware_congr (hkeep t.device)] at hgood
      exact ⟨hgood.2.2,hgood.2.1⟩
    · rintro ⟨hvalid,hflag⟩ keys hkeys
      exact starts_again hkeep hvalid hflag ⟨t.device,rfl,fun _ => rfl⟩ hkeys

/-- A data frame with two words, the lowest byte of each first. -/
def wordsFrame (first second : Word) : RxCanFrame :=
  {commandFrame first second with id := canIdFwDataRx}

/-- An image of eight bytes, a stack pointer and an address of the region. -/
def smallImage : List RxCanFrame := [wordsFrame 0x20001000 0x08010009]

/-- After an upgrade with eight bytes the application runs, with the image installed. -/
theorem upgraded_app_boots_iff_eight :
    ∃ d,finalState (machineNext (ramPages 2048) 0) (.loader (.boot fun _ => 0) true false)
        ((commandFrame boardStartUpdate 8::smallImage++[commandFrame boardConfirm 1]).map
          (.frame · .high))=.app (jumpToApp (ramPages 2048) d) d ∧
      Installed (ramPages 2048) (fun _ => 0)
        ((smallImage.flatMap RxCanFrame.payload).take
          ((commandFrame boardStartUpdate 8).data32 1).toNat) d := by
  obtain ⟨d,hrun,hinstalled,-⟩ := upgraded_app_boots_iff 0 (ramPages_lawful 2048)
    (ramPages_faultless 2048) (fun _ _ => rfl) (ramPages_boundary (by decide))
    (ramPages_boundary (by decide)) (ramPages_covers (by decide) _ _)
    (by decide : IsFullStart (commandFrame boardStartUpdate 8)) (by decide)
    (by decide : ∀ frame∈smallImage,IsData frame) (by decide)
    (by decide : IsConfirm (commandFrame boardConfirm 1))
  exact ⟨d,hrun,hinstalled⟩

end Images

section Requests

variable {δ : Type} {F : PagedFlash δ} {appVersion : Word} {d : δ} {page : Page}

/-- Without the flag a start leaves the flash alone. -/
theorem bootMain_device (hflag : checkUpgradeFlag F d=false) (key : KeyPin) :
    (bootMain F key d).device?=some d := by
  by_cases hkey : gpioPinGetKey1 key=0
  · rw [bootMain_key hkey]
    rfl
  · rw [bootMain_app hkey hflag]
    split <;> rfl

/-- Without the flag no number of starts changes the flash. -/
theorem cleared_stays (hkeep : ∀ d a,F.read (F.restart d) a=F.read d a)
    (hflag : checkUpgradeFlag F d=false) {m : Machine δ}
    (hm : ∃ d',m.device?=some d' ∧ ∀ a,F.read d' a=F.read d a) (keys : List KeyPin) :
    ∃ d',(finalState (machineNext F appVersion) m (keys.map .reset)).device?=some d' ∧
      ∀ a,F.read d' a=F.read d a := by
  induction keys generalizing m with
  | nil => exact hm
  | cons k keys ih =>
    obtain ⟨d',hdev,hsame⟩ := hm
    have hagain : ∀ a,F.read (F.restart d') a=F.read d a :=
      fun a => (hkeep d' a).trans (hsame a)
    have hstart : (machineNext F appVersion m (.reset k)).device?=some (F.restart d') := by
      rw [reset_eq hdev]
      exact bootMain_device ((checkUpgradeFlag_congr hagain).trans hflag) k
    exact ih ⟨F.restart d',hstart,hagain⟩

variable (appVersion) in
/-- The flag stays as long as every key reads as zero, and is erased with its page by the
first other start. -/
theorem flag_after_starts (hF : F.Lawful) (hfault : F.Faultless)
    (hkeep : ∀ d a,F.read (F.restart d) a=F.read d a)
    (hpage : F.pageInfo flashFlagAddr.toNat=some page) (hset : checkUpgradeFlag F d=true)
    (hclear : checkUpgradeFlag F (F.erase d page.start page.size).2=false) {m : Machine δ}
    (hm : ∃ d',m.device?=some d' ∧ ∀ a,F.read d' a=F.read d a) (keys : List KeyPin) :
    ∃ d',(finalState (machineNext F appVersion) m (keys.map .reset)).device?=some d' ∧
      ∀ a,F.read d' a=F.read
        (if ∀ k∈keys,gpioPinGetKey1 k=0 then d else (F.erase d page.start page.size).2) a := by
  induction keys generalizing m with
  | nil => exact hm
  | cons k keys ih =>
    obtain ⟨d',hdev,hsame⟩ := hm
    have hagain : ∀ a,F.read (F.restart d') a=F.read d a :=
      fun a => (hkeep d' a).trans (hsame a)
    have hnext : finalState (machineNext F appVersion) m ((k::keys).map .reset)=
        finalState (machineNext F appVersion) (bootMain F k (F.restart d')) (keys.map .reset) := by
      rw [List.map_cons,finalState,List.foldl_cons,reset_eq hdev]
      rfl
    rw [hnext]
    by_cases hkey : gpioPinGetKey1 k=0
    · have hall : (∀ k'∈k::keys,gpioPinGetKey1 k'=0) ↔ ∀ k'∈keys,gpioPinGetKey1 k'=0 := by
        rw [List.forall_mem_cons]
        exact and_iff_right hkey
      simp only [hall]
      refine ih ⟨F.restart d',?_,hagain⟩
      rw [bootMain_key hkey]
      rfl
    · rw [if_neg fun hall => hkey (hall k List.mem_cons_self)]
      refine cleared_stays hkeep hclear ⟨(F.erase (F.restart d') page.start page.size).2,?_,?_⟩ keys
      · rw [bootMain_flag hkey ((checkUpgradeFlag_congr hagain).trans hset) hpage]
        rfl
      · intro a
        rw [hF.erase_ok _ _ _ hpage (hfault.erase_ok _ _ _ hpage),
          hF.erase_ok _ _ _ hpage (hfault.erase_ok _ _ _ hpage),hagain]

/-- Writing the flag to its erased place sets it. -/
theorem flag_written (hF : F.Lawful) (hfault : F.Faultless)
    (herased : F.Erased d flashFlagAddr.toNat (flashFlagAddr.toNat+4)) :
    checkUpgradeFlag F (F.write d flashFlagAddr.toNat (sysPutLe32 upgradeFlagValue)).2=true ∧
      ∀ b,¬(flashFlagAddr.toNat≤b ∧ b < flashFlagAddr.toNat+4) →
        F.read (F.write d flashFlagAddr.toNat (sysPutLe32 upgradeFlagValue)).2 b=F.read d b := by
  have hlength : (sysPutLe32 upgradeFlagValue).length=4 := rfl
  have hwrite := hF.write_ok d flashFlagAddr.toNat (sysPutLe32 upgradeFlagValue)
    (fun i hi => herased _ (by omega) (by omega)) (hfault.write_ok _ _ _)
  rw [hlength] at hwrite
  refine ⟨?_,fun b hb => by rw [hwrite,if_neg hb]⟩
  have hholds : F.Holds (F.write d flashFlagAddr.toNat (sysPutLe32 upgradeFlagValue)).2
      flashFlagAddr.toNat (sysPutLe32 upgradeFlagValue) := by
    intro i hi
    rw [hwrite,if_pos ⟨by omega,by omega⟩,Nat.add_sub_cancel_left]
  have hword : F.word (F.write d flashFlagAddr.toNat (sysPutLe32 upgradeFlagValue)).2
      (flashFlagAddr.toNat+0)=sysGetLe32 (sysPutLe32 upgradeFlagValue) 0 :=
    word_of_holds hholds (by decide)
  rw [Nat.add_zero] at hword
  rw [checkUpgradeFlag,hword]
  decide

/-- Erasing the page of the flag clears it. -/
theorem flag_cleared (hF : F.Lawful) (hfault : F.Faultless)
    (hpage : F.pageInfo flashFlagAddr.toNat=some page)
    (hroom : flashFlagAddr.toNat+4≤page.start+page.size) :
    checkUpgradeFlag F (F.erase d page.start page.size).2=false := by
  have hmem := hF.page_mem _ _ hpage
  have herase := hF.erase_ok d _ _ hpage (hfault.erase_ok _ _ _ hpage)
  unfold Page.Contains at hmem
  have hblank : ∀ i < 4,
      F.read (F.erase d page.start page.size).2 (flashFlagAddr.toNat+i)=0xFF := by
    intro i hi
    rw [herase,if_pos (by unfold Page.Contains; omega)]
  have hfirst : F.read (F.erase d page.start page.size).2 flashFlagAddr.toNat=0xFF :=
    hblank 0 (by omega)
  have hword : F.word (F.erase d page.start page.size).2 flashFlagAddr.toNat=
      sysGetLe32 [0xFF,0xFF,0xFF,0xFF] 0 := by
    rw [PagedFlash.word,hfirst,hblank 1 (by omega),hblank 2 (by omega),hblank 3 (by omega)]
  rw [checkUpgradeFlag,hword]
  decide

variable (appVersion) in
/-- An application that writes the flag to its erased place requests upgrade mode exactly
once. The mode is entered at the first start with a key that does not read as zero, which
erases the page of the flag; every later such start runs the application again, on a flash
that is the same outside that page. A start with a key that reads as zero enters the mode as
well, and leaves the request standing. -/
theorem upgrade_requested_once (hF : F.Lawful) (hfault : F.Faultless)
    (hkeep : ∀ d a,F.read (F.restart d) a=F.read d a)
    (hpage : F.pageInfo flashFlagAddr.toNat=some page) (happ : appStart+8≤page.start)
    (hroom : flashFlagAddr.toNat+4≤page.start+page.size) (hvalid : verifyAppFirmware F d=true)
    (herased : F.Erased d flashFlagAddr.toNat (flashFlagAddr.toNat+4)) (v : Word×Word)
    (keys : List KeyPin) (key : KeyPin) :
    let m := finalState (machineNext F appVersion) (.app v d)
      (.appWrite flashFlagAddr.toNat (sysPutLe32 upgradeFlagValue)::(keys++[key]).map .reset)
    (gpioPinGetKey1 key=0 ∨ (∀ k∈keys,gpioPinGetKey1 k=0) → ∃ s,m=.loader s true false) ∧
      (¬(gpioPinGetKey1 key=0 ∨ ∀ k∈keys,gpioPinGetKey1 k=0) →
        ∃ d',m=.app (jumpToApp F d) d' ∧ ∀ a,¬page.Contains a → F.read d' a=F.read d a) := by
  intro m
  obtain ⟨hset,hwrite⟩ := flag_written hF hfault herased
  set written := (F.write d flashFlagAddr.toNat (sysPutLe32 upgradeFlagValue)).2 with hwritten
  have hclear : checkUpgradeFlag F (F.erase written page.start page.size).2=false :=
    flag_cleared hF hfault hpage hroom
  have hmem := hF.page_mem _ _ hpage
  unfold Page.Contains at hmem
  set cleared := (F.erase written page.start page.size).2 with hcleared
  have houtside : ∀ b,¬page.Contains b → F.read cleared b=F.read d b := by
    intro b hb
    rw [hF.erase_ok written _ _ hpage (hfault.erase_ok _ _ _ hpage),if_neg hb]
    unfold Page.Contains at hb
    exact hwrite b (by omega)
  have hfront : ∀ b,b < appStart+8 → F.read cleared b=F.read d b := fun b hb =>
    houtside b (by unfold Page.Contains; omega)
  have hwords : verifyAppFirmware F cleared=true ∧ jumpToApp F cleared=jumpToApp F d := by
    have hfirst : F.word cleared appStart=F.word d appStart :=
      word_congr fun b _ hb => hfront b (by omega)
    have hsecond : F.word cleared (appStart+4)=F.word d (appStart+4) :=
      word_congr fun b _ hb => hfront b (by omega)
    unfold verifyAppFirmware jumpToApp at *
    rw [hfirst,hsecond]
    exact ⟨hvalid,rfl⟩
  obtain ⟨d',hdev,hreads⟩ := flag_after_starts appVersion hF hfault hkeep hpage hset hclear
    (m := .app v written) ⟨written,rfl,fun _ => rfl⟩ keys
  have hm : m=bootMain F key (F.restart d') := by
    have hsplit : m=machineNext F appVersion (finalState (machineNext F appVersion)
        (.app v written) (keys.map .reset)) (.reset key) := by
      change finalState _ _ ((keys++[key]).map _)=_
      rw [List.map_append,finalState,List.foldl_append]
      rfl
    rw [hsplit,reset_eq hdev]
  have hagain : ∀ a,F.read (F.restart d') a=
      F.read (if ∀ k∈keys,gpioPinGetKey1 k=0 then written else cleared) a :=
    fun a => (hkeep d' a).trans (hreads a)
  rw [hm]
  constructor
  · intro hmode
    by_cases hkey : gpioPinGetKey1 key=0
    · exact ⟨_,bootMain_key hkey⟩
    · rw [if_pos (hmode.resolve_left hkey)] at hagain
      exact ⟨_,bootMain_flag hkey ((checkUpgradeFlag_congr hagain).trans hset) hpage⟩
  · intro hnot
    rw [not_or] at hnot
    rw [if_neg hnot.2] at hagain
    refine ⟨F.restart d',?_,fun a ha => (hagain a).trans (houtside a ha)⟩
    rw [bootMain_app hnot.1 ((checkUpgradeFlag_congr hagain).trans hclear),
      (verifyAppFirmware_congr hagain).trans hwords.1,if_pos rfl,jumpToApp_congr hagain,hwords.2]

/-- A flash with a stack pointer and a start address, and nothing else. -/
def smallFlash (a : ℕ) : Byte :=
  (sysPutLe32 0x20001000++sysPutLe32 0x08010009).getD (a-appStart) 0xFF

/-- The small flash is erased behind its two words. -/
theorem smallFlash_erased {lo hi : ℕ} (h : appStart+8≤lo) :
    (ramPages 2048).Erased smallFlash lo hi := by
  intro a hlo _
  have hlength : (sysPutLe32 0x20001000++sysPutLe32 0x08010009).length=8 := rfl
  have hbehind : 8≤a-appStart := Nat.le_sub_of_add_le' (h.trans hlo)
  have hread : ∀ d : ℕ → Byte,(ramPages 2048).read d a=d a := fun _ => rfl
  rw [hread,smallFlash,List.getD_eq_default]
  rw [hlength]
  exact hbehind

/-- Two starts with a high pin, the start that serves the request, and the next one. -/
def fourStarts : List KeyPin := [.high,.high,.low]

/-- The request is served at the third start and not repeated at the fourth. -/
theorem upgrade_requested_once_served :
    verifyAppFirmware (ramPages 2048) smallFlash=true ∧
    ∃ d',finalState (machineNext (ramPages 2048) 0) (.app (0,0) smallFlash)
        (.appWrite flashFlagAddr.toNat (sysPutLe32 upgradeFlagValue)::
          (fourStarts++[KeyPin.low]).map .reset)=
      .app (jumpToApp (ramPages 2048) smallFlash) d' ∧
      ∀ a,¬(Page.mk 0x0803F800 2048).Contains a →
        (ramPages 2048).read d' a=(ramPages 2048).read smallFlash a := by
  have hvalid : verifyAppFirmware (ramPages 2048) smallFlash=true := by decide
  have hpage : (ramPages 2048).pageInfo flashFlagAddr.toNat=some ⟨0x0803F800,2048⟩ := rfl
  have happ : appStart+8≤0x0803F800 := by decide
  have hroom : flashFlagAddr.toNat+4≤0x0803F800+2048 := by decide
  have hserved : ¬(gpioPinGetKey1 .low=0 ∨ ∀ k∈fourStarts,gpioPinGetKey1 k=0) := by decide
  have hrun := upgrade_requested_once 0 (ramPages_lawful 2048) (ramPages_faultless 2048)
    (fun _ _ => rfl) hpage happ hroom hvalid (smallFlash_erased (by decide)) (0,0) fourStarts .low
  exact ⟨hvalid,hrun.2 hserved⟩

end Requests

section Interruptions

variable {δ : Type} {F : PagedFlash δ} {appVersion : Word} {s : BootState δ}
variable {led1 led2 : Bool} {key : KeyPin}

/-- A word among the first bytes. -/
theorem sysGetLe32_append {xs : List Byte} (ys : List Byte) {at_ : ℕ} (h : at_+4≤xs.length) :
    sysGetLe32 (xs++ys) at_=sysGetLe32 xs at_ := by
  unfold sysGetLe32
  rw [List.getD_append _ _ _ _ (by omega),List.getD_append _ _ _ _ (by omega),
    List.getD_append _ _ _ _ (by omega),List.getD_append _ _ _ _ (by omega)]

variable (appVersion s led1 led2 key) in
/-- What an upload below the flag leaves when it stops before the image is complete: the
blocks of the size of the buffer, erased flash behind them, and the flag as it was. -/
theorem upload_interrupted (hF : F.Lawful) (hfault : F.Faultless) (hlow : F.Boundary appStart)
    (hhigh : F.Boundary appEnd) (hpages : F.Covers appStart appEnd)
    (hflag : F.Boundary flashFlagAddr.toNat) {start : RxCanFrame} (hs : IsFullStart start)
    (hbelow : appStart+(start.data32 1).toNat≤flashFlagAddr.toNat) {frames : List RxCanFrame}
    (hd : ∀ frame∈frames,IsData frame)
    (hpart : (frames.flatMap RxCanFrame.payload).length < (start.data32 1).toNat) :
    ∃ t held,finalState (machineNext F appVersion) (.loader s led1 led2)
        ((start::frames).map (.frame · key))=.loader t led1 led2 ∧
      frames.flatMap RxCanFrame.payload=held++t.buffer ∧
      held.length=64*((frames.flatMap RxCanFrame.payload).length/64) ∧
      F.Holds t.device appStart held ∧
      (∀ a,appStart+held.length≤a → F.Meets a appStart (appStart+(start.data32 1).toNat) →
        F.read t.device a=0xFF) ∧
      checkUpgradeFlag F t.device=checkUpgradeFlag F s.device := by
  have hflagAddr : flashFlagAddr.toNat=0x0803F800 := rfl
  have happAddr : appStart=0x08010000 := rfl
  have hregion : flashAppSize=0x30000 := rfl
  obtain ⟨d,t,actions,hrun,hfeeds,hempty,hmet,hrest⟩ :=
    upload_feeds appVersion s led1 led2 key hF hfault hlow hhigh hpages hs (by omega) hd
  set n := start.data32 1 with hn
  set stream := frames.flatMap RxCanFrame.payload with hstream
  have hup := hfeeds.uploading hF hempty
  rw [List.nil_append,List.length_nil,Nat.sub_zero,List.take_of_length_le hpart.le] at hup
  have hbuffer := feeds_buffer_mod hF hfeeds hempty rfl (by rw [List.length_nil]; omega)
  rw [List.length_nil,Nat.zero_add] at hbuffer
  obtain ⟨held,hsplit,hheld⟩ := hup.held
  have haddr := hup.addr
  have hlength : stream.length=held.length+t.buffer.length := by
    rw [hsplit,List.length_append]
  have hblocks : held.length=64*(stream.length/64) := by omega
  refine ⟨t,held,hrun,hsplit,hblocks,hheld,fun a hlo hmeets => ?_,?_⟩
  · by_cases hin : a < appStart+n.toNat
    · exact hup.erased a (by omega) hin
    · rw [feeds_frame hF hfeeds hempty (Or.inr (Nat.not_lt.mp hin))]
      exact hmet a hmeets
  · unfold checkUpgradeFlag
    rw [word_congr fun b hlo hhi => ?_]
    rw [feeds_frame hF hfeeds hempty (Or.inr (hbelow.trans hlo))]
    refine hrest b ?_
    rintro ⟨page,c,hpage,-,hc,hin⟩
    have hside := hflag b page hpage
    have hmem := hF.page_mem b page hpage
    unfold Page.Contains at hmem hin
    omega

variable (appVersion led1 led2 key) in
/-- An upgrade that is interrupted by a restart before its image is complete, with the flag
not set. The next start with a key that does not read as zero runs what is there of the image
exactly if at least one buffer of it has come in and its first two words are credible;
behind the buffers that were written the place of the image is then erased. -/
theorem interrupted_upload_boots_iff (hF : F.Lawful) (hfault : F.Faultless)
    (hkeep : ∀ d a,F.read (F.restart d) a=F.read d a) (hlow : F.Boundary appStart)
    (hhigh : F.Boundary appEnd) (hpages : F.Covers appStart appEnd)
    (hflag : F.Boundary flashFlagAddr.toNat) {page : Page} (hpage : F.pageInfo appStart=some page)
    (hsize : 8≤page.size) (hclear : checkUpgradeFlag F s.device=false) {start : RxCanFrame}
    (hs : IsFullStart start) (hbelow : appStart+(start.data32 1).toNat≤flashFlagAddr.toNat)
    {frames : List RxCanFrame} (hd : ∀ frame∈frames,IsData frame)
    (hpart : (frames.flatMap RxCanFrame.payload).length < (start.data32 1).toNat) {k : KeyPin}
    (hk : gpioPinGetKey1 k≠0) :
    let stream := frames.flatMap RxCanFrame.payload
    let m := finalState (machineNext F appVersion) (.loader s led1 led2)
      ((start::frames).map (.frame · key)++[.reset k])
    ((∃ v d',m=.app v d') ↔
        64 ≤ stream.length ∧ credible (sysGetLe32 stream 0) (sysGetLe32 stream 4)=true) ∧
      ∀ v d',m=.app v d' →
        F.Holds d' appStart (stream.take (64*(stream.length/64))) ∧
          F.Erased d' (appStart+64*(stream.length/64)) (appStart+(start.data32 1).toNat) := by
  intro stream m
  obtain ⟨t,held,hrun,hsplit,hblocks,hheld,herased,hsame⟩ := upload_interrupted appVersion s
    led1 led2 key hF hfault hlow hhigh hpages hflag hs hbelow hd hpart
  change stream=held++t.buffer at hsplit
  change held.length=64*(stream.length/64) at hblocks
  change stream.length < (start.data32 1).toNat at hpart
  have hm : m=bootMain F k (F.restart t.device) := by
    change finalState _ _ (_++_)=_
    rw [finalState,List.foldl_append]
    change finalState _ (finalState _ _ _) _=_
    rw [hrun]
    rfl
  have hunset : checkUpgradeFlag F (F.restart t.device)=false := by
    rw [checkUpgradeFlag_congr (hkeep t.device),hsame,hclear]
  have htake : stream.take (64*(stream.length/64))=held := by
    rw [← hblocks,hsplit,List.take_left]
  constructor
  · rw [hm,bootMain_app_iff]
    rw [verifyAppFirmware_congr (hkeep t.device),verifyAppFirmware]
    by_cases hlong : 64 ≤ stream.length
    · have hroom : 8≤held.length := by omega
      have hfirst : F.word t.device (appStart+0)=sysGetLe32 held 0 :=
        word_of_holds hheld (by omega)
      have hsecond : F.word t.device (appStart+4)=sysGetLe32 held 4 :=
        word_of_holds hheld (by omega)
      rw [Nat.add_zero] at hfirst
      rw [hfirst,hsecond,hsplit,sysGetLe32_append t.buffer (by omega),
        sysGetLe32_append t.buffer (by omega)]
      rw [hsplit] at hlong
      exact ⟨fun h => ⟨hlong,h.2.2⟩,fun h => ⟨hk,hunset,h.2⟩⟩
    · refine iff_of_false ?_ fun h => hlong h.1
      rintro ⟨-,-,hcredible⟩
      have hnone : held.length=0 := by omega
      have hmem := hF.page_mem _ _ hpage
      have hstart := page_start hF hlow hpage
      have hblank : ∀ i < 4,F.read t.device (appStart+i)=0xFF := by
        intro i hi
        have hin : page.Contains (appStart+i) := by
          unfold Page.Contains
          omega
        exact herased _ (by omega)
          ⟨page,appStart,hF.page_same _ _ _ hpage hin,le_rfl,by omega,hmem⟩
      have hzero : F.read t.device appStart=0xFF := hblank 0 (by omega)
      rw [PagedFlash.word,hzero,hblank 1 (by omega),hblank 2 (by omega),hblank 3 (by omega)]
        at hcredible
      have hrange := of_decide_eq_true hcredible
      exact absurd hrange.2.1 (by decide)
  · intro v d' happ
    have hdev := bootMain_device hunset k
    rw [← hm,happ] at hdev
    have hd' : d'=F.restart t.device := Option.some.inj hdev
    have hread : ∀ a,F.read d' a=F.read t.device a := fun a => by rw [hd',hkeep]
    rw [htake,← hblocks]
    refine ⟨fun i hi => (hread _).trans (hheld i hi),fun a hlo hhi => ?_⟩
    have hregion : appStart+flashAppSize=appEnd := by decide
    have hflagAddr : flashFlagAddr.toNat≤appEnd := by decide
    obtain ⟨q,hq⟩ := Option.isSome_iff_exists.mp (hpages a (by omega) (by omega))
    rw [hread]
    exact herased a hlo ⟨q,a,hq,by omega,hhi,hF.page_mem a q hq⟩

/-- Nine frames, the first with a stack pointer and an address. -/
def nineFrames : List RxCanFrame := wordsFrame 0x20001000 0x08010009::List.replicate 8 (dataFrame 7)

/-- After 72 of 100 bytes the next start runs what is there. -/
theorem interrupted_upload_boots_iff_half :
    ∃ v d',finalState (machineNext (ramPages 2048) 0) (.loader (.boot fun _ => 0) true false)
      ((commandFrame boardStartUpdate 100::nineFrames).map (.frame · .high)++[.reset .low])=
        .app v d' := by
  have hpage : (ramPages 2048).pageInfo appStart=some ⟨appStart,2048⟩ := rfl
  have hstart : IsFullStart (commandFrame boardStartUpdate 100) := by decide
  have hdata : ∀ frame∈nineFrames,IsData frame := by decide
  have hunset : checkUpgradeFlag (ramPages 2048)
      (BootState.boot fun _ => 0 : BootState (ℕ → Byte)).device=false := by decide
  have hbelow : appStart+((commandFrame boardStartUpdate 100).data32 1).toNat≤
      flashFlagAddr.toNat := by decide
  have hpart : (nineFrames.flatMap RxCanFrame.payload).length <
      ((commandFrame boardStartUpdate 100).data32 1).toNat := by decide
  have hkey : gpioPinGetKey1 .low≠0 := by decide
  have hboots := interrupted_upload_boots_iff 0 true false .high (ramPages_lawful 2048)
    (ramPages_faultless 2048) (fun _ _ => rfl) (ramPages_boundary (by decide))
    (ramPages_boundary (by decide)) (ramPages_covers (by decide) _ _)
    (ramPages_boundary (by decide)) hpage (by decide) hunset hstart hbelow hdata hpart hkey
  exact hboots.1.mpr (by decide)

end Interruptions

end ZephyrApp.BootSelection

import ZephyrApp.Bootloader
import ZephyrApp.EventRuns

/-!
# Uploads to the bootloader

Runs of the bootloader over arbitrary frames, with a record of the latest start
command kept beside them: what it announced, whether it was accepted, whether
every flash operation since succeeded, and the bytes taken. As long as nothing
has failed, the written part of the image and the buffer together are the bytes
taken. From this follow when a jump is sound, that an upload without faults
puts the image in place, and when all operations stay inside the region.
-/

namespace ZephyrApp.Bootloader

open MachineBytes CanFrames FlashPages EventRuns
open CanFwUpgrade (RxCanFrame FwCode payload_length commandFrame dataFrame)

/-- The address of the application as a number. -/
abbrev appStart : ℕ := flashAppStartAddr.toNat

/-- The end of the application region as a number. -/
abbrev appEnd : ℕ := flashAppEndAddr.toNat

section Upload

variable {δ : Type} (F : PagedFlash δ)

/-- The loop over some bytes runs to its end without a failed write. -/
inductive Feeds : BootState δ → List Byte → BootState δ → List BootAction → Prop
  /-- No byte is left. -/
  | nil (s : BootState δ) : Feeds s [] s []
  /-- The image is complete and the other bytes are skipped. -/
  | done (s : BootState δ) (bytes : List Byte) (full : s.total ≤ s.received) : Feeds s bytes s []
  /-- One byte is stored. -/
  | step {s m t : BootState δ} {b : Byte} {bytes : List Byte} {first rest : List BootAction}
      (more : ¬s.total ≤ s.received) (stored : storeByte F s b=some ⟨m,first,0⟩)
      (tail : Feeds m bytes t rest) : Feeds s (b::bytes) t (first++rest)

/-- The image is being taken in: some bytes have been taken of an announced
size within the region, and nothing has failed. -/
structure Uploading (s : BootState δ) (announced : Word) (stream : List Byte) : Prop where
  /-- The announced size is the one of the session. -/
  total : s.total=announced
  /-- It fits in the region. -/
  fits : announced.toNat≤flashAppSize
  /-- The bytes taken are counted. -/
  received : s.received.toNat=stream.length
  /-- They are not more than announced. -/
  le : stream.length≤announced.toNat
  /-- The buffer has room. -/
  room : s.buffer.length < flashBufferSize
  /-- The buffered bytes belong at the write address. -/
  addr : s.flashAddr.toNat+s.buffer.length=appStart+stream.length
  /-- The bytes taken are those written and those buffered. -/
  held : ∃ held,stream=held++s.buffer ∧ F.Holds s.device appStart held
  /-- The rest of the image's place is erased. -/
  erased : F.Erased s.device s.flashAddr.toNat (appStart+announced.toNat)
  /-- A complete image is not buffered any more. -/
  whole : stream.length=announced.toNat → s.buffer=[]

variable {F} {s t : BootState δ} {bytes : List Byte} {actions : List BootAction}

/-- An empty buffer has room. -/
theorem nil_room : ([] : List Byte).length < flashBufferSize := by decide

/-- The loop that runs to its end is the loop of the program. -/
theorem Feeds.dataLoop_eq (h : Feeds F s bytes t actions) :
    dataLoop F s bytes=some ⟨t,actions,0⟩ := by
  induction h with
  | nil s => rfl
  | done s bytes full =>
    cases bytes with
    | nil => rfl
    | cons b bytes => rw [dataLoop,if_pos full]
  | step more stored tail ih =>
    rw [dataLoop,if_neg more,stored]
    dsimp only
    rw [if_neg (not_not.mpr rfl),ih]
    rfl

/-- A loop without a failed write runs to its end. -/
theorem feeds_of_succeeded {report : BootReport δ} (h : dataLoop F s bytes=some report)
    (hok : report.actions.all BootAction.succeeded=true) :
    Feeds F s bytes report.state report.actions := by
  induction bytes generalizing s report with
  | nil =>
    rw [dataLoop] at h
    obtain rfl := Option.some.inj h
    exact .nil s
  | cons b bytes ih =>
    rw [dataLoop] at h
    split at h
    · rename_i hfull
      obtain rfl := Option.some.inj h
      exact .done s _ hfull
    · rename_i hmore
      cases hstore : storeByte F s b with
      | none =>
        rw [hstore] at h
        cases h
      | some first =>
        rw [hstore] at h
        dsimp only at h
        split at h
        · rename_i hret
          obtain rfl := Option.some.inj h
          have hcase := storeByte_cases F s b
          rw [hstore] at hcase
          cases hcase with
          | kept room more => exact absurd rfl hret
          | failed room err => exact absurd hok (by simp [BootAction.succeeded])
          | flushed room due ok => exact absurd rfl hret
        · rename_i hret
          rw [not_not] at hret
          obtain ⟨rest,hrest,rfl⟩ := Option.map_eq_some_iff.mp h
          dsimp only at hok ⊢
          rw [List.all_append,Bool.and_eq_true] at hok
          have hfirst : first=⟨first.state,first.actions,0⟩ := by rw [←hret]
          rw [hfirst] at hstore
          exact .step hmore hstore (ih hrest hok.2)

/-- A buffer with room takes any bytes, up to a failed write. -/
theorem dataLoop_isSome (hroom : s.buffer.length < flashBufferSize) :
    (dataLoop F s bytes).isSome=true := by
  induction bytes generalizing s with
  | nil => rfl
  | cons b bytes ih =>
    rw [dataLoop]
    split
    · rfl
    · have hcase := storeByte_cases F s b
      generalize storeByte F s b=result at hcase
      cases hcase with
      | overrun full => omega
      | kept room more =>
        dsimp only
        rw [if_neg (not_not.mpr rfl),Option.isSome_map]
        exact ih (by rw [List.length_append]; exact room)
      | failed room err => rfl
      | flushed room due ok =>
        dsimp only
        rw [if_neg (not_not.mpr rfl),Option.isSome_map]
        exact ih nil_room

/-- On a faultless device the loop runs to its end. -/
theorem feeds_faultless (hfault : F.Faultless) (hroom : s.buffer.length < flashBufferSize)
    (bytes : List Byte) : ∃ t actions,Feeds F s bytes t actions := by
  induction bytes generalizing s with
  | nil => exact ⟨s,[],.nil s⟩
  | cons b bytes ih =>
    by_cases hfull : s.total ≤ s.received
    · exact ⟨s,[],.done s _ hfull⟩
    · have hcase := storeByte_cases F s b
      cases hstore : storeByte F s b with
      | none =>
        have hover := (storeByte_eq_none F s b).mp hstore
        omega
      | some first =>
        rw [hstore] at hcase
        cases hcase with
        | kept room more =>
          obtain ⟨t,rest,hrest⟩ :=
            ih (s := {s with buffer := s.buffer++[b],received := s.received+1})
              (by rw [List.length_append]; exact room)
          exact ⟨t,_,.step hfull hstore hrest⟩
        | failed room err =>
          exact absurd (err.symm.trans (hfault.write_ok _ _ _)) Bool.false_ne_true
        | flushed room due ok =>
          obtain ⟨t,rest,hrest⟩ := ih (s := s.written F b) nil_room
          exact ⟨t,_,.step hfull hstore hrest⟩

/-- Bytes fed one after the other are fed together. -/
theorem Feeds.append {u : BootState δ} {more : List Byte} {rest : List BootAction}
    (h : Feeds F s bytes t actions) (hmore : Feeds F t more u rest) :
    Feeds F s (bytes++more) u (actions++rest) := by
  induction h with
  | nil s => exact hmore
  | done s bytes full =>
    cases hmore with
    | nil => exact .done _ _ full
    | done _ _ _ => exact .done _ _ full
    | step more stored tail => exact absurd full more
  | step more stored tail ih =>
    rw [List.cons_append,List.append_assoc]
    exact .step more stored (ih hmore)

/-- A buffer that holds the end of the bytes taken is written behind the rest. -/
theorem Uploading.write_buffer (hF : F.Lawful) {announced : Word} {stream : List Byte} {a : ℕ}
    {held buffer : List Byte} {d : δ} (hsplit : stream=held++buffer)
    (hheld : F.Holds d appStart held) (haddr : a+buffer.length=appStart+stream.length)
    (herased : F.Erased d a (appStart+announced.toNat)) (hle : stream.length≤announced.toNat)
    (hok : (F.write d a buffer).1=true) :
    F.Holds (F.write d a buffer).2 appStart stream ∧
      F.Erased (F.write d a buffer).2 (appStart+stream.length) (appStart+announced.toNat) := by
  have hlength : stream.length=held.length+buffer.length := by
    rw [hsplit,List.length_append]
  have hwrote := holds_write hF hheld (by omega) herased (by omega) hok
  rw [←hsplit,haddr] at hwrote
  exact hwrote

/-- A start command that erased the region begins an empty upload. -/
theorem uploading_start {d : δ} {announced : Word} (hfits : announced.toNat≤flashAppSize)
    (h : F.Erased d appStart (appStart+announced.toNat)) :
    Uploading F ⟨d,[],flashAppStartAddr,announced,0⟩ announced [] where
  total := rfl
  fits := hfits
  received := rfl
  le := Nat.zero_le _
  room := nil_room
  addr := rfl
  held := ⟨[],rfl,holds_nil d appStart⟩
  erased := h
  whole _ := rfl

variable {announced : Word} {stream : List Byte}

/-- The image is complete exactly when the counters say so. -/
theorem Uploading.complete_iff (h : Uploading F s announced stream) :
    s.total ≤ s.received ↔ stream.length=announced.toNat := by
  have hle := h.le
  rw [BitVec.le_def,h.total,h.received]
  omega

/-- A successful flush leaves all bytes taken in place. -/
theorem Uploading.flushed (hF : F.Lawful) (h : Uploading F s announced stream)
    (hok : s.buffer=[] ∨ (F.write s.device s.flashAddr.toNat s.buffer).1=true) :
    Uploading F (flushBuffer F s).1 announced stream ∧
      F.Holds (flushBuffer F s).1.device appStart stream := by
  obtain ⟨held,hsplit,hheld⟩ := h.held
  have hfits := h.fits
  have hle := h.le
  have haddr := h.addr
  unfold flushBuffer
  by_cases hbuffer : 0 < s.buffer.length
  · have hwrote := hok.resolve_left fun hnil => by
      rw [hnil] at hbuffer
      exact absurd hbuffer (by decide)
    obtain ⟨hall,hrest⟩ := Uploading.write_buffer hF hsplit hheld haddr h.erased hle hwrote
    have hnext : (s.flashAddr+BitVec.ofNat 32 s.buffer.length).toNat=appStart+stream.length := by
      have hlow : appStart=0x08010000 := rfl
      have hsize : flashAppSize=0x30000 := rfl
      rw [BitVec.toNat_add,BitVec.toNat_ofNat]
      omega
    rw [if_pos hbuffer]
    refine ⟨⟨h.total,hfits,h.received,hle,nil_room,?_,⟨stream,(List.append_nil _).symm,hall⟩,?_,
      fun _ => rfl⟩,hall⟩
    · rw [hnext]
      rfl
    · rw [hnext]
      exact hrest
  · have hnil : s.buffer=[] := List.length_eq_zero_iff.mp (by omega)
    rw [if_neg hbuffer]
    rw [hnil,List.append_nil] at hsplit
    rw [←hsplit] at hheld
    exact ⟨h,hheld⟩

/-- Storing a byte without a failed write takes it in. -/
theorem Uploading.store (hF : F.Lawful) (h : Uploading F s announced stream)
    (hmore : ¬s.total ≤ s.received) {b : Byte} {m : BootState δ} {first : List BootAction}
    (hstore : storeByte F s b=some ⟨m,first,0⟩) : Uploading F m announced (stream++[b]) := by
  have hcase := storeByte_stored F s hstore
  obtain ⟨held,hsplit,hheld⟩ := h.held
  have hle := h.le
  have haddr := h.addr
  have hfits := h.fits
  have hroom := h.room
  rw [h.complete_iff] at hmore
  have hlow : appStart=0x08010000 := rfl
  have hsize : flashAppSize=0x30000 := rfl
  have hbuffer : flashBufferSize=64 := rfl
  have hstream : (stream++[b]).length=stream.length+1 := List.length_append
  have hreceived : (s.received+1).toNat=(stream++[b]).length := by
    have hcount := h.received
    have hone : (1 : Word).toNat=1 := rfl
    rw [BitVec.toNat_add,hcount,hone]
    omega
  have hsplit' : stream++[b]=held++(s.buffer++[b]) := by
    rw [hsplit,List.append_assoc]
  have haddr' : s.flashAddr.toNat+(s.buffer++[b]).length=appStart+(stream++[b]).length := by
    rw [List.length_append,hstream,List.length_singleton]
    omega
  cases hcase with
  | kept room more =>
    rw [BitVec.le_def,h.total,hreceived] at more
    refine ⟨h.total,hfits,hreceived,by omega,?_,haddr',⟨held,hsplit',hheld⟩,h.erased,?_⟩
    · rw [List.length_append]
      exact room
    · intro hwhole
      omega
  | flushed room due ok =>
    obtain ⟨hall,hrest⟩ :=
      Uploading.write_buffer hF hsplit' hheld haddr' h.erased (by omega) ok
    have hnext : (s.flashAddr+BitVec.ofNat 32 (s.buffer.length+1)).toNat=
        appStart+(stream++[b]).length := by
      rw [List.length_append,List.length_singleton] at haddr'
      rw [BitVec.toNat_add,BitVec.toNat_ofNat]
      omega
    refine ⟨h.total,hfits,hreceived,by omega,nil_room,?_,⟨_,(List.append_nil _).symm,hall⟩,?_,
      fun _ => rfl⟩
    · dsimp only [BootState.written]
      rw [hnext]
      rfl
    · dsimp only [BootState.written]
      rw [hnext]
      exact hrest

/-- A loop that runs to its end takes in as many bytes as were announced. -/
theorem Feeds.uploading (hF : F.Lawful) (hfeeds : Feeds F s bytes t actions)
    (h : Uploading F s announced stream) :
    Uploading F t announced (stream++bytes.take (announced.toNat-stream.length)) := by
  induction hfeeds generalizing stream with
  | nil s => simpa only [List.take_nil,List.append_nil] using h
  | done s bytes full =>
    rw [h.complete_iff.mp full,Nat.sub_self,List.take_zero,List.append_nil]
    exact h
  | @step s m t b bytes first rest more stored tail ih =>
    have hnext := ih (h.store hF more stored)
    have hle := h.le
    rw [h.complete_iff] at more
    have htake : announced.toNat-stream.length=(announced.toNat-(stream++[b]).length)+1 := by
      rw [List.length_append,List.length_singleton]
      omega
    rw [List.append_assoc,List.singleton_append] at hnext
    rw [htake,List.take_succ_cons]
    exact hnext

end Upload

/-- What is known of the upload since the latest full start command. -/
structure BootSession where
  /-- The size it announced. -/
  announced : Word
  /-- Whether it was accepted. -/
  accepted : Bool
  /-- Whether every erase and write since it has succeeded. -/
  intact : Bool
  /-- The bytes of the data frames since, as far as the announced size reaches. -/
  stream : List Byte
  deriving DecidableEq

/-- Keep the record over one frame. It is lost with the statics at a restart. -/
def noteSession (session : Option BootSession) (frame : RxCanFrame) (actions : List BootAction) :
    Option BootSession :=
  let ok := actions.all BootAction.succeeded
  if .jump∈actions ∨ .reboot∈actions then none
  else if IsFullStart frame then
    some ⟨frame.data32 1,decide (.response .offset 0∈actions),ok,[]⟩
  else session.map fun u => {u with
    intact := u.intact && ok
    stream := if IsData frame then
        u.stream++frame.payload.take (u.announced.toNat-u.stream.length)
      else u.stream}

/-- The bootloader with the record. -/
structure BootRun (δ : Type) where
  /-- The statics and the device. -/
  boot : BootState δ
  /-- The upload since the latest start command. -/
  session : Option BootSession

/-- A run from boot, with nothing recorded. -/
def BootRun.booted {δ : Type} (device : δ) : BootRun δ := ⟨.boot device,none⟩

section Runs

variable {δ : Type} (F : PagedFlash δ) (appVersion : Word)

/-- One frame, recorded. After a byte stored past the end of the buffer there
is no state any more. -/
def bootStep (r : Option (BootRun δ)) (frame : RxCanFrame) : Option (BootRun δ) :=
  r.bind fun r => (fwUpdate F appVersion r.boot frame).map fun report =>
    ⟨report.state,noteSession r.session frame report.actions⟩

/-- At one frame, the statics are sound, and a jump is made only after an
accepted start command, with exactly the announced bytes received, every erase
and write succeeded, and the bytes in place. -/
def JumpSound (r : Option (BootRun δ)) (frame : RxCanFrame) : Prop :=
  ∃ x∈r,∃ report∈fwUpdate F appVersion x.boot frame,.jump∈report.actions →
    ∃ u∈x.session,u.accepted=true ∧ u.intact=true ∧
      report.actions.all BootAction.succeeded=true ∧ u.stream.length=u.announced.toNat ∧
      F.Holds (flushBuffer F x.boot).1.device appStart u.stream

/-- A data frame that is taken finds room in the buffer, and a confirm command
that finds as many bytes as announced finds an accepted upload that fits in the
region, without a failed operation, the last write included. -/
def JumpReady (r : Option (BootRun δ)) (frame : RxCanFrame) : Prop :=
  ∀ x∈r,
    (IsData frame → ¬x.boot.total ≤ x.boot.received → 0 < canDlcToBytes frame.dlc →
      x.boot.buffer.length < flashBufferSize) ∧
    (IsConfirm frame → x.boot.received=x.boot.total →
      ∃ u∈x.session,u.accepted=true ∧ u.intact=true ∧ u.announced.toNat≤flashAppSize ∧
        (x.boot.buffer=[] ∨
          (F.write x.boot.device x.boot.flashAddr.toNat x.boot.buffer).1=true))

/-- As long as nothing has failed in the recorded session, its bytes are being
taken in. -/
def Recorded (x : BootRun δ) : Prop :=
  ∀ u∈x.session,u.accepted=true → u.intact=true → u.announced.toNat≤flashAppSize →
    Uploading F x.boot u.announced u.stream

variable {F appVersion} {x : BootRun δ} {frame : RxCanFrame}

/-- The boot state has no session. -/
theorem recorded_boot (device : δ) : Recorded F (.booted device) :=
  fun u hu => absurd hu (Option.not_mem_none u)

/-- A step keeps the record sound when it does so for a new upload and for the
one recorded. -/
theorem recorded_note {state : BootState δ} {actions : List BootAction}
    (hstart : IsFullStart frame → .response .offset 0∈actions →
      (frame.data32 1).toNat≤flashAppSize → Uploading F state (frame.data32 1) [])
    (hkeep : ¬IsFullStart frame → ∀ u∈x.session,u.accepted=true → u.intact=true →
      u.announced.toNat≤flashAppSize → actions.all BootAction.succeeded=true →
        Uploading F state u.announced (if IsData frame then
          u.stream++frame.payload.take (u.announced.toNat-u.stream.length) else u.stream)) :
    Recorded F ⟨state,noteSession x.session frame actions⟩ := by
  intro u hu hacc hintact hfits
  dsimp only [noteSession] at hu ⊢
  split at hu
  · exact absurd hu (Option.not_mem_none u)
  · split at hu
    · rename_i hs
      obtain rfl := Option.mem_some_iff.mp hu
      exact hstart hs (of_decide_eq_true hacc) hfits
    · rename_i hs
      obtain ⟨u0,hu0,rfl⟩ := Option.map_eq_some_iff.mp hu
      rw [Bool.and_eq_true] at hintact
      exact hkeep hs u0 hu0 hacc hintact.1 hfits hintact.2

/-- A full start command begins a sound record. -/
theorem start_recorded (hF : F.Lawful) (hlow : F.Boundary appStart) (hs : IsFullStart frame) :
    Recorded F ⟨(handleStart F x.boot frame).state,
      noteSession x.session frame (handleStart F x.boot frame).actions⟩ := by
  refine recorded_note (fun _ hoffset hfits => ?_) fun hn => absurd hs hn
  rw [handleStart_eq F x.boot hs.2.2] at hoffset ⊢
  have hok : (startErase F x.boot frame).1=true := by
    rcases List.mem_append.mp hoffset with ha | ha
    · obtain ⟨start,n,ok,he⟩ := eraseLoop_erases _ ha
      cases he
    · by_contra hfail
      rw [if_neg hfail] at ha
      simp at ha
  have hempty : F.Erased x.boot.device appStart appStart :=
    fun a ha hb => absurd hb (Nat.not_lt.mpr ha)
  have herased : F.Erased (startErase F x.boot frame).2.1 appStart
      (appStart+min flashAppSize (frame.data32 1).toNat) :=
    (eraseLoop_erased hF hlow (le_refl _) hempty hok).1
  rw [Nat.min_eq_right hfits] at herased
  exact uploading_start hfits herased

/-- A confirm command that does not jump keeps the record sound. -/
theorem confirm_recorded (hF : F.Lawful) (hr : Recorded F x) (hc : IsConfirm frame) :
    Recorded F ⟨(handleConfirm F x.boot).state,
      noteSession x.session frame (handleConfirm F x.boot).actions⟩ := by
  have hdata : ¬IsData frame := fun hd => hd.not_command hc.1
  by_cases htotal : (flushBuffer F x.boot).1.received=(flushBuffer F x.boot).1.total
  · intro u hu
    have hnone : noteSession x.session frame (handleConfirm F x.boot).actions=none := by
      unfold handleConfirm
      dsimp only
      rw [if_neg (not_not.mpr htotal),noteSession,if_pos]
      simp
    rw [hnone] at hu
    exact absurd hu (Option.not_mem_none u)
  · refine recorded_note (fun hs => absurd hs hc.not_isFullStart)
      fun _ u hu hacc hintact hfits hok => ?_
    unfold handleConfirm at hok ⊢
    dsimp only at hok ⊢
    rw [if_pos htotal] at hok ⊢
    rw [if_neg hdata]
    refine ((hr u hu hacc hintact hfits).flushed hF ?_).1
    obtain ⟨hnil,-⟩ | ⟨-,hwrite⟩ := flushBuffer_actions F x.boot
    · exact Or.inl hnil
    · rw [hwrite] at hok
      exact Or.inr (by simpa [BootAction.succeeded] using hok)

/-- A data frame keeps the record sound. -/
theorem data_recorded (hF : F.Lawful) (hr : Recorded F x) (hd : IsData frame)
    {report : BootReport δ} (h : handleData F x.boot frame=some report) :
    Recorded F ⟨report.state,noteSession x.session frame report.actions⟩ := by
  refine recorded_note (fun hs => absurd hs.1 hd.not_command) fun _ u hu hacc hintact hfits hok => ?_
  have hup := hr u hu hacc hintact hfits
  rw [if_pos hd]
  unfold handleData at h
  split at h
  · rename_i hfull
    obtain rfl := Option.some.inj h
    rw [hup.complete_iff.mp hfull,Nat.sub_self,List.take_zero,List.append_nil]
    exact hup
  · exact (feeds_of_succeeded h hok).uploading hF hup

/-- Every frame that leaves a state keeps the record sound. -/
theorem recorded_step (hF : F.Lawful) (hlow : F.Boundary appStart) (hr : Recorded F x)
    {report : BootReport δ} (h : fwUpdate F appVersion x.boot frame=some report) :
    Recorded F ⟨report.state,noteSession x.session frame report.actions⟩ := by
  by_cases hs : IsFullStart frame
  · rw [fwUpdate_start F appVersion x.boot hs] at h
    obtain rfl := Option.some.inj h
    exact start_recorded hF hlow hs
  · by_cases hc : IsConfirm frame
    · rw [fwUpdate_confirm F appVersion x.boot hc] at h
      obtain rfl := Option.some.inj h
      exact confirm_recorded hF hr hc
    · by_cases hd : IsData frame
      · rw [fwUpdate_data F appVersion x.boot hd] at h
        exact data_recorded hF hr hd h
      · obtain ⟨other,hother,-,hstate⟩ := fwUpdate_other F appVersion x.boot hs hc hd
        obtain rfl := Option.some.inj (h.symm.trans hother)
        rcases hstate with ⟨hsame,-⟩ | ⟨-,hreboot⟩
        · refine recorded_note (fun hn => absurd hn hs) fun _ u hu hacc hintact hfits _ => ?_
          rw [hsame,if_neg hd]
          exact hr u hu hacc hintact hfits
        · intro u hu
          dsimp only [noteSession] at hu
          rw [if_pos (Or.inr hreboot)] at hu
          exact absurd hu (Option.not_mem_none u)

/-- A frame that meets the condition leaves a state. -/
theorem fwUpdate_isSome (h : JumpReady F (some x) frame) :
    ∃ report,fwUpdate F appVersion x.boot frame=some report := by
  by_cases hs : IsFullStart frame
  · exact ⟨_,fwUpdate_start F appVersion x.boot hs⟩
  · by_cases hc : IsConfirm frame
    · exact ⟨_,fwUpdate_confirm F appVersion x.boot hc⟩
    · by_cases hd : IsData frame
      · rw [fwUpdate_data F appVersion x.boot hd,←Option.isSome_iff_exists]
        unfold handleData
        split
        · rfl
        · rename_i hmore
          by_cases hsize : 0 < canDlcToBytes frame.dlc
          · exact dataLoop_isSome ((h x rfl).1 hd hmore hsize)
          · have hnil : frame.payload=[] := List.length_eq_zero_iff.mp (by
              rw [payload_length]
              omega)
            rw [hnil]
            rfl
      · obtain ⟨report,hreport,-⟩ := fwUpdate_other F appVersion x.boot hs hc hd
        exact ⟨report,hreport⟩

/-- Only a confirm command that finds the announced number of bytes jumps. -/
theorem jump_confirm {report : BootReport δ} (h : fwUpdate F appVersion x.boot frame=some report)
    (hjump : .jump∈report.actions) :
    IsConfirm frame ∧ x.boot.received=x.boot.total ∧
      report.actions=(flushBuffer F x.boot).2++[.response .confirm 0x55AA55AA,.jump] := by
  by_cases hs : IsFullStart frame
  · rw [fwUpdate_start F appVersion x.boot hs,handleStart_eq F x.boot hs.2.2] at h
    obtain rfl := Option.some.inj h
    rcases List.mem_append.mp hjump with ha | ha
    · obtain ⟨start,n,ok,he⟩ := eraseLoop_erases _ ha
      cases he
    · rw [List.mem_singleton] at ha
      split at ha <;> cases ha
  · by_cases hc : IsConfirm frame
    · obtain ⟨hreceived,hsize⟩ := flushBuffer_sizes F x.boot
      rw [fwUpdate_confirm F appVersion x.boot hc,handleConfirm] at h
      rw [hreceived,hsize] at h
      split at h
      · obtain rfl := Option.some.inj h
        obtain ⟨-,hnone⟩ | ⟨-,hwrite⟩ := flushBuffer_actions F x.boot
        · rw [hnone] at hjump
          simp at hjump
        · rw [hwrite] at hjump
          simp at hjump
      · rename_i htotal
        obtain rfl := Option.some.inj h
        exact ⟨hc,not_not.mp htotal,rfl⟩
    · by_cases hd : IsData frame
      · rw [fwUpdate_data F appVersion x.boot hd,handleData] at h
        split at h
        · obtain rfl := Option.some.inj h
          exact absurd hjump List.not_mem_nil
        · exact absurd hjump (dataLoop_jump F x.boot h)
      · obtain ⟨other,hother,hplain,-⟩ := fwUpdate_other F appVersion x.boot hs hc hd
        obtain rfl := Option.some.inj (h.symm.trans hother)
        exact absurd (hplain _ hjump) id

/-- One frame that meets the condition keeps the record sound and jumps soundly. -/
theorem jumpSound_step (hF : F.Lawful) (hlow : F.Boundary appStart) (r : Option (BootRun δ))
    (frame : RxCanFrame) (hr : ∃ x∈r,Recorded F x) (hc : JumpReady F r frame) :
    (∃ x∈bootStep F appVersion r frame,Recorded F x) ∧ JumpSound F appVersion r frame := by
  obtain ⟨x,hx,hrec⟩ := hr
  obtain rfl : r=some x := hx
  have hsome : ∃ report,fwUpdate F appVersion x.boot frame=some report := fwUpdate_isSome hc
  obtain ⟨report,hreport⟩ := hsome
  refine ⟨⟨_,?_,recorded_step hF hlow hrec hreport⟩,x,rfl,report,hreport,fun hjump => ?_⟩
  · rw [Option.mem_def,bootStep,Option.bind_some,hreport,Option.map_some]
  · obtain ⟨hconfirm,htotal,hactions⟩ := jump_confirm hreport hjump
    obtain ⟨u,hu,hacc,hintact,hfits,hlast⟩ := (hc x rfl).2 hconfirm htotal
    have hup := hrec u hu hacc hintact hfits
    refine ⟨u,hu,hacc,hintact,?_,?_,(hup.flushed hF hlast).2⟩
    · rw [hactions,List.all_append]
      obtain ⟨-,hnone⟩ | ⟨hbuffer,hwrite⟩ := flushBuffer_actions F x.boot
      · rw [hnone]
        rfl
      · rw [hwrite,hlast.resolve_left hbuffer]
        rfl
    · rw [←hup.received,htotal,hup.total]

/-- In every run from boot whose frames all meet the condition, every jump is
sound. -/
theorem jumpSound_runs (hF : F.Lawful) (hlow : F.Boundary appStart) (device : δ)
    (frames : List RxCanFrame)
    (h : AlongRun (bootStep F appVersion) (JumpReady F) (some (.booted device)) frames) :
    AlongRun (bootStep F appVersion) (JumpSound F appVersion) (some (.booted device)) frames :=
  alongRun_of_invariant (jumpSound_step hF hlow) ⟨_,rfl,recorded_boot device⟩ h

instance decidableJumpReady (r : Option (BootRun δ)) (frame : RxCanFrame) :
    Decidable (JumpReady F r frame) :=
  match r with
  | none => isTrue fun x hx => absurd hx (Option.not_mem_none x)
  | some x => decidable_of_iff
      ((IsData frame → ¬x.boot.total ≤ x.boot.received → 0 < canDlcToBytes frame.dlc →
        x.boot.buffer.length < flashBufferSize) ∧
      (IsConfirm frame → x.boot.received=x.boot.total →
        ∃ u∈x.session.toList,u.accepted=true ∧ u.intact=true ∧ u.announced.toNat≤flashAppSize ∧
          (x.boot.buffer.isEmpty=true ∨
            (F.write x.boot.device x.boot.flashAddr.toNat x.boot.buffer).1=true)))
      (by simp [JumpReady,Option.mem_def])

/-- A complete upload of one frame, then the jump. -/
theorem jumpSound_runs_eight :
    AlongRun (bootStep (ramPages 2048) 0) (JumpSound (ramPages 2048) 0)
      (some (.booted fun _ => 0))
      [commandFrame boardStartUpdate 8,dataFrame 1,commandFrame boardConfirm 1] :=
  jumpSound_runs (ramPages_lawful 2048) (ramPages_boundary (by decide)) _ _ (by decide +kernel)

/-- After a boot the two sizes are equal, and a confirm command jumps without
any start command before it. -/
theorem jumpSound_fails :
    ¬AlongRun (bootStep (ramPages 2048) 0) (JumpSound (ramPages 2048) 0)
      (some (.booted fun _ => 0)) [commandFrame boardConfirm 1] := by
  rintro ⟨⟨x,hx,report,hreport,hsound⟩,-⟩
  obtain rfl := Option.some.inj hx
  obtain ⟨u,hu,-⟩ := hsound (by
    have hc : IsConfirm (commandFrame boardConfirm 1) := by decide
    have hrun := fwUpdate_confirm (ramPages 2048) 0 (.boot fun _ => 0) hc
    obtain rfl := Option.some.inj (hrun.symm.trans hreport)
    decide +kernel)
  exact absurd hu (Option.not_mem_none u)

end Runs

end ZephyrApp.Bootloader

import ZephyrApp.BootloaderSession

/-!
# The image that an upload leaves

An upload on a device without faults, however its bytes are split into data
frames. A run over the frames is the loop over all their bytes, so that the
splitting does not matter. The writes of that loop cover the place of the image
address by address, and its end is answered once.
-/

namespace ZephyrApp.Bootloader

open MachineBytes CanFrames FlashPages EventRuns
open CanFwUpgrade (RxCanFrame FwCode payload_length commandFrame dataFrame)

/-- The addresses that the writes among some actions touch, in order. -/
def writtenAddrs (actions : List BootAction) : List ℕ :=
  actions.flatMap fun
    | .write addr bytes _ => List.range' addr bytes.length
    | _ => []

/-- The values of the responses that report a complete image. -/
def successes (actions : List BootAction) : List Word :=
  actions.filterMap fun
    | .response .updateSuccess value => some value
    | _ => none

/-- The addresses of two parts follow each other. -/
@[simp] theorem writtenAddrs_append (xs ys : List BootAction) :
    writtenAddrs (xs++ys)=writtenAddrs xs++writtenAddrs ys := List.flatMap_append

/-- The reports of two parts follow each other. -/
@[simp] theorem successes_append (xs ys : List BootAction) :
    successes (xs++ys)=successes xs++successes ys := List.filterMap_append

section Loop

variable {δ : Type} {F : PagedFlash δ} {s t : BootState δ} {bytes : List Byte}
variable {actions : List BootAction}

/-- The buffered bytes belong at the write address, and all received bytes are
before its end. -/
structure Placed (s : BootState δ) : Prop where
  /-- The buffer is not overrun. -/
  room : s.buffer.length≤flashBufferSize
  /-- What is buffered has been received. -/
  counted : s.buffer.length ≤ s.received.toNat
  /-- The end of the buffer belongs at the end of what has been received. -/
  addr : s.flashAddr.toNat+s.buffer.length=appStart+s.received.toNat

/-- Counting one more byte of an image does not wrap. -/
theorem received_succ (h : ¬s.total ≤ s.received) :
    (s.received+1).toNat=s.received.toNat+1 ∧ s.received.toNat < s.total.toNat := by
  have hlt := s.total.isLt
  have hone : (1 : Word).toNat=1 := rfl
  rw [BitVec.le_def] at h
  rw [BitVec.toNat_add,hone]
  omega

/-- Responses write nothing. -/
theorem writtenAddrs_progress (s : BootState δ) : writtenAddrs (progress s)=[] := by
  unfold progress
  split
  · rfl
  · split
    · rfl
    · split <;> rfl

/-- The complete image is reported with its size. -/
theorem successes_progress (s : BootState δ) :
    successes (progress s)=if s.total ≤ s.received then [s.received] else [] := by
  unfold progress
  split
  · rfl
  · split
    · rfl
    · split <;> rfl

/-- A written buffer starts at the write address, which moves behind it. -/
theorem written_addr (hp : Placed s) (hmore : ¬s.total ≤ s.received)
    (hlimit : appStart+s.total.toNat < 2^32) (b : Byte) :
    (s.written F b).flashAddr.toNat=s.flashAddr.toNat+(s.buffer.length+1) := by
  have haddr := hp.addr
  obtain ⟨-,hlt⟩ := received_succ hmore
  dsimp only [BootState.written]
  rw [BitVec.toNat_add,BitVec.toNat_ofNat]
  omega

/-- Storing a byte keeps the placement, whatever the write comes to. -/
theorem Placed.store (hp : Placed s) (hmore : ¬s.total ≤ s.received)
    (hlimit : appStart+s.received.toNat+1 < 2^32) {b : Byte} {report : BootReport δ}
    (h : storeByte F s b=some report) :
    Placed report.state ∧ report.state.total=s.total ∧
      report.state.received.toNat=s.received.toNat+1 ∧
      (report.ret=0 → report.state.buffer.length < flashBufferSize) ∧
      ∀ a∈report.actions,a.Inside appStart (appStart+s.received.toNat+1) := by
  have hcase := storeByte_cases F s b
  have haddr := hp.addr
  have hcounted := hp.counted
  obtain ⟨hsucc,-⟩ := received_succ hmore
  have hlength : (s.buffer++[b]).length=s.buffer.length+1 := List.length_append
  have hinside : ∀ ok,BootAction.Inside appStart (appStart+s.received.toNat+1)
      (.write s.flashAddr.toNat (s.buffer++[b]) ok) := by
    intro ok
    dsimp only [BootAction.Inside]
    rw [hlength]
    omega
  rw [h] at hcase
  cases hcase with
  | kept room more =>
    refine ⟨⟨?_,?_,?_⟩,rfl,hsucc,fun _ => ?_,fun a ha => absurd ha List.not_mem_nil⟩ <;>
      dsimp only <;> rw [hlength] <;> omega
  | failed room err =>
    have hret : ¬(-1 : ℤ)=0 := by decide
    refine ⟨⟨?_,?_,?_⟩,rfl,hsucc,fun h => absurd h hret,fun a ha => ?_⟩
    · dsimp only
      omega
    · dsimp only
      omega
    · dsimp only
      omega
    · rcases List.mem_cons.mp ha with rfl | ha
      · exact hinside false
      · rw [List.mem_singleton.mp ha]
        trivial
  | flushed room due ok =>
    refine ⟨⟨Nat.zero_le _,Nat.zero_le _,?_⟩,rfl,hsucc,fun _ => nil_room,fun a ha => ?_⟩
    · dsimp only [BootState.written]
      rw [BitVec.toNat_add,BitVec.toNat_ofNat,hsucc,List.length_nil]
      omega
    · rcases List.mem_cons.mp ha with rfl | ha
      · exact hinside true
      · obtain ⟨code,value,rfl⟩ := progress_responses _ a ha
        trivial

/-- The loop over the bytes of a data frame keeps the placement, and writes only
below the end of what it receives. -/
theorem placed_dataLoop (hp : Placed s) {limit : ℕ} (hlimit : appStart+limit < 2^32)
    (hroom : s.buffer.length < flashBufferSize) (hnow : s.received.toNat ≤ limit)
    (hfits : min (s.received.toNat+bytes.length) s.total.toNat ≤ limit) {report : BootReport δ}
    (h : dataLoop F s bytes=some report) :
    Placed report.state ∧ report.state.received.toNat ≤ limit ∧
      ∀ a∈report.actions,a.Inside appStart (appStart+limit) := by
  induction bytes generalizing s report with
  | nil =>
    rw [dataLoop] at h
    obtain rfl := Option.some.inj h
    exact ⟨hp,hnow,fun a ha => absurd ha List.not_mem_nil⟩
  | cons b bytes ih =>
    rw [dataLoop] at h
    split at h
    · obtain rfl := Option.some.inj h
      exact ⟨hp,hnow,fun a ha => absurd ha List.not_mem_nil⟩
    · rename_i hmore
      obtain ⟨-,hlt⟩ := received_succ hmore
      rw [List.length_cons] at hfits
      cases hstore : storeByte F s b with
      | none =>
        rw [hstore] at h
        cases h
      | some first =>
        obtain ⟨hplaced,htotal,hcount,hfree,hinside⟩ := hp.store hmore (by omega) hstore
        have hwiden : ∀ a∈first.actions,a.Inside appStart (appStart+limit) := by
          intro a ha
          have hin := hinside a ha
          cases a with
          | erase addr size ok => exact ⟨hin.1,hin.2.trans (by omega)⟩
          | write addr bytes ok => exact ⟨hin.1,hin.2.trans (by omega)⟩
          | response code value => trivial
          | jump => trivial
          | reboot => trivial
        rw [hstore] at h
        dsimp only at h
        split at h
        · obtain rfl := Option.some.inj h
          exact ⟨hplaced,by omega,hwiden⟩
        · rename_i hret
          obtain ⟨rest,hrest,rfl⟩ := Option.map_eq_some_iff.mp h
          obtain ⟨hplaced',hcount',hinside'⟩ :=
            ih hplaced (hfree (not_not.mp hret)) (by omega) (by rw [htotal]; omega) hrest
          refine ⟨hplaced',hcount',fun a ha => ?_⟩
          rcases List.mem_append.mp ha with ha | ha
          · exact hwiden a ha
          · exact hinside' a ha

/-- The buffer keeps room. -/
theorem Feeds.room (h : Feeds F s bytes t actions) (hroom : s.buffer.length < flashBufferSize) :
    t.buffer.length < flashBufferSize := by
  induction h with
  | nil s => exact hroom
  | done s bytes full => exact hroom
  | @step s m t b bytes first rest more stored tail ih =>
    have hcase := storeByte_stored F s stored
    refine ih ?_
    cases hcase with
    | kept room more =>
      rw [List.length_append]
      exact room
    | flushed room due ok =>
      exact nil_room

/-- The loop keeps the announced size and never counts beyond it. -/
theorem Feeds.total_eq (h : Feeds F s bytes t actions) : t.total=s.total := by
  induction h with
  | nil s => rfl
  | done s bytes full => rfl
  | @step s m t b bytes first rest more stored tail ih =>
    have hcase := storeByte_stored F s stored
    rw [ih]
    cases hcase with
    | kept room more => rfl
    | flushed room due ok => rfl

/-- The loop counts its bytes up to the announced size. -/
theorem Feeds.received_eq (h : Feeds F s bytes t actions) (hle : s.received ≤ s.total) :
    t.received.toNat=min (s.received.toNat+bytes.length) s.total.toNat := by
  induction h with
  | nil s =>
    rw [BitVec.le_def] at hle
    rw [List.length_nil]
    omega
  | done s bytes full =>
    rw [BitVec.le_def] at hle full
    omega
  | @step s m t b bytes first rest more stored tail ih =>
    obtain ⟨hsucc,hlt⟩ := received_succ more
    have hstate : m.total=s.total ∧ m.received=s.received+1 := by
      have hcase := storeByte_stored F s stored
      cases hcase with
      | kept room more => exact ⟨rfl,rfl⟩
      | flushed room due ok => exact ⟨rfl,rfl⟩
    rw [BitVec.le_def] at ih
    rw [hstate.1,hstate.2,hsucc] at ih
    rw [ih (by omega),List.length_cons]
    omega

/-- A loop that completes the image leaves nothing in the buffer. -/
theorem Feeds.whole (h : Feeds F s bytes t actions) (hmore : ¬s.total ≤ s.received)
    (hfull : t.total ≤ t.received) : t.buffer=[] := by
  induction h with
  | nil s => exact absurd hfull hmore
  | done s bytes full => exact absurd full hmore
  | @step s m t b bytes first rest more stored tail ih =>
    by_cases hm : m.total ≤ m.received
    · have hcase := storeByte_stored F s stored
      have hmt : m=t := by
        cases tail with
        | nil => rfl
        | done _ _ _ => rfl
        | step more' _ _ => exact absurd hm more'
      rw [←hmt]
      cases hcase with
      | kept room hnext =>
        exact absurd hm hnext
      | flushed room due ok =>
        rfl
    · exact ih hm hfull

/-- The writes of the loop cover the addresses from the write address at its
start to the one at its end, each once. -/
theorem Feeds.written (h : Feeds F s bytes t actions) (hp : Placed s)
    (hlimit : appStart+s.total.toNat < 2^32) :
    Placed t ∧ ∃ n,t.flashAddr.toNat=s.flashAddr.toNat+n ∧
      writtenAddrs actions=List.range' s.flashAddr.toNat n := by
  induction h with
  | nil s => exact ⟨hp,0,rfl,rfl⟩
  | done s bytes full => exact ⟨hp,0,rfl,rfl⟩
  | @step s m t b bytes first rest more stored tail ih =>
    obtain ⟨-,hlt⟩ := received_succ more
    obtain ⟨hplaced,htotal,-⟩ := hp.store more (by omega) stored
    obtain ⟨hend,n,haddr,hrest⟩ := ih hplaced (by rw [htotal]; exact hlimit)
    have hcase := storeByte_stored F s stored
    cases hcase with
    | kept room more =>
      exact ⟨hend,n,haddr,hrest⟩
    | flushed room due ok =>
      have hstep := written_addr (F := F) hp more hlimit b
      refine ⟨hend,s.buffer.length+1+n,by omega,?_⟩
      rw [hstep] at hrest
      rw [writtenAddrs_append,hrest]
      change (List.range' s.flashAddr.toNat (s.buffer++[b]).length++
        writtenAddrs (progress (s.written F b)))++_=_
      rw [writtenAddrs_progress,List.append_nil,List.length_append,List.length_singleton,
        List.range'_append_1]

/-- A loop that completes the image reports it once, and no other does. -/
theorem Feeds.successes_eq (h : Feeds F s bytes t actions) :
    successes actions=if ¬s.total ≤ s.received ∧ t.total ≤ t.received then [s.total] else [] := by
  induction h with
  | nil s =>
    rw [if_neg fun hn => hn.1 hn.2]
    rfl
  | done s bytes full =>
    rw [if_neg fun hn => hn.1 full]
    rfl
  | @step s m t b bytes first rest more stored tail ih =>
    have hcase := storeByte_stored F s stored
    obtain ⟨hsucc,hlt⟩ := received_succ more
    rw [successes_append,ih]
    cases hcase with
    | kept room hnext =>
      simp only [more,hnext,not_false_eq_true,true_and]
      rfl
    | flushed room due ok =>
      change successes (progress (s.written F b))++_=_
      rw [successes_progress]
      by_cases hwhole : s.total ≤ s.received+1
      · have hreceived : s.received+1=s.total := by
          rw [BitVec.le_def,hsucc] at hwhole
          apply BitVec.eq_of_toNat_eq
          omega
        have hstop : t.total ≤ t.received := by
          cases tail with
          | nil => exact hwhole
          | done _ _ full => exact full
          | step more' _ _ => exact absurd hwhole more'
        have htotal : (s.written F b).total ≤ (s.written F b).received := hwhole
        simp only [htotal,more,hstop,not_true_eq_false,not_false_eq_true,false_and,and_self,if_true,
          if_false,List.append_nil]
        rw [←hreceived]
        rfl
      · have htotal : ¬(s.written F b).total ≤ (s.written F b).received := hwhole
        simp only [htotal,more,not_false_eq_true,true_and,if_false,List.nil_append]
        rfl

/-- Bytes fed together are fed one after the other. -/
theorem Feeds.split {u : BootState δ} {xs ys : List Byte} (hfault : F.Faultless)
    (hroom : s.buffer.length < flashBufferSize) (h : Feeds F s (xs++ys) u actions) :
    ∃ m first rest,Feeds F s xs m first ∧ Feeds F m ys u rest ∧ actions=first++rest := by
  obtain ⟨m,first,hfirst⟩ := feeds_faultless hfault hroom xs
  obtain ⟨v,rest,hrest⟩ := feeds_faultless hfault (hfirst.room hroom) ys
  have hboth := (hfirst.append hrest).dataLoop_eq.symm.trans h.dataLoop_eq
  rw [Option.some.injEq,BootReport.mk.injEq] at hboth
  exact ⟨m,first,rest,hfirst,hboth.1 ▸ hrest,hboth.2.1.symm⟩

end Loop

section Runs

variable {δ : Type} (F : PagedFlash δ) (appVersion : Word)

/-- What one frame makes the bootloader do. -/
def bootActions (r : Option (BootRun δ)) (frame : RxCanFrame) : List BootAction :=
  ((r.bind fun x => fwUpdate F appVersion x.boot frame).map BootReport.actions).getD []

/-- What the frames of a run make it do, in order. -/
def runActions (r : Option (BootRun δ)) (frames : List RxCanFrame) : List BootAction :=
  (outputs (bootStep F appVersion) (bootActions F appVersion) r frames).flatten

/-- What an upload leaves and does. -/
structure ImageWritten (final : BootState δ) (actions : List BootAction) (n : Word)
    (stream : List Byte) : Prop where
  /-- The first bytes of the stream are in place. -/
  holds : F.Holds final.device appStart (stream.take n.toNat)
  /-- Every address of the image is written, in order and once. -/
  once : writtenAddrs actions=List.range' appStart n.toNat
  /-- The complete image is reported once, with its size. -/
  success : successes actions=if 0 < n.toNat then [n] else []
  /-- The announced number of bytes is counted. -/
  counted : final.received=n
  /-- A further data frame changes nothing. -/
  extra : ∀ frame,IsData frame → fwUpdate F appVersion final frame=some ⟨final,[],-1⟩

variable {F appVersion} {x : BootRun δ} {t : BootState δ} {actions : List BootAction}

variable (appVersion) in
/-- On a device without faults a run over data frames is the loop over all their
bytes. -/
theorem feeds_run (hfault : F.Faultless) (hroom : x.boot.buffer.length < flashBufferSize)
    {frames : List RxCanFrame} (hd : ∀ frame∈frames,IsData frame)
    (h : Feeds F x.boot (frames.flatMap RxCanFrame.payload) t actions) :
    (finalState (bootStep F appVersion) (some x) frames).map BootRun.boot=some t ∧
      runActions F appVersion (some x) frames=actions := by
  induction frames generalizing x actions with
  | nil =>
    have hnil := h.dataLoop_eq
    rw [List.flatMap_nil,dataLoop,Option.some.injEq,BootReport.mk.injEq] at hnil
    exact ⟨congrArg some hnil.1,hnil.2.1⟩
  | cons frame frames ih =>
    rw [List.flatMap_cons] at h
    obtain ⟨m,first,rest,hfirst,hrest,rfl⟩ := h.split hfault hroom
    have hhead : ∃ ret,fwUpdate F appVersion x.boot frame=some ⟨m,first,ret⟩ := by
      rw [fwUpdate_data F appVersion x.boot (hd frame List.mem_cons_self),handleData]
      split
      · rename_i hfull
        have hskip := (Feeds.done (F := F) x.boot frame.payload hfull).dataLoop_eq.symm.trans
          hfirst.dataLoop_eq
        rw [Option.some.injEq,BootReport.mk.injEq] at hskip
        rw [←hskip.1,←hskip.2.1]
        exact ⟨-1,rfl⟩
      · exact ⟨0,hfirst.dataLoop_eq⟩
    obtain ⟨ret,hupdate⟩ := hhead
    have hstep : bootStep F appVersion (some x) frame=
        some ⟨m,noteSession x.session frame first⟩ := by
      rw [bootStep,Option.bind_some,hupdate,Option.map_some]
    have hactions : bootActions F appVersion (some x) frame=first := by
      rw [bootActions,Option.bind_some,hupdate,Option.map_some,Option.getD_some]
    have hroom' : (BootRun.mk m (noteSession x.session frame first)).boot.buffer.length <
        flashBufferSize := hfirst.room hroom
    obtain ⟨hfinal,hrun⟩ := ih hroom' (fun f hf => hd f (List.mem_cons_of_mem frame hf)) hrest
    unfold runActions at hrun ⊢
    rw [outputs,List.flatten_cons,hactions,hstep,hrun]
    refine ⟨?_,rfl⟩
    rw [finalState,List.foldl_cons,hstep]
    exact hfinal

/-- Erasing writes nothing and reports nothing. -/
theorem erases_silent {ops : List BootAction} (h : ∀ a∈ops,∃ start n ok,a=.erase start n ok) :
    writtenAddrs ops=[] ∧ successes ops=[] := by
  induction ops with
  | nil => exact ⟨rfl,rfl⟩
  | cons op ops ih =>
    obtain ⟨start,n,ok,rfl⟩ := h op List.mem_cons_self
    exact ih fun a ha => h a (List.mem_cons_of_mem _ ha)

variable (appVersion) in
/-- On a device without faults a start command is accepted, and a run over data
frames after it is the loop over their bytes. -/
theorem start_run (hF : F.Lawful) (hfault : F.Faultless) (hlow : F.Boundary appStart)
    (hhigh : F.Boundary appEnd) (hpages : F.Covers appStart appEnd) (x : BootRun δ)
    {start : RxCanFrame} (hs : IsFullStart start) :
    ∃ d ops,(∀ a∈ops,∃ start n ok,a=.erase start n ok) ∧
      ((start.data32 1).toNat≤flashAppSize →
        F.Erased d appStart (appStart+(start.data32 1).toNat)) ∧
      bootActions F appVersion (some x) start=ops++[.response .offset 0] ∧
      ∀ frames : List RxCanFrame,(∀ frame∈frames,IsData frame) → ∀ t actions,
        Feeds F ⟨d,[],flashAppStartAddr,start.data32 1,0⟩ (frames.flatMap RxCanFrame.payload) t
          actions →
        (finalState (bootStep F appVersion) (some x) (start::frames)).map BootRun.boot=some t ∧
          runActions F appVersion (some x) (start::frames)=ops++[.response .offset 0]++actions := by
  have hregion : appStart+flashAppSize=appEnd := by decide
  have hbelow : appStart+min flashAppSize (start.data32 1).toNat ≤ appEnd := by omega
  have hempty : F.Erased x.boot.device appStart appStart :=
    fun a ha hb => absurd hb (Nat.not_lt.mpr ha)
  have hok : (startErase F x.boot start).1=true :=
    eraseLoop_faultless hF hfault hhigh hlow hbelow hpages
  have hupdate := fwUpdate_start F appVersion x.boot hs
  rw [handleStart_eq F x.boot hs.2.2,if_pos hok,if_pos hok] at hupdate
  have hactions : bootActions F appVersion (some x) start=
      (startErase F x.boot start).2.2++[.response .offset 0] := by
    rw [bootActions,Option.bind_some,hupdate,Option.map_some,Option.getD_some]
  set begun : BootRun δ :=
    ⟨⟨(startErase F x.boot start).2.1,[],flashAppStartAddr,start.data32 1,0⟩,
      noteSession x.session start ((startErase F x.boot start).2.2++[.response .offset 0])⟩
    with hbegun
  have hstep : bootStep F appVersion (some x) start=some begun := by
    rw [bootStep,Option.bind_some,hupdate,Option.map_some]
  refine ⟨(startErase F x.boot start).2.1,(startErase F x.boot start).2.2,eraseLoop_erases,
    fun hfits => ?_,hactions,fun frames hd t actions hfeeds => ?_⟩
  · have herased : F.Erased (startErase F x.boot start).2.1 appStart
        (appStart+min flashAppSize (start.data32 1).toNat) :=
      (eraseLoop_erased hF hlow (le_refl _) hempty hok).1
    rw [Nat.min_eq_right hfits] at herased
    exact herased
  · have hroom : begun.boot.buffer.length < flashBufferSize := nil_room
    obtain ⟨hfinal,hall⟩ := feeds_run appVersion hfault hroom hd hfeeds
    unfold runActions at hall ⊢
    rw [outputs,List.flatten_cons,hactions,hstep,hall]
    refine ⟨?_,rfl⟩
    rw [finalState,List.foldl_cons,hstep]
    exact hfinal

/-- The statics after an accepted start command are placed. -/
theorem placed_start (d : δ) (n : Word) : Placed (⟨d,[],flashAppStartAddr,n,0⟩ : BootState δ) :=
  ⟨Nat.zero_le _,Nat.zero_le _,rfl⟩

/-- An upload of at least the announced number of bytes leaves the image. -/
theorem imageWritten_feeds (hF : F.Lawful) {d : δ} {n : Word} (hfits : n.toNat≤flashAppSize)
    (hclear : F.Erased d appStart (appStart+n.toNat)) {stream : List Byte}
    (hlong : n.toNat ≤ stream.length)
    (h : Feeds F ⟨d,[],flashAppStartAddr,n,0⟩ stream t actions) :
    ImageWritten F appVersion t actions n stream := by
  have hup := h.uploading hF (uploading_start hfits hclear)
  rw [List.nil_append,List.length_nil,Nat.sub_zero] at hup
  have hlength : (stream.take n.toNat).length=n.toNat := List.length_take_of_le hlong
  obtain ⟨held,hsplit,hheld⟩ := hup.held
  have hbuffer := hup.whole hlength
  rw [hbuffer,List.append_nil] at hsplit
  have hfull : t.total ≤ t.received := hup.complete_iff.mpr hlength
  have hsize : flashAppSize=0x30000 := rfl
  have hlow : appStart=0x08010000 := rfl
  refine ⟨hsplit ▸ hheld,?_,?_,?_,fun frame hd => ?_⟩
  · obtain ⟨-,k,hk,hwritten⟩ := h.written (placed_start d n) (by dsimp only; omega)
    have haddr := hup.addr
    rw [hbuffer,List.length_nil,hlength] at haddr
    have hcount : t.flashAddr.toNat=appStart+k := hk
    have hn : k=n.toNat := by omega
    rw [hwritten,hn]
  · rw [h.successes_eq]
    refine if_congr ?_ rfl rfl
    have hzero : (0 : Word).toNat=0 := rfl
    rw [BitVec.le_def]
    simp only [hfull,and_true,hzero]
    omega
  · apply BitVec.eq_of_toNat_eq
    rw [hup.received,hlength]
  · rw [fwUpdate_data F appVersion t hd,handleData,if_pos hfull]

/-- Bytes beyond the announced number change nothing. -/
theorem feeds_beyond (hF : F.Lawful) (hfault : F.Faultless) {d : δ} {n : Word}
    (hfits : n.toNat≤flashAppSize) (hclear : F.Erased d appStart (appStart+n.toNat))
    {stream : List Byte} (hlong : n.toNat ≤ stream.length)
    (h : Feeds F ⟨d,[],flashAppStartAddr,n,0⟩ stream t actions) :
    Feeds F ⟨d,[],flashAppStartAddr,n,0⟩ (stream.take n.toNat) t actions := by
  rw [←List.take_append_drop n.toNat stream] at h
  obtain ⟨m,first,rest,hfirst,hrest,rfl⟩ := h.split hfault nil_room
  have hup := hfirst.uploading hF (uploading_start hfits hclear)
  rw [List.nil_append,List.length_nil,Nat.sub_zero,List.take_take,Nat.min_self] at hup
  have hfull : m.total ≤ m.received :=
    hup.complete_iff.mpr (List.length_take_of_le hlong)
  have hskip := (Feeds.done (F := F) m (stream.drop n.toNat) hfull).dataLoop_eq.symm.trans
    hrest.dataLoop_eq
  rw [Option.some.injEq,BootReport.mk.injEq] at hskip
  rw [←hskip.1,←hskip.2.1,List.append_nil]
  exact hfirst

variable (appVersion) in
/-- On a device without faults, an accepted upload of at least the announced
number of bytes leaves the image, however its bytes are split into data frames:
another split of the same image, with other bytes behind it, leaves the same
statics and the same flash and makes the bootloader do the same. -/
theorem imageWritten_runs (hF : F.Lawful) (hfault : F.Faultless) (hlow : F.Boundary appStart)
    (hhigh : F.Boundary appEnd) (hpages : F.Covers appStart appEnd) (x : BootRun δ)
    {start : RxCanFrame} (hs : IsFullStart start) (hfits : (start.data32 1).toNat≤flashAppSize)
    {frames : List RxCanFrame} (hd : ∀ frame∈frames,IsData frame)
    (hlong : (start.data32 1).toNat ≤ (frames.flatMap RxCanFrame.payload).length) :
    .response .offset 0∈bootActions F appVersion (some x) start ∧
    ∃ final,(finalState (bootStep F appVersion) (some x) (start::frames)).map BootRun.boot=
        some final ∧
      ImageWritten F appVersion final (runActions F appVersion (some x) (start::frames))
        (start.data32 1) (frames.flatMap RxCanFrame.payload) ∧
      ∀ others : List RxCanFrame,(∀ frame∈others,IsData frame) →
        (others.flatMap RxCanFrame.payload).take (start.data32 1).toNat=
          (frames.flatMap RxCanFrame.payload).take (start.data32 1).toNat →
        (finalState (bootStep F appVersion) (some x) (start::others)).map BootRun.boot=
            some final ∧
          runActions F appVersion (some x) (start::others)=
            runActions F appVersion (some x) (start::frames) := by
  obtain ⟨d,ops,herases,hclear,hactions,hrun⟩ :=
    start_run appVersion hF hfault hlow hhigh hpages x hs
  obtain ⟨hwritten,hsuccess⟩ := erases_silent herases
  have hexists : ∀ stream,∃ t actions,
      Feeds F ⟨d,[],flashAppStartAddr,start.data32 1,0⟩ stream t actions :=
    fun stream => feeds_faultless hfault nil_room stream
  obtain ⟨t,actions,hfeeds⟩ := hexists (frames.flatMap RxCanFrame.payload)
  obtain ⟨hfinal,hall⟩ := hrun frames hd t actions hfeeds
  have himage : ImageWritten F appVersion t actions _ _ :=
    imageWritten_feeds hF hfits (hclear hfits) hlong hfeeds
  refine ⟨?_,t,hfinal,⟨himage.holds,?_,?_,himage.counted,himage.extra⟩,fun others hothers htake => ?_⟩
  · rw [hactions]
    simp
  · rw [hall,writtenAddrs_append,writtenAddrs_append,hwritten]
    exact himage.once
  · rw [hall,successes_append,successes_append,hsuccess]
    exact himage.success
  · obtain ⟨t',actions',hfeeds'⟩ := hexists (others.flatMap RxCanFrame.payload)
    obtain ⟨hfinal',hall'⟩ := hrun others hothers t' actions' hfeeds'
    have hlong' : (start.data32 1).toNat ≤ (others.flatMap RxCanFrame.payload).length := by
      have hlength := congrArg List.length htake
      rw [List.length_take,List.length_take] at hlength
      omega
    have hsame := (feeds_beyond hF hfault hfits (hclear hfits) hlong hfeeds).dataLoop_eq
    have hsame' := (feeds_beyond hF hfault hfits (hclear hfits) hlong' hfeeds').dataLoop_eq
    rw [htake,hsame,Option.some.injEq,BootReport.mk.injEq] at hsame'
    rw [hfinal',hall',hall,← hsame'.1,← hsame'.2.1]
    exact ⟨rfl,rfl⟩

/-- Ten bytes announced, and three frames with more. -/
theorem imageWritten_runs_ten :
    .response .offset 0∈bootActions (ramPages 2048) 0 (some (.booted fun _ => 0))
      (commandFrame boardStartUpdate 10) ∧
    ∃ final,(finalState (bootStep (ramPages 2048) 0) (some (.booted fun _ => 0))
        [commandFrame boardStartUpdate 10,dataFrame 1,dataFrame 2,dataFrame 3]).map
          BootRun.boot=some final ∧
      ImageWritten (ramPages 2048) 0 final
        (runActions (ramPages 2048) 0 (some (.booted fun _ => 0))
          [commandFrame boardStartUpdate 10,dataFrame 1,dataFrame 2,dataFrame 3])
        10 ([dataFrame 1,dataFrame 2,dataFrame 3].flatMap RxCanFrame.payload) := by
  have hn : (commandFrame boardStartUpdate 10).data32 1=10 := by decide
  have himage := imageWritten_runs 0 (ramPages_lawful 2048)
    (ramPages_faultless 2048) (ramPages_boundary (by decide)) (ramPages_boundary (by decide))
    (ramPages_covers (by decide) _ _) (.booted fun _ => 0)
    (by decide : IsFullStart (commandFrame boardStartUpdate 10)) (by decide)
    (by decide : ∀ frame∈[dataFrame 1,dataFrame 2,dataFrame 3],IsData frame) (by decide)
  rw [hn] at himage
  obtain ⟨haccepted,final,hfinal,hwritten,-⟩ := himage
  exact ⟨haccepted,final,hfinal,hwritten⟩

end Runs

end ZephyrApp.Bootloader

import ZephyrApp.Nrf24Threads

/-!
# Reception by the interrupt thread

Frames arrive while the interrupt thread reads the chip. Each round of its loop
takes one payload, flushes the FIFO and clears the flag, so that a frame is
delivered exactly when it has found the FIFO empty and the thread not between
the reading of a payload and the clearing of the flag.
-/

namespace ZephyrApp.Nrf24Receive

open MachineBytes EventRuns Nrf24Chip Nrf24Modes Nrf24Threads

/-- What happens in reception. -/
inductive RxEvent where
  /-- A frame arrives. -/
  | arrival (bytes : List Byte)
  /-- The interrupt thread takes a step, waking up if it has to. -/
  | irqStep

/-- One event of reception. -/
def rxNext (cfg : Nrf24Config) (s : Driver) : RxEvent → Driver
  | .arrival bytes => driverNext cfg s (.arrival bytes)
  | .irqStep => driverNext cfg s .irqStep

/-- If no further frame arrives, the interrupt thread ends up having delivered
all that has entered the FIFO, each payload once and in order. -/
def DeliversAll (cfg : Nrf24Config) (s : Driver) : Prop :=
  ∃ m,∀ k,m ≤ k → ((irqStep cfg)^[k] s).delivered=s.entered

/-- The interrupt thread has read a payload and not yet cleared the flag. -/
def Clearing : IrqPc → Prop
  | .rxFlush _ => True
  | .rxClear _ => True
  | _ => False

/-- A frame that the chip takes finds the FIFO empty and the interrupt thread
not between the reading of a payload and the clearing of the flag. -/
def Uncrowded (cfg : Nrf24Config) (s : Driver) : RxEvent → Prop
  | .arrival bytes => FrameTaken cfg bytes → s.radio.chip.rxFifo=[] ∧ ¬Clearing s.irq
  | .irqStep => True

/-- The payload that the interrupt thread has read and not yet delivered. -/
def inHand : IrqPc → List (List Byte)
  | .rxFlush buf => [buf]
  | .rxClear buf => [buf]
  | .rxUnlock buf => [buf]
  | .deliver buf => [buf]
  | _ => []

section Doomed

/-- Whether the interrupt thread may still read a payload without a further
arrival. -/
def mayRead (s : Driver) : Bool :=
  match s.irq with
  | .rxFlush _ => false
  | .rxClear _ => false
  | .rxWidth => true
  | .rxPayload _ => true
  | .txCheck status _ => s.radio.chip.rxDr || decide (status &&& bit rxDrBit≠0)
  | .txObserve status _ => s.radio.chip.rxDr || decide (status &&& bit rxDrBit≠0)
  | .txClear status _ => s.radio.chip.rxDr || decide (status &&& bit rxDrBit≠0)
  | .txGive status _ => s.radio.chip.rxDr || decide (status &&& bit rxDrBit≠0)
  | .rxLoop status => s.radio.chip.rxDr || decide (status &&& bit rxDrBit≠0)
  | _ => s.radio.chip.rxDr

/-- More payloads have entered than can still be delivered without a further
arrival. -/
structure Doomed (s : Driver) : Prop where
  /-- The chip is supplied. -/
  supplied : s.radio.supplied=true
  /-- Some payload has no way to its delivery. -/
  fewer : s.delivered.length+(inHand s.irq).length+(mayRead s).toNat<s.entered.length

variable {s : Driver}

/-- The interrupt thread's test of `RX_DR` sees the flag. -/
theorem status_rxDr (c : Chip) : c.status &&& bit rxDrBit≠0 ↔ c.rxDr=true := by
  unfold Chip.status
  cases c.rxDr <;> cases c.txDs <;> cases c.maxRt <;> by_cases hrx : c.rxFifo=[] <;>
    by_cases htx : fifoDepth≤c.txFifo.length <;>
    simp only [hrx,htx,if_true,if_false,Bool.false_eq_true] <;> decide

/-- The interrupt thread's test of `RX_DR`, as a value. -/
theorem decide_status_rxDr (c : Chip) : decide (c.status &&& bit rxDrBit≠0)=c.rxDr := by
  have hflag := status_rxDr c
  cases h : c.rxDr with
  | true => exact decide_eq_true (hflag.mpr h)
  | false =>
    rw [h] at hflag
    exact decide_eq_false fun hset => Bool.false_ne_true (hflag.mp hset)

/-- Clearing the flags of a transmission leaves `RX_DR`. -/
theorem access_txFlags_rxDr (r : Radio) :
    (r.access (.writeReg regStatus txFlags)).chip.rxDr=r.chip.rxDr := by
  simp only [Radio.access,Chip.access,Chip.writeReg,if_true]
  split
  · have hbit : txFlags.getLsbD rxDrBit=false := by decide
    rw [hbit]
    exact Bool.and_true _
  · rfl

/-- Clearing `RX_DR` clears it on a chip that is supplied. -/
theorem access_rxDr {r : Radio} (hr : r.supplied=true) :
    (r.access (.writeReg regStatus (bit rxDrBit))).chip.rxDr=false := by
  simp only [Radio.access,hr,if_true,Chip.access,Chip.writeReg]
  exact Bool.and_false _

/-- A step of the interrupt thread lets nothing enter. -/
theorem irqStep_entered (cfg : Nrf24Config) (s : Driver) :
    (irqStep cfg s).entered=s.entered := by
  unfold irqStep
  cases s.irq with
  | txGive status last =>
    dsimp only [giveTxDone]
    split <;> rfl
  | _ => (dsimp only; repeat split) <;> rfl

/-- A step of the interrupt thread leaves the supply. -/
theorem irqStep_supplied (cfg : Nrf24Config) (s : Driver) :
    (irqStep cfg s).radio.supplied=s.radio.supplied := by
  have haccess : ∀ op,(s.access op).radio.supplied=s.radio.supplied :=
    fun op => (access_lines s.radio op).2.2.2
  unfold irqStep
  cases s.irq with
  | txGive status last =>
    dsimp only [giveTxDone]
    split <;> rfl
  | txClear status last => exact haccess _
  | rxFlush buf => exact haccess _
  | rxClear buf => exact haccess _
  | rxWidth =>
    dsimp only
    split
    · split
      · exact haccess _
      · rfl
    · rfl
  | _ => (dsimp only; repeat split) <;> rfl

/-- What can still be delivered without a further arrival. -/
def prospects (s : Driver) : ℕ :=
  s.delivered.length+(inHand s.irq).length+(mayRead s).toNat

/-- After a check the interrupt thread may read no more than before. -/
theorem mayRead_afterTxCheck {t : Driver} {status : Byte} {last : Bool}
    (hpc : t.irq=afterTxCheck status last) (hflag : t.radio.chip.rxDr=s.radio.chip.rxDr) :
    inHand t.irq=[] ∧ (mayRead t).toNat≤
      (s.radio.chip.rxDr || decide (status &&& bit rxDrBit≠0)).toNat := by
  unfold mayRead
  rw [hpc,←hflag]
  cases last with
  | true =>
    refine ⟨rfl,?_⟩
    simp only [afterTxCheck,if_true]
    cases t.radio.chip.rxDr <;> simp
  | false => exact ⟨rfl,le_refl _⟩

/-- A step of the interrupt thread adds nothing to what can be delivered. -/
theorem irqStep_prospects (cfg : Nrf24Config) (hs : s.radio.supplied=true) :
    prospects (irqStep cfg s)≤prospects s := by
  unfold prospects irqStep
  cases hpc : s.irq with
  | idle =>
    dsimp only
    split <;> simp [inHand,mayRead,hpc]
  | lock =>
    dsimp only
    split <;> simp [inHand,mayRead,hpc]
  | readStatus => simp only [inHand,mayRead,hpc,decide_status_rxDr,Bool.or_self,le_refl]
  | txCheck status last =>
    dsimp only
    split
    · simp [inHand,mayRead,hpc]
    · obtain ⟨hnone,hmay⟩ := mayRead_afterTxCheck (s := s)
        (t := {s with irq := afterTxCheck status last}) rfl rfl
      rw [hnone]
      simpa [inHand,mayRead,hpc] using hmay
  | txObserve status last => simp [inHand,mayRead,hpc]
  | txClear status last =>
    have hflag : (s.access (.writeReg regStatus txFlags)).radio.chip.rxDr=s.radio.chip.rxDr :=
      access_txFlags_rxDr s.radio
    simp only [inHand,mayRead,hpc,hflag]
    exact le_refl _
  | txGive status last =>
    have hradio : (giveTxDone s).radio=s.radio ∧ (giveTxDone s).delivered=s.delivered := by
      unfold giveTxDone
      split <;> exact ⟨rfl,rfl⟩
    obtain ⟨hnone,hmay⟩ := mayRead_afterTxCheck (s := s)
      (t := {giveTxDone s with irq := afterTxCheck status last}) rfl (by rw [hradio.1])
    dsimp only at hnone hmay ⊢
    rw [hnone,hradio.2]
    simpa [inHand,mayRead,hpc] using hmay
  | rxLoop status =>
    dsimp only
    split
    · rename_i hflag
      have hset : decide (status &&& bit rxDrBit≠0)=true := decide_eq_true hflag
      simp only [inHand,mayRead,hpc,hset,Bool.or_true,le_refl]
    · simp [inHand,mayRead,hpc]
  | rxWidth =>
    dsimp only
    split
    · split <;> simp [inHand,mayRead,hpc,Driver.access]
    · simp [inHand,mayRead,hpc]
  | rxPayload wid => simp [inHand,mayRead,hpc]
  | rxFlush buf => simp [inHand,mayRead,hpc,Driver.access]
  | rxClear buf =>
    have hflag : (s.access (.writeReg regStatus (bit rxDrBit))).radio.chip.rxDr=false :=
      access_rxDr hs
    have hdelivered : (s.access (.writeReg regStatus (bit rxDrBit))).delivered=s.delivered := rfl
    dsimp only
    split <;> simp [inHand,mayRead,hpc,hflag,hdelivered]
  | rxUnlock buf => simp [inHand,mayRead,hpc]
  | deliver buf => simp [inHand,mayRead,hpc]
  | relock =>
    dsimp only
    split <;> simp [inHand,mayRead,hpc]
  | reread => simp only [inHand,mayRead,hpc,decide_status_rxDr,Bool.or_self,le_refl]
  | unlock => simp [inHand,mayRead,hpc]

/-- The interrupt thread alone does not undo the loss of a payload. -/
theorem Doomed.step {s : Driver} (cfg : Nrf24Config) (h : Doomed s) :
    Doomed (irqStep cfg s) := by
  have hless := irqStep_prospects cfg h.supplied
  refine ⟨(irqStep_supplied cfg s).trans h.supplied,?_⟩
  rw [irqStep_entered]
  exact Nat.lt_of_le_of_lt hless h.fewer

/-- Where a payload is lost, not all is delivered. -/
theorem Doomed.not_deliversAll {s : Driver} {cfg : Nrf24Config} (h : Doomed s) :
    ¬DeliversAll cfg s := by
  rintro ⟨m,hall⟩
  have hrun : ∀ k,Doomed ((irqStep cfg)^[k] s) ∧
      ((irqStep cfg)^[k] s).entered=s.entered := by
    intro k
    induction k with
    | zero => exact ⟨h,rfl⟩
    | succ k ih =>
      rw [Function.iterate_succ_apply']
      exact ⟨ih.1.step cfg,(irqStep_entered cfg _).trans ih.2⟩
  obtain ⟨hdoomed,hentered⟩ := hrun m
  have hfewer := hdoomed.fewer
  rw [hall m (le_refl m),hentered] at hfewer
  omega

end Doomed

section Lossless

/-- What holds of reception at each place of the interrupt thread. -/
def PcInv (s : Driver) : IrqPc → Prop
  | .txCheck status _ => status &&& txFlags=0 ∧
      (status &&& bit rxDrBit≠0 → s.radio.chip.rxFifo≠[])
  | .rxLoop status => status &&& txFlags=0 ∧ (status &&& bit rxDrBit≠0 → s.radio.chip.rxFifo≠[])
  | .txObserve _ _ => False
  | .txClear _ _ => False
  | .txGive _ _ => False
  | .rxWidth => s.radio.chip.rxFifo≠[]
  | .rxPayload wid => ∃ bytes∈s.radio.chip.rxFifo,wid=bytes.length
  | .rxFlush buf => buf≠[]
  | .rxClear buf => buf≠[]
  | _ => True

/-- Nothing is lost, and what is queued is announced. -/
structure Lossless (cfg : Nrf24Config) (s : Driver) : Prop where
  /-- The chip is supplied. -/
  supplied : s.radio.supplied=true
  /-- The device is ready. -/
  ready : s.radio.ready=true
  /-- Nothing is transmitted. -/
  quiet : s.radio.chip.txDs=false ∧ s.radio.chip.maxRt=false
  /-- The interrupt thread has the lock where it should. -/
  held : IrqLocked s.irq → s.lock=some .irq
  /-- Elsewhere the lock is free. -/
  free : ¬IrqLocked s.irq → s.lock=none
  /-- What has entered is delivered, in hand or queued, in order. -/
  entered : s.entered=s.delivered++inHand s.irq++s.radio.chip.rxFifo
  /-- At most one payload is queued. -/
  single : s.radio.chip.rxFifo.length≤1
  /-- A queued payload is one that the chip takes. -/
  taken : ∀ bytes∈s.radio.chip.rxFifo,FrameTaken cfg bytes
  /-- The flag is set for a queued payload, and otherwise only while it is being
  cleared. -/
  flag : ¬Clearing s.irq → (s.radio.chip.rxDr=true ↔ s.radio.chip.rxFifo≠[])
  /-- Nothing is queued while the flag is being cleared. -/
  clearing : Clearing s.irq → s.radio.chip.rxFifo=[]
  /-- The interrupt thread's place. -/
  pc : PcInv s s.irq

variable {cfg : Nrf24Config} {s : Driver}

/-- The status shows no flag of a transmission that the chip has not raised. -/
theorem status_txFlags {c : Chip} (h : c.txDs=false ∧ c.maxRt=false) :
    c.status &&& txFlags=0 := by
  unfold Chip.status
  rw [h.1,h.2]
  cases c.rxDr <;> by_cases hrx : c.rxFifo=[] <;> by_cases htx : fifoDepth≤c.txFifo.length <;>
    simp only [hrx,htx,if_true,if_false,Bool.false_eq_true] <;> decide

/-- A frame that arrives at the right time keeps reception lossless. -/
theorem Lossless.arrival (h : Lossless cfg s) {bytes : List Byte}
    (hok : Uncrowded cfg s (.arrival bytes)) : Lossless cfg (frameArrives cfg s bytes) := by
  unfold frameArrives
  split
  · rename_i htaken
    obtain ⟨hempty,hnot⟩ := hok htaken.1
    have hentered := h.entered
    rw [hempty,List.append_nil] at hentered
    have hne : ([bytes] : List (List Byte))≠[] := List.cons_ne_nil _ _
    refine ⟨h.supplied,h.ready,h.quiet,h.held,h.free,?_,?_,?_,fun _ => ?_,fun hc => absurd hc hnot,
      ?_⟩
    · dsimp only
      rw [hempty,hentered,List.nil_append]
    · dsimp only
      rw [hempty]
      exact le_refl 1
    · dsimp only
      rw [hempty,List.nil_append]
      intro b hb
      rw [List.mem_singleton.mp hb]
      exact htaken.1
    · dsimp only
      rw [hempty]
      exact iff_of_true rfl hne
    · have hpc := h.pc
      revert hpc
      dsimp only
      cases s.irq with
      | txCheck status last =>
        exact fun hpc => ⟨hpc.1,fun _ => List.append_ne_nil_of_right_ne_nil _ hne⟩
      | rxLoop status =>
        exact fun hpc => ⟨hpc.1,fun _ => List.append_ne_nil_of_right_ne_nil _ hne⟩
      | rxWidth => exact fun hpc => absurd hempty hpc
      | rxPayload wid =>
        rintro ⟨b,hb,-⟩
        rw [hempty] at hb
        exact absurd hb List.not_mem_nil
      | _ => exact fun hpc => hpc
  · exact h

/-- A move of the interrupt thread between places with the same payload in hand
keeps reception lossless. -/
theorem Lossless.move (h : Lossless cfg s) {from_ pc : IrqPc} {l : Option Thread}
    (hfrom : s.irq=from_) (hheld : IrqLocked pc → l=some .irq) (hfree : ¬IrqLocked pc → l=none)
    (hhand : inHand pc=inHand from_) (hold : ¬Clearing from_) (hnew : ¬Clearing pc)
    (hpc : PcInv s pc) : Lossless cfg {s with lock := l,irq := pc} := by
  rw [←hfrom] at hhand hold
  refine ⟨h.supplied,h.ready,h.quiet,hheld,hfree,?_,h.single,h.taken,fun _ => h.flag hold,
    fun hc => absurd hc hnew,hpc⟩
  dsimp only
  rw [hhand]
  exact h.entered

/-- A move that keeps the lock. -/
theorem Lossless.inside (h : Lossless cfg s) {from_ pc : IrqPc} (hfrom : s.irq=from_)
    (hlocked : IrqLocked from_) (hstill : IrqLocked pc) (hhand : inHand pc=inHand from_)
    (hold : ¬Clearing from_) (hnew : ¬Clearing pc) (hpc : PcInv s pc) :
    Lossless cfg {s with irq := pc} :=
  h.move hfrom (fun _ => h.held (by rw [hfrom]; exact hlocked)) (fun hl => absurd hstill hl) hhand
    hold hnew hpc

/-- A move that takes the lock. -/
theorem Lossless.acquire (h : Lossless cfg s) {from_ pc : IrqPc} (hfrom : s.irq=from_)
    (hlocked : IrqLocked pc) (hhand : inHand pc=inHand from_) (hold : ¬Clearing from_)
    (hnew : ¬Clearing pc) (hpc : PcInv s pc) :
    Lossless cfg {s with lock := some .irq,irq := pc} :=
  h.move hfrom (fun _ => rfl) (fun hl => absurd hlocked hl) hhand hold hnew hpc

/-- A move that gives the lock back. -/
theorem Lossless.release (h : Lossless cfg s) {from_ pc : IrqPc} (hfrom : s.irq=from_)
    (hfree : ¬IrqLocked pc) (hhand : inHand pc=inHand from_) (hold : ¬Clearing from_)
    (hnew : ¬Clearing pc) (hpc : PcInv s pc) : Lossless cfg {s with lock := none,irq := pc} :=
  h.move hfrom (fun hl => absurd hl hfree) (fun _ => rfl) hhand hold hnew hpc

/-- The lock is free at a place outside it. -/
theorem Lossless.unlocked (h : Lossless cfg s) {pc : IrqPc} (hpc : s.irq=pc)
    (hfree : ¬IrqLocked pc) : s.lock=none :=
  h.free (by rw [hpc]; exact hfree)

/-- A status that has just been read tells of a queued payload. -/
theorem Lossless.status (h : Lossless cfg s) (hnot : ¬Clearing s.irq) :
    s.radio.chip.status &&& txFlags=0 ∧
      (s.radio.chip.status &&& bit rxDrBit≠0 ↔ s.radio.chip.rxFifo≠[]) :=
  ⟨status_txFlags h.quiet,(status_rxDr s.radio.chip).trans (h.flag hnot)⟩

/-- The width that is read for a queued payload is the payload's. -/
theorem width_of_taken {bytes : List Byte} (h : FrameTaken cfg bytes) :
    bytes.length≤nrf24MaxPayload ∧
      (parsePayloadMode cfg.payloadMode≠.dynamic → fixedWidth cfg=bytes.length) := by
  refine ⟨h.2.1,fun hmode => ?_⟩
  have hfixed : parsePayloadMode cfg.payloadMode=.fixed := by
    cases hp : parsePayloadMode cfg.payloadMode with
    | fixed => rfl
    | dynamic => exact absurd hp hmode
  have hlen := h.2.2 hfixed
  rw [fixedWidth,←hlen]
  exact Nat.min_eq_left h.2.1

/-- The chip gives out the first payload of its FIFO for its own width. -/
theorem payloadRead_self (bytes : List Byte) (rest : List (List Byte)) :
    payloadRead (bytes::rest) bytes.length=bytes := by
  rw [payloadRead,List.headD_cons]
  exact List.take_left

/-- A queued payload is the only one. -/
theorem Lossless.single_eq (h : Lossless cfg s) {bytes : List Byte}
    (hmem : bytes∈s.radio.chip.rxFifo) : s.radio.chip.rxFifo=[bytes] := by
  have hone : s.radio.chip.rxFifo.length=1 :=
    Nat.le_antisymm h.single (List.length_pos_of_mem hmem)
  obtain ⟨b,hb⟩ := List.length_eq_one_iff.mp hone
  rw [hb] at hmem ⊢
  rw [List.mem_singleton.mp hmem]

/-- Reading the payload keeps reception lossless. -/
theorem Lossless.read (h : Lossless cfg s) {wid : ℕ} (hpc : s.irq=.rxPayload wid) :
    Lossless cfg {s with
      radio := {s.radio with chip := {s.radio.chip with rxFifo := s.radio.chip.rxFifo.tail}}
      irq := .rxFlush (payloadRead s.radio.chip.rxFifo wid)} := by
  have hinv := h.pc
  rw [hpc] at hinv
  obtain ⟨bytes,hmem,hwid⟩ := hinv
  have hfifo := h.single_eq hmem
  have hread : payloadRead s.radio.chip.rxFifo wid=bytes := by
    rw [hfifo,hwid]
    exact payloadRead_self bytes []
  have hheld := h.held
  have hentered := h.entered
  rw [hpc] at hheld hentered
  have hne : bytes≠[] := List.length_pos_iff.mp (h.taken bytes hmem).1
  refine ⟨h.supplied,h.ready,h.quiet,fun _ => hheld trivial,fun hl => absurd trivial hl,?_,?_,?_,
    fun hc => absurd trivial hc,fun _ => ?_,?_⟩
  · dsimp only
    rw [hread,hentered,hfifo]
    simp only [inHand,List.append_nil,List.tail_cons]
  · dsimp only
    rw [hfifo]
    exact Nat.zero_le 1
  · dsimp only
    rw [hfifo]
    exact fun b hb => absurd hb List.not_mem_nil
  · dsimp only
    rw [hfifo]
    rfl
  · dsimp only
    rw [hread]
    exact hne

/-- An access with nothing queued keeps reception lossless, given the thread's
next place. -/
theorem Lossless.accessed (h : Lossless cfg s) {op : DriverOp} {chip : Chip} {from_ pc : IrqPc}
    (hfrom : s.irq=from_) (hlocked : IrqLocked from_) (hstill : IrqLocked pc)
    (hchip : (s.access op).radio={s.radio with chip := chip})
    (hquiet : chip.txDs=false ∧ chip.maxRt=false) (hold : s.radio.chip.rxFifo=[])
    (hnil : chip.rxFifo=[]) (hhand : inHand pc=inHand from_)
    (hflag : ¬Clearing pc → chip.rxDr=false) (hpc : PcInv {s.access op with irq := pc} pc) :
    Lossless cfg {s.access op with irq := pc} := by
  have hheld : s.lock=some .irq := h.held (by rw [hfrom]; exact hlocked)
  have hentered := h.entered
  rw [hfrom,hold,List.append_nil] at hentered
  refine ⟨?_,?_,?_,fun _ => hheld,fun hl => absurd hstill hl,?_,?_,?_,fun hc => ?_,fun _ => ?_,hpc⟩
  · exact (congrArg Radio.supplied hchip).trans h.supplied
  · exact (congrArg Radio.ready hchip).trans h.ready
  · dsimp only
    rw [hchip]
    exact hquiet
  · dsimp only
    rw [hchip,hnil,hhand,List.append_nil]
    exact hentered
  · dsimp only
    rw [hchip,hnil]
    exact Nat.zero_le 1
  · dsimp only
    rw [hchip,hnil]
    exact fun b hb => absurd hb List.not_mem_nil
  · dsimp only
    rw [hchip,hflag hc]
    exact iff_of_false Bool.false_ne_true (not_not_intro hnil)
  · dsimp only
    rw [hchip]
    exact hnil

/-- The flush keeps reception lossless, for nothing is queued then. -/
theorem Lossless.flush (h : Lossless cfg s) {buf : List Byte} (hpc : s.irq=.rxFlush buf) :
    Lossless cfg {s.access .flushRx with irq := .rxClear buf} := by
  have hinv := h.pc
  have hempty := h.clearing
  rw [hpc] at hinv hempty
  have hchip : (s.access .flushRx).radio={s.radio with
      chip := {s.radio.chip with rxFifo := []}} := by
    simp only [Driver.access,Radio.access,h.supplied,if_true,Chip.access]
  exact h.accessed hpc trivial trivial hchip h.quiet (hempty trivial) rfl rfl
    (fun hc => absurd trivial hc) hinv

/-- Clearing the flag keeps reception lossless. -/
theorem Lossless.clear (h : Lossless cfg s) {buf : List Byte} (hpc : s.irq=.rxClear buf) :
    Lossless cfg {s.access (.writeReg regStatus (bit rxDrBit)) with irq := .rxUnlock buf} := by
  have hempty := h.clearing
  rw [hpc] at hempty
  have hchip : (s.access (.writeReg regStatus (bit rxDrBit))).radio={s.radio with
      chip := {s.radio.chip with rxDr := false}} := by
    simp only [Driver.access,Radio.access,h.supplied,if_true,Chip.access,Chip.writeReg,h.quiet.1,
      h.quiet.2,Bool.false_and]
    have hbit : (bit rxDrBit).getLsbD rxDrBit=true := by decide
    simp only [hbit,Bool.not_true,Bool.and_false]
  exact h.accessed hpc trivial trivial hchip h.quiet (hempty trivial) (hempty trivial) rfl
    (fun _ => rfl) trivial

/-- Finding the width of a queued payload keeps reception lossless. -/
theorem Lossless.width (h : Lossless cfg s) (hpc : s.irq=.rxWidth) :
    Lossless cfg (irqStep cfg s) := by
  have hinv := h.pc
  rw [hpc] at hinv
  obtain ⟨bytes,hmem⟩ := List.exists_mem_of_ne_nil _ hinv
  have hfifo := h.single_eq hmem
  obtain ⟨hmax,hfixed⟩ := width_of_taken (h.taken bytes hmem)
  have hmove : ∀ wid,wid=bytes.length → Lossless cfg {s with irq := .rxPayload wid} :=
    fun wid hwid => h.inside hpc trivial trivial rfl id id ⟨bytes,hmem,hwid⟩
  unfold irqStep
  rw [hpc]
  dsimp only
  split
  · have hhead : s.radio.chip.rxFifo.headD []=bytes := by
      rw [hfifo]
      rfl
    rw [hhead,if_neg (Nat.not_lt.mpr hmax)]
    exact hmove _ rfl
  · rename_i hmode
    exact hmove _ (hfixed hmode)

/-- Handing a payload on keeps reception lossless. -/
theorem Lossless.deliver (h : Lossless cfg s) {buf : List Byte} (hpc : s.irq=.deliver buf) :
    Lossless cfg {s with delivered := s.delivered++[buf],irq := .relock} := by
  have hentered := h.entered
  have hflag := h.flag
  rw [hpc] at hentered hflag
  refine ⟨h.supplied,h.ready,h.quiet,fun hl => hl.elim,fun _ => h.unlocked hpc id,?_,h.single,
    h.taken,fun _ => hflag id,fun hc => hc.elim,trivial⟩
  dsimp only
  rw [hentered]
  simp only [inHand,List.append_nil]

/-- Every step of the interrupt thread keeps reception lossless. -/
theorem Lossless.step (h : Lossless cfg s) : Lossless cfg (irqStep cfg s) := by
  have hinv := h.pc
  have hstatus := h.status
  by_cases hwidth : s.irq=.rxWidth
  · exact h.width hwidth
  unfold irqStep
  cases hpc : s.irq with
  | idle =>
    dsimp only
    rw [if_pos h.ready]
    exact h.move hpc (fun hl => hl.elim) (fun _ => h.unlocked hpc id) rfl id id trivial
  | lock =>
    dsimp only
    rw [if_pos (h.unlocked hpc id)]
    exact h.acquire hpc trivial rfl id id trivial
  | readStatus =>
    rw [hpc] at hstatus
    have hread := hstatus id
    exact h.inside hpc trivial trivial rfl id id ⟨hread.1,hread.2.mp⟩
  | txCheck status last =>
    rw [hpc] at hinv
    dsimp only
    rw [if_neg (not_not_intro hinv.1)]
    cases last with
    | true => exact h.inside hpc trivial trivial rfl id id trivial
    | false => exact h.inside hpc trivial trivial rfl id id hinv
  | txObserve status last | txClear status last | txGive status last =>
    rw [hpc] at hinv
    exact hinv.elim
  | rxLoop status =>
    rw [hpc] at hinv
    dsimp only
    split
    · rename_i hflag
      exact h.inside hpc trivial trivial rfl id id (hinv.2 hflag)
    · exact h.inside hpc trivial trivial rfl id id hinv
  | rxWidth => exact absurd hpc hwidth
  | rxPayload wid => exact h.read hpc
  | rxFlush buf => exact h.flush hpc
  | rxClear buf =>
    rw [hpc] at hinv
    dsimp only
    rw [if_neg hinv]
    exact h.clear hpc
  | rxUnlock buf => exact h.release hpc id rfl id id trivial
  | deliver buf => exact h.deliver hpc
  | relock =>
    dsimp only
    rw [if_pos (h.unlocked hpc id)]
    exact h.acquire hpc trivial rfl id id trivial
  | reread =>
    rw [hpc] at hstatus
    have hread := hstatus id
    exact h.inside hpc trivial trivial rfl id id ⟨hread.1,hread.2.mp⟩
  | unlock => exact h.release hpc id rfl id id trivial

end Lossless

section Delivery

variable {cfg : Nrf24Config} {s : Driver}

/-- How many steps the interrupt thread is at most away from a delivery, when a
payload is queued or in hand. -/
def rank : IrqPc → ℕ
  | .deliver _ => 1
  | .rxUnlock _ => 2
  | .rxClear _ => 3
  | .rxFlush _ => 4
  | .rxPayload _ => 5
  | .rxWidth => 6
  | .rxLoop status => if status &&& bit rxDrBit≠0 then 7 else 14
  | .txCheck status last => if last then 13 else if status &&& bit rxDrBit≠0 then 8 else 15
  | .reread => 8
  | .readStatus => 9
  | .relock => 9
  | .lock => 10
  | .idle => 11
  | .unlock => 12
  | _ => 0

/-- The work left to the interrupt thread. -/
def work (s : Driver) : ℕ := 16*(s.entered.length-s.delivered.length)+rank s.irq

/-- While something is to be delivered, a step away from a delivery comes nearer
to it. -/
theorem rank_step (h : Lossless cfg s) (hpending : s.delivered≠s.entered)
    (hnot : ∀ buf,s.irq≠.deliver buf) :
    rank (irqStep cfg s).irq<rank s.irq ∧ (irqStep cfg s).delivered=s.delivered := by
  have hinv := h.pc
  have hstatus := h.status
  have hqueued : inHand s.irq=[] → s.radio.chip.rxFifo≠[] := by
    intro hhand hempty
    have hentered := h.entered
    rw [hhand,hempty,List.append_nil,List.append_nil] at hentered
    exact hpending hentered.symm
  unfold irqStep
  cases hpc : s.irq with
  | idle =>
    dsimp only
    rw [if_pos h.ready]
    exact ⟨Nat.lt_succ_self _,rfl⟩
  | lock =>
    dsimp only
    rw [if_pos (h.unlocked hpc id)]
    exact ⟨Nat.lt_succ_self _,rfl⟩
  | readStatus =>
    rw [hpc] at hstatus hqueued
    have hset := (hstatus id).2.mpr (hqueued rfl)
    simp only [rank,hset,Bool.false_eq_true,if_false,ne_eq,not_false_eq_true,if_true]
    decide
  | txCheck status last =>
    rw [hpc] at hinv
    dsimp only
    rw [if_neg (not_not_intro hinv.1)]
    cases last with
    | true => exact ⟨Nat.lt_succ_self _,rfl⟩
    | false =>
      simp only [rank,afterTxCheck,Bool.false_eq_true,if_false]
      split <;> decide
  | txObserve status last | txClear status last | txGive status last =>
    rw [hpc] at hinv
    exact hinv.elim
  | rxLoop status =>
    dsimp only
    split
    · rename_i hset
      simp only [rank,hset,ne_eq,not_false_eq_true,if_true]
      decide
    · rename_i hclear
      simp only [rank,hclear,if_true,if_false]
      decide
  | rxWidth =>
    rw [hpc] at hinv
    obtain ⟨bytes,hmem⟩ := List.exists_mem_of_ne_nil _ hinv
    have hhead : s.radio.chip.rxFifo.headD []=bytes := by
      rw [h.single_eq hmem]
      rfl
    dsimp only
    split
    · rw [hhead,if_neg (Nat.not_lt.mpr (width_of_taken (h.taken bytes hmem)).1)]
      exact ⟨Nat.lt_succ_self 5,rfl⟩
    · exact ⟨Nat.lt_succ_self 5,rfl⟩
  | rxPayload wid => exact ⟨Nat.lt_succ_self 4,rfl⟩
  | rxFlush buf => exact ⟨Nat.lt_succ_self 3,rfl⟩
  | rxClear buf =>
    rw [hpc] at hinv
    dsimp only
    rw [if_neg hinv]
    exact ⟨Nat.lt_succ_self 2,rfl⟩
  | rxUnlock buf => exact ⟨Nat.lt_succ_self 1,rfl⟩
  | deliver buf => exact absurd hpc (hnot buf)
  | relock =>
    dsimp only
    rw [if_pos (h.unlocked hpc id)]
    exact ⟨Nat.lt_succ_self _,rfl⟩
  | reread =>
    rw [hpc] at hstatus hqueued
    have hset := (hstatus id).2.mpr (hqueued rfl)
    simp only [rank,hset,ne_eq,not_false_eq_true,if_true]
    decide
  | unlock => exact ⟨Nat.lt_succ_self _,rfl⟩

/-- What is delivered has entered before. -/
theorem Lossless.delivered_prefix (h : Lossless cfg s) : s.delivered<+:s.entered := by
  rw [h.entered,List.append_assoc]
  exact List.prefix_append _ _

/-- While something is to be delivered, every step lessens the work. -/
theorem work_step (h : Lossless cfg s) (hpending : s.delivered≠s.entered) :
    work (irqStep cfg s)<work s := by
  have hless : s.delivered.length<s.entered.length := by
    refine Nat.lt_of_le_of_ne h.delivered_prefix.length_le fun heq => ?_
    exact hpending (h.delivered_prefix.eq_of_length heq)
  unfold work
  rw [irqStep_entered]
  by_cases hdeliver : ∃ buf,s.irq=.deliver buf
  · obtain ⟨buf,hpc⟩ := hdeliver
    have hstep : (irqStep cfg s).delivered=s.delivered++[buf] ∧ (irqStep cfg s).irq=.relock := by
      unfold irqStep
      rw [hpc]
      exact ⟨rfl,rfl⟩
    rw [hstep.1,hstep.2,hpc,List.length_append]
    simp only [rank,List.length_singleton]
    omega
  · obtain ⟨hrank,hdelivered⟩ := rank_step h hpending fun buf hbuf => hdeliver ⟨buf,hbuf⟩
    rw [hdelivered]
    omega

/-- What has been delivered stays delivered. -/
theorem irqStep_delivered (cfg : Nrf24Config) (s : Driver) :
    s.delivered<+:(irqStep cfg s).delivered := by
  unfold irqStep
  cases s.irq with
  | txGive status last =>
    dsimp only [giveTxDone]
    split <;> exact List.prefix_refl _
  | deliver buf => exact List.prefix_append _ _
  | _ => (dsimp only; repeat split) <;> exact List.prefix_refl _

/-- Once all is delivered, it stays so. -/
theorem delivered_stays (h : Lossless cfg s) (hall : s.delivered=s.entered) (k : ℕ) :
    ((irqStep cfg)^[k] s).delivered=s.entered := by
  have hrun : ∀ k,Lossless cfg ((irqStep cfg)^[k] s) ∧
      ((irqStep cfg)^[k] s).entered=s.entered ∧ ((irqStep cfg)^[k] s).delivered=s.entered := by
    intro k
    induction k with
    | zero => exact ⟨h,rfl,hall⟩
    | succ k ih =>
      obtain ⟨hl,he,hd⟩ := ih
      rw [Function.iterate_succ_apply']
      have hnext := hl.step
      have hentered := (irqStep_entered cfg ((irqStep cfg)^[k] s)).trans he
      have hgrow := irqStep_delivered cfg ((irqStep cfg)^[k] s)
      have hbound := hnext.delivered_prefix
      rw [hd] at hgrow
      rw [hentered] at hbound
      have hlength := Nat.le_antisymm hbound.length_le hgrow.length_le
      exact ⟨hnext,hentered,hbound.eq_of_length hlength⟩
  exact (hrun k).2.2

/-- Where reception is lossless, all is delivered in the end. -/
theorem Lossless.deliversAll (h : Lossless cfg s) : DeliversAll cfg s := by
  generalize hw : work s=w
  induction w using Nat.strong_induction_on generalizing s with
  | _ w ih =>
    by_cases hall : s.delivered=s.entered
    · exact ⟨0,fun k _ => delivered_stays h hall k⟩
    · obtain ⟨m,hm⟩ := ih (work (irqStep cfg s)) (by rw [←hw]; exact work_step h hall) h.step rfl
      refine ⟨m+1,fun k hk => ?_⟩
      obtain ⟨j,rfl⟩ : ∃ j,k=j+1 := ⟨k-1,by omega⟩
      rw [Function.iterate_succ_apply,hm j (by omega),irqStep_entered]

/-- A frame that arrives at a wrong time is lost, or causes the loss of the one
before it. -/
theorem doomed_of_crowded (h : Lossless cfg s) {bytes : List Byte}
    (hbad : ¬Uncrowded cfg s (.arrival bytes)) : Doomed (frameArrives cfg s bytes) := by
  obtain ⟨htaken,hcrowded⟩ : FrameTaken cfg bytes ∧
      ¬(s.radio.chip.rxFifo=[] ∧ ¬Clearing s.irq) := Classical.not_imp.mp hbad
  have hroom : s.radio.chip.rxFifo.length<fifoDepth :=
    Nat.lt_of_le_of_lt h.single (by decide)
  rw [frameArrives,if_pos ⟨htaken,hroom⟩]
  refine ⟨h.supplied,?_⟩
  have hlength : s.entered.length=
      s.delivered.length+(inHand s.irq).length+s.radio.chip.rxFifo.length := by
    rw [h.entered,List.length_append,List.length_append]
  dsimp only
  rw [List.length_append,List.length_singleton,hlength]
  by_cases hclearing : Clearing s.irq
  · have hmay : mayRead {s with
        radio := {s.radio with
          chip := {s.radio.chip with
            rxFifo := s.radio.chip.rxFifo++[bytes]
            rxDr := true}}
        entered := s.entered++[bytes]}=false := by
      unfold mayRead
      revert hclearing
      cases s.irq with
      | rxFlush buf => exact fun _ => rfl
      | rxClear buf => exact fun _ => rfl
      | _ => exact fun hc => hc.elim
    rw [hmay]
    simp only [Bool.toNat_false]
    omega
  · have hqueued : s.radio.chip.rxFifo≠[] := fun hempty => hcrowded ⟨hempty,hclearing⟩
    have hpos := List.length_pos_iff.mpr hqueued
    generalize mayRead _=may
    have hone := Bool.toNat_le may
    omega

end Delivery

section Runs

variable (cfg : Nrf24Config)

/-- A chip that has received nothing and raised no flag. -/
structure Silent (c : Chip) : Prop where
  /-- `RX_DR` is clear. -/
  rxDr : c.rxDr=false
  /-- `TX_DS` is clear. -/
  txDs : c.txDs=false
  /-- `MAX_RT` is clear. -/
  maxRt : c.maxRt=false
  /-- The RX FIFO is empty. -/
  rxFifo : c.rxFifo=[]

/-- No access of the driver breaks the silence. -/
theorem Silent.access {c : Chip} (h : Silent c) (op : DriverOp) : Silent (c.access op) := by
  cases op with
  | writeReg r v =>
    simp only [Chip.access,Chip.writeReg]
    split
    · rw [h.rxDr,h.txDs,h.maxRt]
      exact ⟨rfl,rfl,rfl,h.rxFifo⟩
    · exact ⟨h.rxDr,h.txDs,h.maxRt,h.rxFifo⟩
  | writeTxPayload p =>
    simp only [Chip.access]
    split <;> exact ⟨h.rxDr,h.txDs,h.maxRt,h.rxFifo⟩
  | flushRx => exact ⟨h.rxDr,h.txDs,h.maxRt,rfl⟩
  | _ => exact ⟨h.rxDr,h.txDs,h.maxRt,h.rxFifo⟩

/-- No procedure of the driver breaks the silence. -/
theorem Silent.run {r : Radio} (h : Silent r.chip) (ops : List DriverOp) :
    Silent (r.run ops).chip := by
  induction ops generalizing r with
  | nil => exact h
  | cons op ops ih =>
    refine ih (r := r.access op) ?_
    rw [(access_chip r op).1]
    split
    · exact h.access op
    · exact h

/-- After booting nothing has arrived. -/
theorem boot_lossless : Lossless cfg (.boot cfg) := by
  have hlines := run_lines unprogrammed (applyConfigWith cfg true)
  have hsilent : Silent (nrf24Init cfg).chip :=
    Silent.run (r := unprogrammed) ⟨rfl,rfl,rfl,rfl⟩ (applyConfigWith cfg true)
  refine ⟨hlines.2.2.2,rfl,⟨hsilent.txDs,hsilent.maxRt⟩,fun h => h.elim,fun _ => rfl,?_,?_,?_,
    fun _ => ?_,fun h => h.elim,trivial⟩
  · exact hsilent.rxFifo.symm
  · exact (congrArg List.length hsilent.rxFifo).le.trans (Nat.zero_le 1)
  · intro bytes hmem
    change bytes∈(nrf24Init cfg).chip.rxFifo at hmem
    rw [hsilent.rxFifo] at hmem
    exact absurd hmem List.not_mem_nil
  · refine iff_of_false ?_ (not_not_intro hsilent.rxFifo)
    exact Bool.eq_false_iff.mp hsilent.rxDr

/-- Throughout a run of arrivals and steps of the interrupt thread all that has
entered the FIFO is delivered once and in order, exactly when every frame that
the chip takes finds the FIFO empty and the interrupt thread not between the
reading of a payload and the clearing of the flag. -/
theorem reception_lossless_iff (es : List RxEvent) :
    Throughout (rxNext cfg) (DeliversAll cfg) (.boot cfg) es ↔
      AlongRun (rxNext cfg) (Uncrowded cfg) (.boot cfg) es := by
  refine throughout_iff_of_invariant (I := Lossless cfg) ?_ ?_ ?_ (boot_lossless cfg) es
  · intro s e h hok
    cases e with
    | arrival bytes => exact h.arrival hok
    | irqStep => exact h.step
  · exact fun s h => h.deliversAll
  · intro s e h hbad
    cases e with
    | arrival bytes => exact (doomed_of_crowded h hbad).not_deliversAll
    | irqStep => exact absurd trivial hbad

/-- Two frames that are queued before the interrupt thread runs: the flush after
the first takes the second. -/
theorem second_frame_flushed :
    ¬Throughout (rxNext sampleConfig) (DeliversAll sampleConfig) (.boot sampleConfig)
      [.arrival [1],.arrival [2]] := by
  rintro ⟨-,-,hall⟩
  have hdoomed : Doomed (rxNext sampleConfig
      (rxNext sampleConfig (.boot sampleConfig) (.arrival [1])) (.arrival [2])) :=
    ⟨by decide,by decide⟩
  exact hdoomed.not_deliversAll hall

end Runs

end ZephyrApp.Nrf24Receive

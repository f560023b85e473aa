import ZephyrApp.Nrf24Threads

/-!
# The verdict of a transmission

A call of `nrf24_send` that returns zero has had its own payload acknowledged
by the chip. Between the clearing of the flags and the return the TX FIFO holds
payloads of this call only, so that `TX_DS` speaks of them; the semaphore is
emptied under the lock that every giving needs; and the status published with a
giving has been read under the same lock.
-/

namespace ZephyrApp.Nrf24Verdict

open MachineBytes EventRuns Nrf24Chip Nrf24Modes Nrf24Threads

/-- The payload of a call has been written and then acknowledged. -/
def Acked (n : ℕ) (log : List TxEvent) : Prop :=
  ∃ p a b c,p.call=n ∧ log=a++.wrote p::b++.raised p::c

/-- Every call that has returned zero had its payload acknowledged before. -/
def Results (log : List TxEvent) : Prop :=
  ∀ pre n r post,log=pre++.returned n r::post → r.ret=0 → Acked n pre

/-- An access that writes no payload. -/
def NoWrite (op : DriverOp) : Prop := ∀ p,op≠.writeTxPayload p

/-- `TX_DS` and the TX FIFO belong to the call under way. -/
structure Fresh (s : Driver) : Prop where
  /-- The flag is raised for the payload of this call. -/
  flag : s.radio.chip.txDs=true → Acked s.calls s.log
  /-- The FIFO holds payloads of this call only. -/
  fifo : ∀ p∈s.radio.chip.txFifo,p.call=s.calls

/-- A published status without `MAX_RT` tells of this call's payload. -/
def GoodStatus (s : Driver) : Prop :=
  s.lastStatus &&& bit maxRtBit=0 → Acked s.calls s.log

/-- What holds before each access up to the trigger. -/
inductive StartInv (s : Driver) (p : TxPayload) : List DriverOp → Prop
  /-- Nothing is done yet. -/
  | config : StartInv s p (sendStart p)
  /-- `CONFIG` is written. -/
  | ceLow : StartInv s p (.setCe (decide (Nrf24Mode.ptx=.prx))::.setMode .ptx::.flushTx::
      .writeReg regStatus txFlags::.writeTxPayload p::[.setCe true])
  /-- CE is low. -/
  | mode : StartInv s p (.setMode .ptx::.flushTx::.writeReg regStatus txFlags::
      .writeTxPayload p::[.setCe true])
  /-- The mode is recorded. -/
  | flush : StartInv s p (.flushTx::.writeReg regStatus txFlags::.writeTxPayload p::[.setCe true])
  /-- The FIFO is flushed. -/
  | clear (fifo : s.radio.chip.txFifo=[]) :
      StartInv s p (.writeReg regStatus txFlags::.writeTxPayload p::[.setCe true])
  /-- The flags are cleared. -/
  | write (fifo : s.radio.chip.txFifo=[]) (flag : s.radio.chip.txDs=false) :
      StartInv s p (.writeTxPayload p::[.setCe true])
  /-- The payload is written. -/
  | trigger (fresh : Fresh s) : StartInv s p [.setCe true]
  /-- The transmission is triggered. -/
  | release (fresh : Fresh s) : StartInv s p []

/-- What holds at each place of the sending thread. -/
def SenderInv (s : Driver) : SenderPc → Prop
  | .idle => True
  | .entry p => p.call=s.calls
  | .drain p => p.call=s.calls
  | .start p ops => p.call=s.calls ∧ s.txDone=false ∧ StartInv s p ops
  | .take => Fresh s ∧ (s.txDone=true → GoodStatus s)
  | .waiting => Fresh s
  | .relock given => Fresh s ∧ (given=true → GoodStatus s)
  | .finish ops result => (∀ op∈ops,NoWrite op) ∧ (result.ret=0 → Acked s.calls s.log)

/-- The sending thread is between its trigger and its second lock. -/
def Awaiting : SenderPc → Prop
  | .take => True
  | .waiting => True
  | .relock _ => True
  | _ => False

/-- The sending thread holds the lock. -/
def SenderLocked : SenderPc → Prop
  | .drain _ => True
  | .start _ _ => True
  | .finish _ _ => True
  | _ => False

/-- A status with `TX_DS` that is read during a wait tells of this call's
payload. -/
def FreshStatus (s : Driver) (status : Byte) : Prop :=
  Awaiting s.sender → status &&& bit txDsBit≠0 → Acked s.calls s.log

/-- What holds at each place of the interrupt thread. -/
def IrqInv (s : Driver) : IrqPc → Prop
  | .txCheck status _ => FreshStatus s status
  | .rxLoop status => FreshStatus s status
  | .txObserve status _ => FreshStatus s status ∧ s.lastStatus=status ∧ status &&& txFlags≠0
  | .txClear status _ => FreshStatus s status ∧ s.lastStatus=status ∧ status &&& txFlags≠0
  | .txGive status _ => FreshStatus s status ∧ s.lastStatus=status ∧ status &&& txFlags≠0
  | _ => True

/-- What holds in every reachable state of the driver. -/
structure VerdictInv (s : Driver) : Prop where
  /-- The chip is supplied. -/
  supplied : s.radio.supplied=true
  /-- What is in the TX FIFO has been written. -/
  written : ∀ p∈s.radio.chip.txFifo,TxEvent.wrote p∈s.log
  /-- The calls that have returned told the truth. -/
  results : Results s.log
  /-- The other thread writes no payload. -/
  other : ∀ op∈s.other,NoWrite op
  /-- The sending thread holds the lock where it should. -/
  senderLock : SenderLocked s.sender → s.lock=some .sender
  /-- The interrupt thread holds the lock where it should. -/
  irqLock : IrqLocked s.irq → s.lock=some .irq
  /-- The sending thread's part. -/
  sender : SenderInv s s.sender
  /-- The interrupt thread's part. -/
  irq : IrqInv s s.irq

section Log

/-- An acknowledgement stays noted. -/
theorem Acked.append {n : ℕ} {log : List TxEvent} (h : Acked n log) (es : List TxEvent) :
    Acked n (log++es) := by
  obtain ⟨p,a,b,c,hp,hlog⟩ := h
  refine ⟨p,a,b,c++es,hp,?_⟩
  rw [hlog]
  simp only [List.append_assoc,List.cons_append]

/-- A raised flag acknowledges a payload that has been written. -/
theorem acked_of_raised {p : TxPayload} {log : List TxEvent} (h : TxEvent.wrote p∈log) :
    Acked p.call (log++[.raised p]) := by
  obtain ⟨a,b,hlog⟩ := List.append_of_mem h
  refine ⟨p,a,b,[],rfl,?_⟩
  rw [hlog]

/-- Something else than a return of zero, or one that is true, may be noted. -/
theorem Results.append {log : List TxEvent} (h : Results log) {e : TxEvent}
    (he : ∀ n r,e=.returned n r → r.ret=0 → Acked n log) : Results (log++[e]) := by
  intro pre n r post hlog hret
  rcases List.eq_nil_or_concat post with hpost | ⟨post',e',hpost⟩
  · rw [hpost] at hlog
    obtain ⟨hpre,hlast⟩ := List.append_inj' hlog rfl
    rw [List.cons.injEq] at hlast
    rw [←hpre]
    exact he n r hlast.1 hret
  · rw [hpost,List.concat_eq_append,←List.cons_append,←List.append_assoc] at hlog
    exact h pre n r post' (List.append_inj' hlog rfl).1 hret

/-- Nothing noted leaves the results as they are, and neither does a writing. -/
theorem Results.append_opLog {log : List TxEvent} (h : Results log) (op : DriverOp) :
    Results (log++opLog op) := by
  cases op with
  | writeTxPayload p =>
    exact h.append fun n r he => by cases he
  | writeReg r v => simpa only [opLog,List.append_nil] using h
  | writeMulti r bytes => simpa only [opLog,List.append_nil] using h
  | flushTx => simpa only [opLog,List.append_nil] using h
  | flushRx => simpa only [opLog,List.append_nil] using h
  | modeConfig mode => simpa only [opLog,List.append_nil] using h
  | setCe level => simpa only [opLog,List.append_nil] using h
  | setMode mode => simpa only [opLog,List.append_nil] using h

end Log

section Status

/-- The status has a set flag of a transmission: `TX_DS` or `MAX_RT`. -/
theorem txFlags_cases {status : Byte} (h : status &&& txFlags≠0)
    (hmax : status &&& bit maxRtBit=0) : status &&& bit txDsBit≠0 := by
  intro hds
  apply h
  have hflags : txFlags=bit txDsBit ||| bit maxRtBit := rfl
  rw [hflags,BitVec.and_or_distrib_left,hds,hmax]
  rfl

/-- The status shows `TX_DS` only where the chip has raised it. -/
theorem status_txDs {c : Chip} (h : c.status &&& bit txDsBit≠0) : c.txDs=true := by
  by_contra hds
  rw [Bool.not_eq_true] at hds
  apply h
  unfold Chip.status
  rw [hds]
  cases c.rxDr <;> cases c.maxRt <;> by_cases hrx : c.rxFifo=[] <;>
    by_cases htx : fifoDepth≤c.txFifo.length <;>
    simp only [hrx,htx,if_true,if_false,Bool.false_eq_true] <;> rfl

end Status

section Quiet

/-- A step that does nothing to the transmission under way. -/
structure Quiet (s t : Driver) : Prop where
  /-- The chip stays supplied. -/
  supplied : t.radio.supplied=s.radio.supplied
  /-- No payload is written. -/
  fifo : ∀ p∈t.radio.chip.txFifo,p∈s.radio.chip.txFifo
  /-- `TX_DS` is not raised. -/
  flag : t.radio.chip.txDs=true → s.radio.chip.txDs=true
  /-- Nothing is noted. -/
  log : t.log=s.log
  /-- The number of calls stays. -/
  calls : t.calls=s.calls
  /-- The semaphore is not given. -/
  txDone : t.txDone=true → s.txDone=true
  /-- The published status stays. -/
  lastStatus : t.lastStatus=s.lastStatus

variable {s t : Driver}

/-- A quiet step keeps the ownership of flag and FIFO. -/
theorem Quiet.fresh (h : Quiet s t) (hs : Fresh s) : Fresh t := by
  refine ⟨fun hds => ?_,fun p hp => ?_⟩
  · rw [h.calls,h.log]
    exact hs.flag (h.flag hds)
  · rw [h.calls]
    exact hs.fifo p (h.fifo p hp)

/-- A quiet step keeps the meaning of the published status. -/
theorem Quiet.goodStatus (h : Quiet s t) (hs : GoodStatus s) : GoodStatus t := by
  unfold GoodStatus
  rw [h.lastStatus,h.calls,h.log]
  exact hs

/-- A quiet step keeps an empty FIFO empty. -/
theorem Quiet.fifo_nil (h : Quiet s t) (hs : s.radio.chip.txFifo=[]) :
    t.radio.chip.txFifo=[] := by
  rw [List.eq_nil_iff_forall_not_mem]
  intro p hp
  have hmem := h.fifo p hp
  rw [hs] at hmem
  exact absurd hmem List.not_mem_nil

/-- A quiet step keeps a cleared flag clear. -/
theorem Quiet.flag_false (h : Quiet s t) (hs : s.radio.chip.txDs=false) :
    t.radio.chip.txDs=false := by
  rw [Bool.eq_false_iff]
  exact fun hds => absurd (h.flag hds) (Bool.eq_false_iff.mp hs)

/-- What holds up to the trigger depends on the FIFO, the flag and their owner. -/
theorem StartInv.mono {p : TxPayload} {ops : List DriverOp} (hs : StartInv s p ops)
    (hfifo : s.radio.chip.txFifo=[] → t.radio.chip.txFifo=[])
    (hflag : s.radio.chip.txFifo=[] → s.radio.chip.txDs=false → t.radio.chip.txDs=false)
    (hfresh : Fresh s → Fresh t) : StartInv t p ops := by
  cases hs with
  | config => exact .config
  | ceLow => exact .ceLow
  | mode => exact .mode
  | flush => exact .flush
  | clear fifo => exact .clear (hfifo fifo)
  | write fifo flag => exact .write (hfifo fifo) (hflag fifo flag)
  | trigger fresh => exact .trigger (hfresh fresh)
  | release fresh => exact .release (hfresh fresh)

/-- The sending thread's part is kept by steps that keep what it rests on. -/
theorem SenderInv.mono {pc : SenderPc} (hs : SenderInv s pc) (hcalls : t.calls=s.calls)
    (hdone : t.txDone=true → s.txDone=true)
    (hstart : ∀ p ops,StartInv s p ops → StartInv t p ops) (hfresh : Fresh s → Fresh t)
    (hgood : GoodStatus s → GoodStatus t) (hacked : Acked s.calls s.log → Acked t.calls t.log) :
    SenderInv t pc := by
  cases pc with
  | idle => trivial
  | entry p => exact hs.trans hcalls.symm
  | drain p => exact hs.trans hcalls.symm
  | start p ops =>
    have hclear : t.txDone=false :=
      Bool.eq_false_iff.mpr fun ht => absurd (hdone ht) (Bool.eq_false_iff.mp hs.2.1)
    exact ⟨hs.1.trans hcalls.symm,hclear,hstart p ops hs.2.2⟩
  | take => exact ⟨hfresh hs.1,fun ht => hgood (hs.2 (hdone ht))⟩
  | waiting => exact hfresh hs
  | relock given => exact ⟨hfresh hs.1,fun hgiven => hgood (hs.2 hgiven)⟩
  | finish ops result => exact ⟨hs.1,fun hret => hacked (hs.2 hret)⟩

/-- A quiet step keeps what holds up to the trigger. -/
theorem Quiet.startInv (h : Quiet s t) {p : TxPayload} {ops : List DriverOp}
    (hs : StartInv s p ops) : StartInv t p ops :=
  hs.mono h.fifo_nil (fun _ => h.flag_false) h.fresh

/-- A quiet step keeps the sending thread's part. -/
theorem Quiet.senderInv (h : Quiet s t) {pc : SenderPc} (hs : SenderInv s pc) :
    SenderInv t pc :=
  hs.mono h.calls h.txDone (fun _ _ => h.startInv) h.fresh h.goodStatus
    fun hacked => by rw [h.calls,h.log]; exact hacked

/-- The interrupt thread's part holds where that thread is without the lock. -/
theorem irqInv_of_unlocked (s : Driver) {pc : IrqPc} (h : ¬IrqLocked pc) : IrqInv s pc := by
  cases pc with
  | idle => trivial
  | lock => trivial
  | deliver buf => trivial
  | relock => trivial
  | _ => exact absurd trivial h

/-- The interrupt thread's part is kept by steps that keep the published status
and, during a wait, the acknowledgements of the call. -/
theorem IrqInv.mono {pc : IrqPc} (hs : IrqInv s pc) (hlast : t.lastStatus=s.lastStatus)
    (hawait : Awaiting t.sender →
      Awaiting s.sender ∧ (Acked s.calls s.log → Acked t.calls t.log)) : IrqInv t pc := by
  have hfresh : ∀ status,FreshStatus s status → FreshStatus t status :=
    fun status hp ht hds => (hawait ht).2 (hp (hawait ht).1 hds)
  have hthree : ∀ status,
      (FreshStatus s status ∧ s.lastStatus=status ∧ status &&& txFlags≠0) →
        FreshStatus t status ∧ t.lastStatus=status ∧ status &&& txFlags≠0 :=
    fun status hp => ⟨hfresh status hp.1,hlast.trans hp.2.1,hp.2.2⟩
  cases pc with
  | txCheck status last => exact hfresh status hs
  | rxLoop status => exact hfresh status hs
  | txObserve status last => exact hthree status hs
  | txClear status last => exact hthree status hs
  | txGive status last => exact hthree status hs
  | _ => trivial

/-- A quiet step keeps the interrupt thread's part, unless a wait begins. -/
theorem Quiet.irqInv (h : Quiet s t) (hawait : Awaiting t.sender → Awaiting s.sender)
    {pc : IrqPc} (hs : IrqInv s pc) : IrqInv t pc :=
  hs.mono h.lastStatus fun ht => ⟨hawait ht,fun hacked => by rw [h.calls,h.log]; exact hacked⟩

/-- A quiet step keeps the invariant, given the parts of the threads. -/
theorem Quiet.verdictInv (h : Quiet s t) (hs : VerdictInv s) (hother : ∀ op∈t.other,NoWrite op)
    (hsenderLock : SenderLocked t.sender → t.lock=some .sender)
    (hirqLock : IrqLocked t.irq → t.lock=some .irq) (hsender : SenderInv t t.sender)
    (hirq : IrqInv t t.irq) : VerdictInv t := by
  refine ⟨h.supplied.trans hs.supplied,fun p hp => ?_,?_,hother,hsenderLock,hirqLock,hsender,hirq⟩
  · rw [h.log]
    exact hs.written p (h.fifo p hp)
  · rw [h.log]
    exact hs.results

/-- A step that changes only what no transmission looks at. -/
theorem Quiet.of_eq (hsupplied : t.radio.supplied=s.radio.supplied)
    (hfifo : t.radio.chip.txFifo=s.radio.chip.txFifo)
    (hflag : t.radio.chip.txDs=s.radio.chip.txDs) (hlog : t.log=s.log) (hcalls : t.calls=s.calls)
    (hdone : t.txDone=s.txDone) (hlast : t.lastStatus=s.lastStatus) : Quiet s t :=
  ⟨hsupplied,fun p hp => by rw [←hfifo]; exact hp,fun h => by rw [←hflag]; exact h,hlog,hcalls,
    fun h => by rw [←hdone]; exact h,hlast⟩

/-- An access without a writing adds nothing to the TX FIFO and raises no
`TX_DS`. -/
theorem access_tx (r : Radio) {op : DriverOp} (h : NoWrite op) :
    (∀ p∈(r.access op).chip.txFifo,p∈r.chip.txFifo) ∧
      ((r.access op).chip.txDs=true → r.chip.txDs=true) := by
  cases op with
  | writeTxPayload p => exact absurd rfl (h p)
  | writeReg a v =>
    simp only [Radio.access,Chip.access,Chip.writeReg]
    split
    · split
      · exact ⟨fun p hp => hp,fun hds => (Bool.and_eq_true_iff.mp hds).1⟩
      · exact ⟨fun p hp => hp,fun hds => hds⟩
    · exact ⟨fun p hp => hp,fun hds => hds⟩
  | flushTx =>
    simp only [Radio.access,Chip.access]
    split
    · exact ⟨fun p hp => absurd hp List.not_mem_nil,fun hds => hds⟩
    · exact ⟨fun p hp => hp,fun hds => hds⟩
  | setCe level => exact ⟨fun p hp => hp,fun hds => hds⟩
  | setMode mode => exact ⟨fun p hp => hp,fun hds => hds⟩
  | _ =>
    simp only [Radio.access,Chip.access]
    split <;> exact ⟨fun p hp => hp,fun hds => hds⟩

/-- A procedure without a writing adds nothing to the TX FIFO. -/
theorem run_txFifo (r : Radio) {ops : List DriverOp} (h : ∀ op∈ops,NoWrite op) :
    ∀ p∈(r.run ops).chip.txFifo,p∈r.chip.txFifo := by
  induction ops generalizing r with
  | nil => exact fun p hp => hp
  | cons op ops ih =>
    intro p hp
    have hrest := ih (r.access op) (fun o ho => h o (List.mem_cons_of_mem op ho)) p hp
    exact (access_tx r (h op List.mem_cons_self)).1 p hrest

/-- An access without a writing does nothing to the transmission. -/
theorem access_quiet (s : Driver) {op : DriverOp} (h : NoWrite op) : Quiet s (s.access op) := by
  have hlog : s.log++opLog op=s.log := by
    cases op with
    | writeTxPayload p => exact absurd rfl (h p)
    | _ => exact List.append_nil s.log
  have hsupplied : (s.radio.access op).supplied=s.radio.supplied :=
    (access_lines s.radio op).2.2.2
  have hchip := access_tx s.radio h
  exact ⟨hsupplied,hchip.1,hchip.2,hlog,rfl,fun hd => hd,rfl⟩

/-- Writing a register writes no payload. -/
theorem noWrite_writeReg (r v : Byte) : NoWrite (.writeReg r v) := fun _ h => nomatch h

/-- Flushing the RX FIFO writes no payload. -/
theorem noWrite_flushRx : NoWrite .flushRx := fun _ h => nomatch h

/-- An access without a writing, followed by moves of the threads. -/
theorem Quiet.trans_eq {u : Driver} (h : Quiet s t) (hradio : u.radio=t.radio) (hlog : u.log=t.log)
    (hcalls : u.calls=t.calls) (hdone : u.txDone=t.txDone) (hlast : u.lastStatus=t.lastStatus) :
    Quiet s u := by
  refine ⟨?_,?_,?_,hlog.trans h.log,hcalls.trans h.calls,?_,hlast.trans h.lastStatus⟩
  · rw [hradio]
    exact h.supplied
  · rw [hradio]
    exact h.fifo
  · rw [hradio]
    exact h.flag
  · rw [hdone]
    exact h.txDone

end Quiet

section Environment

variable {s : Driver}

/-- The accesses of the programming write no payload. -/
theorem applyConfigWith_noWrite (cfg : Nrf24Config) (prim : Bool) :
    ∀ op∈applyConfigWith cfg prim,NoWrite op := by
  intro op hop p hp
  rw [hp] at hop
  unfold applyConfigWith at hop
  split at hop <;> simp at hop

/-- The setting of a mode writes no payload. -/
theorem setModeLocked_noWrite (mode : Nrf24Mode) : ∀ op∈setModeLocked mode,NoWrite op := by
  intro op hop p hp
  rw [hp] at hop
  simp [setModeLocked] at hop

/-- The accesses after the wait write no payload. -/
theorem sendFinish_noWrite (outcome : SendOutcome) : ∀ op∈sendFinish outcome,NoWrite op := by
  intro op hop
  rw [sendFinish,List.mem_append] at hop
  rcases hop with hop | hop
  · intro p hp
    rw [hp] at hop
    cases outcome <;> simp [sendCleanup] at hop
  · exact setModeLocked_noWrite .prx op hop

/-- A quiet step of the chip keeps the invariant. -/
theorem verdictInv_of_chip {t : Driver} (hs : VerdictInv s) (h : Quiet s t)
    (hother : t.other=s.other) (hsender : t.sender=s.sender) (hirq : t.irq=s.irq)
    (hlock : t.lock=s.lock) : VerdictInv t := by
  refine h.verdictInv hs ?_ ?_ ?_ ?_ ?_
  · rw [hother]
    exact hs.other
  · rw [hsender,hlock]
    exact hs.senderLock
  · rw [hirq,hlock]
    exact hs.irqLock
  · rw [hsender]
    exact h.senderInv hs.sender
  · rw [hirq]
    exact h.irqInv (fun ht => by rw [←hsender]; exact ht) hs.irq

/-- A frame that arrives keeps the invariant. -/
theorem frameArrives_verdictInv (cfg : Nrf24Config) (hs : VerdictInv s) (bytes : List Byte) :
    VerdictInv (frameArrives cfg s bytes) := by
  unfold frameArrives
  split
  · exact verdictInv_of_chip hs (.of_eq rfl rfl rfl rfl rfl rfl rfl) rfl rfl rfl rfl
  · exact hs

/-- `MAX_RT` keeps the invariant. -/
theorem raiseMaxRt_verdictInv (hs : VerdictInv s) : VerdictInv (raiseMaxRt s) :=
  verdictInv_of_chip hs (.of_eq rfl rfl rfl rfl rfl rfl rfl) rfl rfl rfl rfl

/-- The counters of the chip keep the invariant. -/
theorem setObserveTx_verdictInv (hs : VerdictInv s) (v : Byte) :
    VerdictInv (setObserveTx s v) :=
  verdictInv_of_chip hs (.of_eq rfl rfl rfl rfl rfl rfl rfl) rfl rfl rfl rfl

/-- `TX_DS` keeps the invariant: its payload has been written, and by the call
under way where that matters. -/
theorem raiseTxDs_verdictInv (hs : VerdictInv s) : VerdictInv (raiseTxDs s) := by
  unfold raiseTxDs
  split
  · exact hs
  · rename_i p rest hfifo
    have hp : p∈s.radio.chip.txFifo := by
      rw [hfifo]
      exact List.mem_cons_self
    have hrest : ∀ q∈rest,q∈s.radio.chip.txFifo := fun q hq => by
      rw [hfifo]
      exact List.mem_cons_of_mem p hq
    have hne : s.radio.chip.txFifo≠[] := by
      rw [hfifo]
      exact List.cons_ne_nil p rest
    have hacked := acked_of_raised (hs.written p hp)
    set t : Driver := {s with
      radio := {s.radio with
        chip := {s.radio.chip with
          txFifo := rest
          txDs := true}}
      log := s.log++[.raised p]} with ht
    have hgrow : Acked s.calls s.log → Acked t.calls t.log := fun h => h.append _
    have hfresh : Fresh s → Fresh t := fun h =>
      ⟨fun _ => by rw [←h.fifo p hp]; exact hacked,fun q hq => h.fifo q (hrest q hq)⟩
    have hgood : GoodStatus s → GoodStatus t := fun h hmax => hgrow (h hmax)
    refine ⟨hs.supplied,fun q hq => ?_,?_,hs.other,hs.senderLock,hs.irqLock,?_,?_⟩
    · exact List.mem_append_left _ (hs.written q (hrest q hq))
    · exact hs.results.append fun n r he => by cases he
    · refine hs.sender.mono rfl (fun h => h) (fun q ops hstart => ?_) hfresh hgood hgrow
      exact hstart.mono (fun hnil => absurd hnil hne) (fun hnil => absurd hnil hne) hfresh
    · exact hs.irq.mono rfl fun hawait => ⟨hawait,hgrow⟩

/-- A procedure of another thread that writes no payload keeps the invariant
where it starts. -/
theorem beginOther_verdictInv (hs : VerdictInv s) {ops : List DriverOp}
    (hops : ∀ op∈ops,NoWrite op) : VerdictInv (beginOther s ops) := by
  unfold beginOther
  split
  · rename_i hfree
    have hquiet : Quiet s {s with lock := some .other,other := ops} :=
      .of_eq rfl rfl rfl rfl rfl rfl rfl
    have hnot : ∀ who,s.lock≠some who := fun who h => by
      rw [hfree] at h
      exact nomatch h
    exact hquiet.verdictInv hs hops (fun h => absurd (hs.senderLock h) (hnot _))
      (fun h => absurd (hs.irqLock h) (hnot _)) (hquiet.senderInv hs.sender)
      (hquiet.irqInv (fun h => h) hs.irq)
  · exact hs

/-- A step of the other thread keeps the invariant. -/
theorem otherStep_verdictInv (hs : VerdictInv s) : VerdictInv (otherStep s) := by
  unfold otherStep
  split
  · rename_i hheld
    have hsender : s.lock≠some .sender := by
      rw [hheld]
      decide
    have hirq : s.lock≠some .irq := by
      rw [hheld]
      decide
    split
    · have hquiet : Quiet s {s with lock := none} := .of_eq rfl rfl rfl rfl rfl rfl rfl
      exact hquiet.verdictInv hs hs.other (fun h => absurd (hs.senderLock h) hsender)
        (fun h => absurd (hs.irqLock h) hirq) (hquiet.senderInv hs.sender)
        (hquiet.irqInv (fun h => h) hs.irq)
    · rename_i op ops hops
      have hno := hs.other
      rw [hops] at hno
      have hquiet : Quiet s {s.access op with other := ops} :=
        (access_quiet s (hno op List.mem_cons_self)).trans_eq rfl rfl rfl rfl rfl
      exact hquiet.verdictInv hs (fun o ho => hno o (List.mem_cons_of_mem op ho)) hs.senderLock
        hs.irqLock (hquiet.senderInv hs.sender) (hquiet.irqInv (fun h => h) hs.irq)
  · exact hs

end Environment

section Sender

variable {s : Driver}

/-- The lock has one holder: the interrupt thread is without it. -/
theorem VerdictInv.not_irqLocked (hs : VerdictInv s) (hlock : s.lock≠some .irq) :
    ¬IrqLocked s.irq := fun h => hlock (hs.irqLock h)

/-- At its locked places the sending thread holds the lock, and the interrupt
thread is without it. -/
theorem VerdictInv.senderHeld (hs : VerdictInv s) {pc : SenderPc} (hpc : s.sender=pc)
    (hlocked : SenderLocked pc) : s.lock=some .sender ∧ ¬IrqLocked s.irq := by
  have hheld : s.lock=some .sender := hs.senderLock (by rw [hpc]; exact hlocked)
  refine ⟨hheld,hs.not_irqLocked ?_⟩
  rw [hheld]
  decide

/-- A move of the sending thread that is quiet and starts no wait keeps the
invariant, given the sending thread's part. -/
theorem verdictInv_of_sender {t : Driver} (hs : VerdictInv s) (h : Quiet s t)
    (hother : t.other=s.other) (hirq : t.irq=s.irq)
    (hsenderLock : SenderLocked t.sender → t.lock=some .sender)
    (hlock : s.lock=some .irq → t.lock=some .irq) (hsender : SenderInv t t.sender)
    (hawait : Awaiting t.sender → Awaiting s.sender) : VerdictInv t := by
  refine h.verdictInv hs ?_ hsenderLock ?_ hsender ?_
  · rw [hother]
    exact hs.other
  · rw [hirq]
    exact fun hlocked => hlock (hs.irqLock hlocked)
  · rw [hirq]
    exact h.irqInv hawait hs.irq

/-- The call of `nrf24_send` keeps the invariant. -/
theorem beginSend_verdictInv (hs : VerdictInv s) (bytes : List Byte) :
    VerdictInv (beginSend s bytes) := by
  unfold beginSend
  split
  · rename_i hidle
    have hnot : ¬Awaiting s.sender := by
      rw [hidle]
      exact fun h => h
    split
    · refine ⟨hs.supplied,fun p hp => ?_,?_,hs.other,hs.senderLock,hs.irqLock,?_,?_⟩
      · exact List.mem_append_left _ (hs.written p hp)
      · refine hs.results.append fun n r he hret => ?_
        cases he
        exact absurd hret (by decide)
      · change SenderInv _ s.sender
        rw [hidle]
        trivial
      · exact hs.irq.mono rfl fun hawait => absurd hawait hnot
    · refine ⟨hs.supplied,hs.written,hs.results,hs.other,fun h => h.elim,hs.irqLock,rfl,?_⟩
      exact hs.irq.mono rfl fun hawait => hawait.elim
  · exact hs

/-- The timeout keeps the invariant. -/
theorem senderTimeout_verdictInv (hs : VerdictInv s) : VerdictInv (senderTimeout s) := by
  unfold senderTimeout
  split
  · rename_i hwaiting
    have hquiet : Quiet s {s with sender := .relock false} := .of_eq rfl rfl rfl rfl rfl rfl rfl
    have hfresh : Fresh s := by
      have hsender := hs.sender
      rw [hwaiting] at hsender
      exact hsender
    refine verdictInv_of_sender hs hquiet rfl rfl (fun h => h.elim) (fun h => h) ?_ fun _ => ?_
    · exact ⟨hquiet.fresh hfresh,fun h => absurd h Bool.false_ne_true⟩
    · rw [hwaiting]
      trivial
  · exact hs

/-- An access up to the trigger leaves what holds before the next. -/
theorem startInv_access (hs : VerdictInv s) {p : TxPayload} {op : DriverOp} {ops : List DriverOp}
    (hcall : p.call=s.calls) (h : StartInv s p (op::ops)) : StartInv (s.access op) p ops := by
  cases h with
  | config => exact .ceLow
  | ceLow => exact .mode
  | mode => exact .flush
  | flush =>
    refine .clear ?_
    simp only [Driver.access,Radio.access,hs.supplied,if_true,Chip.access]
  | clear fifo =>
    refine .write ?_ ?_
    · simp only [Driver.access,Radio.access,hs.supplied,if_true,Chip.access,Chip.writeReg,fifo]
    · simp only [Driver.access,Radio.access,hs.supplied,if_true,Chip.access,Chip.writeReg]
      exact Bool.and_false _
  | write fifo flag =>
    refine .trigger ⟨?_,?_⟩
    · intro hds
      simp only [Driver.access,Radio.access,hs.supplied,if_true,Chip.access,fifo,flag,
        List.length_nil,fifoDepth] at hds
      exact absurd hds Bool.false_ne_true
    · intro q hq
      simp only [Driver.access,Radio.access,hs.supplied,if_true,Chip.access,fifo,List.length_nil,
        fifoDepth,List.nil_append] at hq
      rw [List.mem_singleton.mp hq]
      exact hcall
  | trigger fresh =>
    have hno : NoWrite (.setCe true) := by
      intro q hq
      cases hq
    exact .release ((access_quiet s hno).fresh fresh)

/-- An access up to the trigger writes the payload of the call or none. -/
theorem startInv_op {p : TxPayload} {op : DriverOp} {ops : List DriverOp}
    (h : StartInv s p (op::ops)) : NoWrite op ∨ op=.writeTxPayload p := by
  cases h with
  | write fifo flag => exact Or.inr rfl
  | config => exact Or.inl fun q hq => nomatch hq
  | ceLow => exact Or.inl fun q hq => nomatch hq
  | mode => exact Or.inl fun q hq => nomatch hq
  | flush => exact Or.inl fun q hq => nomatch hq
  | clear fifo => exact Or.inl fun q hq => nomatch hq
  | trigger fresh => exact Or.inl fun q hq => nomatch hq

/-- A step up to the trigger keeps the invariant. -/
theorem senderStart_verdictInv (hs : VerdictInv s) {p : TxPayload} {op : DriverOp}
    {ops : List DriverOp} (hpc : s.sender=.start p (op::ops)) :
    VerdictInv {s.access op with sender := .start p ops} := by
  obtain ⟨hheld,hirq⟩ := hs.senderHeld hpc trivial
  have hinv : SenderInv s (.start p (op::ops)) := by
    rw [←hpc]
    exact hs.sender
  obtain ⟨hcall,hdone,hstart⟩ := hinv
  have hnext := startInv_access hs hcall hstart
  have hsame : Quiet (s.access op) {s.access op with sender := .start p ops} :=
    .of_eq rfl rfl rfl rfl rfl rfl rfl
  have hmove : StartInv {s.access op with sender := .start p ops} p ops := hsame.startInv hnext
  rcases startInv_op hstart with hno | hwrite
  · have hquiet : Quiet s {s.access op with sender := .start p ops} :=
      (access_quiet s hno).trans_eq rfl rfl rfl rfl rfl
    exact verdictInv_of_sender hs hquiet rfl rfl (fun _ => hheld) (fun h => h)
      ⟨hcall,hdone,hmove⟩ fun h => h.elim
  · have hsupplied : (s.radio.access op).supplied=s.radio.supplied :=
      (access_lines s.radio op).2.2.2
    refine ⟨hsupplied.trans hs.supplied,fun q hq => ?_,?_,hs.other,fun _ => hheld,hs.irqLock,
      ⟨hcall,hdone,hmove⟩,irqInv_of_unlocked _ hirq⟩
    · rw [hwrite] at hq ⊢
      simp only [Driver.access,Radio.access,hs.supplied,if_true,Chip.access] at hq
      have hmem : q∈s.radio.chip.txFifo ∨ q=p := by
        split at hq
        · rw [List.mem_append,List.mem_singleton] at hq
          exact hq
        · exact Or.inl hq
      rcases hmem with hold | hnew
      · exact List.mem_append_left _ (hs.written q hold)
      · rw [hnew]
        exact List.mem_append_right _ List.mem_cons_self
    · exact hs.results.append_opLog op

/-- A verdict of zero has been acknowledged. -/
theorem acked_of_verdict {given : Bool} (h : SenderInv s (.relock given))
    (hret : (sendResult (seenOutcome given s.lastStatus) s.lastObserveTx).ret=0) :
    Acked s.calls s.log := by
  have hacked : seenOutcome given s.lastStatus=.acked := by
    cases ho : seenOutcome given s.lastStatus with
    | acked => rfl
    | maxRt =>
      have hne : outcomeRet .maxRt≠0 := by decide
      rw [ho] at hret
      exact absurd hret hne
    | timeout =>
      have hne : outcomeRet .timeout≠0 := by decide
      rw [ho] at hret
      exact absurd hret hne
  unfold seenOutcome at hacked
  cases given with
  | false => exact nomatch hacked
  | true =>
    simp only [Bool.true_eq_false,if_false] at hacked
    split at hacked
    · exact nomatch hacked
    · rename_i hmax
      exact h.2 rfl (not_not.mp hmax)

/-- Taking the lock keeps the invariant. -/
theorem senderAcquire_verdictInv (hs : VerdictInv s) {pc : SenderPc} (hfree : s.lock=none)
    (hnot : ¬Awaiting pc) (hpc : SenderInv s pc) :
    VerdictInv {s with lock := some .sender,sender := pc} := by
  have hirq : s.lock≠some .irq := by
    rw [hfree]
    decide
  have hquiet : Quiet s {s with lock := some .sender,sender := pc} :=
    .of_eq rfl rfl rfl rfl rfl rfl rfl
  exact verdictInv_of_sender hs hquiet rfl rfl (fun _ => rfl) (fun h => absurd h hirq)
    (hquiet.senderInv hpc) fun h => absurd h hnot

/-- Taking the semaphore is quiet. -/
theorem quiet_taken (s : Driver) (pc : SenderPc) :
    Quiet s {s with txDone := false,sender := pc} :=
  ⟨rfl,fun _ hp => hp,fun h => h,rfl,rfl,fun h => absurd h Bool.false_ne_true,rfl⟩

/-- A step after the verdict keeps the invariant. -/
theorem senderFinish_verdictInv (hs : VerdictInv s) {ops : List DriverOp} {result : SendResult}
    (hpc : s.sender=.finish ops result) : VerdictInv (senderStep s) := by
  have hinv := hs.sender
  rw [hpc] at hinv
  obtain ⟨hno,hret⟩ := hinv
  obtain ⟨hheld,hirq⟩ := hs.senderHeld hpc trivial
  unfold senderStep
  rw [hpc]
  cases ops with
  | cons op ops =>
    have hquiet : Quiet s {s.access op with sender := .finish ops result} :=
      (access_quiet s (hno op List.mem_cons_self)).trans_eq rfl rfl rfl rfl rfl
    have hrest : SenderInv s (.finish ops result) :=
      ⟨fun o ho => hno o (List.mem_cons_of_mem op ho),hret⟩
    exact verdictInv_of_sender hs hquiet rfl rfl (fun _ => hheld) (fun h => h)
      (hquiet.senderInv hrest) fun h => h.elim
  | nil =>
    refine ⟨hs.supplied,fun q hq => ?_,?_,hs.other,fun h => h.elim,fun h => absurd h hirq,
      trivial,irqInv_of_unlocked _ hirq⟩
    · exact List.mem_append_left _ (hs.written q hq)
    · refine hs.results.append fun n r he hzero => ?_
      cases he
      exact hret hzero

/-- A step of the sending thread keeps the invariant. -/
theorem senderStep_verdictInv (hs : VerdictInv s) : VerdictInv (senderStep s) := by
  have hinv := hs.sender
  by_cases hfinish : ∃ ops result,s.sender=.finish ops result
  · obtain ⟨ops,result,hpc⟩ := hfinish
    exact senderFinish_verdictInv hs hpc
  unfold senderStep
  cases hpc : s.sender with
  | idle => exact hs
  | entry p =>
    rw [hpc] at hinv
    dsimp only
    split
    · rename_i hfree
      exact senderAcquire_verdictInv hs hfree id hinv
    · exact hs
  | drain p =>
    rw [hpc] at hinv
    have hheld := (hs.senderHeld hpc trivial).1
    dsimp only
    split
    · have hquiet := quiet_taken s (.drain p)
      exact verdictInv_of_sender hs hquiet rfl rfl (fun _ => hheld) (fun h => h)
        (hquiet.senderInv hinv) fun h => h.elim
    · rename_i hdone
      exact verdictInv_of_sender hs (.of_eq rfl rfl rfl rfl rfl rfl rfl) rfl rfl (fun _ => hheld)
        (fun h => h) ⟨hinv,Bool.eq_false_iff.mpr hdone,.config⟩ fun h => h.elim
  | start p ops =>
    cases ops with
    | cons op ops => exact senderStart_verdictInv hs hpc
    | nil =>
      rw [hpc] at hinv
      obtain ⟨hcall,hdone,hstart⟩ := hinv
      have hirq := (hs.senderHeld hpc trivial).2
      have hquiet : Quiet s {s with lock := none,sender := .take} :=
        .of_eq rfl rfl rfl rfl rfl rfl rfl
      have hfresh : Fresh s := by
        cases hstart with
        | release fresh => exact fresh
      exact hquiet.verdictInv hs hs.other (fun h => h.elim) (fun h => absurd h hirq)
        ⟨hquiet.fresh hfresh,fun h => absurd h (Bool.eq_false_iff.mp hdone)⟩
        (irqInv_of_unlocked _ hirq)
  | take =>
    rw [hpc] at hinv
    have hawait : Awaiting s.sender := by
      rw [hpc]
      trivial
    dsimp only
    split
    · rename_i hdone
      have hquiet := quiet_taken s (.relock true)
      exact verdictInv_of_sender hs hquiet rfl rfl (fun h => h.elim) (fun h => h)
        ⟨hquiet.fresh hinv.1,fun _ => hquiet.goodStatus (hinv.2 hdone)⟩ fun _ => hawait
    · have hquiet : Quiet s {s with sender := .waiting} := .of_eq rfl rfl rfl rfl rfl rfl rfl
      exact verdictInv_of_sender hs hquiet rfl rfl (fun h => h.elim) (fun h => h)
        (hquiet.fresh hinv.1) fun _ => hawait
  | waiting => exact hs
  | relock given =>
    rw [hpc] at hinv
    dsimp only
    split
    · rename_i hfree
      exact senderAcquire_verdictInv hs hfree id ⟨sendFinish_noWrite _,acked_of_verdict hinv⟩
    · exact hs
  | finish ops result => exact absurd ⟨ops,result,hpc⟩ hfinish

end Sender

section Interrupt

variable {s : Driver}

/-- A quiet move of the interrupt thread keeps the invariant, given its part. -/
theorem verdictInv_of_irq {t : Driver} (hs : VerdictInv s) (h : Quiet s t)
    (hother : t.other=s.other) (hsender : t.sender=s.sender)
    (hlock : s.lock=some .sender → t.lock=some .sender)
    (hirqLock : IrqLocked t.irq → t.lock=some .irq) (hirq : IrqInv t t.irq) : VerdictInv t := by
  refine h.verdictInv hs ?_ ?_ hirqLock ?_ hirq
  · rw [hother]
    exact hs.other
  · rw [hsender]
    exact fun hlocked => hlock (hs.senderLock hlocked)
  · rw [hsender]
    exact h.senderInv hs.sender

/-- A status that has just been read tells of the call under way. -/
theorem freshStatus_read (hs : VerdictInv s) : FreshStatus s s.radio.chip.status := by
  intro hawait hds
  have hfresh : Fresh s := by
    have hinv := hs.sender
    cases hpc : s.sender with
    | take =>
      rw [hpc] at hinv
      exact hinv.1
    | waiting =>
      rw [hpc] at hinv
      exact hinv
    | relock given =>
      rw [hpc] at hinv
      exact hinv.1
    | _ =>
      rw [hpc] at hawait
      exact hawait.elim
  exact hfresh.flag (status_txDs hds)

/-- The interrupt thread's part after a check follows from the status alone. -/
theorem irqInv_afterTxCheck {status : Byte} (h : FreshStatus s status) (last : Bool) :
    IrqInv s (afterTxCheck status last) := by
  cases last with
  | true => trivial
  | false => exact h

/-- The status that the interrupt thread publishes is good for a sending thread
that waits. -/
theorem good_of_fresh {t : Driver} {status : Byte} (h : FreshStatus s status)
    (hflags : status &&& txFlags≠0) (hawait : Awaiting s.sender) (hlast : t.lastStatus=status)
    (hcalls : t.calls=s.calls) (hlog : t.log=s.log) : GoodStatus t := by
  intro hmax
  rw [hlast] at hmax
  rw [hcalls,hlog]
  exact h hawait (txFlags_cases hflags hmax)

/-- The part of a sending thread without the lock holds of a published status
that is good for a thread that waits. -/
theorem SenderInv.of_good {t : Driver} {pc : SenderPc} (hs : SenderInv s pc)
    (hfree : ¬SenderLocked pc) (hradio : t.radio=s.radio) (hcalls : t.calls=s.calls)
    (hlog : t.log=s.log) (hgood : Awaiting pc → GoodStatus t) : SenderInv t pc := by
  have hfresh : Fresh s → Fresh t := fun h => by
    refine ⟨?_,?_⟩
    · rw [hradio,hcalls,hlog]
      exact h.flag
    · rw [hradio,hcalls]
      exact h.fifo
  cases pc with
  | idle => trivial
  | entry p => exact hs.trans hcalls.symm
  | take => exact ⟨hfresh hs.1,fun _ => hgood trivial⟩
  | waiting => exact hfresh hs
  | relock given => exact ⟨hfresh hs.1,fun _ => hgood trivial⟩
  | _ => exact absurd trivial hfree

/-- The sending thread is without the lock while the interrupt thread has it. -/
theorem VerdictInv.not_senderLocked (hs : VerdictInv s) (hheld : s.lock=some .irq) :
    ¬SenderLocked s.sender := fun h => by
  have hlock := hs.senderLock h
  rw [hheld] at hlock
  exact nomatch hlock

/-- The publishing of a status keeps the invariant. -/
theorem publish_verdictInv (hs : VerdictInv s) {status : Byte} {last : Bool}
    (hpc : s.irq=.txCheck status last) (hflags : status &&& txFlags≠0) :
    VerdictInv {s with
      lastStatus := status
      irq := .txObserve status last} := by
  have hfresh : FreshStatus s status := by
    have hirq := hs.irq
    rw [hpc] at hirq
    exact hirq
  have hheld : s.lock=some .irq := hs.irqLock (by rw [hpc]; trivial)
  have hsender := hs.sender.of_good (hs.not_senderLocked hheld) (t := {s with
    lastStatus := status
    irq := .txObserve status last}) rfl rfl rfl
      fun hawait => good_of_fresh hfresh hflags hawait rfl rfl rfl
  exact ⟨hs.supplied,hs.written,hs.results,hs.other,hs.senderLock,fun _ => hheld,hsender,
    ⟨hfresh,rfl,hflags⟩⟩

/-- The giving of the semaphore keeps the invariant: whoever takes it finds a
status of this call. -/
theorem give_verdictInv (hs : VerdictInv s) {status : Byte} {last : Bool}
    (hpc : s.irq=.txGive status last) :
    VerdictInv {giveTxDone s with irq := afterTxCheck status last} := by
  have hinv := hs.irq
  rw [hpc] at hinv
  obtain ⟨hfresh,hlast,hflags⟩ := hinv
  have hheld : s.lock=some .irq := hs.irqLock (by rw [hpc]; trivial)
  unfold giveTxDone
  split
  · rename_i hwaiting
    have hsender := hs.sender
    rw [hwaiting] at hsender
    have hawait : Awaiting s.sender := by
      rw [hwaiting]
      trivial
    have hgood : GoodStatus s := good_of_fresh hfresh hflags hawait hlast rfl rfl
    have hquiet : Quiet s {s with
        sender := .relock true
        irq := afterTxCheck status last} := .of_eq rfl rfl rfl rfl rfl rfl rfl
    exact hquiet.verdictInv hs hs.other (fun h => h.elim) (fun _ => hheld)
      ⟨hquiet.fresh hsender,fun _ => hquiet.goodStatus hgood⟩
      (hquiet.irqInv (fun _ => hawait) (irqInv_afterTxCheck hfresh last))
  · have hsender := hs.sender.of_good (hs.not_senderLocked hheld) (t := {s with
      txDone := true
      irq := afterTxCheck status last}) rfl rfl rfl
        fun hawait => good_of_fresh hfresh hflags hawait hlast rfl rfl
    have hirq : IrqInv {s with
        txDone := true
        irq := afterTxCheck status last} (afterTxCheck status last) :=
      (irqInv_afterTxCheck hfresh last).mono rfl fun hawait => ⟨hawait,fun h => h⟩
    exact ⟨hs.supplied,hs.written,hs.results,hs.other,hs.senderLock,fun _ => hheld,hsender,hirq⟩

/-- An access of the interrupt thread without a writing keeps the invariant,
given the thread's part at its next place. -/
theorem irqAccess_verdictInv (hs : VerdictInv s) {op : DriverOp} (hno : NoWrite op) {pc : IrqPc}
    (hheld : s.lock=some .irq) (hpc : IrqInv s pc) :
    VerdictInv {s.access op with irq := pc} := by
  have hquiet : Quiet s {s.access op with irq := pc} :=
    (access_quiet s hno).trans_eq rfl rfl rfl rfl rfl
  exact verdictInv_of_irq hs hquiet rfl rfl (fun h => h) (fun _ => hheld)
    (hquiet.irqInv (fun h => h) hpc)

/-- A move of the interrupt thread that keeps the lock keeps the invariant, given
the thread's part at its next place. -/
theorem irqMove_verdictInv (hs : VerdictInv s) {pc : IrqPc} (hheld : s.lock=some .irq)
    (hpc : IrqInv s pc) : VerdictInv {s with irq := pc} := by
  have hquiet : Quiet s {s with irq := pc} := .of_eq rfl rfl rfl rfl rfl rfl rfl
  exact verdictInv_of_irq hs hquiet rfl rfl (fun h => h) (fun _ => hheld)
    (hquiet.irqInv (fun h => h) hpc)

/-- Taking the lock keeps the invariant. -/
theorem irqAcquire_verdictInv (hs : VerdictInv s) {pc : IrqPc} (hfree : s.lock=none)
    (hpc : IrqInv s pc) : VerdictInv {s with lock := some .irq,irq := pc} := by
  have hnot : s.lock≠some .sender := by
    rw [hfree]
    decide
  have hquiet : Quiet s {s with lock := some .irq,irq := pc} :=
    .of_eq rfl rfl rfl rfl rfl rfl rfl
  exact verdictInv_of_irq hs hquiet rfl rfl (fun h => absurd h hnot) (fun _ => rfl)
    (hquiet.irqInv (fun h => h) hpc)

/-- Giving the lock back keeps the invariant. -/
theorem irqRelease_verdictInv (hs : VerdictInv s) {pc : IrqPc} (hheld : s.lock=some .irq)
    (hfree : ¬IrqLocked pc) : VerdictInv {s with lock := none,irq := pc} := by
  have hnot : s.lock≠some .sender := by
    rw [hheld]
    decide
  exact verdictInv_of_irq hs (.of_eq rfl rfl rfl rfl rfl rfl rfl) rfl rfl
    (fun h => absurd h hnot) (fun h => absurd h hfree) (irqInv_of_unlocked _ hfree)

/-- The interrupt thread holds the lock at its locked places. -/
theorem VerdictInv.irqHeld (hs : VerdictInv s) {pc : IrqPc} (hpc : s.irq=pc)
    (hlocked : IrqLocked pc) : s.lock=some .irq :=
  hs.irqLock (by rw [hpc]; exact hlocked)

/-- A step of the interrupt thread keeps the invariant. -/
theorem irqStep_verdictInv (cfg : Nrf24Config) (hs : VerdictInv s) :
    VerdictInv (irqStep cfg s) := by
  have hinv := hs.irq
  unfold irqStep
  cases hpc : s.irq with
  | idle =>
    dsimp only
    split
    · exact verdictInv_of_irq hs (.of_eq rfl rfl rfl rfl rfl rfl rfl) rfl rfl (fun h => h)
        (fun h => h.elim) trivial
    · exact hs
  | lock =>
    dsimp only
    split
    · rename_i hfree
      exact irqAcquire_verdictInv hs hfree trivial
    · exact hs
  | readStatus => exact irqMove_verdictInv hs (hs.irqHeld hpc trivial) (freshStatus_read hs)
  | txCheck status last =>
    rw [hpc] at hinv
    dsimp only
    split
    · rename_i hflags
      exact publish_verdictInv hs hpc hflags
    · exact irqMove_verdictInv hs (hs.irqHeld hpc trivial) (irqInv_afterTxCheck hinv last)
  | txObserve status last =>
    rw [hpc] at hinv
    have hquiet : Quiet s {s with
        lastObserveTx := s.radio.chip.reg regObserveTx
        irq := .txClear status last} := .of_eq rfl rfl rfl rfl rfl rfl rfl
    have hpart : IrqInv s (.txClear status last) := hinv
    exact verdictInv_of_irq hs hquiet rfl rfl (fun h => h) (fun _ => hs.irqHeld hpc trivial)
      (hquiet.irqInv (fun h => h) hpart)
  | txClear status last =>
    rw [hpc] at hinv
    have hpart : IrqInv s (.txGive status last) := hinv
    exact irqAccess_verdictInv hs (noWrite_writeReg _ _) (hs.irqHeld hpc trivial) hpart
  | txGive status last => exact give_verdictInv hs hpc
  | rxLoop status =>
    rw [hpc] at hinv
    have hpart : IrqInv s (.txCheck status true) := hinv
    dsimp only
    split
    · exact irqMove_verdictInv hs (hs.irqHeld hpc trivial) trivial
    · exact irqMove_verdictInv hs (hs.irqHeld hpc trivial) hpart
  | rxWidth =>
    have hheld := hs.irqHeld hpc trivial
    dsimp only
    split
    · split
      · exact irqAccess_verdictInv hs noWrite_flushRx hheld trivial
      · exact irqMove_verdictInv hs hheld trivial
    · exact irqMove_verdictInv hs hheld trivial
  | rxPayload wid =>
    exact verdictInv_of_irq hs (.of_eq rfl rfl rfl rfl rfl rfl rfl) rfl rfl (fun h => h)
      (fun _ => hs.irqHeld hpc trivial) trivial
  | rxFlush buf =>
    exact irqAccess_verdictInv hs noWrite_flushRx (hs.irqHeld hpc trivial) trivial
  | rxClear buf =>
    refine irqAccess_verdictInv hs (noWrite_writeReg _ _) (hs.irqHeld hpc trivial) ?_
    split <;> trivial
  | rxUnlock buf => exact irqRelease_verdictInv hs (hs.irqHeld hpc trivial) id
  | deliver buf =>
    exact verdictInv_of_irq hs (.of_eq rfl rfl rfl rfl rfl rfl rfl) rfl rfl (fun h => h)
      (fun h => h.elim) trivial
  | relock =>
    dsimp only
    split
    · rename_i hfree
      exact irqAcquire_verdictInv hs hfree trivial
    · exact hs
  | reread => exact irqMove_verdictInv hs (hs.irqHeld hpc trivial) (freshStatus_read hs)
  | unlock => exact irqRelease_verdictInv hs (hs.irqHeld hpc trivial) id

end Interrupt

section Runs

variable (cfg : Nrf24Config)

/-- Every event keeps the invariant. -/
theorem driverNext_verdictInv (s : Driver) (e : DriverEvent) (hs : VerdictInv s) :
    VerdictInv (driverNext cfg s e) := by
  cases e with
  | send bytes => exact beginSend_verdictInv hs bytes
  | senderStep => exact senderStep_verdictInv hs
  | timeout => exact senderTimeout_verdictInv hs
  | irqStep => exact irqStep_verdictInv cfg hs
  | configure c => exact beginOther_verdictInv hs (applyConfigWith_noWrite _ _)
  | setMode mode => exact beginOther_verdictInv hs (setModeLocked_noWrite mode)
  | otherStep => exact otherStep_verdictInv hs
  | arrival bytes => exact frameArrives_verdictInv cfg hs bytes
  | txDs => exact raiseTxDs_verdictInv hs
  | maxRt => exact raiseMaxRt_verdictInv hs
  | observeTx v => exact setObserveTx_verdictInv hs v

/-- Booting programs the chip with empty FIFOs. -/
theorem boot_verdictInv : VerdictInv (.boot cfg) := by
  have hsupplied : (unprogrammed.run (applyConfigWith cfg true)).supplied=true :=
    (run_lines unprogrammed (applyConfigWith cfg true)).2.2.2
  refine ⟨hsupplied,fun p hp => ?_,fun pre n r post h => ?_,fun op h => absurd h List.not_mem_nil,
    fun h => h.elim,fun h => h.elim,trivial,trivial⟩
  · have hmem := run_txFifo unprogrammed (applyConfigWith_noWrite cfg true) p hp
    exact absurd hmem List.not_mem_nil
  · have hne : pre++.returned n r::post≠[] := List.append_ne_nil_of_right_ne_nil _
      (List.cons_ne_nil _ _)
    exact absurd h.symm hne

/-- In every run of the driver's threads with the chip, a call that returns zero
had its own payload acknowledged by the chip, after it was written and before
the return. -/
theorem nrf24Send_verdict (es : List DriverEvent) {pre post : List TxEvent} {n : ℕ}
    {r : SendResult}
    (hlog : (finalState (driverNext cfg) (.boot cfg) es).log=pre++.returned n r::post)
    (hret : r.ret=0) :
    ∃ p a b c,p.call=n ∧ pre=a++TxEvent.wrote p::b++.raised p::c :=
  (finalState_preserves (driverNext_verdictInv cfg) (boot_verdictInv cfg) es).results
    pre n r post hlog hret

/-- The chip acknowledges the payload of the first call, the interrupt thread
gives the semaphore twice, and the call returns zero. -/
theorem nrf24Send_verdict_first :
    ∃ p a b c,p.call=1 ∧
      [TxEvent.wrote ⟨1,[7]⟩,.raised ⟨1,[7]⟩]=a++TxEvent.wrote p::b++.raised p::c :=
  @nrf24Send_verdict sampleConfig
    (.send [7]::List.replicate 12 .senderStep++.txDs::List.replicate 13 .irqStep++
      List.replicate 6 .senderStep) _ [] 1 ⟨0,true,0⟩ rfl rfl

end Runs

end ZephyrApp.Nrf24Verdict

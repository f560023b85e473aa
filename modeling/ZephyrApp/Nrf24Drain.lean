import ZephyrApp.WhileLoop
import ZephyrApp.Nrf24Threads

/-!
# The receive loop on a bus that may fail

The interrupt thread empties the radio as long as its copy of `STATUS` shows a frame.
The copy is renewed at the end of each pass by a read whose result nobody looks at: when
the transfer fails the old value stays. The thread's transfers are numbered, and each of
them succeeds with an answer or fails.
-/

namespace ZephyrApp.Nrf24Drain

open MachineBytes Nrf24Chip WhileLoop
open Nrf24Modes (txFlags)
open Nrf24Threads (fixedWidth)

section Source

/-- For each transfer of the thread the bytes that it receives, none when it fails. -/
abbrev Spi := ℕ → Option (ℕ → Byte)

/-- The interrupt thread and the data it keeps. -/
structure IrqState where
  /-- The local `status`. -/
  status : Byte
  /-- The number of transfers so far. -/
  transfers : ℕ
  /-- `last_status`. -/
  lastStatus : Byte
  /-- `last_observe_tx`. -/
  lastObserveTx : Byte
  /-- How often `tx_done_sem` was given. -/
  txDone : ℕ
  /-- The frames passed on. -/
  delivered : List (List Byte)
  /-- The thread holds the lock. -/
  locked : Bool
  /-- How often it released the lock. -/
  unlocks : ℕ

/-- `reg_read_locked`: the value keeps what it was when the transfer fails. -/
def regReadLocked (spi : Spi) (n : ℕ) (val : Byte) : Byte :=
  match spi n with
  | none => val
  | some rx => rx 1

/-- `read_rx_payload_locked` for the number of a transfer: the length that
`fetch_rx_payload_locked` returns, the bytes, and the number of the next transfer. -/
def readRxPayload (spi : Spi) (plen n : ℕ) : ℕ×List Byte×ℕ :=
  match spi n with
  | none => (0,[],n+1)
  | some rx => (plen,(List.range plen).map fun i => rx (i+1),n+1)

/-- `fetch_rx_payload_locked` from the number of a transfer on. -/
def fetchRxPayloadLocked (cfg : Nrf24Config) (spi : Spi) (n : ℕ) : ℕ×List Byte×ℕ :=
  if parsePayloadMode cfg.payloadMode=.dynamic then
    match spi n with
    | none => (0,[],n+1)
    | some rx =>
      if nrf24MaxPayload < (rx 1).toNat then (0,[],n+2)
      else readRxPayload spi (rx 1).toNat (n+1)
  else readRxPayload spi (fixedWidth cfg) n

/-- The handling of `TX_DS` and `MAX_RT`. -/
def txCheck (spi : Spi) (s : IrqState) : IrqState :=
  if s.status &&& txFlags≠0 then
    {s with
      lastStatus := s.status
      lastObserveTx := regReadLocked spi s.transfers s.lastObserveTx
      transfers := s.transfers+2
      txDone := s.txDone+1}
  else s

/-- `status & BIT(RX_DR)`. -/
def rxReady (status : Byte) : Bool := decide (status &&& bit rxDrBit≠0)

/-- One pass of the receive loop: the payload, `FLUSH_RX`, the flag, the delivery
without the lock, and `STATUS` again. -/
def drainPass (cfg : Nrf24Config) (spi : Spi) (s : IrqState) : IrqState :=
  match fetchRxPayloadLocked cfg spi s.transfers with
  | (plen,buf,n) =>
    let s :=
      if 0 < plen then {s with
        delivered := s.delivered++[buf]
        unlocks := s.unlocks+1}
      else s
    {s with
      status := regReadLocked spi (n+2) s.status
      transfers := n+3}

/-- The thread takes the lock and reads `STATUS` into a local that holds anything. -/
def irqEnter (spi : Spi) (status : Byte) (s : IrqState) : IrqState :=
  {s with
    locked := true
    status := regReadLocked spi s.transfers status
    transfers := s.transfers+1}

/-- `nrf24_irq_thread` from taking the lock to releasing it, with at most so many tests
of the loop. -/
def irqWork (cfg : Nrf24Config) (spi : Spi) (fuel : ℕ) (status : Byte) (s : IrqState) :
    Option IrqState :=
  (whileLoop (fun s => rxReady s.status) (drainPass cfg spi) fuel
    (txCheck spi (irqEnter spi status s))).map fun s =>
      {txCheck spi s with
        locked := false
        unlocks := (txCheck spi s).unlocks+1}

end Source

section Passes

variable (cfg : Nrf24Config) (spi : Spi)

/-- The number of transfers of a pass that starts with this one. -/
def passLength (n : ℕ) : ℕ :=
  if parsePayloadMode cfg.payloadMode=.dynamic ∧ spi n≠none then 5 else 4

/-- The first transfer of a later pass. -/
def passStart (n k : ℕ) : ℕ := (fun n => n+passLength cfg spi n)^[k] n

/-- The last transfer of a pass, which reads `STATUS`. -/
def statusRead (n k : ℕ) : ℕ := passStart cfg spi n (k+1)-1

/-- The transfer succeeds and shows no frame. -/
def ReportsClear (n : ℕ) : Prop := ∃ rx,spi n=some rx ∧ rxReady (rx 1)=false

variable {cfg spi}

/-- A fetch makes all transfers of its pass but three. -/
theorem fetchRxPayloadLocked_next (n : ℕ) :
    (fetchRxPayloadLocked cfg spi n).2.2+3=n+passLength cfg spi n := by
  have hread : ∀ plen m,(readRxPayload spi plen m).2.2=m+1 := by
    intro plen m
    rw [readRxPayload]
    split <;> rfl
  rw [fetchRxPayloadLocked,passLength]
  by_cases hmode : parsePayloadMode cfg.payloadMode=.dynamic
  · rw [if_pos hmode]
    cases hwid : spi n with
    | none =>
      rw [if_neg fun h => h.2 rfl]
    | some rx =>
      rw [if_pos ⟨hmode,Option.some_ne_none rx⟩]
      dsimp only
      split
      · rfl
      · rw [hread]
  · rw [if_neg hmode,if_neg fun h => hmode h.1,hread]

/-- A pass makes its transfers, and the last of them gives the copy of `STATUS`. -/
theorem drainPass_eq (s : IrqState) :
    (drainPass cfg spi s).transfers=s.transfers+passLength cfg spi s.transfers ∧
      (drainPass cfg spi s).status=
        regReadLocked spi (s.transfers+passLength cfg spi s.transfers-1) s.status := by
  have hnext : (fetchRxPayloadLocked cfg spi s.transfers).2.2+3=
      s.transfers+passLength cfg spi s.transfers := fetchRxPayloadLocked_next s.transfers
  rw [drainPass]
  generalize fetchRxPayloadLocked cfg spi s.transfers=fetched at hnext ⊢
  obtain ⟨plen,buf,n⟩ := fetched
  dsimp only at hnext ⊢
  rw [←hnext]
  refine ⟨rfl,?_⟩
  split <;> rfl

variable (cfg spi)

/-- The start of the next pass. -/
theorem passStart_succ (n k : ℕ) :
    passStart cfg spi n (k+1)=
      passStart cfg spi n k+passLength cfg spi (passStart cfg spi n k) :=
  Function.iterate_succ_apply' _ k n

/-- Every pass makes at least four transfers. -/
theorem passStart_ge (n k : ℕ) : n+4*k≤passStart cfg spi n k := by
  induction k with
  | zero => exact le_rfl
  | succ k ih =>
    have hlength : 4≤passLength cfg spi (passStart cfg spi n k) := by
      rw [passLength]
      split <;> omega
    rw [passStart_succ]
    omega

/-- The read at the end of a pass comes after the transfers of the passes before. -/
theorem statusRead_ge (n k : ℕ) : n+4*k+3 ≤ statusRead cfg spi n k := by
  have hstart := passStart_ge cfg spi n (k+1)
  rw [statusRead]
  omega

/-- Some passes later the thread has made their transfers. -/
theorem transfers_after (s : IrqState) (k : ℕ) :
    ((drainPass cfg spi)^[k] s).transfers=passStart cfg spi s.transfers k := by
  induction k with
  | zero => rfl
  | succ k ih => rw [Function.iterate_succ_apply',(drainPass_eq _).1,ih,passStart_succ]

/-- After a pass the copy of `STATUS` is what the last transfer of the pass showed, if
that succeeded. -/
theorem status_after_succ (s : IrqState) (k : ℕ) :
    ((drainPass cfg spi)^[k+1] s).status=
      regReadLocked spi (statusRead cfg spi s.transfers k) ((drainPass cfg spi)^[k] s).status := by
  rw [Function.iterate_succ_apply',(drainPass_eq _).2,transfers_after,statusRead,passStart_succ]

/-- The copy of `STATUS` shows no frame after some pass exactly if it did at first or a
read at the end of a pass succeeded and showed none. -/
theorem status_clears_iff (s : IrqState) :
    (∃ k,rxReady ((drainPass cfg spi)^[k] s).status=false) ↔
      rxReady s.status=false ∨ ∃ k,ReportsClear spi (statusRead cfg spi s.transfers k) := by
  constructor
  · rintro ⟨k,hk⟩
    induction k with
    | zero => exact Or.inl hk
    | succ k ih =>
      rw [status_after_succ,regReadLocked] at hk
      cases hread : spi (statusRead cfg spi s.transfers k) with
      | none =>
        rw [hread] at hk
        exact ih hk
      | some rx =>
        rw [hread] at hk
        exact Or.inr ⟨k,rx,hread,hk⟩
  · rintro (hclear | ⟨k,rx,hread,hclear⟩)
    · exact ⟨0,hclear⟩
    · refine ⟨k+1,?_⟩
      rw [status_after_succ,regReadLocked,hread]
      exact hclear

end Passes

section Outcome

variable (cfg : Nrf24Config) (spi : Spi) (status : Byte) (s : IrqState)

/-- The thread comes to the end of its work, where it releases the lock. -/
def Returns : Prop := ∃ fuel out,irqWork cfg spi fuel status s=some out ∧ out.locked=false

/-- The copy of `STATUS` before the loop. -/
def firstStatus : Byte := regReadLocked spi s.transfers status

/-- The first transfer of the loop: the read of `STATUS` comes before it, and for a flag
of the sender two transfers more. -/
def loopStart : ℕ :=
  if firstStatus spi status s &&& txFlags≠0 then s.transfers+3 else s.transfers+1

/-- What the loop starts with. -/
theorem txCheck_irqEnter :
    (txCheck spi (irqEnter spi status s)).status=firstStatus spi status s ∧
      (txCheck spi (irqEnter spi status s)).transfers=loopStart spi status s := by
  rw [txCheck,loopStart]
  split
  · rename_i hflags
    have hsame : firstStatus spi status s &&& txFlags≠0 := hflags
    rw [if_pos hsame]
    exact ⟨rfl,rfl⟩
  · rename_i hflags
    have hsame : ¬firstStatus spi status s &&& txFlags≠0 := hflags
    rw [if_neg hsame]
    exact ⟨rfl,rfl⟩

/-- The thread comes to the end and releases the lock exactly if its first copy of
`STATUS` shows no frame or the read at the end of some pass succeeds and shows none. -/
theorem irqWork_returns_iff :
    Returns cfg spi status s ↔
      rxReady (firstStatus spi status s)=false ∨
        ∃ k,ReportsClear spi (statusRead cfg spi (loopStart spi status s) k) := by
  obtain ⟨hstatus,htransfers⟩ := txCheck_irqEnter spi status s
  have hloop : (∃ fuel t,whileLoop (fun s => rxReady s.status) (drainPass cfg spi) fuel
      (txCheck spi (irqEnter spi status s))=some t) ↔
        ∃ k,rxReady ((drainPass cfg spi)^[k] (txCheck spi (irqEnter spi status s))).status=false :=
    whileLoop_returns_iff
  rw [←hstatus,←htransfers,←status_clears_iff,←hloop]
  constructor
  · rintro ⟨fuel,out,hwork,-⟩
    obtain ⟨t,hloop,-⟩ := Option.map_eq_some_iff.mp hwork
    exact ⟨fuel,t,hloop⟩
  · rintro ⟨fuel,t,hloop⟩
    exact ⟨fuel,_,Option.map_eq_some_iff.mpr ⟨t,hloop,rfl⟩,rfl⟩

variable {cfg spi status s}

/-- A chip that from some transfer on reports no frame lets the thread come to the
end. -/
theorem returns_of_clear {N : ℕ} (h : ∀ n≥N,ReportsClear spi n) : Returns cfg spi status s := by
  refine (irqWork_returns_iff cfg spi status s).mpr (Or.inr ⟨N,h _ ?_⟩)
  have hfar := statusRead_ge cfg spi (loopStart spi status s) N
  omega

/-- A bus that fails from some transfer on lets the thread come to the end exactly if
the copy of `STATUS` shows no frame at first or after a pass that ends before. -/
theorem returns_of_dead_iff {N : ℕ} (h : ∀ n≥N,spi n=none) :
    Returns cfg spi status s ↔
      rxReady (firstStatus spi status s)=false ∨
        ∃ k,statusRead cfg spi (loopStart spi status s) k < N ∧
          ReportsClear spi (statusRead cfg spi (loopStart spi status s) k) := by
  rw [irqWork_returns_iff]
  refine or_congr_right (exists_congr fun k => ⟨fun hclear => ⟨?_,hclear⟩,fun hclear => hclear.2⟩)
  obtain ⟨rx,hread,-⟩ := hclear
  by_contra hlate
  rw [h _ (not_lt.mp hlate)] at hread
  nomatch hread

/-- On a dead bus a pass of the loop does nothing and never lets go of the lock. -/
theorem drainPass_dead (h : ∀ n≥s.transfers,spi n=none) :
    (drainPass cfg spi s).status=s.status ∧ (drainPass cfg spi s).locked=s.locked ∧
      (drainPass cfg spi s).unlocks=s.unlocks ∧
      (drainPass cfg spi s).delivered=s.delivered := by
  have hfetch : ∃ n≥s.transfers,fetchRxPayloadLocked cfg spi s.transfers=(0,[],n) := by
    have hfirst : spi s.transfers=none := h _ le_rfl
    refine ⟨s.transfers+1,by omega,?_⟩
    rw [fetchRxPayloadLocked,readRxPayload,hfirst]
    split <;> rfl
  obtain ⟨n,hn,hfetch⟩ := hfetch
  rw [drainPass,hfetch]
  dsimp only
  rw [if_neg (lt_irrefl 0),regReadLocked,h (n+2) (by omega)]
  exact ⟨rfl,rfl,rfl,rfl⟩

/-- However many passes the loop makes on a dead bus, it stands where it stood, with the
lock. -/
theorem spins_on_dead_bus (h : ∀ n≥s.transfers,spi n=none) (k : ℕ) :
    ((drainPass cfg spi)^[k] s).status=s.status ∧
      ((drainPass cfg spi)^[k] s).locked=s.locked ∧
      ((drainPass cfg spi)^[k] s).unlocks=s.unlocks ∧
      ((drainPass cfg spi)^[k] s).delivered=s.delivered := by
  induction k generalizing s with
  | zero => exact ⟨rfl,rfl,rfl,rfl⟩
  | succ k ih =>
    have hlater : ∀ n≥(drainPass cfg spi s).transfers,spi n=none := by
      intro n hn
      rw [(drainPass_eq s).1] at hn
      exact h n (by omega)
    have hpass : (drainPass cfg spi s).status=s.status ∧ (drainPass cfg spi s).locked=s.locked ∧
        (drainPass cfg spi s).unlocks=s.unlocks ∧
        (drainPass cfg spi s).delivered=s.delivered := drainPass_dead h
    obtain ⟨hstatus,hlocked,hunlocks,hdelivered⟩ := ih hlater
    rw [Function.iterate_succ_apply,hstatus,hlocked,hunlocks,hdelivered]
    exact hpass

/-- The thread before its work, all zero. -/
def IrqState.start : IrqState := ⟨0,0,0,0,0,[],false,0⟩

/-- `STATUS` is read once with the flag of a frame set; after that no transfer
succeeds. -/
def frameThenDead : Spi := fun n => if n=0 then some fun _ => bit rxDrBit else none

/-- The settings of the handler's radio. -/
def dynamicConfig : Nrf24Config :=
  ⟨true,1,"1m","0dbm",5,"dynamic",32,"2-byte",0x50,9,List.replicate 5 0xE7⟩

/-- The bus dies after the read that showed a frame: the thread never comes to the end,
and after any number of passes it holds the lock, which it has not released once. -/
theorem dead_bus_never_returns :
    (∀ n≥1,frameThenDead n=none) ∧ ¬Returns dynamicConfig frameThenDead 0 .start ∧
      ∀ k,((drainPass dynamicConfig frameThenDead)^[k]
          (txCheck frameThenDead (irqEnter frameThenDead 0 .start))).locked=true ∧
        ((drainPass dynamicConfig frameThenDead)^[k]
          (txCheck frameThenDead (irqEnter frameThenDead 0 .start))).unlocks=0 := by
  have hdead : ∀ n≥1,frameThenDead n=none := fun n hn => if_neg (by omega)
  have hready : rxReady (firstStatus frameThenDead 0 .start)=true := by decide
  have hstart : (txCheck frameThenDead (irqEnter frameThenDead 0 .start)).transfers=1 := by decide
  refine ⟨hdead,fun hreturns => ?_,fun k => ?_⟩
  · rcases (returns_of_dead_iff hdead).mp hreturns with hclear | ⟨k,hearly,-⟩
    · exact absurd (hready.symm.trans hclear) (by decide)
    · have hfar := statusRead_ge dynamicConfig frameThenDead (loopStart frameThenDead 0 .start) k
      omega
  · have hlater : ∀ n≥(txCheck frameThenDead (irqEnter frameThenDead 0 .start)).transfers,
        frameThenDead n=none := by
      rw [hstart]
      exact hdead
    obtain ⟨-,hlocked,hunlocks,-⟩ := @spins_on_dead_bus dynamicConfig frameThenDead _ hlater k
    rw [hlocked,hunlocks]
    exact ⟨by decide,by decide⟩

end Outcome

end ZephyrApp.Nrf24Drain

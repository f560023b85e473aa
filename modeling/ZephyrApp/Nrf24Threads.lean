import ZephyrApp.Nrf24Modes

/-!
# The threads of the radio driver

The sending thread, the driver's interrupt thread and any other thread that
programs the chip or sets its mode, with the chip between them. Threads take
turns at every access; the driver's lock is held from one access to the next.
The interrupt thread wakes on an edge or on its poll, so that it may start a
pass at any time. The chip raises its flags and receives at any time.
-/

namespace ZephyrApp.Nrf24Threads

open MachineBytes EventRuns Nrf24Chip Nrf24Modes

/-- A thread that may hold the driver's lock. -/
inductive Thread where
  /-- The thread in `nrf24_send`. -/
  | sender
  /-- The interrupt thread. -/
  | irq
  /-- A thread in `nrf24_configure` or `nrf24_set_mode`. -/
  | other
deriving DecidableEq

/-- What `nrf24_send` returns, with `struct nrf24_tx_result`. -/
structure SendResult where
  /-- The value returned. -/
  ret : ℤ
  /-- `acked`. -/
  acked : Bool
  /-- `retransmits`. -/
  retransmits : Byte
deriving DecidableEq

/-- The value that an outcome returns: zero, `-EIO` or `-EAGAIN`. -/
def outcomeRet : SendOutcome → ℤ
  | .acked => 0
  | .maxRt => -5
  | .timeout => -11

/-- `-EINVAL`. -/
def errInval : ℤ := -22

/-- Where the sending thread is. -/
inductive SenderPc where
  /-- In no call. -/
  | idle
  /-- At the first lock. -/
  | entry (p : TxPayload)
  /-- In the loop that empties `tx_done_sem`. -/
  | drain (p : TxPayload)
  /-- In the accesses up to the trigger. -/
  | start (p : TxPayload) (ops : List DriverOp)
  /-- At the wait, the lock released. -/
  | take
  /-- Waiting for `tx_done_sem`. -/
  | waiting
  /-- At the second lock, with whether the semaphore was taken. -/
  | relock (given : Bool)
  /-- In the accesses after the wait, the result being settled. -/
  | finish (ops : List DriverOp) (result : SendResult)

/-- Where the interrupt thread is. -/
inductive IrqPc where
  /-- Waiting for an edge or the poll. -/
  | idle
  /-- At the lock. -/
  | lock
  /-- At the first reading of `STATUS`. -/
  | readStatus
  /-- At one of the two checks for a finished transmission. -/
  | txCheck (status : Byte) (last : Bool)
  /-- At the reading of `OBSERVE_TX`. -/
  | txObserve (status : Byte) (last : Bool)
  /-- At the clearing of the flags. -/
  | txClear (status : Byte) (last : Bool)
  /-- At the giving of `tx_done_sem`. -/
  | txGive (status : Byte) (last : Bool)
  /-- At the test of the reception loop. -/
  | rxLoop (status : Byte)
  /-- At the width of the payload. -/
  | rxWidth
  /-- At the reading of a payload of a width. -/
  | rxPayload (wid : ℕ)
  /-- At the flush, with the payload that was read. -/
  | rxFlush (buf : List Byte)
  /-- At the clearing of `RX_DR`. -/
  | rxClear (buf : List Byte)
  /-- At the release of the lock for a delivery. -/
  | rxUnlock (buf : List Byte)
  /-- At the delivery. -/
  | deliver (buf : List Byte)
  /-- At the lock after a delivery. -/
  | relock
  /-- At the next reading of `STATUS`. -/
  | reread
  /-- At the release of the lock. -/
  | unlock

/-- The interrupt thread holds the lock. -/
def IrqLocked : IrqPc → Prop
  | .idle => False
  | .lock => False
  | .deliver _ => False
  | .relock => False
  | _ => True

/-- What is noted of the transmissions. -/
inductive TxEvent where
  /-- A payload is written to the TX FIFO. -/
  | wrote (p : TxPayload)
  /-- The chip raises `TX_DS` for a payload. -/
  | raised (p : TxPayload)
  /-- A call returns. -/
  | returned (call : ℕ) (result : SendResult)

/-- The driver with its device and threads. -/
structure Driver where
  /-- The device. -/
  radio : Radio
  /-- The holder of the lock. -/
  lock : Option Thread
  /-- Whether `tx_done_sem` can be taken; its limit is one. -/
  txDone : Bool
  /-- `last_status`. -/
  lastStatus : Byte
  /-- `last_observe_tx`. -/
  lastObserveTx : Byte
  /-- Where the sending thread is. -/
  sender : SenderPc
  /-- Where the interrupt thread is. -/
  irq : IrqPc
  /-- The accesses left to the other thread. -/
  other : List DriverOp
  /-- The number of calls of `nrf24_send`. -/
  calls : ℕ
  /-- The payloads that have entered the RX FIFO, in order. -/
  entered : List (List Byte)
  /-- The payloads put into the message queue, in order. -/
  delivered : List (List Byte)
  /-- What has been noted of the transmissions, in order. -/
  log : List TxEvent

/-- What happens next. -/
inductive DriverEvent where
  /-- `nrf24_send` is called, if no call is under way. -/
  | send (bytes : List Byte)
  /-- The sending thread takes a step. -/
  | senderStep
  /-- The wait for `tx_done_sem` times out. -/
  | timeout
  /-- The interrupt thread takes a step. -/
  | irqStep
  /-- Another thread enters `nrf24_configure`. -/
  | configure (c : Option Nrf24Cfg)
  /-- Another thread enters `nrf24_set_mode`. -/
  | setMode (mode : Nrf24Mode)
  /-- The other thread takes a step. -/
  | otherStep
  /-- A frame arrives. -/
  | arrival (bytes : List Byte)
  /-- The chip raises `TX_DS` for the payload it sends. -/
  | txDs
  /-- The chip raises `MAX_RT`. -/
  | maxRt
  /-- The chip's retransmission counters change. -/
  | observeTx (v : Byte)

/-- The driver after `nrf24_init`. -/
def Driver.boot (cfg : Nrf24Config) : Driver :=
  ⟨nrf24Init cfg,none,false,0,0,.idle,.idle,[],0,[],[],[]⟩

section Sender

/-- What is noted of an access. -/
def opLog : DriverOp → List TxEvent
  | .writeTxPayload p => [.wrote p]
  | _ => []

/-- An access by any thread. -/
def Driver.access (s : Driver) (op : DriverOp) : Driver :=
  {s with
    radio := s.radio.access op
    log := s.log++opLog op}

/-- The outcome that the sending thread sees once it has the lock again. -/
def seenOutcome (given : Bool) (lastStatus : Byte) : SendOutcome :=
  if given=false then .timeout
  else if lastStatus &&& bit maxRtBit≠0 then .maxRt
  else .acked

/-- The result of a call for an outcome. -/
def sendResult (outcome : SendOutcome) (lastObserveTx : Byte) : SendResult :=
  ⟨outcomeRet outcome,decide (outcome=.acked),
    if outcome=.timeout then 0 else lastObserveTx &&& 0x0F⟩

/-- `nrf24_send` is entered. -/
def beginSend (s : Driver) (bytes : List Byte) : Driver :=
  match s.sender with
  | .idle =>
    if bytes.length=0 ∨ nrf24MaxPayload<bytes.length then
      {s with
        calls := s.calls+1
        log := s.log++[.returned (s.calls+1) ⟨errInval,false,0⟩]}
    else
      {s with
        calls := s.calls+1
        sender := .entry ⟨s.calls+1,bytes⟩}
  | _ => s

/-- A step of the sending thread. -/
def senderStep (s : Driver) : Driver :=
  match s.sender with
  | .idle => s
  | .entry p =>
    if s.lock=none then
      {s with
        lock := some .sender
        sender := .drain p}
    else s
  | .drain p =>
    if s.txDone then {s with txDone := false}
    else {s with sender := .start p (sendStart p)}
  | .start p (op::ops) => {s.access op with sender := .start p ops}
  | .start _ [] =>
    {s with
      lock := none
      sender := .take}
  | .take =>
    if s.txDone then
      {s with
        txDone := false
        sender := .relock true}
    else {s with sender := .waiting}
  | .waiting => s
  | .relock given =>
    if s.lock=none then
      let outcome := seenOutcome given s.lastStatus
      {s with
        lock := some .sender
        sender := .finish (sendFinish outcome) (sendResult outcome s.lastObserveTx)}
    else s
  | .finish (op::ops) result => {s.access op with sender := .finish ops result}
  | .finish [] result =>
    {s with
      lock := none
      sender := .idle
      log := s.log++[.returned s.calls result]}

/-- The wait times out. -/
def senderTimeout (s : Driver) : Driver :=
  match s.sender with
  | .waiting => {s with sender := .relock false}
  | _ => s

end Sender

section Interrupt

/-- `k_sem_give` of `tx_done_sem`: a thread that waits takes it at once. -/
def giveTxDone (s : Driver) : Driver :=
  match s.sender with
  | .waiting => {s with sender := .relock true}
  | _ => {s with txDone := true}

/-- Where the interrupt thread goes after a check. -/
def afterTxCheck (status : Byte) (last : Bool) : IrqPc := if last then .unlock else .rxLoop status

/-- The payload that the chip gives out for a width. -/
def payloadRead (fifo : List (List Byte)) (wid : ℕ) : List Byte :=
  (fifo.headD []++List.replicate wid 0).take wid

/-- The width that `fetch_rx_payload_locked` reads in the fixed mode. -/
def fixedWidth (cfg : Nrf24Config) : ℕ := min cfg.rxPayloadWidth.toNat nrf24MaxPayload

/-- A step of the interrupt thread. -/
def irqStep (cfg : Nrf24Config) (s : Driver) : Driver :=
  match s.irq with
  | .idle => if s.radio.ready then {s with irq := .lock} else s
  | .lock =>
    if s.lock=none then
      {s with
        lock := some .irq
        irq := .readStatus}
    else s
  | .readStatus => {s with irq := .txCheck s.radio.chip.status false}
  | .txCheck status last =>
    if status &&& txFlags≠0 then
      {s with
        lastStatus := status
        irq := .txObserve status last}
    else {s with irq := afterTxCheck status last}
  | .txObserve status last =>
    {s with
      lastObserveTx := s.radio.chip.reg regObserveTx
      irq := .txClear status last}
  | .txClear status last =>
    {s.access (.writeReg regStatus txFlags) with irq := .txGive status last}
  | .txGive status last => {giveTxDone s with irq := afterTxCheck status last}
  | .rxLoop status =>
    if status &&& bit rxDrBit≠0 then {s with irq := .rxWidth}
    else {s with irq := .txCheck status true}
  | .rxWidth =>
    if parsePayloadMode cfg.payloadMode=.dynamic then
      let wid := (s.radio.chip.rxFifo.headD []).length
      if nrf24MaxPayload<wid then {s.access .flushRx with irq := .rxFlush []}
      else {s with irq := .rxPayload wid}
    else {s with irq := .rxPayload (fixedWidth cfg)}
  | .rxPayload wid =>
    {s with
      radio := {s.radio with chip := {s.radio.chip with rxFifo := s.radio.chip.rxFifo.tail}}
      irq := .rxFlush (payloadRead s.radio.chip.rxFifo wid)}
  | .rxFlush buf => {s.access .flushRx with irq := .rxClear buf}
  | .rxClear buf =>
    {s.access (.writeReg regStatus (bit rxDrBit)) with
      irq := if buf=[] then .reread else .rxUnlock buf}
  | .rxUnlock buf =>
    {s with
      lock := none
      irq := .deliver buf}
  | .deliver buf =>
    {s with
      delivered := s.delivered++[buf]
      irq := .relock}
  | .relock =>
    if s.lock=none then
      {s with
        lock := some .irq
        irq := .reread}
    else s
  | .reread => {s with irq := .rxLoop s.radio.chip.status}
  | .unlock =>
    {s with
      lock := none
      irq := .idle}

end Interrupt

section Environment

/-- Another thread enters a procedure of the driver. -/
def beginOther (s : Driver) (ops : List DriverOp) : Driver :=
  if s.lock=none then
    {s with
      lock := some .other
      other := ops}
  else s

/-- A step of the other thread. -/
def otherStep (s : Driver) : Driver :=
  if s.lock=some .other then
    match s.other with
    | [] => {s with lock := none}
    | op::ops => {s.access op with other := ops}
  else s

/-- A frame that the chip takes: of one to 32 bytes, and in the fixed mode of
the width that is set. -/
def FrameTaken (cfg : Nrf24Config) (bytes : List Byte) : Prop :=
  0<bytes.length ∧ bytes.length≤nrf24MaxPayload ∧
    (parsePayloadMode cfg.payloadMode=.fixed → bytes.length=cfg.rxPayloadWidth.toNat)

instance (cfg : Nrf24Config) (bytes : List Byte) : Decidable (FrameTaken cfg bytes) :=
  inferInstanceAs (Decidable (_ ∧ _ ∧ (_ → _)))

/-- A frame arrives; it enters the RX FIFO if there is room. -/
def frameArrives (cfg : Nrf24Config) (s : Driver) (bytes : List Byte) : Driver :=
  if FrameTaken cfg bytes ∧ s.radio.chip.rxFifo.length<fifoDepth then
    {s with
      radio := {s.radio with
        chip := {s.radio.chip with
          rxFifo := s.radio.chip.rxFifo++[bytes]
          rxDr := true}}
      entered := s.entered++[bytes]}
  else s

/-- The chip raises `TX_DS` for the first payload of its TX FIFO, which leaves
the FIFO. -/
def raiseTxDs (s : Driver) : Driver :=
  match s.radio.chip.txFifo with
  | [] => s
  | p::rest =>
    {s with
      radio := {s.radio with
        chip := {s.radio.chip with
          txFifo := rest
          txDs := true}}
      log := s.log++[.raised p]}

/-- The chip raises `MAX_RT`; the payload stays in the FIFO. -/
def raiseMaxRt (s : Driver) : Driver :=
  {s with radio := {s.radio with chip := {s.radio.chip with maxRt := true}}}

/-- The chip's retransmission counters change. -/
def setObserveTx (s : Driver) (v : Byte) : Driver :=
  {s with radio := {s.radio with
    chip := {s.radio.chip with reg := Function.update s.radio.chip.reg regObserveTx v}}}

/-- One event. -/
def driverNext (cfg : Nrf24Config) (s : Driver) : DriverEvent → Driver
  | .send bytes => beginSend s bytes
  | .senderStep => senderStep s
  | .timeout => senderTimeout s
  | .irqStep => irqStep cfg s
  | .configure c =>
    beginOther s (applyConfigWith (mergeCfg cfg c) (decide (s.radio.mode=.prx)))
  | .setMode mode => beginOther s (setModeLocked mode)
  | .otherStep => otherStep s
  | .arrival bytes => frameArrives cfg s bytes
  | .txDs => raiseTxDs s
  | .maxRt => raiseMaxRt s
  | .observeTx v => setObserveTx s v

end Environment

end ZephyrApp.Nrf24Threads

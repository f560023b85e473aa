import ZephyrApp.Nrf24Link

/-!
# Concurrent senders on one radio

The sending functions of gateway and handler build and seal their frame
outside the transmit mutex, send each attempt under it and back off outside.
Any number of threads interleave their steps, and the peer opens a frame when
its transmission is acknowledged. The order of sealing fixes the counters, the
order of the successful attempts the deliveries.
-/

namespace ZephyrApp.Rf24Send

open MachineBytes CounterStream SequenceWindow EventRuns Nrf24Crypt

/-- `RF24_PAYLOAD_MAX`, the size of a radio payload. -/
def rf24PayloadMax : ℕ := 32

/-- `RF24_ID_SIZE`, the bytes of the message id. -/
def rf24IdSize : ℕ := 2

/-- `RF24_TX_RETRIES`, the attempts after the first one. -/
def rf24TxRetries : ℕ := 5

/-- The largest payload, one byte less when frames are encrypted. -/
def payloadLimit (crypt : Bool) : ℕ :=
  if crypt then rf24PayloadMax-rf24IdSize-1 else rf24PayloadMax-rf24IdSize

/-- The stack buffer of the sending functions, with whatever it held before. -/
abbrev StackBuf := {b : List Byte // b.length=rf24PayloadMax}

/-- Put the id and the payload in front of the stack buffer. -/
def txBuffer (stack : StackBuf) (canId : Half) (data : List Byte) : List Byte :=
  sysPutBe16 canId++data++stack.val.drop (rf24IdSize+data.length)

/-- The sending functions up to their retry loop: the bytes handed to the
radio, none when the call returns false at once, with the cipher statics. -/
def buildFrame (crypt ready : Bool) (s : CryptState) (stack : StackBuf) (canId : Half)
    (data : List Byte) : Option (List Byte)×CryptState :=
  if ready=false then (none,s)
  else if payloadLimit crypt<data.length then (none,s)
  else
    let buf := txBuffer stack canId data
    let frameLen := data.length+rf24IdSize
    if crypt then
      let report := nrf24CryptSeal s buf frameLen
      if report.ret=0 then (none,report.state) else (some (report.buf.take report.ret),report.state)
    else (some (buf.take frameLen),s)

/-- The plaintext of a call, its id followed by the payload. -/
def callPlaintext (canId : Half) (data : List Byte) : List Byte := sysPutBe16 canId++data

/-- The plaintext of a call is two bytes longer than the payload. -/
@[simp] theorem callPlaintext_length (canId : Half) (data : List Byte) :
    (callPlaintext canId data).length=data.length+2 := by
  rw [callPlaintext,List.length_append,sysPutBe16_length]
  omega

/-- With encryption, a payload of at most 29 bytes is sealed. -/
theorem buildFrame_crypt (s : CryptState) (stack : StackBuf) (canId : Half) {data : List Byte}
    (h : data.length≤payloadLimit true) :
    buildFrame true true s stack canId data=
      (some (sealedFrame s.cryptKey s.txCounter (callPlaintext canId data)),
        {s with txCounter := s.txCounter+1}) := by
  have h29 : data.length≤29 := h
  have hstack : stack.val.length=32 := stack.property
  obtain ⟨spare,tail,hdrop⟩ : ∃ spare tail,stack.val.drop (rf24IdSize+data.length)=spare::tail := by
    cases hd : stack.val.drop (rf24IdSize+data.length) with
    | nil =>
      rw [List.drop_eq_nil_iff] at hd
      unfold rf24IdSize at hd
      omega
    | cons spare tail => exact ⟨spare,tail,rfl⟩
  have hlen := callPlaintext_length canId data
  have hseal := nrf24CryptSeal_eq s spare tail (by omega : 2≤(callPlaintext canId data).length)
    (by omega)
  have hbuf : txBuffer stack canId data=callPlaintext canId data++spare::tail := by
    rw [txBuffer,hdrop]
    rfl
  have hframe := sealedFrame_length s.cryptKey s.txCounter (callPlaintext canId data)
  unfold buildFrame
  rw [if_neg (by decide),if_neg (by omega)]
  dsimp only
  rw [if_pos rfl,hbuf,rf24IdSize,←hlen,hseal]
  dsimp only
  rw [if_neg (by omega),←hframe,List.take_left]

/-- Without encryption, a payload of at most 30 bytes is sent as it is. -/
theorem buildFrame_plain (s : CryptState) (stack : StackBuf) (canId : Half) {data : List Byte}
    (h : data.length≤payloadLimit false) :
    buildFrame false true s stack canId data=(some (callPlaintext canId data),s) := by
  have hlen := callPlaintext_length canId data
  unfold buildFrame
  rw [if_neg (by decide),if_neg (by omega)]
  dsimp only
  rw [if_neg (by decide),txBuffer,rf24IdSize,←hlen]
  change (some ((callPlaintext canId data++_).take _),s)=_
  rw [List.take_left]

/-- Every other call returns false and leaves the statics alone. -/
theorem buildFrame_rejects (crypt ready : Bool) (s : CryptState) (stack : StackBuf) (canId : Half)
    {data : List Byte} (h : ready=false ∨ payloadLimit crypt<data.length) :
    buildFrame crypt ready s stack canId data=(none,s) := by
  unfold buildFrame
  by_cases hr : ready=false
  · rw [if_pos hr]
  · rw [if_neg hr,if_pos (h.resolve_left hr)]

/-- A frame between its sealing and its delivery. -/
structure Transfer where
  /-- The number of frames sealed before it. -/
  number : ℕ
  /-- The plaintext of the call. -/
  plaintext : List Byte
  /-- The sealed bytes in the caller's buffer. -/
  frame : List Byte

/-- Where a thread stands in the sending function. -/
inductive SendPhase where
  /-- Outside the function. -/
  | idle
  /-- About to take the mutex for an attempt. -/
  | waiting (f : Transfer) (attempt : ℕ)
  /-- Inside the transmission, holding the mutex. -/
  | holding (f : Transfer) (attempt : ℕ)
  /-- The transmission has returned, the mutex is still held. -/
  | sent (f : Transfer) (attempt : ℕ) (acked : Bool)
  /-- Backing off after a failed attempt. -/
  | backoff (f : Transfer) (attempt : ℕ)

/-- The frame a thread is sending. -/
def SendPhase.transfer : SendPhase → Option Transfer
  | .idle => none
  | .waiting f _ => some f
  | .holding f _ => some f
  | .sent f _ _ => some f
  | .backoff f _ => some f

/-- The frame whose acknowledgement the thread has just seen. -/
def SendPhase.acknowledged : SendPhase → Option Transfer
  | .sent f _ true => some f
  | _ => none

/-- A frame delivered to the peer with what the peer's opening made of it. -/
structure Received where
  /-- The delivered frame. -/
  transfer : Transfer
  /-- The report of the peer's opening. -/
  report : OpenReport

/-- The endpoint with its sending threads, and the receiver of the peer. -/
structure SendState (ι : Type) where
  /-- The cipher statics of the endpoint. -/
  crypt : CryptState
  /-- The number of frames sealed so far. -/
  sealed : ℕ
  /-- The owner of `rf24_tx_mutex`. -/
  mutex : Option ι
  /-- Where each thread stands. -/
  phase : ι → SendPhase
  /-- The cipher statics of the peer. -/
  peer : CryptState
  /-- The number of the frame delivered last. -/
  last : Option ℕ
  /-- The number of frames sealed when it was delivered. -/
  mark : ℕ
  /-- Everything delivered so far. -/
  deliveries : List Received
  /-- The frames whose call has returned true. -/
  succeeded : List Transfer

/-- The steps of the threads. -/
inductive SendEvent (ι : Type) where
  /-- A thread enters the function and builds its frame. -/
  | call (t : ι) (stack : StackBuf) (canId : Half) (data : List Byte)
  /-- A thread takes the mutex. -/
  | lock (t : ι)
  /-- The transmission of the mutex owner returns; an acknowledged frame has
  been delivered into a receive buffer with the given rest. -/
  | transmit (t : ι) (acked : Bool) (tail : List Byte)
  /-- A thread releases the mutex and returns or begins to back off. -/
  | unlock (t : ι)
  /-- A thread has slept its back-off. -/
  | wake (t : ι)

section Step

variable {ι : Type} [DecidableEq ι]

/-- Move a thread to another phase, with the owner of the mutex afterwards. -/
def SendState.move (s : SendState ι) (t : ι) (mutex : Option ι) (p : SendPhase) : SendState ι :=
  {s with mutex := mutex,phase := Function.update s.phase t p}

/-- Deliver an acknowledged frame to the peer. -/
def SendState.deliver (s : SendState ι) (f : Transfer) (tail : List Byte) : SendState ι :=
  let report := openFrame s.peer ⟨f.frame,tail⟩
  {s with
    peer := report.state
    last := some f.number
    mark := s.sealed
    deliveries := s.deliveries++[⟨f,report⟩]}

/-- One step of one thread. A step that the thread cannot take changes nothing. -/
def sendStep (ready : Bool) (s : SendState ι) : SendEvent ι → SendState ι
  | .call t stack canId data =>
    match s.phase t with
    | .idle =>
      match buildFrame true ready s.crypt stack canId data with
      | (none,crypt) => {s with crypt := crypt}
      | (some frame,crypt) =>
        {s with crypt := crypt,sealed := s.sealed+1}.move t s.mutex
          (.waiting ⟨s.sealed,callPlaintext canId data,frame⟩ 0)
    | _ => s
  | .lock t =>
    match s.phase t,s.mutex with
    | .waiting f attempt,none => s.move t (some t) (.holding f attempt)
    | _,_ => s
  | .transmit t acked tail =>
    match s.phase t with
    | .holding f attempt =>
      (if acked then s.deliver f tail else s).move t s.mutex (.sent f attempt acked)
    | _ => s
  | .unlock t =>
    match s.phase t with
    | .sent f attempt acked =>
      if acked ∨ rf24TxRetries≤attempt then
        {s with succeeded := if acked then s.succeeded++[f] else s.succeeded}.move t none .idle
      else s.move t none (.backoff f attempt)
    | _ => s
  | .wake t =>
    match s.phase t with
    | .backoff f attempt => s.move t s.mutex (.waiting f (attempt+1))
    | _ => s

/-- Both ends hold the key, every thread is outside the function, and the peer
is in sync: it has accepted the last sealed frame, or nothing was sealed yet. -/
structure InSync (key : CryptKey) (s : SendState ι) : Prop where
  /-- The sender's key. -/
  keyed : s.crypt.cryptKey=key
  /-- The sender's counter. -/
  counter : s.crypt.txCounter=BitVec.ofNat 32 s.sealed
  /-- The peer's key and window. -/
  peer : Tracks key s.peer s.last
  /-- The last accepted frame is the last one sealed. -/
  synced : s.sealed=match s.last with | none => 0 | some j => j+1
  /-- Counting of sealed frames starts here. -/
  mark : s.mark=s.sealed
  /-- No call is under way. -/
  idle : ∀ t,s.phase t=.idle
  /-- The mutex is free. -/
  mutex : s.mutex=none
  /-- Nothing has been delivered. -/
  deliveries : s.deliveries=[]
  /-- No call has returned. -/
  succeeded : s.succeeded=[]

/-- The state in which both ends have just set the key of an address. -/
def sendStart (addr : Rf24Addr) : SendState ι :=
  ⟨nrf24CryptSetKey .boot addr,0,none,fun _ => .idle,nrf24CryptSetKey .boot addr,none,0,[],[]⟩

omit [DecidableEq ι] in
/-- Setting the key on both ends puts them in sync. -/
theorem sendStart_inSync (addr : Rf24Addr) :
    InSync (deriveKey addr) (sendStart addr : SendState ι) :=
  ⟨rfl,rfl,tracks_setKey .boot addr,rfl,rfl,fun _ => rfl,rfl,rfl,rfl⟩

/-- Every frame whose call returned true was accepted by the peer exactly once. -/
def AckedAccepted (s : SendState ι) : Prop :=
  ∀ f∈s.succeeded,
    (s.deliveries.countP fun d => d.transfer.number=f.number ∧ d.report.ret≠0)=1

instance (s : SendState ι) : Decidable (AckedAccepted s) :=
  inferInstanceAs (Decidable (∀ f∈s.succeeded,_))

/-- Fewer than 32 frames are sealed between two deliveries. -/
def SealsFew (s : SendState ι) : SendEvent ι → Prop
  | .transmit _ acked _ => acked=true → s.sealed-s.mark<32
  | _ => True

instance (s : SendState ι) : (e : SendEvent ι) → Decidable (SealsFew s e)
  | .transmit _ acked _ => inferInstanceAs (Decidable (acked=true → s.sealed-s.mark<32))
  | .call .. | .lock _ | .unlock _ | .wake _ => isTrue trivial

/-- If the thread is inside a transmission, its frame was sealed after the one
delivered last, by at most 32 places. -/
def SendPhase.Forward (last : Option ℕ) : SendPhase → Prop
  | .holding f _ => InWindow (· < 256) 32 last f.number
  | _ => True

instance (last : Option ℕ) : (p : SendPhase) → Decidable (p.Forward last)
  | .holding f _ => inferInstanceAs (Decidable (InWindow (· < 256) 32 last f.number))
  | .idle | .waiting .. | .sent .. | .backoff .. => isTrue trivial

/-- A delivered frame was sealed after the one delivered last, by at most 32
places. -/
def DeliversForward (s : SendState ι) : SendEvent ι → Prop
  | .transmit t acked _ => acked=true → (s.phase t).Forward s.last
  | _ => True

instance (s : SendState ι) : (e : SendEvent ι) → Decidable (DeliversForward s e)
  | .transmit t acked _ => inferInstanceAs (Decidable (acked=true → (s.phase t).Forward s.last))
  | .call .. | .lock _ | .unlock _ | .wake _ => isTrue trivial

/-- A frame holds what sealing its plaintext under its number gives. -/
structure Transfer.Built (key : CryptKey) (f : Transfer) : Prop where
  /-- The sealed bytes. -/
  frame : f.frame=sealedFrame key (BitVec.ofNat 32 f.number) f.plaintext
  /-- The plaintext has an id. -/
  two_le : 2≤f.plaintext.length
  /-- The plaintext fits. -/
  le_31 : f.plaintext.length≤31

/-- The numbers of the delivered frames. -/
def SendState.deliveredNumbers (s : SendState ι) : List ℕ :=
  s.deliveries.map fun d => d.transfer.number

/-- What holds in every state while deliveries go forward. -/
structure Forwarding (key : CryptKey) (s : SendState ι) : Prop where
  /-- The sender's key. -/
  keyed : s.crypt.cryptKey=key
  /-- The sender's counter. -/
  counter : s.crypt.txCounter=BitVec.ofNat 32 s.sealed
  /-- The peer has accepted the frame delivered last. -/
  peer : Tracks key s.peer s.last
  /-- Every frame under way is sealed as its number says. -/
  built : ∀ t,∀ f∈(s.phase t).transfer,f.Built key
  /-- Every delivered frame was accepted with its plaintext. -/
  accepted : ∀ d∈s.deliveries,
    d.report.result=(d.transfer.plaintext.length,d.transfer.plaintext) ∧ d.report.ret≠0
  /-- No delivered frame is ahead of the last one. -/
  behind : ∀ n∈s.deliveredNumbers,∃ j∈s.last,n≤j
  /-- No frame is delivered twice. -/
  nodup : s.deliveredNumbers.Nodup
  /-- An acknowledged frame was delivered. -/
  acked : ∀ t,∀ f∈(s.phase t).acknowledged,f.number∈s.deliveredNumbers
  /-- So was every frame whose call returned true. -/
  succeeded : ∀ f∈s.succeeded,f.number∈s.deliveredNumbers

variable {key : CryptKey} {s : SendState ι}

/-- Moving a thread keeps the invariant when its frame is sealed properly and,
if acknowledged, delivered. -/
theorem Forwarding.move (h : Forwarding key s) (t : ι) (mutex : Option ι) {p : SendPhase}
    (hbuilt : ∀ f∈p.transfer,f.Built key)
    (hacked : ∀ f∈p.acknowledged,f.number∈s.deliveredNumbers) :
    Forwarding key (s.move t mutex p) := by
  refine ⟨h.keyed,h.counter,h.peer,fun u f hf => ?_,h.accepted,h.behind,h.nodup,
    fun u f hf => ?_,h.succeeded⟩
  · change f∈(Function.update s.phase t p u).transfer at hf
    by_cases hu : u=t
    · subst hu
      rw [Function.update_self] at hf
      exact hbuilt f hf
    · rw [Function.update_of_ne hu] at hf
      exact h.built u f hf
  · change f∈(Function.update s.phase t p u).acknowledged at hf
    by_cases hu : u=t
    · subst hu
      rw [Function.update_self] at hf
      exact hacked f hf
    · rw [Function.update_of_ne hu] at hf
      exact h.acked u f hf

omit [DecidableEq ι] in
/-- Delivering a frame of the window keeps the invariant. -/
theorem Forwarding.deliver (h : Forwarding key s) {f : Transfer} (hf : f.Built key)
    (hwin : InWindow (· < 256) 32 s.last f.number) (tail : List Byte) :
    Forwarding key (s.deliver f tail) := by
  set air : Airborne := ⟨f.number,⟨f.plaintext,0,[],hf.two_le,hf.le_31⟩,tail⟩ with hair
  have hrx : (⟨f.frame,tail⟩ : RxFrame)=air.rx key := by
    rw [hf.frame]
    rfl
  have hwin' : InWindow (fun i => i%2^32<256) 32 s.last air.index := by
    cases hl : s.last with
    | none =>
      rw [hl] at hwin
      change f.number%2^32<256
      change f.number<256 at hwin
      omega
    | some j =>
      rw [hl] at hwin
      exact hwin
  have hopen := openFrame_exact h.peer air hwin'
  have hahead : ∀ n∈s.deliveredNumbers,n < f.number := by
    intro n hn
    obtain ⟨j,hj,hnj⟩ := h.behind n hn
    rw [Option.mem_def.mp hj] at hwin
    have hjf := hwin.1
    omega
  have hnumbers : (s.deliver f tail).deliveredNumbers=s.deliveredNumbers++[f.number] :=
    List.map_append
  have hmono : ∀ n∈s.deliveredNumbers,n∈(s.deliver f tail).deliveredNumbers := by
    intro n hn
    rw [hnumbers]
    exact List.mem_append_left _ hn
  refine ⟨h.keyed,h.counter,?_,h.built,fun d hd => ?_,fun n hn => ⟨f.number,rfl,?_⟩,?_,
    fun t g hg => hmono _ (h.acked t g hg),fun g hg => hmono _ (h.succeeded g hg)⟩
  · change Tracks key (openFrame s.peer ⟨f.frame,tail⟩).state (some f.number)
    rw [hrx]
    exact hopen.2
  · rcases List.mem_append.mp hd with hd | hd
    · exact h.accepted d hd
    · rw [List.mem_singleton] at hd
      subst hd
      dsimp only
      rw [hrx]
      exact ⟨hopen.1,ret_ne_zero hopen.1⟩
  · rw [hnumbers,List.mem_append,List.mem_singleton] at hn
    rcases hn with hn | hn
    · exact (hahead n hn).le
    · exact hn.le
  · rw [hnumbers,List.nodup_append']
    refine ⟨h.nodup,List.nodup_singleton _,fun n hn hf => ?_⟩
    rw [List.mem_singleton] at hf
    have hlt := hahead n hn
    omega

/-- An acknowledged frame is delivered, an unacknowledged one leaves the peer
alone; the thread then still holds the mutex. -/
theorem Forwarding.transmit (h : Forwarding key s) (t : ι) {f : Transfer} (hf : f.Built key)
    (attempt : ℕ) (acked : Bool) (tail : List Byte)
    (hwin : acked=true → InWindow (· < 256) 32 s.last f.number) :
    Forwarding key
      ((if acked then s.deliver f tail else s).move t s.mutex (.sent f attempt acked)) := by
  have hbuilt : ∀ g∈(SendPhase.sent f attempt acked).transfer,g.Built key := by
    intro g hg
    rw [SendPhase.transfer,Option.mem_some_iff] at hg
    exact hg ▸ hf
  cases acked with
  | true =>
    rw [if_pos rfl]
    refine (h.deliver hf (hwin rfl) tail).move t s.mutex hbuilt fun g hg => ?_
    rw [SendPhase.acknowledged,Option.mem_some_iff] at hg
    subst hg
    change f.number∈(s.deliveries++[_]).map _
    rw [List.map_append]
    exact List.mem_append_right _ List.mem_cons_self
  | false =>
    rw [if_neg (by decide)]
    exact h.move t s.mutex hbuilt fun g hg => absurd hg (by exact Option.not_mem_none g)

omit [DecidableEq ι] in
/-- Recording a delivered frame as returned keeps the invariant. -/
theorem Forwarding.succeed (h : Forwarding key s) {f : Transfer}
    (hf : f.number∈s.deliveredNumbers) :
    Forwarding key {s with succeeded := s.succeeded++[f]} := by
  refine ⟨h.keyed,h.counter,h.peer,h.built,h.accepted,h.behind,h.nodup,h.acked,fun g hg => ?_⟩
  rcases List.mem_append.mp hg with hg | hg
  · exact h.succeeded g hg
  · rw [List.mem_singleton] at hg
    exact hg ▸ hf

/-- A call that seals its frame keeps the invariant. -/
theorem Forwarding.call (h : Forwarding key s) (ready : Bool) (t : ι) (stack : StackBuf)
    (canId : Half) (data : List Byte) :
    Forwarding key (sendStep ready s (.call t stack canId data)) := by
  unfold sendStep
  dsimp only
  split
  · by_cases hok : ready=true ∧ data.length≤payloadLimit true
    · obtain ⟨rfl,hlen⟩ := hok
      have hn : (BitVec.ofNat 32 s.sealed)+1=BitVec.ofNat 32 (s.sealed+1) := by
        rw [BitVec.ofNat_add]
        rfl
      rw [buildFrame_crypt s.crypt stack canId hlen]
      dsimp only
      have h29 : data.length≤29 := hlen
      have hnext : Forwarding key {s with
          crypt := {s.crypt with txCounter := s.crypt.txCounter+1},sealed := s.sealed+1} :=
        ⟨h.keyed,(congrArg (· + 1) h.counter).trans hn,h.peer,h.built,h.accepted,h.behind,h.nodup,
          h.acked,h.succeeded⟩
      refine hnext.move t s.mutex (fun f hf => ?_) fun f hf => absurd hf (Option.not_mem_none f)
      rw [SendPhase.transfer,Option.mem_some_iff] at hf
      subst hf
      have hp := callPlaintext_length canId data
      refine ⟨?_,?_,?_⟩
      · dsimp only
        rw [h.keyed,h.counter]
      · dsimp only
        omega
      · dsimp only
        omega
    · have hrej : ready=false ∨ payloadLimit true<data.length := by
        by_cases hr : ready=true
        · exact Or.inr (by_contra fun hle => hok ⟨hr,by omega⟩)
        · exact Or.inl (Bool.eq_false_iff.mpr hr)
      rw [buildFrame_rejects true ready s.crypt stack canId hrej]
      exact h
  · exact h

/-- Every step that delivers forward keeps the invariant. -/
theorem Forwarding.step (ready : Bool) (s : SendState ι) (e : SendEvent ι) (h : Forwarding key s)
    (hc : DeliversForward s e) : Forwarding key (sendStep ready s e) := by
  cases e with
  | call t stack canId data => exact h.call ready t stack canId data
  | lock t =>
    unfold sendStep
    dsimp only
    split
    · rename_i f attempt hphase hmutex
      have hf := h.built t f (by rw [hphase]; rfl)
      refine h.move t (some t) (fun g hg => ?_) fun g hg => absurd hg (Option.not_mem_none g)
      rw [SendPhase.transfer,Option.mem_some_iff] at hg
      exact hg ▸ hf
    · exact h
  | transmit t acked tail =>
    unfold sendStep
    dsimp only
    split
    · rename_i f attempt hphase
      have hf := h.built t f (by rw [hphase]; rfl)
      refine h.transmit t hf attempt acked tail fun hacked => ?_
      have hwin : (s.phase t).Forward s.last := hc hacked
      rw [hphase] at hwin
      exact hwin
    · exact h
  | unlock t =>
    unfold sendStep
    dsimp only
    split
    · rename_i f attempt acked hphase
      have hf := h.built t f (by rw [hphase]; rfl)
      by_cases hdone : acked=true ∨ rf24TxRetries≤attempt
      · rw [if_pos hdone]
        cases acked with
        | true =>
          have hnumber := h.acked t f (by rw [hphase]; rfl)
          exact (h.succeed hnumber).move t none (fun g hg => absurd hg (Option.not_mem_none g))
            fun g hg => absurd hg (Option.not_mem_none g)
        | false =>
          exact h.move t none (fun g hg => absurd hg (Option.not_mem_none g))
            fun g hg => absurd hg (Option.not_mem_none g)
      · rw [if_neg hdone]
        refine h.move t none (fun g hg => ?_) fun g hg => absurd hg (Option.not_mem_none g)
        rw [SendPhase.transfer,Option.mem_some_iff] at hg
        exact hg ▸ hf
    · exact h
  | wake t =>
    unfold sendStep
    dsimp only
    split
    · rename_i f attempt hphase
      have hf := h.built t f (by rw [hphase]; rfl)
      refine h.move t s.mutex (fun g hg => ?_) fun g hg => absurd hg (Option.not_mem_none g)
      rw [SendPhase.transfer,Option.mem_some_iff] at hg
      exact hg ▸ hf
    · exact h

omit [DecidableEq ι] in
/-- The invariant holds in sync. -/
theorem InSync.forwarding (h : InSync key s) : Forwarding key s := by
  have hnone : s.deliveredNumbers=[] := by
    rw [SendState.deliveredNumbers,h.deliveries]
    rfl
  refine ⟨h.keyed,h.counter,h.peer,fun t f hf => ?_,fun d hd => ?_,fun n hn => ?_,?_,
    fun t f hf => ?_,fun f hf => ?_⟩
  · rw [h.idle t] at hf
    exact absurd hf (Option.not_mem_none f)
  · rw [h.deliveries] at hd
    exact absurd hd List.not_mem_nil
  · rw [hnone] at hn
    exact absurd hn List.not_mem_nil
  · rw [hnone]
    exact List.nodup_nil
  · rw [h.idle t] at hf
    exact absurd hf (Option.not_mem_none f)
  · rw [h.succeeded] at hf
    exact absurd hf List.not_mem_nil

omit [DecidableEq ι] in
/-- The invariant leaves every returned frame with one accepted delivery. -/
theorem Forwarding.ackedAccepted (h : Forwarding key s) : AckedAccepted s := by
  intro f hf
  have hcount := List.count_eq_one_of_mem h.nodup (h.succeeded f hf)
  rw [SendState.deliveredNumbers,List.count_eq_countP,List.countP_map] at hcount
  rw [←hcount]
  apply List.countP_congr
  intro d hd
  have hret := (h.accepted d hd).2
  simp only [Function.comp_apply,decide_eq_true_eq,beq_iff_eq]
  exact ⟨fun hx => hx.1,fun hx => ⟨hx,hret⟩⟩

/-- In every run from a synchronised start whose deliveries go forward in the
order of sealing, by at most 32 places each, every frame whose call returned
true has been accepted exactly once, at any time. -/
theorem ackedAccepted_run (ready : Bool) (h : InSync key s) (events : List (SendEvent ι))
    (hforward : AlongRun (sendStep ready) DeliversForward s events) :
    Throughout (sendStep ready) AckedAccepted s events :=
  (throughout_of_invariant (Forwarding.step ready) h.forwarding hforward).mono
    fun _ ht => ht.ackedAccepted

/-- An empty stack buffer for the runs below. -/
def zeroStack : StackBuf := ⟨List.replicate 32 0,rfl⟩

/-- Two threads whose attempts succeed in the order of sealing, the first one
after a back-off, both get their frames accepted. -/
theorem ackedAccepted_run_retry :
    Throughout (sendStep true) AckedAccepted (sendStart fun _ => 0xE7)
      ([.call 0 zeroStack 0x101#16 [0xAA#8],.lock 0,.transmit 0 false [],.unlock 0,
        .call 1 zeroStack 0x102#16 [],.wake 0,.lock 0,.transmit 0 true [],.unlock 0,
        .lock 1,.transmit 1 true [],.unlock 1] : List (SendEvent (Fin 2))) :=
  ackedAccepted_run true (sendStart_inSync _) _ (by decide +kernel)

/-- The first thread seals first but transmits second: its frame is
acknowledged, yet the peer rejects it as a replay. -/
theorem ackedAccepted_fails :
    let start : SendState (Fin 2) := sendStart fun _ => 0xE7
    let events : List (SendEvent (Fin 2)) :=
      [.call 0 zeroStack 0x101#16 [0xAA#8],.call 1 zeroStack 0x102#16 [],.lock 1,
        .transmit 1 true [],.unlock 1,.lock 0,.transmit 0 true [],.unlock 0]
    InSync (deriveKey fun _ => 0xE7) start ∧ AlongRun (sendStep true) SealsFew start events ∧
      ¬AckedAccepted (finalState (sendStep true) start events) := by
  refine ⟨sendStart_inSync _,?_,?_⟩ <;> decide +kernel

end Step

end ZephyrApp.Rf24Send

import ZephyrApp.CanFrames
import ZephyrApp.Rf24Send

/-!
# From a UDP datagram to the scanner parser

A datagram on the gateway's data port is filtered by its id and sent over the
radio; the handler opens the frame, filters the id again, copies the payload
into a classic CAN frame and parses it. The parser records every data byte it
reads. Neither end checks the payload length against the eight data bytes.
-/

namespace ZephyrApp.ScannerPath

open MachineBytes CounterStream SequenceWindow Nrf24Crypt Rf24Send CanFrames

/-- `OVERBREAK_LASER`, the id of overbreak and laser values. -/
def overbreakLaser : Half := 0x263

/-- `COORD_XY`, the id of the horizontal coordinates. -/
def coordXy : Half := 0x363

/-- `COORD_Z`, the id of the vertical coordinate. -/
def coordZ : Half := 0x463

/-- `TEST_FRAME`, the id of link tests. -/
def testFrame : Half := 0x777

/-- One of the ids that both filters let through. -/
def IsScanner (id : Half) : Prop := id=overbreakLaser ∨ id=coordXy ∨ id=coordZ

instance (id : Half) : Decidable (IsScanner id) :=
  inferInstanceAs (Decidable (id=overbreakLaser ∨ id=coordXy ∨ id=coordZ))

section Gateway

/-- One pass of the gateway's data thread: a received datagram fills at most
512 bytes of the buffer, and scanner frames are sent on. The result is the
frame handed to the radio, if any. -/
def udpDataRxThread (crypt ready : Bool) (s : CryptState) (stack : StackBuf)
    (datagram : List Byte) : Option (List Byte)×CryptState :=
  let buf := datagram.take 512
  if 2≤buf.length then
    let canId := sysGetBe16 buf 0
    if IsScanner canId then buildFrame crypt ready s stack canId (buf.drop 2) else (none,s)
  else (none,s)

end Gateway

section Handler

/-- The scanner values of the handler. -/
structure ScannerData where
  /-- Whether the overbreak value is valid, 1 or -1. -/
  overbreakValid : ℤ
  /-- The overbreak value. -/
  overbreakValue : ℤ
  /-- Whether the laser distance is valid, 1 or -1. -/
  laserValid : ℤ
  /-- The laser distance. -/
  laserDistance : ℤ
  /-- Whether the horizontal coordinates are valid, 1 or -1. -/
  coordXyValid : ℤ
  /-- The first horizontal coordinate. -/
  coordX : ℤ
  /-- The second horizontal coordinate. -/
  coordY : ℤ
  /-- Whether the vertical coordinate is valid, 1 or -1. -/
  coordZValid : ℤ
  /-- The vertical coordinate. -/
  coordZ : ℤ

/-- The values after parsing, the data bytes read, and whether the display is
refreshed. -/
structure ScannerReport where
  /-- The scanner values. -/
  scanner : ScannerData
  /-- Indices of the data bytes read, in order. -/
  reads : List ℕ
  /-- Whether the display is refreshed. -/
  refresh : Bool

/-- A flag bit of a data byte as the parser stores it. -/
def flagValue (flags mask : Byte) : ℤ := if flags &&& mask≠0 then 1 else -1

/-- Parse a scanner frame. The length code is not consulted. -/
def modCanParseScanner (s : ScannerData) (frame : CanFrame) : ScannerReport :=
  let d := frame.data
  if frame.id=overbreakLaser.setWidth 32 then
    ⟨{s with
        overbreakValid := flagValue (d.getD 0 0) 1
        laserValid := flagValue (d.getD 0 0) 2
        overbreakValue := (sysGetBe16 d 2).toInt
        laserDistance := (sysGetBe32 d 4).toInt},[0,0,2,3,4,5,6,7],true⟩
  else if frame.id=coordXy.setWidth 32 then
    ⟨{s with
        coordX := (sysGetBe32 d 0).toInt
        coordY := (sysGetBe32 d 4).toInt
        coordXyValid := 1},[0,1,2,3,4,5,6,7],false⟩
  else if frame.id=coordZ.setWidth 32 then
    ⟨{s with
        coordZ := (sysGetBe32 d 0).toInt
        coordZValid := flagValue (d.getD 4 0) 1
        coordXyValid := flagValue (d.getD 4 0) 1},[0,1,2,3,4],false⟩
  else ⟨s,[],false⟩

/-- What the handler's receive thread does with one frame. -/
inductive RxOutcome where
  /-- The frame has no room for an id. -/
  | tooShort
  /-- Opening rejects the frame. -/
  | rejected
  /-- The payload goes to the link tests. -/
  | test (payload : List Byte)
  /-- The id is ignored. -/
  | ignored (id : Half)
  /-- The payload is copied into a CAN frame for the scanner parser, with the
  number of bytes the copy writes. -/
  | scanner (frame : CanFrame) (copied : ℕ)

/-- Sort a message of the given length at the front of the receive buffer. -/
def dispatchRx (buf : List Byte) (len : ℕ) : RxOutcome :=
  let canId := sysGetBe16 buf 0
  let dataLen := len-2
  let payload := (buf.drop 2).take dataLen
  if canId=testFrame then .test payload
  else if ¬IsScanner canId then .ignored canId
  else
    .scanner ⟨canId.setWidth 32,canBytesToDlc dataLen,copyToData payload,copyToData_length payload⟩
      dataLen

/-- One pass of the handler's receive thread over a received frame. -/
def rf24RxThread (crypt : Bool) (s : CryptState) (frame : RxFrame) : RxOutcome×CryptState :=
  if frame.bytes.length<2 then (.tooShort,s)
  else if crypt then
    let report := openFrame s frame
    if report.ret=0 then (.rejected,report.state)
    else (dispatchRx report.buf report.ret,report.state)
  else (dispatchRx (frame.bytes++frame.tail) frame.bytes.length,s)

/-- The copy stays inside the eight data bytes, and the parser reads only
bytes that were copied. -/
def RxOutcome.Safe (s : ScannerData) : RxOutcome → Prop
  | .scanner frame copied =>
    copied≤8 ∧ ∀ i∈(modCanParseScanner s frame).reads,i<copied
  | _ => True

/-- The payload lengths that each scanner id needs. -/
def PayloadFits (id : Half) (n : ℕ) : Prop :=
  (id=overbreakLaser ∨ id=coordXy → n=8) ∧ (id=coordZ → 5≤n ∧ n≤8)

/-- A message with a scanner id has a payload length that its id needs. -/
def MessageFits (message : List Byte) : Prop :=
  IsScanner (sysGetBe16 message 0) → PayloadFits (sysGetBe16 message 0) (message.length-2)

/-- The message a received frame carries, none when it is dropped. -/
def receivedMessage (crypt : Bool) (s : CryptState) (frame : RxFrame) : Option (List Byte) :=
  if frame.bytes.length<2 then none
  else if crypt then (openFrame s frame).plaintext else some frame.bytes

/-- A half word is read the same from a buffer and from its first bytes. -/
theorem sysGetBe16_take (buf : List Byte) {n : ℕ} (h : 2≤n) :
    sysGetBe16 (buf.take n) 0=sysGetBe16 buf 0 := by
  have hget : ∀ i<2,(buf.take n).getD i 0=buf.getD i 0 := by
    intro i hi
    rw [List.getD_eq_getElem?_getD,List.getD_eq_getElem?_getD,List.getElem?_take_of_lt (by omega)]
  rw [sysGetBe16,sysGetBe16,hget 0 (by omega),hget 1 (by omega)]

/-- Handling a scanner message is safe exactly when its payload length is one
that its id needs. -/
theorem scanner_safe_iff (s : ScannerData) {id : Half} (h : IsScanner id) (dlc n : ℕ)
    (data : List Byte) (hdata : data.length=8) :
    (RxOutcome.scanner ⟨id.setWidth 32,dlc,data,hdata⟩ n).Safe s ↔ PayloadFits id n := by
  unfold RxOutcome.Safe PayloadFits modCanParseScanner
  dsimp only
  rcases h with rfl | rfl | rfl
  · rw [if_pos rfl]
    simp only [List.forall_mem_cons,List.not_mem_nil,false_imp_iff,forall_const,true_or]
    have hne : ¬overbreakLaser=coordZ := by decide
    simp only [hne,false_imp_iff,and_true]
    omega
  · rw [if_neg (by decide),if_pos rfl]
    simp only [List.forall_mem_cons,List.not_mem_nil,false_imp_iff,forall_const,or_true]
    have hne : ¬coordXy=coordZ := by decide
    simp only [hne,false_imp_iff,and_true]
    omega
  · rw [if_neg (by decide),if_neg (by decide),if_pos rfl]
    simp only [List.forall_mem_cons,List.not_mem_nil,false_imp_iff,forall_const]
    have hne : ¬(coordZ=overbreakLaser ∨ coordZ=coordXy) := by decide
    simp only [hne,false_imp_iff,true_and,and_true]
    omega

/-- Sorting a message is safe exactly when the message fits. -/
theorem dispatchRx_safe_iff (s : ScannerData) (buf : List Byte) {len : ℕ} (h : 2≤len)
    (hlen : (buf.take len).length=len) :
    (dispatchRx buf len).Safe s ↔ MessageFits (buf.take len) := by
  unfold MessageFits dispatchRx
  dsimp only
  rw [sysGetBe16_take buf h,hlen]
  by_cases hs : IsScanner (sysGetBe16 buf 0)
  · have htest : sysGetBe16 buf 0≠testFrame := by
      intro ht
      rw [ht] at hs
      revert hs
      decide
    rw [if_neg htest,if_neg (not_not.mpr hs),scanner_safe_iff s hs]
    exact ⟨fun hf _ => hf,fun hf => hf hs⟩
  · refine iff_of_true ?_ fun hx => absurd hx hs
    rw [if_pos hs]
    split <;> trivial

/-- An opened message is at least an id long and fills the returned length. -/
theorem openFrame_plaintext {s : CryptState} {frame : RxFrame}
    (h : (openFrame s frame).ret≠0) :
    2≤(openFrame s frame).ret ∧
      ((openFrame s frame).buf.take (openFrame s frame).ret).length=(openFrame s frame).ret := by
  obtain ⟨bytes,tail⟩ := frame
  by_cases hlen : bytes.length<3 ∨ 32<bytes.length
  · unfold openFrame nrf24CryptOpen at h
    rw [if_pos hlen] at h
    exact absurd rfl h
  · cases bytes with
    | nil =>
      simp only [List.length_nil] at hlen
      omega
    | cons ctrByte body =>
      rw [List.length_cons] at hlen
      cases hctr : inferCounter s ctrByte with
      | none =>
        have hrej : openFrame s ⟨ctrByte::body,tail⟩=⟨0,ctrByte::body++tail,s⟩ :=
          nrf24CryptOpen_rejects s (body.length+1) hctr
        have hret : (openFrame s ⟨ctrByte::body,tail⟩).ret=0 := congrArg OpenReport.ret hrej
        exact absurd hret h
      | some ctr =>
        have hacc := nrf24CryptOpen_accepts s tail (by omega : 2≤body.length) (by omega) hctr
        have hret : (openFrame s ⟨ctrByte::body,tail⟩).ret=body.length := hacc.2.1
        have hplain : (openFrame s ⟨ctrByte::body,tail⟩).plaintext=_ := hacc.1
        unfold OpenReport.plaintext at hplain
        rw [if_neg h,Option.some.injEq] at hplain
        rw [hplain,hret,maskBytes_length]
        exact ⟨by omega,rfl⟩

/-- Whatever frame the handler receives, handling it is safe exactly when the
message it carries, if any, fits. -/
theorem rf24RxThread_safe_iff (crypt : Bool) (s : CryptState) (frame : RxFrame)
    (scanner : ScannerData) :
    (rf24RxThread crypt s frame).1.Safe scanner ↔
      ∀ m∈receivedMessage crypt s frame,MessageFits m := by
  unfold rf24RxThread receivedMessage
  by_cases hshort : frame.bytes.length<2
  · rw [if_pos hshort,if_pos hshort]
    exact iff_of_true trivial fun m hm => absurd hm (Option.not_mem_none m)
  · rw [if_neg hshort,if_neg hshort]
    cases crypt with
    | true =>
      rw [if_pos rfl,if_pos rfl]
      dsimp only
      unfold OpenReport.plaintext
      by_cases hret : (openFrame s frame).ret=0
      · rw [if_pos hret,if_pos hret]
        exact iff_of_true trivial fun m hm => absurd hm (Option.not_mem_none m)
      · have hplain := openFrame_plaintext hret
        rw [if_neg hret,if_neg hret,dispatchRx_safe_iff scanner _ hplain.1 hplain.2]
        simp only [Option.mem_some_iff,forall_eq']
    | false =>
      rw [if_neg (by decide),if_neg (by decide)]
      have htake : (frame.bytes++frame.tail).take frame.bytes.length=frame.bytes := List.take_left
      rw [dispatchRx_safe_iff scanner _ (by omega) (by rw [htake]),htake]
      simp only [Option.mem_some_iff,forall_eq']

end Handler

section EndToEnd

/-- The handler has accepted a frame at most 32 places before the next one
that the gateway seals. -/
def InStep (gateway handler : CryptState) : Prop :=
  ∃ k last,gateway.txCounter=BitVec.ofNat 32 k ∧ Tracks gateway.cryptKey handler last ∧
    InWindow (fun i => i%2^32<256) 32 last k

/-- A datagram that the gateway sends on has a payload length its id needs. -/
def DatagramFits (crypt ready : Bool) (datagram : List Byte) : Prop :=
  ready=true → 2≤(datagram.take 512).length → IsScanner (sysGetBe16 (datagram.take 512) 0) →
    (datagram.take 512).length-2≤payloadLimit crypt →
      PayloadFits (sysGetBe16 (datagram.take 512) 0) ((datagram.take 512).length-2)

/-- A message built by a call fits exactly when its payload length does. -/
theorem messageFits_callPlaintext (id : Half) (data : List Byte) :
    MessageFits (callPlaintext id data) ↔ (IsScanner id → PayloadFits id data.length) := by
  have hlen := callPlaintext_length id data
  have hid : sysGetBe16 (callPlaintext id data) 0=id := sysGetBe16_sysPutBe16 id data
  unfold MessageFits
  rw [hid,hlen,Nat.add_sub_cancel]

/-- A receiver takes the message of a sealed frame inside its window, and
follows it. -/
theorem received_sealed {key : CryptKey} {s : CryptState} {last : Option ℕ}
    (ht : Tracks key s last) {k : ℕ} (hwin : InWindow (fun i => i%2^32<256) 32 last k)
    (id : Half) {data : List Byte} (h : data.length≤payloadLimit true) (tail : List Byte) :
    receivedMessage true s ⟨sealedFrame key (BitVec.ofNat 32 k) (callPlaintext id data),tail⟩=
        some (callPlaintext id data) ∧
      Tracks key (rf24RxThread true s
        ⟨sealedFrame key (BitVec.ofNat 32 k) (callPlaintext id data),tail⟩).2 (some k) := by
  have h29 : data.length≤29 := h
  have hlen := callPlaintext_length id data
  set air : Airborne := ⟨k,⟨callPlaintext id data,0,[],by omega,by omega⟩,tail⟩ with hair
  have hrx : (⟨sealedFrame key (BitVec.ofNat 32 k) (callPlaintext id data),tail⟩ : RxFrame)=
      air.rx key := rfl
  obtain ⟨hopen,hnext⟩ := openFrame_exact ht air hwin
  have hret := ret_ne_zero hopen
  have hlong : ¬(air.rx key).bytes.length<2 := by
    rw [←hrx,sealedFrame_length]
    omega
  rw [hrx]
  constructor
  · rw [receivedMessage,if_neg hlong,if_pos rfl,OpenReport.plaintext,if_neg hret]
    exact congrArg some (congrArg Prod.snd hopen)
  · unfold rf24RxThread
    dsimp only
    rw [if_neg hlong,if_pos rfl,if_neg hret]
    exact hnext

/-- A receiver without encryption takes the message as it is. -/
theorem received_plain (s : CryptState) (id : Half) (data tail : List Byte) :
    receivedMessage false s ⟨callPlaintext id data,tail⟩=some (callPlaintext id data) := by
  have hlong : ¬(callPlaintext id data).length<2 := by
    rw [callPlaintext_length]
    omega
  rw [receivedMessage,if_neg hlong,if_neg (by decide)]

/-- The handler receives the message of every frame that a gateway in step
with it builds. -/
theorem receivedMessage_built {crypt : Bool} {gateway handler : CryptState}
    (hlink : crypt=true → InStep gateway handler) (stack : StackBuf) (id : Half)
    {data : List Byte} (h : data.length≤payloadLimit crypt) (tail : List Byte) :
    ∀ bytes∈(buildFrame crypt true gateway stack id data).1,
      receivedMessage crypt handler ⟨bytes,tail⟩=some (callPlaintext id data) := by
  intro bytes hbytes
  cases crypt with
  | true =>
    obtain ⟨k,last,hctr,ht,hwin⟩ := hlink rfl
    rw [buildFrame_crypt gateway stack id h,Option.mem_some_iff,hctr] at hbytes
    rw [←hbytes]
    exact (received_sealed ht hwin id h tail).1
  | false =>
    rw [buildFrame_plain gateway stack id h,Option.mem_some_iff] at hbytes
    rw [←hbytes]
    exact received_plain handler id data tail

/-- The gateway sends the datagram on. -/
def DatagramSent (crypt ready : Bool) (datagram : List Byte) : Prop :=
  ready=true ∧ 2≤(datagram.take 512).length ∧ IsScanner (sysGetBe16 (datagram.take 512) 0) ∧
    (datagram.take 512).length-2≤payloadLimit crypt

/-- A datagram that is sent on reaches a handler in step as its id and payload. -/
theorem udpDataRxThread_sent {crypt ready : Bool} {gateway handler : CryptState}
    (hlink : crypt=true → InStep gateway handler) (stack : StackBuf) {datagram : List Byte}
    (h : DatagramSent crypt ready datagram) (tail : List Byte) :
    ∃ bytes,(udpDataRxThread crypt ready gateway stack datagram).1=some bytes ∧
      receivedMessage crypt handler ⟨bytes,tail⟩=
        some (callPlaintext (sysGetBe16 (datagram.take 512) 0) ((datagram.take 512).drop 2)) := by
  obtain ⟨rfl,hlong,hid,hfit⟩ := h
  unfold udpDataRxThread
  dsimp only
  rw [if_pos hlong,if_pos hid]
  rw [←List.length_drop] at hfit
  set canId := sysGetBe16 (datagram.take 512) 0
  have hmsg := receivedMessage_built hlink stack canId hfit tail
  cases crypt with
  | true =>
    have hsome := congrArg Prod.fst (buildFrame_crypt gateway stack canId hfit)
    exact ⟨_,hsome,hmsg _ hsome⟩
  | false =>
    have hsome := congrArg Prod.fst (buildFrame_plain gateway stack canId hfit)
    exact ⟨_,hsome,hmsg _ hsome⟩

/-- No frame is sent for any other datagram. -/
theorem udpDataRxThread_unsent {crypt ready : Bool} (gateway : CryptState) (stack : StackBuf)
    {datagram : List Byte} (h : ¬DatagramSent crypt ready datagram) :
    (udpDataRxThread crypt ready gateway stack datagram).1=none := by
  unfold udpDataRxThread
  dsimp only
  by_cases hlong : 2≤(datagram.take 512).length
  · rw [if_pos hlong]
    by_cases hid : IsScanner (sysGetBe16 (datagram.take 512) 0)
    · have hreject : ready=false ∨ payloadLimit crypt<((datagram.take 512).drop 2).length := by
        cases ready with
        | false => exact Or.inl rfl
        | true =>
          rw [List.length_drop]
          exact Or.inr (Nat.lt_of_not_le fun hfit => h ⟨rfl,hlong,hid,hfit⟩)
      rw [if_pos hid,buildFrame_rejects crypt ready gateway stack _ hreject]
    · rw [if_neg hid]
  · rw [if_neg hlong]

/-- The frame sent for a datagram, if any, is handled safely exactly when the
datagram fits. -/
theorem datagram_safe_iff {crypt : Bool} {gateway handler : CryptState}
    (hlink : crypt=true → InStep gateway handler) (ready : Bool) (scanner : ScannerData)
    (stack : StackBuf) (datagram tail : List Byte) :
    (∀ bytes∈(udpDataRxThread crypt ready gateway stack datagram).1,
        (rf24RxThread crypt handler ⟨bytes,tail⟩).1.Safe scanner) ↔
      DatagramFits crypt ready datagram := by
  by_cases hsent : DatagramSent crypt ready datagram
  · obtain ⟨bytes,hsome,hmsg⟩ := udpDataRxThread_sent hlink stack hsent tail
    rw [hsome]
    simp only [Option.mem_some_iff,forall_eq']
    rw [rf24RxThread_safe_iff,hmsg]
    simp only [Option.mem_some_iff,forall_eq',messageFits_callPlaintext,List.length_drop]
    obtain ⟨hready,hlong,hid,hfit⟩ := hsent
    exact ⟨fun h _ _ hs _ => h hs,fun h hs => h hready hlong hs hfit⟩
  · rw [udpDataRxThread_unsent gateway stack hsent]
    refine iff_of_true (fun bytes hb => absurd hb (Option.not_mem_none bytes)) ?_
    intro hready hlong hid hfit
    exact absurd ⟨hready,hlong,hid,hfit⟩ hsent

/-- Length safety of the whole path. Whatever frame the handler receives, it is
handled safely exactly when its message, if any, has a payload length that its
id needs; and whatever datagram arrives at a gateway in step with the handler,
the frame sent for it is handled safely exactly when the datagram fits. -/
theorem scannerPath_safe_iff (crypt ready : Bool) (gateway handler : CryptState)
    (scanner : ScannerData) (frame : RxFrame) (stack : StackBuf) (datagram tail : List Byte) :
    ((rf24RxThread crypt handler frame).1.Safe scanner ↔
        ∀ m∈receivedMessage crypt handler frame,MessageFits m) ∧
      ((crypt=true → InStep gateway handler) →
        ((∀ bytes∈(udpDataRxThread crypt ready gateway stack datagram).1,
            (rf24RxThread crypt handler ⟨bytes,tail⟩).1.Safe scanner) ↔
          DatagramFits crypt ready datagram)) :=
  ⟨rf24RxThread_safe_iff crypt handler frame scanner,
    fun hlink => datagram_safe_iff hlink ready scanner stack datagram tail⟩

/-- Two ends that have just set the same key are in step. -/
theorem inStep_setKey (addr : Rf24Addr) :
    InStep (nrf24CryptSetKey .boot addr) (nrf24CryptSetKey .boot addr) :=
  ⟨0,none,rfl,tracks_setKey .boot addr,by decide⟩

/-- All scanner values zero. -/
def ScannerData.zero : ScannerData := ⟨0,0,0,0,0,0,0,0,0⟩

/-- A datagram with two coordinates passes the encrypted path safely. -/
theorem scannerPath_safe_iff_coordXy :
    (rf24RxThread true (nrf24CryptSetKey .boot fun _ => 0xE7)
      ⟨(udpDataRxThread true true (nrf24CryptSetKey .boot fun _ => 0xE7) zeroStack
        ([0x03#8,0x63#8]++List.replicate 8 1)).1.getD [],[]⟩).1.Safe .zero :=
  (((scannerPath_safe_iff true true _ _ .zero ⟨[],[]⟩ zeroStack
    ([0x03#8,0x63#8]++List.replicate 8 1) []).2
    fun _ => inStep_setKey _).mpr fun _ _ _ _ => ⟨fun _ => rfl,by decide⟩) _ (by decide +kernel)

/-- A datagram with twenty payload bytes makes the handler copy all twenty
into the eight data bytes. -/
theorem scannerPath_unsafe :
    ¬∀ bytes∈(udpDataRxThread true true (nrf24CryptSetKey .boot fun _ => 0xE7) zeroStack
        ([0x03#8,0x63#8]++List.replicate 20 1)).1,
      (rf24RxThread true (nrf24CryptSetKey .boot fun _ => 0xE7) ⟨bytes,[]⟩).1.Safe .zero := by
  intro h
  have hfit : (List.replicate 20 (1 : Byte)).length≤payloadLimit true := by decide
  have hmsg := receivedMessage_built (fun _ => inStep_setKey fun _ => 0xE7) zeroStack coordXy hfit
    [] _ (congrArg Prod.fst (buildFrame_crypt _ zeroStack coordXy hfit))
  have hsafe := (rf24RxThread_safe_iff true _ _ .zero).mp (h _ (by decide +kernel)) _ hmsg
  rw [messageFits_callPlaintext] at hsafe
  have h8 := (hsafe (by decide)).1 (by decide)
  revert h8
  decide

end EndToEnd

end ZephyrApp.ScannerPath

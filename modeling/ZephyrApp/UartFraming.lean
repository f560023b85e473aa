import ZephyrApp.EventRuns
import ZephyrApp.MachineBytes

/-!
# Framing on the bootloader's serial port

A frame is a head byte, a type, a two-byte length, at most eight payload bytes,
their checksum and a tail byte. The interrupt handler takes one byte at a time
and queues a frame once its checksum agrees; it leaves the tail byte to its
idle state. Payload, length and checksum bytes may equal either marker.
-/

namespace ZephyrApp.UartFraming

open EventRuns MachineBytes

/-- `UART_FRAME_HEAD`. -/
def uartFrameHead : Byte := 0xAA

/-- `UART_FRAME_TAIL`. -/
def uartFrameTail : Byte := 0x55

/-- `UART_FRAME_CMD`. -/
def uartFrameCmd : Byte := 0x01

/-- `UART_FRAME_DATA`. -/
def uartFrameData : Byte := 0x02

section Checksum

/-- One of the eight shifts that follow each byte. -/
def crc16Shift (crc : Half) : Half :=
  if crc &&& 1≠0 then (crc >>> 1) ^^^ 0xA001 else crc >>> 1

/-- Take one byte into the checksum. -/
def crc16Byte (crc : Half) (b : Byte) : Half := crc16Shift^[8] (crc ^^^ b.setWidth 16)

/-- `crc16_ccitt` of the serial port, which is the reflected checksum with the
constant 0xA001. -/
def crc16Ccitt (data : List Byte) : Half := data.foldl crc16Byte 0xFFFF

/-- The check value of the nine digits. -/
example : crc16Ccitt [0x31,0x32,0x33,0x34,0x35,0x36,0x37,0x38,0x39]=0x4B37 := by
  simp [crc16Ccitt,crc16Byte,crc16Shift]

end Checksum

section Sender

/-- The bytes that `uart_send_frame` puts out. -/
def uartSendFrame (type : Byte) (data : List Byte) : List Byte :=
  let crc := crc16Ccitt data
  [uartFrameHead,type,0,BitVec.ofNat 8 data.length]++data++
    [((crc >>> 8) &&& 0xFF).setWidth 8,(crc &&& 0xFF).setWidth 8,uartFrameTail]

end Sender

section Receiver

/-- `uart_rx_state_t`. -/
inductive UartRxState where
  /-- Waiting for a head byte. -/
  | idle
  /-- The type is next. -/
  | type
  /-- The high length byte is next. -/
  | lenH
  /-- The low length byte is next. -/
  | lenL
  /-- Payload bytes are next. -/
  | data
  /-- The high checksum byte is next. -/
  | crcH
  /-- The low checksum byte is next. -/
  | crcL
deriving DecidableEq

/-- The statics of the interrupt handler. -/
structure UartRx where
  /-- `rx_state`. -/
  rxState : UartRxState
  /-- `rx_type`. -/
  rxType : Byte
  /-- `rx_len`. -/
  rxLen : Byte
  /-- `rx_index`. -/
  rxIndex : Byte
  /-- `rx_buffer`. -/
  rxBuffer : Vector Byte 8
  /-- `rx_crc`. -/
  rxCrc : Half

/-- `fw_uart_frame_t`, with the data bytes that were copied into it. -/
structure FwUartFrame where
  /-- The type. -/
  type : Byte
  /-- The copied data bytes. -/
  data : List Byte
  /-- The length. -/
  len : Byte
deriving DecidableEq

/-- The statics at start. -/
def uartRxStart : UartRx := ⟨.idle,0,0,0,Vector.replicate 8 0,0⟩

/-- The body of `uart_isr` for one byte, with the frame it queues. -/
def uartIsr (s : UartRx) (byte : Byte) : UartRx×Option FwUartFrame :=
  match s.rxState with
  | .idle => (if byte=uartFrameHead then {s with rxState := .type} else s,none)
  | .type =>
    (if byte=uartFrameCmd ∨ byte=uartFrameData then
      {s with rxType := byte,rxIndex := 0,rxState := .lenH}
    else {s with rxState := .idle},none)
  -- the shifted byte is cut back to eight bits by the store
  | .lenH => ({s with rxLen := (byte.setWidth 32 <<< 8).setWidth 8,rxState := .lenL},none)
  | .lenL =>
    let len := s.rxLen ||| byte
    ({s with
      rxLen := len
      rxState := if len.toNat≤8 then (if 0 < len.toNat then .data else .crcH) else .idle},none)
  | .data =>
    let index := s.rxIndex+1
    ({s with
      rxBuffer := s.rxBuffer.setIfInBounds s.rxIndex.toNat byte
      rxIndex := index
      rxState := if s.rxLen.toNat ≤ index.toNat then .crcH else .data},none)
  | .crcH => ({s with rxCrc := byte.setWidth 16 <<< 8,rxState := .crcL},none)
  | .crcL =>
    let crc := s.rxCrc ||| byte.setWidth 16
    let data := s.rxBuffer.toList.take s.rxLen.toNat
    ({s with rxCrc := crc,rxState := .idle},
      if crc16Ccitt data=crc then some ⟨s.rxType,data,s.rxLen⟩ else none)

/-- The interrupt handler over a stream of bytes, with the frames it queues. -/
def uartIsrBytes : UartRx → List Byte → UartRx×List FwUartFrame
  | s,[] => (s,[])
  | s,b::bs =>
    let r := uartIsr s b
    let t := uartIsrBytes r.1 bs
    (t.1,r.2.toList++t.2)

/-- No bytes change nothing. -/
@[simp] theorem uartIsrBytes_nil (s : UartRx) : uartIsrBytes s []=(s,[]) := rfl

/-- A byte is handled before the bytes after it. -/
theorem uartIsrBytes_cons (s : UartRx) (b : Byte) (bs : List Byte) :
    uartIsrBytes s (b::bs)=((uartIsrBytes (uartIsr s b).1 bs).1,
      (uartIsr s b).2.toList++(uartIsrBytes (uartIsr s b).1 bs).2) := rfl

/-- The stream may be cut anywhere. -/
theorem uartIsrBytes_append (s : UartRx) (bs cs : List Byte) :
    uartIsrBytes s (bs++cs)=((uartIsrBytes (uartIsrBytes s bs).1 cs).1,
      (uartIsrBytes s bs).2++(uartIsrBytes (uartIsrBytes s bs).1 cs).2) := by
  induction bs generalizing s with
  | nil => rfl
  | cons b bs ih =>
    simp only [List.cons_append,uartIsrBytes_cons]
    rw [ih,List.append_assoc]

end Receiver

section Safety

/-- What the handler keeps of its statics: a length in use fits the buffer and
the next payload byte falls inside it, and a type in use is one of the two. -/
structure Bounded (s : UartRx) : Prop where
  /-- A payload byte is stored below the length. -/
  index : s.rxState=.data → s.rxIndex.toNat < s.rxLen.toNat
  /-- The length of an accepted header fits the buffer. -/
  len : s.rxState=.data ∨ s.rxState=.crcH ∨ s.rxState=.crcL → s.rxLen.toNat≤8
  /-- The index starts at zero. -/
  start : s.rxState=.lenH ∨ s.rxState=.lenL → s.rxIndex=0
  /-- Past the type byte the type is known. -/
  type : s.rxState≠.idle → s.rxState≠.type → s.rxType=uartFrameCmd ∨ s.rxType=uartFrameData

/-- The statics at start are bounded. -/
theorem bounded_start : Bounded uartRxStart := by
  constructor <;> simp [uartRxStart]

/-- Every byte keeps the statics bounded. -/
theorem bounded_uartIsr {s : UartRx} (hs : Bounded s) (byte : Byte) :
    Bounded (uartIsr s byte).1 := by
  have hindex := hs.index
  have hlen := hs.len
  have hstart := hs.start
  have htype := hs.type
  cases hst : s.rxState with
  | idle => constructor <;> simp only [uartIsr,hst] <;> split <;> simp_all
  | type => constructor <;> simp only [uartIsr,hst] <;> split <;> simp_all
  | lenH => constructor <;> simp_all [uartIsr]
  | lenL => constructor <;> simp only [uartIsr,hst] <;> split <;> (try split) <;> simp_all
  | data =>
    have hi := hindex hst
    have hl := hlen (Or.inl hst)
    have hidx : (s.rxIndex+1).toNat=s.rxIndex.toNat+1 := by
      rw [BitVec.toNat_add]
      simp only [BitVec.reduceToNat]
      omega
    constructor <;> simp only [uartIsr,hst] <;> split <;> simp_all
  | crcH => constructor <;> simp_all [uartIsr]
  | crcL => constructor <;> simp_all [uartIsr]

/-- A queued frame that the upgrade code can use: a known type, and as many
data bytes as its length says, at most eight. -/
def Wellformed (f : FwUartFrame) : Prop :=
  (f.type=uartFrameCmd ∨ f.type=uartFrameData) ∧ f.data.length=f.len.toNat ∧ f.len.toNat≤8

/-- A frame queued from bounded statics is well formed. -/
theorem wellformed_uartIsr {s : UartRx} (hs : Bounded s) {byte : Byte} {f : FwUartFrame}
    (hf : (uartIsr s byte).2=some f) : Wellformed f := by
  have hlen := hs.len
  have htype := hs.type
  cases hst : s.rxState with
  | crcL =>
    have hl := hlen (by simp [hst])
    have ht := htype (by simp [hst]) (by simp [hst])
    simp only [uartIsr,hst] at hf
    split at hf
    · cases hf
      refine ⟨ht,?_,hl⟩
      simp only [List.length_take,Vector.length_toList]
      omega
    · cases hf
  | _ => simp [uartIsr,hst] at hf

/-- Whatever bytes arrive after start, every queued frame is well formed. -/
theorem wellformed_uartIsrBytes {s : UartRx} (hs : Bounded s) (bytes : List Byte) :
    ∀ f∈(uartIsrBytes s bytes).2,Wellformed f := by
  induction bytes generalizing s with
  | nil => simp
  | cons b bs ih =>
    intro f hf
    rw [uartIsrBytes_cons,List.mem_append,Option.mem_toList] at hf
    rcases hf with hf | hf
    · exact wellformed_uartIsr hs hf
    · exact ih (bounded_uartIsr hs b) f hf

/-- Whatever has come in since the start, only well-formed frames are queued. -/
theorem wellformed_of_start (bytes : List Byte) :
    ∀ f∈(uartIsrBytes uartRxStart bytes).2,Wellformed f :=
  wellformed_uartIsrBytes bounded_start bytes

end Safety

section RoundTrip

/-- A frame that may be sent: one of the two types and at most eight bytes. -/
structure UartFrame where
  /-- The type. -/
  type : Byte
  /-- The payload. -/
  payload : List Byte
  /-- The type is one of the two. -/
  known : type=uartFrameCmd ∨ type=uartFrameData
  /-- The payload fits a frame. -/
  fits : payload.length≤8

/-- The bytes of a frame on the line. -/
def UartFrame.sent (f : UartFrame) : List Byte := uartSendFrame f.type f.payload

/-- The frame as the receiver should queue it. -/
def UartFrame.queued (f : UartFrame) : FwUartFrame :=
  ⟨f.type,f.payload,BitVec.ofNat 8 f.payload.length⟩

/-- The two checksum bytes, put together again, are the checksum. -/
theorem crc_rejoined (crc : Half) :
    (((crc >>> 8) &&& 0xFF).setWidth 8 : Byte).setWidth 16 <<< 8 |||
      ((crc &&& 0xFF).setWidth 8 : Byte).setWidth 16=crc := by
  apply BitVec.eq_of_getLsbD_eq
  intro i hi
  interval_cases i <;> simp

/-- A short length survives its byte. -/
theorem length_toNat {n : ℕ} (h : n≤8) : (BitVec.ofNat 8 n).toNat=n := by
  rw [BitVec.toNat_ofNat,Nat.mod_eq_of_lt (by omega)]

/-- The header of a frame leads to its payload or, without one, to its checksum. -/
theorem uartIsrBytes_header {s : UartRx} (hidle : s.rxState=.idle) (f : UartFrame) :
    uartIsrBytes s [uartFrameHead,f.type,0,BitVec.ofNat 8 f.payload.length]=
      ({s with
        rxState := if 0 < f.payload.length then .data else .crcH
        rxType := f.type
        rxLen := BitVec.ofNat 8 f.payload.length
        rxIndex := 0},[]) := by
  have hlen := length_toNat f.fits
  simp [uartIsrBytes_cons,uartIsr,hidle,f.known,hlen,f.fits]

/-- The remaining payload bytes complete the buffer and lead to the checksum. -/
theorem uartIsrBytes_payload {s : UartRx} (hdata : s.rxState=.data) (done : List Byte)
    {rest : List Byte} (hindex : s.rxIndex.toNat=done.length)
    (hlen : s.rxLen.toNat=done.length+rest.length) (hfits : s.rxLen.toNat≤8) (hrest : rest≠[])
    (hbuffer : s.rxBuffer.toList.take done.length=done) :
    ∃ buffer index,uartIsrBytes s rest=
      ({s with rxState := .crcH,rxBuffer := buffer,rxIndex := index},[]) ∧
      buffer.toList.take s.rxLen.toNat=done++rest := by
  induction rest generalizing s done with
  | nil => exact absurd rfl hrest
  | cons b rest ih =>
    rw [List.length_cons] at hlen
    have hidx : (s.rxIndex+1).toNat=done.length+1 := by
      rw [BitVec.toNat_add,hindex]
      simp only [BitVec.reduceToNat]
      omega
    have hstored : (s.rxBuffer.setIfInBounds s.rxIndex.toNat b).toList.take (done.length+1)=
        done++[b] := by
      rw [hindex,Vector.toList_setIfInBounds,List.take_add_one,List.take_set_of_le le_rfl,hbuffer,
        List.getElem?_set_self (by rw [Vector.length_toList]; omega)]
      rfl
    have hstep : uartIsr s b=({s with
        rxBuffer := s.rxBuffer.setIfInBounds s.rxIndex.toNat b
        rxIndex := s.rxIndex+1
        rxState := if s.rxLen.toNat ≤ (s.rxIndex+1).toNat then .crcH else .data},none) := by
      simp only [uartIsr,hdata]
    rw [uartIsrBytes_cons,hstep]
    cases rest with
    | nil =>
      have hle : s.rxLen.toNat ≤ (s.rxIndex+1).toNat := by
        rw [hidx,hlen]
        simp
      have hwhole : (s.rxBuffer.setIfInBounds s.rxIndex.toNat b).toList.take s.rxLen.toNat=
          done++[b] := by
        rw [hlen]
        exact hstored
      refine ⟨s.rxBuffer.setIfInBounds s.rxIndex.toNat b,s.rxIndex+1,?_,hwhole⟩
      simp only [uartIsrBytes_nil,hle,if_true,Option.toList_none,List.append_nil]
    | cons c cs =>
      have hgt : ¬s.rxLen.toNat ≤ (s.rxIndex+1).toNat := by
        rw [hidx,hlen,List.length_cons]
        omega
      simp only [hgt,if_false,Option.toList_none,List.nil_append]
      have hgrown : (done++[b]).length=done.length+1 := by simp
      obtain ⟨buffer,index,hrun,hwhole⟩ := ih (s := {s with
          rxBuffer := s.rxBuffer.setIfInBounds s.rxIndex.toNat b
          rxIndex := s.rxIndex+1
          rxState := .data}) rfl (done++[b]) (hidx.trans hgrown.symm)
        (by simp only [hgrown]; omega) hfits
        (List.cons_ne_nil c cs) (by simpa only [hgrown] using hstored)
      refine ⟨buffer,index,?_,?_⟩
      · rw [hrun]
      · rw [hwhole,List.append_assoc,List.singleton_append]

/-- The two checksum bytes queue the frame whose payload fills the buffer. -/
theorem uartIsrBytes_checksum {s : UartRx} (hcrc : s.rxState=.crcH) {payload : List Byte}
    (hbuffer : s.rxBuffer.toList.take s.rxLen.toNat=payload) :
    uartIsrBytes s [((crc16Ccitt payload >>> 8) &&& 0xFF).setWidth 8,
        (crc16Ccitt payload &&& 0xFF).setWidth 8]=
      ({s with rxState := .idle,rxCrc := crc16Ccitt payload},[⟨s.rxType,payload,s.rxLen⟩]) := by
  simp only [uartIsrBytes_cons,uartIsrBytes_nil,uartIsr,hcrc,crc_rejoined,hbuffer,if_true,
    Option.toList_none,Option.toList_some,List.nil_append,List.append_nil]

/-- From the header on, whatever the payload, the buffer is filled and the
checksum is next. -/
theorem uartIsrBytes_body {s : UartRx} (hidle : s.rxState=.idle) (f : UartFrame) :
    ∃ t,uartIsrBytes s ([uartFrameHead,f.type,0,BitVec.ofNat 8 f.payload.length]++f.payload)=
      (t,[]) ∧ t.rxState=.crcH ∧ t.rxType=f.type ∧ t.rxLen=BitVec.ofNat 8 f.payload.length ∧
      t.rxBuffer.toList.take t.rxLen.toNat=f.payload := by
  have hlen := length_toNat f.fits
  rw [uartIsrBytes_append,uartIsrBytes_header hidle]
  cases hp : f.payload with
  | nil => exact ⟨_,rfl,rfl,rfl,rfl,rfl⟩
  | cons b bs =>
    rw [hp] at hlen
    have hfits := hp ▸ f.fits
    obtain ⟨buffer,index,hrun,hwhole⟩ := uartIsrBytes_payload (s := {s with
        rxState := .data
        rxType := f.type
        rxLen := BitVec.ofNat 8 (b::bs).length
        rxIndex := 0}) rfl [] rfl (by simpa using hlen) (by simpa only [hlen] using hfits)
      (List.cons_ne_nil b bs) rfl
    have hpos : 0 < (b::bs).length := Nat.succ_pos _
    simp only [hpos,if_true,hrun,List.nil_append]
    exact ⟨_,rfl,rfl,rfl,rfl,hwhole⟩

/-- One frame from idle is queued as it was sent, and the receiver is idle
again once the tail byte is through. -/
theorem uartIsrBytes_sent {s : UartRx} (hidle : s.rxState=.idle) (f : UartFrame) :
    ∃ t,uartIsrBytes s f.sent=(t,[f.queued]) ∧ t.rxState=.idle := by
  obtain ⟨t,hrun,hcrc,htype,hlen,hbuffer⟩ := uartIsrBytes_body hidle f
  have htail : ∀ u : UartRx,u.rxState=.idle → uartIsrBytes u [uartFrameTail]=(u,[]) := by
    intro u hu
    simp [uartIsrBytes_cons,uartIsr,hu,uartFrameHead,uartFrameTail]
  have hsplit : f.sent=([uartFrameHead,f.type,0,BitVec.ofNat 8 f.payload.length]++f.payload)++
      ([((crc16Ccitt f.payload >>> 8) &&& 0xFF).setWidth 8,
        (crc16Ccitt f.payload &&& 0xFF).setWidth 8]++[uartFrameTail]) := rfl
  refine ⟨{t with rxState := .idle,rxCrc := crc16Ccitt f.payload},?_,rfl⟩
  rw [hsplit,uartIsrBytes_append,hrun,uartIsrBytes_append,uartIsrBytes_checksum hcrc hbuffer,
    htail _ rfl,htype,hlen]
  rfl

/-- Frames sent one after the other are queued one after the other. -/
theorem uartIsrBytes_frames {s : UartRx} (hidle : s.rxState=.idle) (frames : List UartFrame) :
    ∃ t,uartIsrBytes s (frames.flatMap UartFrame.sent)=(t,frames.map UartFrame.queued) ∧
      t.rxState=.idle := by
  induction frames generalizing s with
  | nil => exact ⟨s,rfl,hidle⟩
  | cons f fs ih =>
    obtain ⟨t,hrun,ht⟩ := uartIsrBytes_sent hidle f
    obtain ⟨u,hruns,hu⟩ := ih ht
    refine ⟨u,?_,hu⟩
    rw [List.flatMap_cons,uartIsrBytes_append,hrun,hruns]
    rfl

end RoundTrip

section Queue

/-- What happens on the port: a byte arrives, or the upgrade thread takes a frame. -/
inductive UartEvent where
  /-- A byte raises the interrupt. -/
  | byte (b : Byte)
  /-- The upgrade thread takes the oldest frame, if there is one. -/
  | get

/-- The port: the statics of the handler and `uart_msgq`. -/
structure UartPort where
  /-- The statics of the handler. -/
  rx : UartRx
  /-- `uart_msgq`, oldest first. -/
  msgq : List FwUartFrame

/-- Depth of `uart_msgq`. -/
def uartMsgqDepth : ℕ := 8

/-- `k_msgq_put` without waiting: a full queue drops the frame. -/
def msgqPut (msgq : List FwUartFrame) (frame : FwUartFrame) : List FwUartFrame :=
  if msgq.length < uartMsgqDepth then msgq++[frame] else msgq

/-- The port after an event. -/
def portNext (p : UartPort) : UartEvent → UartPort
  | .byte b =>
    let r := uartIsr p.rx b
    ⟨r.1,r.2.toList.foldl msgqPut p.msgq⟩
  | .get => ⟨p.rx,p.msgq.tail⟩

/-- The frame that the upgrade thread takes on an event. -/
def portTaken (p : UartPort) : UartEvent → List FwUartFrame
  | .byte _ => []
  | .get => p.msgq.head?.toList

/-- The bytes of an event. -/
def UartEvent.bytes : UartEvent → List Byte
  | .byte b => [b]
  | .get => []

/-- The queue is not full when a byte completes a frame. -/
def HasRoom (p : UartPort) : UartEvent → Prop
  | .byte b => (uartIsr p.rx b).2.isSome → p.msgq.length < uartMsgqDepth
  | .get => True

instance (p : UartPort) : (e : UartEvent) → Decidable (HasRoom p e)
  | .byte b => inferInstanceAs
      (Decidable ((uartIsr p.rx b).2.isSome → p.msgq.length < uartMsgqDepth))
  | .get => isTrue trivial

/-- With room in the queue, the frames taken and the frames still queued are
the frames that the handler completed, in order. -/
theorem port_frames {p : UartPort} {es : List UartEvent} (hroom : AlongRun portNext HasRoom p es) :
    (outputs portNext portTaken p es).flatten++(finalState portNext p es).msgq=
      p.msgq++(uartIsrBytes p.rx (es.flatMap UartEvent.bytes)).2 ∧
    (finalState portNext p es).rx=(uartIsrBytes p.rx (es.flatMap UartEvent.bytes)).1 := by
  induction es generalizing p with
  | nil => simp [outputs,finalState]
  | cons e es ih =>
    obtain ⟨hhead,htail⟩ := hroom
    obtain ⟨hmsgs,hrx⟩ := ih htail
    rw [List.flatMap_cons,uartIsrBytes_append]
    refine ⟨?_,hrx.trans ?_⟩
    · rw [outputs,List.flatten_cons,List.append_assoc]
      cases e with
      | byte b =>
        have hput : (uartIsr p.rx b).2.toList.foldl msgqPut p.msgq=
            p.msgq++(uartIsr p.rx b).2.toList := by
          cases hf : (uartIsr p.rx b).2 with
          | none => simp
          | some f =>
            have hlt := hhead (by simp [hf])
            simp [msgqPut,hlt]
        simp only [portTaken,List.nil_append,UartEvent.bytes,uartIsrBytes_cons,uartIsrBytes_nil,
          List.append_nil]
        rw [finalState] at hmsgs ⊢
        rw [List.foldl_cons,hmsgs]
        simp only [portNext,hput,List.append_assoc]
      | get =>
        have htaken : p.msgq.head?.toList++p.msgq.tail=p.msgq := by
          cases p.msgq <;> rfl
        simp only [portTaken,UartEvent.bytes,uartIsrBytes_nil,List.nil_append]
        rw [finalState] at hmsgs ⊢
        rw [List.foldl_cons,hmsgs]
        simp only [portNext]
        rw [←List.append_assoc,htaken]
    · cases e <;> rfl

/-- Whatever the frames and however the upgrade thread keeps up, frames sent
to an idle receiver whose queue has room come out of the queue in order with
their type, length and payload, and the receiver is idle again. -/
theorem uart_frames_roundTrip {p : UartPort} (hidle : p.rx.rxState=.idle)
    {frames : List UartFrame} {es : List UartEvent}
    (hbytes : es.flatMap UartEvent.bytes=frames.flatMap UartFrame.sent)
    (hroom : AlongRun portNext HasRoom p es) :
    (outputs portNext portTaken p es).flatten++(finalState portNext p es).msgq=
      p.msgq++frames.map UartFrame.queued ∧
    (finalState portNext p es).rx.rxState=.idle := by
  obtain ⟨hmsgs,hrx⟩ := port_frames hroom
  obtain ⟨t,hrun,ht⟩ := uartIsrBytes_frames hidle frames
  rw [hbytes,hrun] at hmsgs hrx
  exact ⟨hmsgs,by rw [hrx]; exact ht⟩

/-- An empty frame and a frame of marker bytes, the first taken before the second arrives. -/
theorem uart_frames_roundTrip_markers :
    (outputs portNext portTaken ⟨uartRxStart,[]⟩
      ((uartSendFrame 1 []).map .byte++.get::(uartSendFrame 2 [0xAA,0x55]).map .byte)).flatten++
    (finalState portNext ⟨uartRxStart,[]⟩
      ((uartSendFrame 1 []).map .byte++.get::(uartSendFrame 2 [0xAA,0x55]).map .byte)).msgq=
      [⟨1,[],0⟩,⟨2,[0xAA,0x55],2⟩] :=
  (@uart_frames_roundTrip ⟨uartRxStart,[]⟩ rfl
    [⟨1,[],Or.inl rfl,by decide⟩,⟨2,[0xAA,0x55],Or.inr rfl,by decide⟩] _
    (by decide +kernel) (by decide +kernel)).1

end Queue

end ZephyrApp.UartFraming

import ZephyrApp.UartFraming

/-!
# What the bootloader's serial port accepts

The documented frame is compared with the bytes that the interrupt handler has
consumed when it queues one. The handler keeps the length in one byte, so that
the high length byte is lost, and does not wait for the tail byte. Over a stream
of bytes it queues documented frames only exactly if, where it queues one, the
high length byte was zero and the tail byte is next.
-/

namespace ZephyrApp.UartFraming

open EventRuns MachineBytes

section Grammar

/-- The bytes of a frame with this payload: head, type, length, payload,
checksum and tail. -/
def wireBytes (type hi lo : Byte) (data : List Byte) (crcH crcL tail : Byte) : List Byte :=
  [uartFrameHead,type,hi,lo]++data++[crcH,crcL,tail]

/-- The bytes are a frame as documented, and the queued frame is what they say. -/
def Documented (wire : List Byte) (f : FwUartFrame) : Prop :=
  ∃ hi lo crcH crcL,wire=wireBytes f.type hi lo f.data crcH crcL uartFrameTail ∧
    (f.type=uartFrameCmd ∨ f.type=uartFrameData) ∧ f.data.length≤8 ∧
    hi.toNat*256+lo.toNat=f.data.length ∧ f.len.toNat=f.data.length ∧
    crc16Ccitt f.data=crcH.setWidth 16 <<< 8 ||| crcL.setWidth 16

/-- The statics after a stream of bytes from the start. -/
def rxAfter (bytes : List Byte) : UartRx := (uartIsrBytes uartRxStart bytes).1

/-- Whenever a byte makes the handler queue a frame, what was consumed since it
was last idle, with the byte that follows, is that frame as documented. -/
def FramesDocumented (bytes : List Byte) : Prop :=
  ∀ pre b post f,bytes=pre++b::post → (uartIsr (rxAfter pre) b).2=some f →
    ∃ skipped wire rest,bytes=skipped++wire++rest ∧ skipped.length+wire.length=pre.length+2 ∧
      (rxAfter skipped).rxState=.idle ∧ Documented wire f

/-- The index stays within the buffer, and the next payload byte is stored
inside it. -/
def IndexKept (bytes : List Byte) : Prop :=
  ∀ pre,pre<+:bytes → (rxAfter pre).rxIndex.toNat≤8 ∧
    ((rxAfter pre).rxState=.data → (rxAfter pre).rxIndex.toNat < 8)

/-- A byte that completes the checksum comes after a high length byte of zero
and before a tail byte. -/
def StrictlyFramed (bytes : List Byte) : Prop :=
  ∀ pre b post,bytes=pre++b::post → (rxAfter pre).rxState=.crcL →
    crc16Ccitt ((rxAfter pre).rxBuffer.toList.take (rxAfter pre).rxLen.toNat)=
        (rxAfter pre).rxCrc ||| b.setWidth 16 →
      pre.reverse[(rxAfter pre).rxLen.toNat+2]?=some 0 ∧ post.head?=some uartFrameTail

end Grammar

section Consumed

/-- What a state of the handler says about the bytes consumed since it was
last idle. -/
inductive Reading (s : UartRx) : List Byte → Prop
  /-- Nothing is consumed. -/
  | idle (state : s.rxState=.idle) : Reading s []
  /-- The head byte is consumed. -/
  | type (state : s.rxState=.type) : Reading s [uartFrameHead]
  /-- Head and type are consumed. -/
  | lenH (state : s.rxState=.lenH) : Reading s [uartFrameHead,s.rxType]
  /-- The high length byte is consumed, and nothing of it is kept. -/
  | lenL (hi : Byte) (state : s.rxState=.lenL) (lost : s.rxLen=0) :
      Reading s [uartFrameHead,s.rxType,hi]
  /-- Part of the payload is consumed and buffered. -/
  | data (hi : Byte) (data : List Byte) (state : s.rxState=.data)
      (index : s.rxIndex.toNat=data.length)
      (buffered : s.rxBuffer.toList.take data.length=data) :
      Reading s ([uartFrameHead,s.rxType,hi,s.rxLen]++data)
  /-- The payload is consumed and buffered. -/
  | crcH (hi : Byte) (data : List Byte) (state : s.rxState=.crcH)
      (len : s.rxLen.toNat=data.length)
      (buffered : s.rxBuffer.toList.take data.length=data) :
      Reading s ([uartFrameHead,s.rxType,hi,s.rxLen]++data)
  /-- The high checksum byte is consumed. -/
  | crcL (hi crc : Byte) (data : List Byte) (state : s.rxState=.crcL)
      (len : s.rxLen.toNat=data.length)
      (buffered : s.rxBuffer.toList.take data.length=data)
      (high : s.rxCrc=crc.setWidth 16 <<< 8) :
      Reading s ([uartFrameHead,s.rxType,hi,s.rxLen]++data++[crc])

variable {s : UartRx} {read : List Byte}

/-- A payload byte is stored behind those buffered. -/
theorem buffered_setIfInBounds {buffer : Vector Byte 8} {data : List Byte}
    (h : buffer.toList.take data.length=data) (hroom : data.length < 8) (b : Byte) :
    (buffer.setIfInBounds data.length b).toList.take (data++[b]).length=data++[b] := by
  rw [List.length_append,List.length_singleton,Vector.toList_setIfInBounds,List.take_add_one,
    List.take_set_of_le le_rfl,h,List.getElem?_set_self (by rw [Vector.length_toList]; omega)]
  rfl

/-- The low length byte is all that is known of the length; beyond eight the handler
is idle. -/
theorem reading_lenL (hs : Bounded s) {hi : Byte} (state : s.rxState=.lenL) (lost : s.rxLen=0)
    (b : Byte) :
    (uartIsr s b).1.rxState=.idle ∨
      Reading (uartIsr s b).1 ([uartFrameHead,s.rxType,hi]++[b]) := by
  have hlen : s.rxLen ||| b=b := by rw [lost]; exact BitVec.zero_or
  by_cases hshort : b.toNat≤8
  · refine Or.inr ?_
    have htype : (uartIsr s b).1.rxType=s.rxType := by simp only [uartIsr,state]
    have hkept : (uartIsr s b).1.rxLen=b := by simp only [uartIsr,state,hlen]
    have hindex : (uartIsr s b).1.rxIndex=0 := by
      simp only [uartIsr,state]
      exact hs.start (Or.inr state)
    by_cases hsome : 0 < b.toNat
    · have hread := Reading.data (s := (uartIsr s b).1) hi []
        (by simp only [uartIsr,state,hlen,if_pos hshort,if_pos hsome])
        (by rw [hindex]; rfl) rfl
      rwa [htype,hkept,List.append_nil] at hread
    · have hread := Reading.crcH (s := (uartIsr s b).1) hi []
        (by simp only [uartIsr,state,hlen,if_pos hshort,if_neg hsome])
        (by rw [hkept,List.length_nil]; omega) rfl
      rwa [htype,hkept,List.append_nil] at hread
  · refine Or.inl ?_
    simp only [uartIsr,state,hlen,if_neg hshort]

/-- A payload byte is buffered behind the others. -/
theorem reading_data (hs : Bounded s) {hi : Byte} {data : List Byte} (state : s.rxState=.data)
    (index : s.rxIndex.toNat=data.length) (buffered : s.rxBuffer.toList.take data.length=data)
    (b : Byte) :
    Reading (uartIsr s b).1 ([uartFrameHead,s.rxType,hi,s.rxLen]++data++[b]) := by
  have hlt := hs.index state
  have hfits := hs.len (Or.inl state)
  rw [index] at hlt
  have hnext : (s.rxIndex+1).toNat=data.length+1 := by
    rw [BitVec.toNat_add,index]
    simp only [BitVec.reduceToNat]
    omega
  have hgrown : (data++[b]).length=data.length+1 := by
    rw [List.length_append,List.length_singleton]
  have hkept : (uartIsr s b).1.rxType=s.rxType ∧ (uartIsr s b).1.rxLen=s.rxLen := by
    simp only [uartIsr,state,and_self]
  have hstored : (uartIsr s b).1.rxBuffer.toList.take (data++[b]).length=data++[b] := by
    simp only [uartIsr,state,index]
    exact buffered_setIfInBounds buffered (by omega) b
  by_cases hdone : s.rxLen.toNat ≤ (s.rxIndex+1).toNat
  · have hread := Reading.crcH (s := (uartIsr s b).1) hi (data++[b])
      (by simp only [uartIsr,state,if_pos hdone]) (by rw [hkept.2,hgrown]; omega) hstored
    rwa [hkept.1,hkept.2,←List.append_assoc] at hread
  · have hread := Reading.data (s := (uartIsr s b).1) hi (data++[b])
      (by simp only [uartIsr,state,if_neg hdone])
      (by rw [hgrown,←hnext]; simp only [uartIsr,state]) hstored
    rwa [hkept.1,hkept.2,←List.append_assoc] at hread

/-- A byte adds to what is consumed, unless the handler is idle after it. -/
theorem reading_step (hs : Bounded s) (h : Reading s read) (b : Byte) :
    (uartIsr s b).1.rxState=.idle ∨ Reading (uartIsr s b).1 (read++[b]) := by
  cases h with
  | idle state =>
    by_cases hb : b=uartFrameHead
    · refine Or.inr ?_
      rw [hb]
      exact .type (by simp only [uartIsr,state,if_true])
    · refine Or.inl ?_
      simp only [uartIsr,state,if_neg hb]
  | type state =>
    by_cases hb : b=uartFrameCmd ∨ b=uartFrameData
    · refine Or.inr ?_
      have htype : (uartIsr s b).1.rxType=b := by simp only [uartIsr,state,if_pos hb]
      have hread := Reading.lenH (s := (uartIsr s b).1) (by simp only [uartIsr,state,if_pos hb])
      rwa [htype] at hread
    · refine Or.inl ?_
      simp only [uartIsr,state,if_neg hb]
  | lenH state =>
    refine Or.inr ?_
    have htype : (uartIsr s b).1.rxType=s.rxType := by simp only [uartIsr,state]
    have hlost : (b.setWidth 32 <<< 8).setWidth 8=(0 : Byte) := by
      apply BitVec.eq_of_getLsbD_eq
      intro i hi
      simp
    have hread := Reading.lenL (s := (uartIsr s b).1) b (by simp only [uartIsr,state])
      (by simp only [uartIsr,state]; exact hlost)
    rwa [htype] at hread
  | lenL hi state lost => exact reading_lenL hs state lost b
  | data hi data state index buffered => exact Or.inr (reading_data hs state index buffered b)
  | crcH hi data state len buffered =>
    refine Or.inr ?_
    have hkept : (uartIsr s b).1.rxType=s.rxType ∧ (uartIsr s b).1.rxLen=s.rxLen := by
      simp only [uartIsr,state,and_self]
    have hread := Reading.crcL (s := (uartIsr s b).1) hi b data (by simp only [uartIsr,state])
      (by rw [hkept.2,len]) (by simp only [uartIsr,state]; exact buffered)
      (by simp only [uartIsr,state])
    rwa [hkept.1,hkept.2] at hread
  | crcL hi crc data state len buffered high =>
    refine Or.inl ?_
    simp only [uartIsr,state]

end Consumed

section Streams

/-- One more byte. -/
theorem rxAfter_concat (bytes : List Byte) (b : Byte) :
    rxAfter (bytes++[b])=(uartIsr (rxAfter bytes) b).1 := by
  rw [rxAfter,uartIsrBytes_append]
  rfl

/-- The statics are bounded after every stream. -/
theorem bounded_rxAfter (bytes : List Byte) : Bounded (rxAfter bytes) := by
  induction bytes using List.reverseRecOn with
  | nil => exact bounded_start
  | append_singleton bytes b ih =>
    rw [rxAfter_concat]
    exact bounded_uartIsr ih b

/-- Every stream splits where the handler was last idle. -/
theorem reading_rxAfter (bytes : List Byte) : ∃ skipped read,bytes=skipped++read ∧
    (rxAfter skipped).rxState=.idle ∧ Reading (rxAfter bytes) read := by
  induction bytes using List.reverseRecOn with
  | nil => exact ⟨[],[],rfl,rfl,.idle rfl⟩
  | append_singleton bytes b ih =>
    obtain ⟨skipped,read,rfl,hidle,hread⟩ := ih
    have hstep := reading_step (bounded_rxAfter _) hread b
    rw [←rxAfter_concat] at hstep
    rcases hstep with hback | hmore
    · exact ⟨skipped++read++[b],[],(List.append_nil _).symm,hback,.idle hback⟩
    · exact ⟨skipped,read++[b],List.append_assoc _ _ _,hidle,hmore⟩

/-- The index of every state stays within the buffer. -/
theorem index_rxAfter (bytes : List Byte) : (rxAfter bytes).rxIndex.toNat≤8 := by
  induction bytes using List.reverseRecOn with
  | nil => decide
  | append_singleton bytes b ih =>
    have hs := bounded_rxAfter bytes
    rw [rxAfter_concat]
    cases hstate : (rxAfter bytes).rxState with
    | idle =>
      simp only [uartIsr,hstate]
      split <;> exact ih
    | type =>
      simp only [uartIsr,hstate]
      split
      · exact Nat.zero_le 8
      · exact ih
    | data =>
      have hlt := hs.index hstate
      have hfits := hs.len (Or.inl hstate)
      simp only [uartIsr,hstate]
      rw [BitVec.toNat_add]
      simp only [BitVec.reduceToNat]
      omega
    | _ => simpa only [uartIsr,hstate] using ih

/-- The index and all stores are within the buffer in every stream. -/
theorem indexKept (bytes : List Byte) : IndexKept bytes := fun pre _ =>
  have hs := bounded_rxAfter pre
  ⟨index_rxAfter pre,fun hstate =>
    Nat.lt_of_lt_of_le (hs.index hstate) (hs.len (Or.inl hstate))⟩

/-- A frame is queued exactly by a byte that completes its checksum. -/
theorem uartIsr_queued {s : UartRx} {b : Byte} {f : FwUartFrame} :
    (uartIsr s b).2=some f ↔ s.rxState=.crcL ∧
      crc16Ccitt (s.rxBuffer.toList.take s.rxLen.toNat)=s.rxCrc ||| b.setWidth 16 ∧
      f=⟨s.rxType,s.rxBuffer.toList.take s.rxLen.toNat,s.rxLen⟩ := by
  cases hstate : s.rxState with
  | crcL =>
    simp only [uartIsr,hstate,true_and]
    split
    · rename_i hcrc
      rw [Option.some.injEq,and_iff_right hcrc,eq_comm]
    · rename_i hcrc
      simp only [hcrc,false_and,reduceCtorEq]
  | _ => simp only [uartIsr,hstate,reduceCtorEq,false_and]

/-- Before the last checksum byte the stream ends in a header, its payload and
the high checksum byte. -/
theorem consumed_crcL {pre : List Byte} (hstate : (rxAfter pre).rxState=.crcL) :
    ∃ (skipped : List Byte) (hi : Byte) (data : List Byte) (crc : Byte),
      pre=skipped++([uartFrameHead,(rxAfter pre).rxType,hi,(rxAfter pre).rxLen]++data++[crc]) ∧
      (rxAfter skipped).rxState=.idle ∧ (rxAfter pre).rxLen.toNat=data.length ∧
      (rxAfter pre).rxBuffer.toList.take data.length=data ∧
      (rxAfter pre).rxCrc=crc.setWidth 16 <<< 8 := by
  obtain ⟨skipped,read,hpre,hidle,hread⟩ := reading_rxAfter pre
  cases hread with
  | crcL hi crc data state len buffered high =>
    exact ⟨skipped,hi,data,crc,hpre,hidle,len,buffered,high⟩
  | idle state => rw [hstate] at state; cases state
  | type state => rw [hstate] at state; cases state
  | lenH state => rw [hstate] at state; cases state
  | lenL hi state lost => rw [hstate] at state; cases state
  | data hi data state index buffered => rw [hstate] at state; cases state
  | crcH hi data state len buffered => rw [hstate] at state; cases state

/-- The high length byte stands two places before the payload and the checksum
byte that end a stream. -/
theorem high_byte_at (skipped data : List Byte) (type hi lo crc : Byte) :
    (skipped++([uartFrameHead,type,hi,lo]++data++[crc])).reverse[data.length+2]?=some hi := by
  have hsplit : (skipped++([uartFrameHead,type,hi,lo]++data++[crc])).reverse=
      (crc::data.reverse++[lo])++(hi::type::uartFrameHead::skipped.reverse) := by
    simp
  have hlen : (crc::data.reverse++[lo]).length=data.length+2 := by simp
  rw [hsplit,List.getElem?_append_right (le_of_eq hlen),hlen,Nat.sub_self]
  rfl

/-- Over every stream of bytes, only documented frames are queued, and the index
stays within the buffer, exactly if every byte that completes a checksum comes
after a high length byte of zero and before a tail byte. -/
theorem parser_sound_iff (bytes : List Byte) :
    FramesDocumented bytes ∧ IndexKept bytes ↔ StrictlyFramed bytes := by
  constructor
  · rintro ⟨h,-⟩ pre b post hbytes hstate hcrc
    obtain ⟨skipped,wire,rest,hsplit,hlength,-,hi,lo,crcH,crcL,rfl,-,hshort,hvalue,hlen,-⟩ :=
      h pre b post _ hbytes (uartIsr_queued.mpr ⟨hstate,hcrc,rfl⟩)
    set f : FwUartFrame := ⟨(rxAfter pre).rxType,_,(rxAfter pre).rxLen⟩
    -- the documented bytes end right after this one
    have hwire : skipped++wireBytes f.type hi lo f.data crcH crcL uartFrameTail++rest=
        (skipped++([uartFrameHead,f.type,hi,lo]++f.data++[crcH]))++crcL::uartFrameTail::rest := by
      simp [wireBytes]
    rw [hbytes,hwire] at hsplit
    obtain ⟨hpre,hpost⟩ := List.append_inj hsplit (by
      simp only [wireBytes,List.length_append,List.length_cons,List.length_nil] at hlength ⊢
      omega)
    obtain ⟨-,hpost⟩ := List.cons.inj hpost
    have hzero : hi=0 := BitVec.eq_of_toNat_eq (by
      change hi.toNat=0
      omega)
    have hcount : (rxAfter pre).rxLen.toNat=f.data.length := hlen
    refine ⟨?_,by rw [hpost]; rfl⟩
    rw [hcount,hpre,high_byte_at,hzero]
  · refine fun h => ⟨fun pre b post f hbytes hf => ?_,indexKept bytes⟩
    obtain ⟨hstate,hcrc,rfl⟩ := uartIsr_queued.mp hf
    obtain ⟨hhigh,htail⟩ := h pre b post hbytes hstate hcrc
    obtain ⟨skipped,hi,data,crc,hpre,hidle,hlen,hbuffer,hcrcH⟩ := consumed_crcL hstate
    have hs := bounded_rxAfter pre
    have hzero : hi=0 := by
      rw [hlen] at hhigh
      generalize rxAfter pre=s at hpre hhigh
      rw [hpre,high_byte_at] at hhigh
      exact Option.some.inj hhigh
    obtain ⟨rest,rfl⟩ : ∃ rest,post=uartFrameTail::rest := by
      cases post with
      | nil => cases htail
      | cons c rest => exact ⟨rest,by rw [Option.some.inj htail]⟩
    rw [hlen,hbuffer] at hcrc ⊢
    refine ⟨skipped,wireBytes (rxAfter pre).rxType hi (rxAfter pre).rxLen data crc b
      uartFrameTail,rest,?_,?_,hidle,hi,(rxAfter pre).rxLen,crc,b,rfl,?_,?_,?_,hlen,?_⟩
    · rw [hbytes]
      generalize rxAfter pre=s at hpre
      rw [hpre]
      simp [wireBytes]
    · generalize rxAfter pre=s at hpre
      rw [hpre]
      simp [wireBytes]
      omega
    · exact hs.type (by rw [hstate]; decide) (by rw [hstate]; decide)
    · rw [←hlen]
      exact hs.len (Or.inr (Or.inr hstate))
    · rw [hzero]
      change 0*256+(rxAfter pre).rxLen.toNat=data.length
      omega
    · rw [←hcrcH]
      exact hcrc

/-- A command without payload is queued although its length reads 256. -/
theorem parser_unsound :
    ¬(FramesDocumented [0xAA,1,1,0,0xFF,0xFF,0x55] ∧ IndexKept [0xAA,1,1,0,0xFF,0xFF,0x55]) := by
  rintro ⟨h,-⟩
  obtain ⟨skipped,wire,rest,hsplit,hlength,-,hi,lo,crcH,crcL,rfl,-,-,hvalue,-,-⟩ :=
    h [0xAA,1,1,0,0xFF] 0xFF [0x55] ⟨1,[],0⟩ rfl (by decide +kernel)
  have hnone : skipped=[] := List.length_eq_zero_iff.mp (by
    simp only [wireBytes,List.length_append,List.length_cons,List.length_nil] at hlength
    omega)
  rw [hnone] at hsplit
  simp only [wireBytes,List.nil_append,List.append_nil,List.cons_append,List.cons.injEq] at hsplit
  rw [←hsplit.2.2.1] at hvalue
  simp at hvalue

end Streams

end ZephyrApp.UartFraming

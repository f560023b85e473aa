import ZephyrApp.I2cBus

/-!
# The bit-banged bus master

The primitives of the serial memory's driver, as they move the two lines: start
and stop, a byte sent and a byte received, and the wait for the acknowledgement
with its bounded number of polls. What the master puts on the bus is the same
for every device up to the acknowledgements; a device of bytes that does not
change by itself receives the bytes that were sent, and its bytes are received.
-/

namespace ZephyrApp.IicMaster

open MachineBytes I2cBus

section Primitives

variable {δ : Type} (T : Target δ) (s : Bus δ)

/-- `IIC_Init`: the pins keep their levels when they are configured. -/
def iicInit : Bus δ := (s.setScl T true).setSda T true

/-- `IIC_Start`. -/
def iicStart : Bus δ :=
  let s := s.setSda T true
  let s := s.setScl T true
  let s := s.wait T 4
  let s := s.setSda T false
  let s := s.wait T 4
  s.setScl T false

/-- `IIC_Stop`. -/
def iicStop : Bus δ :=
  let s := s.setScl T false
  let s := s.setSda T false
  let s := s.wait T 4
  let s := s.setScl T true
  let s := s.wait T 4
  s.setSda T true

/-- The polls of `MCU_Wait_Ack` with so many left before `WaitTime` exceeds its
limit. -/
def ackLoop : ℕ → Bus δ → Byte×Bus δ
  | 0,s => (1,iicStop T s)
  | left+1,s =>
    let look := s.sample T
    if look.1 then ackLoop left look.2 else (0,look.2.setScl T false)

/-- `MCU_Wait_Ack`. -/
def mcuWaitAck : Byte×Bus δ :=
  let s := s.setSda T true
  let s := s.wait T 1
  let s := s.setScl T true
  let s := s.wait T 1
  ackLoop T 251 s

/-- `MCU_Send_Ack`. -/
def mcuSendAck : Bus δ :=
  let s := s.setScl T false
  let s := s.setSda T false
  let s := s.wait T 2
  let s := s.setScl T true
  let s := s.wait T 2
  s.setScl T false

/-- `MCU_NOAck`. -/
def mcuNoAck : Bus δ :=
  let s := s.setScl T false
  let s := s.setSda T true
  let s := s.wait T 4
  let s := s.setScl T true
  let s := s.wait T 4
  s.setScl T false

/-- The loop of `IIC_write_OneByte`. -/
def writeBits : ℕ → Byte → Bus δ → Bus δ
  | 0,_,s => s
  | n+1,senddata,s =>
    let s := s.setSda T ((senddata &&& 0x80)>>>7≠0)
    let senddata := senddata<<<1
    let s := s.wait T 2
    let s := s.setScl T true
    let s := s.wait T 2
    let s := s.setScl T false
    let s := s.wait T 2
    writeBits n senddata s

/-- `IIC_write_OneByte`. -/
def iicWriteOneByte (senddata : Byte) : Bus δ := writeBits T 8 senddata (s.setScl T false)

/-- The loop of `IIC_Read_OneByte`. -/
def readBits : ℕ → Byte → Bus δ → Byte×Bus δ
  | 0,receivedata,s => (receivedata,s)
  | n+1,receivedata,s =>
    let s := s.setScl T false
    let s := s.wait T 2
    let s := s.setScl T true
    let receivedata := receivedata<<<1
    let look := s.sample T
    let receivedata := if look.1 then receivedata+1 else receivedata
    readBits n receivedata (look.2.wait T 1)

/-- `IIC_Read_OneByte`. -/
def iicReadOneByte (ack : Byte) : Byte×Bus δ :=
  let read := readBits T 8 0 s
  (read.1,if ack=0 then mcuNoAck T read.2 else mcuSendAck T read.2)

end Primitives

/-- The test of the top bit in the loop of a sent byte. -/
theorem top_bit (b : Byte) : decide ((b &&& 0x80)>>>7≠0)=b.msb := by
  revert b
  decide +kernel

section AnyDevice

variable {δ : Type} (T : Target δ) (s : Bus δ)

/-- The clocks of a byte on the bus. -/
def byteBits (b : Byte) : List Symbol := (shiftOut 8 b).map .bit

/-- A stop condition with the clock that precedes it. -/
def stopSymbols : List Symbol := [.bit false,.stop]

/-- A sent byte with the clock of its acknowledgement, which ends the transfer
when it is missing. -/
def byteSymbols (b : Byte) (acked : Bool) : List Symbol :=
  byteBits b++.bit true::if acked then [] else stopSymbols

/-- Both lines are released. -/
def Released : Prop := s.lines=⟨true,true⟩

/-- A start releases nothing and is preceded by a clock when the clock was low. -/
theorem iicStart_symbols (h : s.lines.scl=true → s.lines.sda=true) :
    (iicStart T s).lines=⟨false,false⟩ ∧
      (iicStart T s).sent=
        s.sent++(if s.lines.scl then [] else [.bit true])++[.start] := by
  obtain ⟨⟨scl,sda⟩,device,sent⟩ := s
  cases scl <;> cases sda <;> simp_all [iicStart,Edge.symbol]

/-- A stop releases both lines. -/
theorem iicStop_symbols :
    Released (iicStop T s) ∧ (iicStop T s).sent=s.sent++stopSymbols := by
  obtain ⟨⟨scl,sda⟩,device,sent⟩ := s
  cases scl <;> simp [iicStop,Released,Edge.symbol,stopSymbols]

/-- The clocks of the remaining bits. The clock stays low. -/
theorem writeBits_symbols (n : ℕ) (b : Byte) (h : s.lines.scl=false) :
    (writeBits T n b s).lines.scl=false ∧
      (writeBits T n b s).sent=s.sent++(shiftOut n b).map .bit := by
  induction n generalizing b s with
  | zero => exact ⟨h,by rw [shiftOut,List.map_nil,List.append_nil]; rfl⟩
  | succ n ih =>
    have hstep := ih ((((((s.setSda T ((b &&& 0x80)>>>7≠0)).wait T 2).setScl T true).wait T
      2).setScl T false).wait T 2) (b<<<1) rfl
    refine ⟨hstep.1,hstep.2.trans ?_⟩
    obtain ⟨⟨scl,sda⟩,device,sent⟩ := s
    obtain rfl : scl=false := h
    rw [shiftOut,List.map_cons,←top_bit]
    simp [Edge.symbol]

/-- A sent byte is eight clocks, most significant bit first. -/
theorem iicWriteOneByte_symbols (b : Byte) :
    (iicWriteOneByte T s b).lines.scl=false ∧
      (iicWriteOneByte T s b).sent=s.sent++byteBits b := by
  have hbits := writeBits_symbols T (s.setScl T false) 8 b rfl
  refine ⟨hbits.1,hbits.2.trans ?_⟩
  obtain ⟨⟨scl,sda⟩,device,sent⟩ := s
  cases scl <;> simp [Edge.symbol,byteBits]

/-- The polls end with the clock low and the data line released, or with a stop. -/
theorem ackLoop_symbols (left : ℕ) (h : s.lines=⟨true,true⟩) :
    ∃ acked : Bool,(ackLoop T left s).2.lines=⟨!acked,true⟩ ∧
      (ackLoop T left s).2.sent=s.sent++if acked then [] else stopSymbols := by
  induction left generalizing s with
  | zero =>
    obtain ⟨hlines,hsent⟩ := iicStop_symbols T s
    exact ⟨false,hlines,hsent⟩
  | succ left ih =>
    rw [ackLoop]
    split
    · exact ih (s.sample T).2 h
    · exact ⟨true,by simp [h],by simp [h,Edge.symbol]⟩

/-- The wait for an acknowledgement is one clock, and a stop if none came. -/
theorem mcuWaitAck_symbols (h : s.lines.scl=false) :
    ∃ acked : Bool,(mcuWaitAck T s).2.lines=⟨!acked,true⟩ ∧
      (mcuWaitAck T s).2.sent=
        s.sent++.bit true::if acked then [] else stopSymbols := by
  obtain ⟨acked,hlines,hsent⟩ := ackLoop_symbols T
    ((((s.setSda T true).wait T 1).setScl T true).wait T 1) 251 rfl
  refine ⟨acked,hlines,hsent.trans ?_⟩
  obtain ⟨⟨scl,sda⟩,device,sent⟩ := s
  obtain rfl : scl=false := h
  simp [Edge.symbol]

/-- A sent byte with the wait for its acknowledgement. -/
theorem sendByte_symbols (b : Byte) :
    ∃ acked : Bool,(mcuWaitAck T (iicWriteOneByte T s b)).2.lines=⟨!acked,true⟩ ∧
      (mcuWaitAck T (iicWriteOneByte T s b)).2.sent=s.sent++byteSymbols b acked := by
  obtain ⟨hlow,hbits⟩ := iicWriteOneByte_symbols T s b
  obtain ⟨acked,hlines,hsent⟩ := mcuWaitAck_symbols T (iicWriteOneByte T s b) hlow
  refine ⟨acked,hlines,hsent.trans ?_⟩
  rw [hbits,byteSymbols,List.append_assoc]

/-- The clocks of the bits that are read: the data line is released throughout. -/
theorem readBits_symbols (n : ℕ) (b : Byte) (h : s.lines.sda=true) :
    (readBits T n b s).2.lines.sda=true ∧
      (readBits T n b s).2.sent=s.sent++List.replicate n (.bit true) := by
  induction n generalizing b s with
  | zero => exact ⟨h,by rw [List.replicate_zero,List.append_nil]; rfl⟩
  | succ n ih =>
    have hstep := ih (((((s.setScl T false).wait T 2).setScl T true).sample T).2.wait T 1)
      (if ((((s.setScl T false).wait T 2).setScl T true).sample T).1 then b<<<1+1 else b<<<1) h
    refine ⟨hstep.1,hstep.2.trans ?_⟩
    obtain ⟨⟨scl,sda⟩,device,sent⟩ := s
    obtain rfl : sda=true := h
    rw [List.replicate_succ]
    cases scl <;> simp [Edge.symbol]

/-- A byte that is read without acknowledgement is nine clocks with the data line
released. -/
theorem iicReadOneByte_symbols (h : s.lines.sda=true) :
    (iicReadOneByte T s 0).2.sent=s.sent++List.replicate 9 (.bit true) := by
  obtain ⟨hsda,hsent⟩ := readBits_symbols T s 8 0 h
  rw [iicReadOneByte,if_pos rfl]
  generalize readBits T 8 0 s=read at hsda hsent
  obtain ⟨byte,⟨⟨scl,sda⟩,device,sent⟩⟩ := read
  obtain rfl : sda=true := hsda
  obtain rfl : sent=_ := hsent
  cases scl <;> simp [mcuNoAck,Edge.symbol,List.replicate]

end AnyDevice

section ByteDevice

variable {δ : Type} (B : ByteTarget δ) {s : Bus (Station δ)} {d : δ}

/-- The data line is free and the device waits for a start. -/
def Listening (stage : Stage) : Prop := stage=.idle ∨ ∃ first,stage=.receive first []

/-- A start, repeated or not, is seen by the device. -/
theorem iicStart_device {stage : Stage} (hd : s.device=⟨stage,d⟩) (hs : Listening stage)
    (hl : s.lines.scl=true → s.lines.sda=true) (hsteady : B.Steady d)
    (hstart : B.Steady (B.start d)) :
    (iicStart B.onBus s).device=⟨.receive true [],B.start d⟩ := by
  obtain ⟨⟨scl,sda⟩,device,sent⟩ := s
  obtain rfl : device=_ := hd
  have hw := hsteady 4
  have hw' := hstart 4
  rcases hs with rfl|⟨first,rfl⟩ <;> cases scl <;> cases sda <;>
    simp_all [iicStart,Bus.sda,ByteTarget.pulls,ByteTarget.rise,ByteTarget.fall]

/-- A stop is seen by a device that holds nothing. -/
theorem iicStop_device {stage : Stage} (hd : s.device=⟨stage,d⟩) (hs : Listening stage)
    (hl : s.lines.scl=false) (hsteady : B.Steady d) :
    (iicStop B.onBus s).device=⟨.idle,B.stop d⟩ := by
  obtain ⟨⟨scl,sda⟩,device,sent⟩ := s
  obtain rfl : device=_ := hd
  obtain rfl : scl=false := hl
  have hw := hsteady 4
  rcases hs with rfl|⟨first,rfl⟩ <;> cases sda <;>
    simp [iicStop,Bus.sda,ByteTarget.pulls,ByteTarget.rise,hw]

/-- The remaining bits complete the byte that the device shifts in. -/
theorem writeBits_device {first : Bool} {got : List Bool} {n : ℕ} {b : Byte}
    (hd : s.device=⟨.receive first got,d⟩) (hl : s.lines.scl=false) (hn : got.length+n=8)
    (hpos : 0 < n) (hsteady : B.Steady d)
    (hafter : B.Steady (B.received d first (shiftIn (got++shiftOut n b))).device) :
    (writeBits B.onBus n b s).device=B.received d first (shiftIn (got++shiftOut n b)) := by
  induction n generalizing s got b with
  | zero => exact absurd hpos (Nat.lt_irrefl 0)
  | succ n ih =>
    obtain ⟨⟨scl,sda⟩,device,sent⟩ := s
    obtain rfl : device=_ := hd
    obtain rfl : scl=false := hl
    have hw := hsteady 2
    have hbits : got++shiftOut (n+1) b=(got++[b.msb])++shiftOut n (b<<<1) := by
      rw [shiftOut,List.append_assoc,List.singleton_append]
    rw [hbits] at hafter ⊢
    rw [writeBits,top_bit]
    cases n with
    | zero =>
      have hlast : (got++[b.msb]).length=8 := by
        rw [List.length_append]
        exact hn
      rw [shiftOut,List.append_nil] at hafter ⊢
      simp [writeBits,Bus.sda,ByteTarget.pulls,ByteTarget.rise,ByteTarget.fall,hw,hlast,hafter 2]
    | succ n =>
      have hmore : got.length≠7 := by omega
      refine ih ?_ rfl ?_ (Nat.succ_pos n) hafter
      · simp [Bus.sda,ByteTarget.pulls,ByteTarget.rise,ByteTarget.fall,hw,hmore]
      · rw [List.length_append,List.length_singleton]
        omega

/-- A sent byte reaches the device. -/
theorem iicWriteOneByte_device {first : Bool} {b : Byte} (hd : s.device=⟨.receive first [],d⟩)
    (hl : s.lines.scl=false) (hsteady : B.Steady d)
    (hafter : B.Steady (B.received d first b).device) :
    (iicWriteOneByte B.onBus s b).device=B.received d first b := by
  have hbyte : shiftIn ([]++shiftOut 8 b)=b := by rw [List.nil_append,shiftIn_shiftOut]
  have hlow : (s.setScl B.onBus false).device=⟨.receive first [],d⟩ := by
    rw [setScl_device,hl,edge_low,B.onBus_none,hd]
  have h := @writeBits_device _ B _ d first [] 8 b hlow rfl rfl (by decide) hsteady
  rw [hbyte] at h
  exact h hafter

/-- An acknowledgement is seen at the first poll. -/
theorem mcuWaitAck_device {sends : Bool} (hd : s.device=⟨.answer sends,d⟩)
    (hl : s.lines.scl=false) (hsteady : B.Steady d) :
    (mcuWaitAck B.onBus s).1=0 ∧ (mcuWaitAck B.onBus s).2.lines=⟨false,true⟩ ∧
      (mcuWaitAck B.onBus s).2.device=B.fall d (.answer sends) := by
  obtain ⟨⟨scl,sda⟩,device,sent⟩ := s
  obtain rfl : device=_ := hd
  obtain rfl : scl=false := hl
  have hw := hsteady 1
  refine ⟨?_,?_,?_⟩ <;>
    simp [mcuWaitAck,ackLoop,Bus.sda,ByteTarget.pulls,ByteTarget.rise,hw]

/-- A byte that the device acknowledges. -/
theorem sendByte_device {first sends : Bool} {b : Byte} {d' : δ}
    (hd : s.device=⟨.receive first [],d⟩) (hl : s.lines.scl=false) (hsteady : B.Steady d)
    (hanswer : B.received d first b=⟨.answer sends,d'⟩) (hsteady' : B.Steady d') :
    (mcuWaitAck B.onBus (iicWriteOneByte B.onBus s b)).2.lines=⟨false,true⟩ ∧
      (mcuWaitAck B.onBus (iicWriteOneByte B.onBus s b)).2.device=
        B.fall d' (.answer sends) := by
  have hsent := iicWriteOneByte_device B hd hl hsteady (by rw [hanswer]; exact hsteady')
  rw [hanswer] at hsent
  exact (mcuWaitAck_device B hsent (iicWriteOneByte_symbols B.onBus s b).1 hsteady').2

/-- The device's next bits are those, and the clock that shows the first is to
come. -/
def Offers (s : Bus (Station δ)) (left : List Bool) (d : δ) : Prop :=
  s.lines=⟨false,true⟩ ∧ s.device=⟨.send left,d⟩ ∨
    s.lines=⟨true,true⟩ ∧ ∃ shown,s.device=⟨.send (shown::left),d⟩

/-- One pass of the loop shows the next of the offered bits. -/
theorem readBit_device {bit : Bool} {left : List Bool} (h : Offers s (bit::left) d)
    (hsteady : B.Steady d) :
    ((((s.setScl B.onBus false).wait B.onBus 2).setScl B.onBus true).sample B.onBus).1=bit ∧
      (((((s.setScl B.onBus false).wait B.onBus 2).setScl B.onBus true).sample B.onBus).2.wait
        B.onBus 1).lines=⟨true,true⟩ ∧
      (((((s.setScl B.onBus false).wait B.onBus 2).setScl B.onBus true).sample B.onBus).2.wait
        B.onBus 1).device=⟨.send (bit::left),d⟩ := by
  have hw := hsteady 2
  have hw' := hsteady 1
  obtain ⟨lines,device,sent⟩ := s
  rcases h with ⟨hl,hd⟩|⟨hl,shown,hd⟩
  · obtain rfl : lines=_ := hl
    obtain rfl : device=_ := hd
    simp [Bus.sda,ByteTarget.pulls,ByteTarget.rise,hw,hw']
  · obtain rfl : lines=_ := hl
    obtain rfl : device=_ := hd
    simp [Bus.sda,ByteTarget.pulls,ByteTarget.rise,ByteTarget.fall,hw,hw']

/-- The loop reads the offered bits and leaves the last on the line. -/
theorem readBits_device {left : List Bool} {b : Byte} (h : Offers s left d)
    (hsteady : B.Steady d) (hleft : left≠[]) :
    (readBits B.onBus left.length b s).1=left.foldl pushBit b ∧
      (readBits B.onBus left.length b s).2.lines=⟨true,true⟩ ∧
      ∃ shown,(readBits B.onBus left.length b s).2.device=⟨.send [shown],d⟩ := by
  induction left generalizing s b with
  | nil => exact absurd rfl hleft
  | cons bit left ih =>
    obtain ⟨hbit,hlines,hdevice⟩ := readBit_device B h hsteady
    have hpush : (if ((((s.setScl B.onBus false).wait B.onBus 2).setScl B.onBus true).sample
        B.onBus).1 then b<<<1+1 else b<<<1)=pushBit b bit := by
      rw [hbit,pushBit]
      cases bit with
      | false => exact (BitVec.add_zero _).symm
      | true => rfl
    rw [List.length_cons,readBits,List.foldl_cons,hpush]
    cases left with
    | nil => exact ⟨rfl,hlines,bit,hdevice⟩
    | cons next left =>
      exact ih (Or.inr ⟨hlines,bit,hdevice⟩) (List.cons_ne_nil next left)

/-- A byte that the device sends is read, and the missing acknowledgement ends
its sending. -/
theorem iicReadOneByte_device {b : Byte} (hl : s.lines=⟨false,true⟩)
    (hd : s.device=⟨.send (shiftOut 8 b),d⟩) (hsteady : B.Steady d) :
    (iicReadOneByte B.onBus s 0).1=b ∧ (iicReadOneByte B.onBus s 0).2.lines.scl=false ∧
      (iicReadOneByte B.onBus s 0).2.device=⟨.idle,d⟩ := by
  obtain ⟨hbyte,hlines,shown,hdevice⟩ := @readBits_device _ B s d (shiftOut 8 b) 0
    (Or.inl ⟨hl,hd⟩) hsteady (List.cons_ne_nil _ _)
  rw [shiftOut_length] at hbyte hlines hdevice
  have hw := hsteady 4
  rw [iicReadOneByte,if_pos rfl]
  refine ⟨hbyte.trans (shiftIn_shiftOut b),rfl,?_⟩
  generalize readBits B.onBus 8 0 s=read at hlines hdevice
  obtain ⟨byte,lines,device,sent⟩ := read
  obtain rfl : lines=_ := hlines
  obtain rfl : device=_ := hdevice
  simp [mcuNoAck,Bus.sda,ByteTarget.pulls,ByteTarget.rise,ByteTarget.fall,hw]

end ByteDevice

end ZephyrApp.IicMaster

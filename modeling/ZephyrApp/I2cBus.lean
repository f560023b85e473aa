import ZephyrApp.MachineBytes

/-!
# A two-wire bus driven by hand

A master drives the two open-drain lines of the bus directly; a target watches
the levels and may hold the data line low. A change of the data line while the
clock is high starts or ends a transfer, and every rising clock carries one bit.
A target that only knows bytes is put on the bus by the automaton that decodes
the edges, and eight clocked bits are one byte for it.
-/

namespace ZephyrApp.I2cBus

open MachineBytes

/-- The levels of the two lines. -/
structure Lines where
  /-- The clock line. -/
  scl : Bool
  /-- The data line. -/
  sda : Bool
  deriving DecidableEq

/-- What happens on the lines from one pair of levels to the next. -/
inductive Edge where
  /-- The data line falls while the clock is high. -/
  | start
  /-- The data line rises while the clock is high. -/
  | stop
  /-- The clock rises with this data level. -/
  | rise (bit : Bool)
  /-- The clock falls. -/
  | fall
  /-- The data line changes while the clock is low, or nothing changes. -/
  | none
  deriving DecidableEq

/-- The edge between two pairs of levels. -/
def edge : Lines → Lines → Edge
  | ⟨true,true⟩,⟨true,false⟩ => .start
  | ⟨true,false⟩,⟨true,true⟩ => .stop
  | ⟨false,_⟩,⟨true,bit⟩ => .rise bit
  | ⟨true,_⟩,⟨false,_⟩ => .fall
  | _,_ => .none

/-- While the clock stays low nothing happens. -/
@[simp] theorem edge_low (a b : Bool) : edge ⟨false,a⟩ ⟨false,b⟩=.none := by
  cases a <;> cases b <;> rfl

/-- A rising clock carries the new data level. -/
@[simp] theorem edge_rise (a b : Bool) : edge ⟨false,a⟩ ⟨true,b⟩=.rise b := by
  cases a <;> cases b <;> rfl

/-- A falling clock. -/
@[simp] theorem edge_fall (a b : Bool) : edge ⟨true,a⟩ ⟨false,b⟩=.fall := by
  cases a <;> cases b <;> rfl

/-- Levels that stay are no edge. -/
@[simp] theorem edge_same (a : Lines) : edge a a=.none := by
  obtain ⟨scl,sda⟩ := a
  cases scl <;> cases sda <;> rfl

/-- A data line that falls under a high clock. -/
@[simp] theorem edge_start : edge ⟨true,true⟩ ⟨true,false⟩=.start := rfl

/-- A data line that rises under a high clock. -/
@[simp] theorem edge_stop : edge ⟨true,false⟩ ⟨true,true⟩=.stop := rfl

/-- A device on the bus that never holds the clock. -/
structure Target (δ : Type*) where
  /-- Whether it holds the data line low. -/
  pulls : δ → Bool
  /-- Its reaction to an edge. -/
  react : δ → Edge → δ
  /-- Its state after the master has looked at the data line. -/
  sampled : δ → δ
  /-- Its state some microseconds later. -/
  wait : δ → ℕ → δ

/-- What the master has put on the bus, as seen by anyone who watches its
outputs. -/
inductive Symbol where
  /-- A start condition. -/
  | start
  /-- A stop condition. -/
  | stop
  /-- One clock with this level of the master's data output. -/
  | bit (level : Bool)
  deriving DecidableEq

/-- The symbol of an edge of the master's outputs. -/
def Edge.symbol : Edge → List Symbol
  | .start => [.start]
  | .stop => [.stop]
  | .rise level => [.bit level]
  | .fall => []
  | .none => []

/-- The bus: the master's outputs, the device and the symbols sent so far. -/
structure Bus (δ : Type*) where
  /-- The master's outputs; high releases a line. -/
  lines : Lines
  /-- The device. -/
  device : δ
  /-- The symbols the master has sent. -/
  sent : List Symbol

section Master

variable {δ : Type*} (T : Target δ) (s : Bus δ)

/-- The level of the data line: low if master or device holds it. -/
def Bus.sda : Bool := s.lines.sda && !T.pulls s.device

/-- Put new levels on the lines. The device sees the levels of the lines and
not the master's outputs. -/
def Bus.drive (lines : Lines) : Bus δ where
  lines := lines
  device := T.react s.device
    (edge ⟨s.lines.scl,s.sda T⟩ ⟨lines.scl,lines.sda && !T.pulls s.device⟩)
  sent := s.sent++(edge s.lines lines).symbol

/-- Drive the clock. -/
def Bus.setScl (level : Bool) : Bus δ := s.drive T ⟨level,s.lines.sda⟩

/-- Drive the data line. -/
def Bus.setSda (level : Bool) : Bus δ := s.drive T ⟨s.lines.scl,level⟩

/-- Look at the data line. -/
def Bus.sample : Bool×Bus δ := (s.sda T,{s with device := T.sampled s.device})

/-- Let time pass. -/
def Bus.wait (us : ℕ) : Bus δ := {s with device := T.wait s.device us}

@[simp] theorem setScl_lines (level : Bool) :
    (s.setScl T level).lines=⟨level,s.lines.sda⟩ := rfl

@[simp] theorem setSda_lines (level : Bool) :
    (s.setSda T level).lines=⟨s.lines.scl,level⟩ := rfl

@[simp] theorem wait_lines (us : ℕ) : (s.wait T us).lines=s.lines := rfl

@[simp] theorem sample_lines : (s.sample T).2.lines=s.lines := rfl

@[simp] theorem setScl_device (level : Bool) :
    (s.setScl T level).device=
      T.react s.device (edge ⟨s.lines.scl,s.sda T⟩ ⟨level,s.sda T⟩) := rfl

@[simp] theorem setSda_device (level : Bool) :
    (s.setSda T level).device=
      T.react s.device
        (edge ⟨s.lines.scl,s.sda T⟩ ⟨s.lines.scl,level && !T.pulls s.device⟩) := rfl

@[simp] theorem wait_device (us : ℕ) : (s.wait T us).device=T.wait s.device us := rfl

@[simp] theorem sample_device : (s.sample T).2.device=T.sampled s.device := rfl

@[simp] theorem sample_level : (s.sample T).1=s.sda T := rfl

@[simp] theorem setScl_sent (level : Bool) :
    (s.setScl T level).sent=s.sent++(edge s.lines ⟨level,s.lines.sda⟩).symbol := rfl

@[simp] theorem setSda_sent (level : Bool) :
    (s.setSda T level).sent=s.sent++(edge s.lines ⟨s.lines.scl,level⟩).symbol := rfl

@[simp] theorem wait_sent (us : ℕ) : (s.wait T us).sent=s.sent := rfl

@[simp] theorem sample_sent : (s.sample T).2.sent=s.sent := rfl

end Master

/-- The leading bits of a byte, most significant first. -/
def shiftOut : ℕ → Byte → List Bool
  | 0,_ => []
  | n+1,b => b.msb::shiftOut n (b<<<1)

/-- Shift a bit into a byte from the right. -/
def pushBit (b : Byte) (bit : Bool) : Byte := (b<<<1)+(if bit then 1 else 0)

/-- The byte of eight bits, most significant first. -/
def shiftIn (bits : List Bool) : Byte := bits.foldl pushBit 0

/-- So many bits are shifted out. -/
@[simp] theorem shiftOut_length (n : ℕ) (b : Byte) : (shiftOut n b).length=n := by
  induction n generalizing b with
  | zero => rfl
  | succ n ih => rw [shiftOut,List.length_cons,ih]

/-- Shifting in what was shifted out gives the byte back. -/
theorem shiftIn_shiftOut (b : Byte) : shiftIn (shiftOut 8 b)=b := by
  revert b
  decide +kernel

/-- A device that knows bytes only. -/
structure ByteTarget (δ : Type*) where
  /-- A start condition. -/
  start : δ → δ
  /-- The first byte after a start: whether the device will send, or nothing if
  it does not acknowledge. -/
  address : δ → Byte → Option (Bool×δ)
  /-- A further byte, if the device acknowledges it. -/
  write : δ → Byte → Option δ
  /-- The next byte to send. -/
  read : δ → Byte×δ
  /-- A stop condition. -/
  stop : δ → δ
  /-- The device some microseconds later. -/
  wait : δ → ℕ → δ

/-- Where a device is in a transfer. -/
inductive Stage where
  /-- Not addressed since the last start. -/
  | idle
  /-- Shifting in a byte, the first after the start or a later one. -/
  | receive (first : Bool) (got : List Bool)
  /-- Holding the data line low to acknowledge; afterwards it sends or receives. -/
  | answer (sends : Bool)
  /-- Sending: the first of the bits is on the line. -/
  | send (left : List Bool)
  /-- Listening to the acknowledgement of a sent byte. -/
  | listen (more : Bool)
  deriving DecidableEq

/-- A device of bytes with its place in the transfer. -/
structure Station (δ : Type*) where
  /-- The place in the transfer. -/
  stage : Stage
  /-- The device. -/
  device : δ

namespace ByteTarget

variable {δ : Type*} (B : ByteTarget δ) (d : δ)

/-- Begin to send the next byte. -/
def sendNext : Station δ := ⟨.send (shiftOut 8 (B.read d).1),(B.read d).2⟩

/-- The end of a received byte: acknowledge it or give up. -/
def received (first : Bool) (byte : Byte) : Station δ :=
  if first then
    match B.address d byte with
    | none => ⟨.idle,d⟩
    | some (sends,d) => ⟨.answer sends,d⟩
  else
    match B.write d byte with
    | none => ⟨.idle,d⟩
    | some d => ⟨.answer false,d⟩

/-- The reaction to a falling clock. -/
def fall : Stage → Station δ
  | .receive first got =>
    if got.length=8 then B.received d first (shiftIn got) else ⟨.receive first got,d⟩
  | .answer true => B.sendNext d
  | .answer false => ⟨.receive false [],d⟩
  | .send (_::b::left) => ⟨.send (b::left),d⟩
  | .send _ => ⟨.listen false,d⟩
  | .listen true => B.sendNext d
  | .listen false => ⟨.idle,d⟩
  | .idle => ⟨.idle,d⟩

/-- The reaction to a rising clock. -/
def rise (bit : Bool) : Stage → Stage
  | .receive first got => .receive first (got++[bit])
  | .listen _ => .listen !bit
  | stage => stage

/-- The decoding automaton. -/
def react (s : Station δ) : Edge → Station δ
  | .start => ⟨.receive true [],B.start s.device⟩
  | .stop => ⟨.idle,B.stop s.device⟩
  | .rise bit => ⟨rise bit s.stage,s.device⟩
  | .fall => B.fall s.device s.stage
  | .none => s

/-- Whether the device holds the data line low in a place of the transfer. -/
def pulls : Stage → Bool
  | .answer _ => true
  | .send (bit::_) => !bit
  | _ => false

/-- The device on the bus. -/
def onBus : Target (Station δ) where
  pulls s := pulls s.stage
  react := B.react
  sampled s := s
  wait s us := ⟨s.stage,B.wait s.device us⟩

/-- A device that does not change by itself. -/
def Steady : Prop := ∀ us,B.wait d us=d

section OnBus

variable (s : Station δ)

@[simp] theorem onBus_pulls : B.onBus.pulls s=pulls s.stage := rfl

@[simp] theorem onBus_sampled : B.onBus.sampled s=s := rfl

@[simp] theorem onBus_wait (us : ℕ) : B.onBus.wait s us=⟨s.stage,B.wait s.device us⟩ := rfl

@[simp] theorem onBus_start : B.onBus.react s .start=⟨.receive true [],B.start s.device⟩ := rfl

@[simp] theorem onBus_stop : B.onBus.react s .stop=⟨.idle,B.stop s.device⟩ := rfl

@[simp] theorem onBus_rise (bit : Bool) :
    B.onBus.react s (.rise bit)=⟨rise bit s.stage,s.device⟩ := rfl

@[simp] theorem onBus_fall : B.onBus.react s .fall=B.fall s.device s.stage := rfl

@[simp] theorem onBus_none : B.onBus.react s .none=s := rfl

end OnBus

end ByteTarget

end ZephyrApp.I2cBus

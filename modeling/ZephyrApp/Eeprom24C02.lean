import ZephyrApp.EventRuns
import ZephyrApp.IicMaster

/-!
# The serial memory on the bit-banged bus

The byte and block functions of the driver over its bus primitives, the packing of a
word into bytes, and the two shell commands. On a bus with a chip that answers as the
part's documentation has it, every run of calls behaves as an array of 256 bytes. On
any bus whatsoever a call puts well-formed transfers on the lines and releases them.
-/

namespace ZephyrApp.Eeprom24C02

open MachineBytes I2cBus IicMaster EventRuns

section Driver

variable {δ : Type} (T : Target δ) (s : Bus δ)

/-- `AT24C02_ReadByte`. -/
def at24c02ReadByte (readAddr : Byte) : Byte×Bus δ :=
  let s := iicStart T s
  let s := iicWriteOneByte T s 0xA0
  let s := (mcuWaitAck T s).2
  let s := iicWriteOneByte T s readAddr
  let s := (mcuWaitAck T s).2
  let s := iicStart T s
  let s := iicWriteOneByte T s 0xA1
  let s := (mcuWaitAck T s).2
  let receivedata := iicReadOneByte T s 0
  (receivedata.1,iicStop T receivedata.2)

/-- `AT24C02_WriteByte`. -/
def at24c02WriteByte (writeAddr writeData : Byte) : Bus δ :=
  let s := iicStart T s
  let s := iicWriteOneByte T s 0xA0
  let s := (mcuWaitAck T s).2
  let s := iicWriteOneByte T s writeAddr
  let s := (mcuWaitAck T s).2
  let s := iicWriteOneByte T s writeData
  let s := (mcuWaitAck T s).2
  let s := iicStop T s
  s.wait T 10000

/-- `AT24C02_Test`. -/
def at24c02Test : Byte×Bus δ :=
  let testdata := at24c02ReadByte T s 255
  if testdata.1=0xAB then (0,testdata.2)
  else
    let s := at24c02WriteByte T testdata.2 255 0xAB
    let testdata := at24c02ReadByte T s 255
    (if testdata.1=0xAB then 0 else 1,testdata.2)

/-- The loop of `AT24C02_Read`, with the bytes that it stores. -/
def readLoop : ℕ → Byte → Bus δ → List Byte×Bus δ
  | 0,_,s => ([],s)
  | readNum+1,readAddr,s =>
    let byte := at24c02ReadByte T s readAddr
    let rest := readLoop readNum (readAddr+1) byte.2
    (byte.1::rest.1,rest.2)

/-- `AT24C02_Read`. -/
def at24c02Read (readAddr readNum : Byte) : List Byte×Bus δ := readLoop T readNum.toNat readAddr s

/-- The loop of `AT24C02_Write`; a buffer is given by its bytes from the pointer on. -/
def writeLoop : ℕ → Byte → (ℕ → Byte) → Bus δ → Bus δ
  | 0,_,_,s => s
  | writeNum+1,writeAddr,pBuffer,s =>
    let s := at24c02WriteByte T s writeAddr (pBuffer 0)
    writeLoop writeNum (writeAddr+1) (fun i => pBuffer (i+1)) s

/-- `AT24C02_Write`. -/
def at24c02Write (writeAddr : Byte) (pBuffer : ℕ → Byte) (writeNum : Byte) : Bus δ :=
  writeLoop T writeNum.toNat writeAddr pBuffer s

/-- `i2c_write`: the length of the text is converted to a byte. -/
def i2cWrite (text : List Byte) : Bus δ :=
  at24c02Write T s 0 (fun i => text.getD i 0) (BitVec.ofNat 8 text.length)

/-- `i2c_read`. -/
def i2cRead : List Byte×Bus δ := at24c02Read T s 0 16

end Driver

/-- The storing loop of `Buf_4Byte`. -/
def storeLoop (date : Word) : ℕ → (ℕ → Byte) → (ℕ → Byte)
  | 0,pBuffer => pBuffer
  | i+1,pBuffer =>
    Function.update (storeLoop date i pBuffer) i (((date>>>(8*i)) &&& 0xFF).setWidth 8)

/-- The loading loop of `Buf_4Byte`, from the last byte to the first. -/
def loadLoop (pBuffer : ℕ → Byte) : ℕ → Word → Word
  | 0,middata => middata
  | i+1,middata => loadLoop pBuffer i ((middata<<<8)+(pBuffer i).setWidth 32)

/-- `Buf_4Byte`: the buffer afterwards and the returned value. -/
def buf4Byte (pBuffer : ℕ → Byte) (date : Word) (byteNum mode : Byte) : (ℕ → Byte)×Word :=
  if mode≠0 then (storeLoop date byteNum.toNat pBuffer,0)
  else (pBuffer,loadLoop pBuffer byteNum.toNat 0)

/-- The chip: its bytes, its address counter, whether the next byte is an address, the
bytes that wait for the stop condition, and what is left of a write cycle. -/
structure Chip where
  /-- The stored bytes. -/
  mem : Byte → Byte
  /-- The address counter. -/
  pointer : Byte
  /-- The next received byte is an address. -/
  loading : Bool
  /-- Received bytes with their addresses. -/
  page : List (Byte×Byte)
  /-- Microseconds until the write cycle ends. -/
  busy : ℕ

/-- The chip as its documentation describes it: it does not answer during a write cycle,
counts within a page of eight bytes while it receives, and begins the write cycle of so
many microseconds at the stop condition. -/
def chip (writeCycle : ℕ) : ByteTarget Chip where
  start c := {c with loading := false,page := []}
  address c byte :=
    if 0 < c.busy then none
    else if byte=0xA0 then some (false,{c with loading := true})
    else if byte=0xA1 then some (true,c)
    else none
  write c byte :=
    if c.loading then some {c with pointer := byte,loading := false}
    else some {c with
      page := c.page++[(c.pointer,byte)]
      pointer := (c.pointer &&& 0xF8) ||| ((c.pointer+1) &&& 7)}
  read c := (c.mem c.pointer,{c with pointer := c.pointer+1})
  stop c :=
    if c.page=[] then c
    else {c with
      mem := c.page.foldl (fun mem entry => Function.update mem entry.1 entry.2) c.mem
      page := []
      busy := writeCycle}
  wait c us := {c with busy := c.busy-us}

section Present

variable {writeCycle : ℕ} {s : Bus (Station Chip)} {mem : Byte → Byte}

/-- The chip, with these bytes, waits for a start. -/
structure Resting (s : Bus (Station Chip)) (mem : Byte → Byte) : Prop where
  /-- The chip is not addressed. -/
  idle : s.device.stage=.idle
  /-- Nothing waits to be written. -/
  page : s.device.device.page=[]
  /-- No write cycle is under way. -/
  free : s.device.device.busy=0
  /-- The stored bytes. -/
  holds : s.device.device.mem=mem

/-- The chip waits for a start and both lines are released. -/
structure Ready (s : Bus (Station Chip)) (mem : Byte → Byte) : Prop extends Resting s mem where
  /-- Both lines are released. -/
  released : s.lines=⟨true,true⟩

/-- Outside a write cycle the chip does not change by itself. -/
theorem chip_steady {c : Chip} (h : c.busy=0) : (chip writeCycle).Steady c := by
  intro us
  obtain ⟨mem,pointer,loading,page,busy⟩ := c
  obtain rfl : busy=0 := h
  simp [chip]

/-- The chip is addressed for writing. -/
theorem received_write {c : Chip} (h : c.busy=0) :
    (chip writeCycle).received c true 0xA0=⟨.answer false,{c with loading := true}⟩ := by
  simp [ByteTarget.received,chip,h]

/-- The chip is addressed for reading. -/
theorem received_read {c : Chip} (h : c.busy=0) :
    (chip writeCycle).received c true 0xA1=⟨.answer true,c⟩ := by
  simp [ByteTarget.received,chip,h]

/-- The chip takes a byte as the address. -/
theorem received_pointer {c : Chip} (h : c.loading=true) (addr : Byte) :
    (chip writeCycle).received c false addr=
      ⟨.answer false,{c with pointer := addr,loading := false}⟩ := by
  simp [ByteTarget.received,chip,h]

/-- The chip takes a byte as data. -/
theorem received_data {c : Chip} (h : c.loading=false) (data : Byte) :
    (chip writeCycle).received c false data=
      ⟨.answer false,{c with
        page := c.page++[(c.pointer,data)]
        pointer := (c.pointer &&& 0xF8) ||| ((c.pointer+1) &&& 7)}⟩ := by
  simp [ByteTarget.received,chip,h]

/-- Writing the address is common to both byte calls: afterwards the chip expects data
or a repeated start. -/
theorem pointer_device {c : Chip} (hl : s.lines=⟨true,true⟩) (hd : s.device=⟨.idle,c⟩)
    (hfree : c.busy=0) (addr : Byte) :
    let T := (chip writeCycle).onBus
    let s := (mcuWaitAck T (iicWriteOneByte T (iicStart T s) 0xA0)).2
    let s := (mcuWaitAck T (iicWriteOneByte T s addr)).2
    s.lines=⟨false,true⟩ ∧
      s.device=⟨.receive false [],{c with pointer := addr,loading := false,page := []}⟩ := by
  intro T s1 s2
  have hstart := iicStart_device (chip writeCycle) hd (Or.inl rfl) (fun _ => by rw [hl])
    (chip_steady hfree) (chip_steady hfree)
  have hlow := (iicStart_symbols T s fun _ => by rw [hl]).1
  obtain ⟨hl1,hd1⟩ := sendByte_device (chip writeCycle) hstart (by rw [hlow]) (chip_steady hfree)
    (received_write hfree) (chip_steady hfree)
  exact sendByte_device (chip writeCycle) hd1 (by rw [hl1]) (chip_steady hfree)
    (received_pointer rfl addr) (chip_steady hfree)

/-- A byte is read from the addressed place, and nothing changes. -/
theorem readByte_ready (h : Ready s mem) (addr : Byte) :
    (at24c02ReadByte (chip writeCycle).onBus s addr).1=mem addr ∧
      Ready (at24c02ReadByte (chip writeCycle).onBus s addr).2 mem := by
  obtain ⟨⟨hidle,hpage,hfree,rfl⟩,hl⟩ := h
  obtain ⟨lines,⟨stage,c⟩,sent⟩ := s
  obtain rfl : stage=.idle := hidle
  rw [at24c02ReadByte]
  obtain ⟨hl2,hd2⟩ := @pointer_device writeCycle _ c hl rfl hfree addr
  generalize (mcuWaitAck _ (iicWriteOneByte _ _ addr)).2=s2 at hl2 hd2 ⊢
  -- the repeated start and the address for reading
  have hstart := iicStart_device (chip writeCycle) hd2 (Or.inr ⟨false,rfl⟩)
    (fun hscl => by rw [hl2] at hscl ⊢) (chip_steady hfree) (chip_steady hfree)
  have hlow := (iicStart_symbols (chip writeCycle).onBus s2 fun hscl => by rw [hl2]).1
  obtain ⟨hl3,hd3⟩ := sendByte_device (chip writeCycle) hstart (by rw [hlow]) (chip_steady hfree)
    (received_read hfree) (chip_steady hfree)
  -- the byte and the stop
  obtain ⟨hbyte,hscl,hd4⟩ := iicReadOneByte_device (chip writeCycle) hl3 hd3 (chip_steady hfree)
  have hstop := iicStop_device (chip writeCycle) hd4 (Or.inl rfl) hscl (chip_steady hfree)
  have hrest : Resting _ c.mem := ⟨congrArg (·.stage) hstop,congrArg (·.device.page) hstop,
    (congrArg (·.device.busy) hstop).trans hfree,congrArg (·.device.mem) hstop⟩
  exact ⟨hbyte,hrest,(iicStop_symbols _ _).1⟩

/-- A byte is written to the addressed place once the driver has slept through the write
cycle. -/
theorem writeByte_ready (hcycle : writeCycle≤10000) (h : Ready s mem) (addr data : Byte) :
    Ready (at24c02WriteByte (chip writeCycle).onBus s addr data)
      (Function.update mem addr data) := by
  obtain ⟨⟨hidle,hpage,hfree,rfl⟩,hl⟩ := h
  obtain ⟨lines,⟨stage,c⟩,sent⟩ := s
  obtain rfl : stage=.idle := hidle
  rw [at24c02WriteByte]
  obtain ⟨hl2,hd2⟩ := @pointer_device writeCycle _ c hl rfl hfree addr
  generalize (mcuWaitAck _ (iicWriteOneByte _ _ addr)).2=s2 at hl2 hd2 ⊢
  obtain ⟨hl3,hd3⟩ := sendByte_device (chip writeCycle) hd2 (by rw [hl2]) (chip_steady hfree)
    (received_data rfl data) (chip_steady hfree)
  have hstop := iicStop_device (chip writeCycle) hd3 (Or.inr ⟨false,rfl⟩) (by rw [hl3])
    (chip_steady hfree)
  have hslept := congrArg (fun d => (chip writeCycle).onBus.wait d 10000) hstop
  have hreleased := (iicStop_symbols (chip writeCycle).onBus
    (mcuWaitAck (chip writeCycle).onBus (iicWriteOneByte (chip writeCycle).onBus s2 data)).2).1
  exact ⟨⟨congrArg (·.stage) hslept,congrArg (·.device.page) hslept,
    (congrArg (·.device.busy) hslept).trans (Nat.sub_eq_zero_of_le hcycle),
    congrArg (·.device.mem) hslept⟩,hreleased⟩

/-- After its initialisation the driver finds the chip ready, whatever the pins showed. -/
theorem iicInit_ready (h : Resting s mem) : Ready (iicInit (chip writeCycle).onBus s) mem := by
  obtain ⟨hidle,hpage,hfree,rfl⟩ := h
  obtain ⟨⟨scl,sda⟩,⟨stage,c⟩,sent⟩ := s
  obtain rfl : stage=.idle := hidle
  obtain ⟨mem,pointer,loading,page,busy⟩ := c
  obtain rfl : page=[] := hpage
  obtain rfl : busy=0 := hfree
  have hdevice : (iicInit (chip writeCycle).onBus
      ⟨⟨scl,sda⟩,⟨.idle,⟨mem,pointer,loading,[],0⟩⟩,sent⟩).device=
        ⟨.idle,⟨mem,pointer,loading,[],0⟩⟩ := by
    cases scl <;> cases sda <;>
      simp [iicInit,Bus.sda,ByteTarget.pulls,ByteTarget.rise,chip]
  exact ⟨⟨congrArg (·.stage) hdevice,congrArg (·.device.page) hdevice,
    congrArg (·.device.busy) hdevice,congrArg (·.device.mem) hdevice⟩,rfl⟩

end Present

/-- The bytes of an array from an address on; addresses wrap. -/
def block (mem : Byte → Byte) (addr : Byte) (n : ℕ) : List Byte :=
  (List.range n).map fun i => mem (addr+BitVec.ofNat 8 i)

/-- An array after bytes have been stored from an address on; addresses wrap. -/
def stored (mem : Byte → Byte) (addr : Byte) (pBuffer : ℕ → Byte) (n : ℕ) : Byte → Byte :=
  fun x => if (x-addr).toNat < n then pBuffer (x-addr).toNat else mem x

/-- A call of the driver or of the shell. -/
inductive EepromCall where
  /-- `AT24C02_Init`, also `i2c init`. -/
  | init
  /-- `AT24C02_ReadByte`. -/
  | readByte (readAddr : Byte)
  /-- `AT24C02_WriteByte`. -/
  | writeByte (writeAddr writeData : Byte)
  /-- `AT24C02_Test`. -/
  | test
  /-- `AT24C02_Read`. -/
  | read (readAddr readNum : Byte)
  /-- `AT24C02_Write`. -/
  | write (writeAddr : Byte) (pBuffer : ℕ → Byte) (writeNum : Byte)
  /-- `i2c read`. -/
  | shellRead
  /-- `i2c write`. -/
  | shellWrite (text : List Byte)

section Calls

variable {δ : Type} (T : Target δ) (s : Bus δ)

/-- The bus after a call. -/
def callNext : EepromCall → Bus δ
  | .init => iicInit T s
  | .readByte addr => (at24c02ReadByte T s addr).2
  | .writeByte addr data => at24c02WriteByte T s addr data
  | .test => (at24c02Test T s).2
  | .read addr num => (at24c02Read T s addr num).2
  | .write addr pBuffer num => at24c02Write T s addr pBuffer num
  | .shellRead => (i2cRead T s).2
  | .shellWrite text => i2cWrite T s text

/-- The bytes that a call returns. -/
def callResult : EepromCall → List Byte
  | .init => []
  | .readByte addr => [(at24c02ReadByte T s addr).1]
  | .writeByte _ _ => []
  | .test => [(at24c02Test T s).1]
  | .read addr num => (at24c02Read T s addr num).1
  | .write _ _ _ => []
  | .shellRead => (i2cRead T s).1
  | .shellWrite _ => []

end Calls

/-- What a call does to an array of 256 bytes. -/
def memoryNext (mem : Byte → Byte) : EepromCall → Byte → Byte
  | .writeByte addr data => Function.update mem addr data
  | .test => Function.update mem 255 0xAB
  | .write addr pBuffer num => stored mem addr pBuffer num.toNat
  | .shellWrite text => stored mem 0 (fun i => text.getD i 0) (text.length%256)
  | _ => mem

/-- What a call returns of an array of 256 bytes. -/
def memoryResult (mem : Byte → Byte) : EepromCall → List Byte
  | .readByte addr => [mem addr]
  | .test => [0]
  | .read addr num => block mem addr num.toNat
  | .shellRead => block mem 0 16
  | _ => []

section Refinement

variable {writeCycle : ℕ} {s : Bus (Station Chip)} {mem : Byte → Byte}

/-- Storing one byte more: the first, then the others behind it. -/
theorem stored_succ (addr : Byte) (pBuffer : ℕ → Byte) {n : ℕ} (hn : n < 256) :
    stored (Function.update mem addr (pBuffer 0)) (addr+1) (fun i => pBuffer (i+1)) n=
      stored mem addr pBuffer (n+1) := by
  funext x
  by_cases hx : x=addr
  · subst hx
    have hwrap : (x-(x+1)).toNat=255 := by
      rw [sub_add_cancel_left]
      rfl
    have hzero : (x-x).toNat=0 := by rw [BitVec.sub_self]; rfl
    simp only [stored,hwrap,hzero,Function.update_self]
    rw [if_neg (by omega),if_pos (Nat.succ_pos n)]
  · have hone : (x-addr).toNat=(x-(addr+1)).toNat+1 := by
      have hne : x.toNat≠addr.toNat := fun h => hx (BitVec.eq_of_toNat_eq h)
      have h1 := x.isLt
      have h2 := addr.isLt
      have h3 : (1 : Byte).toNat=1 := rfl
      simp only [BitVec.toNat_sub,BitVec.toNat_add,h3]
      omega
    simp only [stored,hone,Function.update_of_ne hx,Nat.add_lt_add_iff_right]

/-- Consecutive addresses: the first, then those that follow the next. -/
theorem map_addresses {α : Type} (f : ℕ → Byte → α) (addr : Byte) (n : ℕ) :
    ((List.range (n+1)).map fun i => f i (addr+BitVec.ofNat 8 i))=
      f 0 addr::(List.range n).map fun i => f (i+1) (addr+1+BitVec.ofNat 8 i) := by
  rw [List.range_succ_eq_map,List.map_cons,List.map_map]
  refine congrArg₂ List.cons (congrArg (f 0) (BitVec.add_zero addr)) ?_
  refine List.map_congr_left fun i _ => congrArg (f (i+1)) ?_
  rw [Nat.succ_eq_add_one,BitVec.ofNat_add,add_assoc,add_comm 1]
  rfl

/-- A block is read from the array. -/
theorem readLoop_ready (n : ℕ) (addr : Byte) (h : Ready s mem) :
    (readLoop (chip writeCycle).onBus n addr s).1=block mem addr n ∧
      Ready (readLoop (chip writeCycle).onBus n addr s).2 mem := by
  induction n generalizing addr s with
  | zero => exact ⟨rfl,h⟩
  | succ n ih =>
    obtain ⟨hbyte,hready⟩ := @readByte_ready writeCycle s mem h addr
    obtain ⟨hrest,hlast⟩ := ih (addr+1) hready
    refine ⟨?_,hlast⟩
    rw [readLoop,block,map_addresses fun _ => mem,hbyte,hrest]
    rfl

/-- A block is stored in the array. -/
theorem writeLoop_ready (hcycle : writeCycle≤10000) {n : ℕ} (hn : n≤256) (addr : Byte)
    (pBuffer : ℕ → Byte) (h : Ready s mem) :
    Ready (writeLoop (chip writeCycle).onBus n addr pBuffer s) (stored mem addr pBuffer n) := by
  induction n generalizing addr s mem pBuffer with
  | zero =>
    have hnone : stored mem addr pBuffer 0=mem := by
      funext x
      rw [stored,if_neg (Nat.not_lt_zero _)]
    rw [hnone]
    exact h
  | succ n ih =>
    rw [←stored_succ addr pBuffer (by omega)]
    exact ih (by omega) (addr+1) _ (writeByte_ready hcycle h addr (pBuffer 0))

/-- The test of the chip leaves its mark in the last byte and succeeds. -/
theorem test_ready (hcycle : writeCycle≤10000) (h : Ready s mem) :
    (at24c02Test (chip writeCycle).onBus s).1=0 ∧
      Ready (at24c02Test (chip writeCycle).onBus s).2 (Function.update mem 255 0xAB) := by
  obtain ⟨hbyte,hready⟩ := @readByte_ready writeCycle s mem h 255
  rw [at24c02Test]
  split
  · rename_i hmark
    have hsame : Function.update mem 255 0xAB=mem := by
      rw [←hmark,hbyte,Function.update_eq_self]
    rw [hsame]
    exact ⟨rfl,hready⟩
  · have hwritten := writeByte_ready hcycle hready 255 0xAB
    obtain ⟨hbyte',hready'⟩ := @readByte_ready writeCycle _ _ hwritten 255
    rw [Function.update_self] at hbyte'
    dsimp only
    rw [if_pos hbyte']
    exact ⟨rfl,hready'⟩

/-- Each call returns what the array gives and leaves the array's next contents. -/
theorem call_ready (hcycle : writeCycle≤10000) (h : Ready s mem) (call : EepromCall) :
    callResult (chip writeCycle).onBus s call=memoryResult mem call ∧
      Ready (callNext (chip writeCycle).onBus s call) (memoryNext mem call) := by
  cases call with
  | init => exact ⟨rfl,iicInit_ready h.toResting⟩
  | readByte addr =>
    obtain ⟨hbyte,hready⟩ := @readByte_ready writeCycle s mem h addr
    exact ⟨congrArg (fun b => [b]) hbyte,hready⟩
  | writeByte addr data => exact ⟨rfl,writeByte_ready hcycle h addr data⟩
  | test =>
    obtain ⟨hcode,hready⟩ := test_ready hcycle h
    exact ⟨congrArg (fun b => [b]) hcode,hready⟩
  | read addr num => exact readLoop_ready num.toNat addr h
  | write addr pBuffer num =>
    exact ⟨rfl,writeLoop_ready hcycle (Nat.le_of_lt num.isLt) addr pBuffer h⟩
  | shellRead => exact readLoop_ready 16 0 h
  | shellWrite text =>
    refine ⟨rfl,?_⟩
    have hready := @writeLoop_ready writeCycle s mem hcycle (text.length%256) (by omega) 0
      (fun i => text.getD i 0) h
    rw [callNext,i2cWrite,at24c02Write,BitVec.toNat_ofNat]
    exact hready

/-- After every run of calls the chip holds what the array holds, and waits for a start. -/
theorem calls_ready (hcycle : writeCycle≤10000) (h : Resting s mem) (calls : List EepromCall) :
    Ready (finalState (callNext (chip writeCycle).onBus) (iicInit (chip writeCycle).onBus s)
      calls) (finalState memoryNext mem calls) :=
  finalState_simulation (R := Ready) (fun _ _ call h => (call_ready hcycle h call).2)
    (iicInit_ready h) calls

/-- Every run of calls after the initialisation gives the results of an array of 256
bytes and leaves its contents. -/
theorem eeprom_refines_array (hcycle : writeCycle≤10000) (h : Resting s mem)
    (calls : List EepromCall) :
    outputs (callNext (chip writeCycle).onBus) (callResult (chip writeCycle).onBus)
        (iicInit (chip writeCycle).onBus s) calls=
      outputs memoryNext memoryResult mem calls ∧
    Ready (finalState (callNext (chip writeCycle).onBus) (iicInit (chip writeCycle).onBus s)
        calls) (finalState memoryNext mem calls) :=
  @outputs_simulation _ _ _ _ _ _ _ _ Ready (fun _ _ call h => call_ready hcycle h call) _ _
    (iicInit_ready h) calls

/-- A chip as delivered, on lines that the pins hold low. -/
def deliveredBus : Bus (Station Chip) :=
  ⟨⟨false,false⟩,⟨.idle,⟨fun _ => 0xFF,0,false,[],0⟩⟩,[]⟩

/-- The delivered chip waits for a start. -/
theorem deliveredBus_resting : Resting deliveredBus fun _ => 0xFF := ⟨rfl,rfl,rfl,rfl⟩

/-- A byte written to the delivered chip is read back, and the test succeeds. -/
theorem eeprom_refines_array_delivered :
    outputs (callNext (chip 5000).onBus) (callResult (chip 5000).onBus)
        (iicInit (chip 5000).onBus deliveredBus)
        [.readByte 3,.writeByte 3 7,.readByte 3,.test,.read 254 3]=
      [[0xFF],[],[7],[0],[0xFF,0xAB,0xFF]] ∧
    Ready (finalState (callNext (chip 5000).onBus) (iicInit (chip 5000).onBus deliveredBus)
        [.readByte 3,.writeByte 3 7,.readByte 3,.test,.read 254 3])
      (Function.update (Function.update (fun _ => 0xFF) 3 7) 255 0xAB) :=
  eeprom_refines_array (by decide) deliveredBus_resting
    [.readByte 3,.writeByte 3 7,.readByte 3,.test,.read 254 3]

end Refinement

section AnyDevice

variable {δ : Type} (T : Target δ) {s : Bus δ}

/-- What a byte call asks of the chip. -/
inductive Request where
  /-- Read the byte at an address. -/
  | read (addr : Byte)
  /-- Write a byte to an address. -/
  | write (addr data : Byte)
  deriving DecidableEq

/-- A request as it went over the bus: which of its three bytes were acknowledged. -/
structure Transfer where
  /-- The request. -/
  request : Request
  /-- The first byte was acknowledged. -/
  ack1 : Bool
  /-- The second byte was acknowledged. -/
  ack2 : Bool
  /-- The third byte was acknowledged. -/
  ack3 : Bool

/-- The symbols of a transfer. A repeated start needs a clock before it. After a byte without
an acknowledge comes a stop, and the next byte is clocked all the same. -/
def Transfer.symbols : Transfer → List Symbol
  | ⟨.read addr,ack1,ack2,ack3⟩ =>
    .start::byteSymbols 0xA0 ack1++byteSymbols addr ack2++(if ack2 then [.bit true] else [])++
      .start::byteSymbols 0xA1 ack3++List.replicate 9 (.bit true)++stopSymbols
  | ⟨.write addr data,ack1,ack2,ack3⟩ =>
    .start::byteSymbols 0xA0 ack1++byteSymbols addr ack2++byteSymbols data ack3++stopSymbols

/-- From one state of the bus to the next the master sends exactly these requests, and
the bus is released again. -/
def Sends (s s' : Bus δ) (requests : List Request) : Prop :=
  Released s' ∧ ∃ transfers : List Transfer,transfers.map (·.request)=requests ∧
    s'.sent=s.sent++(transfers.map (·.symbols)).flatten

/-- Requests that follow each other. -/
theorem Sends.append {s t u : Bus δ} {first second : List Request} (hfirst : Sends s t first)
    (hsecond : Sends t u second) : Sends s u (first++second) := by
  obtain ⟨-,ts,rfl,hts⟩ := hfirst
  obtain ⟨hu,us,rfl,hus⟩ := hsecond
  refine ⟨hu,ts++us,List.map_append,?_⟩
  rw [hus,hts,List.map_append,List.flatten_append,List.append_assoc]

/-- Time that passes sends nothing. -/
theorem Sends.wait {s t : Bus δ} {requests : List Request} (h : Sends s t requests) (us : ℕ) :
    Sends s (t.wait T us) requests := h

/-- The start, the chip's address and the address in the chip. -/
theorem pointer_symbols (h : Released s) (addr : Byte) :
    ∃ ack1 ack2 : Bool,
      (mcuWaitAck T (iicWriteOneByte T
        (mcuWaitAck T (iicWriteOneByte T (iicStart T s) 0xA0)).2 addr)).2.lines=⟨!ack2,true⟩ ∧
      (mcuWaitAck T (iicWriteOneByte T
        (mcuWaitAck T (iicWriteOneByte T (iicStart T s) 0xA0)).2 addr)).2.sent=
        s.sent++.start::byteSymbols 0xA0 ack1++byteSymbols addr ack2 := by
  obtain ⟨-,hstart⟩ := iicStart_symbols T s fun _ => by rw [h]
  obtain ⟨ack1,-,hsent1⟩ := sendByte_symbols T (iicStart T s) 0xA0
  obtain ⟨ack2,hlines,hsent2⟩ := sendByte_symbols T
    (mcuWaitAck T (iicWriteOneByte T (iicStart T s) 0xA0)).2 addr
  refine ⟨ack1,ack2,hlines,?_⟩
  rw [hsent2,hsent1,hstart,h]
  simp

/-- A byte call for reading is one transfer. -/
theorem readByte_sends (h : Released s) (addr : Byte) :
    Sends s (at24c02ReadByte T s addr).2 [.read addr] := by
  rw [at24c02ReadByte]
  obtain ⟨ack1,ack2,hlines,hsent⟩ := pointer_symbols T h addr
  generalize (mcuWaitAck T (iicWriteOneByte T _ addr)).2=s2 at hlines hsent ⊢
  obtain ⟨-,hstart⟩ := iicStart_symbols T s2 fun _ => by rw [hlines]
  obtain ⟨ack3,hlines3,hsent3⟩ := sendByte_symbols T (iicStart T s2) 0xA1
  have hread := iicReadOneByte_symbols T _ (congrArg Lines.sda hlines3)
  obtain ⟨hreleased,hstop⟩ := iicStop_symbols T (iicReadOneByte T
    (mcuWaitAck T (iicWriteOneByte T (iicStart T s2) 0xA1)).2 0).2
  refine ⟨hreleased,[⟨.read addr,ack1,ack2,ack3⟩],rfl,?_⟩
  dsimp only
  rw [hstop,hread,hsent3,hstart,hlines,hsent]
  cases ack2 <;> simp [Transfer.symbols]

/-- A byte call for writing is one transfer. -/
theorem writeByte_sends (h : Released s) (addr data : Byte) :
    Sends s (at24c02WriteByte T s addr data) [.write addr data] := by
  rw [at24c02WriteByte]
  obtain ⟨ack1,ack2,hlines,hsent⟩ := pointer_symbols T h addr
  generalize (mcuWaitAck T (iicWriteOneByte T _ addr)).2=s2 at hlines hsent ⊢
  obtain ⟨ack3,-,hsent3⟩ := sendByte_symbols T s2 data
  obtain ⟨hreleased,hstop⟩ := iicStop_symbols T (mcuWaitAck T (iicWriteOneByte T s2 data)).2
  refine ⟨hreleased,[⟨.write addr data,ack1,ack2,ack3⟩],rfl,?_⟩
  rw [wait_sent,hstop,hsent3,hsent]
  simp [Transfer.symbols]

/-- A block is read by one transfer a byte, in order. -/
theorem readLoop_sends (n : ℕ) (addr : Byte) (h : Released s) :
    Sends s (readLoop T n addr s).2
      ((List.range n).map fun i => .read (addr+BitVec.ofNat 8 i)) := by
  induction n generalizing addr s with
  | zero => exact ⟨h,[],rfl,(List.append_nil _).symm⟩
  | succ n ih =>
    have hfirst := readByte_sends T h addr
    rw [map_addresses fun _ => Request.read]
    exact hfirst.append (ih (addr+1) hfirst.1)

/-- A block is written by one transfer a byte, in order. -/
theorem writeLoop_sends (n : ℕ) (addr : Byte) (pBuffer : ℕ → Byte) (h : Released s) :
    Sends s (writeLoop T n addr pBuffer s)
      ((List.range n).map fun i => .write (addr+BitVec.ofNat 8 i) (pBuffer i)) := by
  induction n generalizing addr pBuffer s with
  | zero => exact ⟨h,[],rfl,(List.append_nil _).symm⟩
  | succ n ih =>
    have hfirst := writeByte_sends T h addr (pBuffer 0)
    rw [map_addresses fun i a => Request.write a (pBuffer i)]
    exact hfirst.append (ih (addr+1) _ hfirst.1)

/-- The requests of a call. The test asks for the last byte, and writes and asks again
unless it has found its mark. -/
def Requests : EepromCall → List Request → Prop
  | .init,reqs => reqs=[]
  | .readByte addr,reqs => reqs=[.read addr]
  | .writeByte addr data,reqs => reqs=[.write addr data]
  | .test,reqs => reqs=[.read 255] ∨ reqs=[.read 255,.write 255 0xAB,.read 255]
  | .read addr num,reqs =>
    reqs=(List.range num.toNat).map fun i => .read (addr+BitVec.ofNat 8 i)
  | .write addr pBuffer num,reqs =>
    reqs=(List.range num.toNat).map fun i => .write (addr+BitVec.ofNat 8 i) (pBuffer i)
  | .shellRead,reqs => reqs=(List.range 16).map fun i => .read (0+BitVec.ofNat 8 i)
  | .shellWrite text,reqs =>
    reqs=(List.range (text.length%256)).map fun i => .write (0+BitVec.ofNat 8 i) (text.getD i 0)

/-- Each call sends its requests and releases the bus. -/
theorem call_sends (h : Released s) (call : EepromCall) :
    ∃ reqs,Requests call reqs ∧ Sends s (callNext T s call) reqs := by
  cases call with
  | init =>
    refine ⟨[],rfl,rfl,[],rfl,?_⟩
    obtain ⟨lines,device,sent⟩ := s
    obtain rfl : lines=_ := h
    simp [callNext,iicInit,Edge.symbol]
  | readByte addr => exact ⟨_,rfl,readByte_sends T h addr⟩
  | writeByte addr data => exact ⟨_,rfl,writeByte_sends T h addr data⟩
  | test =>
    have hfirst := readByte_sends T h 255
    rw [callNext,at24c02Test]
    split
    · exact ⟨_,Or.inl rfl,hfirst⟩
    · have hmark := writeByte_sends T hfirst.1 255 0xAB
      exact ⟨_,Or.inr rfl,(hfirst.append hmark).append (readByte_sends T hmark.1 255)⟩
  | read addr num => exact ⟨_,rfl,readLoop_sends T num.toNat addr h⟩
  | write addr pBuffer num => exact ⟨_,rfl,writeLoop_sends T num.toNat addr pBuffer h⟩
  | shellRead => exact ⟨_,rfl,readLoop_sends T 16 0 h⟩
  | shellWrite text =>
    refine ⟨_,rfl,?_⟩
    rw [callNext,i2cWrite,at24c02Write,BitVec.toNat_ofNat]
    exact writeLoop_sends T (text.length%256) 0 _ h

/-- Whatever is on the bus and however it holds the data line, every call of every run
after the initialisation clocks all bytes of its requests, changes the data line under a
high clock only for their starts and stops and for the stop after a byte that nobody
acknowledged, and releases both lines. -/
theorem eeprom_calls_well_formed (s : Bus δ) (calls : List EepromCall) :
    AlongRun (callNext T)
      (fun s call => ∃ reqs,Requests call reqs ∧ Sends s (callNext T s call) reqs)
      (iicInit T s) calls := by
  have hinit : Released (iicInit T s) := rfl
  refine @alongRun_of_kept _ _ _ _ Released ?_ (fun s call h => call_sends T h call) _ hinit calls
  intro s call h
  obtain ⟨reqs,-,hsends⟩ := call_sends T h call
  exact hsends.1

end AnyDevice

section Absent

variable {δ : Type} {T : Target δ}

/-- Nothing on the bus ever holds the data line. -/
def Silent (T : Target δ) : Prop := ∀ d,T.pulls d=false

/-- On a silent bus only ones are read. -/
theorem readBits_silent (hT : Silent T) (n : ℕ) (b : Byte) {s : Bus δ} (h : s.lines.sda=true) :
    (readBits T n b s).1=(List.replicate n true).foldl pushBit b := by
  induction n generalizing b s with
  | zero => rfl
  | succ n ih =>
    have hlevel : ((((s.setScl T false).wait T 2).setScl T true).sample T).1=true := by
      simp [Bus.sda,hT _,h]
    rw [readBits,List.replicate_succ,List.foldl_cons,hlevel,if_pos rfl]
    exact ih _ h

/-- A byte call for reading gives 255 on a silent bus. -/
theorem readByte_silent (hT : Silent T) (s : Bus δ) (addr : Byte) :
    (at24c02ReadByte T s addr).1=0xFF := by
  obtain ⟨acked,hlines,-⟩ := sendByte_symbols T (iicStart T (mcuWaitAck T (iicWriteOneByte T
    (mcuWaitAck T (iicWriteOneByte T (iicStart T s) 0xA0)).2 addr)).2) 0xA1
  exact readBits_silent hT 8 0 (congrArg Lines.sda hlines)

/-- What a call returns when there is no chip. -/
def absentResult : EepromCall → List Byte
  | .readByte _ => [0xFF]
  | .test => [1]
  | .read _ num => List.replicate num.toNat 0xFF
  | .shellRead => List.replicate 16 0xFF
  | _ => []

/-- A block that is read on a silent bus. -/
theorem readLoop_silent (hT : Silent T) (n : ℕ) (addr : Byte) (s : Bus δ) :
    (readLoop T n addr s).1=List.replicate n 0xFF := by
  induction n generalizing addr s with
  | zero => rfl
  | succ n ih => rw [readLoop,List.replicate_succ,readByte_silent hT,ih]

/-- Without a chip every read in every run gives 255 in each byte, and every test fails. -/
theorem absent_chip_noticed (hT : Silent T) (s : Bus δ) (calls : List EepromCall) :
    outputs (callNext T) (callResult T) s calls=calls.map absentResult := by
  refine @outputs_of_invariant _ _ _ _ _ (fun _ => True) _ (fun _ _ _ => trivial) ?_ s trivial calls
  intro s call _
  cases call with
  | readByte addr => exact congrArg (fun b => [b]) (readByte_silent hT s addr)
  | test =>
    have htest : (at24c02Test T s).1=1 := by
      rw [at24c02Test,readByte_silent hT,if_neg (by decide)]
      dsimp only
      rw [readByte_silent hT]
      rfl
    exact congrArg (fun b => [b]) htest
  | read addr num => exact readLoop_silent hT num.toNat addr s
  | shellRead => exact readLoop_silent hT 16 0 s
  | init => rfl
  | writeByte addr data => rfl
  | write addr pBuffer num => rfl
  | shellWrite text => rfl

/-- A bus with nothing on it. -/
def emptyBus : Target Unit := ⟨fun _ => false,fun d _ => d,id,fun d _ => d⟩

/-- Nothing answers on the empty bus. -/
theorem absent_chip_noticed_empty :
    Silent emptyBus ∧
      outputs (callNext emptyBus) (callResult emptyBus) ⟨⟨true,true⟩,(),[]⟩
        [.writeByte 0 5,.read 0 2,.test]=[[],[0xFF,0xFF],[1]] :=
  ⟨fun _ => rfl,absent_chip_noticed (fun _ => rfl) _ [.writeByte 0 5,.read 0 2,.test]⟩

end Absent

section Words

variable {pBuffer : ℕ → Byte}

/-- The stored bytes of a word, least significant first. -/
theorem storeLoop_apply (v : Word) (n : ℕ) (i : ℕ) :
    storeLoop v n pBuffer i=
      if i < n then ((v>>>(8*i)) &&& 0xFF).setWidth 8 else pBuffer i := by
  induction n with
  | zero => rw [if_neg (Nat.not_lt_zero i)]; rfl
  | succ n ih =>
    rw [storeLoop,Function.update_apply,ih]
    by_cases hi : i=n
    · rw [if_pos hi,if_pos (by omega),hi]
    · rw [if_neg hi]
      by_cases hlt : i < n
      · rw [if_pos hlt,if_pos (by omega)]
      · rw [if_neg hlt,if_neg (by omega)]

/-- A stored byte of a word. -/
theorem storeLoop_toNat (v : Word) {n i : ℕ} (hi : i < n) :
    (storeLoop v n pBuffer i).toNat=v.toNat/2^(8*i)%2^8 := by
  rw [storeLoop_apply,if_pos hi,BitVec.toNat_setWidth,BitVec.toNat_and,BitVec.toNat_ushiftRight,
    Nat.shiftRight_eq_div_pow]
  have hmask : v.toNat/2^(8*i) &&& (0xFF : Word).toNat=v.toNat/2^(8*i)%2^8 :=
    Nat.and_two_pow_sub_one_eq_mod _ 8
  rw [hmask,Nat.mod_mod]

/-- Loading the bytes of a word behind what is loaded already. -/
theorem loadLoop_toNat (v : Word) {n : ℕ} (h : ∀ i < n,(pBuffer i).toNat=v.toNat/2^(8*i)%2^8)
    (m : Word) :
    (loadLoop pBuffer n m).toNat=(m.toNat*2^(8*n)+v.toNat%2^(8*n))%2^32 := by
  induction n generalizing m with
  | zero =>
    rw [loadLoop,Nat.mul_zero,pow_zero,Nat.mul_one,Nat.mod_one,Nat.add_zero]
    exact (Nat.mod_eq_of_lt m.isLt).symm
  | succ n ih =>
    rw [loadLoop,ih (fun i hi => h i (by omega))]
    have hpush : ((m<<<8)+(pBuffer n).setWidth 32).toNat ≡ m.toNat*2^8+(pBuffer n).toNat
        [MOD 2^32] := by
      have hb := (pBuffer n).isLt
      simp only [Nat.ModEq,BitVec.toNat_add,BitVec.toNat_shiftLeft,BitVec.toNat_setWidth,
        Nat.shiftLeft_eq]
      omega
    have hlow : v.toNat%2^(8*(n+1))=v.toNat%2^(8*n)+2^(8*n)*(pBuffer n).toNat := by
      rw [h n (Nat.lt_succ_self n),show 8*(n+1)=8*n+8 by ring,pow_add,Nat.mod_mul]
    refine Nat.ModEq.trans ((hpush.mul_right _).add_right _) ?_
    rw [hlow,show 8*(n+1)=8*n+8 by ring,pow_add]
    exact congrArg (·%2^32) (by ring)

/-- Loading what was stored gives the low bytes of the word. -/
theorem loadLoop_of_bytes (v : Word) {n : ℕ} (hn : n≤4)
    (h : ∀ i < n,(pBuffer i).toNat=v.toNat/2^(8*i)%2^8) :
    (loadLoop pBuffer n 0).toNat=v.toNat%2^(8*n) := by
  have hlt : v.toNat%2^(8*n) < 2^32 :=
    (Nat.mod_lt _ (by positivity)).trans_le (Nat.pow_le_pow_right (by decide) (by omega))
  have hzero : (0 : Word).toNat=0 := rfl
  rw [loadLoop_toNat v h 0,hzero,Nat.zero_mul,Nat.zero_add,Nat.mod_eq_of_lt hlt]

/-- The call may change the byte at this address. -/
def EepromCall.Writes (x : Byte) : EepromCall → Prop
  | .writeByte addr _ => x=addr
  | .test => x=255
  | .write addr _ num => (x-addr).toNat < num.toNat
  | .shellWrite text => x.toNat < text.length%256
  | _ => False

instance (x : Byte) : (call : EepromCall) → Decidable (call.Writes x)
  | .writeByte addr _ => inferInstanceAs (Decidable (x=addr))
  | .test => inferInstanceAs (Decidable (x=255))
  | .write addr _ num => inferInstanceAs (Decidable ((x-addr).toNat < num.toNat))
  | .shellWrite text => inferInstanceAs (Decidable (x.toNat < text.length%256))
  | .init => inferInstanceAs (Decidable False)
  | .readByte _ => inferInstanceAs (Decidable False)
  | .read _ _ => inferInstanceAs (Decidable False)
  | .shellRead => inferInstanceAs (Decidable False)

/-- A byte that no call of a run writes stays. -/
theorem finalState_memory {mem : Byte → Byte} {x : Byte} {calls : List EepromCall}
    (h : ∀ call∈calls,¬call.Writes x) : finalState memoryNext mem calls x=mem x := by
  induction calls generalizing mem with
  | nil => rfl
  | cons call calls ih =>
    obtain ⟨hfirst,hrest⟩ := List.forall_mem_cons.mp h
    refine (ih hrest).trans ?_
    cases call with
    | writeByte addr data => exact Function.update_of_ne hfirst _ _
    | test => exact Function.update_of_ne hfirst _ _
    | write addr pBuffer num => exact if_neg hfirst
    | shellWrite text =>
      have hzero : ¬(x-0).toNat < text.length%256 := by
        rw [sub_zero]
        exact hfirst
      exact if_neg hzero
    | init => rfl
    | readByte addr => rfl
    | read addr num => rfl
    | shellRead => rfl

/-- A word stored in the chip in up to four bytes, at any address and across the end of
the memory, is loaded again with its low bytes after every run of calls that does not
write those bytes. -/
theorem stored_word_loaded {writeCycle : ℕ} (hcycle : writeCycle≤10000)
    {s : Bus (Station Chip)} {mem : Byte → Byte} (h : Resting s mem)
    (before after : List EepromCall) (v d : Word) (addr byteNum mode : Byte)
    (hnum : byteNum.toNat≤4) (hmode : mode≠0)
    (hkept : ∀ call∈after,∀ i < byteNum.toNat,¬call.Writes (addr+BitVec.ofNat 8 i)) :
    let T := (chip writeCycle).onBus
    let calls := before++.write addr (buf4Byte pBuffer v byteNum mode).1 byteNum::after
    let read := at24c02Read T (finalState (callNext T) (iicInit T s) calls) addr byteNum
    (buf4Byte (fun i => read.1.getD i 0) d byteNum 0).2.toNat=v.toNat%2^(8*byteNum.toNat) := by
  intro T calls read
  have hready := calls_ready hcycle h calls
  have hread : read.1=block (finalState memoryNext mem calls) addr byteNum.toNat :=
    (readLoop_ready byteNum.toNat addr hready).1
  refine loadLoop_of_bytes v hnum fun i hi => ?_
  have hsum : addr+BitVec.ofNat 8 i-addr=BitVec.ofNat 8 i := add_sub_cancel_left addr _
  have hindex : (addr+BitVec.ofNat 8 i-addr).toNat=i := by
    rw [hsum,BitVec.toNat_ofNat,Nat.mod_eq_of_lt (by omega)]
  have hsplit : finalState memoryNext mem calls=finalState memoryNext
      (stored (finalState memoryNext mem before) addr (buf4Byte pBuffer v byteNum mode).1
        byteNum.toNat) after := List.foldl_append
  have hbyte : read.1.getD i 0=(buf4Byte pBuffer v byteNum mode).1 i := by
    rw [hread,block,List.getD_eq_getElem _ _ (by rw [List.length_map,List.length_range]; exact hi),
      List.getElem_map,List.getElem_range,hsplit,
      finalState_memory fun call hcall => hkept call hcall i hi,stored,hindex,if_pos hi]
  have hstored : (buf4Byte pBuffer v byteNum mode).1=storeLoop v byteNum.toNat pBuffer := by
    rw [buf4Byte,if_pos hmode]
  rw [hbyte,hstored]
  exact storeLoop_toNat v hi

/-- A word is stored across the end of the memory and outlasts other calls. -/
theorem stored_word_loaded_wrapped :
    let T := (chip 5000).onBus
    let calls : List EepromCall := [.test,
      .write 254 (buf4Byte (fun _ => 0) 0x12345678 4 1).1 4,.shellRead,.writeByte 9 1]
    let read := at24c02Read T (finalState (callNext T) (iicInit T deliveredBus) calls) 254 4
    (buf4Byte (fun i => read.1.getD i 0) 0 4 0).2.toNat=0x12345678 :=
  stored_word_loaded (by decide) deliveredBus_resting [.test] [.shellRead,.writeByte 9 1]
    0x12345678 0 254 4 1 (by decide) (by decide) (by decide)

end Words

end ZephyrApp.Eeprom24C02

import ZephyrApp.ChunkScanner
import ZephyrApp.EventRuns
import ZephyrApp.MachineBytes

/-!
# Lines from the laser's serial port

The sensor's lines end in CR LF. One variant of the receiver takes a byte at a
time, the other whatever the FIFO holds, and both then look at the last two
bytes and at the first one. A chunk that goes on behind the end of a line is
taken for one line.
-/

namespace ZephyrApp.LaserUart

open ChunkScanner EventRuns MachineBytes

/-- The size of `data` in `struct rx_buf`. -/
def rxBufSize : ℕ := 128

/-- What becomes of the bytes in the buffer. -/
inductive Verdict where
  /-- Too much data, dropped. -/
  | tooMuch
  /-- A line for `laser_serial_msgq`. -/
  | frame
  /-- Dropped for its first byte 0xEA. -/
  | notText
deriving DecidableEq

/-- The tests that follow a read, the same in both variants. -/
def judge (data : List Byte) : Option Verdict :=
  if rxBufSize≤data.length then some .tooMuch
  else if 2 < data.length then
    if data[data.length-1]?=some 0x0A ∧ data[data.length-2]?=some 0x0D then some .frame
    else if data[0]?=some 0xEA then some .notText
    else none
  else none

/-- `struct rx_buf`, with everything that has left it. -/
abbrev RxBuf := Scan Byte Verdict

/-- The body of `uart_cb` for the bytes that `uart_fifo_read` gives. -/
def uartCb (buf : RxBuf) (chunk : List Byte) : RxBuf := takeChunk judge buf chunk

/-- The body of `laser_uart_process_thread` for a byte from `uart_poll_in`. -/
def laserUartProcess (buf : RxBuf) (byte : Byte) : RxBuf := takeChunk judge buf [byte]

/-- The polled variant on a stream. -/
def polled (stream : List Byte) : RxBuf := stream.foldl laserUartProcess Scan.start

/-- The frames put into `laser_serial_msgq`, which has room, while
`LASER_NEED_CLOSE` is clear. -/
def frames (buf : RxBuf) : List (List Byte) :=
  buf.ended.filterMap fun p => if p.1=.frame then some p.2 else none

/-- The interrupt-driven variant on a stream. -/
structure Port where
  /-- The bytes read. -/
  read : List Byte
  /-- The bytes to come. -/
  left : List Byte
  /-- The static buffer of `uart_cb`. -/
  buf : RxBuf

/-- What `uart_fifo_read` gives when the FIFO holds a number of bytes. -/
def fifoRead (s : Port) (held : ℕ) : List Byte :=
  s.left.take (min held (rxBufSize-s.buf.waiting.length))

/-- The port after a read. -/
def next (s : Port) (held : ℕ) : Port :=
  let chunk := fifoRead s held
  ⟨s.read++chunk,s.left.drop chunk.length,uartCb s.buf chunk⟩

/-- The port before anything is read. -/
def opened (stream : List Byte) : Port := ⟨[],stream,Scan.start⟩

/-- Both variants have delivered the same frames. -/
def SameFrames (s : Port) : Prop := frames s.buf=frames (polled s.read)

/-- Both variants have ended the same pieces and hold the same bytes. -/
def InStep (s : Port) : Prop := s.buf=polled s.read

/-- The bytes read do not go on behind a CR LF that ends a line, nor behind the
third byte of a piece that starts with 0xEA. -/
def ReadUncut (s : Port) (held : ℕ) : Prop := Uncut judge s.buf.waiting (fifoRead s held)

/-- A line of at most 127 bytes: text that is not empty, does not start with
0xEA and holds no CR LF, and a CR LF behind it. -/
structure ProperLine (line : List Byte) : Prop where
  /-- The text and the end. -/
  text : ∃ text : List Byte,line=text++[0x0D,0x0A] ∧ text≠[] ∧ text[0]?≠some 0xEA ∧
    ∀ i : ℕ,text[i]?=some 0x0D → text[i+1]?≠some 0x0A
  /-- The length. -/
  length : line.length < rxBufSize

section Lines

/-- Nothing is held at first. -/
theorem judge_nil : judge []=none := rfl

/-- The polled variant is the scan of its stream. -/
theorem polled_eq (stream : List Byte) : polled stream=scan judge Scan.start stream := rfl

/-- A line is a piece, and no proper prefix of it is. -/
theorem ProperLine.piece {line : List Byte} (h : ProperLine line) :
    line≠[] ∧ judge line=some .frame ∧ Uncut judge [] line := by
  obtain ⟨⟨text,rfl,hne,hhead,hinner⟩,hlength⟩ := h
  have hpos := List.length_pos_iff.mpr hne
  have htotal : (text++[(0x0D : Byte),0x0A]).length=text.length+2 := List.length_append
  rw [htotal] at hlength
  refine ⟨List.append_ne_nil_of_left_ne_nil hne _,?_,fun k hlow hhigh => ?_⟩
  · have hlast : (text++[(0x0D : Byte),0x0A])[text.length+2-1]?=some 0x0A := by
      rw [List.getElem?_append_right (by omega),show text.length+2-1-text.length=1 by omega]
      rfl
    have hbefore : (text++[(0x0D : Byte),0x0A])[text.length+2-2]?=some 0x0D := by
      rw [List.getElem?_append_right (by omega),show text.length+2-2-text.length=0 by omega]
      rfl
    rw [judge,htotal,if_neg (by omega),if_pos (by omega),if_pos ⟨hlast,hbefore⟩]
  · rw [List.nil_append] at hhigh ⊢
    rw [htotal] at hhigh
    have hcut : ((text++[(0x0D : Byte),0x0A]).take k).length=k := by
      rw [List.length_take,htotal]
      omega
    have hget : ∀ i,i < k → ((text++[(0x0D : Byte),0x0A]).take k)[i]?=
        if i < text.length then text[i]? else some 0x0D := by
      intro i hi
      rw [List.getElem?_take,if_pos hi]
      split
      · exact List.getElem?_append_left ‹_›
      · rw [List.getElem?_append_right (by omega),show i-text.length=0 by omega]
        rfl
    rw [judge,hcut,if_neg (by omega)]
    split
    · rw [if_neg,if_neg]
      · rw [hget 0 (by omega),if_pos hpos]
        exact hhead
      · rintro ⟨hlf,hcr⟩
        rw [hget _ (by omega)] at hlf hcr
        split at hlf
        · rw [if_pos (by omega)] at hcr
          rw [show k-1=k-2+1 by omega] at hlf
          exact hinner _ hcr hlf
        · exact absurd hlf (by decide)
    · rfl

/-- The polled variant delivers one frame for each line of a stream of lines. -/
theorem frames_polled {lines : List (List Byte)} (h : ∀ line∈lines,ProperLine line) :
    frames (polled lines.flatten)=lines := by
  have hall : ∀ p∈lines.map fun line => (Verdict.frame,line),
      p.2≠[] ∧ judge p.2=some p.1 ∧ Uncut judge [] p.2 := by
    intro p hp
    obtain ⟨line,hline,rfl⟩ := List.mem_map.mp hp
    exact (h line hline).piece
  have hpieces := scan_pieces [] hall
  rw [List.map_map,show Prod.snd ∘ (fun line : List Byte => (Verdict.frame,line))=id from rfl,
    List.map_id,List.nil_append] at hpieces
  rw [polled_eq,Scan.start,hpieces,frames,List.filterMap_map]
  exact List.filterMap_some

end Lines

section Runs

/-- A read keeps the variants in step exactly if it goes on behind no end. -/
theorem inStep_next_iff {s : Port} (h : InStep s) (held : ℕ) :
    InStep (next s held) ↔ ReadUncut s held := by
  have hwaiting : judge s.buf.waiting=none := by
    rw [h,polled_eq]
    exact judge_scan judge_nil judge_nil _
  rw [InStep,next,polled_eq,scan_append,←polled_eq,←h]
  exact takeChunk_eq_scan_iff hwaiting _

/-- No byte of the stream is lost or read twice. -/
theorem read_append_left (stream : List Byte) (cuts : List ℕ) :
    Throughout next (fun s => s.read++s.left=stream) (opened stream) cuts := by
  refine throughout_of_invariant (C := fun _ _ => True) (fun s held hs _ => ?_) rfl
    (alongRun_forall.mpr fun _ _ => trivial)
  have hchunk : s.left.take (fifoRead s held).length=fifoRead s held := by
    rw [fifoRead,List.length_take,←List.take_take]
    simp
  rw [next]
  dsimp only
  rw [List.append_assoc]
  nth_rewrite 1 [←hchunk]
  rw [List.take_append_drop]
  exact hs

/-- However the reads cut a stream, if none of them goes on behind the end of a
piece both variants deliver the same frames throughout. The variants hold the
same bytes and have ended the same pieces throughout exactly then. From a
stream of lines the polled variant delivers these lines. -/
theorem reads_in_step (stream : List Byte) (cuts : List ℕ) :
    (AlongRun next ReadUncut (opened stream) cuts →
        Throughout next SameFrames (opened stream) cuts) ∧
      (Throughout next InStep (opened stream) cuts ↔
        AlongRun next ReadUncut (opened stream) cuts) ∧
      ∀ lines : List (List Byte),(∀ line∈lines,ProperLine line) →
        frames (polled lines.flatten)=lines := by
  have hopened : InStep (opened stream) := rfl
  have hiff : Throughout next InStep (opened stream) cuts ↔
      AlongRun next ReadUncut (opened stream) cuts :=
    throughout_iff_alongRun (P := InStep) (fun _ held hs => inStep_next_iff hs held) hopened cuts
  exact ⟨fun h => (hiff.mpr h).mono fun s hs => congrArg frames hs,hiff,fun _ => frames_polled⟩

/-- Two lines in one read are delivered as one frame. -/
theorem two_lines_in_one_read :
    ¬∀ (stream : List Byte) (cuts : List ℕ),Throughout next SameFrames (opened stream) cuts := by
  intro h
  have hlast := (h [0x61,0x62,0x0D,0x0A,0x63,0x0D,0x0A] [7]).last
  revert hlast
  unfold SameFrames
  decide

end Runs

end ZephyrApp.LaserUart

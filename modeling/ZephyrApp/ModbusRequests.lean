import ZephyrApp.EventRuns
import ZephyrApp.MachineBytes

/-!
# Requests of the Modbus TCP server

A request is read in two parts, a header of eight bytes and as much data as the
header announces, into two buffers that all connections and the replies share.
Of the first read only the result zero is looked at, of the second one only
whether it is negative; whatever else the buffers hold is submitted with it.
-/

namespace ZephyrApp.ModbusRequests

open EventRuns MachineBytes

/-- `MODBUS_MBAP_AND_FC_LENGTH`. -/
def modbusMbapAndFcLength : ℕ := 8

/-- The fields of `struct modbus_adu` that come from the header. -/
structure AduHeader where
  /-- `trans_id`. -/
  transId : Half
  /-- `proto_id`. -/
  protoId : Half
  /-- `length`, the number of data bytes. -/
  length : Half
  /-- `unit_id`. -/
  unitId : Byte
  /-- `fc`. -/
  fc : Byte
deriving DecidableEq

/-- `struct modbus_adu`. -/
structure Adu where
  /-- The fields. -/
  header : AduHeader
  /-- The buffer `data`. -/
  data : List Byte
deriving DecidableEq

/-- What a call of `recv` meets on the connection. -/
inductive Recv where
  /-- An error. -/
  | failed
  /-- The bytes that come before the connection ends or the call is full. -/
  | bytes (b : List Byte)
deriving DecidableEq

/-- The bytes that a call for a number of bytes reads. -/
def Recv.read (r : Recv) (n : ℕ) : List Byte :=
  match r with
  | .failed => []
  | .bytes b => b.take n

/-- `recv` with `MSG_WAITALL`: the value returned and the buffer. -/
def recv (r : Recv) (n : ℕ) (buf : List Byte) : ℤ×List Byte :=
  match r with
  | .failed => (-1,buf)
  | .bytes _ => ((r.read n).length,r.read n++buf.drop (r.read n).length)

/-- What a request on a readable connection meets. -/
structure Request where
  /-- The first call. -/
  header : Recv
  /-- The second call. -/
  data : Recv
  /-- `modbus_raw_submit_rx` fails. -/
  refused : Bool
  /-- What the reply, or the failure after the wait, leaves in `tmp_adu`. -/
  reply : Adu

/-- What happens to the shared buffers. -/
inductive Event where
  /-- A connection is readable. -/
  | request (r : Request)
  /-- A reply to an earlier request comes between two requests. -/
  | lateReply (reply : Adu)

/-- An ADU handed to `modbus_raw_submit_rx`, with the bytes that were received
for its request. -/
structure Submission where
  /-- The ADU. -/
  adu : Adu
  /-- The bytes of the first call. -/
  headerRead : List Byte
  /-- The bytes of the second call. -/
  dataRead : List Byte

/-- The shared buffers, with everything that was submitted. -/
structure Server where
  /-- `data_buf`. -/
  dataBuf : List Byte
  /-- `tmp_adu`. -/
  tmpAdu : Adu
  /-- The submissions in order. -/
  submitted : List Submission

section Requests

-- `modbus_raw_get_header` of a header and `modbus_raw_put_header`
variable (getHeader : List Byte → AduHeader) (putHeader : AduHeader → List Byte)

/-- The request path of `tcp_poll` for one connection. -/
def serveRequest (s : Server) (r : Request) : Server :=
  let first := recv r.header modbusMbapAndFcLength s.dataBuf
  -- the connection is closed
  if first.1=0 then {s with dataBuf := first.2}
  else
    let header := getHeader (first.2.take modbusMbapAndFcLength)
    let second := recv r.data header.length.toNat s.tmpAdu.data
    if second.1 < 0 then {s with dataBuf := first.2,tmpAdu := ⟨header,s.tmpAdu.data⟩}
    else
      let adu : Adu := ⟨header,second.2⟩
      let submitted := s.submitted++[⟨adu,r.header.read modbusMbapAndFcLength,
        r.data.read header.length.toNat⟩]
      if r.refused then ⟨first.2,adu,submitted⟩
      else
        let answer := putHeader r.reply.header++r.reply.data.take r.reply.header.length.toNat
        ⟨answer++first.2.drop answer.length,r.reply,submitted⟩

/-- The buffers after an event. -/
def next (s : Server) : Event → Server
  | .request r => serveRequest getHeader putHeader s r
  | .lateReply reply => {s with tmpAdu := reply}

/-- The buffers at start. -/
def boot : Server := ⟨List.replicate 256 0,⟨⟨0,0,0,0,0⟩,List.replicate 256 0⟩,[]⟩

/-- All eight header bytes of the submission and all data bytes that they
announce were received for its request, and it consists of them. -/
structure Genuine (x : Submission) : Prop where
  /-- The header is complete. -/
  headerRead : x.headerRead.length=modbusMbapAndFcLength
  /-- The fields are the header's. -/
  header : x.adu.header=getHeader x.headerRead
  /-- The data bytes are complete. -/
  dataRead : x.dataRead.length=x.adu.header.length.toNat
  /-- The data bytes are the request's. -/
  data : x.adu.data.take x.adu.header.length.toNat=x.dataRead

/-- Only complete requests were submitted. -/
def AllGenuine (s : Server) : Prop := ∀ x∈s.submitted,Genuine getHeader x

/-- The first call reads nothing or the whole header, and after a header the
second one reads all the data that it announces; or the second call fails. -/
def ReadsWhole (_ : Server) : Event → Prop
  | .lateReply _ => True
  | .request r => r.data=.failed ∨ ∃ b,r.header=.bytes b ∧
    (b=[] ∨ modbusMbapAndFcLength≤b.length ∧ ∃ d,r.data=.bytes d ∧
      (getHeader (b.take modbusMbapAndFcLength)).length.toNat≤d.length)

variable {getHeader putHeader} {s : Server}

/-- What is read is at the front of the buffer. -/
theorem recv_take (b buf : List Byte) (n : ℕ) :
    (recv (.bytes b) n buf).2.take ((Recv.bytes b).read n).length=(Recv.bytes b).read n := by
  rw [recv,List.take_left]

/-- A call that gets all bytes reads as many as it asks for. -/
theorem read_length {b : List Byte} {n : ℕ} :
    ((Recv.bytes b).read n).length=n ↔ n≤b.length := by
  rw [Recv.read,List.length_take]
  omega

/-- The submission of a request whose first call did not return zero. -/
def submission (getHeader : List Byte → AduHeader) (s : Server) (r : Request) (d : List Byte) :
    Submission :=
  let first := (recv r.header modbusMbapAndFcLength s.dataBuf).2
  let header := getHeader (first.take modbusMbapAndFcLength)
  ⟨⟨header,(recv (.bytes d) header.length.toNat s.tmpAdu.data).2⟩,
    r.header.read modbusMbapAndFcLength,(Recv.bytes d).read header.length.toNat⟩

/-- A connection that is closed submits nothing. -/
theorem submitted_closed {r : Request} (h : r.header=.bytes []) :
    (serveRequest getHeader putHeader s r).submitted=s.submitted := by
  rw [serveRequest,h]
  rfl

/-- A request whose second call fails submits nothing. -/
theorem submitted_failed {r : Request} (h : r.data=.failed) :
    (serveRequest getHeader putHeader s r).submitted=s.submitted := by
  rw [serveRequest,h]
  dsimp only
  split
  · rfl
  · rw [recv,if_pos (show (-1 : ℤ) < 0 by decide)]

/-- Every other request submits what the buffers hold. -/
theorem submitted_request {r : Request} (hheader : r.header≠.bytes []) {d : List Byte}
    (hdata : r.data=.bytes d) :
    (serveRequest getHeader putHeader s r).submitted=
      s.submitted++[submission getHeader s r d] := by
  have hfirst : (recv r.header modbusMbapAndFcLength s.dataBuf).1≠0 := by
    cases hr : r.header with
    | failed => exact show (-1 : ℤ)≠0 by decide
    | bytes b =>
      have hb : b≠[] := fun h => hheader (by rw [hr,h])
      have hpos := List.length_pos_iff.mpr hb
      rw [recv,Recv.read,List.length_take,modbusMbapAndFcLength]
      dsimp only
      omega
  have hsecond : ∀ (n : ℕ) (buf : List Byte),¬(recv (.bytes d) n buf).1 < 0 := by
    intro n buf
    rw [recv]
    exact not_lt_of_ge (Int.natCast_nonneg _)
  rw [serveRequest,hdata]
  dsimp only
  rw [if_neg hfirst,if_neg (hsecond _ _)]
  split <;> rfl

/-- After a call that got all its bytes the front of the buffer is these. -/
theorem recv_take_full {b : List Byte} {n : ℕ} (h : n≤b.length) (buf : List Byte) :
    (recv (.bytes b) n buf).2.take n=b.take n := by
  have hfront := recv_take b buf n
  rwa [read_length.mpr h] at hfront

/-- What is submitted is genuine exactly if both calls got all their bytes. -/
theorem genuine_submission_iff {r : Request} {d : List Byte} :
    Genuine getHeader (submission getHeader s r d) ↔
      ∃ b,r.header=.bytes b ∧ modbusMbapAndFcLength≤b.length ∧
        (getHeader (b.take modbusMbapAndFcLength)).length.toNat≤d.length := by
  constructor
  · intro h
    have hread : (r.header.read modbusMbapAndFcLength).length=modbusMbapAndFcLength := h.headerRead
    cases hr : r.header with
    | failed =>
      rw [hr] at hread
      nomatch hread
    | bytes b =>
      rw [hr] at hread
      have hfull := read_length.mp hread
      have hdata := h.dataRead
      rw [submission,hr] at hdata
      dsimp only at hdata
      rw [recv_take_full hfull] at hdata
      exact ⟨b,rfl,hfull,read_length.mp hdata⟩
  · rintro ⟨b,hr,hfull,hall⟩
    rw [submission,hr]
    rw [recv_take_full hfull]
    exact ⟨read_length.mpr hfull,rfl,read_length.mpr hall,recv_take_full hall _⟩

/-- A request keeps the submissions genuine exactly if its reads are whole. -/
theorem allGenuine_next_iff (hs : AllGenuine getHeader s) (e : Event) :
    AllGenuine getHeader (next getHeader putHeader s e) ↔ ReadsWhole getHeader s e := by
  cases e with
  | lateReply reply => exact iff_of_true hs trivial
  | request r =>
    rw [AllGenuine,next,ReadsWhole]
    cases hdata : r.data with
    | failed =>
      rw [submitted_failed hdata]
      exact iff_of_true hs (.inl rfl)
    | bytes d =>
      by_cases hclosed : r.header=.bytes []
      · rw [submitted_closed hclosed]
        exact iff_of_true hs (.inr ⟨[],hclosed,.inl rfl⟩)
      · rw [submitted_request hclosed hdata,List.forall_mem_append,List.forall_mem_singleton,
          genuine_submission_iff]
        constructor
        · rintro ⟨-,b,hb,hfull,hall⟩
          exact .inr ⟨b,hb,.inr ⟨hfull,d,rfl,hall⟩⟩
        · rintro (h | ⟨b,hb,rfl | ⟨hfull,d',hd,hall⟩⟩)
          · nomatch h
          · exact absurd hb hclosed
          · obtain rfl := Recv.bytes.inj hd
            exact ⟨hs,b,hb,hfull,hall⟩

/-- The kernel's reading of a header: big-endian fields, the length without the
two bytes that are part of the header. -/
def rawGetHeader (header : List Byte) : AduHeader :=
  ⟨sysGetBe16 header 0,sysGetBe16 header 2,sysGetBe16 header 4-2,header.getD 6 0,header.getD 7 0⟩

end Requests

end ZephyrApp.ModbusRequests

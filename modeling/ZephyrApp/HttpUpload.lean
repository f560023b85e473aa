import ZephyrApp.CStrings
import ZephyrApp.FlashArea

/-!
# Firmware upload over HTTP

The server passes the body of a request to a callback in chunks. The callback
looks for the end of the part header, opens and erases the slot and writes what
follows; later chunks are written at a position kept in a static. The position
moves on in no case: after the first chunk it is where the second one goes, and
the third one too. An upload is right on every slot exactly if the first chunk
leaves room and at most one later chunk carries bytes of the file.
-/

namespace ZephyrApp.HttpUpload

open MachineBytes CStrings FlashArea

section Handler

/-- The end of a line. -/
def crlf : List Byte := [13,10]

/-- The end of the part header. -/
def blankLine : List Byte := [13,10,13,10]

/-- `enum http_transaction_status`. -/
inductive TransactionStatus where
  /-- The transaction is given up. -/
  | aborted
  /-- More of the body is to come. -/
  | more
  /-- This is the last part of the body. -/
  | final
deriving DecidableEq

/-- `struct fw_data`. The area is told by whether it is open. -/
structure FwData where
  /-- `found`. -/
  found : Bool
  /-- `had_first`. -/
  hadFirst : Bool
  /-- The bytes of `first_line` that were copied. -/
  firstLine : List Byte
  /-- `offset`. -/
  offset : ℕ
  /-- `fa` is set. -/
  fa : Bool

/-- `fw_d` before a request: all bytes are zero. -/
def FwData.cleared : FwData := ⟨false,false,[],0,false⟩

/-- `struct http_request_ctx`: the bytes of a chunk, and what lies behind them
in the buffer of the server. -/
structure RequestCtx where
  /-- `data`. -/
  data : List Byte
  /-- What lies behind. -/
  behind : List Byte

/-- What the callback calls. -/
inductive AreaCall where
  /-- `flash_area_open`, with the outcome. -/
  | areaOpen (ok : Bool)
  /-- `flash_area_erase` of the slot, with the outcome. -/
  | areaErase (ok : Bool)
  /-- `flash_area_write`, with the outcome. -/
  | areaWrite (off : ℕ) (bytes : List Byte) (ok : Bool)
  /-- `set_reboot_status`. -/
  | setRebootStatus
deriving DecidableEq

/-- What a call of the callback leaves and does. -/
structure UploadReport (δ : Type) where
  /-- The static afterwards. -/
  data : FwData
  /-- The device afterwards. -/
  device : δ
  /-- The calls, in order. -/
  calls : List AreaCall
  /-- The body of the response, if it is set: whether it tells success. -/
  answer : Option Bool
  /-- The return value. -/
  ret : ℤ

variable {δ : Type} (F : AreaFlash δ)

/-- Open and erase the slot and write the bytes that follow the header. The
outcome of the erase is not looked at. -/
def firstWrite (s : FwData) (d : δ) (bytes : List Byte) : UploadReport δ :=
  let opened := F.areaOpen d
  if opened.1=false then ⟨.cleared,opened.2,[.areaOpen false],none,-1⟩
  else
    let erased := F.areaErase opened.2
    let wrote := F.areaWrite erased.2 s.offset bytes
    let calls := [.areaOpen true,.areaErase erased.1,.areaWrite s.offset bytes wrote.1]
    if wrote.1=false then ⟨.cleared,wrote.2,calls,none,-1⟩
    else ⟨{s with
      found := true
      offset := bytes.length
      fa := true},wrote.2,calls,none,0⟩

/-- The branch before the end of the header is found. None when the header ends
behind the chunk. -/
def firstPart (s : FwData) (d : δ) (req : RequestCtx) : Option (UploadReport δ) :=
  let text := req.data++req.behind
  -- the first line is kept, and from then on the chunk ends in a zero byte
  let lined : FwData×List Byte :=
    if s.hadFirst=false then
      match strstr crlf (cString text) with
      | some p => ({s with firstLine := text.take (min p 64),hadFirst := true},req.data)
      | none => (s,text)
    else (s,text)
  match strstr blankLine (cString lined.2) with
  | none => some ⟨lined.1,d,[],none,0⟩
  | some p =>
    if req.data.length < p+4 then none
    else some (firstWrite F lined.1 d (req.data.drop (p+4)))

/-- The branch for the chunks after it: the position moves on only by the bytes
before a boundary behind the end of the slot. -/
def nextPart (s : FwData) (d : δ) (req : RequestCtx) : UploadReport δ :=
  let beyond : ℤ := s.offset+req.data.length-F.size
  let len : ℤ :=
    if 0 < beyond then
      let skip := (req.data.length-beyond).toNat
      match strstr (cString s.firstLine) (cString ((req.data++req.behind).drop skip)) with
      | some p => skip+p-2
      | none => 0
    else 0
  let wrote := F.areaWrite d s.offset req.data
  if wrote.1=false then ⟨.cleared,wrote.2,[.areaWrite s.offset req.data false],none,-1⟩
  else ⟨{s with offset := (s.offset+len).toNat},wrote.2,[.areaWrite s.offset req.data true],none,0⟩

/-- The end of the callback: with the last chunk the position decides the
answer. None when the area was never opened. -/
def finish (r : UploadReport δ) : Option (UploadReport δ) :=
  if r.data.fa=false then none
  else if r.data.offset≠F.size then some {r with
    answer := some false
    data := .cleared}
  else some {r with
    answer := some true
    calls := r.calls++[.setRebootStatus]
    data := .cleared}

/-- `fw_upgrade_handler`. -/
def fwUpgradeHandler (s : FwData) (d : δ) (status : TransactionStatus) (req : RequestCtx) :
    Option (UploadReport δ) :=
  if status=.aborted then some ⟨.cleared,d,[],none,0⟩
  else
    (if s.found=false then firstPart F s d req else some (nextPart F s d req)).bind fun r =>
      if r.ret≠0 then some r else if status=.final then finish F r else some r

/-- What an upload leaves and does. -/
structure UploadRun (δ : Type) where
  /-- The device afterwards. -/
  device : δ
  /-- The calls, in order. -/
  calls : List AreaCall
  /-- The answer. -/
  answer : Option Bool

/-- The server passes on the chunks of a body, and stops at an error. -/
def upload : FwData → δ → List RequestCtx → Option (UploadRun δ)
  | _,d,[] => some ⟨d,[],none⟩
  | s,d,[req] => (fwUpgradeHandler F s d .final req).map fun r => ⟨r.device,r.calls,r.answer⟩
  | s,d,req::next::rest =>
    (fwUpgradeHandler F s d .more req).bind fun r =>
      if r.ret≠0 then some ⟨r.device,r.calls,r.answer⟩
      else (upload r.data r.device (next::rest)).map fun u => {u with calls := r.calls++u.calls}

end Handler

section Bodies

/-- A multipart body with one part: the boundary line, the headers up to and
with the blank line, and the file, which does not contain the delimiter. -/
structure Multipart where
  /-- The boundary line. -/
  line : List Byte
  /-- The header lines, each with its end. -/
  headers : List Byte
  /-- The file. -/
  file : List Byte
  /-- There are no zero bytes in the header. -/
  plain : ∀ b∈line++crlf++headers++crlf,b≠0
  /-- The first blank line ends the header. -/
  ends : strstr blankLine (line++crlf++headers++crlf)=some (line.length+headers.length)
  /-- The delimiter does not occur in the file. -/
  free : strstr (crlf++line) file=none

/-- The part header. -/
def Multipart.header (body : Multipart) : List Byte := body.line++crlf++body.headers++crlf

/-- The delimiter that closes the body. -/
def Multipart.closing (body : Multipart) : List Byte := crlf++body.line++[0x2D,0x2D]++crlf

/-- A body cut into chunks, with the part header in the first one. -/
structure Cut (body : Multipart) where
  /-- What the first chunk carries behind the header. -/
  rest : List Byte
  /-- What lies behind the first chunk. -/
  behind : List Byte
  /-- The other chunks. -/
  later : List RequestCtx
  /-- Together they are the file and the closing delimiter. -/
  whole : rest++(later.map RequestCtx.data).flatten=body.file++body.closing

/-- The chunks of a cut body. -/
def Cut.requests {body : Multipart} (cut : Cut body) : List RequestCtx :=
  ⟨body.header++cut.rest,cut.behind⟩::cut.later

/-- Whether a flash operation succeeded. -/
def AreaCall.succeeded : AreaCall → Bool
  | .areaOpen ok => ok
  | .areaErase ok => ok
  | .areaWrite _ _ ok => ok
  | .setRebootStatus => true

/-- An upload to a slot is right: no write goes beyond the slot, after successful
operations the slot begins with as much of the file as it can hold, and success
is told exactly if all operations succeeded and the file fills the slot. -/
structure RunRight {δ : Type} (F : AreaFlash δ) (file : List Byte) (run : UploadRun δ) : Prop where
  /-- Writes stay in the slot. -/
  inside : ∀ off bytes ok,.areaWrite off bytes ok∈run.calls → off+bytes.length≤F.size
  /-- The slot holds the file. -/
  holds : run.calls.all AreaCall.succeeded=true →
    ∀ i < min file.length F.size,F.read run.device i=file.getD i 0
  /-- The answer is right. -/
  told : run.answer=some true ↔ file.length=F.size ∧ run.calls.all AreaCall.succeeded=true

/-- The upload of a cut body to any slot of a size is right. -/
def UploadRight (size : ℕ) {body : Multipart} (cut : Cut body) : Prop :=
  ∀ (δ : Type) (F : AreaFlash δ),F.Lawful → F.size=size → ∀ d : δ,
    ∃ run,upload F .cleared d cut.requests=some run ∧ RunRight F body.file run

/-- The first chunk leaves room in the slot, every other chunk fits behind it,
and the file ends in the first chunk or in the only other one that has bytes. -/
def WrittenOnce (size : ℕ) {body : Multipart} (cut : Cut body) : Prop :=
  cut.rest.length < size ∧ (∀ req∈cut.later,cut.rest.length+req.data.length ≤ size) ∧
    (body.file.length≤cut.rest.length ∨ filled (cut.later.map RequestCtx.data)≤1)

end Bodies

section Steps

variable {δ : Type} {F : AreaFlash δ} {s : FwData} {d : δ}

/-- A header in the first chunk is found there, and what follows it is written. -/
theorem firstPart_header (F : AreaFlash δ) (d : δ) (body : Multipart) (rest behind : List Byte) :
    ∃ line,firstPart F .cleared d ⟨body.header++rest,behind⟩=
      some (firstWrite F ⟨false,true,line,0,false⟩ d rest) := by
  have hplain : ∀ b∈body.header,b≠0 := body.plain
  have hlength : body.header.length=body.line.length+body.headers.length+4 := by
    simp only [Multipart.header,crlf,List.length_append,List.length_cons,List.length_nil]
    omega
  have hline : (strstr crlf (cString ((body.header++rest)++behind))).isSome=true := by
    have hsplit : body.header++cString (rest++behind)=
        body.line++crlf++(body.headers++crlf++cString (rest++behind)) := by
      simp only [Multipart.header,List.append_assoc]
    rw [List.append_assoc,cString_append hplain,hsplit]
    exact strstr_isSome _ _ _
  obtain ⟨p,hp⟩ := Option.isSome_iff_exists.mp hline
  have hend : strstr blankLine (cString (body.header++rest))=
      some (body.line.length+body.headers.length) := by
    rw [cString_append hplain]
    exact strstr_append body.ends _
  refine ⟨((body.header++rest)++behind).take (min p 64),?_⟩
  simp only [firstPart,FwData.cleared,if_true,hp,hend]
  rw [if_neg (by rw [List.length_append]; omega),List.drop_append_of_le_length (by omega),
    List.drop_of_length_le (by omega),List.nil_append]

/-- A later chunk is written at the position, which stays where it is. -/
theorem nextPart_eq (hF : F.Lawful) (s : FwData) (d : δ) (req : RequestCtx) :
    nextPart F s d req=
      if (F.areaWrite d s.offset req.data).1=false then
        ⟨.cleared,(F.areaWrite d s.offset req.data).2,[.areaWrite s.offset req.data false],none,-1⟩
      else ⟨s,(F.areaWrite d s.offset req.data).2,[.areaWrite s.offset req.data true],none,0⟩ := by
  unfold nextPart
  dsimp only
  split
  · rfl
  · rename_i hok
    have hin : s.offset+req.data.length≤F.size := by
      by_contra hout
      rw [hF.write_out d s.offset req.data (by omega)] at hok
      exact hok rfl
    rw [if_neg (by omega),add_zero,Int.toNat_natCast]

/-- What the chunks after the first one come to. -/
inductive LaterCase (F : AreaFlash δ) (off : ℕ) (d : δ) (pieces : List (List Byte))
    (run : UploadRun δ) : Prop
  /-- All of them are written to the same place. -/
  | written (all : AllWritten F off d pieces) (device : run.device=writeEach F off d pieces)
      (ok : run.calls.all AreaCall.succeeded=true)
      (answer : pieces≠[] → run.answer=some (decide (off=F.size)))
  /-- A write fails. -/
  | failed (bytes : List Byte) (mem : bytes∈pieces) (d' : δ)
      (err : (F.areaWrite d' off bytes).1=false)
      (call : .areaWrite off bytes false∈run.calls) (answer : run.answer=none)

/-- The last answer depends on the position alone. -/
theorem finish_eq {r : UploadReport δ} (hfa : r.data.fa=true) :
    ∃ t,finish F r=some t ∧ t.device=r.device ∧ t.answer=some (decide (r.data.offset=F.size)) ∧
      (t.calls=r.calls ∨ t.calls=r.calls++[.setRebootStatus]) := by
  unfold finish
  rw [if_neg (by rw [hfa]; decide)]
  split
  · rename_i hne
    exact ⟨_,rfl,rfl,by rw [decide_eq_false hne],Or.inl rfl⟩
  · rename_i heq
    exact ⟨_,rfl,rfl,by rw [decide_eq_true (not_not.mp heq)],Or.inr rfl⟩

/-- A call before the last chunk only takes its branch. -/
theorem fwUpgradeHandler_more (s : FwData) (d : δ) (req : RequestCtx) :
    fwUpgradeHandler F s d .more req=
      if s.found=false then firstPart F s d req else some (nextPart F s d req) := by
  unfold fwUpgradeHandler
  rw [if_neg (by decide)]
  cases (if s.found=false then firstPart F s d req else some (nextPart F s d req)) with
  | none => rfl
  | some r =>
    rw [Option.bind_some]
    split
    · rfl
    · exact if_neg (by decide)

/-- The call for the last chunk takes its branch and ends with the answer. -/
theorem fwUpgradeHandler_final (s : FwData) (d : δ) (req : RequestCtx) :
    fwUpgradeHandler F s d .final req=
      (if s.found=false then firstPart F s d req else some (nextPart F s d req)).bind fun r =>
        if r.ret≠0 then some r else finish F r := by
  unfold fwUpgradeHandler
  rw [if_neg (by decide)]
  rfl

/-- A later chunk that cannot be written ends the upload without an answer. -/
theorem upload_refused (hF : F.Lawful) (hfound : s.found=true) {d : δ} {req : RequestCtx}
    (hok : (F.areaWrite d s.offset req.data).1=false) (rest : List RequestCtx) :
    upload F s d (req::rest)=
      some ⟨(F.areaWrite d s.offset req.data).2,[.areaWrite s.offset req.data false],none⟩ := by
  have hbranch : (if s.found=false then firstPart F s d req else some (nextPart F s d req))=
      some (nextPart F s d req) := if_neg (by rw [hfound]; decide)
  have hnext := nextPart_eq hF s d req
  rw [if_pos hok] at hnext
  cases rest with
  | nil =>
    rw [upload,fwUpgradeHandler_final,hbranch,hnext]
    rfl
  | cons next rest =>
    rw [upload,fwUpgradeHandler_more,hbranch,hnext]
    rfl

/-- The chunks after the first one are all written to the position, until one of
the writes fails. -/
theorem upload_later (hF : F.Lawful) (hfound : s.found=true) (hfa : s.fa=true)
    (later : List RequestCtx) (d : δ) : ∃ run,upload F s d later=some run ∧
      (∀ off bytes ok,.areaWrite off bytes ok∈run.calls →
        off=s.offset ∧ bytes∈later.map RequestCtx.data) ∧
      LaterCase F s.offset d (later.map RequestCtx.data) run := by
  induction later generalizing d with
  | nil =>
    exact ⟨_,rfl,fun _ _ _ h => absurd h List.not_mem_nil,.written trivial rfl rfl (absurd rfl)⟩
  | cons req rest ih =>
    have hbranch : (if s.found=false then firstPart F s d req else some (nextPart F s d req))=
        some (nextPart F s d req) := if_neg (by rw [hfound]; decide)
    by_cases hok : (F.areaWrite d s.offset req.data).1=false
    · refine ⟨_,upload_refused hF hfound hok rest,fun off bytes ok h => ?_,
        .failed req.data List.mem_cons_self d hok List.mem_cons_self rfl⟩
      obtain ⟨rfl,rfl,-⟩ := AreaCall.areaWrite.inj (List.mem_singleton.mp h)
      exact ⟨rfl,List.mem_cons_self⟩
    · have hnext := nextPart_eq hF s d req
      have hwrote := Bool.eq_true_of_not_eq_false hok
      rw [if_neg hok] at hnext
      cases rest with
      | nil =>
        obtain ⟨t,hfinish,hdevice,hanswer,hcalls⟩ := finish_eq (F := F)
          (r := nextPart F s d req) (by rw [hnext]; exact hfa)
        rw [hnext] at hfinish hdevice hanswer hcalls
        refine ⟨⟨t.device,t.calls,t.answer⟩,?_,?_,.written ⟨hwrote,trivial⟩ hdevice ?_
          fun _ => hanswer⟩
        · rw [upload,fwUpgradeHandler_final,hbranch,hnext,Option.bind_some,
            if_neg (not_not.mpr rfl),hfinish]
          rfl
        · intro off bytes ok h
          rcases hcalls with hcalls | hcalls
          · rw [hcalls] at h
            obtain ⟨rfl,rfl,-⟩ := AreaCall.areaWrite.inj (List.mem_singleton.mp h)
            exact ⟨rfl,List.mem_cons_self⟩
          · rw [hcalls] at h
            simp only [List.singleton_append,List.mem_cons,List.not_mem_nil,or_false,
              AreaCall.areaWrite.injEq,reduceCtorEq] at h
            exact ⟨h.1,h.2.1 ▸ List.mem_cons_self⟩
        · rcases hcalls with hcalls | hcalls <;> rw [hcalls] <;> rfl
      | cons next rest =>
        obtain ⟨run,hrun,hwrites,hcase⟩ := ih (F.areaWrite d s.offset req.data).2
        refine ⟨{run with calls := .areaWrite s.offset req.data true::run.calls},?_,?_,?_⟩
        · rw [upload,fwUpgradeHandler_more,hbranch,hnext,Option.bind_some,
            if_neg (not_not.mpr rfl),hrun]
          rfl
        · intro off bytes ok h
          rcases List.mem_cons.mp h with h | h
          · obtain ⟨rfl,rfl,-⟩ := AreaCall.areaWrite.inj h
            exact ⟨rfl,List.mem_cons_self⟩
          · obtain ⟨hoff,hmem⟩ := hwrites off bytes ok h
            exact ⟨hoff,List.mem_cons_of_mem _ hmem⟩
        · cases hcase with
          | written all device ok answer =>
            exact .written ⟨hwrote,all⟩ device ok fun _ => answer (List.cons_ne_nil _ _)
          | failed bytes mem d' err call answer =>
            exact .failed bytes (List.mem_cons_of_mem _ mem) d' err (List.mem_cons_of_mem _ call)
              answer

end Steps

section Uploads

variable {δ : Type}

/-- The device after the first write to a slot that was opened and erased. -/
def begunDevice (F : AreaFlash δ) (d : δ) (rest : List Byte) : δ :=
  (F.areaWrite (F.areaErase (F.areaOpen d).2).2 0 rest).2

/-- What an upload comes to. -/
inductive UploadCase (F : AreaFlash δ) (d : δ) (rest : List Byte) (pieces : List (List Byte))
    (run : UploadRun δ) : Prop
  /-- The slot is not opened, or a write fails. -/
  | refused (call : AreaCall) (mem : call∈run.calls) (err : call.succeeded=false)
      (answer : run.answer=none)
      (why : (F.areaOpen d).1=false ∨ ∃ d' off bytes,call=.areaWrite off bytes false ∧
        (F.areaWrite d' off bytes).1=false)
  /-- The first chunk is written to the front, all others behind it. -/
  | written (wrote : (F.areaWrite (F.areaErase (F.areaOpen d).2).2 0 rest).1=true)
      (all : AllWritten F rest.length (begunDevice F d rest) pieces)
      (device : run.device=writeEach F rest.length (begunDevice F d rest) pieces)
      (calls : run.calls.all AreaCall.succeeded=(F.areaErase (F.areaOpen d).2).1)
      (answer : run.answer=some (decide (rest.length=F.size)))

/-- A write goes to the front with what follows the header, or behind it with a
later chunk. -/
def WritesPart (rest : List Byte) (pieces : List (List Byte)) (run : UploadRun δ) : Prop :=
  ∀ off bytes ok,.areaWrite off bytes ok∈run.calls →
    off=0 ∧ bytes=rest ∨ off=rest.length ∧ bytes∈pieces

variable {F : AreaFlash δ} {body : Multipart}

/-- An upload whose first write fails, or is not reached, ends with it. -/
theorem upload_first {cut : Cut body} {d : δ} {r : UploadReport δ}
    (hpart : firstPart F .cleared d ⟨body.header++cut.rest,cut.behind⟩=some r) (hret : r.ret≠0) :
    upload F .cleared d cut.requests=some ⟨r.device,r.calls,r.answer⟩ := by
  have hbranch : (if FwData.cleared.found=false then
        firstPart F .cleared d ⟨body.header++cut.rest,cut.behind⟩
      else some (nextPart F .cleared d ⟨body.header++cut.rest,cut.behind⟩))=some r := hpart
  rw [Cut.requests]
  cases cut.later with
  | nil =>
    rw [upload,fwUpgradeHandler_final,hbranch,Option.bind_some,if_pos hret]
    rfl
  | cons next later =>
    rw [upload,fwUpgradeHandler_more,hbranch,Option.bind_some,if_pos hret]

/-- The calls of a first chunk that is written to the front of the slot. -/
def openingCalls (F : AreaFlash δ) (d : δ) (rest : List Byte) : List AreaCall :=
  [.areaOpen true,.areaErase (F.areaErase (F.areaOpen d).2).1,.areaWrite 0 rest true]

/-- The static data behind a first chunk that is written. -/
def begunData (line rest : List Byte) : FwData := ⟨true,true,line,rest.length,true⟩

/-- The first chunk opens the slot, which may fail, and is written to its front,
which may fail. -/
theorem firstWrite_cases (F : AreaFlash δ) (d : δ) (line rest : List Byte) :
    if (F.areaOpen d).1=false then
      firstWrite F ⟨false,true,line,0,false⟩ d rest=
        ⟨.cleared,(F.areaOpen d).2,[.areaOpen false],none,-1⟩
    else if (F.areaWrite (F.areaErase (F.areaOpen d).2).2 0 rest).1=false then
      firstWrite F ⟨false,true,line,0,false⟩ d rest=
        ⟨.cleared,begunDevice F d rest,[.areaOpen true,
          .areaErase (F.areaErase (F.areaOpen d).2).1,.areaWrite 0 rest false],none,-1⟩
    else
      firstWrite F ⟨false,true,line,0,false⟩ d rest=
        ⟨begunData line rest,begunDevice F d rest,openingCalls F d rest,none,0⟩ := by
  unfold firstWrite
  dsimp only
  split
  · rfl
  · split
    · rename_i hwrote
      rw [hwrote]
      rfl
    · rename_i hwrote
      rw [Bool.eq_true_of_not_eq_false hwrote]
      rfl

/-- The only write of the opening calls puts the first chunk to the front. -/
theorem areaWrite_mem_openingCalls {d : δ} {rest bytes : List Byte} {off : ℕ} {ok : Bool}
    (h : .areaWrite off bytes ok∈openingCalls F d rest) : off=0 ∧ bytes=rest := by
  simp only [openingCalls,List.mem_cons,List.not_mem_nil,or_false,reduceCtorEq,
    AreaCall.areaWrite.injEq,false_or] at h
  exact ⟨h.1,h.2.1⟩

/-- The opening calls succeed exactly if the slot is erased. -/
theorem openingCalls_succeeded (F : AreaFlash δ) (d : δ) (rest : List Byte) :
    (openingCalls F d rest).all AreaCall.succeeded=(F.areaErase (F.areaOpen d).2).1 := by
  simp [openingCalls,AreaCall.succeeded]

/-- An upload whose first chunk is written goes on with the others, or ends. -/
theorem upload_begun (hF : F.Lawful) (cut : Cut body) (d : δ) {line : List Byte}
    (hpart : firstPart F .cleared d ⟨body.header++cut.rest,cut.behind⟩=
      some ⟨begunData line cut.rest,begunDevice F d cut.rest,openingCalls F d cut.rest,none,0⟩)
    (hok : (F.areaWrite (F.areaErase (F.areaOpen d).2).2 0 cut.rest).1=true) :
    ∃ run,upload F .cleared d cut.requests=some run ∧
      WritesPart cut.rest (cut.later.map RequestCtx.data) run ∧
      UploadCase F d cut.rest (cut.later.map RequestCtx.data) run := by
  have hall := openingCalls_succeeded F d cut.rest
  have hbranch : (if FwData.cleared.found=false then
        firstPart F .cleared d ⟨body.header++cut.rest,cut.behind⟩
      else some (nextPart F .cleared d ⟨body.header++cut.rest,cut.behind⟩))=some
        ⟨begunData line cut.rest,begunDevice F d cut.rest,openingCalls F d cut.rest,none,0⟩ := hpart
  cases hlater : cut.later with
  | nil =>
    obtain ⟨t,hfinish,hdevice,hanswer,hcalls⟩ := @finish_eq _ F
      ⟨begunData line cut.rest,begunDevice F d cut.rest,openingCalls F d cut.rest,none,0⟩ rfl
    refine ⟨⟨t.device,t.calls,t.answer⟩,?_,?_,.written hok trivial hdevice ?_ hanswer⟩
    · rw [Cut.requests,hlater,upload,fwUpgradeHandler_final,hbranch,Option.bind_some,
        if_neg (not_not.mpr rfl),hfinish]
      rfl
    · intro off bytes ok h
      rcases hcalls with hcalls | hcalls <;> rw [hcalls] at h
      · exact Or.inl (areaWrite_mem_openingCalls h)
      · simp only [List.mem_append,List.mem_singleton,reduceCtorEq,or_false] at h
        exact Or.inl (areaWrite_mem_openingCalls h)
    · rcases hcalls with hcalls | hcalls <;> rw [hcalls]
      · exact hall
      · rw [List.all_append,hall]
        exact Bool.and_true _
  | cons next later =>
    obtain ⟨run,hrun,hwrites,hcase⟩ := @upload_later _ F (begunData line cut.rest) hF rfl rfl
      (next::later) (begunDevice F d cut.rest)
    refine ⟨{run with calls := openingCalls F d cut.rest++run.calls},?_,?_,?_⟩
    · rw [Cut.requests,hlater,upload,fwUpgradeHandler_more,hbranch,Option.bind_some,
        if_neg (not_not.mpr rfl),hrun]
      rfl
    · intro off bytes ok h
      rcases List.mem_append.mp h with h | h
      · exact Or.inl (areaWrite_mem_openingCalls h)
      · exact Or.inr (hwrites off bytes ok h)
    · cases hcase with
      | written all device ok answer =>
        refine .written hok all device ?_ (answer (List.cons_ne_nil _ _))
        rw [List.all_append,hall,ok]
        exact Bool.and_true _
      | failed bytes mem d' err call answer =>
        exact .refused _ (List.mem_append_right _ call) rfl answer
          (Or.inr ⟨d',_,_,rfl,err⟩)

/-- Every upload comes to one of these. -/
theorem upload_cases (hF : F.Lawful) (cut : Cut body) (d : δ) :
    ∃ run,upload F .cleared d cut.requests=some run ∧
      WritesPart cut.rest (cut.later.map RequestCtx.data) run ∧
      UploadCase F d cut.rest (cut.later.map RequestCtx.data) run := by
  obtain ⟨line,hpart⟩ := firstPart_header F d body cut.rest cut.behind
  have hwrite := firstWrite_cases F d line cut.rest
  by_cases hopen : (F.areaOpen d).1=false
  · rw [if_pos hopen] at hwrite
    rw [hwrite] at hpart
    refine ⟨_,upload_first hpart (by simp),fun off bytes ok h => ?_,
      .refused _ List.mem_cons_self rfl rfl (Or.inl hopen)⟩
    cases List.mem_singleton.mp h
  · rw [if_neg hopen] at hwrite
    by_cases hwrote : (F.areaWrite (F.areaErase (F.areaOpen d).2).2 0 cut.rest).1=false
    · rw [if_pos hwrote] at hwrite
      rw [hwrite] at hpart
      refine ⟨_,upload_first hpart (by simp),fun off bytes ok h => ?_,
        .refused (.areaWrite 0 cut.rest false) (by simp) rfl rfl
          (Or.inr ⟨_,_,_,rfl,hwrote⟩)⟩
      simp only [List.mem_cons,List.not_mem_nil,or_false,reduceCtorEq,AreaCall.areaWrite.injEq,
        false_or] at h
      exact Or.inl ⟨h.1,h.2.1⟩
    · rw [if_neg hwrote] at hwrite
      exact upload_begun hF cut d (hpart.trans (congrArg some hwrite))
        (Bool.eq_true_of_not_eq_false hwrote)

/-- The bytes of the body from the end of the header on. -/
theorem Cut.getD_whole (cut : Cut body) {i : ℕ} (hi : i < body.file.length) :
    (cut.rest++(cut.later.map RequestCtx.data).flatten).getD i 0=body.file.getD i 0 := by
  rw [cut.whole,List.getD_append _ _ _ _ hi]

/-- The closing delimiter makes the body longer than the file. -/
theorem Cut.length_whole (cut : Cut body) :
    body.file.length < cut.rest.length+(cut.later.map RequestCtx.data).flatten.length := by
  have h := congrArg List.length cut.whole
  rw [List.length_append,List.length_append,Multipart.closing,crlf] at h
  simp only [List.length_append,List.length_cons,List.length_nil] at h
  omega

/-- On every slot of the size the upload of a body that is written once is
right. -/
theorem uploadRight_of_writtenOnce {size : ℕ} {cut : Cut body} (h : WrittenOnce size cut) :
    UploadRight size cut := by
  obtain ⟨hroom,hfit,honce⟩ := h
  rintro δ F hF rfl d
  obtain ⟨run,hrun,hwrites,hcase⟩ := upload_cases hF cut d
  have hfit' : ∀ bytes∈cut.later.map RequestCtx.data,cut.rest.length+bytes.length≤F.size := by
    intro bytes hbytes
    obtain ⟨req,hreq,rfl⟩ := List.mem_map.mp hbytes
    exact hfit req hreq
  have hinside : ∀ off bytes ok,.areaWrite off bytes ok∈run.calls → off+bytes.length≤F.size := by
    intro off bytes ok hcall
    rcases hwrites off bytes ok hcall with ⟨rfl,rfl⟩ | ⟨rfl,hmem⟩
    · omega
    · exact hfit' bytes hmem
  refine ⟨run,hrun,?_⟩
  cases hcase with
  | refused call mem err answer why =>
    have hnot : ¬run.calls.all AreaCall.succeeded=true := fun hall =>
      absurd ((List.all_eq_true.mp hall call mem).symm.trans err) (by decide)
    refine ⟨hinside,fun hall => absurd hall hnot,iff_of_false ?_ fun hright => hnot hright.2⟩
    rw [answer]
    exact Option.some_ne_none true ∘ Eq.symm
  | written wrote all device calls answer =>
    refine ⟨hinside,fun hall i hi => ?_,iff_of_false ?_ fun hright => ?_⟩
    · rw [calls] at hall
      have hfresh := hF.erase_ok _ hall
      have hfile : i < body.file.length := lt_of_lt_of_le hi (min_le_left _ _)
      rw [device,←cut.getD_whole hfile]
      by_cases hlow : i < cut.rest.length
      · rw [read_writeEach_below hF all hlow,List.getD_append _ _ _ _ hlow]
        have hstored := hF.write_ok _ 0 cut.rest wrote
          (fun j hj => hfresh _ (by omega)) i hlow
        rwa [Nat.zero_add] at hstored
      · obtain ⟨j,rfl⟩ := Nat.exists_eq_add_of_le (Nat.not_lt.mp hlow)
        have hlength := cut.length_whole
        rw [read_writeEach_single hF all (honce.resolve_left (by omega)) (fun k hk hk' => ?_) j
          (by omega),List.getD_append_right _ _ _ _ (by omega),Nat.add_sub_cancel_left]
        exact (hF.write_frame _ 0 cut.rest wrote k (Or.inr (by omega))).2.mpr (hfresh k hk')
    · rw [answer,decide_eq_false (by omega)]
      exact fun hsome => Bool.false_ne_true (Option.some.inj hsome)
    · have hlength := cut.length_whole
      rcases honce with hshort | hone
      · omega
      · rcases flatten_of_filled hone with hnone | hmem
        · rw [hnone,List.length_nil] at hlength
          omega
        · have hle := hfit' _ hmem
          omega

/-- A body whose upload is right on every slot of the size is written once. -/
theorem writtenOnce_of_uploadRight {size : ℕ} {cut : Cut body} (h : UploadRight size cut) :
    WrittenOnce size cut := by
  have hF := writeOnce_lawful size
  obtain ⟨run,hrun,hright⟩ := h _ (writeOnce size) hF rfl fun _ => .erased
  obtain ⟨run',hrun',hwrites,hcase⟩ := upload_cases hF cut fun _ => .erased
  obtain rfl := Option.some.inj (hrun.symm.trans hrun')
  have hlength := cut.length_whole
  cases hcase with
  | refused call mem err answer why =>
    rcases why with hopen | ⟨d',off,bytes,rfl,hwrite⟩
    · cases hopen
    · have hin : off+bytes.length ≤ size := hright.inside off bytes false mem
      have hout := writeOnce_write d' hwrite
      omega
  | written wrote all device calls answer =>
    have hin : 0+cut.rest.length ≤ size := by
      by_contra hout
      have hrefused := hF.write_out ((writeOnce size).areaErase
        ((writeOnce size).areaOpen fun _ => .erased).2).2 0 cut.rest (Nat.not_le.mp hout)
      rw [hrefused] at wrote
      exact Bool.false_ne_true wrote
    have hpieces : ∀ req∈cut.later,cut.rest.length+req.data.length ≤ size := fun req hreq =>
      all.inside hF req.data (List.mem_map_of_mem hreq)
    have hroom : cut.rest.length≠size := by
      intro heq
      have htold := (hright.told.mp (answer.trans (congrArg some (decide_eq_true heq)))).1
      have hsize : body.file.length=size := htold
      have hmore : (cut.later.map RequestCtx.data).flatten≠[] := by
        intro hnone
        rw [hnone,List.length_nil] at hlength
        omega
      refine hmore (List.flatten_eq_nil_iff.mpr fun bytes hbytes => ?_)
      obtain ⟨req,hreq,rfl⟩ := List.mem_map.mp hbytes
      have hle := hpieces req hreq
      exact List.length_eq_zero_iff.mp (by omega)
    refine ⟨by omega,hpieces,?_⟩
    by_contra hnot
    rw [not_or,Nat.not_le,Nat.not_le] at hnot
    obtain ⟨hlong,htwo⟩ := hnot
    -- the place behind the first chunk is written twice, and spoilt
    have herased : begunDevice (writeOnce size) (fun _ => .erased) cut.rest cut.rest.length=
        .erased := (hF.write_frame _ 0 cut.rest wrote _ (Or.inr (by omega))).2.mpr rfl
    obtain ⟨b,hfirst,hspoilt⟩ := writeOnce_twice all herased htwo
    have hholds := hright.holds calls cut.rest.length (lt_min hlong (by
      change cut.rest.length < size
      omega))
    have hread : (writeOnce size).read run.device cut.rest.length= ~~~b := by
      rw [device]
      exact congrArg Cell.read hspoilt
    have hbyte := cut.getD_whole hlong
    rw [List.getD_append_right _ _ _ _ (le_refl _),Nat.sub_self,List.getD_eq_getElem?_getD,
      ←List.head?_eq_getElem?,hfirst,Option.getD_some] at hbyte
    rw [hread,←hbyte] at hholds
    exact absurd hholds ((by decide : ∀ b : Byte,~~~b≠b) b)

/-- Over all cuts of all bodies with the header in the first chunk, the upload
is right on every slot of a size exactly if the first chunk leaves room, the
others fit behind it, and the file ends in the first chunk or in the only other
one that has bytes. -/
theorem uploadRight_iff (size : ℕ) (cut : Cut body) : UploadRight size cut ↔ WrittenOnce size cut :=
  ⟨writtenOnce_of_uploadRight,uploadRight_of_writtenOnce⟩

/-- A body with the boundary line `--b`, no header lines and a file of eight bytes. -/
def smallBody : Multipart where
  line := [0x2D,0x2D,0x62]
  headers := []
  file := [1,2,3,4,5,6,7,8]
  plain := by decide
  ends := by decide
  free := by decide

/-- The small body with the closing delimiter in a chunk of its own. -/
def smallCut : Cut smallBody where
  rest := smallBody.file
  behind := []
  later := [⟨smallBody.closing,[]⟩]
  whole := rfl

/-- The upload of a file that fills the slot is not right. -/
theorem upload_not_right : ¬UploadRight 8 smallCut := fun h =>
  absurd (writtenOnce_of_uploadRight h).1 (by decide)

end Uploads

end ZephyrApp.HttpUpload

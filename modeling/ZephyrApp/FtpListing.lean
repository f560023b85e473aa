import ZephyrApp.FtpDataSend
import ZephyrApp.FtpServer

/-!
# Directory listings over FTP

`LIST` writes the line of an entry into the last quarter of its reply buffer
and copies it behind the lines collected at the start. A line that does not fit
there sends what is collected first. Nothing sends what is collected when the
directory ends.
-/

/-!
## Lines collected in batches

Lines are appended to a batch of bounded capacity. A line that does not fit
sends the batch first and starts the next one. What is sent and what is pending
are then the lines so far, cut between two of them, and the last line is always
pending: a sender that does not send the last batch loses it.
-/

namespace ZephyrApp.LineBatches

variable {α : Type*} {cap : ℕ}

/-- What is sent and the batch that is collected. -/
structure Batches (α : Type*) where
  /-- What is sent. -/
  sent : List α
  /-- The batch. -/
  pending : List α

/-- Nothing is sent or collected. -/
def Batches.empty : Batches α := ⟨[],[]⟩

/-- One more line: the batch is sent first if the line does not fit. -/
def Batches.add (cap : ℕ) (b : Batches α) (line : List α) : Batches α :=
  if cap < b.pending.length+line.length then ⟨b.sent++b.pending,line⟩
  else ⟨b.sent,b.pending++line⟩

/-- The batches of some lines. -/
def Batches.run (cap : ℕ) (lines : List (List α)) : Batches α := lines.foldl (Batches.add cap) .empty

/-- One more line is the last step of a run. -/
theorem run_concat (lines : List (List α)) (line : List α) :
    Batches.run cap (lines++[line])=(Batches.run cap lines).add cap line := by
  rw [Batches.run,List.foldl_append]
  rfl

/-- A run cuts its lines between two of them: the lines before are sent, those
behind, the last one among them, are pending. -/
theorem run_cut (lines : List (List α)) :
    ∃ pre post,lines=pre++post ∧ (Batches.run cap lines).sent=pre.flatten ∧
      (Batches.run cap lines).pending=post.flatten ∧ (lines≠[] → post≠[]) := by
  induction lines using List.reverseRecOn with
  | nil => exact ⟨[],[],rfl,rfl,rfl,fun h => absurd rfl h⟩
  | append_singleton lines line ih =>
    obtain ⟨pre,post,hlines,hsent,hpending,-⟩ := ih
    rw [run_concat,Batches.add]
    split
    · refine ⟨lines,[line],rfl,?_,?_,fun _ => List.cons_ne_nil _ _⟩
      · rw [hsent,hpending,hlines,List.flatten_append]
      · exact (List.append_nil line).symm
    · refine ⟨pre,post++[line],?_,hsent,?_,fun _ => by simp⟩
      · rw [hlines,List.append_assoc]
      · rw [hpending,List.flatten_append,List.flatten_singleton]

/-- All lines are sent exactly if there are none, where no line is empty. -/
theorem sent_eq_flatten_iff {lines : List (List α)} (hne : ∀ line∈lines,line≠[]) :
    (Batches.run cap lines).sent=lines.flatten ↔ lines=[] := by
  obtain ⟨pre,post,hlines,hsent,-,hlast⟩ := run_cut lines
  rw [hsent]
  constructor
  · intro hall
    by_contra hsome
    obtain ⟨line,rest,rfl⟩ := List.exists_cons_of_ne_nil (hlast hsome)
    rw [hlines,List.flatten_append] at hall
    have hempty : (line::rest).flatten=[] := List.self_eq_append_right.mp hall
    exact hne line (by rw [hlines]; simp) (List.flatten_eq_nil_iff.mp hempty line List.mem_cons_self)
  · intro hnone
    rw [hnone] at hlines ⊢
    obtain ⟨rfl,-⟩ := List.append_eq_nil_iff.mp hlines.symm
    rfl

end ZephyrApp.LineBatches

namespace ZephyrApp.FtpListing

open MachineBytes DecimalText LineBatches FtpPath FtpCommands FtpDataSend
open FtpSession (Session ascii)

section Lines

/-- `struct tm`, as far as a line shows it. -/
structure Tm where
  /-- `tm_year`, from 1900. -/
  year : ℤ
  /-- `tm_mon`, from January. -/
  mon : ℕ
  /-- `tm_mday`. -/
  mday : ℕ
  /-- `tm_hour`. -/
  hour : ℕ
  /-- `tm_min`. -/
  min : ℕ
deriving DecidableEq

/-- `gmtime_r`: days are counted from the first of March of the year 0, in eras
of 400 years. -/
def gmtimeR (t : ℤ) : Tm :=
  let days := t/86400+719468
  let second := (t%86400).toNat
  let era := days/146097
  let doe := (days%146097).toNat
  let yoe := (doe-doe/1460+doe/36524-doe/146096)/365
  let doy := doe-(365*yoe+yoe/4-yoe/100)
  let mp := (5*doy+2)/153
  let mon := if mp < 10 then mp+2 else mp-10
  let year : ℤ := era*400+yoe+(if mon < 2 then 1 else 0)
  ⟨year-1900,mon,doy-(153*mp+2)/5+1,second/3600,second/60%60⟩

/-- The last day of February 2024, one minute before midnight. -/
example : gmtimeR 1709251140=⟨124,1,29,23,59⟩ := by decide +kernel

/-- The integer `n` as `%d` and `%ld` print it. -/
def integerText (n : ℤ) : List Byte :=
  if n < 0 then 0x2D::decimalText n.natAbs else decimalText n.natAbs

/-- Two digits. -/
def twoDigits (n : ℕ) : List Byte := [digitByte (n/10%10),digitByte (n%10)]

/-- `%b`. -/
def monthText (mon : ℕ) : List Byte :=
  [ascii ['J','a','n'],ascii ['F','e','b'],ascii ['M','a','r'],ascii ['A','p','r'],
    ascii ['M','a','y'],ascii ['J','u','n'],ascii ['J','u','l'],ascii ['A','u','g'],
    ascii ['S','e','p'],ascii ['O','c','t'],ascii ['N','o','v'],ascii ['D','e','c']].getD mon []

/-- The date of a line: with the time of day if the year is the one it is now. -/
def dateText (mtime now : ℤ) : List Byte :=
  let ftm := gmtimeR mtime
  let ntm := gmtimeR now
  let day := monthText ftm.mon++0x20::twoDigits ftm.mday++[0x20]
  if ftm.year=ntm.year then day++twoDigits ftm.hour++0x3A::twoDigits ftm.min
  else day++integerText (ftm.year+1900)

/-- `struct stat`, as far as a line shows it. -/
structure Stat where
  /-- `st_mode`. -/
  mode : Word
  /-- `st_nlink`. -/
  nlink : ℤ
  /-- `st_size`. -/
  size : ℤ
  /-- `st_mtime`. -/
  mtime : ℤ

/-- One letter of the mode, if a bit is set. -/
def modeLetter (mode bit : Word) (c : Char) : Byte :=
  (ascii [if mode&&&bit≠0 then c else '-']).headD 0

/-- The type and the permissions of a file. -/
def modeText (mode : Word) : List Byte :=
  let letters := [(0o400,'r'),(0o200,'w'),(0o100,'x'),(0o040,'r'),(0o020,'w'),(0o010,'x'),
    (0o004,'r'),(0o002,'w'),(0o001,'x')]
  (if mode&&&0o170000=0o040000 then 0x64 else 0x2D)::
    letters.map fun letter => modeLetter mode letter.1 letter.2

/-- The links and the owner of a file. -/
def ownerText (s : Stat) : List Byte :=
  integerText s.nlink++ascii [' ','a','d','m','i','n',' ','a','d','m','i','n']

/-- The line of a file. -/
def statLine (name : List Byte) (s : Stat) (now : ℤ) : List Byte :=
  modeText s.mode++0x20::ownerText s++0x20::integerText s.size++0x20::dateText s.mtime now++
    0x20::name++[0x0D,0x0A]

end Lines

section Buffer

/-- A write of bytes at an index, none past the end of the buffer. -/
def putBytes (buf : List Byte) (at_ : ℕ) (bytes : List Byte) : Option (List Byte) :=
  if at_+bytes.length≤buf.length then
    some (buf.take at_++bytes++buf.drop (at_+bytes.length))
  else none

/-- Where a line is being written: the buffer and what of the line is counted. -/
abbrev Cursor := List Byte×ℕ

/-- `bufsz - ret` as a `size_t`. -/
def room (bufsz ret : ℕ) : ℕ := (((bufsz : ℤ)-ret)%2^32).toNat

/-- `buf[ret++]` is set to a blank. -/
def putBlank (base : ℕ) (p : Cursor) : Option Cursor := do
  let buf ← putBytes p.1 (base+p.2) [0x20]
  some (buf,p.2+1)

/-- `snprintf` behind what is counted: the text is cut to the room, and counted
as a whole. -/
def printText (base bufsz : ℕ) (text : List Byte) (p : Cursor) : Option Cursor :=
  if room bufsz p.2=0 then some (p.1,p.2+text.length)
  else do
    let buf ← writeString p.1 (base+p.2) (text.take (room bufsz p.2-1))
    some (buf,p.2+text.length)

/-- `strftime` behind what is counted: nothing is counted where the text and its
terminator do not fit. -/
def printDate (base bufsz : ℕ) (text : List Byte) (p : Cursor) : Option Cursor :=
  if text.length < room bufsz p.2 then do
    let buf ← writeString p.1 (base+p.2) text
    some (buf,p.2+text.length)
  else some p

/-- `list_statbuf_get` at an index of the buffer. -/
def listStatbufGet (buf : List Byte) (base bufsz : ℕ) (name : List Byte) (s : Stat) (now : ℤ) :
    Option Cursor := do
  let buf ← putBytes buf base (modeText s.mode)
  let p ← putBlank base (buf,10)
  let p ← printText base bufsz (ownerText s) p
  let p ← putBlank base p
  let p ← printText base bufsz (integerText s.size) p
  let p ← putBlank base p
  let p ← printDate base bufsz (dateText s.mtime now) p
  let p ← putBlank base p
  printText base bufsz (name++[0x0D,0x0A]) p

/-- `memcpy` inside the buffer, none if it leaves it or the places overlap. -/
def copyDown (buf : List Byte) (dst src len : ℕ) : Option (List Byte) :=
  if dst+len ≤ src ∧ src+len ≤ buf.length then putBytes buf dst ((buf.drop src).take len) else none

end Buffer

section Directory

/-- An entry that `readdir` returns. -/
structure Entry where
  /-- `d_name`. -/
  name : List Byte
  /-- None of its characters is a terminator. -/
  ne_zero : ∀ c∈name,c≠0
  /-- What `time` returns while the line of the entry is written. -/
  now : ℤ

/-- What `list_cmd_fn` works on: the reply buffer, `offset`, and what the data
connection took. -/
structure Listing where
  /-- `reply`. -/
  buf : List Byte
  /-- `offset`. -/
  offset : ℕ
  /-- The bytes taken. -/
  taken : List Byte

variable (files : List Byte → Option Stat) (conn : DataConn) (dir : List Byte)

/-- The path of an entry, as far as it fits. -/
def entryPath (name : List Byte) : List Byte := (dir++slash::name).take 255

/-- One pass of the loop of `list_cmd_fn`, none if it touches a byte outside the
buffer; `files` is what `stat` finds at a path. -/
def listEntry (st : Listing) (e : Entry) : Option Listing := do
  let buf ← writeString st.buf 768 (entryPath dir e.name)
  match files (cString (buf.drop 768)) with
  | none => some {st with buf := buf}
  | some s =>
    -- a line has a mode at least, so that its length is never zero
    let (buf,statLen) ← listStatbufGet buf 768 256 e.name s e.now
    let st : Listing :=
      if 768 < st.offset+statLen then
        ⟨buf,0,(ftpDataSend conn st.taken (buf.take st.offset)).1⟩
      else ⟨buf,st.offset,st.taken⟩
    let buf ← copyDown st.buf st.offset 768 statLen
    some ⟨buf,st.offset+statLen,st.taken⟩

/-- The loop of `list_cmd_fn` over the entries of the directory. -/
def listLoop (entries : List Entry) (st : Listing) : Option Listing :=
  entries.foldlM (listEntry files conn dir) st

/-- `list_cmd_fn`, with what it sends on the data connection; `reply` is the
buffer it gets. -/
def listCmdData (c : Call) (reply : List Byte) (entries : List Entry) : Option (List Byte) :=
  let s := pasvAccept c.session c.outcomes
  if s.transfer.portPasvFd < 0 ∨ ¬c.outcomes.dirOpens then some []
  else
    (listLoop files conn (cString s.currentdir) entries ⟨reply,0,[]⟩).map Listing.taken

/-- The lines of the entries whose `stat` succeeds, in order. -/
def lines (entries : List Entry) : List (List Byte) :=
  entries.filterMap fun e => (files (entryPath dir e.name)).map fun s => statLine e.name s e.now

end Directory

section Scratch

variable {pre text post buf buf' : List Byte} {p : Cursor}

/-- Bytes put behind a part of the buffer replace as much of the rest. -/
theorem putBytes_append (pre : List Byte) {bytes : List Byte} (h : bytes.length≤post.length) :
    putBytes (pre++post) pre.length bytes=some (pre++bytes++post.drop bytes.length) := by
  rw [putBytes,if_pos (by rw [List.length_append]; omega),List.take_left,List.drop_append,
    List.drop_eq_nil_of_le (by omega),Nat.add_sub_cancel_left,List.nil_append]

/-- So does a string put there, with its terminator. -/
theorem writeString_append (pre : List Byte) (h : text.length < post.length) :
    writeString (pre++post) pre.length text=
      some (pre++text++0::post.drop (text.length+1)) := by
  rw [writeString,if_pos (by rw [List.length_append]; omega),List.take_left,List.drop_append,
    List.drop_eq_nil_of_le (by omega),Nat.add_assoc,Nat.add_sub_cancel_left,List.nil_append]

/-- Bytes put into a buffer follow what stands before them. -/
theorem putBytes_some {at_ : ℕ} {bytes : List Byte} (h : at_+bytes.length≤buf.length) :
    ∃ buf',putBytes buf at_ bytes=some buf' ∧ buf'.length=buf.length ∧
      buf'.take (at_+bytes.length)=buf.take at_++bytes := by
  have hfront : (buf.take at_++bytes).length=at_+bytes.length := by
    rw [List.length_append,List.length_take]
    omega
  refine ⟨_,if_pos h,?_,?_⟩
  · rw [List.length_append,hfront,List.length_drop]
    omega
  · rw [←hfront,List.take_left]

/-- A part of a line is written behind a part of the buffer, in 256 bytes. -/
structure Lined (pre text : List Byte) (p : Cursor) : Prop where
  /-- It is counted. -/
  counted : p.2=text.length
  /-- It is in the buffer. -/
  buf : ∃ post,p.1=pre++text++post ∧ text.length+post.length=256

/-- The room behind a part of a line. -/
theorem room_eq {n : ℕ} (h : n≤256) : room 256 n=256-n := by
  rw [room,Int.emod_eq_of_lt (by omega) (by omega)]
  omega

/-- A step writes a text behind whatever part of a line stands in the buffer, as
long as both fit. -/
def Writes (pre : List Byte) (step : Cursor → Option Cursor) (t : List Byte) : Prop :=
  ∀ text p,Lined pre text p → (text++t).length < 256 →
    ∃ p',step p=some p' ∧ Lined pre (text++t) p'

/-- Two steps write their texts one behind the other. -/
theorem Writes.bind {step next : Cursor → Option Cursor} {t u : List Byte}
    (h : Writes pre step t) (hnext : Writes pre next u) :
    Writes pre (fun p => step p >>= next) (t++u) := by
  intro text p hp hroom
  rw [←List.append_assoc] at hroom ⊢
  obtain ⟨p1,hrun1,h1⟩ := h text p hp (by rw [List.length_append] at hroom; omega)
  obtain ⟨p2,hrun2,h2⟩ := hnext (text++t) p1 h1 hroom
  exact ⟨p2,by dsimp only; rw [hrun1]; exact hrun2,h2⟩

/-- A blank is written. -/
theorem writes_blank : Writes pre (putBlank pre.length) [0x20] := by
  rintro text p ⟨hcounted,post,hbuf,hlen⟩ hroom
  rw [List.length_append] at hroom
  have hput := putBytes_append (pre++text) (show [(0x20 : Byte)].length≤post.length by omega)
  rw [List.length_append] at hput
  refine ⟨_,by rw [putBlank,hbuf,hcounted,hput]; rfl,?_,post.drop 1,?_,?_⟩
  · rw [List.length_append]
    rfl
  · simp only [List.append_assoc,List.length_singleton]
  · rw [List.length_append,List.length_drop,List.length_singleton]
    omega

/-- A string written behind the line extends it. -/
theorem Lined.string {t : List Byte} (h : Lined pre text p) (hroom : (text++t).length < 256) :
    ∃ buf,writeString p.1 (pre.length+p.2) t=some buf ∧
      Lined pre (text++t) (buf,p.2+t.length) := by
  obtain ⟨hcounted,post,hbuf,hlen⟩ := h
  rw [List.length_append] at hroom
  have hwrite := writeString_append (pre++text) (show t.length < post.length by omega)
  rw [List.length_append] at hwrite
  refine ⟨_,by rw [hbuf,hcounted,hwrite],?_,0::post.drop (t.length+1),?_,?_⟩
  · rw [hcounted,List.length_append]
  · simp only [List.append_assoc]
  · rw [List.length_append,List.length_cons,List.length_drop]
    omega

/-- A text is printed. -/
theorem writes_text (t : List Byte) : Writes pre (printText pre.length 256 t) t := by
  intro text p h hroom
  obtain ⟨buf,hwrite,hl⟩ := h.string hroom
  rw [List.length_append] at hroom
  have hspace : room 256 p.2=256-text.length := by rw [h.counted,room_eq (by omega)]
  have htake : t.take (256-text.length-1)=t := List.take_of_length_le (by omega)
  refine ⟨_,?_,hl⟩
  rw [printText,hspace,if_neg (by omega),htake,hwrite]
  rfl

/-- A date is printed. -/
theorem writes_date (t : List Byte) : Writes pre (printDate pre.length 256 t) t := by
  intro text p h hroom
  obtain ⟨buf,hwrite,hl⟩ := h.string hroom
  rw [List.length_append] at hroom
  have hspace : room 256 p.2=256-text.length := by rw [h.counted,room_eq (by omega)]
  refine ⟨_,?_,hl⟩
  rw [printDate,hspace,if_pos (by omega),hwrite]
  rfl

/-- A mode has ten letters. -/
theorem modeText_length (mode : Word) : (modeText mode).length=10 := rfl

/-- `list_statbuf_get` writes a line that is not too long behind a part of the
buffer, and counts it. -/
theorem listStatbufGet_line {name : List Byte} {s : Stat} {now : ℤ} (hpost : post.length=256)
    (hline : (statLine name s now).length≤255) :
    ∃ p,listStatbufGet (pre++post) pre.length 256 name s now=some p ∧
      Lined pre (statLine name s now) p := by
  have hmode := modeText_length s.mode
  have hparts : statLine name s now=modeText s.mode++([0x20]++(ownerText s++([0x20]++
      (integerText s.size++([0x20]++(dateText s.mtime now++([0x20]++(name++[0x0D,0x0A])))))))) := by
    simp only [statLine,List.append_assoc,List.cons_append,List.nil_append]
  have hput := putBytes_append pre (show (modeText s.mode).length≤post.length by omega)
  have hstart : Lined pre (modeText s.mode) (pre++modeText s.mode++post.drop 10,10) :=
    ⟨hmode.symm,post.drop 10,rfl,by rw [List.length_drop]; omega⟩
  have hrest := (@writes_blank pre).bind ((writes_text (ownerText s)).bind
    (writes_blank.bind ((writes_text (integerText s.size)).bind
      (writes_blank.bind ((writes_date (dateText s.mtime now)).bind
        (writes_blank.bind (writes_text (name++[0x0D,0x0A]))))))))
  rw [hparts] at hline ⊢
  obtain ⟨p,hrun,hp⟩ := hrest _ _ hstart (Nat.lt_succ_of_le hline)
  refine ⟨p,?_,hp⟩
  rw [listStatbufGet,hput,hmode]
  exact hrun

end Scratch

section Loop

variable {files : List Byte → Option Stat} {conn : Accepting} {dir : List Byte} {st : Listing}
  {b : Batches Byte}

/-- The buffer collects a batch: it stands at the start, below the place where
lines are written, and the connection took what is sent. -/
structure Collects (st : Listing) (b : Batches Byte) : Prop where
  /-- The size of the buffer. -/
  size : st.buf.length=1024
  /-- The batch leaves the last quarter free. -/
  below : st.offset≤768
  /-- The batch. -/
  pending : st.buf.take st.offset=b.pending
  /-- What is sent. -/
  sent : st.taken=b.sent

/-- The batch is as long as the offset. -/
theorem Collects.length (h : Collects st b) : b.pending.length=st.offset := by
  rw [←h.pending,List.length_take,h.size]
  have hbelow := h.below
  omega

/-- The path of an entry is written behind the batch and read back by `stat`. -/
theorem Collects.path (h : Collects st b) (hdir : ∀ c∈dir,c≠0) (e : Entry) :
    ∃ tail,writeString st.buf 768 (entryPath dir e.name)=some (st.buf.take 768++tail) ∧
      tail.length=256 ∧ cString tail=entryPath dir e.name := by
  have hsize := h.size
  have hfront : (st.buf.take 768).length=768 := by
    rw [List.length_take]
    omega
  have hrest : (st.buf.drop 768).length=256 := by
    rw [List.length_drop]
    omega
  have hshort : (entryPath dir e.name).length≤255 := List.length_take_le _ _
  have hzero : ∀ c∈entryPath dir e.name,c≠0 := by
    intro c hc
    rcases List.mem_append.mp (List.mem_of_mem_take hc) with hin | hin
    · exact hdir c hin
    · rcases List.mem_cons.mp hin with rfl | hname
      · exact slash_ne_zero
      · exact e.ne_zero c hname
  have hwrite := writeString_append (st.buf.take 768)
    (show (entryPath dir e.name).length < (st.buf.drop 768).length by omega)
  rw [List.take_append_drop,hfront] at hwrite
  refine ⟨entryPath dir e.name++0::(st.buf.drop 768).drop ((entryPath dir e.name).length+1),?_,?_,?_⟩
  · rw [hwrite,List.append_assoc]
  · rw [List.length_append,List.length_cons,List.length_drop,hrest]
    omega
  · rw [cString,List.takeWhile_append_of_pos (by simpa using hzero)]
    simp

/-- Copying a line behind the batch appends it. -/
theorem copyDown_line {front line post : List Byte} {offset : ℕ} (hfront : front.length=768)
    (hpost : line.length+post.length=256) (hfits : offset+line.length≤768) :
    ∃ buf,copyDown (front++line++post) offset 768 line.length=some buf ∧ buf.length=1024 ∧
      buf.take (offset+line.length)=front.take offset++line := by
  have hlen : (front++line++post).length=1024 := by
    rw [List.length_append,List.length_append]
    omega
  have hline : ((front++line++post).drop 768).take line.length=line := by
    rw [List.append_assoc,←hfront,List.drop_left,List.take_left]
  obtain ⟨buf,hput,hsize,htake⟩ := putBytes_some
    (show offset+line.length≤(front++line++post).length by omega)
  refine ⟨buf,?_,hsize.trans hlen,?_⟩
  · rw [copyDown,if_pos ⟨hfits,by omega⟩,hline,hput]
  · rw [htake,List.append_assoc,List.take_append_of_le_length (by omega)]

/-- One pass adds the line of an entry whose `stat` succeeds to the batches. -/
theorem Collects.entry (h : Collects st b) (hdir : ∀ c∈dir,c≠0) (e : Entry)
    (hlines : ∀ line∈lines files dir [e],line.length≤255) :
    ∃ st',listEntry files conn.result dir st e=some st' ∧
      Collects st' ((lines files dir [e]).foldl (Batches.add 768) b) := by
  have hbelow := h.below
  have hfront : (st.buf.take 768).length=768 := by
    rw [List.length_take,h.size]
    rfl
  have hkept : ∀ rest,(st.buf.take 768++rest).take st.offset=b.pending := fun rest => by
    rw [List.take_append_of_le_length (by omega),List.take_take,Nat.min_eq_left hbelow,h.pending]
  obtain ⟨tail,hwrite,htail,hpath⟩ := h.path hdir e
  have hread : (st.buf.take 768++tail).drop 768=tail := List.drop_left' hfront
  rw [listEntry,hwrite]
  simp only [Option.bind_eq_bind,Option.bind_some,hread,hpath]
  cases hstat : files (entryPath dir e.name) with
  | none =>
    have hnone : lines files dir [e]=[] := by simp [lines,hstat]
    rw [hnone]
    refine ⟨_,rfl,?_,hbelow,hkept tail,h.sent⟩
    rw [List.length_append,hfront,htail]
  | some s =>
    have hone : lines files dir [e]=[statLine e.name s e.now] := by simp [lines,hstat]
    rw [hone] at hlines ⊢
    have hline := hlines _ List.mem_cons_self
    obtain ⟨⟨buf,statLen⟩,hrun,hcounted,post,hbuf,hpost⟩ :=
      @listStatbufGet_line (st.buf.take 768) _ _ _ _ htail hline
    dsimp only at hcounted hbuf
    subst hcounted hbuf
    rw [hfront] at hrun
    simp only [hrun,Option.bind_some,List.foldl_cons,List.foldl_nil,Batches.add,h.length]
    rw [List.append_assoc,hkept]
    split
    · -- the batch is sent, and the line starts the next one
      obtain ⟨buf,hcopy,hsize,htake⟩ := @copyDown_line _ _ _ 0 hfront hpost (by omega)
      rw [List.append_assoc] at hcopy
      dsimp only
      rw [hcopy,ftpDataSend_accepting]
      refine ⟨_,rfl,hsize,?_,?_,congrArg (·++b.pending) h.sent⟩
      · dsimp only
        omega
      · exact htake
    · rename_i hfits
      obtain ⟨buf,hcopy,hsize,htake⟩ := copyDown_line hfront hpost (not_lt.mp hfits)
      rw [List.append_assoc] at hcopy
      dsimp only
      rw [hcopy]
      refine ⟨_,rfl,hsize,not_lt.mp hfits,?_,h.sent⟩
      rw [htake,List.take_take,Nat.min_eq_left hbelow,h.pending]

/-- The lines of a directory are those of its first entry and of the others. -/
theorem lines_cons (e : Entry) (entries : List Entry) :
    lines files dir (e::entries)=lines files dir [e]++lines files dir entries := by
  rw [lines,lines,lines,←List.filterMap_append]
  rfl

/-- The loop collects the lines of the directory in batches. -/
theorem Collects.loop (h : Collects st b) (hdir : ∀ c∈dir,c≠0) {entries : List Entry}
    (hlines : ∀ line∈lines files dir entries,line.length≤255) :
    ∃ st',listLoop files conn.result dir entries st=some st' ∧
      Collects st' ((lines files dir entries).foldl (Batches.add 768) b) := by
  induction entries generalizing st b with
  | nil => exact ⟨st,rfl,h⟩
  | cons e entries ih =>
    rw [lines_cons] at hlines ⊢
    obtain ⟨st1,hentry,h1⟩ := h.entry hdir e fun line hm => hlines line (List.mem_append_left _ hm)
    obtain ⟨st',hloop,h'⟩ := ih h1 fun line hm => hlines line (List.mem_append_right _ hm)
    refine ⟨st',?_,by rwa [List.foldl_append]⟩
    rw [listLoop,List.foldlM_cons,hentry]
    exact hloop

/-- A listing starts with an empty batch. -/
theorem collects_start {reply : List Byte} (hsize : reply.length=1024) :
    Collects ⟨reply,0,[]⟩ .empty := ⟨hsize,Nat.zero_le _,List.take_zero,rfl⟩

end Loop

section Complete

variable {files : List Byte → Option Stat} {c : Call} {reply : List Byte} {entries : List Entry}

/-- `LIST` sends all its lines but those of the last batch. -/
theorem list_batches (conn : Accepting) (hsize : reply.length=1024)
    (hport : 0 ≤ (pasvAccept c.session c.outcomes).transfer.portPasvFd)
    (hopens : c.outcomes.dirOpens=true)
    (hlines : ∀ line∈lines files (cString c.session.currentdir) entries,line.length≤255) :
    listCmdData files conn.result c reply entries=
      some (Batches.run 768 (lines files (cString c.session.currentdir) entries)).sent := by
  obtain ⟨st,hrun,hcollects⟩ := @Collects.loop files conn _ _ _ (collects_start hsize)
    (cString_ne_zero c.session.currentdir) _ hlines
  have hdir : (pasvAccept c.session c.outcomes).currentdir=c.session.currentdir := by
    rw [pasvAccept]
    split <;> rfl
  rw [listCmdData,if_neg (by rw [hopens]; simpa using hport),hdir,hrun,Option.map_some,
    hcollects.sent]
  rfl

/-- A line is never empty. -/
theorem statLine_ne_nil (name : List Byte) (s : Stat) (now : ℤ) : statLine name s now≠[] := by
  rw [statLine]
  simp

/-- For every directory whose lines have at most 255 bytes, and every data
connection that takes all bytes in any pieces, `LIST` sends exactly the lines of
the entries whose `stat` succeeds if and only if there are none. -/
theorem list_complete_iff (conn : Accepting) (hsize : reply.length=1024)
    (hport : 0 ≤ (pasvAccept c.session c.outcomes).transfer.portPasvFd)
    (hopens : c.outcomes.dirOpens=true)
    (hlines : ∀ line∈lines files (cString c.session.currentdir) entries,line.length≤255) :
    listCmdData files conn.result c reply entries=
        some (lines files (cString c.session.currentdir) entries).flatten ↔
      ∀ e∈entries,files (entryPath (cString c.session.currentdir) e.name)=none := by
  have hne : ∀ line∈lines files (cString c.session.currentdir) entries,line≠[] := by
    intro line hm
    obtain ⟨e,-,hline⟩ := List.mem_filterMap.mp hm
    obtain ⟨s,-,rfl⟩ := Option.map_eq_some_iff.mp hline
    exact statLine_ne_nil _ _ _
  rw [list_batches conn hsize hport hopens hlines,Option.some.injEq,sent_eq_flatten_iff hne,lines,
    List.filterMap_eq_nil_iff]
  simp only [Option.map_eq_none_iff]

/-- A connection that takes what it is offered. -/
def takesAll : Accepting := ⟨fun _ n => n,fun _ _ h => Int.natCast_pos.mpr h,fun _ _ => le_rfl⟩

/-- A logged-in session in `/` with a data connection, and outcomes of calls that
all succeed. -/
def listCall : Call :=
  ⟨⟨4,1,⟨5,-1,0,0⟩,.ok,slash::List.replicate 255 0⟩,ascii ['L','I','S','T',Char.ofNat 0],none,
    FtpServer.allOk⟩

/-- A file `a` of five bytes is all that the directory holds. -/
def oneFile : List Entry := [⟨[0x61],by decide,0⟩]

/-- Two files `a` and `b`. -/
def twoFiles : List Entry := oneFile++[⟨[0x62],by decide,0⟩]

/-- What `stat` finds at every path. -/
def someFile (_ : List Byte) : Option Stat := some ⟨0o100644,1,5,0⟩

/-- The line of the only file is not sent. -/
theorem only_file_not_listed : ¬∀ (files : List Byte → Option Stat) (conn : Accepting) (c : Call)
    (reply : List Byte) (entries : List Entry),reply.length=1024 →
      0 ≤ (pasvAccept c.session c.outcomes).transfer.portPasvFd → c.outcomes.dirOpens=true →
      (∀ line∈lines files (cString c.session.currentdir) entries,line.length≤255) →
      listCmdData files conn.result c reply entries=
        some (lines files (cString c.session.currentdir) entries).flatten := by
  intro h
  have hall := h someFile takesAll listCall (List.replicate 1024 0) oneFile List.length_replicate
    (by decide) rfl (by decide +kernel)
  exact absurd hall (by decide +kernel)

/-- The listing of two files is not complete. -/
theorem two_files_not_listed :
    listCmdData someFile takesAll.result listCall (List.replicate 1024 0) twoFiles≠
      some (lines someFile (cString listCall.session.currentdir) twoFiles).flatten :=
  fun h => Option.some_ne_none _
    ((list_complete_iff takesAll List.length_replicate (by decide) rfl (by decide +kernel)).mp h
      ⟨[0x61],by decide,0⟩ (List.mem_append_left _ List.mem_cons_self))

end Complete

end ZephyrApp.FtpListing

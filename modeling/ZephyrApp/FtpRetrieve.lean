import ZephyrApp.FtpDataSend
import ZephyrApp.FtpServer

/-!
# Sending a file from the restart offset

`REST` keeps an offset for the next transfer. `RETR` goes to that offset if it
lies inside the file, and otherwise sends the file from its start. The file is
read in blocks; every block goes out in pieces.
-/

namespace ZephyrApp.FtpRetrieve

open MachineBytes DecimalText FtpPath FtpBuffers FtpCommands FtpDataSend
open FtpServer
open FtpSession (Session ascii pathBuf)

/-- An open file and how it is read. -/
structure OpenFile where
  /-- Its bytes. -/
  content : List Byte
  /-- What `read` of a block returns at a position, less than zero for a failure. -/
  read : ℕ → ℤ
  /-- A block is read at most, and nothing past the end. -/
  le : ∀ pos,read pos≤(min 1024 (content.length-pos) : ℕ)
  /-- Only the end of the file reads as such. -/
  ne_zero : ∀ pos,pos < content.length → read pos≠0

variable (c : Call) (file : Option OpenFile) (conn : DataConn)

/-- `file_size`: the end of the file as an `int`. -/
def OpenFile.size (f : OpenFile) : ℤ := Int.bmod f.content.length (2^32)

/-- The loop of `retr_cmd_fn` over the blocks from a position on: the bytes that
the connection took and `result`. The file bounds the number of passes. -/
def retrLoop (f : OpenFile) : ℕ → ℕ → List Byte → List Byte×ℤ
  | 0,_,taken => (taken,0)
  | fuel+1,pos,taken =>
    let recvBytes := f.read pos
    if recvBytes≤0 then (taken,0)
    else
      let sent := ftpDataSend conn taken ((f.content.drop pos).take recvBytes.toNat)
      if sent.2≠recvBytes then (sent.1,-1)
      else retrLoop f fuel (pos+recvBytes.toNat) sent.1

/-- What `RETR` leaves, and what it sends on the data connection. -/
structure Retrieval where
  /-- What is left and sent on the control connection. -/
  report : Report
  /-- The bytes that the data connection took. -/
  sent : List Byte

/-- The end of `retr_cmd_fn` without a transfer. -/
def unsent (s : Session) (replies : List Message) (ret : ℤ) : Retrieval :=
  ⟨⟨s,c.data,replies,ret⟩,[]⟩

/-- The path of the file. -/
def filePath (s : Session) : Except Fault (List Byte×ℤ) := do
  let path ← c.read
  buildPath (pathBuf s) path

/-- Where the file is read from. -/
def startOf (s : Session) (size : ℤ) : ℕ :=
  if 0 < s.transfer.offset ∧ s.transfer.offset < size then s.transfer.offset.toNat else 0

/-- The transfer of a file that is open and has a size. -/
def sendFile (s : Session) (path : List Byte) (f : OpenFile) : Retrieval :=
  let opening := retrOpening {c with outcomes := {c.outcomes with fileSize := f.size}} s path
  let sent := retrLoop conn f (f.content.length+1) (startOf s f.size) []
  let answer := if sent.2≠0 then transferAborted else transferComplete
  ⟨⟨withOffset (closeData s) 0,c.data,[opening,answer],0⟩,sent.1⟩

/-- `retr_cmd_fn` from `open` on, with a reply buffer. -/
def retrAt (s : Session) (path : List Byte) : Retrieval :=
  match file with
  | none => unsent c (withOffset s 0) [notRegular path] 0
  | some f =>
    if f.size≤0 then unsent c (withOffset s 0) [notRegular path] 0 else sendFile c conn s path f

/-- `retr_cmd_fn`, with the file at the path and the data connection. -/
def retrFile : Except Fault Retrieval :=
  let s := pasvAccept c.session c.outcomes
  if s.transfer.portPasvFd < 0 then .ok (unsent c (withOffset s 0) [notImplemented] 0)
  else
    match filePath c s with
    | .error fault => .error fault
    | .ok (buf,ret) =>
      if ret≠0 ∨ ¬c.outcomes.bufAlloc then .ok (unsent c s [] (-1))
      else .ok (retrAt c file conn s (cString buf))

section Refinement

/-- The outcomes of the calls that `retr_cmd_fn` makes on the file. -/
def fileOutcomes : Outcomes :=
  match file with
  | none => {c.outcomes with callOk := false}
  | some f =>
    let start := startOf (pasvAccept c.session c.outcomes) f.size
    {c.outcomes with
      callOk := true
      fileSize := f.size
      transferred := (retrLoop conn f (f.content.length+1) start []).2=0}

/-- The command on a file is the command in memory with these outcomes. -/
theorem retrFile_report : (retrFile c file conn).map Retrieval.report=
    retrCmdFn {c with outcomes := fileOutcomes c file conn} := by
  have haccept : pasvAccept c.session (fileOutcomes c file conn)=
      pasvAccept c.session c.outcomes := by cases file <;> rfl
  rw [retrFile,retrCmdFn]
  simp only [haccept]
  split
  · rfl
  · simp only [withPath,filePath,Call.read,Call.text]
    cases c.param with
    | none => rfl
    | some k =>
      simp only [Option.map_some,bind,Except.bind]
      cases buildPath (pathBuf (pasvAccept c.session c.outcomes)) (cString (c.data.drop k)) with
      | error fault => rfl
      | ok built =>
        obtain ⟨buf,ret⟩ := built
        by_cases hret : ret=0
        · cases file with
          | none =>
            cases halloc : c.outcomes.bufAlloc with
            | false => simp [hret,halloc,fileOutcomes,unsent,replied,Except.map]
            | true => simp [hret,halloc,fileOutcomes,retrAt,unsent,replied,Except.map]
          | some f =>
            cases halloc : c.outcomes.bufAlloc with
            | false => simp [hret,halloc,fileOutcomes,unsent,replied,Except.map]
            | true =>
              by_cases hsize : f.size≤0
              · simp [hret,halloc,hsize,fileOutcomes,retrAt,unsent,replied,Except.map]
              · simp [hret,halloc,hsize,fileOutcomes,retrAt,sendFile,replied,Except.map,retrOpening]
        · simp [hret,unsent,replied,Except.map]

end Refinement

section Delivery

/-- Every read of the file succeeds, and the connection takes all bytes in any
pieces. -/
structure Delivers (f : OpenFile) (conn : DataConn) : Prop where
  /-- No read fails. -/
  reads : ∀ pos,pos < f.content.length → 0 < f.read pos
  /-- The connection takes something. -/
  pos : ∀ taken n,0 < n → 0 < conn taken n
  /-- It takes no more than it is offered. -/
  le : ∀ taken n,conn taken n ≤ n

variable {f : OpenFile} {conn : DataConn}

/-- A block goes out in full. -/
theorem Delivers.ftpDataSend (h : Delivers f conn) (taken data : List Byte) :
    ftpDataSend conn taken data=(taken++data,(data.length : ℤ)) :=
  ftpDataSend_accepting ⟨conn,h.pos,h.le⟩ taken data

/-- The loop sends the rest of the file, in whatever blocks it is read. -/
theorem Delivers.retrLoop (h : Delivers f conn) {fuel pos : ℕ} (taken : List Byte)
    (hpos : pos≤f.content.length) (hfuel : f.content.length-pos < fuel) :
    retrLoop conn f fuel pos taken=(taken++f.content.drop pos,0) := by
  induction fuel generalizing pos taken with
  | zero => exact absurd hfuel (Nat.not_lt_zero _)
  | succ fuel ih =>
    have hle := f.le pos
    rw [FtpRetrieve.retrLoop]
    rcases Nat.lt_or_ge pos f.content.length with hlt | hend
    · have hread := h.reads pos hlt
      have hblock : ((f.content.drop pos).take (f.read pos).toNat).length=(f.read pos).toNat := by
        rw [List.length_take,List.length_drop]
        omega
      have hall := h.ftpDataSend taken ((f.content.drop pos).take (f.read pos).toNat)
      rw [hblock,Int.toNat_of_nonneg hread.le] at hall
      simp only [hall,if_neg (not_le.mpr hread),ne_eq,not_true_eq_false,if_false]
      rw [ih _ (by omega) (by omega),List.append_assoc,←List.drop_drop,List.take_append_drop]
    · have hread : f.read pos≤0 := by omega
      simp only [if_pos hread,List.drop_eq_nil_of_le hend,List.append_nil]

/-- The balanced remainder of a natural number is at most that number. -/
theorem bmod_le_natCast (n m : ℕ) : Int.bmod n m≤n := by
  have hmod : (n : ℤ)%(m : ℤ)≤n := by exact_mod_cast Nat.mod_le n m
  rw [Int.bmod_def]
  split
  · exact hmod
  · exact (Int.sub_le_self _ (Int.natCast_nonneg m)).trans hmod

/-- A file is at least as long as its size tells. -/
theorem OpenFile.size_le (f : OpenFile) : f.size≤f.content.length := bmod_le_natCast _ _

end Delivery

section Offsets

variable {c : Call} {s : Session} {x : Except Fault Report}

/-- A session is at an offset. -/
def AtOffset (offset : ℤ) (s : Session) : Prop := s.transfer.offset=offset

/-- The sockets do not change the offset. -/
theorem atOffset_socketFree (offset : ℤ) : SocketFree (AtOffset offset) := fun _ _ _ h => h

/-- Accepting a connection keeps the offset. -/
theorem pasvAccept_offset (s : Session) (o : Outcomes) :
    (pasvAccept s o).transfer.offset=s.transfer.offset :=
  (atOffset_socketFree s.transfer.offset).pasvAccept rfl o

/-- Changing the current directory keeps the offset. -/
theorem leaves_changeDir (path : List Byte) :
    Leaves (AtOffset c.session.transfer.offset) (changeDir c path) := by
  refine leaves_bind fun built _ => ?_
  have hbuilt : AtOffset c.session.transfer.offset {c.session with currentdir := built.1} := rfl
  dsimp only
  split
  · exact leaves_replied hbuilt _ _
  · exact leaves_answer hbuilt _

/-- The root as current directory keeps the offset. -/
theorem toRoot_offset {root : MountPoint} {t : Session} (h : toRoot root s=.ok t) :
    AtOffset s.transfer.offset t := by
  rw [toRoot] at h
  split at h <;> cases h
  rfl

/-- Every function of the command table but those of `REST`, `RETR` and `STOR`
keeps the offset. -/
theorem leaves_runFn (root : MountPoint) {fn : CmdFn}
    (hfn : fn≠.rest ∧ fn≠.retr ∧ fn≠.stor) :
    Leaves (AtOffset c.session.transfer.offset) (runFn root c fn) := by
  have hfree := atOffset_socketFree c.session.transfer.offset
  have hkept : AtOffset c.session.transfer.offset c.session := rfl
  cases fn with
  | port => exact leaves_portCmdFn hfree hkept
  | pasv => exact leaves_pasvCmdFn hfree hkept
  | pwd => exact leaves_answer hkept _
  | type => exact leaves_bind fun text _ => leaves_replied (by exact hkept) _ _
  | syst => exact leaves_replied hkept _ _
  | quit => exact leaves_replied hkept _ _
  | list | nlist => exact leaves_listCmdFn hfree hkept
  | cwd => exact leaves_bind fun path _ => leaves_changeDir path
  | cdup => exact leaves_changeDir _
  | mkd => exact leaves_changeFile hkept _ _ _
  | rmd => exact leaves_changeFile hkept _ _ _
  | dele => exact leaves_changeFile hkept _ _ _
  | size =>
    rw [runFn,sizeCmdFn]
    exact leaves_withPath hkept fun path => leaves_answer hkept _
  | rest => exact absurd rfl hfn.1
  | retr => exact absurd rfl hfn.2.1
  | stor => exact absurd rfl hfn.2.2
  | login =>
    refine leaves_bind fun text _ => ?_
    split_ifs
    · exact leaves_replied (s := {c.session with isAnonymous := 0,state := .passwd}) hkept _ _
    · exact leaves_bind fun t ht => leaves_replied (toRoot_offset ht) _ _
    · exact leaves_replied hkept _ _
  | pass => exact leaves_bind fun t ht => leaves_replied (toRoot_offset ht) _ _

end Offsets

section Resumption

variable {c : Call} {file : Option OpenFile} {conn : DataConn}

/-- What `RETR` at an offset should leave and send: if it is answered with 226,
with all reads and sends in order, the file from the offset on, and zero for the
next offset. -/
def Right (file : Option OpenFile) (conn : DataConn) (offset : ℤ) (out : Retrieval) : Prop :=
  (∀ f∈file,Delivers f conn → transferComplete∈out.report.replies →
    out.sent=f.content.drop offset.toNat) ∧
  out.report.session.transfer.offset=0

/-- `RETR` at the offset of its session as it should be. -/
def Resumes (c : Call) (file : Option OpenFile) (conn : DataConn) : Prop :=
  ∀ out,retrFile c file conn=.ok out → Right file conn c.session.transfer.offset out

/-- The offset is zero or there is no data connection, or else the path leads to
a place in the tree, a reply buffer is free, and the offset lies before the end
of a file that is sent. -/
def InsideFile (c : Call) (file : Option OpenFile) (conn : DataConn) : Prop :=
  let s := pasvAccept c.session c.outcomes
  c.session.transfer.offset=0 ∨ s.transfer.portPasvFd < 0 ∨
    ∀ buf ret,filePath c s=.ok (buf,ret) → ret=0 ∧ c.outcomes.bufAlloc=true ∧
      ∀ f∈file,0 < f.size → Delivers f conn → c.session.transfer.offset < f.size

/-- The answer to an accepted `REST`. -/
def restAccepted : Message := [.text "350 Send RETR or STOR to start transfert.\r\n"]

/-- An accepted `REST` leaves an offset that is not negative. -/
theorem restCmdFn_offset {rest : Call} {r : Report} (h : restCmdFn rest=.ok r)
    (haccepted : r.replies=[restAccepted]) : 0≤r.session.transfer.offset := by
  rw [restCmdFn] at h
  cases hread : rest.read with
  | error fault =>
    rw [hread] at h
    cases h
  | ok text =>
    rw [hread] at h
    simp only [bind,Except.bind] at h
    split at h
    · cases h
      exact absurd (List.cons.inj haccepted).1 (by decide)
    · rename_i hoffset
      cases h
      exact not_lt.mp hoffset

/-- The file is read from the offset if that lies before the end. -/
theorem startOf_eq (s : Session) (size : ℤ) : startOf s size=
    if s.transfer.offset < size then s.transfer.offset.toNat else 0 := by
  rw [startOf]
  split_ifs <;> omega

/-- A command without a transfer is right exactly if the offset is zero afterwards. -/
theorem right_unsent (offset : ℤ) (s : Session) {replies : List Message} (ret : ℤ)
    (hreplies : transferComplete∉replies) :
    Right file conn offset (unsent c s replies ret) ↔ s.transfer.offset=0 :=
  and_iff_right fun _ _ _ hin => absurd hin hreplies

/-- The file is read from a place in it. -/
theorem startOf_le (s : Session) (f : OpenFile) : startOf s f.size≤f.content.length := by
  have hlen := f.size_le
  rw [startOf]
  split_ifs <;> omega

/-- Where the file can be read and sent, the transfer sends it from that place on
and is answered with 226. -/
theorem sendFile_delivers {f : OpenFile} (h : Delivers f conn) (s : Session) (path : List Byte) :
    (sendFile c conn s path f).sent=f.content.drop (startOf s f.size) ∧
      transferComplete∈(sendFile c conn s path f).report.replies := by
  have hrun := h.retrLoop [] (startOf_le s f) (by omega : _ < f.content.length+1)
  simp [sendFile,hrun]

/-- A transfer is right exactly if the offset lies inside the file, where the file
can be read and sent. -/
theorem right_sendFile {s : Session} {f : OpenFile} (path : List Byte)
    (hoffset : 0 ≤ s.transfer.offset) (hsize : 0 < f.size) :
    Right (some f) conn s.transfer.offset (sendFile c conn s path f) ↔
      (Delivers f conn → s.transfer.offset < f.size) := by
  have hlen := f.size_le
  have hzero : (sendFile c conn s path f).report.session.transfer.offset=0 := rfl
  simp only [Right,Option.mem_some_iff,forall_eq',hzero,and_true]
  refine forall_congr' fun hdelivers => ?_
  obtain ⟨hsent,hcomplete⟩ := sendFile_delivers (c := c) hdelivers s path
  rw [forall_prop_of_true hcomplete,hsent,startOf_eq]
  split_ifs with hin
  · exact iff_of_true rfl hin
  · refine iff_of_false (fun h => ?_) hin
    have hshort := congrArg List.length h
    simp only [List.length_drop] at hshort
    omega

/-- From `open` on the command is right exactly if the offset lies inside a file
that is sent. -/
theorem right_retrAt {s : Session} (path : List Byte) (hoffset : 0 ≤ s.transfer.offset) :
    Right file conn s.transfer.offset (retrAt c file conn s path) ↔
      ∀ f∈file,0 < f.size → Delivers f conn → s.transfer.offset < f.size := by
  have hrefused : transferComplete∉[notRegular path] := by simp [transferComplete,notRegular]
  cases file with
  | none => exact iff_of_true ((right_unsent _ _ _ hrefused).mpr rfl) fun f hf => nomatch hf
  | some f =>
    simp only [retrAt,Option.mem_some_iff,forall_eq']
    split_ifs with hsize
    · exact iff_of_true ((right_unsent _ _ _ hrefused).mpr rfl) fun h => absurd hsize (not_le.mpr h)
    · rw [right_sendFile path hoffset (not_le.mp hsize)]
      exact ⟨fun h _ => h,fun h => h (not_le.mp hsize)⟩

/-- At any offset that is not negative, `RETR` is as it should be exactly if the
offset lies inside the file. -/
theorem resumes_iff (hoffset : 0 ≤ c.session.transfer.offset) :
    Resumes c file conn ↔ InsideFile c file conn := by
  have hkept := pasvAccept_offset c.session c.outcomes
  rw [Resumes,InsideFile,retrFile,←hkept]
  rw [←hkept] at hoffset
  generalize pasvAccept c.session c.outcomes=s at hoffset ⊢
  by_cases hport : s.transfer.portPasvFd < 0
  · rw [if_pos hport]
    simp only [Except.ok.injEq,forall_eq',hport,true_or,or_true,iff_true]
    exact (right_unsent _ _ _ (by decide)).mpr rfl
  · rw [if_neg hport]
    cases filePath c s with
    | error fault => simp
    | ok built =>
      obtain ⟨buf,ret⟩ := built
      have hpair : ∀ P : List Byte → ℤ → Prop,
          (∀ b r,(.ok (buf,ret) : Except Fault (List Byte×ℤ))=.ok (b,r) → P b r) ↔ P buf ret :=
        fun P => ⟨fun h => h buf ret rfl,fun h b r heq => by cases heq; exact h⟩
      rw [hpair]
      dsimp only
      by_cases hleft : ret≠0 ∨ ¬c.outcomes.bufAlloc
      · have hnot : ¬(ret=0 ∧ c.outcomes.bufAlloc=true) :=
          hleft.elim (fun hret h => hret h.1) fun halloc h => halloc h.2
        simp only [if_pos hleft,Except.ok.injEq,forall_eq',hport,false_or]
        rw [right_unsent _ _ _ List.not_mem_nil]
        exact (or_iff_left fun h => hnot ⟨h.1,h.2.1⟩).symm
      · obtain ⟨hret,halloc⟩ := not_or.mp hleft
        simp only [if_neg hleft,Except.ok.injEq,forall_eq',hport,false_or]
        rw [right_retrAt _ hoffset,and_iff_right (not_not.mp hret),and_iff_right (not_not.mp halloc)]
        refine ⟨Or.inr,fun h f hf hsize hdelivers => ?_⟩
        rcases h with hzero | hinside
        · exact hzero▸hsize
        · exact hinside f hf hsize hdelivers

/-- After an accepted `REST`, with the offset kept, `RETR` sends the file from
there on and leaves no offset exactly if the offset lies inside the file. -/
theorem retr_after_rest {rest c : Call} {r : Report} (file : Option OpenFile) (conn : DataConn)
    (hrest : restCmdFn rest=.ok r) (haccepted : r.replies=[restAccepted])
    (hkept : c.session.transfer.offset=r.session.transfer.offset) :
    Resumes c file conn ↔ InsideFile c file conn :=
  resumes_iff (hkept▸restCmdFn_offset hrest haccepted)

end Resumption

section Download

/-- A session with a data connection. -/
def opened : Session := ⟨5,0,⟨6,-1,0,1⟩,.ok,slash::List.replicate 255 0⟩

/-- `REST` with one digit. -/
def restCall (digit : Char) : Call :=
  ⟨opened,ascii ['R','E','S','T']++0::ascii [digit]++[0],some 5,allOk⟩

/-- `RETR` of the file `f`. -/
def retrCall (offset : ℤ) : Call :=
  ⟨withOffset opened offset,ascii ['R','E','T','R']++0::ascii ['f']++[0],some 5,allOk⟩

/-- A file of three bytes, which is read at once. -/
def threeBytes : OpenFile :=
  ⟨[1,2,3],fun pos => (3-pos : ℕ),fun pos => by simp; omega,fun pos h => by simp at h; omega⟩

/-- A connection that takes what it is offered. -/
def takesAll : DataConn := fun _ n => n

/-- The file can be read and sent. -/
theorem threeBytes_delivers : Delivers threeBytes takesAll where
  reads pos h := by
    simp [threeBytes] at h ⊢
    omega
  pos _ _ h := Int.natCast_pos.mpr h
  le _ _ := le_rfl

/-- A download that is resumed at the last byte. -/
theorem resumed_at_two : Resumes (retrCall 2) (some threeBytes) takesAll := by
  refine (@retr_after_rest (restCall '2') _ _ (some threeBytes) takesAll rfl rfl rfl).mpr
    (Or.inr (Or.inr fun buf ret h => ?_))
  have hpath : (filePath (retrCall 2) (pasvAccept (retrCall 2).session (retrCall 2).outcomes)).map
      Prod.snd=.ok 0 := by decide +kernel
  rw [h] at hpath
  refine ⟨Except.ok.inj hpath,rfl,fun f hf _ _ => ?_⟩
  cases hf
  decide +kernel

/-- A download that is resumed at its end is sent from the start. -/
theorem resumed_at_end : ¬∀ (rest c : Call) (r : Report) (file : Option OpenFile)
    (conn : DataConn),restCmdFn rest=.ok r → r.replies=[restAccepted] →
      c.session.transfer.offset=r.session.transfer.offset → Resumes c file conn := by
  intro h
  have hresumes := h (restCall '3') (retrCall 3) _ (some threeBytes) takesAll rfl rfl rfl
  have hrun : (retrFile (retrCall 3) (some threeBytes) takesAll).map
      (fun out => (out.report.replies.getLast?,out.sent))=.ok (some transferComplete,[1,2,3]) := by
    decide +kernel
  cases hout : retrFile (retrCall 3) (some threeBytes) takesAll with
  | error fault =>
    rw [hout] at hrun
    cases hrun
  | ok out =>
    rw [hout] at hrun
    obtain ⟨hlast,hsent⟩ := Prod.mk.inj (Except.ok.inj hrun)
    have hright := (hresumes out hout).1 threeBytes rfl threeBytes_delivers
      (List.mem_of_getLast? hlast)
    exact absurd (hsent.symm.trans hright) (by decide)

end Download

end ZephyrApp.FtpRetrieve

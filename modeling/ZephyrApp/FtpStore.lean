import ZephyrApp.FtpRetrieve

/-!
# Storing a file from the data connection

`STOR` collects what arrives in a buffer and writes the buffer when it is full
or when nothing more arrives for a while. The end of the connection and a stall
look the same to the loop: a buffer that stays empty ends the transfer.
-/

namespace ZephyrApp.FtpStore

open MachineBytes FtpPath FtpBuffers FtpCommands FtpRetrieve
open FtpServer (allOk)
open FtpSession (Session ascii)

section Source

/-- What `select` and `recv` find on the data connection. -/
inductive Arrival where
  /-- Bytes, one at least; `recv` takes of them what fits. -/
  | data (first : Byte) (rest : List Byte)
  /-- `select` runs out of time. -/
  | stall
  /-- `recv` finds that the peer closed the connection. -/
  | close
  /-- `select` or `recv` fails. -/
  | failure
deriving DecidableEq

/-- What a call of `stor_cmd_receive` leaves. -/
structure Received where
  /-- The returned value. -/
  rc : ℤ
  /-- The buffer. -/
  buf : List Byte
  /-- The peer closed the connection. -/
  closed : Bool
  /-- What the following calls find. -/
  rest : List Arrival

/-- `stor_cmd_receive` with a buffer of so many bytes, some of them filled. It
goes on while there is room, none if it waits for more than is listed. -/
def storCmdReceive (bufsz : ℕ) (buf : List Byte) : List Arrival → Option Received
  | [] => none
  | .stall::rest => some ⟨buf.length,buf,false,rest⟩
  | .close::rest => some ⟨buf.length,buf,true,rest⟩
  | .failure::rest => some ⟨-1,buf,false,rest⟩
  | .data first more::rest =>
    let buf := buf++(first::more).take (bufsz-buf.length)
    if buf.length < bufsz then storCmdReceive bufsz buf rest
    else some ⟨buf.length,buf,false,rest⟩

/-- The transfer of a file to the server. -/
structure Upload where
  /-- What the file holds. -/
  stored : List Byte
  /-- All bytes that `recv` returned. -/
  received : List Byte
  /-- The peer closed the connection. -/
  closed : Bool
deriving DecidableEq

/-- What `write` returns, from what the file holds and the block. -/
abbrev FileWrite := List Byte → List Byte → ℤ

/-- The transfer with the buffer of a call. -/
def Upload.receive (t : Upload) (r : Received) : Upload :=
  {t with received := t.received++r.buf,closed := t.closed || r.closed}

/-- The transfer with a block written. -/
def Upload.append (t : Upload) (block : List Byte) : Upload := {t with stored := t.stored++block}

/-- The loop of `stor_cmd_fn`: the transfer at its end and `result`, none if it
goes on. Every pass finds something, so that what is found bounds their number. -/
def storLoop (write : FileWrite) : ℕ → Upload → List Arrival → Option (Upload×ℤ)
  | 0,_,_ => none
  | fuel+1,t,arrivals =>
    match storCmdReceive 1024 [] arrivals with
    | none => none
    | some r =>
      let t := t.receive r
      if r.rc < 0 then some (t,-1)
      else if r.rc=0 then some (t,0)
      else
        let written := write t.stored r.buf
        if written≠r.rc then some (t.append (r.buf.take written.toNat),-1)
        else storLoop write fuel (t.append r.buf) r.rest

/-- What `STOR` leaves. -/
structure Storage where
  /-- What is left and sent on the control connection. -/
  report : Report
  /-- The transfer, if there was one. -/
  upload : Option Upload

variable (c : Call) (write : FileWrite) (arrivals : List Arrival)

/-- The end of `stor_cmd_fn` without a transfer. -/
def unstored (s : Session) (replies : List Message) (ret : ℤ) : Storage :=
  ⟨⟨s,c.data,replies,ret⟩,none⟩

/-- The transfer to an open file and the end of `stor_cmd_fn`, none if the
transfer goes on. -/
def receiveFile (s : Session) (path : List Byte) : Option Storage :=
  (storLoop write (arrivals.length+1) ⟨[],[],false⟩ arrivals).map fun (t,result) =>
    let opening : Message :=
      [.text "150 Opening binary mode data connection for \"",.bytes path,.text "\".\r\n"]
    ⟨⟨closeData s,c.data,
      [opening,if result≠0 then transferAborted else transferComplete],0⟩,some t⟩

/-- `stor_cmd_fn`, with what arrives on the data connection and what `write`
returns. -/
def storFile : Except Fault (Option Storage) :=
  let s := withOffset c.session 0
  if s.isAnonymous≠0 then .ok (unstored c s [permissionDenied] 0)
  else
    let s := pasvAccept s c.outcomes
    if s.transfer.portPasvFd < 0 then .ok (unstored c s [notImplemented] 0)
    else
      match filePath c s with
      | .error fault => .error fault
      | .ok (buf,ret) =>
        if ret≠0 ∨ ¬c.outcomes.bufAlloc then .ok (unstored c s [] (-1))
        else if ¬c.outcomes.callOk then
          .ok (unstored c s
            [[.text "550 Cannot open \"",.bytes (cString buf),.text "\" for writing.\r\n"]] 0)
        else .ok (receiveFile c write arrivals s (cString buf))

end Source

section Refinement

variable {c : Call} {write : FileWrite} {arrivals : List Arrival}

/-- A transfer that ends is answered as its result tells. -/
theorem receiveFile_report {s : Session} {path : List Byte} {out : Storage}
    (h : receiveFile c write arrivals s path=some out) :
    out.report=⟨closeData s,c.data,
      [[.text "150 Opening binary mode data connection for \"",.bytes path,.text "\".\r\n"],
        if transferComplete∈out.report.replies then transferComplete else transferAborted],0⟩ := by
  obtain ⟨⟨t,result⟩,-,rfl⟩ := Option.map_eq_some_iff.mp h
  by_cases hresult : result=0
  · simp [hresult]
  · simp [hresult,transferComplete,transferAborted]

/-- The command that ends is the command in memory, with a transfer that is in
order if it is answered with 226. -/
theorem storFile_report {out : Storage} (h : storFile c write arrivals=.ok (some out)) :
    storCmdFn {c with outcomes :=
      {c.outcomes with transferred := transferComplete∈out.report.replies}}=.ok out.report := by
  rw [storFile] at h
  rw [storCmdFn]
  dsimp only at h ⊢
  by_cases hanon : (withOffset c.session 0).isAnonymous≠0
  · rw [if_pos hanon] at h ⊢
    cases h
    rfl
  rw [if_neg hanon] at h ⊢
  have haccept : pasvAccept (withOffset c.session 0)
      {c.outcomes with transferred := transferComplete∈out.report.replies}=
        pasvAccept (withOffset c.session 0) c.outcomes := rfl
  rw [haccept]
  generalize pasvAccept (withOffset c.session 0) c.outcomes=s at h ⊢
  by_cases hport : s.transfer.portPasvFd < 0
  · rw [if_pos hport] at h ⊢
    cases h
    rfl
  rw [if_neg hport] at h ⊢
  simp only [withPath,filePath,Call.read,Call.text] at h ⊢
  cases hparam : c.param with
  | none =>
    rw [hparam] at h
    cases h
  | some k =>
    rw [hparam] at h
    simp only [Option.map_some,bind,Except.bind] at h ⊢
    cases hbuild : buildPath (FtpSession.pathBuf s) (cString (c.data.drop k)) with
    | error fault =>
      rw [hbuild] at h
      cases h
    | ok built =>
      obtain ⟨buf,ret⟩ := built
      rw [hbuild] at h
      dsimp only at h ⊢
      by_cases hret : ret≠0
      · rw [if_pos (Or.inl hret)] at h
        rw [if_pos hret]
        cases h
        rfl
      rw [if_neg hret]
      by_cases halloc : c.outcomes.bufAlloc=true
      · rw [if_neg (not_or.mpr ⟨hret,not_not.mpr halloc⟩)] at h
        rw [if_neg (not_not.mpr halloc)]
        by_cases hcall : c.outcomes.callOk=true
        · rw [if_neg (not_not.mpr hcall)] at h ⊢
          have hreport := receiveFile_report (Except.ok.inj h)
          simp only [replied,decide_eq_true_eq]
          exact congrArg Except.ok hreport.symm
        · rw [if_pos hcall] at h ⊢
          cases h
          rfl
      · rw [if_pos (Or.inr halloc)] at h
        rw [if_pos halloc]
        cases h
        rfl

end Refinement

section Blocks

/-- What one arrival makes of the bytes that wait: a block that is handed over,
if there is one, and the bytes that wait then. -/
def gather (waiting : List Byte) : Arrival → Option (List Byte)×List Byte
  | .data first more =>
    let waiting := waiting++(first::more).take (1024-waiting.length)
    if waiting.length < 1024 then (none,waiting) else (some waiting,[])
  | .stall | .close | .failure => if waiting=[] then (none,[]) else (some waiting,[])

/-- The blocks that arrivals are handed over in. -/
def blocks : List Byte → List Arrival → List (List Byte)
  | _,[] => []
  | waiting,e::rest => (gather waiting e).1.toList++blocks (gather waiting e).2 rest

/-- The bytes that wait after arrivals. -/
def waitingAfter : List Byte → List Arrival → List Byte
  | waiting,[] => waiting
  | waiting,e::rest => waitingAfter (gather waiting e).2 rest

/-- All blocks are written in full behind what is stored. -/
def Written (write : FileWrite) : List Byte → List (List Byte) → Prop
  | _,[] => True
  | stored,b::bs => write stored b=b.length ∧ Written write (stored++b) bs

/-- Bytes or a stall: the connection is open and works. -/
def Arrival.Open : Arrival → Prop
  | .data _ _ => True
  | .stall => True
  | .close => False
  | .failure => False

/-- A stall finds no byte waiting, on an open connection with all blocks before it
written. -/
def Starves (write : FileWrite) (stored waiting : List Byte) (arrivals : List Arrival) : Prop :=
  ∃ pre post,arrivals=pre++.stall::post ∧ (∀ e∈pre,e.Open) ∧ waitingAfter waiting pre=[] ∧
    Written write stored (blocks waiting pre)

variable {write : FileWrite} {stored waiting : List Byte} {arrivals : List Arrival}

/-- What follows an arrival on an open connection. -/
theorem starves_cons {e : Arrival} (hne : ¬(e=.stall ∧ waiting=[])) :
    Starves write stored waiting (e::arrivals) ↔ e.Open ∧
      match (gather waiting e).1 with
      | none => Starves write stored (gather waiting e).2 arrivals
      | some b => write stored b=b.length ∧
          Starves write (stored++b) (gather waiting e).2 arrivals := by
  constructor
  · rintro ⟨pre,post,heq,hopen,hwaiting,hwritten⟩
    cases pre with
    | nil =>
      obtain ⟨rfl,-⟩ := List.cons.inj heq
      exact absurd ⟨rfl,hwaiting⟩ hne
    | cons e' pre =>
      obtain ⟨rfl,rfl⟩ := List.cons.inj heq
      refine ⟨hopen e List.mem_cons_self,?_⟩
      have hrest : ∀ e∈pre,e.Open := fun e he => hopen e (List.mem_cons_of_mem _ he)
      rw [waitingAfter] at hwaiting
      rw [blocks] at hwritten
      cases hblock : (gather waiting e).1 with
      | none =>
        rw [hblock] at hwritten
        exact ⟨pre,post,rfl,hrest,hwaiting,hwritten⟩
      | some b =>
        rw [hblock] at hwritten
        exact ⟨hwritten.1,pre,post,rfl,hrest,hwaiting,hwritten.2⟩
  · rintro ⟨hopen,h⟩
    cases hblock : (gather waiting e).1 with
    | none =>
      rw [hblock] at h
      obtain ⟨pre,post,rfl,hrest,hwaiting,hwritten⟩ := h
      refine ⟨e::pre,post,rfl,List.forall_mem_cons.mpr ⟨hopen,hrest⟩,hwaiting,?_⟩
      rw [blocks,hblock]
      exact hwritten
    | some b =>
      rw [hblock] at h
      obtain ⟨hb,pre,post,rfl,hrest,hwaiting,hwritten⟩ := h
      refine ⟨e::pre,post,rfl,List.forall_mem_cons.mpr ⟨hopen,hrest⟩,hwaiting,?_⟩
      rw [blocks,hblock]
      exact ⟨hb,hwritten⟩

/-- A stall that finds no byte waiting. -/
theorem starves_stall : Starves write stored [] (.stall::arrivals) :=
  ⟨[],arrivals,rfl,fun _ h => absurd h List.not_mem_nil,rfl,trivial⟩

/-- A connection on which nothing is found does not starve. -/
theorem not_starves_nil : ¬Starves write stored waiting [] := by
  rintro ⟨pre,post,heq,-⟩
  cases pre <;> cases heq

/-- A call of `stor_cmd_receive` finds the connection starved, or leaves it to
starve later. -/
theorem starves_receive (hroom : waiting.length < 1024) :
    Starves write stored waiting arrivals ↔
      ∃ r,storCmdReceive 1024 waiting arrivals=some r ∧ r.closed=false ∧
        (r.rc=0 ∨ 0 < r.rc ∧ write stored r.buf=r.rc ∧
          Starves write (stored++r.buf) [] r.rest) := by
  induction arrivals generalizing waiting with
  | nil => exact iff_of_false not_starves_nil fun ⟨r,h,_⟩ => nomatch h
  | cons e rest ih =>
    cases e with
    | data first more =>
      rw [starves_cons (e := .data first more) (fun h => nomatch h.1),storCmdReceive,gather]
      simp only [Arrival.Open,true_and]
      by_cases hfits : (waiting++(first::more).take (1024-waiting.length)).length < 1024
      · simp only [if_pos hfits]
        exact ih hfits
      · have hpos : (0 : ℤ) < (waiting++(first::more).take (1024-waiting.length)).length := by
          omega
        simp only [if_neg hfits,Option.some.injEq,exists_eq_left',true_and,hpos.ne',false_or,hpos]
    | stall =>
      by_cases hwaiting : waiting=[]
      · subst hwaiting
        exact iff_of_true starves_stall ⟨_,rfl,rfl,Or.inl rfl⟩
      · have hpos : (0 : ℤ) < waiting.length := by
          exact_mod_cast List.length_pos_of_ne_nil hwaiting
        rw [starves_cons (fun h => hwaiting h.2),storCmdReceive,gather]
        simp only [Arrival.Open,if_neg hwaiting,Option.some.injEq,exists_eq_left',true_and,
          hpos.ne',false_or,hpos]
    | close =>
      rw [starves_cons (e := .close) (fun h => nomatch h.1),storCmdReceive]
      simp [Arrival.Open]
    | failure =>
      rw [starves_cons (e := .failure) (fun h => nomatch h.1),storCmdReceive]
      simp [Arrival.Open]

/-- What a call of `stor_cmd_receive` leaves: the number of bytes in the buffer or
a failure, and less to find. -/
theorem storCmdReceive_spec {r : Received} (h : storCmdReceive 1024 waiting arrivals=some r) :
    (r.rc=r.buf.length ∨ r.rc=-1) ∧ r.rest.length < arrivals.length := by
  induction arrivals generalizing waiting with
  | nil => cases h
  | cons e rest ih =>
    cases e with
    | data first more =>
      rw [storCmdReceive] at h
      split at h
      · obtain ⟨hrc,hlen⟩ := ih h
        exact ⟨hrc,hlen.trans (Nat.lt_succ_self _)⟩
      · cases h
        exact ⟨Or.inl rfl,Nat.lt_succ_self _⟩
    | stall =>
      cases h
      exact ⟨Or.inl rfl,Nat.lt_succ_self _⟩
    | close =>
      cases h
      exact ⟨Or.inl rfl,Nat.lt_succ_self _⟩
    | failure =>
      cases h
      exact ⟨Or.inr rfl,Nat.lt_succ_self _⟩

end Blocks

section Transfer

variable {write : FileWrite} {arrivals : List Arrival} {fuel : ℕ} {t : Upload}

/-- A closed connection stays closed. -/
theorem storLoop_closed {t' : Upload} {result : ℤ} (hclosed : t.closed=true)
    (h : storLoop write fuel t arrivals=some (t',result)) : t'.closed=true := by
  induction fuel generalizing t arrivals with
  | zero => cases h
  | succ fuel ih =>
    rw [storLoop] at h
    cases hreceive : storCmdReceive 1024 [] arrivals with
    | none =>
      rw [hreceive] at h
      cases h
    | some r =>
      have hkept : (t.receive r).closed=true := by rw [Upload.receive,hclosed,Bool.true_or]
      rw [hreceive] at h
      dsimp only at h
      split_ifs at h
      · exact (Prod.mk.inj (Option.some.inj h)).1▸hkept
      · exact (Prod.mk.inj (Option.some.inj h)).1▸hkept
      · exact (Prod.mk.inj (Option.some.inj h)).1▸hkept
      · exact ih (t := (t.receive r).append r.buf) hkept h

/-- The loop ends in order without a closed connection exactly if that starves. -/
theorem starves_storLoop (hfuel : arrivals.length < fuel) (hclosed : t.closed=false) :
    Starves write t.stored [] arrivals ↔
      ∃ t',storLoop write fuel t arrivals=some (t',0) ∧ t'.closed=false := by
  induction fuel generalizing t arrivals with
  | zero => exact absurd hfuel (Nat.not_lt_zero _)
  | succ fuel ih =>
    rw [starves_receive (by decide),storLoop]
    cases hreceive : storCmdReceive 1024 [] arrivals with
    | none => simp
    | some r =>
      obtain ⟨hrc,hlen⟩ := storCmdReceive_spec hreceive
      have hopen : (t.receive r).closed=r.closed := by rw [Upload.receive,hclosed,Bool.false_or]
      simp only [Option.some.injEq,exists_eq_left']
      split_ifs with hneg hzero hwritten
      · refine iff_of_false (fun h => ?_) fun ⟨t',h,_⟩ => nomatch h
        omega
      · rw [←hopen]
        simp [hzero]
      · refine iff_of_false (fun h => ?_) fun ⟨t',h,_⟩ => nomatch h
        exact h.2.elim (fun h => hzero h) fun h => hwritten h.2.1
      · have hpos : 0 < r.rc := by omega
        cases hr : r.closed with
        | false =>
          have hnext : Starves write ((t.receive r).append r.buf).stored [] r.rest ↔ _ :=
            ih (t := (t.receive r).append r.buf) (by omega) (hopen.trans hr)
          have hwrite : write t.stored r.buf=r.rc := not_not.mp hwritten
          rw [←hnext]
          simp only [true_and,hzero,false_or,hpos,hwrite]
          rfl
        | true =>
          refine iff_of_false (fun h => nomatch h.1) fun ⟨t',h,hend⟩ => ?_
          have hkept := storLoop_closed (t := (t.receive r).append r.buf) (hopen.trans hr) h
          rw [hkept] at hend
          cases hend

/-- The loop ends with a result of zero or minus one, and with zero only where all
that was received is stored. -/
theorem storLoop_stored {t' : Upload} {result : ℤ} (hstored : t.stored=t.received)
    (h : storLoop write fuel t arrivals=some (t',result)) :
    result=0 → t'.stored=t'.received := by
  induction fuel generalizing t arrivals with
  | zero => cases h
  | succ fuel ih =>
    rw [storLoop] at h
    cases hreceive : storCmdReceive 1024 [] arrivals with
    | none =>
      rw [hreceive] at h
      cases h
    | some r =>
      obtain ⟨hrc,-⟩ := storCmdReceive_spec hreceive
      rw [hreceive] at h
      dsimp only at h
      split_ifs at h with hneg hzero hwritten
      · cases h
        exact fun h => nomatch h
      · cases h
        have hempty : r.buf=[] := List.eq_nil_of_length_eq_zero (by omega)
        simp only [Upload.receive,hempty,List.append_nil]
        exact fun _ => hstored
      · cases h
        exact fun h => nomatch h
      · refine ih ?_ h
        simp only [Upload.append,Upload.receive,hstored]

end Transfer

section Acknowledgement

variable {c : Call} {write : FileWrite} {arrivals : List Arrival}

/-- What `STOR` should answer to a transfer: 226 only if the peer closed the
connection and the file holds all that was received, and 426 otherwise. -/
def Acknowledged (out : Storage) : Prop :=
  ∀ t∈out.upload,
    (transferComplete∈out.report.replies → t.closed=true ∧ t.stored=t.received) ∧
      (¬(t.closed=true ∧ t.stored=t.received) → transferAborted∈out.report.replies)

/-- `STOR` as it should be: whenever it answers, the answer is right. -/
def Acknowledges (c : Call) (write : FileWrite) (arrivals : List Arrival) : Prop :=
  ∀ out,storFile c write arrivals=.ok (some out) → Acknowledged out

/-- The command comes to a transfer. -/
def Opens (c : Call) : Prop :=
  let s := pasvAccept (withOffset c.session 0) c.outcomes
  c.session.isAnonymous=0 ∧ 0 ≤ s.transfer.portPasvFd ∧ (∃ buf,filePath c s=.ok (buf,0)) ∧
    c.outcomes.bufAlloc=true ∧ c.outcomes.callOk=true

/-- A command without a transfer has nothing to acknowledge. -/
theorem acknowledged_unstored (s : Session) (replies : List Message) (ret : ℤ) :
    Acknowledged (unstored c s replies ret) := fun _ h => nomatch h

/-- The answer to a transfer is 226 exactly if `result` is zero, and 426 otherwise. -/
theorem acknowledged_iff {s : Session} {path : List Byte} {t : Upload} {result : ℤ}
    (hloop : storLoop write (arrivals.length+1) ⟨[],[],false⟩ arrivals=some (t,result)) :
    (∀ out,receiveFile c write arrivals s path=some out → Acknowledged out) ↔
      (result=0 → t.closed=true ∧ t.stored=t.received) := by
  rw [receiveFile,hloop]
  simp only [Option.map_some,Option.some.injEq,forall_eq',Acknowledged,Option.mem_some_iff]
  by_cases hresult : result=0
  · simp [hresult,transferComplete,transferAborted]
  · simp [hresult,transferComplete,transferAborted]

/-- A transfer is acknowledged rightly exactly if the connection does not starve. -/
theorem receiveFile_iff (s : Session) (path : List Byte) :
    (∀ out,receiveFile c write arrivals s path=some out → Acknowledged out) ↔
      ¬Starves write [] [] arrivals := by
  have hstarves : Starves write [] [] arrivals ↔ _ :=
    starves_storLoop (t := ⟨[],[],false⟩) (Nat.lt_succ_self arrivals.length) rfl
  rw [hstarves]
  cases hloop : storLoop write (arrivals.length+1) ⟨[],[],false⟩ arrivals with
  | none => simp [receiveFile,hloop]
  | some end_ =>
    obtain ⟨t,result⟩ := end_
    rw [acknowledged_iff hloop]
    constructor
    · rintro h ⟨t',heq,hopen⟩
      cases heq
      rw [(h rfl).1] at hopen
      cases hopen
    · rintro h rfl
      refine ⟨?_,storLoop_stored rfl hloop rfl⟩
      cases hclosed : t.closed with
      | true => rfl
      | false => exact absurd ⟨t,rfl,hclosed⟩ h

/-- The command fails before a transfer, answers without one, or comes to one. -/
theorem storFile_cases (c : Call) (write : FileWrite) (arrivals : List Arrival) :
    (¬Opens c ∧ ∃ fault,storFile c write arrivals=.error fault) ∨
      (¬Opens c ∧ ∃ s replies ret,
        storFile c write arrivals=.ok (some (unstored c s replies ret))) ∨
      (Opens c ∧ ∃ s path,storFile c write arrivals=.ok (receiveFile c write arrivals s path)) := by
  have hrun := storFile.eq_1 c write arrivals
  have hopens := Opens.eq_1 c
  dsimp only at hrun hopens
  by_cases hanon : (withOffset c.session 0).isAnonymous≠0
  · rw [if_pos hanon] at hrun
    exact Or.inr (Or.inl ⟨by rw [hopens]; exact fun h => hanon h.1,_,_,_,hrun⟩)
  rw [if_neg hanon] at hrun
  generalize pasvAccept (withOffset c.session 0) c.outcomes=s at hrun hopens
  by_cases hport : s.transfer.portPasvFd < 0
  · rw [if_pos hport] at hrun
    exact Or.inr (Or.inl ⟨by rw [hopens]; exact fun h => not_lt.mpr h.2.1 hport,_,_,_,hrun⟩)
  rw [if_neg hport] at hrun
  cases hpath : filePath c s with
  | error fault =>
    rw [hpath] at hrun hopens
    refine Or.inl ⟨?_,fault,hrun⟩
    rw [hopens]
    rintro ⟨-,-,⟨buf,hbuf⟩,-⟩
    cases hbuf
  | ok built =>
    obtain ⟨buf,ret⟩ := built
    rw [hpath] at hrun hopens
    dsimp only at hrun
    have hret : (∃ buf',(.ok (buf,ret) : Except Fault (List Byte×ℤ))=.ok (buf',0)) ↔ ret=0 := by
      simp
    rw [hret] at hopens
    by_cases hleft : ret≠0 ∨ ¬c.outcomes.bufAlloc
    · rw [if_pos hleft] at hrun
      refine Or.inr (Or.inl ⟨?_,_,_,_,hrun⟩)
      rw [hopens]
      exact fun h => hleft.elim (fun hret => hret h.2.2.1) fun halloc => halloc h.2.2.2.1
    rw [if_neg hleft] at hrun
    by_cases hcall : c.outcomes.callOk=true
    · rw [if_neg (not_not.mpr hcall)] at hrun
      obtain ⟨hzero,halloc⟩ := not_or.mp hleft
      refine Or.inr (Or.inr ⟨?_,s,cString buf,hrun⟩)
      rw [hopens]
      exact ⟨not_not.mp hanon,not_lt.mp hport,not_not.mp hzero,not_not.mp halloc,hcall⟩
    · rw [if_pos hcall] at hrun
      refine Or.inr (Or.inl ⟨?_,_,_,_,hrun⟩)
      rw [hopens]
      exact fun h => hcall h.2.2.2.2

/-- Whenever `STOR` answers a transfer, it does so with 226 only if the peer closed
the connection and the file holds all that was received, and with 426 otherwise,
exactly if no stall finds the buffer empty on an open connection. -/
theorem stor_acknowledges_iff (c : Call) (write : FileWrite) (arrivals : List Arrival) :
    Acknowledges c write arrivals ↔ (Opens c → ¬Starves write [] [] arrivals) := by
  rcases storFile_cases c write arrivals with
    ⟨hopens,fault,hrun⟩ | ⟨hopens,s,replies,ret,hrun⟩ | ⟨hopens,s,path,hrun⟩
  · refine iff_of_true (fun out hout => ?_) fun h => absurd h hopens
    rw [hrun] at hout
    cases hout
  · refine iff_of_true (fun out hout => ?_) fun h => absurd h hopens
    rw [hrun] at hout
    cases hout
    exact acknowledged_unstored s replies ret
  · rw [forall_prop_of_true hopens,←receiveFile_iff (c := c) s path,Acknowledges,hrun]
    simp only [Except.ok.injEq]

/-- A session stores a file whose peer falls silent. -/
def storCall : Call :=
  ⟨opened,ascii ['S','T','O','R']++0::ascii ['f']++[0],some 5,allOk⟩

/-- Three bytes arrive, and then none for twice three seconds. -/
def silent : List Arrival := [.data 1 [2,3],.stall,.stall]

/-- A `write` that stores the whole block. -/
def writesAll : FileWrite := fun _ block => block.length

/-- The upload of a silent peer is answered with 226. -/
theorem silent_upload_acknowledged : ¬∀ c write arrivals,Acknowledges c write arrivals := by
  intro h
  have hrun : (storFile storCall writesAll silent).map (fun out =>
      out.map fun out => (out.report.replies.getLast?,out.upload))=
        .ok (some (some transferComplete,some ⟨[1,2,3],[1,2,3],false⟩)) := by
    decide +kernel
  cases hout : storFile storCall writesAll silent with
  | error fault =>
    rw [hout] at hrun
    cases hrun
  | ok out =>
    rw [hout] at hrun
    obtain ⟨out,rfl,hends⟩ := Option.map_eq_some_iff.mp (Except.ok.inj hrun)
    obtain ⟨hlast,hupload⟩ := Prod.mk.inj hends
    exact nomatch ((h _ _ _ out hout _ hupload).1 (List.mem_of_getLast? hlast)).1

end Acknowledgement

end ZephyrApp.FtpStore

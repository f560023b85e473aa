import ZephyrApp.BlockPool
import ZephyrApp.EventRuns
import ZephyrApp.FtpRetrieve

/-!
# Reply buffers of the FTP server

Two blocks serve all commands for replies and file data. Every function takes a
block when it has something to say, and gives it back before it ends or uses the
pointer for fixed text.
-/

namespace ZephyrApp.FtpBufferPool

open MachineBytes BlockPool EventRuns FtpPath FtpBuffers FtpRetrieve
open FtpCommands (Call Report Message Fault MountPoint CmdFn Outcomes buildPath pasvAccept closeData
  withPasvs withOffset notImplemented permissionDenied transferComplete transferAborted notRegular
  cantOpen retrOpening findFn)
open FtpSession (Session ascii)

/-- `ftp_buf_slab`, of two blocks. -/
def ftpBufSlab : Pool (Fin 2) := ⟨[some 0,some 1],[]⟩

/-- A function that uses the pool. -/
abbrev Handler := Uses (Fin 2) (Except Fault Report)

/-- `ftp_buf_alloc`. -/
def ftpBufAlloc : Uses (Fin 2) (Option (Fin 2)) := alloc

/-- `ftp_buf_free`. -/
def ftpBufFree (p : Option (Fin 2)) : Uses (Fin 2) Unit := release p

section Handlers

variable (c : Call)

/-- The end of a function. -/
def done (s : Session) (replies : List Message) (ret : ℤ) : Handler :=
  pure (FtpCommands.replied c s replies ret)

/-- A message in a reply buffer, and what the session is after it. -/
def answer (s t : Session) (message : Message) : Handler := do
  let some reply ← ftpBufAlloc | done c s [] (-1)
  ftpBufFree reply
  done c t [message] 0

/-- A function on a path. -/
def withPath (s : Session) (use : List Byte → Handler) : Handler :=
  match filePath c s with
  | .error fault => pure (.error fault)
  | .ok (buf,ret) => if ret≠0 then done c s [] (-1) else use (cString buf)

/-- `pasv_cmd_fn`, which takes its buffer first and answers at its end. -/
def pasvCmdFn : Handler := do
  let some reply ← ftpBufAlloc | done c c.session [] (-1)
  let o := c.outcomes
  let message : Message :=
    if o.socket < 0 then [.text "504 socket create error.\r\n"]
    else if ¬o.bound then [.text "504 socket bind error.\r\n"]
    else if ¬o.listens then [.text "504 socket listen error.\r\n"]
    else if c.cmd=ascii ['P','A','S','V'] then
      match o.ethernet with
      | none => [.bytes o.oldReply]
      | some (a,b,d,e) =>
        [.text "227 Entering Passive Mode (",.number a,.text ",",.number b,.text ",",.number d,
          .text ",",.number e,.text ",",.number o.port.1,.text ",",.number o.port.2,
          .text ").\r\n"]
    else if c.cmd=ascii ['E','P','S','V'] then
      [.text "229 Entering Extended Passive Mode (|||",.number (o.port.1*256+o.port.2),
        .text "|).\r\n"]
    else [.bytes o.oldReply]
  ftpBufFree reply
  done c (withPasvs c.session o.socket) [message] 0

/-- `pwd_cmd_fn`. -/
def pwdCmdFn : Handler :=
  answer c c.session c.session
    [.text "257 \"",.bytes (cString c.session.currentdir),.text "\" is current directory.\r\n"]

/-- The announcement of a listing. -/
def listOpening (s : Session) : Message :=
  if s.transfer.type=1 then [.text "150 Opening binary mode connection for file list.\r\n"]
  else [.text "150 Opening ascii mode connection for file list.\r\n"]

/-- `list_cmd_fn`, which collects lines in a buffer that it does not check. -/
def listCmdFn : Handler :=
  let s := pasvAccept c.session c.outcomes
  if s.transfer.portPasvFd < 0 then done c s [notImplemented] 0
  else if ¬c.outcomes.dirOpens then answer c s s (cantOpen (cString s.currentdir))
  else do
    let some reply ← ftpBufAlloc | pure (.error .overrun)
    ftpBufFree reply
    done c (closeData s) [listOpening s,transferComplete] 0

/-- `nlist_cmd_fn`, which writes its lines to the stack. -/
def nlistCmdFn : Handler :=
  let s := pasvAccept c.session c.outcomes
  if s.transfer.portPasvFd < 0 then done c s [notImplemented] 0
  else if ¬c.outcomes.dirOpens then answer c s s (cantOpen (cString s.currentdir))
  else done c (closeData s) [listOpening s,transferComplete] 0

/-- The common part of `cwd_cmd_fn` and `cdup_cmd_fn`. -/
def changeDir (path : List Byte) : Handler :=
  match buildPath c.session.currentdir path with
  | .error fault => pure (.error fault)
  | .ok (buf,ret) =>
    let s := {c.session with currentdir := buf}
    if ret≠0 then done c s [] (-1)
    else if ¬c.outcomes.dirOpens then answer c s s (cantOpen (cString buf))
    else answer c s s [.text "250 Changed to directory \"",.bytes (cString buf),.text "\"\r\n"]

/-- `cwd_cmd_fn`. -/
def cwdCmdFn : Handler :=
  match c.read with
  | .error fault => pure (.error fault)
  | .ok path => changeDir c path

/-- `cdup_cmd_fn`. -/
def cdupCmdFn : Handler := changeDir c [dot,dot]

/-- The commands that change the file system at a path. -/
def changeFile (ok : Bool) (failed succeeded : String×String) : Handler :=
  if c.session.isAnonymous≠0 then done c c.session [permissionDenied] 0
  else
    withPath c c.session fun path =>
      let message := if ok then succeeded else failed
      answer c c.session c.session [.text message.1,.bytes path,.text message.2]

/-- `mkd_cmd_fn`. -/
def mkdCmdFn : Handler :=
  changeFile c (c.outcomes.dirOpens || c.outcomes.callOk)
    ("550 directory \"","\" create error.\r\n") ("257 directory \"","\" successfully created.\r\n")

/-- `rmd_cmd_fn`. -/
def rmdCmdFn : Handler :=
  changeFile c c.outcomes.callOk
    ("550 directory \"","\" delete error.\r\n") ("257 directory \"","\" successfully deleted.\r\n")

/-- `dele_cmd_fn`. -/
def deleCmdFn : Handler :=
  changeFile c c.outcomes.callOk
    ("550 file \"","\" delete error.\r\n") ("250 file \"","\" successfully deleted.\r\n")

/-- `size_cmd_fn`. -/
def sizeCmdFn : Handler :=
  withPath c c.session fun path =>
    match c.outcomes.stat with
    | none => answer c c.session c.session (notRegular path)
    | some (false,_) => answer c c.session c.session (notRegular path)
    | some (true,size) =>
      answer c c.session c.session [.text "213 ",.number size,.text "\r\n"]

/-- `retr_cmd_fn`. -/
def retrCmdFn : Handler :=
  let s := pasvAccept c.session c.outcomes
  if s.transfer.portPasvFd < 0 then done c (withOffset s 0) [notImplemented] 0
  else
    withPath c s fun path =>
      if ¬c.outcomes.callOk then answer c s (withOffset s 0) (notRegular path)
      else if c.outcomes.fileSize≤0 then answer c s (withOffset s 0) (notRegular path)
      else do
        let some reply ← ftpBufAlloc | done c s [] (-1)
        ftpBufFree reply
        done c (withOffset (closeData s) 0) [retrOpening c s path,
          if c.outcomes.transferred then transferComplete else transferAborted] 0

/-- `stor_cmd_fn`. -/
def storCmdFn : Handler :=
  let s := withOffset c.session 0
  if s.isAnonymous≠0 then done c s [permissionDenied] 0
  else
    let s := pasvAccept s c.outcomes
    if s.transfer.portPasvFd < 0 then done c s [notImplemented] 0
    else
      withPath c s fun path =>
        if ¬c.outcomes.callOk then
          answer c s s [.text "550 Cannot open \"",.bytes path,.text "\" for writing.\r\n"]
        else do
          let some reply ← ftpBufAlloc | done c s [] (-1)
          ftpBufFree reply
          done c (closeData s)
            [[.text "150 Opening binary mode data connection for \"",.bytes path,.text "\".\r\n"],
              if c.outcomes.transferred then transferComplete else transferAborted] 0

variable (root : MountPoint)

/-- A function of the command table. -/
def runFn : CmdFn → Handler
  | .port => pure (FtpCommands.portCmdFn c)
  | .pasv => pasvCmdFn c
  | .pwd => pwdCmdFn c
  | .type => pure (FtpCommands.typeCmdFn c)
  | .syst => pure (FtpCommands.systCmdFn c)
  | .quit => pure (FtpCommands.quitCmdFn c)
  | .list => listCmdFn c
  | .nlist => nlistCmdFn c
  | .cwd => cwdCmdFn c
  | .cdup => cdupCmdFn c
  | .mkd => mkdCmdFn c
  | .rmd => rmdCmdFn c
  | .dele => deleCmdFn c
  | .size => sizeCmdFn c
  | .rest => pure (FtpCommands.restCmdFn c)
  | .retr => retrCmdFn c
  | .stor => storCmdFn c
  | .login => pure (FtpCommands.loginCmdFn c root)
  | .pass => pure (FtpCommands.passCmdFn c root)

/-- `ftp_session_cmd_process`. -/
def ftpSessionCmdProcess : Handler :=
  match findFn c.cmd with
  | none => done c c.session [notImplemented] 0
  | some fn => runFn c root fn

/-- The states of `ftp_proccess`. -/
def processCall : Handler :=
  match c.session.state with
  | .ok => do
    let r ← ftpSessionCmdProcess c root
    pure (r.map fun r => {r with ret := 0})
  | _ => pure (FtpCommands.processCall root c)

end Handlers

section Borrowing

variable {c : Call} {s t : Session}

/-- The command with a reply buffer free. -/
def buffered (c : Call) : Call := {c with outcomes := {c.outcomes with bufAlloc := true}}

/-- The session is the same. -/
theorem buffered_session : (buffered c).session=c.session := rfl

/-- A buffer is there. -/
theorem buffered_bufAlloc : (buffered c).outcomes.bufAlloc=true := rfl

/-- The directory opens as before. -/
theorem buffered_dirOpens : (buffered c).outcomes.dirOpens=c.outcomes.dirOpens := rfl

/-- The file system answers as before. -/
theorem buffered_callOk : (buffered c).outcomes.callOk=c.outcomes.callOk := rfl

/-- The data connection is taken as before. -/
theorem pasvAccept_buffered :
    pasvAccept (buffered c).session (buffered c).outcomes=pasvAccept c.session c.outcomes := rfl

/-- The end of a function does not need a buffer. -/
theorem borrows_done (s : Session) (replies : List Message) (ret : ℤ) :
    Borrows (done c s replies ret) (FtpCommands.replied c s replies ret) :=
  borrows_pure _

/-- A message is sent from one buffer. -/
theorem borrows_answer (message : Message) :
    Borrows (answer c s t message) (FtpCommands.replied c t [message] 0) :=
  borrows_alloc fun _ => rfl

/-- What a function on a path comes to. -/
theorem borrows_withPath {use : List Byte → Handler} {use' : List Byte → Except Fault Report}
    (h : ∀ path,Borrows (use path) (use' path)) :
    Borrows (withPath c s use) (FtpCommands.withPath (buffered c) s use') := by
  have hpath : FtpCommands.withPath (buffered c) s use'=filePath c s >>= fun built =>
      if built.2≠0 then FtpCommands.replied c s [] (-1) else use' (cString built.1) := by
    rw [filePath,bind_assoc]
    rfl
  rw [hpath,withPath]
  cases filePath c s with
  | error fault => exact borrows_pure _
  | ok built =>
    obtain ⟨buf,ret⟩ := built
    change Borrows (if ret≠0 then _ else _)
      (if ret≠0 then FtpCommands.replied c s [] (-1) else use' (cString buf))
    split
    · exact borrows_done _ _ _
    · exact h _

/-- `pasv_cmd_fn` borrows its buffer. -/
theorem borrows_pasvCmdFn : Borrows (pasvCmdFn c) (FtpCommands.pasvCmdFn (buffered c)) := by
  exact borrows_alloc fun _ => rfl

/-- Changing the current directory borrows a buffer for its answer. -/
theorem borrows_changeDir (path : List Byte) :
    Borrows (changeDir c path) (FtpCommands.changeDir (buffered c) path) := by
  rw [changeDir,FtpCommands.changeDir,buffered_session]
  cases buildPath c.session.currentdir path with
  | error fault => exact borrows_pure _
  | ok built =>
    obtain ⟨buf,ret⟩ := built
    change Borrows (if ret≠0 then _ else if ¬c.outcomes.dirOpens=true then _ else _)
      (if ret≠0 then FtpCommands.replied c _ [] (-1)
        else FtpCommands.replied c _ [if c.outcomes.dirOpens=true then _ else _] 0)
    split
    · exact borrows_done _ _ _
    · by_cases hopens : c.outcomes.dirOpens=true
      · rw [if_neg (not_not.mpr hopens),if_pos hopens]
        exact borrows_answer _
      · rw [if_pos hopens,if_neg hopens]
        exact borrows_answer _

/-- The commands that change a file borrow a buffer for their answer. -/
theorem borrows_changeFile (ok : Bool) (failed succeeded : String×String) :
    Borrows (changeFile c ok failed succeeded)
      (FtpCommands.changeFile (buffered c) ok failed succeeded) := by
  rw [changeFile,FtpCommands.changeFile,buffered_session]
  split
  · exact borrows_done _ _ _
  · exact borrows_withPath fun path => borrows_answer _

/-- `list_cmd_fn` borrows a buffer for its lines, or for its answer. -/
theorem borrows_listCmdFn : Borrows (listCmdFn c) (FtpCommands.listCmdFn (buffered c)) := by
  rw [listCmdFn,FtpCommands.listCmdFn,pasvAccept_buffered,buffered_dirOpens]
  dsimp only
  split
  · exact borrows_done _ _ _
  · split
    · exact borrows_answer _
    · exact borrows_alloc fun _ => rfl

/-- `nlist_cmd_fn` borrows a buffer for its answer only. -/
theorem borrows_nlistCmdFn : Borrows (nlistCmdFn c) (FtpCommands.nlistCmdFn (buffered c)) := by
  rw [nlistCmdFn,FtpCommands.nlistCmdFn,FtpCommands.listCmdFn,pasvAccept_buffered,
    buffered_dirOpens]
  dsimp only
  split
  · exact borrows_done _ _ _
  · split
    · exact borrows_answer _
    · exact borrows_done _ _ _

/-- `size_cmd_fn` borrows a buffer for its answer. -/
theorem borrows_sizeCmdFn : Borrows (sizeCmdFn c) (FtpCommands.sizeCmdFn (buffered c)) := by
  refine borrows_withPath fun path => ?_
  have hstat : (buffered c).outcomes.stat=c.outcomes.stat := rfl
  rw [hstat]
  cases c.outcomes.stat with
  | none => exact borrows_answer _
  | some entry =>
    obtain ⟨regular,size⟩ := entry
    cases regular with
    | false => exact borrows_answer _
    | true => exact borrows_answer _

/-- `retr_cmd_fn` borrows a buffer for the file, or for its answer. -/
theorem borrows_retrCmdFn : Borrows (retrCmdFn c) (FtpCommands.retrCmdFn (buffered c)) := by
  rw [retrCmdFn,FtpCommands.retrCmdFn]
  have hsize : (buffered c).outcomes.fileSize=c.outcomes.fileSize := rfl
  simp only [pasvAccept_buffered,buffered_callOk,hsize,buffered_bufAlloc,not_true_eq_false,
    if_false]
  split
  · exact borrows_done _ _ _
  · refine borrows_withPath fun path => ?_
    by_cases hopens : c.outcomes.callOk=true
    · by_cases hfile : c.outcomes.fileSize≤0
      · rw [if_neg (not_not.mpr hopens),if_pos hfile,if_pos (Or.inr hfile)]
        exact borrows_answer _
      · rw [if_neg (not_not.mpr hopens),if_neg hfile,if_neg (not_or.mpr ⟨not_not.mpr hopens,hfile⟩)]
        exact borrows_alloc fun _ => rfl
    · rw [if_pos hopens,if_pos (Or.inl hopens)]
      exact borrows_answer _

/-- `stor_cmd_fn` borrows a buffer for the file, or for its answer. -/
theorem borrows_storCmdFn : Borrows (storCmdFn c) (FtpCommands.storCmdFn (buffered c)) := by
  rw [storCmdFn,FtpCommands.storCmdFn]
  have haccept : pasvAccept (withOffset c.session 0) (buffered c).outcomes=
      pasvAccept (withOffset c.session 0) c.outcomes := rfl
  simp only [buffered_session,haccept,buffered_callOk,buffered_bufAlloc,not_true_eq_false,
    if_false]
  split
  · exact borrows_done _ _ _
  · split
    · exact borrows_done _ _ _
    · refine borrows_withPath fun path => ?_
      split
      · exact borrows_answer _
      · exact borrows_alloc fun _ => rfl

/-- Every function of the command table borrows from the pool. -/
theorem borrows_runFn (root : MountPoint) (fn : CmdFn) :
    Borrows (runFn c root fn) (FtpCommands.runFn root (buffered c) fn) := by
  cases fn with
  | port => exact borrows_pure _
  | pasv => exact borrows_pasvCmdFn
  | pwd => exact borrows_answer _
  | type => exact borrows_pure _
  | syst => exact borrows_pure _
  | quit => exact borrows_pure _
  | list => exact borrows_listCmdFn
  | nlist => exact borrows_nlistCmdFn
  | cwd =>
    change Borrows (cwdCmdFn c) (c.read >>= FtpCommands.changeDir (buffered c))
    rw [cwdCmdFn]
    cases c.read with
    | error fault => exact borrows_pure _
    | ok path => exact borrows_changeDir _
  | cdup => exact borrows_changeDir _
  | mkd => exact borrows_changeFile _ _ _
  | rmd => exact borrows_changeFile _ _ _
  | dele => exact borrows_changeFile _ _ _
  | size => exact borrows_sizeCmdFn
  | rest => exact borrows_pure _
  | retr => exact borrows_retrCmdFn
  | stor => exact borrows_storCmdFn
  | login => exact borrows_pure _
  | pass => exact borrows_pure _

/-- A command borrows from the pool, in every state of its session. -/
theorem borrows_processCall (root : MountPoint) :
    Borrows (processCall c root) (FtpCommands.processCall root (buffered c)) := by
  cases hstate : c.session.state with
  | ok =>
    have hold : FtpCommands.processCall root (buffered c)=
        (FtpCommands.ftpSessionCmdProcess root (buffered c)).map fun r => {r with ret := 0} := by
      rw [FtpCommands.processCall,buffered_session,hstate]
    rw [hold,processCall,hstate]
    refine Borrows.bind ?_ (borrows_pure _)
    rw [ftpSessionCmdProcess,FtpCommands.ftpSessionCmdProcess,show (buffered c).cmd=c.cmd from rfl]
    cases findFn c.cmd with
    | none => exact borrows_done _ _ _
    | some fn => exact borrows_runFn root fn
  | user =>
    have hold : FtpCommands.processCall root (buffered c)=FtpCommands.processCall root c := by
      rw [FtpCommands.processCall,FtpCommands.processCall,buffered_session,hstate]
      rfl
    rw [hold,processCall,hstate]
    exact borrows_pure _
  | passwd =>
    have hold : FtpCommands.processCall root (buffered c)=FtpCommands.processCall root c := by
      rw [FtpCommands.processCall,FtpCommands.processCall,buffered_session,hstate]
      rfl
    rw [hold,processCall,hstate]
    exact borrows_pure _

end Borrowing

section Runs

variable (root : MountPoint)

/-- The pool after a command. -/
def next (P : Pool (Fin 2)) (c : Call) : Pool (Fin 2) := (processCall c root P).2

/-- What a command comes to. -/
def report (P : Pool (Fin 2)) (c : Call) : Except Fault Report := (processCall c root P).1

/-- Between commands both blocks are free, after a sound past. -/
def Idle (P : Pool (Fin 2)) : Prop := P.free=ftpBufSlab.free ∧ Sound P.trace

/-- A command leaves the pool as it was, and comes to what it comes to with a
buffer free. -/
theorem idle_next {P : Pool (Fin 2)} (c : Call) (h : Idle P) :
    Idle (next root P c) ∧ report root P c=FtpCommands.processCall root (buffered c) := by
  obtain ⟨hreport,hfree,hsound⟩ := borrows_processCall (c := c) root P ⟨0,[some 1],h.1⟩
  exact ⟨⟨hfree.trans h.1,hsound h.2⟩,hreport⟩

/-- Nothing was handed out at the start. -/
theorem idle_start : Idle ftpBufSlab := ⟨rfl,sound_nil⟩

/-- In every sequence of commands no more than one buffer is out at any time, none
between commands, and none is given back that is not out; no allocation fails, and
every command comes to what it comes to with a buffer free. -/
theorem buffers_disciplined (calls : List Call) :
    Throughout (next root) (fun P => Sound P.trace) ftpBufSlab calls ∧
      outputs (next root) (report root) ftpBufSlab calls=
        calls.map fun c => FtpCommands.processCall root (buffered c) := by
  have hstep : ∀ P c,Idle P → Idle (next root P c) := fun P c h => (idle_next root c h).1
  constructor
  · refine (throughout_iff _ _).mpr fun pre _ => ?_
    exact (finalState_preserves hstep idle_start pre).2
  · exact outputs_of_invariant hstep (fun P c h => (idle_next root c h).2) idle_start calls

end Runs

end ZephyrApp.FtpBufferPool

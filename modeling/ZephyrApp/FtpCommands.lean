import ZephyrApp.DecimalText
import ZephyrApp.FtpBuffers
import ZephyrApp.FtpSession

/-!
# Commands of the FTP server in memory

Every function of the command table gets the command and its parameter as
positions in the one receive buffer; the parameter may be absent. A function
that reads an absent parameter, that does not find a separator, or that writes
past a buffer does not come back with a result. What each command needs of the
memory around it is told from the session and the command alone.
-/

namespace ZephyrApp.FtpCommands

open MachineBytes DecimalText FtpPath FtpBuffers
open FtpSession (Session Transfer FtpSessionState ascii userName userPawd anonymous pathBuf)

/-- What a command may do to memory that is not its own. -/
inductive Fault where
  /-- `data_buf` is indexed outside its bounds. -/
  | dataBuf
  /-- An absent parameter is read. -/
  | param
  /-- An absent separator is written to. -/
  | separator
  /-- A string is written past the end of its destination. -/
  | overrun
deriving DecidableEq

/-- A piece of a message on the control connection. -/
inductive Piece where
  /-- Fixed text. -/
  | text (text : String)
  /-- A string of the session. -/
  | bytes (bytes : List Byte)
  /-- A number. -/
  | number (n : ℤ)
deriving DecidableEq

/-- A message on the control connection. -/
abbrev Message := List Piece

/-- The outcomes of the calls that a command makes. -/
structure Outcomes where
  /-- A reply buffer is free. -/
  bufAlloc : Bool
  /-- What a reply buffer held before. -/
  oldReply : List Byte
  /-- What `socket` returns. -/
  socket : ℤ
  /-- `bind` succeeds. -/
  bound : Bool
  /-- `setsockopt` succeeds. -/
  tuned : Bool
  /-- `connect` succeeds. -/
  connects : Bool
  /-- `listen` succeeds. -/
  listens : Bool
  /-- The port of a listening socket, low and high byte as in memory. -/
  port : ℕ×ℕ
  /-- The address of the first Ethernet interface. -/
  ethernet : Option (ℕ×ℕ×ℕ×ℕ)
  /-- What `accept` returns. -/
  accepted : ℤ
  /-- The directory opens. -/
  dirOpens : Bool
  /-- The call that changes or opens a file succeeds. -/
  callOk : Bool
  /-- What `stat` finds: whether the file is regular, and its size. -/
  stat : Option (Bool×ℤ)
  /-- The size of an open file. -/
  fileSize : ℤ
  /-- The transfer is not aborted. -/
  transferred : Bool

/-- A command as its function gets it. -/
structure Call where
  /-- The session. -/
  session : Session
  /-- `data_buf`, the command at its start. -/
  data : List Byte
  /-- Where the parameter starts in `data_buf`, none for a null pointer. -/
  param : Option ℕ
  /-- The outcomes of the calls. -/
  outcomes : Outcomes

/-- What a command leaves and sends. -/
structure Report where
  /-- The session. -/
  session : Session
  /-- `data_buf`. -/
  data : List Byte
  /-- The messages sent on the control connection. -/
  replies : List Message
  /-- The returned code. -/
  ret : ℤ

/-- The directory after a login: `ROOT`, a constant string. -/
structure MountPoint where
  /-- Its characters. -/
  text : List Byte
  /-- None of them is a terminator. -/
  ne_zero : ∀ c∈text,c≠0
  /-- They fit a session's directory. -/
  fits : text.length < 256

/-- `strchr`: where a character first stands in a string. -/
def strchr (text : List Byte) (c : Byte) : Option ℕ :=
  if c∈text then some (text.takeWhile (·≠c)).length else none

section Calls

variable (c : Call)

/-- The command. -/
def Call.cmd : List Byte := cString c.data

/-- The characters that the parameter points to. -/
def Call.text : Option (List Byte) := c.param.map fun k => cString (c.data.drop k)

/-- The parameter as a function reads it. -/
def Call.read : Except Fault (List Byte) :=
  match c.text with
  | none => .error .param
  | some text => .ok text

/-- A parameter that is read is there. -/
theorem text_of_read {c : Call} {text : List Byte} (h : c.read=.ok text) : c.text=some text := by
  rw [Call.read] at h
  split at h
  · cases h
  · rename_i htext
    rw [htext,Except.ok.inj h]

/-- The end of a command. -/
def replied (s : Session) (replies : List Message) (ret : ℤ) : Except Fault Report :=
  .ok ⟨s,c.data,replies,ret⟩

/-- One message in a reply buffer. -/
def answer (s : Session) (message : Message) : Except Fault Report :=
  if c.outcomes.bufAlloc then replied c s [message] 0 else replied c s [] (-1)

/-- `build_full_path`. -/
def buildPath (buf path : List Byte) : Except Fault (List Byte×ℤ) :=
  match (joinBuf buf path).bind normalizeInPlace with
  | none => .error .overrun
  | some (buf,found) => .ok (buf,if found then 0 else -1)

/-- Where `build_full_path` needs no byte in front of its buffer, the command builds what it
builds. -/
theorem buildPath_of_buildFullPath {buf path out : List Byte} {ret : ℤ}
    (h : buildFullPath buf path=some (out,ret)) : buildPath buf path=.ok (out,ret) := by
  obtain ⟨joined,hjoin,hnorm⟩ := buildFullPath_joinBuf h
  have hret : ret=0 ∨ ret=-1 := by
    rw [buildFullPath_eq] at h
    obtain ⟨_,-,h⟩ := Option.bind_eq_some_iff.mp h
    obtain ⟨r,-,h⟩ := Option.bind_eq_some_iff.mp h
    split at h
    · exact Or.inl (Prod.mk.inj (Option.some.inj h)).2.symm
    · exact Or.inr (Prod.mk.inj (Option.some.inj h)).2.symm
  rw [buildPath,hjoin,Option.bind_some,hnorm]
  rcases hret with rfl | rfl
  · rfl
  · rfl

/-- A command on a path, which is built from the parameter in a copy of the
current directory. -/
def withPath (s : Session) (use : List Byte → Except Fault Report) : Except Fault Report := do
  let path ← c.read
  let (buf,ret) ← buildPath (pathBuf s) path
  if ret≠0 then replied c s [] (-1) else use (cString buf)

/-- `sprintf` of the mount point into the current directory. -/
def toRoot (root : MountPoint) (s : Session) : Except Fault Session :=
  match writeString s.currentdir 0 root.text with
  | none => .error .overrun
  | some buf => .ok {s with currentdir := buf}

end Calls

section Sockets

/-- `port_pasv_fd` of a session is set. -/
def withPort (s : Session) (d : ℤ) : Session :=
  {s with transfer := {s.transfer with portPasvFd := d}}

/-- `pasvs_fd` of a session is set. -/
def withPasvs (s : Session) (d : ℤ) : Session :=
  {s with transfer := {s.transfer with pasvsFd := d}}

/-- `offset` of a session is set. -/
def withOffset (s : Session) (offset : ℤ) : Session :=
  {s with transfer := {s.transfer with offset := offset}}

/-- Closing the listening socket, if there is one. -/
def closePasvs (s : Session) : Session :=
  if 0 < s.transfer.pasvsFd then withPasvs s (-1) else s

/-- Closing the data connection, and then the listening socket. -/
def closeData (s : Session) : Session := closePasvs (withPort s (-1))

/-- The same where there may be no data connection. -/
def closePort (s : Session) : Session :=
  if 0 ≤ s.transfer.portPasvFd then closeData s else s

/-- `pasv_accept`, called when there is a listening socket. -/
def pasvAccept (s : Session) (o : Outcomes) : Session :=
  if 0 < s.transfer.pasvsFd then withPort s o.accepted else s

end Sockets

section Functions

variable (c : Call)

/-- `502 Not Implemented.` -/
def notImplemented : Message := [.text "502 Not Implemented.\r\n"]

/-- `504 invalid parameter.` -/
def invalidParameter : Message := [.text "504 invalid parameter.\r\n"]

/-- `550 Permission denied.` -/
def permissionDenied : Message := [.text "550 Permission denied.\r\n"]

/-- `530 Login incorrect. Bye.` -/
def loginIncorrect : Message := [.text "530 Login incorrect. Bye.\r\n"]

/-- `331 Password required.` -/
def passwordRequired : Message := [.text "331 Password required.\r\n"]

/-- The answer to an anonymous user. -/
def anonymousOk : Message :=
  [.text "331 anonymous login OK send e-mail address for password.\r\n"]

/-- `230 User logged in` -/
def loggedIn : Message := [.text "230 User logged in\r\n"]

/-- `226 Transfert Complete.` -/
def transferComplete : Message := [.text "226 Transfert Complete.\r\n"]

/-- `426 Connection closed, transfer aborted.` -/
def transferAborted : Message := [.text "426 Connection closed, transfer aborted.\r\n"]

/-- The answer for a path that is no file to read. -/
def notRegular (path : List Byte) : Message :=
  [.text "550 \"",.bytes path,.text "\" : not a regular file\r\n"]

/-- The answer for a directory that does not open. -/
def cantOpen (path : List Byte) : Message :=
  [.text "550 directory \"",.bytes path,.text "\" can't open.\r\n"]

/-- The loop over the numbers of `PORT`: how many are read, of at most so many. -/
def portLoop : ℕ → Option (List Byte) → ℕ
  | 0,_ => 0
  | _+1,none => 0
  | n+1,some ptr =>
    let ptr := if ptr.head?=some 0x2C then ptr.tail else ptr
    let number := strtol ptr
    if number < 0 ∨ 255 < number then 0
    else 1+portLoop n (if (0x2C : Byte)∈ptr then some (ptr.dropWhile (·≠0x2C)) else none)

/-- `strchr` for `|` from an index on: where it is found. -/
def findBar (data : List Byte) (k : ℕ) : Option ℕ :=
  (strchr (cString (data.drop k)) 0x7C).map (k+·)

/-- The end of `port_cmd_fn`, which opens the data connection. -/
def openData (s : Session) : Except Fault Report :=
  let s := withPort s c.outcomes.socket
  if 0 ≤ c.outcomes.socket ∧ c.outcomes.bound ∧ c.outcomes.tuned ∧ c.outcomes.connects then
    replied c s [[.text "200 Port Command Successful.\r\n"]] 0
  else replied c (closePort s) [[.text "425 Can't open data connection.\r\n"]] 0

/-- `port_cmd_fn`. -/
def portCmdFn : Except Fault Report :=
  let s := closePort c.session
  if c.cmd=ascii ['P','O','R','T'] then
    if portLoop 6 c.text < 6 then replied c s [invalidParameter] 0 else openData c s
  else if c.cmd=ascii ['E','P','R','T'] then
    match c.param with
    | none => .error .param
    | some k =>
      if c.data[k+1]?≠some 0x31 then replied c s [[.text "425 Only support IPv4.\r\n"]] 0
      else
        match findBar c.data (k+3) with
        | none => .error .separator
        | some i =>
          let data := c.data.set i 0
          match findBar data (i+1) with
          | none => .error .separator
          | some j => openData {c with data := data.set j 0} s
  else openData c s

/-- `pasv_cmd_fn`. -/
def pasvCmdFn : Except Fault Report :=
  let o := c.outcomes
  if ¬o.bufAlloc then replied c c.session [] (-1)
  else
    let message : Message :=
      if o.socket < 0 then [.text "504 socket create error.\r\n"]
      else if ¬o.bound then [.text "504 socket bind error.\r\n"]
      else if ¬o.listens then [.text "504 socket listen error.\r\n"]
      else if c.cmd=ascii ['P','A','S','V'] then
        match o.ethernet with
        | none => [.bytes o.oldReply]
        | some (a,b,d,e) =>
          [.text "227 Entering Passive Mode (",.number a,.text ",",.number b,.text ",",.number d,
            .text ",",.number e,.text ",",.number o.port.1,.text ",",.number o.port.2,
            .text ").\r\n"]
      else if c.cmd=ascii ['E','P','S','V'] then
        [.text "229 Entering Extended Passive Mode (|||",.number (o.port.1*256+o.port.2),
          .text "|).\r\n"]
      else [.bytes o.oldReply]
    replied c (withPasvs c.session o.socket) [message] 0

/-- `pwd_cmd_fn`. -/
def pwdCmdFn : Except Fault Report :=
  answer c c.session
    [.text "257 \"",.bytes (cString c.session.currentdir),.text "\" is current directory.\r\n"]

/-- `type_cmd_fn`. -/
def typeCmdFn : Except Fault Report := do
  let text ← c.read
  let (type,message) : ℤ×Message :=
    if text=ascii ['I'] then (1,[.text "200 Type set to binary.\r\n"])
    else (0,[.text "200 Type set to ascii.\r\n"])
  replied c {c.session with transfer := {c.session.transfer with type := type}} [message] 0

/-- `syst_cmd_fn`. -/
def systCmdFn : Except Fault Report := replied c c.session [[.text "215 Zephyr RTOS\r\n"]] 0

/-- `quit_cmd_fn`. -/
def quitCmdFn : Except Fault Report := replied c c.session [[.text "221 Bye!\r\n"]] (-1)

/-- `list_cmd_fn`, with what it sends on the control connection. -/
def listCmdFn : Except Fault Report :=
  let s := pasvAccept c.session c.outcomes
  if s.transfer.portPasvFd < 0 then replied c s [notImplemented] 0
  else if ¬c.outcomes.dirOpens then answer c s (cantOpen (cString s.currentdir))
  else
    let opening : Message :=
      if s.transfer.type=1 then [.text "150 Opening binary mode connection for file list.\r\n"]
      else [.text "150 Opening ascii mode connection for file list.\r\n"]
    replied c (closeData s) [opening,transferComplete] 0

/-- `nlist_cmd_fn`, which differs in what it sends on the data connection. -/
def nlistCmdFn : Except Fault Report := listCmdFn c

/-- Changing the current directory to a path. -/
def changeDir (path : List Byte) : Except Fault Report := do
  let (buf,ret) ← buildPath c.session.currentdir path
  let s := {c.session with currentdir := buf}
  if ret≠0 then replied c s [] (-1)
  else
    answer c s (if c.outcomes.dirOpens then
      [.text "250 Changed to directory \"",.bytes (cString buf),.text "\"\r\n"]
      else cantOpen (cString buf))

/-- `cwd_cmd_fn`. -/
def cwdCmdFn : Except Fault Report := do
  let path ← c.read
  changeDir c path

/-- `cdup_cmd_fn`. -/
def cdupCmdFn : Except Fault Report := changeDir c [dot,dot]

/-- The commands that change the file system at a path, refused to anonymous
sessions, with their two answers. -/
def changeFile (done : Bool) (failed succeeded : String×String) : Except Fault Report :=
  if c.session.isAnonymous≠0 then replied c c.session [permissionDenied] 0
  else
    withPath c c.session fun path =>
      let message := if done then succeeded else failed
      answer c c.session [.text message.1,.bytes path,.text message.2]

/-- `mkd_cmd_fn`, with `ftp_create_dir` in place. -/
def mkdCmdFn : Except Fault Report :=
  changeFile c (c.outcomes.dirOpens || c.outcomes.callOk)
    ("550 directory \"","\" create error.\r\n") ("257 directory \"","\" successfully created.\r\n")

/-- `rmd_cmd_fn`. -/
def rmdCmdFn : Except Fault Report :=
  changeFile c c.outcomes.callOk
    ("550 directory \"","\" delete error.\r\n") ("257 directory \"","\" successfully deleted.\r\n")

/-- `dele_cmd_fn`. -/
def deleCmdFn : Except Fault Report :=
  changeFile c c.outcomes.callOk
    ("550 file \"","\" delete error.\r\n") ("250 file \"","\" successfully deleted.\r\n")

/-- `size_cmd_fn`. -/
def sizeCmdFn : Except Fault Report :=
  withPath c c.session fun path =>
    answer c c.session (match c.outcomes.stat with
      | some (true,size) => [.text "213 ",.number size,.text "\r\n"]
      | _ => notRegular path)

/-- `rest_cmd_fn`. -/
def restCmdFn : Except Fault Report := do
  let text ← c.read
  let offset := strtol text
  if offset < 0 then replied c (withOffset c.session 0) [invalidParameter] 0
  else
    replied c (withOffset c.session offset)
      [[.text "350 Send RETR or STOR to start transfert.\r\n"]] 0

/-- The announcement of a file that is sent. -/
def retrOpening (s : Session) (path : List Byte) : Message :=
  let size := c.outcomes.fileSize
  let bytes : Message :=
    if 0 < s.transfer.offset ∧ s.transfer.offset < size then
      [.number (size-s.transfer.offset),.text "/",.number size]
    else [.number size]
  [.text "150 Opening ",.text (if s.transfer.type=1 then "binary" else "ascii"),
    .text " mode data connection for \"",.bytes path,.text "\" ("]++bytes++[.text " bytes).\r\n"]

/-- `retr_cmd_fn`. -/
def retrCmdFn : Except Fault Report :=
  let s := pasvAccept c.session c.outcomes
  if s.transfer.portPasvFd < 0 then replied c (withOffset s 0) [notImplemented] 0
  else
    withPath c s fun path =>
      if ¬c.outcomes.bufAlloc then replied c s [] (-1)
      else if ¬c.outcomes.callOk ∨ c.outcomes.fileSize≤0 then
        replied c (withOffset s 0) [notRegular path] 0
      else
        replied c (withOffset (closeData s) 0) [retrOpening c s path,
          if c.outcomes.transferred then transferComplete else transferAborted] 0

/-- `stor_cmd_fn`. -/
def storCmdFn : Except Fault Report :=
  let s := withOffset c.session 0
  if s.isAnonymous≠0 then replied c s [permissionDenied] 0
  else
    let s := pasvAccept s c.outcomes
    if s.transfer.portPasvFd < 0 then replied c s [notImplemented] 0
    else
      withPath c s fun path =>
        if ¬c.outcomes.bufAlloc then replied c s [] (-1)
        else if ¬c.outcomes.callOk then
          replied c s [[.text "550 Cannot open \"",.bytes path,.text "\" for writing.\r\n"]] 0
        else
          replied c (closeData s)
            [[.text "150 Opening binary mode data connection for \"",.bytes path,.text "\".\r\n"],
              if c.outcomes.transferred then transferComplete else transferAborted] 0

variable (root : MountPoint)

/-- `login_cmd_fn`. -/
def loginCmdFn : Except Fault Report := do
  let text ← c.read
  if text=userName then
    replied c {c.session with isAnonymous := 0,state := .passwd} [passwordRequired] 0
  else if text=anonymous then
    let s ← toRoot root {c.session with isAnonymous := 1,state := .ok}
    replied c s [anonymousOk] 0
  else replied c c.session [loginIncorrect] (-1)

/-- `pass_cmd_fn`. -/
def passCmdFn : Except Fault Report := do
  let s ← toRoot root c.session
  replied c s [loggedIn] 0

end Functions

section Table

/-- The functions of the command table. -/
inductive CmdFn where
  /-- `port_cmd_fn`. -/
  | port
  /-- `pasv_cmd_fn`. -/
  | pasv
  /-- `pwd_cmd_fn`. -/
  | pwd
  /-- `type_cmd_fn`. -/
  | type
  /-- `syst_cmd_fn`. -/
  | syst
  /-- `quit_cmd_fn`. -/
  | quit
  /-- `list_cmd_fn`. -/
  | list
  /-- `nlist_cmd_fn`. -/
  | nlist
  /-- `cwd_cmd_fn`. -/
  | cwd
  /-- `cdup_cmd_fn`. -/
  | cdup
  /-- `mkd_cmd_fn`. -/
  | mkd
  /-- `rmd_cmd_fn`. -/
  | rmd
  /-- `dele_cmd_fn`. -/
  | dele
  /-- `size_cmd_fn`. -/
  | size
  /-- `rest_cmd_fn`. -/
  | rest
  /-- `retr_cmd_fn`. -/
  | retr
  /-- `stor_cmd_fn`. -/
  | stor
  /-- `login_cmd_fn`. -/
  | login
  /-- `pass_cmd_fn`. -/
  | pass
deriving DecidableEq

/-- `session_cmds`. -/
def sessionCmds : List (List Byte×CmdFn) :=
  [(ascii ['P','O','R','T'],.port),
    (ascii ['E','P','R','T'],.port),
    (ascii ['P','A','S','V'],.pasv),
    (ascii ['E','P','S','V'],.pasv),
    (ascii ['P','W','D'],.pwd),
    (ascii ['X','P','W','D'],.pwd),
    (ascii ['T','Y','P','E'],.type),
    (ascii ['S','Y','S','T'],.syst),
    (ascii ['Q','U','I','T'],.quit),
    (ascii ['L','I','S','T'],.list),
    (ascii ['N','L','S','T'],.nlist),
    (ascii ['C','W','D'],.cwd),
    (ascii ['C','D','U','P'],.cdup),
    (ascii ['M','K','D'],.mkd),
    (ascii ['R','M','D'],.rmd),
    (ascii ['D','E','L','E'],.dele),
    (ascii ['S','I','Z','E'],.size),
    (ascii ['R','E','S','T'],.rest),
    (ascii ['R','E','T','R'],.retr),
    (ascii ['S','T','O','R'],.stor),
    (ascii ['U','S','E','R'],.login),
    (ascii ['P','A','S','S'],.pass)]

/-- The first entry of the table whose name starts the command. -/
def findFn (cmd : List Byte) : Option CmdFn :=
  (sessionCmds.find? fun entry => entry.1.isPrefixOf cmd).map Prod.snd

variable (root : MountPoint) (c : Call)

/-- A function of the command table. -/
def runFn : CmdFn → Except Fault Report
  | .port => portCmdFn c
  | .pasv => pasvCmdFn c
  | .pwd => pwdCmdFn c
  | .type => typeCmdFn c
  | .syst => systCmdFn c
  | .quit => quitCmdFn c
  | .list => listCmdFn c
  | .nlist => nlistCmdFn c
  | .cwd => cwdCmdFn c
  | .cdup => cdupCmdFn c
  | .mkd => mkdCmdFn c
  | .rmd => rmdCmdFn c
  | .dele => deleCmdFn c
  | .size => sizeCmdFn c
  | .rest => restCmdFn c
  | .retr => retrCmdFn c
  | .stor => storCmdFn c
  | .login => loginCmdFn c root
  | .pass => passCmdFn c root

/-- `ftp_session_cmd_process`. -/
def ftpSessionCmdProcess : Except Fault Report :=
  match findFn c.cmd with
  | none => replied c c.session [notImplemented] 0
  | some fn => runFn root c fn

/-- A command starts with a name. -/
def Call.starts (name : List Char) : Bool := (ascii name).isPrefixOf c.cmd

/-- The states of `ftp_proccess`, once the line is split. -/
def processCall : Except Fault Report :=
  match c.session.state with
  | .user =>
    if ¬c.starts ['U','S','E','R'] then replied c c.session [notImplemented] 0
    else do
      let text ← c.read
      if text=anonymous then
        replied c {c.session with isAnonymous := 1,state := .ok} [anonymousOk] 0
      else if text=userName then
        replied c {c.session with isAnonymous := 0,state := .passwd} [passwordRequired] 0
      else replied c c.session [loginIncorrect] 0
  | .passwd =>
    if ¬c.starts ['P','A','S','S'] then replied c c.session [notImplemented] 0
    else do
      let accepted ← if c.session.isAnonymous≠0 then .ok true else do
        let text ← c.read
        .ok (decide (text=userPawd))
      if accepted then
        let cleared := List.replicate c.session.currentdir.length 0
        let s ← toRoot root {c.session with currentdir := cleared}
        replied c {s with state := .ok} [loggedIn] 0
      else replied c c.session [loginIncorrect] 0
  | .ok => (ftpSessionCmdProcess root c).map fun r => {r with ret := 0}

/-- The line at the start of `data_buf` split at its first blank. -/
def splitLine (s : Session) (data : List Byte) (o : Outcomes) : Call :=
  match strchr (cString data) 0x20 with
  | none => ⟨s,data,none,o⟩
  | some k => ⟨s,data.set k 0,some (k+1),o⟩

/-- `ftp_proccess`. -/
def ftpProccess (s : Session) (data : List Byte) (o : Outcomes) : Except Fault Report :=
  processCall root (splitLine s data o)

end Table

section Results

variable {P : Session → Prop} {c : Call} {s : Session}

/-- A command that comes back leaves a session with a property. -/
def Leaves (P : Session → Prop) (result : Except Fault Report) : Prop :=
  ∀ r,result=.ok r → P r.session

/-- A command that does not come back leaves nothing. -/
theorem leaves_error (fault : Fault) : Leaves P (.error fault) := fun r hr => by cases hr

/-- The end of a command leaves its session. -/
theorem leaves_replied (h : P s) (replies : List Message) (ret : ℤ) :
    Leaves P (replied c s replies ret) := by
  intro r hr
  obtain rfl := Except.ok.inj hr
  exact h

/-- So does an answer. -/
theorem leaves_answer (h : P s) (message : Message) : Leaves P (answer c s message) := by
  rw [answer]
  split
  · exact leaves_replied h _ _
  · exact leaves_replied h _ _

/-- What is left after two parts is left by the second one. -/
theorem leaves_bind {α : Type} {x : Except Fault α} {use : α → Except Fault Report}
    (h : ∀ a,x=.ok a → Leaves P (use a)) : Leaves P (x >>= use) := by
  cases x with
  | error fault => exact leaves_error fault
  | ok a => exact h a rfl

/-- A command on a path in a copy of the current directory leaves its session, or
what its use of the path leaves. -/
theorem leaves_withPath {use : List Byte → Except Fault Report} (h : P s)
    (huse : ∀ path,Leaves P (use path)) : Leaves P (withPath c s use) := by
  refine leaves_bind fun path _ => leaves_bind fun built _ => ?_
  dsimp only
  split
  · exact leaves_replied h _ _
  · exact huse _

/-- A command that only answers for its path leaves its session. -/
theorem leaves_changeFile (h : P c.session) (done : Bool) (failed succeeded : String×String) :
    Leaves P (changeFile c done failed succeeded) := by
  rw [changeFile]
  split
  · exact leaves_replied h _ _
  · exact leaves_withPath h fun path => leaves_answer h _

/-- A result that is passed on with another code leaves the same session. -/
theorem Leaves.map {x : Except Fault Report} (h : Leaves P x) (f : Report → Report)
    (hf : ∀ r,(f r).session=r.session) : Leaves P (x.map f) := by
  intro r hr
  cases x with
  | error fault => cases hr
  | ok r' =>
    obtain rfl := Except.ok.inj hr
    exact (hf r').symm▸h r' rfl

/-- A property of a session that its two sockets do not change. -/
def SocketFree (P : Session → Prop) : Prop :=
  ∀ s port pasvs,P s → P (withPasvs (withPort s port) pasvs)

/-- A property of a session that the fields of its transfers do not change. -/
def TransferFree (P : Session → Prop) : Prop := ∀ s transfer,P s → P {s with transfer := transfer}

/-- The sockets are two of those fields. -/
theorem TransferFree.socketFree (hP : TransferFree P) : SocketFree P := fun s port pasvs h =>
  hP s ⟨port,pasvs,s.transfer.offset,s.transfer.type⟩ h

/-- Another data connection keeps the property. -/
theorem SocketFree.withPort (hP : SocketFree P) (h : P s) (d : ℤ) : P (withPort s d) :=
  hP s d s.transfer.pasvsFd h

/-- So does another listening socket. -/
theorem SocketFree.withPasvs (hP : SocketFree P) (h : P s) (d : ℤ) : P (withPasvs s d) :=
  hP s s.transfer.portPasvFd d h

/-- Closing the data connection and the listening socket keeps the property. -/
theorem SocketFree.closeData (hP : SocketFree P) (h : P s) : P (closeData s) := by
  have hport := hP.withPort h (-1)
  rw [FtpCommands.closeData,closePasvs]
  split
  · exact hP.withPasvs hport _
  · exact hport

/-- Closing what is open keeps the property. -/
theorem SocketFree.closePort (hP : SocketFree P) (h : P s) : P (closePort s) := by
  rw [FtpCommands.closePort]
  split
  · exact hP.closeData h
  · exact h

/-- Accepting a data connection keeps the property. -/
theorem SocketFree.pasvAccept (hP : SocketFree P) (h : P s) (o : Outcomes) :
    P (pasvAccept s o) := by
  rw [FtpCommands.pasvAccept]
  split
  · exact hP.withPort h _
  · exact h

/-- Opening the data connection keeps the property. -/
theorem leaves_openData (hP : SocketFree P) (h : P s) : Leaves P (openData c s) := by
  have hport := hP.withPort h c.outcomes.socket
  rw [openData]
  split
  · exact leaves_replied hport _ _
  · exact leaves_replied (hP.closePort hport) _ _

/-- `port_cmd_fn` keeps it. -/
theorem leaves_portCmdFn (hP : SocketFree P) (h : P c.session) : Leaves P (portCmdFn c) := by
  have hclosed := hP.closePort h
  rw [portCmdFn]
  split_ifs
  · exact leaves_replied hclosed _ _
  · exact leaves_openData hP hclosed
  · split
    · exact leaves_error _
    · split
      · exact leaves_replied hclosed _ _
      · split
        · exact leaves_error _
        · dsimp only
          split
          · exact leaves_error _
          · exact leaves_openData hP hclosed
  · exact leaves_openData hP hclosed

/-- `pasv_cmd_fn` keeps it. -/
theorem leaves_pasvCmdFn (hP : SocketFree P) (h : P c.session) : Leaves P (pasvCmdFn c) := by
  rw [pasvCmdFn]
  split
  · exact leaves_replied h _ _
  · exact leaves_replied (hP.withPasvs h _) _ _

/-- `list_cmd_fn` keeps it. -/
theorem leaves_listCmdFn (hP : SocketFree P) (h : P c.session) : Leaves P (listCmdFn c) := by
  have haccepted := hP.pasvAccept h c.outcomes
  rw [listCmdFn]
  split
  · exact leaves_replied haccepted _ _
  · split
    · exact leaves_answer haccepted _
    · exact leaves_replied (hP.closeData haccepted) _ _

/-- `retr_cmd_fn` keeps what no field of a transfer changes. -/
theorem leaves_retrCmdFn (hP : TransferFree P) (h : P c.session) : Leaves P (retrCmdFn c) := by
  have hoffset : ∀ {t},P t → P (withOffset t 0) := fun ht => hP _ _ ht
  have haccepted := hP.socketFree.pasvAccept h c.outcomes
  rw [retrCmdFn]
  split
  · exact leaves_replied (hoffset haccepted) _ _
  · refine leaves_withPath haccepted fun path => ?_
    split
    · exact leaves_replied haccepted _ _
    · split
      · exact leaves_replied (hoffset haccepted) _ _
      · exact leaves_replied (hoffset (hP.socketFree.closeData haccepted)) _ _

/-- So does `stor_cmd_fn`. -/
theorem leaves_storCmdFn (hP : TransferFree P) (h : P c.session) : Leaves P (storCmdFn c) := by
  have hoffset : P (withOffset c.session 0) := hP _ _ h
  have haccepted := hP.socketFree.pasvAccept hoffset c.outcomes
  rw [storCmdFn]
  split
  · exact leaves_replied hoffset _ _
  · dsimp only
    split
    · exact leaves_replied haccepted _ _
    · refine leaves_withPath haccepted fun path => ?_
      split
      · exact leaves_replied haccepted _ _
      · split
        · exact leaves_replied haccepted _ _
        · exact leaves_replied (hP.socketFree.closeData haccepted) _ _

/-- The functions of the table that change neither the directory nor the login keep
what no field of a transfer changes. -/
theorem leaves_runFn_transfer {root : MountPoint} {fn : CmdFn} (hP : TransferFree P)
    (h : P c.session) (hfn : fn∉[CmdFn.cwd,.cdup,.login,.pass]) :
    Leaves P (runFn root c fn) := by
  cases fn with
  | cwd | cdup | login | pass => exact absurd (by decide) hfn
  | port => exact leaves_portCmdFn hP.socketFree h
  | pasv => exact leaves_pasvCmdFn hP.socketFree h
  | pwd => exact leaves_answer h _
  | type => exact leaves_bind fun text _ => leaves_replied (hP _ _ h) _ _
  | syst => exact leaves_replied h _ _
  | quit => exact leaves_replied h _ _
  | list | nlist => exact leaves_listCmdFn hP.socketFree h
  | mkd => exact leaves_changeFile h _ _ _
  | rmd => exact leaves_changeFile h _ _ _
  | dele => exact leaves_changeFile h _ _ _
  | size =>
    rw [runFn,sizeCmdFn]
    exact leaves_withPath h fun path => leaves_answer h _
  | rest =>
    refine leaves_bind fun text _ => ?_
    dsimp only
    split
    · exact leaves_replied (hP _ _ h) _ _
    · exact leaves_replied (hP _ _ h) _ _
  | retr => exact leaves_retrCmdFn hP h
  | stor => exact leaves_storCmdFn hP h

end Results

end ZephyrApp.FtpCommands

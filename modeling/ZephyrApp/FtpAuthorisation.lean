import ZephyrApp.FtpMemory

/-!
# Who may change files over FTP

The lines of a connection are kept beside the server's memory. A session that is
logged in and not anonymous has been given the password after the last line that
named its user, and the commands on files ask for such a session. A path that is
joined to a directory that fills its buffer goes into the next session, which may
then be taken for free with the login of its owner.
-/

namespace ZephyrApp.FtpAuthorisation

open EventRuns MachineBytes FtpPath FtpCommands FtpNeeds FtpMemory
open FtpServer hiding start next
open FtpSession (Session UserAdmin Password PasswordGiven UserNamed Starts lineCmd lineParam ascii
  userName userPawd anonymous pathBuf passwordGiven_append takenSlot takenSlot_free
  ftpSessionReset)

section Files

/-- A call of the file system. -/
inductive FsCall where
  /-- `opendir`. -/
  | opendir (path : List Byte)
  /-- `mkdir`. -/
  | mkdir (path : List Byte)
  /-- `unlink`. -/
  | unlink (path : List Byte)
  /-- `open` that creates and truncates. -/
  | create (path : List Byte)
deriving DecidableEq

/-- A command with the calls it makes on the file system. -/
structure Traced where
  /-- What it leaves. -/
  result : Except Fault Report
  /-- The calls, in order. -/
  calls : List FsCall

variable (root : MountPoint) (c : Call)

/-- A command on a path, with its calls. -/
def withPathTraced (s : Session) (use : List Byte → Traced) : Traced :=
  match c.read with
  | .error fault => ⟨.error fault,[]⟩
  | .ok path =>
    match buildPath (pathBuf s) path with
    | .error fault => ⟨.error fault,[]⟩
    | .ok (buf,ret) => if ret≠0 then ⟨replied c s [] (-1),[]⟩ else use (cString buf)

/-- The commands that change the file system at a path, with their calls: they are
made once a reply buffer is there. -/
def changeFileTraced (calls : List Byte → List FsCall) (done : Bool)
    (failed succeeded : String×String) : Traced :=
  if c.session.isAnonymous≠0 then ⟨replied c c.session [permissionDenied] 0,[]⟩
  else
    withPathTraced c c.session fun path =>
      let message := if done then succeeded else failed
      ⟨answer c c.session [.text message.1,.bytes path,.text message.2],
        if c.outcomes.bufAlloc then calls path else []⟩

/-- `mkd_cmd_fn`, with `ftp_create_dir` in place. -/
def mkdTraced : Traced :=
  changeFileTraced c (fun path => .opendir path::if c.outcomes.dirOpens then [] else [.mkdir path])
    (c.outcomes.dirOpens || c.outcomes.callOk)
    ("550 directory \"","\" create error.\r\n") ("257 directory \"","\" successfully created.\r\n")

/-- `rmd_cmd_fn`. -/
def rmdTraced : Traced :=
  changeFileTraced c (fun path => [.unlink path]) c.outcomes.callOk
    ("550 directory \"","\" delete error.\r\n") ("257 directory \"","\" successfully deleted.\r\n")

/-- `dele_cmd_fn`. -/
def deleTraced : Traced :=
  changeFileTraced c (fun path => [.unlink path]) c.outcomes.callOk
    ("550 file \"","\" delete error.\r\n") ("250 file \"","\" successfully deleted.\r\n")

/-- `stor_cmd_fn`, which opens the file before it takes a reply buffer. -/
def storTraced : Traced :=
  let s := withOffset c.session 0
  if s.isAnonymous≠0 then ⟨replied c s [permissionDenied] 0,[]⟩
  else
    let s := pasvAccept s c.outcomes
    if s.transfer.portPasvFd < 0 then ⟨replied c s [notImplemented] 0,[]⟩
    else
      withPathTraced c s fun path =>
        ⟨if ¬c.outcomes.bufAlloc then replied c s [] (-1)
          else if ¬c.outcomes.callOk then
            replied c s [[.text "550 Cannot open \"",.bytes path,.text "\" for writing.\r\n"]] 0
          else
            replied c (closeData s)
              [[.text "150 Opening binary mode data connection for \"",.bytes path,
                .text "\".\r\n"],
                if c.outcomes.transferred then transferComplete else transferAborted] 0,
          [.create path]⟩

/-- A function of the command table with its calls; of the others than the four on
files none is listed. -/
def traced : CmdFn → Traced
  | .mkd => mkdTraced c
  | .rmd => rmdTraced c
  | .dele => deleTraced c
  | .stor => storTraced c
  | fn => ⟨runFn root c fn,[]⟩

/-- The calls that the commands on files make for a line. -/
def fileCalls : List FsCall :=
  if c.session.state=.ok then
    match findFn c.cmd with
    | none => []
    | some fn => (traced root c fn).calls
  else []

variable {c}

/-- A command on a path leaves the same with its calls. -/
theorem withPathTraced_result {s : Session} {use : List Byte → Traced}
    {use' : List Byte → Except Fault Report} (h : ∀ path,(use path).result=use' path) :
    (withPathTraced c s use).result=withPath c s use' := by
  rw [withPathTraced,withPath]
  cases c.read with
  | error fault => rfl
  | ok path =>
    dsimp only
    change _=buildPath (pathBuf s) path >>= _
    cases buildPath (pathBuf s) path with
    | error fault => rfl
    | ok built =>
      dsimp only
      change _=if built.2≠0 then replied c s [] (-1) else use' (cString built.1)
      split
      · rfl
      · exact h _

/-- A command that changes a file leaves the same with its calls. -/
theorem changeFileTraced_result (calls : List Byte → List FsCall) (done : Bool)
    (failed succeeded : String×String) :
    (changeFileTraced c calls done failed succeeded).result=
      changeFile c done failed succeeded := by
  rw [changeFileTraced,changeFile]
  split
  · rfl
  · exact withPathTraced_result fun path => rfl

/-- Every function of the table leaves the same with its calls. -/
theorem traced_result (fn : CmdFn) : (traced root c fn).result=runFn root c fn := by
  cases fn with
  | mkd => exact changeFileTraced_result _ _ _ _
  | rmd => exact changeFileTraced_result _ _ _ _
  | dele => exact changeFileTraced_result _ _ _ _
  | stor =>
    rw [traced,storTraced,runFn,storCmdFn]
    split
    · rfl
    · dsimp only
      split
      · rfl
      · exact withPathTraced_result fun path => rfl
  | _ => rfl

/-- A command that changes a file makes calls for no anonymous session. -/
theorem changeFileTraced_calls {calls : List Byte → List FsCall} {done : Bool}
    {failed succeeded : String×String} {call : FsCall}
    (h : call∈(changeFileTraced c calls done failed succeeded).calls) :
    c.session.isAnonymous=0 := by
  rw [changeFileTraced] at h
  split at h
  · exact absurd h List.not_mem_nil
  · rename_i hanon
    exact not_not.mp hanon

/-- The commands on files make calls in logged-in sessions only, and in no
anonymous one. -/
theorem fileCalls_guarded {call : FsCall} (h : call∈fileCalls root c) :
    c.session.state=.ok ∧ c.session.isAnonymous=0 := by
  rw [fileCalls] at h
  split at h
  · rename_i hstate
    refine ⟨hstate,?_⟩
    cases hfind : findFn c.cmd with
    | none =>
      rw [hfind] at h
      exact absurd h List.not_mem_nil
    | some fn =>
      rw [hfind] at h
      cases fn with
      | mkd => exact changeFileTraced_calls h
      | rmd => exact changeFileTraced_calls h
      | dele => exact changeFileTraced_calls h
      | stor =>
        dsimp only [traced] at h
        rw [storTraced] at h
        split at h
        · exact absurd h List.not_mem_nil
        · rename_i hanon
          exact not_not.mp hanon
      | _ => exact absurd h List.not_mem_nil
  · exact absurd h List.not_mem_nil

end Files

section Login

variable {root : MountPoint} {c : Call} {s t : Session} {line : List Byte} {fn : CmdFn}

/-- The parts of a session that only the login changes. -/
def SameLogin (s t : Session) : Prop := t.state=s.state ∧ t.isAnonymous=s.isAnonymous ∧ t.fd=s.fd

/-- A session has its own login. -/
theorem SameLogin.refl (s : Session) : SameLogin s s := ⟨rfl,rfl,rfl⟩

/-- The transfers do not change the login. -/
theorem sameLogin_transferFree (s : Session) : TransferFree (SameLogin s) := fun _ _ h => h

/-- Changing the directory keeps the login. -/
theorem sameLogin_changeDir (path : List Byte) :
    Leaves (SameLogin c.session) (changeDir c path) := by
  refine leaves_bind fun built _ => ?_
  have hbuilt : SameLogin c.session {c.session with currentdir := built.1} := SameLogin.refl _
  dsimp only
  split
  · exact leaves_replied hbuilt _ _
  · exact leaves_answer hbuilt _

/-- A session at the mount point has the login it had. -/
theorem toRoot_sameLogin (h : toRoot root s=.ok t) : SameLogin s t := by
  rw [toRoot] at h
  split at h
  · cases h
  · obtain rfl := Except.ok.inj h
    exact SameLogin.refl s

/-- Every function of the table but the login keeps the login. -/
theorem sameLogin_runFn (hfn : fn≠.login) : Leaves (SameLogin c.session) (runFn root c fn) := by
  have hsame := SameLogin.refl c.session
  by_cases hown : fn∈[CmdFn.cwd,.cdup,.login,.pass]
  · simp only [List.mem_cons,List.not_mem_nil,or_false] at hown
    rcases hown with rfl | rfl | rfl | rfl
    · exact leaves_bind fun path _ => sameLogin_changeDir path
    · exact sameLogin_changeDir _
    · exact absurd rfl hfn
    · exact leaves_bind fun t ht => leaves_replied (toRoot_sameLogin ht) _ _
  · exact leaves_runFn_transfer (sameLogin_transferFree _) hsame hown

/-- A line is split into this command. -/
structure SplitOf (line : List Byte) (c : Call) : Prop where
  /-- The command is what stands before the first blank. -/
  cmd : c.cmd=lineCmd line
  /-- The parameter is what stands behind it. -/
  text : c.text=lineParam line

/-- A command starts with a name as its line does. -/
theorem SplitOf.starts (h : SplitOf line c) (name : List Char) :
    c.starts name=true ↔ Starts name line := by
  rw [Call.starts,h.cmd,Starts]

/-- The table finds the login function for exactly the commands that start with `USER`. -/
theorem findFn_login_iff : findFn (lineCmd line)=some .login ↔ Starts ['U','S','E','R'] line := by
  rw [Starts]
  constructor
  · intro h
    rw [findFn,Option.map_eq_some_iff] at h
    obtain ⟨entry,hfind,hlogin⟩ := h
    have hname : ∀ e∈sessionCmds,e.2=.login → e.1=ascii ['U','S','E','R'] := by decide
    have hpre := List.find?_some hfind
    rwa [hname entry (List.mem_of_find?_eq_some hfind) hlogin] at hpre
  · intro h
    obtain ⟨rest,hrest⟩ := List.isPrefixOf_iff_prefix.mp h
    rw [←hrest]
    simp [findFn,sessionCmds,ascii]

/-- What a line leaves of a session that waits for its user: the session, or an
anonymous login, or the user is named. -/
theorem leaves_user (h : c.session.state=.user) (hline : SplitOf line c) :
    Leaves (fun t => t=c.session ∨ t={c.session with isAnonymous := 1,state := .ok} ∨
      t={c.session with isAnonymous := 0,state := .passwd} ∧ UserAdmin line)
      (processCall root c) := by
  rw [processCall,h]
  dsimp only
  split
  · exact leaves_replied (Or.inl rfl) _ _
  · rename_i hstarts
    have huser := (hline.starts _).mp (not_not.mp hstarts)
    refine leaves_bind fun text htext => ?_
    split
    · exact leaves_replied (Or.inr (Or.inl rfl)) _ _
    · split
      · rename_i hadmin
        refine leaves_replied (Or.inr (Or.inr ⟨rfl,huser,?_⟩)) _ _
        rw [←hline.text,text_of_read htext,hadmin]
      · exact leaves_replied (Or.inl rfl) _ _

/-- A login that is completed at the mount point. -/
theorem leaves_loginDone {dir : List Byte} {replies : List Message} {ret : ℤ}
    (h : c.session.isAnonymous≠0 ∨ Password line) :
    Leaves (fun t => t=c.session ∨ (t.state=.ok ∧ t.isAnonymous=c.session.isAnonymous ∧
      t.fd=c.session.fd) ∧ (c.session.isAnonymous≠0 ∨ Password line))
      (toRoot root {c.session with currentdir := dir} >>= fun s =>
        replied c {s with state := .ok} replies ret) := by
  refine leaves_bind fun t ht => ?_
  obtain ⟨-,hanon,hfd⟩ := toRoot_sameLogin ht
  exact leaves_replied (Or.inr ⟨⟨rfl,hanon,hfd⟩,h⟩) _ _

/-- What a line leaves of a session that waits for a password: the session, or it is
logged in, with the password unless it is anonymous. -/
theorem leaves_passwd (h : c.session.state=.passwd) (hline : SplitOf line c) :
    Leaves (fun t => t=c.session ∨ (t.state=.ok ∧ t.isAnonymous=c.session.isAnonymous ∧
      t.fd=c.session.fd) ∧ (c.session.isAnonymous≠0 ∨ Password line)) (processCall root c) := by
  rw [processCall,h]
  dsimp only
  split
  · exact leaves_replied (Or.inl rfl) _ _
  · rename_i hstarts
    have hpass := (hline.starts _).mp (not_not.mp hstarts)
    split
    · rename_i hanon
      refine leaves_bind fun accepted haccepted => ?_
      rw [if_pos (Except.ok.inj haccepted).symm]
      exact leaves_loginDone (Or.inl hanon)
    · refine leaves_bind fun text htext => leaves_bind fun accepted haccepted => ?_
      rw [←Except.ok.inj haccepted]
      split
      · rename_i hequal
        refine leaves_loginDone (Or.inr ⟨hpass,?_⟩)
        rw [←hline.text,text_of_read htext,of_decide_eq_true hequal]
      · exact leaves_replied (Or.inl rfl) _ _

/-- What a line leaves of a session that is logged in: the same login, or the line
is a `USER` line that names the user or turns the session anonymous. -/
theorem leaves_loggedIn (h : c.session.state=.ok) (hline : SplitOf line c) :
    Leaves (fun t => SameLogin c.session t ∧ ¬UserAdmin line ∨
      ((t.state=.passwd ∧ t.isAnonymous=0 ∧ t.fd=c.session.fd) ∧ UserAdmin line) ∨
      (t.isAnonymous=1 ∧ t.state=.ok ∧ t.fd=c.session.fd)) (processCall root c) := by
  rw [processCall,h]
  dsimp only
  refine Leaves.map ?_ _ fun _ => rfl
  rw [ftpSessionCmdProcess,hline.cmd]
  cases hfind : findFn (lineCmd line) with
  | none =>
    refine leaves_replied (Or.inl ⟨SameLogin.refl _,fun hu => ?_⟩) _ _
    rw [findFn_login_iff.mpr hu.1] at hfind
    cases hfind
  | some fn =>
    by_cases hfn : fn=.login
    · subst hfn
      have hstarts := findFn_login_iff.mp hfind
      refine leaves_bind fun text htext => ?_
      have hparam : lineParam line=some text := hline.text.symm.trans (text_of_read htext)
      split
      · rename_i hadmin
        exact leaves_replied (Or.inr (Or.inl ⟨⟨rfl,rfl,rfl⟩,hstarts,by rw [hparam,hadmin]⟩)) _ _
      · rename_i hadmin
        split
        · refine leaves_bind fun t ht => ?_
          obtain ⟨hstate,hanon,hfd⟩ := toRoot_sameLogin ht
          exact leaves_replied (Or.inr (Or.inr ⟨hanon,hstate,hfd⟩)) _ _
        · refine leaves_replied (Or.inl ⟨SameLogin.refl _,fun hu => hadmin ?_⟩) _ _
          exact Option.some.inj (hparam.symm.trans hu.2)
    · intro r hr
      refine Or.inl ⟨sameLogin_runFn hfn r hr,fun hu => hfn ?_⟩
      exact Option.some.inj (hfind.symm.trans (findFn_login_iff.mpr hu.1))

end Login

section Runs

/-- The server with the lines of the connection that each slot holds. -/
structure Tracked where
  /-- The server. -/
  world : World
  /-- The lines received on a slot since its connection was accepted. -/
  lines : Fin 4 → List (List Byte)

/-- The server at start, without lines. -/
def start (beyond : List Byte) : Tracked := ⟨FtpMemory.start beyond,fun _ => []⟩

/-- The line that a result of `recv` is taken for. -/
def lineOf (data : List Byte) (r : Received) : List Byte :=
  cString ((r.fill data).set (r.rc-2).toNat 0)

/-- The lines of the connections after an event. -/
def linesNext (m : Memory) (lines : Fin 4 → List (List Byte)) : Event → Fin 4 → List (List Byte)
  | .accept client =>
    match takenSlot m.server.slots client with
    | none => lines
    | some i => Function.update lines i []
  | .recv i r _ =>
    if 0 < (m.server.slots i).fd then
      Function.update lines i (lines i++[lineOf m.server.dataBuf r])
    else lines
  | .release i =>
    if 0 < (m.server.slots i).fd then Function.update lines i [] else lines

/-- The server and the lines after an event. -/
def next (root : MountPoint) (t : Tracked) (e : Timed) : Tracked :=
  match t.world with
  | .live m => ⟨nextMemory root m e,linesNext m t.lines e.event⟩
  | .broken fault => ⟨.broken fault,t.lines⟩

/-- A logged-in session that is not anonymous has given the password. -/
def Authorised (t : Tracked) : Prop :=
  match t.world with
  | .live m => ∀ i,(m.server.slots i).state=.ok → (m.server.slots i).isAnonymous=0 →
    PasswordGiven (t.lines i)
  | .broken _ => True

/-- The commands on files make their calls in a session that has given the password. -/
def Guarded (root : MountPoint) (t : Tracked) (e : Timed) : Prop :=
  match t.world,e.event with
  | .live m,.recv i r o => 0 < (m.server.slots i).fd → (m.margins i).odd=none →
    fileCalls root (callOf (m.server.slots i) m.server.dataBuf r o)≠[] →
      (m.server.slots i).state=.ok ∧ (m.server.slots i).isAnonymous=0 ∧ PasswordGiven (t.lines i)
  | _,_ => True

/-- No command joins a relative path to a directory that fills its buffer. -/
def HasRoom (t : Tracked) (e : Timed) : Prop :=
  match t.world with
  | .live m => FtpDirectory.HasRoom (.live m.server) e.event
  | .broken _ => True

/-- What the server keeps of a slot and its lines: a free slot waits for a user, a
session that waits for a password has been named its user, and one that is logged
in has given the password or is anonymous. -/
structure SlotInv (s : Session) (lines : List (List Byte)) : Prop where
  /-- A free slot is as after a reset. -/
  free : s.fd=0 → s.state=.user
  /-- The user is named before the password. -/
  passwd : s.state=.passwd → s.isAnonymous=0 ∧ UserNamed lines
  /-- The password is given after the user is named. -/
  ok : s.state=.ok → s.isAnonymous=0 → PasswordGiven lines

/-- While the server runs, every directory is a string in its buffer, every state is
one of the enumeration and every slot keeps its invariant. -/
structure Orderly (m : Memory) (lines : Fin 4 → List (List Byte)) : Prop where
  /-- The directories and the receive buffer. -/
  sound : Sound m.server
  /-- The states. -/
  even : ∀ i,(m.margins i).odd=none
  /-- The slots. -/
  slots : ∀ i,SlotInv (m.server.slots i) (lines i)

/-- The same, if the server runs. -/
def Keeps (t : Tracked) : Prop :=
  match t.world with
  | .live m => Orderly m t.lines
  | .broken _ => True

variable {root : MountPoint} {m : Memory} {lines : Fin 4 → List (List Byte)} {s : Session}

/-- A line keeps the invariant of its slot. -/
theorem SlotInv.line {c : Call} {line : List Byte} {lines : List (List Byte)}
    (hs : SlotInv c.session lines) (hfd : 0 < c.session.fd) (hline : SplitOf line c) :
    Leaves (fun t => SlotInv t (lines++[line])) (processCall root c) := by
  have hnamed : UserNamed lines → UserNamed (lines++[line]) := by
    rintro ⟨l,hl,hu⟩
    exact ⟨l,List.mem_append_left _ hl,hu⟩
  have hnew : UserAdmin line → UserNamed (lines++[line]) := fun hu => ⟨line,by simp,hu⟩
  have hfree : ∀ t : Session,t.fd=c.session.fd → t.fd=0 → t.state=.user :=
    fun t ht h0 => by omega
  intro r hr
  cases hstate : c.session.state with
  | user =>
    rcases leaves_user hstate hline r hr with h | h | ⟨h,hu⟩
    · rw [h]
      constructor <;> simp [hstate]
    · rw [h]
      exact ⟨hfree _ rfl,by simp,by simp⟩
    · rw [h]
      exact ⟨hfree _ rfl,fun _ => ⟨rfl,hnew hu⟩,by simp⟩
  | passwd =>
    obtain ⟨hanon,huser⟩ := hs.passwd hstate
    rcases leaves_passwd hstate hline r hr with h | ⟨⟨hok,-,hfd'⟩,hpass⟩
    · rw [h]
      exact ⟨hfree _ rfl,fun _ => ⟨hanon,hnamed huser⟩,by simp [hstate]⟩
    · refine ⟨hfree _ hfd',by simp [hok],fun _ _ => ?_⟩
      exact passwordGiven_append huser (hpass.resolve_left (not_not_intro hanon))
  | ok =>
    rcases leaves_loggedIn hstate hline r hr with ⟨⟨hst,han,hfd'⟩,hu⟩ |
      ⟨⟨hst,han,hfd'⟩,hu⟩ | ⟨han,hst,hfd'⟩
    · refine ⟨hfree _ hfd',by simp [hst,hstate],fun _ h0 => ?_⟩
      exact (hs.ok hstate (han.symm.trans h0)).append hu
    · exact ⟨hfree _ hfd',fun _ => ⟨han,hnew hu⟩,by simp [hst]⟩
    · exact ⟨hfree _ hfd',by simp [hst],by simp [han]⟩

/-- A new connection in a free slot starts with the invariant. -/
theorem SlotInv.accept {lines : List (List Byte)} (hs : SlotInv s lines) (hfd : s.fd=0)
    (client : ℤ) (transfer : FtpSession.Transfer) :
    SlotInv {s with fd := client,transfer := transfer} [] := by
  have huser := hs.free hfd
  constructor <;> simp [huser]

/-- A result of `recv` becomes the command of its line. -/
theorem splitOf_callOf (s : Session) (data : List Byte) (r : Received) (o : Outcomes) :
    SplitOf (lineOf data r) (callOf s data r o) :=
  ⟨(splitLine_line (o := o)).1,(splitLine_line (o := o)).2⟩

/-- An event keeps the rest of each session in order. -/
theorem marginsNext_odd (h : ∀ i,(m.margins i).odd=none) (now : BitVec 64) (e : Event)
    (i : Fin 4) : (marginsNext m now e i).odd=none := by
  have hupdate : ∀ (j : Fin 4) (margin : Margin),margin.odd=none →
      (Function.update m.margins j margin i).odd=none := by
    intro j margin hmargin
    by_cases hij : i=j
    · rw [hij,Function.update_self]
      exact hmargin
    · rw [Function.update_of_ne hij]
      exact h i
  cases e with
  | accept client =>
    rw [marginsNext]
    cases takenSlot m.server.slots client with
    | none => exact h i
    | some j => exact hupdate _ _ (h j)
  | recv j r o =>
    rw [marginsNext]
    split
    · exact hupdate _ _ (h j)
    · exact h i
  | release j =>
    rw [marginsNext]
    split
    · exact hupdate _ _ rfl
    · exact h i

/-- An event that is not about a slot keeps its lines. -/
theorem linesNext_kept {e : Event} {i : Fin 4} (hother : ¬Concerns m.server i e) :
    linesNext m lines e i=lines i := by
  cases e with
  | accept client =>
    rw [linesNext]
    cases htaken : takenSlot m.server.slots client with
    | none => rfl
    | some j =>
      refine Function.update_of_ne (fun hij => hother ?_) _ _
      rw [Concerns,hij]
      exact htaken
  | recv j r o =>
    rw [linesNext]
    split
    · rename_i hfd
      exact Function.update_of_ne (fun hij => hother ⟨hij.symm,hfd⟩) _ _
    · rfl
  | release j =>
    rw [linesNext]
    split
    · rename_i hfd
      exact Function.update_of_ne (fun hij => hother ⟨hij.symm,hfd⟩) _ _
    · rfl

/-- An event that does not end the run keeps the invariant of every slot. -/
theorem slotInv_nextLive {f' : FtpServer.Ftpd} {e : Event} (h : Orderly m lines)
    (hlive : nextLive root m.server e=.live f') (i : Fin 4) :
    SlotInv (f'.slots i) (linesNext m lines e i) := by
  have hslot := slotStep_of_nextLive hlive i
  generalize f'.slots i=t at hslot ⊢
  cases hslot with
  | taken htaken =>
    rw [linesNext,htaken]
    dsimp only
    rw [Function.update_self]
    exact (h.slots i).accept (takenSlot_free htaken) _ _
  | processed hfd hlong hrun =>
    rename_i r o report
    have hsession := callOf_session (m.server.slots i) m.server.dataBuf r o
    have hslot : SlotInv (callOf (m.server.slots i) m.server.dataBuf r o).session (lines i) :=
      hsession.symm▸h.slots i
    rw [linesNext,if_pos hfd,Function.update_self]
    exact hslot.line (hsession.symm▸hfd) (splitOf_callOf _ _ r o) report hrun
  | reset hfd =>
    rw [linesNext,if_pos hfd,Function.update_self]
    exact ⟨fun _ => rfl,by simp [ftpSessionReset],by simp [ftpSessionReset]⟩
  | kept hother =>
    rw [linesNext_kept hother]
    exact h.slots i

/-- An event that has room leaves the server in order, or ends the run. -/
theorem Orderly.next {e : Timed} (h : Orderly m lines)
    (hroom : FtpDirectory.HasRoom (.live m.server) e.event) :
    Keeps ⟨nextMemory root m e,linesNext m lines e.event⟩ := by
  have hodd := marginsNext_odd h.even e.now e.event
  have hspares := (FtpDirectory.spares_iff_hasRoom (.live m.server) e.event).mpr hroom
  have hlive : ∀ f,nextLive root m.server e.event=.live f →
      nextMemory root m e=.live ⟨f,marginsNext m e.now e.event,m.beyond⟩ := by
    intro f hf
    rw [nextMemory]
    dsimp only
    split
    · rename_i i r o hevent
      rw [hevent] at hf
      rw [nextRecv,if_neg fun hin => hin.2 (hodd i)]
      dsimp only
      rw [hf]
    · rw [hf]
  have hbroken : ∀ fault,nextLive root m.server e.event=.broken fault →
      nextMemory root m e=.broken fault := by
    intro fault hfault
    have hcases := nextLive_cases root h.sound e.event
    cases hevent : eventFault m.server e.event with
    | none =>
      rw [hevent] at hcases
      obtain ⟨f,hf,-⟩ := hcases
      rw [hf] at hfault
      cases hfault
    | some fault' =>
      rw [hevent] at hcases
      obtain rfl := Service.broken.inj (hcases.symm.trans hfault)
      have hspared : fault'≠.overrun := hspares fault' hevent
      rw [nextMemory]
      dsimp only
      split
      · rename_i i r o hrecv
        rw [hrecv] at hfault
        rw [nextRecv,if_neg fun hin => hin.2 (hodd i)]
        dsimp only
        rw [hfault]
        cases fault' with
        | overrun => exact absurd rfl hspared
        | _ => rfl
      · rw [hfault]
  cases hnext : nextLive root m.server e.event with
  | broken fault =>
    rw [hbroken fault hnext]
    trivial
  | live f' =>
    rw [hlive f' hnext]
    exact ⟨h.sound.next hnext,hodd,slotInv_nextLive h hnext⟩

/-- A line in an orderly server makes the calls of the commands on files only behind
the password. -/
theorem Orderly.guarded (h : Orderly m lines) (e : Timed) : Guarded root ⟨.live m,lines⟩ e := by
  obtain ⟨now,event⟩ := e
  cases event with
  | accept client => trivial
  | release i => trivial
  | recv i r o =>
    intro hfd _ hcalls
    obtain ⟨call,hcall⟩ := List.exists_mem_of_ne_nil _ hcalls
    obtain ⟨hstate,hanon⟩ := fileCalls_guarded root hcall
    rw [callOf_session] at hstate hanon
    exact ⟨hstate,hanon,(h.slots i).ok hstate hanon⟩

/-- The server at start is in order. -/
theorem keeps_start (beyond : List Byte) : Keeps (start beyond) := by
  refine ⟨sound_start,fun _ => rfl,fun i => ⟨fun _ => rfl,fun h => ?_,fun h => ?_⟩⟩
  · cases h
  · cases h

/-- An event that has room keeps the server in order, and makes the calls of the
commands on files only behind the password. -/
theorem keeps_next (root : MountPoint) (t : Tracked) (e : Timed) (ht : Keeps t)
    (hroom : HasRoom t e) : Keeps (next root t e) ∧ Guarded root t e := by
  obtain ⟨world,lines⟩ := t
  cases world with
  | live m => exact ⟨Orderly.next ht hroom,Orderly.guarded ht e⟩
  | broken fault => exact ⟨trivial,trivial⟩

/-- A server in order is authorised. -/
theorem Keeps.authorised (t : Tracked) (h : Keeps t) : Authorised t := by
  obtain ⟨world,lines⟩ := t
  cases world with
  | live m => exact fun i => (h.slots i).ok
  | broken fault => trivial

/-- In every run of the server in which no command joins a relative path to a
directory that fills its buffer, in every state, a session that is logged in and
not anonymous has given the password after the last `USER admin` of its
connection, and the commands on files make their calls in such a session only. -/
theorem ftp_authorised (root : MountPoint) (beyond : List Byte) (es : List Timed)
    (h : AlongRun (next root) HasRoom (start beyond) es) :
    Throughout (next root) Authorised (start beyond) es ∧
      AlongRun (next root) (Guarded root) (start beyond) es :=
  ⟨(throughout_of_invariant (fun t e ht hroom => (keeps_next root t e ht hroom).1)
      (keeps_start beyond) h).mono Keeps.authorised,
    alongRun_of_invariant (fun t e ht hroom => keeps_next root t e ht hroom)
      (keeps_start beyond) h⟩

/-- A line with its two bytes of line end is not empty. -/
theorem lineSegment_pos (line : List Byte) : 0 < (line.take 254++[0x0D,0x0A]).length := by
  rw [List.length_append]
  exact Nat.add_pos_right _ Nat.two_pos

/-- It fits the receive buffer. -/
theorem lineSegment_fits (line : List Byte) : (line.take 254++[0x0D,0x0A]).length≤256 := by
  rw [List.length_append,List.length_take]
  exact Nat.add_le_add_right (Nat.min_le_left 254 _) 2

/-- The bytes of a line, of at most 254 of its own. -/
def lineSegment (line : List Byte) : Segment :=
  ⟨line.take 254++[0x0D,0x0A],lineSegment_pos line,lineSegment_fits line⟩

/-- A line is received on a slot, and all calls succeed. -/
def receive (i : Fin 4) (line : List Byte) : Timed := ⟨0,.recv i (.bytes (lineSegment line)) allOk⟩

/-- A connection is accepted on a descriptor. -/
def connect (client : ℤ) : Timed := ⟨0,.accept client⟩

/-- The user logs in with the password. -/
def adminLogin (i : Fin 4) : List Timed :=
  [receive i (ascii ['U','S','E','R',' ']++userName),
    receive i (ascii ['P','A','S','S',' ']++userPawd)]

instance (t : Tracked) (e : Timed) : Decidable (HasRoom t e) :=
  match t with
  | ⟨.live m,_⟩ => inferInstanceAs (Decidable (FtpDirectory.HasRoom (.live m.server) e.event))
  | ⟨.broken _,_⟩ => isTrue trivial

/-- A login with the password, a directory and another one made in it: the server
makes the calls for it, behind the password. -/
theorem ftp_authorised_mkd :
    Throughout (next lfs1) Authorised (start [])
        (connect 4::adminLogin 0++[receive 0 (ascii ['C','W','D',' ','a']),
          receive 0 (ascii ['M','K','D',' ','b'])]) ∧
      AlongRun (next lfs1) (Guarded lfs1) (start [])
        (connect 4::adminLogin 0++[receive 0 (ascii ['C','W','D',' ','a']),
          receive 0 (ascii ['M','K','D',' ','b'])]) :=
  ftp_authorised lfs1 [] _ (by decide +kernel)

/-- The owner is logged in on slot 1. On slot 0 an anonymous session changes to a
directory of 250 bytes, into one that makes them 255, and into one of four letters,
whose terminator clears the descriptor of slot 1. The next connection takes it. -/
def takeover : List Timed :=
  [connect 4,receive 0 (ascii ['U','S','E','R',' ']++anonymous),connect 5]++adminLogin 1++
    [receive 0 (ascii ['C','W','D',' ','/']++List.replicate 249 0x61),
      receive 0 (ascii ['C','W','D',' ','b','b','b','b']),
      receive 0 (ascii ['C','W','D',' ','c','c','c','c']),connect 6]

/-- Whether slot 1 holds a connection on descriptor 6 that is logged in, not
anonymous, and has sent no line. -/
def takenOver : Tracked → Bool
  | ⟨.live m,lines⟩ => decide ((m.server.slots 1).fd=6 ∧ (m.server.slots 1).state=.ok ∧
      (m.server.slots 1).isAnonymous=0 ∧ lines 1=[])
  | ⟨.broken _,_⟩ => false

/-- A server in which slot 1 is taken over is not authorised: no line has been sent,
so no password has been given. -/
theorem not_authorised_of_takenOver {t : Tracked} (h : takenOver t=true) : ¬Authorised t := by
  obtain ⟨world,lines⟩ := t
  cases world with
  | broken fault => cases h
  | live m =>
    obtain ⟨-,hstate,hanon,hlines⟩ := of_decide_eq_true h
    intro hauth
    have hgiven := hauth 1 hstate hanon
    rw [show Tracked.lines ⟨.live m,lines⟩ 1=[] from hlines] at hgiven
    obtain ⟨before,user,between,password,after,hsplit,-⟩ := hgiven
    exact List.append_ne_nil_of_right_ne_nil before (List.cons_ne_nil _ _) hsplit.symm

/-- The run ends so. -/
theorem takenOver_takeover :
    takenOver (finalState (next lfs1) (start []) takeover)=true := by decide +kernel

/-- A connection takes over the login of the owner without a password. -/
theorem takeover_without_password :
    ¬∀ (beyond : List Byte) (es : List Timed),
      Throughout (next lfs1) Authorised (start beyond) es := by
  intro h
  have hnot := not_authorised_of_takenOver takenOver_takeover
  refine hnot ?_
  generalize takeover=es
  exact (h [] es).last

end Runs

end ZephyrApp.FtpAuthorisation

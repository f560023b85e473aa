import ZephyrApp.FtpServer
import ZephyrApp.FtpSockets

/-!
# Sockets of the server's sessions

Each slot of the server goes through the socket steps of its connections: a
connection that takes the slot, the commands whose lines are received on it, and
its release. The descriptors of the slot are those of the steps.
-/

namespace ZephyrApp.FtpSlotSockets

open EventRuns MachineBytes FtpPath FtpCommands FtpServer
open FtpSession (Session ascii userName anonymous takenSlot takenSlot_free ftpSessionReset)
open FtpSockets (SessionSockets PortOutcome PasvOutcome FileOutcome Command transferCmd portStart)

section Outcomes

/-- The socket that a call returned, if it returned one. -/
def returned (d : ℤ) : Option ℤ := if d < 0 then none else some d

/-- Whether `port_cmd_fn` refuses its parameter. -/
def refused (c : Call) : Bool :=
  if c.cmd=ascii ['P','O','R','T'] then decide (portLoop 6 c.text < 6)
  else if c.cmd=ascii ['E','P','R','T'] then
    match c.param with
    | none => false
    | some k => decide (c.data[k+1]?≠some 0x31)
  else false

/-- How the opening of a data connection goes on. -/
def openOutcome (o : Outcomes) : PortOutcome :=
  if o.socket < 0 then .socketError
  else if o.bound ∧ o.tuned ∧ o.connects then .connected o.socket
  else .failed o.socket

/-- How `port_cmd_fn` goes on. -/
def portOutcome (c : Call) : PortOutcome :=
  if refused c then .refused else openOutcome c.outcomes

/-- How `pasv_cmd_fn` goes on. -/
def pasvOutcome (o : Outcomes) : PasvOutcome :=
  if ¬o.bufAlloc then .noBuffer
  else if o.socket < 0 then .socketError
  else if ¬o.bound then .bindError o.socket
  else if ¬o.listens then .listenError o.socket
  else .listening o.socket

/-- Whether the path of a command leads to a place in the tree. -/
def pathBuilt (c : Call) (s : Session) : Bool :=
  match c.read with
  | .error _ => false
  | .ok path =>
    match buildPath (FtpSession.pathBuf s) path with
    | .error _ => false
    | .ok (_,ret) => decide (ret=0)

/-- Where `retr_cmd_fn` ends. -/
def retrOutcome (c : Call) : FileOutcome :=
  if ¬pathBuilt c (pasvAccept c.session c.outcomes) then .pathError
  else if ¬c.outcomes.bufAlloc then .noBuffer
  else if ¬c.outcomes.callOk then .openError
  else if c.outcomes.fileSize≤0 then .notRegular
  else .carriedOut

/-- Where `stor_cmd_fn` ends. -/
def storOutcome (c : Call) : FileOutcome :=
  if ¬pathBuilt c (pasvAccept (withOffset c.session 0) c.outcomes) then .pathError
  else if ¬c.outcomes.bufAlloc then .noBuffer
  else if ¬c.outcomes.callOk then .openError
  else .carriedOut

/-- The user that a line names, if it is one of the two. -/
def userOf (c : Call) : Option Command :=
  match c.text with
  | none => none
  | some text =>
    if text=userName then some (.user 0) else if text=anonymous then some (.user 1) else none

/-- The step of the sockets that a function of the table takes, if it takes one. -/
def commandOf (c : Call) : CmdFn → Option Command
  | .port => some (.port (portOutcome c))
  | .pasv => some (.pasv (pasvOutcome c.outcomes))
  | .list => some (.list (returned c.outcomes.accepted) c.outcomes.dirOpens)
  | .nlist => some (.nlst (returned c.outcomes.accepted) c.outcomes.dirOpens)
  | .retr => some (.retr (returned c.outcomes.accepted) (retrOutcome c))
  | .stor => some (.stor (returned c.outcomes.accepted) (storOutcome c))
  | .quit => some .quit
  | .login => userOf c
  | _ => none

/-- The step that a line takes. -/
def lineCommand (c : Call) : Option Command :=
  match c.session.state with
  | .user => if c.starts ['U','S','E','R'] then userOf c else none
  | .passwd => none
  | .ok => (findFn c.cmd).bind (commandOf c)

/-- The step that an event takes on a slot. -/
def slotEvent (f : Ftpd) (i : Fin 4) : Event → Option FtpSockets.Event
  | .accept client => if takenSlot f.slots client=some i then some (.connect client) else none
  | .recv j r o =>
    if j=i then (lineCommand (callOf (f.slots i) f.dataBuf r o)).map .command else none
  | .release j => if j=i then some .disconnect else none

/-- The same for a server that may have stopped. -/
def serviceEvent (i : Fin 4) : Service → Event → Option FtpSockets.Event
  | .live f,e => slotEvent f i e
  | .broken _,_ => none

/-- A call that opens a socket returns minus one when it fails. -/
structure Honest (o : Outcomes) : Prop where
  /-- `socket`. -/
  socket : o.socket=-1 ∨ 0 ≤ o.socket
  /-- `accept`. -/
  accepted : o.accepted=-1 ∨ 0 ≤ o.accepted

/-- The calls of an event do so. -/
def HonestEvent : Event → Prop
  | .recv _ _ o => Honest o
  | _ => True

end Outcomes

/-- A session has the descriptors and the user that its sockets tell. -/
structure Shows (s : SessionSockets) (t : Session) : Prop where
  /-- `fd`. -/
  fd : s.fd=t.fd
  /-- `is_anonymous`. -/
  anonymous : s.isAnonymous=t.isAnonymous
  /-- `port_pasv_fd`. -/
  port : s.portPasvFd=t.transfer.portPasvFd
  /-- `pasvs_fd`. -/
  pasvs : s.pasvsFd=t.transfer.pasvsFd

section Sockets

variable {s : SessionSockets} {t : Session} {c : Call} {d : ℤ}

/-- Closing the listening socket. -/
theorem Shows.closePasvs (h : Shows s t) : Shows (FtpSockets.closePasvs s) (closePasvs t) := by
  rw [FtpSockets.closePasvs,FtpCommands.closePasvs,h.pasvs]
  split
  · exact ⟨h.fd,h.anonymous,h.port,rfl⟩
  · exact h

/-- Closing both. -/
theorem Shows.closeData (h : Shows s t) : Shows (FtpSockets.closeData s) (closeData t) := by
  have hport : Shows (FtpSockets.closePort s) (withPort t (-1)) :=
    ⟨h.fd,h.anonymous,rfl,h.pasvs⟩
  exact hport.closePasvs

/-- Closing what is open before a new data connection. -/
theorem Shows.portStart (h : Shows s t) : Shows (portStart s) (closePort t) := by
  rw [FtpSockets.portStart,closePort,h.port]
  split
  · exact h.closeData
  · exact h

/-- Accepting a data connection. -/
theorem Shows.pasvAccept {o : Outcomes} (h : Shows s t) (ho : Honest o) :
    Shows (if 0 < s.pasvsFd then FtpSockets.pasvAccept s (returned o.accepted) else s)
      (pasvAccept t o) := by
  rw [FtpCommands.pasvAccept,h.pasvs]
  split
  · rw [returned]
    split
    · rename_i hfailed
      have hminus : o.accepted=-1 := ho.accepted.resolve_right (not_le.mpr hfailed)
      exact ⟨h.fd,h.anonymous,hminus.symm,h.pasvs⟩
    · exact ⟨h.fd,h.anonymous,rfl,h.pasvs⟩
  · exact h

/-- Opening the data connection, after the start of `port_cmd_fn`. -/
theorem leaves_openData_shows (h : Shows (portStart s) t) (ho : Honest c.outcomes) :
    Leaves (Shows (FtpSockets.portCmdFn s (openOutcome c.outcomes))) (openData c t) := by
  rw [openData]
  by_cases hopen : 0 ≤ c.outcomes.socket ∧ c.outcomes.bound ∧ c.outcomes.tuned ∧
      c.outcomes.connects
  · rw [openOutcome,if_neg (not_lt.mpr hopen.1),if_pos hopen.2,if_pos hopen]
    exact leaves_replied ⟨h.fd,h.anonymous,rfl,h.pasvs⟩ _ _
  · rw [if_neg hopen]
    refine leaves_replied ?_ _ _
    have hfd : (withPort t c.outcomes.socket).transfer.portPasvFd=c.outcomes.socket := rfl
    rw [openOutcome,closePort,hfd]
    by_cases hsocket : c.outcomes.socket < 0
    · have hminus : c.outcomes.socket=-1 := ho.socket.resolve_right (not_le.mpr hsocket)
      rw [if_pos hsocket,if_neg (not_le.mpr hsocket)]
      exact ⟨h.fd,h.anonymous,hminus.symm,h.pasvs⟩
    · have hnonneg := not_lt.mp hsocket
      have hopened : Shows (FtpSockets.openPort (portStart s) c.outcomes.socket)
          (withPort t c.outcomes.socket) := ⟨h.fd,h.anonymous,rfl,h.pasvs⟩
      rw [if_neg hsocket,if_neg (fun hrest => hopen ⟨hnonneg,hrest⟩),
        if_pos hnonneg]
      exact hopened.closeData

/-- `port_cmd_fn`. -/
theorem leaves_portCmdFn_shows (h : Shows s c.session) (ho : Honest c.outcomes) :
    Leaves (Shows (FtpSockets.run s (.port (portOutcome c)))) (portCmdFn c) := by
  have hclosed := h.portStart
  rw [FtpSockets.run,portOutcome,refused,portCmdFn]
  by_cases hport : c.cmd=ascii ['P','O','R','T']
  · rw [if_pos hport,if_pos hport]
    by_cases hfew : portLoop 6 c.text < 6
    · rw [if_pos hfew,if_pos (decide_eq_true hfew)]
      exact leaves_replied hclosed _ _
    · rw [if_neg hfew,if_neg (by rw [decide_eq_false hfew]; exact Bool.false_ne_true)]
      exact leaves_openData_shows hclosed ho
  · rw [if_neg hport,if_neg hport]
    by_cases heprt : c.cmd=ascii ['E','P','R','T']
    · rw [if_pos heprt,if_pos heprt]
      cases c.param with
      | none => exact leaves_error _
      | some k =>
        dsimp only
        by_cases hver : c.data[k+1]?≠some 0x31
        · rw [if_pos hver,if_pos (decide_eq_true hver)]
          exact leaves_replied hclosed _ _
        · rw [if_neg hver,if_neg (by rw [decide_eq_false hver]; exact Bool.false_ne_true)]
          split
          · exact leaves_error _
          · split
            · exact leaves_error _
            · exact leaves_openData_shows hclosed ho
    · rw [if_neg heprt,if_neg heprt,if_neg Bool.false_ne_true]
      exact leaves_openData_shows hclosed ho

/-- `pasv_cmd_fn`. -/
theorem leaves_pasvCmdFn_shows (h : Shows s c.session) (ho : Honest c.outcomes) :
    Leaves (Shows (FtpSockets.run s (.pasv (pasvOutcome c.outcomes)))) (pasvCmdFn c) := by
  rw [FtpSockets.run,pasvOutcome,pasvCmdFn]
  split
  · exact leaves_replied h _ _
  · refine leaves_replied ?_ _ _
    by_cases hsocket : c.outcomes.socket < 0
    · have hminus : c.outcomes.socket=-1 := ho.socket.resolve_right (not_le.mpr hsocket)
      rw [if_pos hsocket]
      exact ⟨h.fd,h.anonymous,h.port,hminus.symm⟩
    · rw [if_neg hsocket]
      split_ifs
      all_goals exact ⟨h.fd,h.anonymous,h.port,rfl⟩

/-- `list_cmd_fn`. -/
theorem leaves_listCmdFn_shows (h : Shows s c.session) (ho : Honest c.outcomes) :
    Leaves (Shows (transferCmd s (returned c.outcomes.accepted) c.outcomes.dirOpens))
      (listCmdFn c) := by
  have haccepted := h.pasvAccept ho
  rw [transferCmd,listCmdFn,haccepted.port]
  split
  · exact leaves_replied haccepted _ _
  · cases c.outcomes.dirOpens with
    | false => exact leaves_answer haccepted _
    | true => exact leaves_replied haccepted.closeData _ _

/-- A command on a path leaves its session where the path leads nowhere, and otherwise
what its use of the path leaves. -/
theorem leaves_withPath_built {P : Session → Prop} {use : List Byte → Except Fault Report}
    (hlost : pathBuilt c t=false → P t) (huse : pathBuilt c t=true → ∀ path,Leaves P (use path)) :
    Leaves P (withPath c t use) := by
  refine leaves_bind fun path hpath => leaves_bind fun built hbuilt => ?_
  have hret : pathBuilt c t=decide (built.2=0) := by
    rw [pathBuilt,hpath]
    dsimp only
    rw [hbuilt]
  dsimp only
  split
  · rename_i hne
    exact leaves_replied (hlost (hret.trans (decide_eq_false hne))) _ _
  · rename_i heq
    exact huse (hret.trans (decide_eq_true (not_not.mp heq))) _

/-- When `retr_cmd_fn` carries its transfer out. -/
theorem retrOutcome_carriedOut (c : Call) : retrOutcome c=.carriedOut ↔
    pathBuilt c (pasvAccept c.session c.outcomes)=true ∧ c.outcomes.bufAlloc=true ∧
      c.outcomes.callOk=true ∧ 0 < c.outcomes.fileSize := by
  rw [retrOutcome]
  split_ifs <;> simp_all

/-- When `stor_cmd_fn` does. -/
theorem storOutcome_carriedOut (c : Call) : storOutcome c=.carriedOut ↔
    pathBuilt c (pasvAccept (withOffset c.session 0) c.outcomes)=true ∧
      c.outcomes.bufAlloc=true ∧ c.outcomes.callOk=true := by
  rw [storOutcome]
  split_ifs <;> simp_all

/-- `retr_cmd_fn`. -/
theorem leaves_retrCmdFn_shows (h : Shows s c.session) (ho : Honest c.outcomes) :
    Leaves (Shows (FtpSockets.retrCmdFn s (returned c.outcomes.accepted) (retrOutcome c)))
      (retrCmdFn c) := by
  have haccepted := h.pasvAccept ho
  have hend := retrOutcome_carriedOut c
  rw [FtpSockets.retrCmdFn,transferCmd,retrCmdFn,haccepted.port]
  generalize (if 0 < s.pasvsFd then FtpSockets.pasvAccept s _ else s)=s' at haccepted ⊢
  generalize pasvAccept c.session c.outcomes=t at haccepted hend ⊢
  have hreset : ∀ {s t},Shows s t → Shows s (withOffset t 0) := fun hs =>
    ⟨hs.fd,hs.anonymous,hs.port,hs.pasvs⟩
  have hkept : retrOutcome c≠.carriedOut →
      Shows (if decide (retrOutcome c=.carriedOut)=true then FtpSockets.closeData s' else s') t :=
    fun hne => by rwa [if_neg (by rw [decide_eq_false hne]; exact Bool.false_ne_true)]
  by_cases hport : t.transfer.portPasvFd < 0
  · rw [if_pos hport,if_pos hport]
    exact leaves_replied (hreset haccepted) _ _
  rw [if_neg hport,if_neg hport]
  refine leaves_withPath_built (fun hlost => hkept fun hout => ?_) fun hbuilt path => ?_
  · exact Bool.false_ne_true (hlost.symm.trans (hend.mp hout).1)
  by_cases halloc : c.outcomes.bufAlloc=true
  · rw [if_neg (not_not_intro halloc)]
    by_cases hsent : c.outcomes.callOk=true ∧ 0 < c.outcomes.fileSize
    · have hout := hend.mpr ⟨hbuilt,halloc,hsent⟩
      rw [if_neg (not_or_intro (not_not_intro hsent.1) (not_le.mpr hsent.2)),
        if_pos (decide_eq_true hout)]
      exact leaves_replied (hreset haccepted.closeData) _ _
    · have hbad : ¬c.outcomes.callOk=true ∨ c.outcomes.fileSize≤0 := by
        rwa [not_and_or,not_lt] at hsent
      rw [if_pos hbad]
      exact leaves_replied (hreset (hkept fun hout => hsent (hend.mp hout).2.2)) _ _
  · rw [if_pos halloc]
    exact leaves_replied (hkept fun hout => halloc (hend.mp hout).2.1) _ _

/-- `stor_cmd_fn`. -/
theorem leaves_storCmdFn_shows (h : Shows s c.session) (ho : Honest c.outcomes) :
    Leaves (Shows (FtpSockets.storCmdFn s (returned c.outcomes.accepted) (storOutcome c)))
      (storCmdFn c) := by
  have hoffset : Shows s (withOffset c.session 0) := ⟨h.fd,h.anonymous,h.port,h.pasvs⟩
  have haccepted := hoffset.pasvAccept ho
  have hend := storOutcome_carriedOut c
  rw [FtpSockets.storCmdFn,storCmdFn,hoffset.anonymous]
  by_cases hanon : (withOffset c.session 0).isAnonymous≠0
  · rw [if_pos hanon,if_pos hanon]
    exact leaves_replied hoffset _ _
  rw [if_neg hanon,if_neg hanon,transferCmd,haccepted.port]
  generalize (if 0 < s.pasvsFd then FtpSockets.pasvAccept s _ else s)=s' at haccepted ⊢
  generalize pasvAccept (withOffset c.session 0) c.outcomes=t at haccepted hend ⊢
  have hkept : storOutcome c≠.carriedOut →
      Shows (if decide (storOutcome c=.carriedOut)=true then FtpSockets.closeData s' else s') t :=
    fun hne => by rwa [if_neg (by rw [decide_eq_false hne]; exact Bool.false_ne_true)]
  dsimp only
  by_cases hport : t.transfer.portPasvFd < 0
  · rw [if_pos hport,if_pos hport]
    exact leaves_replied haccepted _ _
  rw [if_neg hport,if_neg hport]
  refine leaves_withPath_built (fun hlost => hkept fun hout => ?_) fun hbuilt path => ?_
  · exact Bool.false_ne_true (hlost.symm.trans (hend.mp hout).1)
  by_cases halloc : c.outcomes.bufAlloc=true
  · rw [if_neg (not_not_intro halloc)]
    by_cases hopens : c.outcomes.callOk=true
    · rw [if_neg (not_not_intro hopens),
        if_pos (decide_eq_true (hend.mpr ⟨hbuilt,halloc,hopens⟩))]
      exact leaves_replied haccepted.closeData _ _
    · rw [if_pos hopens]
      exact leaves_replied (hkept fun hout => hopens (hend.mp hout).2.2) _ _
  · rw [if_pos halloc]
    exact leaves_replied (hkept fun hout => halloc (hend.mp hout).2.1) _ _

/-- The sockets after a step that may be none. -/
def stepped (s : SessionSockets) (step : Option Command) : SessionSockets :=
  step.elim s (FtpSockets.run s)

/-- A session at the mount point has the sockets it had. -/
theorem Shows.toRoot {root : MountPoint} {t' : Session} (h : Shows s t)
    (hroot : toRoot root t=.ok t') : Shows s t' := by
  rw [FtpCommands.toRoot] at hroot
  split at hroot
  · cases hroot
  · obtain rfl := Except.ok.inj hroot
    exact ⟨h.fd,h.anonymous,h.port,h.pasvs⟩

/-- A function of the table takes the step that is told. -/
theorem leaves_runFn_shows (root : MountPoint) (h : Shows s c.session) (ho : Honest c.outcomes)
    (fn : CmdFn) : Leaves (Shows (stepped s (commandOf c fn))) (runFn root c fn) := by
  cases fn with
  | port => exact leaves_portCmdFn_shows h ho
  | pasv => exact leaves_pasvCmdFn_shows h ho
  | list | nlist => exact leaves_listCmdFn_shows h ho
  | retr => exact leaves_retrCmdFn_shows h ho
  | stor => exact leaves_storCmdFn_shows h ho
  | pwd => exact leaves_answer h _
  | type =>
    exact leaves_bind fun text _ =>
      leaves_replied (by exact ⟨h.fd,h.anonymous,h.port,h.pasvs⟩) _ _
  | syst => exact leaves_replied h _ _
  | quit => exact leaves_replied h _ _
  | mkd => exact leaves_changeFile h _ _ _
  | rmd => exact leaves_changeFile h _ _ _
  | dele => exact leaves_changeFile h _ _ _
  | size =>
    rw [runFn,sizeCmdFn]
    exact leaves_withPath h fun path => leaves_answer h _
  | rest =>
    refine leaves_bind fun text _ => ?_
    dsimp only
    split
    · exact leaves_replied (by exact ⟨h.fd,h.anonymous,h.port,h.pasvs⟩) _ _
    · exact leaves_replied (by exact ⟨h.fd,h.anonymous,h.port,h.pasvs⟩) _ _
  | cwd =>
    refine leaves_bind fun path _ => leaves_bind fun built _ => ?_
    dsimp only
    split
    · exact leaves_replied (by exact ⟨h.fd,h.anonymous,h.port,h.pasvs⟩) _ _
    · exact leaves_answer (by exact ⟨h.fd,h.anonymous,h.port,h.pasvs⟩) _
  | cdup =>
    refine leaves_bind fun built _ => ?_
    dsimp only
    split
    · exact leaves_replied (by exact ⟨h.fd,h.anonymous,h.port,h.pasvs⟩) _ _
    · exact leaves_answer (by exact ⟨h.fd,h.anonymous,h.port,h.pasvs⟩) _
  | pass => exact leaves_bind fun t ht => leaves_replied (h.toRoot ht) _ _
  | login =>
    refine leaves_bind fun text htext => ?_
    rw [commandOf,userOf,text_of_read htext]
    dsimp only
    split
    · exact leaves_replied ⟨h.fd,rfl,h.port,h.pasvs⟩ _ _
    · split
      · have huser : Shows (FtpSockets.run s (.user 1))
            {c.session with isAnonymous := 1,state := .ok} := ⟨h.fd,rfl,h.port,h.pasvs⟩
        exact leaves_bind fun t ht => leaves_replied (huser.toRoot ht) _ _
      · exact leaves_replied h _ _

/-- A line takes the step that is told. -/
theorem leaves_processCall_shows (root : MountPoint) (h : Shows s c.session)
    (ho : Honest c.outcomes) :
    Leaves (Shows (stepped s (lineCommand c))) (processCall root c) := by
  rw [processCall,lineCommand]
  cases hstate : c.session.state with
  | user =>
    dsimp only
    by_cases hstarts : c.starts ['U','S','E','R']=true
    · rw [if_neg (not_not_intro hstarts),if_pos hstarts]
      refine leaves_bind fun text htext => ?_
      rw [userOf,text_of_read htext]
      dsimp only
      by_cases hanon : text=anonymous
      · rw [if_pos hanon,if_pos hanon,if_neg (by rw [hanon]; decide)]
        exact leaves_replied ⟨h.fd,rfl,h.port,h.pasvs⟩ _ _
      · rw [if_neg hanon,if_neg hanon]
        split
        · exact leaves_replied ⟨h.fd,rfl,h.port,h.pasvs⟩ _ _
        · exact leaves_replied h _ _
    · rw [if_pos hstarts,if_neg hstarts]
      exact leaves_replied h _ _
  | passwd =>
    have hlogin : ∀ accepted : Bool,Leaves (Shows s) (if accepted then do
        let t ← toRoot root
          {c.session with currentdir := List.replicate c.session.currentdir.length 0}
        replied c {t with state := .ok} [loggedIn] 0
        else replied c c.session [loginIncorrect] 0) := by
      intro accepted
      split
      · have hcleared : Shows s {c.session with
            currentdir := List.replicate c.session.currentdir.length 0} :=
          ⟨h.fd,h.anonymous,h.port,h.pasvs⟩
        refine leaves_bind fun t ht => ?_
        have hroot := hcleared.toRoot ht
        exact leaves_replied ⟨hroot.fd,hroot.anonymous,hroot.port,hroot.pasvs⟩ _ _
      · exact leaves_replied h _ _
    dsimp only
    split
    · exact leaves_replied h _ _
    · split
      · exact hlogin true
      · exact leaves_bind fun text _ => leaves_bind fun accepted _ => hlogin accepted
  | ok =>
    dsimp only
    rw [ftpSessionCmdProcess]
    cases hfind : findFn c.cmd with
    | none => exact leaves_replied h _ _
    | some fn => exact (leaves_runFn_shows root h ho fn).map _ fun _ => rfl

end Sockets

section Runs

variable {root : MountPoint} {s : SessionSockets}

/-- An event that is not about a slot takes no step on it. -/
theorem Shows.kept {f : Ftpd} {e : Event} {i : Fin 4} (h : Shows s (f.slots i))
    (hother : ¬Concerns f i e) : (slotEvent f i e).elim s (FtpSockets.next s)=s := by
  cases e with
  | accept client =>
    rw [Concerns] at hother
    rw [slotEvent,if_neg hother,Option.elim_none]
  | recv j r o =>
    rw [slotEvent]
    split
    · rename_i hji
      have hfd : ¬0 < s.fd := fun hfd => hother ⟨hji,hji.symm▸h.fd▸hfd⟩
      cases lineCommand (callOf (f.slots i) f.dataBuf r o) with
      | none => rfl
      | some step => rw [Option.map_some,Option.elim_some,FtpSockets.next,if_neg hfd]
    · rfl
  | release j =>
    rw [slotEvent]
    split
    · rename_i hji
      have hfd : ¬0 < s.fd := fun hfd => hother ⟨hji,hji.symm▸h.fd▸hfd⟩
      rw [Option.elim_some,FtpSockets.next,if_neg hfd]
    · rfl

/-- An event of a running server takes its step on every slot. -/
theorem shows_nextLive {f f' : Ftpd} {e : Event} {i : Fin 4} (h : Shows s (f.slots i))
    (he : HonestEvent e) (hlive : nextLive root f e=.live f') :
    Shows ((slotEvent f i e).elim s (FtpSockets.next s)) (f'.slots i) := by
  have hslot := slotStep_of_nextLive hlive i
  generalize f'.slots i=t at hslot ⊢
  cases hslot with
  | taken htaken =>
    have hfree : s.fd=0 := h.fd.trans (takenSlot_free htaken)
    rw [slotEvent,if_pos htaken,Option.elim_some,FtpSockets.next,if_pos hfree]
    exact ⟨rfl,h.anonymous,rfl,rfl⟩
  | processed hfd hlong hrun =>
    rename_i r o report
    have hsession := callOf_session (f.slots i) f.dataBuf r o
    have houtcomes := callOf_outcomes (f.slots i) f.dataBuf r o
    have hsteps := leaves_processCall_shows root (hsession.symm▸h) (houtcomes.symm▸he) report hrun
    rw [slotEvent,if_pos rfl]
    cases hstep : lineCommand (callOf (f.slots i) f.dataBuf r o) with
    | none =>
      rw [hstep] at hsteps
      exact hsteps
    | some step =>
      rw [hstep] at hsteps
      rw [Option.map_some,Option.elim_some,FtpSockets.next,if_pos (h.fd.symm▸hfd)]
      exact hsteps
  | reset hfd =>
    rw [slotEvent,if_pos rfl,Option.elim_some,FtpSockets.next,if_pos (h.fd.symm▸hfd)]
    exact ⟨rfl,rfl,rfl,rfl⟩
  | kept hother =>
    rw [h.kept hother]
    exact h

/-- While the server runs, a slot shows its sockets. -/
def FollowsSlot (i : Fin 4) (service : Service) (s : SessionSockets) : Prop :=
  ∀ f,service=.live f → Shows s (f.slots i)

/-- The steps that a run of the server takes on a slot. -/
def slotEvents (root : MountPoint) (i : Fin 4) (es : List Event) : List FtpSockets.Event :=
  (outputs (next root) (serviceEvent i) start es).filterMap id

/-- In every run of the server whose calls return a descriptor or minus one, the
descriptors of a slot are those after the steps that the run takes on it. -/
theorem slot_follows_sockets (root : MountPoint) (i : Fin 4) {es : List Event}
    (hes : ∀ e∈es,HonestEvent e) {f : Ftpd} (hlive : finalState (next root) start es=.live f) :
    Shows (finalState FtpSockets.next FtpSockets.start (slotEvents root i es)) (f.slots i) := by
  have hrun : FollowsSlot i (finalState (next root) start es)
      (finalState FtpSockets.next FtpSockets.start (slotEvents root i es)) := by
    refine finalState_driven (fun service s e h he f' hf' => ?_) (fun f hf => ?_) hes
    · cases service with
      | broken fault => cases hf'
      | live f => exact shows_nextLive (h f rfl) he hf'
    · obtain rfl := Service.live.inj hf
      exact ⟨rfl,rfl,rfl,rfl⟩
  exact hrun f hlive

end Runs

end ZephyrApp.FtpSlotSockets

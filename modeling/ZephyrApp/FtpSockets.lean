import ZephyrApp.EventRuns
import ZephyrApp.DescriptorLedger

/-!
# Sockets of an FTP session

A session keeps three descriptors: its control connection, the data connection
and the listening socket of a passive transfer. `PORT` and `EPRT` open a data
connection, `PASV` and `EPSV` a listening socket, and a transfer accepts from
the listening socket, uses the data connection and closes both. Every call
that opens a socket has its outcome in the event.
-/

namespace ZephyrApp.FtpSockets

open EventRuns DescriptorLedger

/-- The fields of a session that the socket code uses, with the sockets that
were opened for it. -/
structure SessionSockets where
  /-- `fd`, zero in a free slot. -/
  fd : ℤ
  /-- `is_anonymous`. -/
  isAnonymous : ℤ
  /-- `port_pasv_fd`. -/
  portPasvFd : ℤ
  /-- `pasvs_fd`. -/
  pasvsFd : ℤ
  /-- The ledger of the sockets. -/
  ledger : Ledger ℤ

/-- The data connection is closed and forgotten. -/
def closePort (s : SessionSockets) : SessionSockets :=
  {s with portPasvFd:=-1
          ledger:=s.ledger.closed s.portPasvFd}

/-- The listening socket is closed and forgotten if its descriptor is positive. -/
def closePasvs (s : SessionSockets) : SessionSockets :=
  if 0<s.pasvsFd then
    {s with pasvsFd:=-1
            ledger:=s.ledger.closed s.pasvsFd}
  else s

/-- The end of every use of the data connection. -/
def closeData (s : SessionSockets) : SessionSockets := closePasvs (closePort s)

/-- `port_pasv_fd` takes a new socket. -/
def openPort (s : SessionSockets) (d : ℤ) : SessionSockets :=
  {s with portPasvFd:=d
          ledger:=s.ledger.opened d}

/-- `pasvs_fd` takes a new socket. -/
def openPasvs (s : SessionSockets) (d : ℤ) : SessionSockets :=
  {s with pasvsFd:=d
          ledger:=s.ledger.opened d}

/-- How `port_cmd_fn` goes on after it closed the earlier sockets. -/
inductive PortOutcome
  /-- The parameter is refused. -/
  | refused
  /-- `socket` fails. -/
  | socketError
  /-- `bind`, `setsockopt` or `connect` fails on the new socket. -/
  | failed (d : ℤ)
  /-- The new socket is connected. -/
  | connected (d : ℤ)

/-- The start of `port_cmd_fn`. -/
def portStart (s : SessionSockets) : SessionSockets :=
  if 0 ≤ s.portPasvFd then closeData s else s

/-- `port_cmd_fn`. -/
def portCmdFn (s : SessionSockets) : PortOutcome → SessionSockets
  | .refused => portStart s
  | .socketError => {portStart s with portPasvFd:=-1}
  | .failed d => closeData (openPort (portStart s) d)
  | .connected d => openPort (portStart s) d

/-- How `pasv_cmd_fn` goes on. -/
inductive PasvOutcome
  /-- No reply buffer is free. -/
  | noBuffer
  /-- `socket` fails. -/
  | socketError
  /-- `bind` fails on the new socket. -/
  | bindError (d : ℤ)
  /-- `listen` fails on the new socket. -/
  | listenError (d : ℤ)
  /-- The new socket listens. -/
  | listening (d : ℤ)

/-- `pasv_cmd_fn`: a socket that cannot be bound stays in `pasvs_fd`. -/
def pasvCmdFn (s : SessionSockets) : PasvOutcome → SessionSockets
  | .noBuffer => s
  | .socketError => {s with pasvsFd:=-1}
  | .bindError d | .listenError d | .listening d => openPasvs s d

/-- `pasv_accept`, with the accepted socket if there is one. -/
def pasvAccept (s : SessionSockets) : Option ℤ → SessionSockets
  | none => {s with portPasvFd:=-1}
  | some d => openPort s d

/-- The frame of the transfer commands: accept, give up without a data
connection, and close the sockets if the transfer is carried out. -/
def transferCmd (s : SessionSockets) (accepted : Option ℤ) (carriedOut : Bool) : SessionSockets :=
  let s := if 0<s.pasvsFd then pasvAccept s accepted else s
  if s.portPasvFd < 0 then s
  else if carriedOut then closeData s
  else s

/-- `list_cmd_fn`, carried out if the directory opens. -/
def listCmdFn (s : SessionSockets) (accepted : Option ℤ) (dirOpens : Bool) : SessionSockets :=
  transferCmd s accepted dirOpens

/-- `nlist_cmd_fn`, carried out if the directory opens. -/
def nlistCmdFn (s : SessionSockets) (accepted : Option ℤ) (dirOpens : Bool) : SessionSockets :=
  transferCmd s accepted dirOpens

/-- Where `retr_cmd_fn` and `stor_cmd_fn` end. -/
inductive FileOutcome
  /-- The path is not built. -/
  | pathError
  /-- The file does not open. -/
  | openError
  /-- The file has no content to send. -/
  | notRegular
  /-- No buffer is free. -/
  | noBuffer
  /-- The transfer runs, whether it is completed or aborted. -/
  | carriedOut
deriving DecidableEq

/-- `retr_cmd_fn`. -/
def retrCmdFn (s : SessionSockets) (accepted : Option ℤ) (o : FileOutcome) : SessionSockets :=
  transferCmd s accepted (decide (o=.carriedOut))

/-- `stor_cmd_fn`, which refuses an anonymous session first. -/
def storCmdFn (s : SessionSockets) (accepted : Option ℤ) (o : FileOutcome) : SessionSockets :=
  if s.isAnonymous≠0 then s else transferCmd s accepted (decide (o=.carriedOut))

/-- `ftp_session_release`. -/
def ftpSessionRelease (s : SessionSockets) : SessionSockets :=
  let L := s.ledger.closed s.fd
  let L := if s.portPasvFd≠-1 then L.closed s.portPasvFd else L
  let L := if s.pasvsFd≠-1 then L.closed s.pasvsFd else L
  ⟨0,0,-1,-1,L⟩

/-- A command of a session, with the outcomes of its calls. -/
inductive Command
  /-- `PORT`. -/
  | port (o : PortOutcome)
  /-- `EPRT`. -/
  | eprt (o : PortOutcome)
  /-- `PASV`. -/
  | pasv (o : PasvOutcome)
  /-- `EPSV`. -/
  | epsv (o : PasvOutcome)
  /-- `LIST`. -/
  | list (accepted : Option ℤ) (dirOpens : Bool)
  /-- `NLST`. -/
  | nlst (accepted : Option ℤ) (dirOpens : Bool)
  /-- `RETR`. -/
  | retr (accepted : Option ℤ) (o : FileOutcome)
  /-- `STOR`. -/
  | stor (accepted : Option ℤ) (o : FileOutcome)
  /-- `USER`, which decides who the session belongs to. -/
  | user (isAnonymous : ℤ)
  /-- `QUIT`, which only answers. -/
  | quit

/-- A command of a connected session. -/
def run (s : SessionSockets) : Command → SessionSockets
  | .port o | .eprt o => portCmdFn s o
  | .pasv o | .epsv o => pasvCmdFn s o
  | .list accepted dirOpens => listCmdFn s accepted dirOpens
  | .nlst accepted dirOpens => nlistCmdFn s accepted dirOpens
  | .retr accepted o => retrCmdFn s accepted o
  | .stor accepted o => storCmdFn s accepted o
  | .user isAnonymous => {s with isAnonymous:=isAnonymous}
  | .quit => s

/-- What happens to a session slot. -/
inductive Event
  /-- A connection takes the slot. -/
  | connect (client : ℤ)
  /-- A command of the connection. -/
  | command (c : Command)
  /-- The connection ends or times out. -/
  | disconnect

/-- The slot is only read and released while it holds a connection, and only
taken while it is free. -/
def next (s : SessionSockets) : Event → SessionSockets
  | .connect client =>
    if s.fd=0 then
      {s with fd:=client
              portPasvFd:=-1
              pasvsFd:=-1
              ledger:=s.ledger.opened client}
    else s
  | .command c => if 0<s.fd then run s c else s
  | .disconnect => if 0<s.fd then ftpSessionRelease s else s

/-- A slot at start, all zero. -/
def start : SessionSockets := ⟨0,0,0,0,Ledger.empty⟩

/-- The references of a connected session. -/
def refs (s : SessionSockets) : List ℤ :=
  if 0<s.fd then
    s.fd::((if 0 ≤ s.portPasvFd then [s.portPasvFd] else [])++
      if 0 ≤ s.pasvsFd then [s.pasvsFd] else [])
  else []

/-- The open sockets are the references of the session, each once, and none was
closed twice; without a connection none is open. -/
def Owned (s : SessionSockets) : Prop := Accounts s.ledger (refs s)

/-- A new descriptor is not negative and not open. -/
def New (L : Ledger ℤ) (d : ℤ) : Prop := 0≤d ∧ d∉L.live

instance (L : Ledger ℤ) (d : ℤ) : Decidable (New L d) := inferInstanceAs (Decidable (_ ∧ _))

/-- The descriptors of a command are new when its calls return them. -/
def FreshCommand (s : SessionSockets) : Command → Prop
  | .port o | .eprt o =>
    match o with
    | .failed d | .connected d => New (portStart s).ledger d
    | _ => True
  | .pasv o | .epsv o =>
    match o with
    | .bindError d | .listenError d | .listening d => New s.ledger d
    | _ => True
  | .list accepted _ | .nlst accepted _ | .retr accepted _ | .stor accepted _ =>
    ∀ d∈accepted,New s.ledger d
  | .user _ | .quit => True

/-- The system hands out new descriptors, positive ones for connections. -/
def Fresh (s : SessionSockets) : Event → Prop
  | .connect client => 0<client ∧ New s.ledger client
  | .command c => FreshCommand s c
  | .disconnect => True

/-- A transfer does not accept over an open data connection. -/
def AcceptsFree (s : SessionSockets) : Prop := ¬(0<s.pasvsFd ∧ 0 ≤ s.portPasvFd)

instance (s : SessionSockets) : Decidable (AcceptsFree s) :=
  inferInstanceAs (Decidable (¬(_ ∧ _)))

/-- A command overwrites no descriptor of an open socket: no passive request
while a listening socket is open, no transfer while both are open. -/
def KeepsCommand (s : SessionSockets) : Command → Prop
  | .pasv o | .epsv o =>
    match o with
    | .noBuffer => True
    | _ => s.pasvsFd < 0
  | .list _ _ | .nlst _ _ | .retr _ _ => AcceptsFree s
  | .stor _ _ => s.isAnonymous=0 → AcceptsFree s
  | _ => True

/-- The same for the events of a slot. -/
def Keeps (s : SessionSockets) : Event → Prop
  | .command c => 0<s.fd → KeepsCommand s c
  | _ => True

/-- A connected session that owns its sockets; a descriptor that is not there
is minus one. -/
structure Sound (s : SessionSockets) : Prop where
  /-- The control connection. -/
  connected : 0<s.fd
  /-- The sockets are accounted for. -/
  owned : Owned s
  /-- The data connection. -/
  port : s.portPasvFd=-1 ∨ 0 ≤ s.portPasvFd
  /-- The listening socket. -/
  pasvs : s.pasvsFd=-1 ∨ 0 ≤ s.pasvsFd

/-- What a connected session accounts for. -/
theorem owned_connected {s : SessionSockets} (h : 0<s.fd) :
    Owned s ↔ Accounts s.ledger (s.fd::((if 0 ≤ s.portPasvFd then [s.portPasvFd] else [])++
      if 0 ≤ s.pasvsFd then [s.pasvsFd] else [])) := by rw [Owned,refs,if_pos h]

section Operations

variable {s : SessionSockets} {d : ℤ}

/-- Closing an open data connection. -/
theorem Sound.closePort (h : Sound s) (hport : 0 ≤ s.portPasvFd) : Sound (closePort s) := by
  have hacc := (owned_connected h.connected).mp h.owned
  rw [if_pos hport] at hacc
  refine ⟨h.connected,(owned_connected (s:=FtpSockets.closePort s) h.connected).mpr ?_,
    Or.inl rfl,h.pasvs⟩
  exact (hacc.reorder (List.Perm.swap _ _ _)).closed

/-- Closing the listening socket. -/
theorem Sound.closePasvs (h : Sound s) : Sound (closePasvs s) := by
  rw [FtpSockets.closePasvs]
  split
  · rename_i hpos
    have hacc := (owned_connected h.connected).mp h.owned
    rw [if_pos (le_of_lt hpos)] at hacc
    have hperm : ((s.fd::if 0 ≤ s.portPasvFd then [s.portPasvFd] else [])++[s.pasvsFd]).Perm
        ([s.pasvsFd]++s.fd::if 0 ≤ s.portPasvFd then [s.portPasvFd] else []) :=
      List.perm_append_comm
    have hclosed := (hacc.reorder hperm).closed
    refine ⟨h.connected,?_,h.port,Or.inl rfl⟩
    refine (owned_connected (s:=⟨s.fd,s.isAnonymous,s.portPasvFd,-1,s.ledger.closed s.pasvsFd⟩)
      h.connected).mpr ?_
    rw [if_neg (show ¬(0 : ℤ)≤-1 by decide),List.append_nil]
    exact hclosed
  · exact h

/-- The end of every use of an open data connection. -/
theorem Sound.closeData (h : Sound s) (hport : 0 ≤ s.portPasvFd) : Sound (closeData s) :=
  (h.closePort hport).closePasvs

/-- A new data connection when there is none. -/
theorem Sound.openPort (h : Sound s) (hport : s.portPasvFd < 0) (hnew : New s.ledger d) :
    Sound (openPort s d) := by
  have hacc := (owned_connected h.connected).mp h.owned
  rw [if_neg (not_le.mpr hport),List.nil_append] at hacc
  refine ⟨h.connected,(owned_connected (s:=FtpSockets.openPort s d) h.connected).mpr ?_,
    Or.inr hnew.1,h.pasvs⟩
  have hopened := (hacc.opened hnew.2).reorder (List.Perm.swap _ _ _)
  rw [if_pos (show 0 ≤ (FtpSockets.openPort s d).portPasvFd from hnew.1)]
  exact hopened

/-- A new listening socket when there is none. -/
theorem Sound.openPasvs (h : Sound s) (hpasvs : s.pasvsFd < 0) (hnew : New s.ledger d) :
    Sound (openPasvs s d) := by
  have hacc := (owned_connected h.connected).mp h.owned
  rw [if_neg (not_le.mpr hpasvs),List.append_nil] at hacc
  refine ⟨h.connected,(owned_connected (s:=FtpSockets.openPasvs s d) h.connected).mpr ?_,
    h.port,Or.inr hnew.1⟩
  have hperm : ([d]++s.fd::if 0 ≤ s.portPasvFd then [s.portPasvFd] else []).Perm
      ((s.fd::if 0 ≤ s.portPasvFd then [s.portPasvFd] else [])++[d]) := List.perm_append_comm
  have hopened := (hacc.opened hnew.2).reorder hperm
  rw [if_pos (show 0 ≤ (FtpSockets.openPasvs s d).pasvsFd from hnew.1)]
  exact hopened

/-- A failed call that finds no data connection stores minus one. -/
theorem Sound.noPort (h : Sound s) (hport : s.portPasvFd < 0) : Sound {s with portPasvFd:=-1} := by
  have hsame : s.portPasvFd=-1 := h.port.resolve_right (not_le.mpr hport)
  rwa [←hsame]

/-- A failed call that finds no listening socket stores minus one. -/
theorem Sound.noPasvs (h : Sound s) (hpasvs : s.pasvsFd < 0) : Sound {s with pasvsFd:=-1} := by
  have hsame : s.pasvsFd=-1 := h.pasvs.resolve_right (not_le.mpr hpasvs)
  rwa [←hsame]

/-- Accepting when there is no data connection. -/
theorem Sound.pasvAccept (h : Sound s) (hport : s.portPasvFd < 0) {accepted : Option ℤ}
    (hnew : ∀ d∈accepted,New s.ledger d) : Sound (pasvAccept s accepted) := by
  cases accepted with
  | none => exact h.noPort hport
  | some d => exact h.openPort hport (hnew d rfl)

/-- The start of a `PORT` leaves no data connection. -/
theorem Sound.portStart (h : Sound s) :
    Sound (portStart s) ∧ (portStart s).portPasvFd < 0 := by
  rw [FtpSockets.portStart]
  split
  · rename_i hport
    refine ⟨h.closeData hport,?_⟩
    rw [FtpSockets.closeData,FtpSockets.closePasvs]
    split
    · exact neg_one_lt_zero
    · exact neg_one_lt_zero
  · rename_i hport
    exact ⟨h,not_le.mp hport⟩

/-- `PORT` and `EPRT` keep the sockets accounted for. -/
theorem Sound.portCmdFn (h : Sound s) {o : PortOutcome} (hfresh : FreshCommand s (.port o)) :
    Sound (portCmdFn s o) := by
  obtain ⟨hstart,hnone⟩ := h.portStart
  cases o with
  | refused => exact hstart
  | socketError => exact hstart.noPort hnone
  | failed d =>
    have hnew : New (FtpSockets.portStart s).ledger d := hfresh
    exact (hstart.openPort hnone hnew).closeData hnew.1
  | connected d => exact hstart.openPort hnone hfresh

/-- A passive request without a listening socket keeps the sockets accounted for. -/
theorem Sound.pasvCmdFn (h : Sound s) {o : PasvOutcome} (hfresh : FreshCommand s (.pasv o))
    (hkeeps : KeepsCommand s (.pasv o)) : Sound (pasvCmdFn s o) := by
  cases o with
  | noBuffer => exact h
  | socketError => exact h.noPasvs hkeeps
  | bindError d | listenError d | listening d => exact h.openPasvs hkeeps hfresh

/-- The end of a transfer command keeps the sockets accounted for. -/
theorem Sound.endTransfer (h : Sound s) (carriedOut : Bool) :
    Sound (if s.portPasvFd < 0 then s else if carriedOut then FtpSockets.closeData s else s) := by
  split
  · exact h
  · rename_i hport
    split
    · exact h.closeData (not_lt.mp hport)
    · exact h

/-- A transfer that accepts over no data connection keeps the sockets accounted for. -/
theorem Sound.transferCmd (h : Sound s) {accepted : Option ℤ} (carriedOut : Bool)
    (hnew : ∀ d∈accepted,New s.ledger d) (hfree : AcceptsFree s) :
    Sound (transferCmd s accepted carriedOut) := by
  have haccepted : Sound (if 0<s.pasvsFd then FtpSockets.pasvAccept s accepted else s) := by
    split
    · rename_i hpos
      exact h.pasvAccept (not_le.mp fun hport => hfree ⟨hpos,hport⟩) hnew
    · exact h
  exact haccepted.endTransfer carriedOut

/-- A command that overwrites no open descriptor keeps the sockets accounted for. -/
theorem Sound.run (h : Sound s) {c : Command} (hfresh : FreshCommand s c)
    (hkeeps : KeepsCommand s c) : Sound (run s c) := by
  cases c with
  | port o | eprt o => exact h.portCmdFn hfresh
  | pasv o | epsv o => exact h.pasvCmdFn hfresh hkeeps
  | list accepted dirOpens | nlst accepted dirOpens => exact h.transferCmd dirOpens hfresh hkeeps
  | retr accepted o => exact h.transferCmd _ hfresh hkeeps
  | stor accepted o =>
    rw [FtpSockets.run,storCmdFn]
    split
    · exact h
    · rename_i hanonymous
      exact h.transferCmd _ hfresh (hkeeps (not_not.mp hanonymous))
  | user isAnonymous => exact ⟨h.connected,h.owned,h.port,h.pasvs⟩
  | quit => exact h

end Operations

/-- An open socket that no field of the session refers to. -/
structure Lost (p : ℤ) (s : SessionSockets) : Prop where
  /-- It is a descriptor. -/
  nonneg : 0 ≤ p
  /-- It is open. -/
  live : p∈s.ledger.live
  /-- It is not the control connection. -/
  fd : p≠s.fd
  /-- It is not the data connection. -/
  port : p≠s.portPasvFd
  /-- It is not the listening socket. -/
  pasvs : p≠s.pasvsFd

section Leaks

variable {s : SessionSockets} {p : ℤ}

/-- A lost socket is not accounted for. -/
theorem Lost.not_owned (h : Lost p s) : ¬Owned s := by
  apply not_accounts_of_lost h.live
  intro hmem
  rw [refs] at hmem
  split at hmem
  · rcases List.mem_cons.mp hmem with heq | hmem
    · exact h.fd heq
    · rcases List.mem_append.mp hmem with hmem | hmem
      · split at hmem
        · exact h.port (List.mem_singleton.mp hmem)
        · exact List.not_mem_nil hmem
      · split at hmem
        · exact h.pasvs (List.mem_singleton.mp hmem)
        · exact List.not_mem_nil hmem
  · exact List.not_mem_nil hmem

/-- A descriptor is not minus one. -/
theorem ne_neg_one_of_nonneg {d : ℤ} (hd : 0 ≤ d) : d≠-1 := by omega

/-- A lost socket stays lost when the other sockets are closed. -/
theorem Lost.closeData (h : Lost p s) : Lost p (closeData s) := by
  have hport : Lost p (closePort s) :=
    ⟨h.nonneg,Ledger.mem_closed h.live h.port,h.fd,ne_neg_one_of_nonneg h.nonneg,h.pasvs⟩
  rw [FtpSockets.closeData,closePasvs]
  split
  · exact ⟨h.nonneg,Ledger.mem_closed hport.live hport.pasvs,hport.fd,hport.port,
      ne_neg_one_of_nonneg h.nonneg⟩
  · exact hport

/-- The end of a transfer command does not find a lost socket. -/
theorem Lost.endTransfer (h : Lost p s) (carriedOut : Bool) :
    Lost p (if s.portPasvFd < 0 then s else if carriedOut then FtpSockets.closeData s else s) := by
  split
  · exact h
  · split
    · exact h.closeData
    · exact h

/-- The references of a sound session are different. -/
theorem Sound.distinct (h : Sound s) (hport : 0 ≤ s.portPasvFd) (hpasvs : 0 ≤ s.pasvsFd) :
    s.portPasvFd≠s.pasvsFd := by
  have hacc := (owned_connected h.connected).mp h.owned
  rw [if_pos hport,if_pos hpasvs] at hacc
  have hnodup := hacc.perm.nodup_iff.mp hacc.nodup
  intro heq
  rw [heq] at hnodup
  exact (List.nodup_cons.mp (List.nodup_cons.mp hnodup).2).1 List.mem_cons_self

/-- The data connection of a sound session is open and not the control connection. -/
theorem Sound.port_live (h : Sound s) (hport : 0 ≤ s.portPasvFd) :
    s.portPasvFd∈s.ledger.live ∧ s.portPasvFd≠s.fd := by
  have hacc := (owned_connected h.connected).mp h.owned
  rw [if_pos hport] at hacc
  have hnodup := hacc.perm.nodup_iff.mp hacc.nodup
  refine ⟨hacc.perm.mem_iff.mpr (List.mem_cons_of_mem _ List.mem_cons_self),?_⟩
  intro heq
  rw [heq] at hnodup
  exact (List.nodup_cons.mp hnodup).1 List.mem_cons_self

/-- The listening socket of a sound session is open and not the control connection. -/
theorem Sound.pasvs_live (h : Sound s) (hpasvs : 0 ≤ s.pasvsFd) :
    s.pasvsFd∈s.ledger.live ∧ s.pasvsFd≠s.fd := by
  have hacc := (owned_connected h.connected).mp h.owned
  rw [if_pos hpasvs] at hacc
  have hnodup := hacc.perm.nodup_iff.mp hacc.nodup
  have hmem : ∀ ports : List ℤ,s.pasvsFd∈ports++[s.pasvsFd] := fun ports =>
    List.mem_append_right _ List.mem_cons_self
  refine ⟨hacc.perm.mem_iff.mpr (List.mem_cons_of_mem _ (hmem _)),?_⟩
  intro heq
  rw [←heq] at hnodup
  exact (List.nodup_cons.mp hnodup).1 (hmem _)

/-- A passive request loses an open listening socket. -/
theorem Sound.pasv_loses (h : Sound s) {o : PasvOutcome} (hfresh : FreshCommand s (.pasv o))
    (hkeeps : ¬KeepsCommand s (.pasv o)) : Lost s.pasvsFd (FtpSockets.pasvCmdFn s o) := by
  have hopen : o≠.noBuffer ∧ 0 ≤ s.pasvsFd := by
    cases o with
    | noBuffer => exact absurd trivial hkeeps
    | socketError | bindError d | listenError d | listening d =>
      exact ⟨by simp only [ne_eq,reduceCtorEq,not_false_eq_true],not_lt.mp hkeeps⟩
  obtain ⟨hbuffer,hpasvs⟩ := hopen
  obtain ⟨hlive,hfd⟩ := h.pasvs_live hpasvs
  have hport : s.pasvsFd≠s.portPasvFd := by
    rcases h.port with hnone | hport
    · omega
    · exact (h.distinct hport hpasvs).symm
  cases o with
  | noBuffer => exact absurd rfl hbuffer
  | socketError => exact ⟨hpasvs,hlive,hfd,hport,ne_neg_one_of_nonneg hpasvs⟩
  | bindError d | listenError d | listening d =>
    have hnew : New s.ledger d := hfresh
    have hne : s.pasvsFd≠d := fun heq => hnew.2 (heq▸hlive)
    exact ⟨hpasvs,List.mem_cons_of_mem _ hlive,hfd,hport,hne⟩

/-- A transfer that accepts over an open data connection loses it. -/
theorem Sound.transfer_loses (h : Sound s) {accepted : Option ℤ} (carriedOut : Bool)
    (hnew : ∀ d∈accepted,New s.ledger d) (hfree : ¬AcceptsFree s) :
    Lost s.portPasvFd (FtpSockets.transferCmd s accepted carriedOut) := by
  obtain ⟨hpos,hport⟩ := not_not.mp hfree
  obtain ⟨hlive,hfd⟩ := h.port_live hport
  have hpasvs := h.distinct hport (le_of_lt hpos)
  have haccepted : Lost s.portPasvFd
      (if 0<s.pasvsFd then FtpSockets.pasvAccept s accepted else s) := by
    rw [if_pos hpos]
    cases accepted with
    | none => exact ⟨hport,hlive,hfd,ne_neg_one_of_nonneg hport,hpasvs⟩
    | some d =>
      have hd := hnew d rfl
      have hne : s.portPasvFd≠d := fun heq => hd.2 (heq▸hlive)
      exact ⟨hport,List.mem_cons_of_mem _ hlive,hfd,hne,hpasvs⟩
  exact haccepted.endTransfer carriedOut

/-- A command that overwrites an open descriptor leaves the sockets unaccounted for. -/
theorem Sound.not_owned_run (h : Sound s) {c : Command} (hfresh : FreshCommand s c)
    (hkeeps : ¬KeepsCommand s c) : ¬Owned (FtpSockets.run s c) := by
  cases c with
  | port o | eprt o | user isAnonymous | quit => exact absurd trivial hkeeps
  | pasv o | epsv o => exact (h.pasv_loses hfresh hkeeps).not_owned
  | list accepted dirOpens | nlst accepted dirOpens =>
    exact (h.transfer_loses dirOpens hfresh hkeeps).not_owned
  | retr accepted o => exact (h.transfer_loses _ hfresh hkeeps).not_owned
  | stor accepted o =>
    simp only [KeepsCommand,Classical.not_imp] at hkeeps
    rw [FtpSockets.run,storCmdFn,if_neg (not_not.mpr hkeeps.1)]
    exact (h.transfer_loses _ hfresh hkeeps.2).not_owned

/-- A released session leaves no socket open. -/
theorem Sound.release (h : Sound s) : Accounts (ftpSessionRelease s).ledger [] := by
  have hacc := ((owned_connected h.connected).mp h.owned).closed
  rw [ftpSessionRelease]
  dsimp only
  have hport : Accounts
      (if s.portPasvFd≠-1 then (s.ledger.closed s.fd).closed s.portPasvFd else s.ledger.closed s.fd)
      (if 0 ≤ s.pasvsFd then [s.pasvsFd] else []) := by
    rcases h.port with hnone | hopen
    · rw [if_neg (not_not.mpr hnone)]
      rwa [if_neg (by omega),List.nil_append] at hacc
    · rw [if_pos (by omega)]
      rw [if_pos hopen] at hacc
      exact hacc.closed
  rcases h.pasvs with hnone | hopen
  · rw [if_neg (not_not.mpr hnone)]
    rwa [if_neg (show ¬0 ≤ s.pasvsFd by omega)] at hport
  · rw [if_pos (show s.pasvsFd≠-1 by omega)]
    rw [if_pos hopen] at hport
    exact hport.closed

end Leaks

/-- A slot is free with no socket open, or holds a sound session. -/
def Orderly (s : SessionSockets) : Prop := (s.fd=0 ∧ Accounts s.ledger []) ∨ Sound s

/-- At all times every open socket is referenced once and none was closed
twice, and none is open without a connection. -/
def NoLeak (s : SessionSockets) : Prop := Owned s ∧ (¬0<s.fd → s.ledger.live=[])

/-- An orderly slot leaks nothing. -/
theorem Orderly.noLeak (s : SessionSockets) (h : Orderly s) : NoLeak s := by
  rcases h with ⟨hfree,hacc⟩ | h
  · have hfd : ¬0<s.fd := by omega
    refine ⟨?_,fun _ => List.perm_nil.mp hacc.perm⟩
    rw [Owned,refs,if_neg hfd]
    exact hacc
  · exact ⟨h.owned,fun hfree => absurd h.connected hfree⟩

/-- An event that overwrites no open descriptor keeps the slot orderly. -/
theorem orderly_next (s : SessionSockets) (e : Event) (h : Orderly s) (hfresh : Fresh s e)
    (hkeeps : Keeps s e) : Orderly (next s e) := by
  rcases h with ⟨hfree,hacc⟩ | h
  · have hfd : ¬0<s.fd := by omega
    cases e with
    | connect client =>
      rw [next,if_pos hfree]
      refine Or.inr ⟨hfresh.1,?_,Or.inl rfl,Or.inl rfl⟩
      rw [Owned,refs,if_pos hfresh.1]
      exact hacc.opened hfresh.2.2
    | command c =>
      rw [next,if_neg hfd]
      exact Or.inl ⟨hfree,hacc⟩
    | disconnect =>
      rw [next,if_neg hfd]
      exact Or.inl ⟨hfree,hacc⟩
  · have hconnected := h.connected
    cases e with
    | connect client =>
      rw [next,if_neg (ne_of_gt hconnected)]
      exact Or.inr h
    | command c =>
      rw [next,if_pos hconnected]
      exact Or.inr (h.run hfresh (hkeeps hconnected))
    | disconnect =>
      rw [next,if_pos hconnected]
      exact Or.inl ⟨rfl,h.release⟩

/-- An event that overwrites an open descriptor leaks its socket. -/
theorem not_noLeak_next (s : SessionSockets) (e : Event) (h : Orderly s) (hfresh : Fresh s e)
    (hkeeps : ¬Keeps s e) : ¬NoLeak (next s e) := by
  cases e with
  | connect client | disconnect => exact absurd trivial hkeeps
  | command c =>
    simp only [Keeps,Classical.not_imp] at hkeeps
    obtain ⟨hconnected,hkeeps⟩ := hkeeps
    rcases h with ⟨hfree,-⟩ | h
    · omega
    · rw [next,if_pos hconnected]
      exact fun hleak => h.not_owned_run hfresh hkeeps hleak.1

/-- A slot starts free. -/
theorem orderly_start : Orderly start :=
  Or.inl ⟨rfl,List.nodup_nil,List.Perm.refl _,rfl⟩

/-- If the system hands out new descriptors, the sockets of a slot are owned in
every state of a run exactly if no passive request finds a listening socket open
and no transfer finds both a listening socket and a data connection. -/
theorem sockets_owned_iff (es : List Event) (hfresh : AlongRun next Fresh start es) :
    Throughout next NoLeak start es ↔ AlongRun next Keeps start es :=
  throughout_iff_of_assumed orderly_next Orderly.noLeak not_noLeak_next orderly_start hfresh

/-- Two passive requests in a row leave the first listening socket open after
the session has ended. -/
theorem repeated_pasv_leaks :
    ¬∀ es,AlongRun next Fresh start es → Throughout next NoLeak start es := by
  intro h
  have hrun := h
    [.connect 4,.command (.pasv (.listening 5)),.command (.pasv (.listening 6)),.disconnect]
    ⟨⟨by decide,by decide,by decide⟩,⟨by decide,by decide⟩,⟨by decide,by decide⟩,trivial,trivial⟩
  have hlast := hrun.last
  exact absurd (hlast.2 (by decide)) (by decide)

/-- A passive listing after an active connection that failed, then the end of
the session. -/
theorem sockets_owned_example :
    Throughout next NoLeak start
      [.connect 4,.command (.port (.failed 5)),.command (.pasv (.listening 5)),
        .command (.list (some 6) true),.command .quit,.disconnect] :=
  (sockets_owned_iff
    [.connect 4,.command (.port (.failed 5)),.command (.pasv (.listening 5)),
      .command (.list (some 6) true),.command .quit,.disconnect]
    ⟨⟨by decide,by decide,by decide⟩,⟨by decide,by decide⟩,⟨by decide,by decide⟩,
      fun d hd => by cases hd; decide,trivial,trivial,trivial⟩).mpr
    ⟨trivial,fun _ => trivial,fun _ => (by decide : (-1 : ℤ)<0),
      fun _ h => absurd h.2 (by decide),fun _ => trivial,trivial,trivial⟩

end ZephyrApp.FtpSockets

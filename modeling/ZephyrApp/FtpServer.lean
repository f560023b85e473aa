import ZephyrApp.EventRuns
import ZephyrApp.FtpNeeds

/-!
# Receive loop of the FTP server

All sessions share one receive buffer. What `recv` returns is taken for one
command line: two bytes before its end the buffer is terminated, whatever those
two bytes are, and the line is processed. A run ends with the first fault; until
then every current directory is a string in its buffer.
-/

namespace ZephyrApp.FtpServer

open EventRuns MachineBytes FtpPath FtpBuffers FtpCommands FtpNeeds
open FtpSession (Session Slots ftpSessionReset takenSlot ascii)

/-- What one `recv` puts into the buffer. -/
structure Segment where
  /-- The bytes. -/
  bytes : List Byte
  /-- There is one at least. -/
  pos : 0 < bytes.length
  /-- They fit the buffer. -/
  fits : bytes.length≤256
deriving DecidableEq

/-- A result of `recv` other than zero. -/
inductive Received where
  /-- Minus one. -/
  | error
  /-- A number of bytes. -/
  | bytes (segment : Segment)

/-- `rc`. -/
def Received.rc : Received → ℤ
  | .error => -1
  | .bytes segment => segment.bytes.length

/-- `data_buf` after `recv`. -/
def Received.fill (data : List Byte) : Received → List Byte
  | .error => data
  | .bytes segment => segment.bytes++data.drop segment.bytes.length

/-- Store a byte in `data_buf` at any index. -/
def storeAt (data : List Byte) (i : ℤ) (c : Byte) : Except Fault (List Byte) :=
  if 0 ≤ i ∧ i < data.length then .ok (data.set i.toNat c) else .error .dataBuf

/-- What the receive loop does with a result of `recv` on a session. -/
def serve (root : MountPoint) (s : Session) (data : List Byte) (r : Received) (o : Outcomes) :
    Except Fault Report := do
  let data ← storeAt (r.fill data) (r.rc-2) 0
  ftpProccess root s data o

/-- The variables of the server. -/
structure Ftpd where
  /-- `ftp_sessions`. -/
  slots : Slots
  /-- `data_buf`. -/
  dataBuf : List Byte

/-- The server while it runs, or the fault that ended the run. -/
inductive Service where
  /-- It runs. -/
  | live (f : Ftpd)
  /-- It did something to memory that is not its own. -/
  | broken (fault : Fault)

/-- The fault that ended the run. -/
def Service.fault : Service → Option Fault
  | .live _ => none
  | .broken fault => some fault

/-- The server at start, all zero. -/
def start : Service := .live ⟨FtpSession.ftpStart,List.replicate 256 0⟩

/-- What happens to the server. -/
inductive Event where
  /-- A connection is accepted, with its descriptor. -/
  | accept (client : ℤ)
  /-- `recv` on a slot returns. -/
  | recv (slot : Fin 4) (r : Received) (o : Outcomes)
  /-- A slot is released, because its connection ended or timed out. -/
  | release (slot : Fin 4)

/-- The running server after an event. -/
def nextLive (root : MountPoint) (f : Ftpd) : Event → Service
  | .accept client =>
    match takenSlot f.slots client with
    | none => .live f
    | some i =>
      .live {f with slots := Function.update f.slots i {f.slots i with
        fd := client
        transfer := {(f.slots i).transfer with portPasvFd := -1,pasvsFd := -1}}}
  | .recv i r o =>
    if 0 < (f.slots i).fd then
      match serve root (f.slots i) f.dataBuf r o with
      | .error fault => .broken fault
      | .ok report => .live ⟨Function.update f.slots i report.session,report.data⟩
    else .live f
  | .release i =>
    if 0 < (f.slots i).fd then
      .live {f with slots := Function.update f.slots i (ftpSessionReset (f.slots i))}
    else .live f

/-- The server after an event. -/
def next (root : MountPoint) : Service → Event → Service
  | .live f,e => nextLive root f e
  | .broken fault,_ => .broken fault

/-- `ROOT` of the flash file system. -/
def lfs1 : MountPoint := ⟨ascii ['/','l','f','s','1'],by decide,by decide⟩

/-- Outcomes of calls that all succeed. -/
def allOk : Outcomes := ⟨true,[],5,true,true,true,true,(0,0),none,6,true,true,none,0,true⟩

/-- The command that a result of `recv` becomes. -/
def callOf (s : Session) (data : List Byte) (r : Received) (o : Outcomes) : Call :=
  splitLine s ((r.fill data).set (r.rc-2).toNat 0) o

/-- The fault that serving a result of `recv` ends with. -/
def serveFault (s : Session) (data : List Byte) (r : Received) (o : Outcomes) : Option Fault :=
  if r.rc < 2 then some .dataBuf else faultOf (callOf s data r o) (need (callOf s data r o))

/-- The fault that an event ends the run with. -/
def eventFault (f : Ftpd) : Event → Option Fault
  | .recv i r o => if 0 < (f.slots i).fd then serveFault (f.slots i) f.dataBuf r o else none
  | _ => none

/-- What holds of the server while it runs. -/
structure Sound (f : Ftpd) : Prop where
  /-- Every current directory is a string in its buffer. -/
  bounded : ∀ i,Bounded (f.slots i)
  /-- `sizeof(data_buf)`. -/
  size : f.dataBuf.length=256

/-- Whether an event is about a slot and changes it. -/
def Concerns (f : Ftpd) (i : Fin 4) : Event → Prop
  | .accept client => takenSlot f.slots client=some i
  | .recv j _ _ => j=i ∧ 0 < (f.slots j).fd
  | .release j => j=i ∧ 0 < (f.slots j).fd

/-- What an event that does not end the run leaves of a slot. -/
inductive SlotStep (root : MountPoint) (f : Ftpd) (i : Fin 4) : Event → Session → Prop where
  /-- The slot takes the connection. -/
  | taken {client : ℤ} (htaken : takenSlot f.slots client=some i) :
    SlotStep root f i (.accept client) {f.slots i with
      fd := client
      transfer := {(f.slots i).transfer with portPasvFd := -1,pasvsFd := -1}}
  /-- Its line is processed. -/
  | processed {r : Received} {o : Outcomes} {report : Report} (hfd : 0 < (f.slots i).fd)
    (hlong : 2≤r.rc) (hrun : processCall root (callOf (f.slots i) f.dataBuf r o)=.ok report) :
    SlotStep root f i (.recv i r o) report.session
  /-- The slot is reset. -/
  | reset (hfd : 0 < (f.slots i).fd) :
    SlotStep root f i (.release i) (ftpSessionReset (f.slots i))
  /-- The slot stays as it was. -/
  | kept {e : Event} (hother : ¬Concerns f i e) : SlotStep root f i e (f.slots i)

section Steps

variable {f : Ftpd} {s : Session} {data : List Byte} {r : Received} {o : Outcomes}

/-- Splitting a line keeps the session. -/
@[simp] theorem splitLine_session : (splitLine s data o).session=s := by
  rw [splitLine]
  split <;> rfl

/-- Splitting a line keeps the outcomes. -/
@[simp] theorem splitLine_outcomes : (splitLine s data o).outcomes=o := by
  rw [splitLine]
  split <;> rfl

/-- Splitting a line keeps the size of the buffer. -/
@[simp] theorem splitLine_length : (splitLine s data o).data.length=data.length := by
  rw [splitLine]
  split
  · rfl
  · exact List.length_set

/-- The buffer keeps its size. -/
theorem Received.length_fill (h : data.length=256) : (r.fill data).length=256 := by
  cases r with
  | error => exact h
  | bytes segment =>
    have hfits := segment.fits
    rw [Received.fill,List.length_append,List.length_drop,h]
    omega

/-- The buffer bounds the result. -/
theorem Received.rc_le (r : Received) : r.rc≤256 := by
  cases r with
  | error => exact neg_one_lt_zero.le.trans (by decide)
  | bytes segment => exact Int.ofNat_le.mpr segment.fits

/-- A result of two bytes or more is served as its command. -/
theorem serve_eq (root : MountPoint) (hsize : data.length=256) (hlong : 2≤r.rc) :
    serve root s data r o=processCall root (callOf s data r o) := by
  have hlen := Received.length_fill (r := r) hsize
  have hrc := r.rc_le
  rw [serve,storeAt,hlen,if_pos ⟨by omega,by push_cast; omega⟩]
  rfl

/-- A command has the session it is for. -/
theorem callOf_session (s : Session) (data : List Byte) (r : Received) (o : Outcomes) :
    (callOf s data r o).session=s := splitLine_session

/-- It has the outcomes of the event. -/
theorem callOf_outcomes (s : Session) (data : List Byte) (r : Received) (o : Outcomes) :
    (callOf s data r o).outcomes=o := splitLine_outcomes

/-- A result that is served has two bytes or more and is served as its command. -/
theorem processCall_of_serve {root : MountPoint} {report : Report}
    (h : serve root s data r o=.ok report) :
    2≤r.rc ∧ processCall root (callOf s data r o)=.ok report := by
  rw [serve,storeAt] at h
  split at h
  · rename_i hin
    exact ⟨by omega,h⟩
  · cases h

/-- An event does to each slot what is told. -/
theorem slotStep_of_nextLive {root : MountPoint} {f' : Ftpd} {e : Event}
    (hlive : nextLive root f e=.live f') (i : Fin 4) : SlotStep root f i e (f'.slots i) := by
  cases e with
  | accept client =>
    rw [nextLive] at hlive
    cases htaken : takenSlot f.slots client with
    | none =>
      rw [htaken] at hlive
      obtain rfl := Service.live.inj hlive
      refine .kept fun hthis => ?_
      rw [Concerns,htaken] at hthis
      cases hthis
    | some j =>
      rw [htaken] at hlive
      obtain rfl := Service.live.inj hlive
      dsimp only
      by_cases hji : j=i
      · subst hji
        rw [Function.update_self]
        exact .taken htaken
      · rw [Function.update_of_ne (Ne.symm hji)]
        exact .kept fun hthis => hji (Option.some.inj (htaken.symm.trans hthis))
  | recv j r o =>
    rw [nextLive] at hlive
    split at hlive
    · rename_i hfd
      cases hserve : serve root (f.slots j) f.dataBuf r o with
      | error fault =>
        rw [hserve] at hlive
        cases hlive
      | ok report =>
        rw [hserve] at hlive
        obtain rfl := Service.live.inj hlive
        obtain ⟨hlong,hrun⟩ := processCall_of_serve hserve
        dsimp only
        by_cases hji : j=i
        · subst hji
          rw [Function.update_self]
          exact .processed hfd hlong hrun
        · rw [Function.update_of_ne (Ne.symm hji)]
          exact .kept fun hthis => hji hthis.1
    · rename_i hfd
      obtain rfl := Service.live.inj hlive
      exact .kept fun hthis => hfd hthis.2
  | release j =>
    rw [nextLive] at hlive
    split at hlive
    · rename_i hfd
      obtain rfl := Service.live.inj hlive
      dsimp only
      by_cases hji : j=i
      · subst hji
        rw [Function.update_self]
        exact .reset hfd
      · rw [Function.update_of_ne (Ne.symm hji)]
        exact .kept fun hthis => hji hthis.1
    · rename_i hfd
      obtain rfl := Service.live.inj hlive
      exact .kept fun hthis => hfd hthis.2

/-- Serving a result ends as told. -/
theorem ends_serve (root : MountPoint) (hs : Bounded s) (hsize : data.length=256) :
    Ends 256 (serveFault s data r o) (serve root s data r o) := by
  have hlen := Received.length_fill (r := r) hsize
  rw [serveFault]
  split
  · rename_i hshort
    rw [serve,storeAt,if_neg fun hin => by omega]
    rfl
  · rename_i hlong
    rw [serve_eq root hsize (not_lt.mp hlong)]
    have hends := ends_processCall (c := callOf s data r o) root
      (by rw [callOf,splitLine_session]; exact hs)
    rw [show (callOf s data r o).data.length=256 by
      rw [callOf,splitLine_length,List.length_set,hlen]] at hends
    exact hends

/-- Replacing a session by a bounded one keeps the server sound. -/
theorem Sound.update {t : Session} (h : Sound f) (i : Fin 4) (ht : Bounded t)
    (hsize : data.length=256) : Sound ⟨Function.update f.slots i t,data⟩ := by
  refine ⟨fun j => ?_,hsize⟩
  by_cases hij : j=i
  · subst hij
    dsimp only
    rw [Function.update_self]
    exact ht
  · dsimp only
    rw [Function.update_of_ne hij]
    exact h.bounded j

/-- A cleared directory is a string in its buffer. -/
theorem bounded_replicate {t : Session} {n : ℕ} (hn : n=256)
    (h : t.currentdir=List.replicate n 0) : Bounded t := by
  subst hn
  refine ⟨by rw [h,List.length_replicate],?_⟩
  rw [Terminated,h]
  exact List.mem_replicate.mpr ⟨by decide,rfl⟩

/-- An event ends a sound run with the fault that is told, or leaves it sound. -/
theorem nextLive_cases (root : MountPoint) (h : Sound f) (e : Event) :
    match eventFault f e with
    | some fault => nextLive root f e=.broken fault
    | none => ∃ f',nextLive root f e=.live f' ∧ Sound f' := by
  cases e with
  | accept client =>
    simp only [eventFault,nextLive]
    split
    · exact ⟨f,rfl,h⟩
    · exact ⟨_,rfl,h.update _ ((h.bounded _).congr rfl) h.size⟩
  | release i =>
    simp only [eventFault,nextLive]
    split
    · exact ⟨_,rfl,h.update i (bounded_replicate (h.bounded i).size rfl) h.size⟩
    · exact ⟨f,rfl,h⟩
  | recv i r o =>
    simp only [eventFault,nextLive]
    by_cases hfd : 0 < (f.slots i).fd
    · rw [if_pos hfd,if_pos hfd]
      have hends := ends_serve (r := r) (o := o) root (h.bounded i) h.size
      cases hserve : serve root (f.slots i) f.dataBuf r o with
      | error fault =>
        rw [hserve] at hends
        rw [show serveFault (f.slots i) f.dataBuf r o=some fault from hends]
      | ok report =>
        rw [hserve] at hends
        obtain ⟨hnone,hbounded,hsize⟩ := hends
        rw [hnone]
        exact ⟨_,rfl,h.update i hbounded hsize⟩
    · rw [if_neg hfd,if_neg hfd]
      exact ⟨f,rfl,h⟩

/-- The server at start is sound. -/
theorem sound_start : Sound ⟨FtpSession.ftpStart,List.replicate 256 0⟩ :=
  ⟨fun _ => bounded_replicate rfl rfl,List.length_replicate⟩

/-- A server that runs on is sound. -/
theorem Sound.next {f' : Ftpd} {root : MountPoint} {e : Event} (h : Sound f)
    (hnext : nextLive root f e=.live f') : Sound f' := by
  have hcases := nextLive_cases root h e
  cases hfault : eventFault f e with
  | some fault =>
    rw [hfault] at hcases
    rw [show nextLive root f e=.broken fault from hcases] at hnext
    cases hnext
  | none =>
    rw [hfault] at hcases
    obtain ⟨f'',hlive,hsound⟩ := hcases
    rw [hlive] at hnext
    exact Service.live.inj hnext▸hsound

/-- The server is sound if it runs. -/
def SoundLive (s : Service) : Prop := ∀ f,s=.live f → Sound f

/-- An event leaves the server sound if it runs. -/
theorem soundLive_next (root : MountPoint) (s : Service) (e : Event) (hs : SoundLive s) :
    SoundLive (FtpServer.next root s e) := by
  intro f' hf'
  cases s with
  | live f => exact (hs f rfl).next hf'
  | broken fault => cases hf'

/-- A server that still runs is sound. -/
theorem soundLive_run (root : MountPoint) (es : List Event) :
    SoundLive (finalState (FtpServer.next root) start es) :=
  finalState_preserves (soundLive_next root) (fun f hf => by cases hf; exact sound_start) es

end Steps

section Lines

variable {s : Session} {data : List Byte} {o : Outcomes}

/-- A string ends at its terminator. -/
theorem cString_append_zero (pre post : List Byte) : cString (pre++0::post)=cString pre := by
  induction pre with
  | nil => rfl
  | cons c pre ih =>
    rw [cString,cString,List.cons_append,List.takeWhile_cons,List.takeWhile_cons]
    split
    · exact congrArg (c::·) ih
    · rfl

/-- A terminator cuts a string. -/
theorem cString_set_take {k : ℕ} (hk : k < data.length) :
    cString (data.set k 0)=cString (data.take k) := by
  rw [List.set_eq_take_append_cons_drop,if_pos hk,cString_append_zero]

/-- The command of a line is what stands before its first blank, the parameter
what stands behind it. -/
theorem splitLine_line : (splitLine s data o).cmd=FtpSession.lineCmd (cString data) ∧
    (splitLine s data o).text=FtpSession.lineParam (cString data) := by
  rw [splitLine,FtpSession.lineCmd,FtpSession.lineParam]
  cases hfind : strchr (cString data) 0x20 with
  | none =>
    have hnot : ∀ c∈cString data,decide (c≠(0x20 : Byte))=true := fun c hc =>
      decide_eq_true fun heq => strchr_none.mp hfind (heq▸hc)
    rw [List.takeWhile_eq_self_iff.mpr hnot,List.dropWhile_eq_nil_iff.mpr hnot]
    exact ⟨rfl,rfl⟩
  | some k =>
    obtain ⟨pre,post,hline,hnot,rfl⟩ := strchr_some hfind
    have hpre : ∀ c∈pre,decide (c≠(0x20 : Byte))=true := fun c hc =>
      decide_eq_true fun heq => hnot (heq▸hc)
    have hpost := takeWhile_drop (p := (·≠(0 : Byte))) hline
    have htake : data.take pre.length=pre := by
      have hwhole := take_cString data
      rw [hline] at hwhole
      have hcut := congrArg (List.take pre.length) hwhole
      rwa [List.take_take,List.take_left,Nat.min_eq_left (by simp)] at hcut
    have hlt : pre.length < data.length := by
      have hle := (List.takeWhile_prefix (·≠(0 : Byte)) (l := data)).length_le
      rw [show data.takeWhile (·≠0)=pre++0x20::post from hline,List.length_append,
        List.length_cons] at hle
      omega
    have hzero : ∀ c∈pre,c≠0 := fun c hc =>
      cString_ne_zero data c (hline▸List.mem_append_left _ hc)
    rw [hline,List.takeWhile_append_of_pos hpre,List.dropWhile_append_of_pos hpre]
    constructor
    · rw [show List.takeWhile (fun c => decide (c≠(0x20 : Byte))) (0x20::post)=[] by simp,
        List.append_nil]
      exact cString_set hzero htake hlt
    · rw [show List.dropWhile (fun c => decide (c≠(0x20 : Byte))) (0x20::post)=0x20::post by simp]
      refine congrArg some ?_
      dsimp only
      rw [List.drop_set_of_lt (Nat.lt_succ_self _)]
      exact hpost

/-- The part of a segment that becomes the line. -/
def Segment.line (segment : Segment) : List Byte :=
  cString (segment.bytes.take (segment.bytes.length-2))

/-- A segment becomes the command and the parameter of its line, whatever the
buffer held before. -/
theorem callOf_line (s : Session) (data : List Byte) (o : Outcomes) (segment : Segment)
    (hlong : 2 ≤ segment.bytes.length) :
    (callOf s data (.bytes segment) o).cmd=FtpSession.lineCmd segment.line ∧
      (callOf s data (.bytes segment) o).text=FtpSession.lineParam segment.line := by
  have hindex : ((Received.bytes segment).rc-2).toNat=segment.bytes.length-2 := by
    rw [Received.rc]
    omega
  have hline : cString (((Received.bytes segment).fill data).set
      ((Received.bytes segment).rc-2).toNat 0)=segment.line := by
    rw [hindex,cString_set_take,Received.fill,List.take_append_of_le_length (by omega)]
    · rfl
    · rw [Received.fill,List.length_append]
      omega
  rw [callOf,←hline]
  exact splitLine_line

end Lines

section Faults

/-- The event does not end the run with a fault of some kind. -/
def Spares (kind : Fault → Prop) : Service → Event → Prop
  | .live f,e => ∀ fault∈eventFault f e,¬kind fault
  | .broken _,_ => True

/-- A running server is sound, and the run did not end with a fault of some kind. -/
def SoundFree (kind : Fault → Prop) : Service → Prop
  | .live f => Sound f
  | .broken fault => ¬kind fault

variable {root : MountPoint} {kind : Fault → Prop}

/-- In every run from the start, the run does not end with a fault of some kind,
and every state of it is sound, exactly if no event ends it so. -/
theorem throughout_free_iff (es : List Event) :
    Throughout (next root) (SoundFree kind) start es ↔
      AlongRun (next root) (Spares kind) start es := by
  refine throughout_iff_alongRun (fun s e hs => ?_) (show SoundFree kind start from sound_start) es
  cases s with
  | broken fault => exact ⟨fun _ => trivial,fun _ => hs⟩
  | live f =>
    have hcases := nextLive_cases root hs e
    rw [Spares,next]
    cases hfault : eventFault f e with
    | none =>
      rw [hfault] at hcases
      obtain ⟨f',hnext,hsound⟩ := hcases
      rw [hnext]
      exact ⟨fun _ _ h => absurd h (Option.not_mem_none _),fun _ => hsound⟩
    | some fault =>
      rw [hfault] at hcases
      rw [show nextLive root f e=.broken fault from hcases]
      exact ⟨fun hfree fault' h => Option.some.inj h▸hfree,fun hspares => hspares fault rfl⟩

end Faults

end ZephyrApp.FtpServer

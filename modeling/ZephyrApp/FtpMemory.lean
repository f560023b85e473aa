import ZephyrApp.FtpDirectory

/-!
# Sessions of the FTP server in memory

The four sessions lie one behind the other in an array, and the current directory
is the last member of each. `CWD` and `CDUP` build the new path in that member
itself. What they write past its end goes into the sessions behind it, whose
descriptors, logins and directories are then read from the written bytes, and the
server goes on.
-/

namespace ZephyrApp.FtpMemory

open MachineBytes FtpPath FtpBuffers FtpCommands FtpServer FtpTarget
open FtpSession (Session FtpSessionState Transfer takenSlot)

section Image

/-- What of a session in memory `Session` does not hold. -/
structure Margin where
  /-- `time`. -/
  time : BitVec 64
  /-- The four bytes between the end of `currentdir` and the next session. -/
  padding : Word
  /-- `state`, where it is none of the enumeration. -/
  odd : Option Word
deriving DecidableEq

/-- The number of a state. -/
def stateWord : FtpSessionState → Word
  | .user => 0
  | .passwd => 1
  | .ok => 2

/-- The state that a number stands for. -/
def stateOf (w : Word) : Option FtpSessionState :=
  if w=0 then some .user else if w=1 then some .passwd else if w=2 then some .ok else none

/-- The bytes of an `int`. -/
def intBytes (n : ℤ) : List Byte := sysPutLe32 (BitVec.ofInt 32 n)

/-- The `int` at an offset. -/
def intAt (bytes : List Byte) (at_ : ℕ) : ℤ := (sysGetLe32 bytes at_).toInt

/-- `sizeof(struct ftp_session)`. -/
def sessionSize : ℕ := 296

/-- The members in front of `currentdir`, in the order of `struct ftp_session`. -/
def headImage (s : Session) (m : Margin) : List Byte :=
  intBytes s.fd++intBytes s.isAnonymous++intBytes s.transfer.portPasvFd++
    intBytes s.transfer.pasvsFd++intBytes s.transfer.offset++intBytes s.transfer.type++
    sysPutLe64 m.time++sysPutLe32 (m.odd.getD (stateWord s.state))

/-- The bytes of a session. -/
def image (s : Session) (m : Margin) : List Byte :=
  headImage s m++s.currentdir++sysPutLe32 m.padding

/-- The session that some bytes are. -/
def sessionOf (bytes : List Byte) : Session :=
  ⟨intAt bytes 0,intAt bytes 4,⟨intAt bytes 8,intAt bytes 12,intAt bytes 16,intAt bytes 20⟩,
    (stateOf (sysGetLe32 bytes 32)).getD .user,(bytes.drop 36).take 256⟩

/-- What of the session that some bytes are `Session` does not hold. -/
def marginOf (bytes : List Byte) : Margin :=
  ⟨sysGetLe64 bytes 24,sysGetLe32 bytes 292,
    if stateOf (sysGetLe32 bytes 32)=none then some (sysGetLe32 bytes 32) else none⟩

end Image

section Memory

/-- The variables of the server, with the rest of the array and what follows it. -/
structure Memory where
  /-- The sessions and the receive buffer. -/
  server : Ftpd
  /-- The rest of each session. -/
  margins : Fin 4 → Margin
  /-- The bytes behind the array. -/
  beyond : List Byte

/-- The bytes behind the current directory of a slot. -/
def Memory.behind (m : Memory) (i : Fin 4) : List Byte :=
  sysPutLe32 (m.margins i).padding++
    (((List.finRange 4).filter (i < ·)).flatMap fun j => image (m.server.slots j) (m.margins j))++
    m.beyond

/-- Where a later session starts, seen from the current directory of a slot. -/
def sessionAt (i j : Fin 4) : ℕ := 260+sessionSize*(j.val-i.val-1)

/-- The memory after the bytes from the current directory of a slot on have been
written. -/
def Memory.rewrite (m : Memory) (i : Fin 4) (bytes : List Byte) : Memory where
  server := {m.server with slots := fun j =>
    if j=i then {m.server.slots i with currentdir := bytes.take 256}
    else if i < j then sessionOf (bytes.drop (sessionAt i j)) else m.server.slots j}
  margins j :=
    if j=i then {m.margins i with padding := sysGetLe32 bytes 256}
    else if i < j then marginOf (bytes.drop (sessionAt i j)) else m.margins j
  beyond := bytes.drop (260+sessionSize*(3-i.val))

/-- The first half of `build_full_path` for a buffer of 256 bytes, with the memory
behind it. The room for a relative path is an `int` that becomes a `size_t`: below
zero it bounds nothing. -/
def joinMemory (bytes path : List Byte) : Option (List Byte) :=
  if path.head?=some slash then writeString bytes 0 (path.take 255)
  else do
    let bytes ← strcat bytes [slash]
    let remainLen : ℤ := 256-(cString bytes).length-1
    strcat bytes (if remainLen < 0 then path else path.take remainLen.toNat)

/-- `build_full_path` in the current directory of a slot, none when it writes past
the bytes behind the array. -/
def Memory.spill (m : Memory) (i : Fin 4) (path : List Byte) : Option Memory := do
  let joined ← joinMemory ((m.server.slots i).currentdir++m.behind i) path
  let (bytes,_) ← normalizeInPlace joined
  some (m.rewrite i bytes)

end Memory

section Layout

/-- A number is the value of an `int`. -/
def IsInt (n : ℤ) : Prop := -2^31≤n ∧ n < 2^31

/-- What a session of C holds. -/
structure Fits (s : Session) (m : Margin) : Prop where
  /-- The descriptor. -/
  fd : IsInt s.fd
  /-- The mark of an anonymous session. -/
  anonymous : IsInt s.isAnonymous
  /-- The data connection. -/
  portPasv : IsInt s.transfer.portPasvFd
  /-- The socket it is accepted on. -/
  pasvs : IsInt s.transfer.pasvsFd
  /-- Where a file is resumed. -/
  offset : IsInt s.transfer.offset
  /-- The type of a transfer. -/
  type : IsInt s.transfer.type
  /-- A state that is none of the enumeration is kept beside the session. -/
  odd : ∀ w∈m.odd,stateOf w=none ∧ s.state=.user
  /-- The buffer of the directory. -/
  directory : s.currentdir.length=256

/-- The bytes of an `int` are four. -/
@[simp] theorem intBytes_length (n : ℤ) : (intBytes n).length=4 := rfl

/-- The bytes of a double word are eight. -/
@[simp] theorem sysPutLe64_length (d : BitVec 64) : (sysPutLe64 d).length=8 := rfl

/-- An `int` stored in the middle of some bytes is read back from there. -/
theorem intAt_intBytes {n : ℤ} (hn : IsInt n) {before : List Byte} {at_ : ℕ}
    (h : before.length=at_) (tail : List Byte) : intAt (before++intBytes n++tail) at_=n := by
  rw [intAt,intBytes,sysGetLe32_sysPutLe32 _ h,BitVec.toInt_ofInt]
  obtain ⟨hlow,hhigh⟩ := hn
  exact Int.bmod_eq_of_le (by norm_num at hlow ⊢; omega) (by norm_num at hhigh ⊢; omega)

/-- The number of a state stands for the state. -/
theorem stateOf_stateWord (s : FtpSessionState) : stateOf (stateWord s)=some s := by
  cases s <;> decide

/-- The members in front of the directory take 36 bytes. -/
@[simp] theorem headImage_length (s : Session) (m : Margin) : (headImage s m).length=36 := rfl

/-- A session takes `sessionSize` bytes. -/
theorem image_length {s : Session} {m : Margin} (h : s.currentdir.length=256) :
    (image s m).length=sessionSize := by
  rw [image,List.length_append,List.length_append,headImage_length,h,sysPutLe32_length]
  rfl

/-- The word that is stored for the state. -/
theorem stateAt_image (s : Session) (m : Margin) (tail : List Byte) :
    sysGetLe32 (image s m++tail) 32=m.odd.getD (stateWord s.state) := by
  have hbefore : (intBytes s.fd++intBytes s.isAnonymous++intBytes s.transfer.portPasvFd++
      intBytes s.transfer.pasvsFd++intBytes s.transfer.offset++intBytes s.transfer.type++
      sysPutLe64 m.time).length=32 := rfl
  have h := sysGetLe32_sysPutLe32 (m.odd.getD (stateWord s.state)) hbefore
    (s.currentdir++sysPutLe32 m.padding++tail)
  rw [image,headImage]
  simpa only [List.append_assoc] using h

/-- A session is read back from its bytes. -/
theorem sessionOf_image {s : Session} {m : Margin} (h : Fits s m) (tail : List Byte) :
    sessionOf (image s m++tail)=s := by
  have hstate : (stateOf (m.odd.getD (stateWord s.state))).getD .user=s.state := by
    cases hodd : m.odd with
    | none => rw [Option.getD_none,stateOf_stateWord,Option.getD_some]
    | some w =>
      obtain ⟨hw,huser⟩ := h.odd w hodd
      rw [Option.getD_some,hw,huser,Option.getD_none]
  have hdir : ((image s m++tail).drop 36).take 256=s.currentdir := by
    rw [image,List.append_assoc,List.append_assoc,
      List.drop_left' (headImage_length s m),List.take_left' h.directory]
  have hread : ∀ {n : ℤ} {at_ : ℕ} (before after : List Byte),
      headImage s m=before++intBytes n++after → before.length=at_ → IsInt n →
      intAt (image s m++tail) at_=n := by
    intro n at_ before after hhead hat hn
    have hval := intAt_intBytes hn hat (after++(s.currentdir++sysPutLe32 m.padding++tail))
    rw [image,hhead]
    simpa only [List.append_assoc] using hval
  have hfd : intAt (image s m++tail) 0=s.fd := hread [] _ rfl rfl h.fd
  have hanon : intAt (image s m++tail) 4=s.isAnonymous :=
    hread (intBytes s.fd) _ rfl rfl h.anonymous
  have hport : intAt (image s m++tail) 8=s.transfer.portPasvFd :=
    hread (intBytes s.fd++intBytes s.isAnonymous) _ rfl rfl h.portPasv
  have hpasvs : intAt (image s m++tail) 12=s.transfer.pasvsFd :=
    hread (intBytes s.fd++intBytes s.isAnonymous++intBytes s.transfer.portPasvFd) _ rfl rfl
      h.pasvs
  have hoffset : intAt (image s m++tail) 16=s.transfer.offset :=
    hread (intBytes s.fd++intBytes s.isAnonymous++intBytes s.transfer.portPasvFd++
      intBytes s.transfer.pasvsFd) _ rfl rfl h.offset
  have htype : intAt (image s m++tail) 20=s.transfer.type :=
    hread (intBytes s.fd++intBytes s.isAnonymous++intBytes s.transfer.portPasvFd++
      intBytes s.transfer.pasvsFd++intBytes s.transfer.offset) _ rfl rfl h.type
  rw [sessionOf,stateAt_image,hstate,hdir,hfd,hanon,hport,hpasvs,hoffset,htype]

/-- So is what the session does not hold. -/
theorem marginOf_image {s : Session} {m : Margin} (h : Fits s m) (tail : List Byte) :
    marginOf (image s m++tail)=m := by
  have htime : sysGetLe64 (image s m++tail) 24=m.time := by
    have hbefore : (intBytes s.fd++intBytes s.isAnonymous++intBytes s.transfer.portPasvFd++
        intBytes s.transfer.pasvsFd++intBytes s.transfer.offset++
        intBytes s.transfer.type).length=24 := rfl
    have hval := sysGetLe64_sysPutLe64 m.time hbefore
      (sysPutLe32 (m.odd.getD (stateWord s.state))++(s.currentdir++sysPutLe32 m.padding++tail))
    rw [image,headImage]
    simpa only [List.append_assoc] using hval
  have hpadding : sysGetLe32 (image s m++tail) 292=m.padding :=
    sysGetLe32_sysPutLe32 m.padding
      (by rw [List.length_append,headImage_length,h.directory]) tail
  rw [marginOf,stateAt_image,htime,hpadding]
  cases hodd : m.odd with
  | none =>
    rw [Option.getD_none,stateOf_stateWord,if_neg (Option.some_ne_none _),←hodd]
  | some w =>
    rw [Option.getD_some,(h.odd w hodd).1,if_pos rfl,←hodd]

/-- The bytes of the later sessions start with those between two of them. -/
theorem laterSessions {i j : Fin 4} (hij : i < j) : (List.finRange 4).filter (i < ·)=
    (List.finRange 4).filter (fun k => i < k ∧ k < j)++j::(List.finRange 4).filter (j < ·) ∧
      ((List.finRange 4).filter fun k => i < k ∧ k < j).length=j.val-i.val-1 := by
  decide +revert

/-- The bytes of sessions of full size. -/
theorem images_length {m : Memory} (h : ∀ j,(m.server.slots j).currentdir.length=256)
    (slots : List (Fin 4)) :
    (slots.flatMap fun j => image (m.server.slots j) (m.margins j)).length=
      sessionSize*slots.length := by
  induction slots with
  | nil => rfl
  | cons j slots ih =>
    rw [List.flatMap_cons,List.length_append,ih,image_length (h j),List.length_cons,
      Nat.mul_succ,Nat.add_comm]

/-- A later session lies where `sessionAt` says. -/
theorem drop_sessionAt {m : Memory} (h : ∀ j,(m.server.slots j).currentdir.length=256)
    {i j : Fin 4} (hij : i < j) {dir : List Byte} (hdir : dir.length=256) :
    ∃ tail,(dir++m.behind i).drop (sessionAt i j)=
      image (m.server.slots j) (m.margins j)++tail := by
  obtain ⟨hsplit,hcount⟩ := laterSessions hij
  refine ⟨((List.finRange 4).filter (j < ·)).flatMap (fun k =>
    image (m.server.slots k) (m.margins k))++m.beyond,?_⟩
  rw [Memory.behind,hsplit,List.flatMap_append,List.flatMap_cons]
  have hbetween := images_length h ((List.finRange 4).filter fun k => i < k ∧ k < j)
  rw [hcount] at hbetween
  simp only [List.append_assoc]
  rw [←List.append_assoc dir,←List.append_assoc (dir++_)]
  refine List.drop_left' ?_
  rw [List.length_append,List.length_append,hdir,sysPutLe32_length,hbetween,sessionAt]

/-- What follows the array lies behind the last session. -/
theorem drop_beyond {m : Memory} (h : ∀ j,(m.server.slots j).currentdir.length=256)
    (i : Fin 4) {dir : List Byte} (hdir : dir.length=256) :
    (dir++m.behind i).drop (260+sessionSize*(3-i.val))=m.beyond := by
  have hcount : ((List.finRange 4).filter (i < ·)).length=3-i.val := by decide +revert
  rw [Memory.behind,←List.append_assoc,←List.append_assoc]
  refine List.drop_left' ?_
  rw [List.length_append,List.length_append,images_length h,hcount,hdir,sysPutLe32_length]

/-- A directory that is written within its buffer is all that changes. -/
theorem rewrite_directory {m : Memory} (h : ∀ j,Fits (m.server.slots j) (m.margins j))
    (i : Fin 4) {dir : List Byte} (hdir : dir.length=256) :
    m.rewrite i (dir++m.behind i)=
      {m with server := {m.server with
        slots := Function.update m.server.slots i {m.server.slots i with currentdir := dir}}} := by
  have hpadding : sysGetLe32 (dir++m.behind i) 256=(m.margins i).padding := by
    rw [Memory.behind,List.append_assoc,←List.append_assoc]
    exact sysGetLe32_sysPutLe32 _ hdir _
  have hlater : ∀ j,i < j → sessionOf ((dir++m.behind i).drop (sessionAt i j))=m.server.slots j ∧
      marginOf ((dir++m.behind i).drop (sessionAt i j))=m.margins j := by
    intro j hij
    obtain ⟨tail,htail⟩ := drop_sessionAt (fun k => (h k).directory) hij hdir
    rw [htail]
    exact ⟨sessionOf_image (h j) tail,marginOf_image (h j) tail⟩
  have hslots : (m.rewrite i (dir++m.behind i)).server.slots=
      Function.update m.server.slots i {m.server.slots i with currentdir := dir} := by
    funext j
    by_cases hji : j=i
    · subst hji
      rw [Function.update_self,Memory.rewrite]
      dsimp only
      rw [if_pos rfl,List.take_left' hdir]
    · rw [Function.update_of_ne hji,Memory.rewrite]
      dsimp only
      rw [if_neg hji]
      split
      · rename_i hij
        exact (hlater j hij).1
      · rfl
  have hmargins : (m.rewrite i (dir++m.behind i)).margins=m.margins := by
    funext j
    rw [Memory.rewrite]
    dsimp only
    split
    · rename_i hji
      rw [hpadding,hji]
    · split
      · rename_i hij
        exact (hlater j hij).2
      · rfl
  have hbeyond := drop_beyond (fun k => (h k).directory) i hdir
  rw [Memory.rewrite] at hslots hmargins ⊢
  rw [hbeyond]
  dsimp only at hslots hmargins ⊢
  rw [hslots,hmargins]

end Layout

section Server

/-- The server while it runs, or the fault that ended the run. -/
inductive World where
  /-- It runs. -/
  | live (m : Memory)
  /-- It did something to memory outside the array and the bytes behind it. -/
  | broken (fault : Fault)

/-- The server at start, all zero, with some bytes behind the array. -/
def start (beyond : List Byte) : World :=
  .live ⟨⟨FtpSession.ftpStart,List.replicate 256 0⟩,fun _ => ⟨0,0,none⟩,beyond⟩

/-- An event with the uptime. -/
structure Timed where
  /-- `k_uptime_get`. -/
  now : BitVec 64
  /-- The event. -/
  event : Event

/-- The rest of each session after an event: a connection and a result of `recv`
are stamped, a reset clears everything. -/
def marginsNext (m : Memory) (now : BitVec 64) : Event → Fin 4 → Margin
  | .accept client =>
    match takenSlot m.server.slots client with
    | none => m.margins
    | some i => Function.update m.margins i {m.margins i with time := now}
  | .recv i _ _ =>
    if 0 < (m.server.slots i).fd then
      Function.update m.margins i {m.margins i with time := now}
    else m.margins
  | .release i =>
    if 0 < (m.server.slots i).fd then Function.update m.margins i ⟨0,0,none⟩ else m.margins

/-- The `default` of `ftp_proccess`: a line on a session whose state is none of the
enumeration is split, and that is all. -/
def ignoreLine (m : Memory) (i : Fin 4) (r : Received) (o : Outcomes) : World :=
  match storeAt (r.fill m.server.dataBuf) (r.rc-2) 0 with
  | .error fault => .broken fault
  | .ok data =>
    .live {m with server := {m.server with dataBuf := (splitLine (m.server.slots i) data o).data}}

/-- A command that writes past a path buffer goes on if the buffer is the current
directory of its session; the other buffers are on the stack. -/
def writeOn (m : Memory) (i : Fin 4) (c : Call) : World :=
  if Changes c then
    match (pathOf c).bind (m.spill i) with
    | none => .broken .overrun
    | some m' => .live {m' with server := {m'.server with dataBuf := c.data}}
  else .broken .overrun

/-- A result of `recv` on a slot. -/
def nextRecv (root : MountPoint) (m : Memory) (i : Fin 4) (r : Received) (o : Outcomes) :
    World :=
  if 0 < (m.server.slots i).fd ∧ (m.margins i).odd≠none then ignoreLine m i r o
  else
    match nextLive root m.server (.recv i r o) with
    | .live f => .live {m with server := f}
    | .broken .overrun => writeOn m i (callOf (m.server.slots i) m.server.dataBuf r o)
    | .broken fault => .broken fault

/-- The running server after an event. -/
def nextMemory (root : MountPoint) (m : Memory) (e : Timed) : World :=
  let m := {m with margins := marginsNext m e.now e.event}
  match e.event with
  | .recv i r o => nextRecv root m i r o
  | event =>
    match nextLive root m.server event with
    | .live f => .live {m with server := f}
    | .broken fault => .broken fault

/-- The server after an event. -/
def next (root : MountPoint) : World → Timed → World
  | .live m,e => nextMemory root m e
  | .broken fault,_ => .broken fault

end Server

end ZephyrApp.FtpMemory

import ZephyrApp.FtpCommands

/-!
# What FTP commands need of memory

Whether a command comes back, and with which fault if it does not, is told from
the state of its session, its name and its parameter: some functions read the
parameter, some join it to the current directory, one looks for two separators.
A command that comes back leaves the current directory terminated in its buffer.
-/

namespace ZephyrApp.FtpNeeds

open MachineBytes FtpPath FtpBuffers FtpCommands
open FtpSession (Session ascii pathBuf)

/-- The current directory is a string in its buffer. -/
structure Bounded (s : Session) : Prop where
  /-- The size of `currentdir`. -/
  size : s.currentdir.length=256
  /-- It holds a terminator. -/
  terminated : Terminated s.currentdir

/-- The current directory fills its buffer. -/
def Full (s : Session) : Prop := (cString s.currentdir).length=255

instance (s : Session) : Decidable (Full s) := inferInstanceAs (Decidable (_=_))

/-- What a command needs of the memory around it. -/
inductive Need where
  /-- Nothing. -/
  | nothing
  /-- Its parameter. -/
  | param
  /-- Its parameter, joined to the current directory. -/
  | path
  /-- Two dots, joined to the current directory. -/
  | parent
  /-- Its parameter, with two separators. -/
  | bars

/-- What a function of the command table needs. -/
def needOf (s : Session) (o : Outcomes) (cmd : List Byte) : CmdFn → Need
  | .port => if cmd=ascii ['E','P','R','T'] then .bars else .nothing
  | .type | .rest | .login => .param
  | .cwd | .size => .path
  | .cdup => .parent
  | .mkd | .rmd | .dele => if s.isAnonymous=0 then .path else .nothing
  | .retr => if (pasvAccept s o).transfer.portPasvFd < 0 then .nothing else .path
  | .stor =>
    if s.isAnonymous≠0 ∨ (pasvAccept s o).transfer.portPasvFd < 0 then .nothing else .path
  | .pasv | .pwd | .syst | .quit | .list | .nlist | .pass => .nothing

/-- What a command needs in the state of its session. -/
def need (c : Call) : Need :=
  match c.session.state with
  | .user => if c.starts ['U','S','E','R'] then .param else .nothing
  | .passwd => if c.starts ['P','A','S','S'] ∧ c.session.isAnonymous=0 then .param else .nothing
  | .ok => (findFn c.cmd).elim .nothing (needOf c.session c.outcomes c.cmd)

/-- The fault of a command that does not find what it needs. -/
def faultOf (c : Call) : Need → Option Fault
  | .nothing => none
  | .param => if c.param=none then some .param else none
  | .path =>
    match c.text with
    | none => some .param
    | some path => if path.head?≠some slash ∧ Full c.session then some .overrun else none
  | .parent => if Full c.session then some .overrun else none
  | .bars =>
    match c.param with
    | none => some .param
    | some k =>
      if c.data[k+1]?=some 0x31 ∧ (cString (c.data.drop (k+3))).count 0x7C < 2 then
        some .separator
      else none

/-- A command ends as told: with the fault, or without one, with a bounded
directory and a receive buffer of the same size. -/
def Ends (size : ℕ) (fault : Option Fault) : Except Fault Report → Prop
  | .error f => fault=some f
  | .ok r => fault=none ∧ Bounded r.session ∧ r.data.length=size

section Sessions

variable {s t : Session} {o : Outcomes}

/-- Only the current directory matters. -/
theorem Bounded.congr (h : Bounded s) (hdir : t.currentdir=s.currentdir) : Bounded t :=
  ⟨hdir▸h.size,hdir▸h.terminated⟩

/-- Setting a descriptor keeps the directory. -/
@[simp] theorem withPort_currentdir (s : Session) (d : ℤ) :
    (withPort s d).currentdir=s.currentdir := rfl

/-- Setting the listening socket keeps the directory. -/
@[simp] theorem withPasvs_currentdir (s : Session) (d : ℤ) :
    (withPasvs s d).currentdir=s.currentdir := rfl

/-- Setting the offset keeps the directory. -/
@[simp] theorem withOffset_currentdir (s : Session) (offset : ℤ) :
    (withOffset s offset).currentdir=s.currentdir := rfl

/-- Closing the listening socket keeps the directory. -/
@[simp] theorem closePasvs_currentdir (s : Session) : (closePasvs s).currentdir=s.currentdir := by
  rw [closePasvs]
  split <;> rfl

/-- Closing the data connection keeps the directory. -/
@[simp] theorem closeData_currentdir (s : Session) : (closeData s).currentdir=s.currentdir :=
  closePasvs_currentdir _

/-- Closing what is open keeps the directory. -/
@[simp] theorem closePort_currentdir (s : Session) : (closePort s).currentdir=s.currentdir := by
  rw [closePort]
  split
  · exact closeData_currentdir s
  · rfl

/-- Accepting a data connection keeps the directory. -/
@[simp] theorem pasvAccept_currentdir (s : Session) (o : Outcomes) :
    (pasvAccept s o).currentdir=s.currentdir := by
  rw [pasvAccept]
  split <;> rfl

/-- A transfer starts from the same descriptors whatever the offset. -/
@[simp] theorem pasvAccept_withOffset (s : Session) (offset : ℤ) (o : Outcomes) :
    (pasvAccept (withOffset s offset) o).transfer.portPasvFd=
      (pasvAccept s o).transfer.portPasvFd := by
  rw [pasvAccept,pasvAccept]
  split
  · rename_i h
    rw [if_pos (show 0 < s.transfer.pasvsFd from h)]
    rfl
  · rename_i h
    rw [if_neg (show ¬0 < s.transfer.pasvsFd from h)]
    rfl

/-- A bounded directory fits its buffer. -/
theorem Bounded.length_le (h : Bounded s) : (cString s.currentdir).length≤255 := by
  have hlt := cString_lt h.terminated
  rw [h.size] at hlt
  omega

/-- The copy of a bounded directory is the same string in a buffer of the same size. -/
theorem Bounded.pathBuf (h : Bounded s) : (FtpSession.pathBuf s).length=256 ∧
    Terminated (FtpSession.pathBuf s) ∧ cString (FtpSession.pathBuf s)=cString s.currentdir := by
  have hle := h.length_le
  let blank : List Byte := List.replicate 256 0
  have hblank : blank.length=256 := List.length_replicate
  have hnil : blank.take ([] : List Byte).length=[] := rfl
  obtain ⟨buf,hwrite,hstring,hlen⟩ := writeString_eq (cString s.currentdir) hnil
    (cString_ne_zero s.currentdir) (by rw [List.nil_append,hblank]; omega)
  have hbuf : FtpSession.pathBuf s=buf := by
    rw [FtpSession.pathBuf,List.take_of_length_le hle]
    exact congrArg (·.getD []) hwrite
  have hfits : 0+(cString s.currentdir).length < blank.length := by
    rw [hblank]
    omega
  obtain ⟨buf',hwrite',hterm,-⟩ := writeString_some hfits
  obtain rfl : buf=buf' := Option.some.inj (hwrite.symm.trans hwrite')
  rw [hbuf]
  exact ⟨hlen.trans hblank,hterm,hstring⟩

end Sessions

section Paths

variable {buf : List Byte} {size : ℕ}

/-- A path is built, unless a relative path meets a directory that fills its buffer. -/
theorem buildPath_cases (h : Terminated buf) (path : List Byte) :
    if path.head?≠some slash ∧ (cString buf).length+1=buf.length then
      buildPath buf path=.error .overrun
    else ∃ out ret,buildPath buf path=.ok (out,ret) ∧ Terminated out ∧ out.length=buf.length := by
  have hjoin := joinBuf_cases h path
  rw [buildPath]
  split
  · rename_i hfull
    rw [if_pos hfull] at hjoin
    rw [hjoin]
    rfl
  · rename_i hroom
    rw [if_neg hroom] at hjoin
    obtain ⟨joined,hjoined,hterm,hlen⟩ := hjoin
    obtain ⟨out,found,hnorm,hterm',hlen'⟩ := normalizeInPlace_some hterm
    rw [hjoined,Option.bind_some,hnorm]
    exact ⟨out,_,rfl,hterm',hlen'.trans hlen⟩

/-- What follows the building of a path is reached with a bounded buffer. -/
theorem ends_buildPath {t : Session} (hterm : Terminated buf) (hlen : buf.length=256)
    (hstring : cString buf=cString t.currentdir) (path : List Byte)
    {use : List Byte×ℤ → Except Fault Report}
    (h : ∀ out ret,Terminated out → out.length=256 → Ends size none (use (out,ret))) :
    Ends size (if path.head?≠some slash ∧ Full t then some .overrun else none)
      (buildPath buf path >>= use) := by
  have hbuild := buildPath_cases hterm path
  have hfull : (path.head?≠some slash ∧ (cString buf).length+1=buf.length) ↔
      path.head?≠some slash ∧ Full t := by
    rw [hlen,hstring,Full]
    exact and_congr_right fun _ => Nat.succ_inj
  split
  · rename_i hover
    rw [if_pos (hfull.mpr hover)] at hbuild
    rw [hbuild]
    rfl
  · rename_i hroom
    rw [if_neg (mt hfull.mp hroom)] at hbuild
    obtain ⟨out,ret,hrun,hterm',hlen'⟩ := hbuild
    rw [hrun]
    exact h out ret hterm' (hlen'.trans hlen)

end Paths

section Functions

variable {c : Call} {s : Session}

/-- A command that ends comes back, if it keeps a bounded directory. -/
theorem ends_replied {t : Session} (h : Bounded t) (hdir : s.currentdir=t.currentdir)
    (replies : List Message) (ret : ℤ) : Ends c.data.length none (replied c s replies ret) :=
  ⟨rfl,h.congr hdir,rfl⟩

/-- A command that answers comes back, if it keeps a bounded directory. -/
theorem ends_answer {t : Session} (h : Bounded t) (hdir : s.currentdir=t.currentdir)
    (message : Message) : Ends c.data.length none (answer c s message) := by
  rw [answer]
  split
  · exact ends_replied h hdir _ _
  · exact ends_replied h hdir _ _

/-- A command that reads its parameter needs it. -/
theorem ends_read {use : List Byte → Except Fault Report}
    (h : ∀ text,Ends c.data.length none (use text)) :
    Ends c.data.length (faultOf c .param) (c.read >>= use) := by
  rw [faultOf,Call.read,Call.text]
  cases hparam : c.param with
  | none => rfl
  | some k => exact h _

/-- A command that joins its parameter to a path needs it and room for it. -/
theorem ends_readPath {use : List Byte → Except Fault Report}
    (h : ∀ path,Ends c.data.length
      (if path.head?≠some slash ∧ Full c.session then some .overrun else none) (use path)) :
    Ends c.data.length (faultOf c .path) (c.read >>= use) := by
  rw [faultOf,Call.read]
  cases htext : c.text with
  | none => rfl
  | some path => exact h path

/-- A command on a path in a copy of the current directory. -/
theorem ends_withPath {use : List Byte → Except Fault Report} (hc : Bounded c.session)
    (hdir : s.currentdir=c.session.currentdir) (h : ∀ path,Ends c.data.length none (use path)) :
    Ends c.data.length (faultOf c .path) (withPath c s use) := by
  obtain ⟨hlen,hterm,hstring⟩ := (hc.congr hdir).pathBuf
  refine ends_readPath fun path => ?_
  refine ends_buildPath hterm hlen (hstring.trans (congrArg cString hdir)) path ?_
  intro out ret _ _
  dsimp only
  split
  · exact ends_replied hc hdir _ _
  · exact h _

/-- Changing the current directory needs room for the path. -/
theorem ends_changeDir (hc : Bounded c.session) (path : List Byte) :
    Ends c.data.length (if path.head?≠some slash ∧ Full c.session then some .overrun else none)
      (changeDir c path) := by
  refine ends_buildPath hc.terminated hc.size rfl path ?_
  intro out ret hterm hlen
  have hs : Bounded {c.session with currentdir := out} := ⟨hlen,hterm⟩
  dsimp only
  split
  · exact ends_replied hs rfl _ _
  · exact ends_answer hs rfl _

/-- `cdup_cmd_fn` joins two dots. -/
theorem ends_cdupCmdFn (hc : Bounded c.session) :
    Ends c.data.length (faultOf c .parent) (cdupCmdFn c) := by
  have hdots : [dot,dot].head?≠some slash := by decide
  have h := ends_changeDir hc [dot,dot]
  simp only [and_iff_right hdots] at h
  exact h

/-- The commands that change a file need their path where they are allowed. -/
theorem ends_changeFile (hc : Bounded c.session) (done : Bool) (failed succeeded : String×String) :
    Ends c.data.length (faultOf c (if c.session.isAnonymous=0 then .path else .nothing))
      (changeFile c done failed succeeded) := by
  rw [changeFile]
  by_cases hanon : c.session.isAnonymous=0
  · rw [if_pos hanon,if_neg (not_not.mpr hanon)]
    exact ends_withPath hc rfl fun path => ends_answer hc rfl _
  · rw [if_neg hanon,if_pos hanon]
    exact ends_replied hc rfl _ _

/-- `retr_cmd_fn` needs its path once it has a data connection. -/
theorem ends_retrCmdFn (hc : Bounded c.session) :
    Ends c.data.length (faultOf c (needOf c.session c.outcomes c.cmd .retr)) (retrCmdFn c) := by
  rw [retrCmdFn,needOf]
  split
  · exact ends_replied hc (by simp) _ _
  · refine ends_withPath hc (by simp) fun path => ?_
    split_ifs
    all_goals exact ends_replied hc (by simp) _ _

/-- `stor_cmd_fn` needs its path once it is allowed and has a data connection. -/
theorem ends_storCmdFn (hc : Bounded c.session) :
    Ends c.data.length (faultOf c (needOf c.session c.outcomes c.cmd .stor)) (storCmdFn c) := by
  have hport := pasvAccept_withOffset c.session 0 c.outcomes
  have hsame : (withOffset c.session 0).isAnonymous=c.session.isAnonymous := rfl
  rw [storCmdFn,needOf,hsame]
  by_cases hanon : c.session.isAnonymous=0
  · rw [if_neg (not_not.mpr hanon)]
    simp only [hanon,ne_eq,not_true_eq_false,false_or,hport]
    split
    · exact ends_replied hc (by simp) _ _
    · refine ends_withPath hc (by simp) fun path => ?_
      split_ifs
      all_goals exact ends_replied hc (by simp) _ _
  · rw [if_pos hanon,if_pos (Or.inl hanon)]
    exact ends_replied hc (by simp) _ _

/-- `list_cmd_fn` needs nothing. -/
theorem ends_listCmdFn (hc : Bounded c.session) : Ends c.data.length none (listCmdFn c) := by
  rw [listCmdFn]
  split
  · exact ends_replied hc (by simp) _ _
  · split
    · exact ends_answer hc (by simp) _
    · exact ends_replied hc (by simp) _ _

/-- `pasv_cmd_fn` needs nothing. -/
theorem ends_pasvCmdFn (hc : Bounded c.session) : Ends c.data.length none (pasvCmdFn c) := by
  rw [pasvCmdFn]
  split
  · exact ends_replied hc rfl _ _
  · exact ends_replied hc (by simp) _ _

/-- Opening the data connection needs nothing. -/
theorem ends_openData {t : Session} (h : Bounded t) (hdir : s.currentdir=t.currentdir) :
    Ends c.data.length none (openData c s) := by
  rw [openData]
  split
  · exact ends_replied h (by simp [hdir]) _ _
  · exact ends_replied h (by simp [hdir]) _ _

/-- A session at the mount point is bounded. -/
theorem toRoot_some (root : MountPoint) (h : s.currentdir.length=256) :
    ∃ buf,toRoot root s=.ok {s with currentdir := buf} ∧
      Bounded {s with currentdir := buf} := by
  have hfits : 0+root.text.length < s.currentdir.length := by
    have hlt := root.fits
    omega
  obtain ⟨buf,hwrite,hterm,hlen⟩ := writeString_some hfits
  exact ⟨buf,by rw [toRoot,hwrite],⟨hlen.trans h,hterm⟩⟩

end Functions

section Separators

variable {c : Call} {s : Session}

/-- What follows a byte of a prefix is the rest of that prefix. -/
theorem takeWhile_drop {p : Byte → Bool} {l pre post : List Byte} {b : Byte}
    (h : l.takeWhile p=pre++b::post) : (l.drop (pre.length+1)).takeWhile p=post := by
  have hsplit := List.takeWhile_append_dropWhile (p := p) (l := l)
  have hpost : ∀ c∈post,p c=true := by
    intro c hc
    have hin : c∈l.takeWhile p := by
      rw [h]
      exact List.mem_append_right _ (List.mem_cons_of_mem _ hc)
    exact List.mem_takeWhile_imp hin
  have hl : l=(pre++[b])++(post++l.dropWhile p) := by
    conv_lhs => rw [←hsplit,h]
    simp only [List.append_assoc,List.cons_append,List.nil_append]
  have hlen : (pre++[b]).length=pre.length+1 := by
    rw [List.length_append,List.length_singleton]
  have hdrop : l.drop (pre.length+1)=post++l.dropWhile p := by
    conv_lhs => rw [hl,←hlen,List.drop_left]
  rw [hdrop,List.takeWhile_append_of_pos hpost]
  have hend : (l.dropWhile p).takeWhile p=[] := by
    have hhead := List.head?_dropWhile_not p l
    cases hrest : l.dropWhile p with
    | nil => rfl
    | cons d rest =>
      rw [hrest] at hhead
      simpa using hhead
  rw [hend,List.append_nil]

/-- A character is not found exactly if it does not occur. -/
theorem strchr_none {text : List Byte} {b : Byte} : strchr text b=none ↔ b∉text := by
  rw [strchr]
  split
  · rename_i hin
    exact ⟨fun h => absurd h (Option.some_ne_none _),fun h => absurd hin h⟩
  · rename_i hout
    exact ⟨fun _ => hout,fun _ => rfl⟩

/-- A character that is found splits the string. -/
theorem strchr_some {text : List Byte} {b : Byte} {k : ℕ} (h : strchr text b=some k) :
    ∃ pre post,text=pre++b::post ∧ b∉pre ∧ pre.length=k := by
  have hsplit := List.takeWhile_append_dropWhile (p := (·≠b)) (l := text)
  have hhead := List.head?_dropWhile_not (·≠b) text
  have hnot : b∉text.takeWhile (·≠b) := fun hmem => by simpa using List.mem_takeWhile_imp hmem
  rw [strchr] at h
  split at h
  · rename_i hin
    cases hrest : text.dropWhile (·≠b) with
    | nil =>
      rw [hrest,List.append_nil] at hsplit
      rw [hsplit] at hnot
      exact absurd hin hnot
    | cons d post =>
      rw [hrest] at hsplit hhead
      obtain rfl : d=b := by simpa using hhead
      exact ⟨_,post,hsplit.symm,hnot,Option.some.inj h⟩
  · cases h

/-- A separator is not found exactly if there is none before the terminator. -/
theorem findBar_none {data : List Byte} {k : ℕ} :
    findBar data k=none ↔ (cString (data.drop k)).count 0x7C=0 := by
  rw [findBar,Option.map_eq_none_iff,strchr_none,List.count_eq_zero]

/-- Behind a separator that is found there is one separator less. -/
theorem count_findBar {data : List Byte} {k i : ℕ} (h : findBar data k=some i) :
    (cString (data.drop k)).count 0x7C=(cString ((data.set i 0).drop (i+1))).count 0x7C+1 := by
  obtain ⟨j,hj,rfl⟩ := Option.map_eq_some_iff.mp h
  obtain ⟨pre,post,htext,hnot,rfl⟩ := strchr_some hj
  have hpost := takeWhile_drop (p := (·≠(0 : Byte))) (l := data.drop k) htext
  rw [List.drop_drop] at hpost
  rw [List.drop_set_of_lt (Nat.lt_succ_self _),htext,List.count_append,
    List.count_eq_zero_of_not_mem hnot,List.count_cons_self,Nat.zero_add]
  exact congrArg (·.count 0x7C+1) hpost.symm

/-- `port_cmd_fn` needs its parameter and two separators for `EPRT`. -/
theorem ends_portCmdFn (hc : Bounded c.session) (o : Outcomes) :
    Ends c.data.length (faultOf c (needOf c.session o c.cmd .port)) (portCmdFn c) := by
  have hs := hc.congr (closePort_currentdir c.session)
  rw [portCmdFn,needOf]
  by_cases hport : c.cmd=ascii ['P','O','R','T']
  · rw [if_pos hport,if_neg (by rw [hport]; decide)]
    split
    · exact ends_replied hs rfl _ _
    · exact ends_openData hs rfl
  · rw [if_neg hport]
    split
    · rw [faultOf]
      cases hparam : c.param with
      | none => rfl
      | some k =>
        dsimp only
        by_cases hfour : c.data[k+1]?=some 0x31
        · rw [if_neg (not_not.mpr hfour)]
          cases hfirst : findBar c.data (k+3) with
          | none =>
            rw [findBar_none.mp hfirst,if_pos ⟨hfour,Nat.zero_lt_two⟩]
            rfl
          | some i =>
            rw [count_findBar hfirst]
            dsimp only
            cases hsecond : findBar (c.data.set i 0) (i+1) with
            | none =>
              rw [findBar_none.mp hsecond,if_pos ⟨hfour,Nat.one_lt_two⟩]
              rfl
            | some j =>
              have hcount : (cString ((c.data.set i 0).drop (i+1))).count 0x7C≠0 := by
                intro hzero
                rw [findBar_none.mpr hzero] at hsecond
                cases hsecond
              rw [if_neg fun hfew => by omega]
              have hsize : ((c.data.set i 0).set j 0).length=c.data.length := by
                rw [List.length_set,List.length_set]
              rw [←hsize]
              exact ends_openData (c := {c with data := (c.data.set i 0).set j 0}) hs rfl
        · rw [if_pos hfour,if_neg fun hfew => hfour hfew.1]
          exact ends_replied hs rfl _ _
    · exact ends_openData hs rfl

end Separators

section Process

variable {c : Call} (root : MountPoint)

/-- Every function of the table ends as its need tells. -/
theorem ends_runFn (hc : Bounded c.session) (fn : CmdFn) :
    Ends c.data.length (faultOf c (needOf c.session c.outcomes c.cmd fn)) (runFn root c fn) := by
  cases fn with
  | port => exact ends_portCmdFn hc c.outcomes
  | pasv => exact ends_pasvCmdFn hc
  | pwd => exact ends_answer hc rfl _
  | type =>
    refine ends_read fun text => ?_
    by_cases htext : text=ascii ['I']
    · rw [if_pos htext]
      exact ends_replied hc (by rfl) _ _
    · rw [if_neg htext]
      exact ends_replied hc (by rfl) _ _
  | syst => exact ends_replied hc rfl _ _
  | quit => exact ends_replied hc rfl _ _
  | list => exact ends_listCmdFn hc
  | nlist => exact ends_listCmdFn hc
  | cwd => exact ends_readPath fun path => ends_changeDir hc path
  | cdup => exact ends_cdupCmdFn hc
  | mkd => exact ends_changeFile hc _ _ _
  | rmd => exact ends_changeFile hc _ _ _
  | dele => exact ends_changeFile hc _ _ _
  | size =>
    rw [runFn,sizeCmdFn]
    exact ends_withPath hc rfl fun path => ends_answer hc rfl _
  | rest =>
    refine ends_read fun text => ?_
    dsimp only
    split
    · exact ends_replied hc (by rfl) _ _
    · exact ends_replied hc (by rfl) _ _
  | retr => exact ends_retrCmdFn hc
  | stor => exact ends_storCmdFn hc
  | login =>
    refine ends_read fun text => ?_
    split
    · exact ends_replied hc (by rfl) _ _
    · split
      · obtain ⟨buf,hroot,hs⟩ := toRoot_some root
          (s := {c.session with isAnonymous := 1,state := .ok}) hc.size
        rw [hroot]
        exact ends_replied hs rfl _ _
      · exact ends_replied hc rfl _ _
  | pass =>
    obtain ⟨buf,hroot,hs⟩ := toRoot_some root hc.size
    rw [runFn,passCmdFn,hroot]
    exact ends_replied hs rfl _ _

/-- Every command ends as its need tells. -/
theorem ends_processCall (hc : Bounded c.session) :
    Ends c.data.length (faultOf c (need c)) (processCall root c) := by
  rw [need,processCall]
  cases hstate : c.session.state with
  | user =>
    dsimp only
    split_ifs with hstarts
    · refine ends_read fun text => ?_
      split_ifs
      all_goals exact ends_replied hc (by rfl) _ _
    · exact ends_replied hc rfl _ _
  | passwd =>
    have loggedIn_ends : Ends c.data.length none (do
        let s ← toRoot root
          {c.session with currentdir := List.replicate c.session.currentdir.length 0}
        replied c {s with state := .ok} [loggedIn] 0) := by
      obtain ⟨buf,hroot,hs⟩ := toRoot_some root
        (s := {c.session with currentdir := List.replicate c.session.currentdir.length 0})
        (List.length_replicate.trans hc.size)
      rw [hroot]
      exact ends_replied hs (by rfl) _ _
    dsimp only
    by_cases hstarts : c.starts ['P','A','S','S']=true
    · rw [if_neg (not_not.mpr hstarts)]
      by_cases hanon : c.session.isAnonymous=0
      · rw [if_pos ⟨hstarts,hanon⟩,if_neg (not_not.mpr hanon)]
        refine ends_read fun text => ?_
        rw [show (Except.ok (decide (text=FtpSession.userPawd)) : Except Fault Bool)=
          pure (decide (text=FtpSession.userPawd)) from rfl,pure_bind]
        split
        · exact loggedIn_ends
        · exact ends_replied hc rfl _ _
      · rw [if_neg (fun h => hanon h.2),if_pos hanon]
        exact loggedIn_ends
    · rw [if_pos hstarts,if_neg (fun h => hstarts h.1)]
      exact ends_replied hc rfl _ _
  | ok =>
    dsimp only
    rw [ftpSessionCmdProcess]
    cases hfind : findFn c.cmd with
    | none => exact ends_replied hc rfl _ _
    | some fn =>
      have hrun := ends_runFn root hc fn
      dsimp only [Option.elim]
      cases hresult : runFn root c fn with
      | error f =>
        rw [hresult] at hrun
        exact hrun
      | ok r =>
        rw [hresult] at hrun
        exact ⟨hrun.1,hrun.2.1.congr rfl,hrun.2.2⟩

end Process

end ZephyrApp.FtpNeeds

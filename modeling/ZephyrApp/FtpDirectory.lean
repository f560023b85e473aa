import ZephyrApp.FtpServer
import ZephyrApp.FtpTarget

/-!
# Current directory of an FTP session

A relative path is appended to the current directory, whose length can grow to
the size of its buffer less one. The slash between the two is appended before
the room for the path is computed, so that a directory of that length is
followed by a write past the end of the buffer.
-/

namespace ZephyrApp.FtpDirectory

open EventRuns MachineBytes FtpPath FtpBuffers FtpCommands FtpNeeds FtpServer FtpTarget
open FtpSession (ascii)

/-- A command joins a relative path to a directory that fills its buffer. -/
def JoinsFull (c : Call) : Prop :=
  match need c with
  | .path => (∃ path∈c.text,path.head?≠some slash) ∧ Full c.session
  | .parent => Full c.session
  | _ => False

/-- While the server runs, every current directory is a string in its buffer, and
the run did not end with a write past a path buffer. -/
def InBounds : Service → Prop := SoundFree (·=.overrun)

/-- No command joins a relative path to a directory that fills its buffer. -/
def HasRoom : Service → Event → Prop
  | .live f,.recv i r o =>
    0 < (f.slots i).fd → 2≤r.rc → ¬JoinsFull (callOf (f.slots i) f.dataBuf r o)
  | _,_ => True

/-- A command writes past a path buffer exactly if it joins a relative path to a
full directory. -/
theorem faultOf_overrun_iff (c : Call) : faultOf c (need c)=some .overrun ↔ JoinsFull c := by
  rw [JoinsFull]
  cases need c with
  | nothing => simp [faultOf]
  | param => simp [faultOf]
  | parent => simp [faultOf]
  | path => cases htext : c.text <;> simp [faultOf,htext]
  | bars => cases hparam : c.param <;> simp [faultOf,hparam]

instance (c : Call) : Decidable (JoinsFull c) := decidable_of_iff _ (faultOf_overrun_iff c)

instance : (s : Service) → (e : Event) → Decidable (HasRoom s e)
  | .live _,.recv _ _ _ => inferInstanceAs (Decidable (_ → _ → ¬_))
  | .live _,.accept _ => isTrue trivial
  | .live _,.release _ => isTrue trivial
  | .broken _,.recv _ _ _ => isTrue trivial
  | .broken _,.accept _ => isTrue trivial
  | .broken _,.release _ => isTrue trivial

/-- No event ends the run by a write past a path buffer exactly if there is room. -/
theorem spares_iff_hasRoom (s : Service) (e : Event) : Spares (·=.overrun) s e ↔ HasRoom s e := by
  cases s with
  | broken fault => exact Iff.rfl
  | live f =>
    cases e with
    | accept client => simp [Spares,HasRoom,eventFault]
    | release i => simp [Spares,HasRoom,eventFault]
    | recv i r o =>
      simp only [Spares,HasRoom,eventFault,serveFault]
      by_cases hfd : 0 < (f.slots i).fd
      · by_cases hrc : r.rc < 2
        · simp [hfd,hrc]
        · simp only [hfd,hrc,if_true,if_false,←faultOf_overrun_iff,not_lt.mp hrc,true_imp_iff]
          exact ⟨fun h heq => h _ heq rfl,fun h fault hfault heq => h (heq▸hfault)⟩
      · simp [hfd]

/-- In every run of the server, every current directory stays a string in its
buffer and nothing is written past a path buffer exactly if no command joins a
relative path to a directory that fills its buffer. -/
theorem directory_in_bounds_iff (root : MountPoint) (es : List Event) :
    Throughout (next root) InBounds start es ↔ AlongRun (next root) HasRoom start es := by
  rw [InBounds,throughout_free_iff]
  exact alongRun_congr (I := fun _ => True) (fun _ _ _ => trivial)
    (fun s e _ => spares_iff_hasRoom s e) trivial es

section Growth

variable {root : MountPoint} {buf path q : List Byte} {f : Ftpd} {i : Fin 4} {o : Outcomes}

/-- A command to change the directory has bytes. -/
theorem cwdBytes_pos (path : List Byte) :
    0 < (ascii ['C','W','D',' ']++path++[0x0D,0x0A]).length := by
  simp [ascii]

/-- With a path of this length it fits the buffer. -/
theorem cwdBytes_fits {path : List Byte} (hfits : path.length≤250) :
    (ascii ['C','W','D',' ']++path++[0x0D,0x0A]).length≤256 := by
  simp [ascii]
  omega

/-- A segment that holds a command to change the directory. -/
def cwdSegment (path : List Byte) (hfits : path.length≤250) : Segment :=
  ⟨ascii ['C','W','D',' ']++path++[0x0D,0x0A],cwdBytes_pos path,cwdBytes_fits hfits⟩

/-- The line of the segment. -/
theorem cwdSegment_line (hpath : ∀ c∈path,c≠0) (hfits : path.length≤250) :
    (cwdSegment path hfits).line=ascii ['C','W','D',' ']++path := by
  have hlen : (cwdSegment path hfits).bytes.length-2=(ascii ['C','W','D',' ']++path).length := by
    rw [cwdSegment,@List.length_append _ (ascii ['C','W','D',' ']++path)]
    rfl
  have hname : ∀ c∈ascii ['C','W','D',' '],c≠0 := by decide
  have hzero : ∀ c∈ascii ['C','W','D',' ']++path,decide (c≠0)=true := fun c hc =>
    decide_eq_true ((List.mem_append.mp hc).elim (hname c) (hpath c))
  rw [Segment.line,hlen,cwdSegment,List.take_left,cString,List.takeWhile_eq_self_iff.mpr hzero]

/-- A command to change the directory gets its path. -/
theorem callOf_cwd (s : FtpSession.Session) (data : List Byte) (o : Outcomes)
    (hpath : ∀ c∈path,c≠0) (hfits : path.length≤250) :
    findFn (callOf s data (.bytes (cwdSegment path hfits)) o).cmd=some .cwd ∧
      (callOf s data (.bytes (cwdSegment path hfits)) o).text=some path := by
  have hlong : 2 ≤ (cwdSegment path hfits).bytes.length := by simp [cwdSegment,ascii]
  obtain ⟨hcmd,htext⟩ := callOf_line s data o (cwdSegment path hfits) hlong
  rw [cwdSegment_line hpath] at hcmd htext
  rw [hcmd,htext]
  exact ⟨rfl,rfl⟩

/-- A logged-in session is in a directory. -/
structure InDirectory (f : Ftpd) (i : Fin 4) (dir : List Byte) : Prop where
  /-- It is connected. -/
  connected : 0 < (f.slots i).fd
  /-- It is logged in. -/
  loggedIn : (f.slots i).state=.ok
  /-- Its current directory. -/
  dir : cString (f.slots i).currentdir=dir

/-- A session changes to the directory that its path leads to. -/
theorem nextLive_cwd (root : MountPoint) (o : Outcomes) {dir : List Byte} (h : Sound f)
    (hin : InDirectory f i dir) (hpath : ∀ c∈path,c≠0) (hfits : path.length≤250)
    (htarget : target dir path=some q) :
    ∃ f',nextLive root f (.recv i (.bytes (cwdSegment path hfits)) o)=.live f' ∧
      InDirectory f' i q := by
  obtain ⟨hconnected,hstate,rfl⟩ := hin
  have hsession : (callOf (f.slots i) f.dataBuf (.bytes (cwdSegment path hfits)) o).session=
      f.slots i := splitLine_session
  obtain ⟨hfn,htext⟩ := callOf_cwd (f.slots i) f.dataBuf o hpath hfits
  have hcwd : findFn (callOf (f.slots i) f.dataBuf (.bytes (cwdSegment path hfits)) o).cmd≠
      some .cdup := by
    rw [hfn]
    decide
  obtain ⟨r,out,hchange,hr,hout,-⟩ := changeDir_some (by rw [hsession]; exact h.bounded i) hpath
    (by rw [hsession]; exact htarget)
  have hrun := processCall_changes root ⟨hsession.symm▸hstate,Or.inl hfn⟩
  rw [changePath,pathOf,if_neg hcwd,htext] at hrun
  dsimp only at hrun
  rw [hchange] at hrun
  have hlong : 2≤(Received.bytes (cwdSegment path hfits)).rc := by
    simp [Received.rc,cwdSegment,ascii]
    omega
  simp only [nextLive,if_pos hconnected,serve_eq root h.size hlong,hrun]
  refine ⟨_,rfl,?_⟩
  rw [hsession] at hr
  constructor
  · simp only [Function.update_self,hr]
    exact hconnected
  · simp only [Function.update_self,hr]
    exact hstate
  · simp only [Function.update_self,hr]
    exact hout

/-- A session in a directory that fills its buffer writes past the end when it
changes to a relative one. -/
theorem nextLive_cwd_full (root : MountPoint) (o : Outcomes) {dir : List Byte} (h : Sound f)
    (hin : InDirectory f i dir) (hfull : dir.length=255) (hpath : ∀ c∈path,c≠0)
    (hfits : path.length≤250) (hrel : path.head?≠some slash) :
    nextLive root f (.recv i (.bytes (cwdSegment path hfits)) o)=.broken .overrun := by
  obtain ⟨hconnected,hstate,rfl⟩ := hin
  let c := callOf (f.slots i) f.dataBuf (.bytes (cwdSegment path hfits)) o
  have hsession : c.session=f.slots i := splitLine_session
  obtain ⟨hfn,htext⟩ := callOf_cwd (f.slots i) f.dataBuf o hpath hfits
  have hneed : need c=.path := by
    rw [need,hsession,hstate]
    dsimp only
    rw [show findFn c.cmd=some .cwd from hfn]
    rfl
  have hjoins : JoinsFull c := by
    rw [JoinsFull,hneed]
    refine ⟨⟨path,htext,hrel⟩,?_⟩
    rw [hsession]
    exact hfull
  have hcases := nextLive_cases root h (.recv i (.bytes (cwdSegment path hfits)) o)
  have hfault : eventFault f (.recv i (.bytes (cwdSegment path hfits)) o)=some .overrun := by
    rw [eventFault,if_pos hconnected,serveFault,if_neg]
    · exact (faultOf_overrun_iff c).mpr hjoins
    · simp [Received.rc,cwdSegment,ascii]
      omega
  rw [hfault] at hcases
  exact hcases

end Growth

/-- The line of an anonymous login has bytes. -/
theorem anonymousBytes_pos :
    0 < (ascii ['U','S','E','R',' ']++FtpSession.anonymous++[0x0D,0x0A]).length := by decide

/-- It fits the buffer. -/
theorem anonymousBytes_fits :
    (ascii ['U','S','E','R',' ']++FtpSession.anonymous++[0x0D,0x0A]).length≤256 := by decide

/-- A session is accepted on descriptor four and logged in anonymously. -/
def anonymousLogin : List Event :=
  [.accept 4,.recv 0 (.bytes ⟨ascii ['U','S','E','R',' ']++FtpSession.anonymous++[0x0D,0x0A],
    anonymousBytes_pos,anonymousBytes_fits⟩) allOk]

/-- Whether slot 0 is logged in with an empty current directory. -/
def loggedIn : Service → Bool
  | .live f => decide (0 < (f.slots 0).fd ∧ (f.slots 0).state=.ok ∧
      cString (f.slots 0).currentdir=[])
  | .broken _ => false

/-- A command to change to a directory. -/
def cwd (path : List Byte) (hfits : path.length≤250) : Event :=
  .recv 0 (.bytes (cwdSegment path hfits)) allOk

/-- Some letters. -/
def letters (n : ℕ) : List Byte := List.replicate n 0x61

/-- Letters are few enough for a command. -/
theorem letters_length (n : ℕ) : (letters n).length=n := List.length_replicate

/-- An anonymous session changes to a directory of 201 bytes, then into one that
makes them 255, and then into one more. -/
def threeDirectories : List Event := anonymousLogin++
  [cwd (slash::letters 200) (by rw [List.length_cons,letters_length]; decide),
    cwd (letters 53) (by rw [letters_length]; decide),
    cwd (letters 1) (by rw [letters_length]; decide)]

/-- Two commands fill the directory, and the third one appends a slash to it. -/
theorem third_cwd_overruns : ¬∀ es,Throughout (next lfs1) InBounds start es := by
  intro h
  have hletters : ∀ n,∀ c∈letters n,c≠0 := fun n c hc => by
    rw [(List.mem_replicate.mp hc).2]
    decide
  obtain ⟨f,hlogin,hf⟩ : ∃ f,finalState (next lfs1) start anonymousLogin=.live f ∧
      InDirectory f 0 [] := by
    have hfields : loggedIn (finalState (next lfs1) start anonymousLogin)=true := by
      decide +kernel
    cases hlogin : finalState (next lfs1) start anonymousLogin with
    | live f =>
      rw [hlogin] at hfields
      obtain ⟨hfd,hstate,hdir⟩ := of_decide_eq_true hfields
      exact ⟨f,rfl,hfd,hstate,hdir⟩
    | broken fault =>
      rw [hlogin] at hfields
      cases hfields
  have hsound := soundLive_run lfs1 _ f hlogin
  obtain ⟨f1,hfirst,hf1⟩ := nextLive_cwd lfs1 allOk hsound hf
    (List.forall_mem_cons.mpr ⟨slash_ne_zero,hletters 200⟩)
    (by rw [List.length_cons,letters_length]; decide)
    (show _=some (slash::letters 200) by decide +kernel)
  have hsound1 := hsound.next hfirst
  obtain ⟨f2,hsecond,hf2⟩ := nextLive_cwd lfs1 allOk hsound1 hf1
    (hletters 53) (by rw [letters_length]; decide)
    (show _=some (slash::letters 200++slash::letters 53) by decide +kernel)
  have hthird := nextLive_cwd_full lfs1 allOk (hsound1.next hsecond) hf2
    (by decide +kernel) (hletters 1) (by rw [letters_length]; decide) (by decide)
  have hend : finalState (next lfs1) start threeDirectories=.broken .overrun := by
    rw [threeDirectories,finalState,List.foldl_append]
    rw [finalState] at hlogin
    rw [hlogin]
    simp only [List.foldl_cons,List.foldl_nil,next,cwd,hfirst,hsecond,hthird]
  obtain ⟨es,hes⟩ : ∃ es,es=threeDirectories := ⟨_,rfl⟩
  have hlast := (h es).last
  rw [hes,hend] at hlast
  exact hlast rfl

end ZephyrApp.FtpDirectory

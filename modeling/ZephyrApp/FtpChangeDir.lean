import ZephyrApp.FtpDirectory

/-!
# Changes of the current directory over FTP

`CWD` and `CDUP` build the new path in the buffer of the current directory and
normalise it there, and only then learn whether the path leads anywhere and
whether the directory opens. Nothing is put back after a failure. The directory
is kept where the new path is the old one; a path above the root leaves its
dots in the buffer.
-/

namespace ZephyrApp.FtpChangeDir

open EventRuns MachineBytes PathResolution FtpPath FtpBuffers FtpCommands FtpNeeds FtpServer
open FtpTarget
open FtpSession (Session ascii)
open FtpDirectory (anonymousLogin cwdSegment)

section Commands

/-- A command comes back, and unless it answers 250 the current directory is
what it was. -/
def Kept (s : Session) : Except Fault Report → Prop
  | .error _ => False
  | .ok r => Answers250 r ∨ cString r.session.currentdir=cString s.currentdir

instance (s : Session) : (result : Except Fault Report) → Decidable (Kept s result)
  | .error _ => isFalse id
  | .ok _ => inferInstanceAs (Decidable (_ ∨ _))

/-- The path leads to a directory that opens, with a reply buffer free, or to
the current directory. -/
def LandsAt (c : Call) : Prop :=
  ∃ path∈pathOf c,∃ q∈target (cString c.session.currentdir) path,
    (c.outcomes.dirOpens=true ∧ c.outcomes.bufAlloc=true) ∨ q=cString c.session.currentdir

variable {c : Call}

/-- From a directory without two dots, a change of directory that fails keeps it
exactly if the path leads to a directory that opens, or to the same one. -/
theorem kept_iff (root : MountPoint) (hc : Bounded c.session)
    (hup : NoUp (cString c.session.currentdir)) (h : Changes c) :
    Kept c.session (processCall root c) ↔ LandsAt c := by
  rw [processCall_changes root h,changePath,LandsAt]
  cases hpathOf : pathOf c with
  | none => simp [Kept,Except.map]
  | some path =>
    have hpath := pathOf_ne_zero hpathOf
    simp only [Option.mem_def,Option.some.injEq,exists_eq_left']
    cases hq : target (cString c.session.currentdir) path with
    | none =>
      rcases changeDir_none hc hpath hq with herror | ⟨r,hrun,hnot,hdots⟩
      · simp [herror,Kept,Except.map]
      · have hne : cString r.session.currentdir≠cString c.session.currentdir := fun heq =>
          hdots (heq▸hup)
        rw [hrun]
        exact iff_of_false (fun hkept => hkept.elim hnot hne) (by simp)
    | some q =>
      obtain ⟨r,out,hrun,hsession,hstring,hanswer⟩ := changeDir_some hc hpath hq
      simp only [hrun,Except.map,Kept,hsession,hstring,Option.some.injEq,exists_eq_left']
      exact or_congr hanswer Iff.rfl

end Commands

section Directories

variable {c : Call} {s : Session} {P : List Byte → Prop}

/-- The directory of a session, as a string, has a property. -/
def At (P : List Byte → Prop) (s : Session) : Prop := P (cString s.currentdir)

/-- The transfers do not change the directory. -/
theorem at_transferFree (P : List Byte → Prop) : TransferFree (At P) := fun _ _ h => h

/-- A session at the mount point is there. -/
theorem toRoot_text {root : MountPoint} {t : Session} (h : toRoot root s=.ok t) :
    cString t.currentdir=root.text := by
  rw [toRoot] at h
  cases hwrite : writeString s.currentdir 0 root.text with
  | none =>
    rw [hwrite] at h
    cases h
  | some buf =>
    rw [hwrite] at h
    obtain rfl := Except.ok.inj h
    have hfits : ([]++root.text).length < s.currentdir.length := by
      rw [writeString] at hwrite
      split at hwrite
      · rename_i hlt
        rwa [Nat.zero_add] at hlt
      · cases hwrite
    have hnil : s.currentdir.take ([] : List Byte).length=[] := rfl
    obtain ⟨buf',hwrite',hstring,-⟩ := writeString_eq root.text hnil root.ne_zero hfits
    rw [List.length_nil,hwrite] at hwrite'
    rw [Option.some.inj hwrite',hstring]
    rfl

/-- A session at the mount point has what the mount point has. -/
theorem toRoot_at {root : MountPoint} {t : Session} (hroot : P root.text)
    (h : toRoot root s=.ok t) : At P t := by
  rw [At,toRoot_text h]
  exact hroot

/-- A function of the table that does not change the directory leaves it, or
goes to the mount point. -/
theorem leaves_runFn {root : MountPoint} (h : At P c.session) (hroot : P root.text)
    {fn : CmdFn} (hcwd : fn≠.cwd) (hcdup : fn≠.cdup) : Leaves (At P) (runFn root c fn) := by
  by_cases hown : fn∈[CmdFn.cwd,.cdup,.login,.pass]
  · simp only [List.mem_cons,List.not_mem_nil,or_false] at hown
    rcases hown with rfl | rfl | rfl | rfl
    · exact absurd rfl hcwd
    · exact absurd rfl hcdup
    · refine leaves_bind fun text _ => ?_
      split_ifs
      · exact leaves_replied (s := {c.session with isAnonymous := 0,state := .passwd}) h _ _
      · exact leaves_bind fun s hs => leaves_replied (toRoot_at hroot hs) _ _
      · exact leaves_replied h _ _
    · exact leaves_bind fun s hs => leaves_replied (toRoot_at hroot hs) _ _
  · exact leaves_runFn_transfer (at_transferFree P) h hown

end Directories

section Runs

variable {root : MountPoint} {f : Ftpd} {c : Call} {s : Session}

/-- A command that changes the directory to where it lands leaves it without two
dots. -/
theorem leaves_landing (hc : Bounded c.session) (h : Changes c) (hlands : LandsAt c) :
    Leaves (At NoUp) (processCall root c) := by
  obtain ⟨path,hpath,q,hq,-⟩ := hlands
  obtain ⟨r,out,hrun,hsession,hstring,-⟩ := changeDir_some hc (pathOf_ne_zero hpath) hq
  intro r' hr'
  rw [processCall_changes root h,changePath,Option.mem_def.mp hpath] at hr'
  dsimp only at hr'
  rw [hrun] at hr'
  obtain rfl := Except.ok.inj hr'
  rw [At,hsession]
  exact hstring.symm▸noUp_target hq

/-- A command that does not change the directory leaves it without two dots. -/
theorem leaves_processCall (h : At NoUp c.session) (hroot : NoUp root.text)
    (hnot : ¬Changes c) : Leaves (At NoUp) (processCall root c) := by
  rw [processCall]
  cases hstate : c.session.state with
  | user =>
    dsimp only
    split
    · exact leaves_replied h _ _
    · refine leaves_bind fun text _ => ?_
      split_ifs
      all_goals exact leaves_replied (by exact h) _ _
  | passwd =>
    dsimp only
    split
    · exact leaves_replied h _ _
    · have hlogin : ∀ accepted : Bool,Leaves (At NoUp) (if accepted then do
          let s ← toRoot root
            {c.session with currentdir := List.replicate c.session.currentdir.length 0}
          replied c {s with state := .ok} [loggedIn] 0
          else replied c c.session [loginIncorrect] 0) := by
        intro accepted
        split
        · refine leaves_bind fun s hs => ?_
          have hs' : At NoUp s := toRoot_at hroot hs
          exact leaves_replied (s := {s with state := .ok}) hs' _ _
        · exact leaves_replied h _ _
      split
      · exact hlogin true
      · exact leaves_bind fun text _ => leaves_bind fun accepted _ => hlogin accepted
  | ok =>
    dsimp only
    rw [ftpSessionCmdProcess]
    cases hfind : findFn c.cmd with
    | none => exact leaves_replied h _ _
    | some fn =>
      have hcwd : fn≠.cwd := fun heq => hnot ⟨hstate,Or.inl (by rw [hfind,heq])⟩
      have hcdup : fn≠.cdup := fun heq => hnot ⟨hstate,Or.inr (by rw [hfind,heq])⟩
      exact (leaves_runFn h hroot hcwd hcdup).map _ fun _ => rfl

/-- A command that changes the directory of a session comes back, and unless it
answers 250 the current directory is what it was. -/
def Atomic (root : MountPoint) : Service → Event → Prop
  | .live f,.recv i r o =>
    0 < (f.slots i).fd → 2≤r.rc → Changes (callOf (f.slots i) f.dataBuf r o) →
      Kept (f.slots i) (serve root (f.slots i) f.dataBuf r o)
  | _,_ => True

instance (root : MountPoint) : (s : Service) → (e : Event) → Decidable (Atomic root s e)
  | .live _,.recv _ _ _ => inferInstanceAs (Decidable (_ → _ → _ → _))
  | .live _,.accept _ => isTrue trivial
  | .live _,.release _ => isTrue trivial
  | .broken _,_ => isTrue trivial

/-- A command that changes the directory has a path to a directory that opens,
with a reply buffer free, or to the current one. -/
def Lands : Service → Event → Prop
  | .live f,.recv i r o =>
    0 < (f.slots i).fd → 2≤r.rc → Changes (callOf (f.slots i) f.dataBuf r o) →
      LandsAt (callOf (f.slots i) f.dataBuf r o)
  | _,_ => True

/-- While the server runs, it is sound and no current directory holds two dots. -/
def Plain : Service → Prop
  | .live f => Sound f ∧ ∀ i,NoUp (cString (f.slots i).currentdir)
  | .broken _ => True

/-- An event that meets the condition leaves no directory with two dots. -/
theorem plain_next (hroot : NoUp root.text) (s : Service) (e : Event) (hs : Plain s)
    (hlands : Lands s e) : Plain (next root s e) := by
  cases s with
  | broken fault => trivial
  | live f =>
    obtain ⟨hsound,hup⟩ := hs
    rw [next]
    cases hnext : nextLive root f e with
    | broken fault => trivial
    | live f' =>
      refine ⟨hsound.next hnext,fun i => ?_⟩
      have hslot := slotStep_of_nextLive hnext i
      generalize f'.slots i=t at hslot ⊢
      cases hslot with
      | taken htaken => exact hup i
      | kept hother => exact hup i
      | reset hfd =>
        have hcleared : cString (FtpSession.ftpSessionReset (f.slots i)).currentdir=[] := by
          rw [FtpSession.ftpSessionReset,(hsound.bounded i).size]
          rfl
        rw [hcleared]
        exact noUp_nil
      | processed hfd hlong hrun =>
        rename_i r o report
        have hsession := callOf_session (f.slots i) f.dataBuf r o
        by_cases hchange : Changes (callOf (f.slots i) f.dataBuf r o)
        · exact leaves_landing (by rw [hsession]; exact hsound.bounded i) hchange
            (hlands hfd hlong hchange) report hrun
        · exact leaves_processCall (by rw [hsession]; exact hup i) hroot hchange report hrun

/-- Where no directory holds two dots, an event meets the condition exactly if
its command is atomic. -/
theorem atomic_iff_lands (s : Service) (e : Event) (hs : Plain s) :
    Atomic root s e ↔ Lands s e := by
  cases s with
  | broken fault => exact Iff.rfl
  | live f =>
    cases e with
    | accept client => exact Iff.rfl
    | release i => exact Iff.rfl
    | recv i r o =>
      obtain ⟨hsound,hup⟩ := hs
      have hsession := callOf_session (f.slots i) f.dataBuf r o
      refine forall_congr' fun hfd => forall_congr' fun hlong => forall_congr' fun hchange => ?_
      rw [serve_eq root hsound.size hlong]
      have hkept := kept_iff root (c := callOf (f.slots i) f.dataBuf r o)
        (by rw [hsession]; exact hsound.bounded i) (by rw [hsession]; exact hup i) hchange
      rwa [hsession] at hkept

/-- In every run of the server, every change of directory that is not answered
with 250 keeps the current directory exactly if every `CWD` and `CDUP` has a path
to a directory that opens, with a reply buffer free, or to the current one. -/
theorem failed_change_atomic_iff (root : MountPoint) (hroot : NoUp root.text) (es : List Event) :
    AlongRun (next root) (Atomic root) start es ↔ AlongRun (next root) Lands start es := by
  have hstart : Plain start := by
    refine ⟨sound_start,fun i => ?_⟩
    rw [show cString (FtpSession.ftpStart i).currentdir=[] from rfl]
    exact noUp_nil
  exact alongRun_congr_of_kept (plain_next hroot) atomic_iff_lands hstart es

/-- The outcomes of a command whose directory does not open. -/
def dirMissing : Outcomes := {allOk with dirOpens := false}

/-- A session logs in and changes to `x`, which opens, and to `y`, which does not. -/
def missingDirectory : List Event := anonymousLogin++
  [.recv 0 (.bytes (cwdSegment [0x78] (by decide))) allOk,
    .recv 0 (.bytes (cwdSegment [0x79] (by decide))) dirMissing]

/-- The second change is answered with 550 and still moves the session to `/x/y`. -/
theorem missing_directory_entered : ¬∀ es,AlongRun (next lfs1) (Atomic lfs1) start es :=
  fun h => absurd (h missingDirectory) (by decide +kernel)

/-- The path of the second change does not lead to a directory that opens. -/
theorem missing_directory_does_not_land : ¬AlongRun (next lfs1) Lands start missingDirectory :=
  mt (failed_change_atomic_iff lfs1 (by decide) missingDirectory).mpr (by decide +kernel)

end Runs

end ZephyrApp.FtpChangeDir

import ZephyrApp.FtpPath

/-!
# Path buffers of the FTP server

A path is joined to a directory and normalised in one buffer of fixed size.
When normalisation leaves nothing, the byte before the buffer is looked at as
well; what the buffer holds does not depend on it. The buffer stays terminated
within its size, unless a slash is appended to a directory that fills it.
-/

namespace ZephyrApp.FtpBuffers

open MachineBytes FtpPath

/-- A buffer holds a terminator. -/
def Terminated (buf : List Byte) : Prop := (0 : Byte)∈buf

/-- What follows the loop of `ftp_normalize_path`, whatever the byte before the
buffer is: with nothing written only the terminator is stored in the buffer. -/
def settle (buf : List Byte) (dst : ℕ) : Option (List Byte) :=
  if dst=0 then store buf 0 0 else finish buf dst

/-- The loop of `ftp_normalize_path` and what follows it. -/
def settleLoop : ℕ → List Byte → ℕ → ℕ → Option (List Byte×Bool)
  | 0,_,_,_ => none
  | fuel+1,buf,dst,src => do
    match ← normalizePass buf dst src with
    | .more buf dst src => settleLoop fuel buf dst src
    | .done buf dst => do
      let buf ← settle buf dst
      some (buf,true)
    | .null buf => some (buf,false)

/-- `ftp_normalize_path` in memory: the buffer and whether a path is returned. -/
def normalizeInPlace (buf : List Byte) : Option (List Byte×Bool) :=
  settleLoop (buf.length+1) buf 0 0

/-- The first half of `build_full_path`: the path copied into the buffer or
appended to what stands there, none when a write goes past the end. -/
def joinBuf (buf path : List Byte) : Option (List Byte) :=
  if path.head?=some slash then writeString buf 0 (path.take (buf.length-1))
  else do
    let buf ← strcat buf [slash]
    strcat buf (path.take (buf.length-(cString buf).length-1))

section Refinement

variable {buf : List Byte} {dst src fuel : ℕ} {r : List Byte×Bool}

/-- Where the byte before the buffer is not needed, nothing changes. -/
theorem settle_of_finish {out : List Byte} (h : finish buf dst=some out) :
    settle buf dst=some out := by
  rw [settle]
  split
  · rename_i hdst
    rw [hdst,finish] at h
    cases hstore : store buf 0 0 with
    | none => rw [hstore] at h; cases h
    | some buf' => rw [hstore] at h; cases h
  · exact h

/-- The loop that stays inside the buffer is the loop in memory. -/
theorem settleLoop_of_normalizeLoop (h : normalizeLoop fuel buf dst src=some r) :
    settleLoop fuel buf dst src=some r := by
  induction fuel generalizing buf dst src with
  | zero => cases h
  | succ fuel ih =>
    rw [normalizeLoop] at h
    rw [settleLoop]
    cases hpass : normalizePass buf dst src with
    | none => rw [hpass] at h; cases h
    | some pass =>
      rw [hpass] at h
      cases pass with
      | more buf' dst' src' => exact ih h
      | null buf' => exact h
      | done buf' dst' =>
        simp only [Option.bind_eq_bind,Option.bind_some,Option.bind_eq_some_iff] at h ⊢
        obtain ⟨out,hfinish,hr⟩ := h
        exact ⟨out,settle_of_finish hfinish,hr⟩

/-- A path is built by joining and normalising. -/
theorem buildFullPath_eq (buf path : List Byte) :
    buildFullPath buf path=(joinBuf buf path).bind fun joined =>
      (ftpNormalizePath joined).bind fun r => if r.2 then some (r.1,0) else some (r.1,-1) := by
  rw [buildFullPath,joinBuf]
  split
  · rfl
  · simp only [Option.bind_eq_bind,Option.bind_assoc]

/-- A path built inside its buffer is the path built in memory. -/
theorem buildFullPath_joinBuf {path : List Byte} {ret : ℤ} {out : List Byte}
    (h : buildFullPath buf path=some (out,ret)) :
    ∃ joined,joinBuf buf path=some joined ∧
      normalizeInPlace joined=some (out,decide (ret=0)) := by
  rw [buildFullPath_eq] at h
  obtain ⟨joined,hjoin,h⟩ := Option.bind_eq_some_iff.mp h
  obtain ⟨⟨buf',found⟩,hnorm,h⟩ := Option.bind_eq_some_iff.mp h
  refine ⟨joined,hjoin,?_⟩
  rw [normalizeInPlace,settleLoop_of_normalizeLoop hnorm]
  cases found <;> cases h <;> rfl

end Refinement

section Lengths

variable {buf out : List Byte} {dst src fuel : ℕ}

/-- A stored byte keeps the size. -/
theorem length_store {c : Byte} (h : store buf dst c=some out) : out.length=buf.length := by
  rw [store] at h
  split at h
  · rw [←Option.some.inj h,List.length_set]
  · cases h

/-- A copied name keeps the size. -/
theorem length_copyName {dst' src' : ℕ} {c : Byte}
    (h : copyName fuel buf dst src=some (out,dst',src',c)) : out.length=buf.length := by
  induction fuel generalizing buf dst src with
  | zero => cases h
  | succ fuel ih =>
    rw [copyName] at h
    obtain ⟨b,-,h⟩ := Option.bind_eq_some_iff.mp h
    split at h
    · obtain ⟨buf',hstore,h⟩ := Option.bind_eq_some_iff.mp h
      exact (ih h).trans (length_store hstore)
    · cases h
      rfl

/-- The buffer that a pass leaves. -/
def passBuf : Pass → List Byte
  | .more buf _ _ => buf
  | .done buf _ => buf
  | .null buf => buf

/-- Copying up to the next slash keeps the size. -/
theorem length_copyUp {pass : Pass} (h : copyUp buf dst src=some pass) :
    (passBuf pass).length=buf.length := by
  rw [copyUp] at h
  obtain ⟨⟨buf',dst',src',c⟩,hcopy,h⟩ := Option.bind_eq_some_iff.mp h
  have hlen := length_copyName hcopy
  dsimp only at h
  split at h
  · obtain ⟨buf'',hstore,h⟩ := Option.bind_eq_some_iff.mp h
    obtain ⟨src'',-,h⟩ := Option.bind_eq_some_iff.mp h
    cases h
    exact (length_store hstore).trans hlen
  · cases h
    exact hlen

/-- Going up keeps the size. -/
theorem length_upOne {pass : Pass} (h : upOne buf dst src=some pass) :
    (passBuf pass).length=buf.length := by
  rw [upOne] at h
  split at h
  · cases h
    rfl
  · obtain ⟨dst',-,h⟩ := Option.bind_eq_some_iff.mp h
    cases h
    rfl

/-- A pass keeps the size. -/
theorem length_normalizePass {pass : Pass} (h : normalizePass buf dst src=some pass) :
    (passBuf pass).length=buf.length := by
  rw [normalizePass] at h
  obtain ⟨c,-,h⟩ := Option.bind_eq_some_iff.mp h
  split at h
  · obtain ⟨c1,-,h⟩ := Option.bind_eq_some_iff.mp h
    split_ifs at h
    · exact length_copyUp h
    · obtain ⟨src',-,h⟩ := Option.bind_eq_some_iff.mp h
      cases h
      rfl
    · obtain ⟨c2,-,h⟩ := Option.bind_eq_some_iff.mp h
      split_ifs at h
      · exact length_upOne h
      · obtain ⟨src',-,h⟩ := Option.bind_eq_some_iff.mp h
        exact length_upOne h
      · exact length_copyUp h
    · exact length_copyUp h
  · exact length_copyUp h

/-- What follows the loop keeps the size. -/
theorem length_settle (h : settle buf dst=some out) : out.length=buf.length := by
  rw [settle] at h
  split at h
  · exact length_store h
  · rw [finish] at h
    obtain ⟨buf',hstore,h⟩ := Option.bind_eq_some_iff.mp h
    have hlen := length_store hstore
    split_ifs at h
    · obtain ⟨c,-,h⟩ := Option.bind_eq_some_iff.mp h
      split at h
      · exact (length_store h).trans hlen
      · exact (congrArg List.length (Option.some.inj h)).symm.trans hlen
    · exact (congrArg List.length (Option.some.inj h)).symm.trans hlen

/-- Normalisation keeps the size. -/
theorem length_settleLoop {r : List Byte×Bool} (h : settleLoop fuel buf dst src=some r) :
    r.1.length=buf.length := by
  induction fuel generalizing buf dst src with
  | zero => cases h
  | succ fuel ih =>
    rw [settleLoop] at h
    obtain ⟨pass,hpass,h⟩ := Option.bind_eq_some_iff.mp h
    have hlen := length_normalizePass hpass
    cases pass with
    | more buf' dst' src' => exact (ih h).trans hlen
    | null buf' =>
      cases h
      exact hlen
    | done buf' dst' =>
      obtain ⟨buf'',hsettle,h⟩ := Option.bind_eq_some_iff.mp h
      obtain rfl := Option.some.inj h
      exact (length_settle hsettle).trans hlen

end Lengths

section Bounds

variable {buf out text : List Byte} {src : ℕ}

/-- A laid out text ends in its terminator. -/
theorem terminated_of_layout (h : Layout buf out src text) : Terminated buf := by
  obtain ⟨junk,hdrop⟩ := h.text
  have hin : (0 : Byte)∈buf.drop src := by
    rw [hdrop]
    exact List.mem_append_right _ List.mem_cons_self
  exact List.drop_subset src buf hin

/-- A terminated string is shorter than its buffer. -/
theorem cString_lt (h : Terminated buf) : (cString buf).length < buf.length := by
  induction buf with
  | nil => exact absurd h List.not_mem_nil
  | cons c buf ih =>
    rw [cString,List.takeWhile_cons]
    split
    · rename_i hc
      have hrest : Terminated buf := by
        rcases List.mem_cons.mp h with hzero | hin
        · exact absurd hzero.symm (of_decide_eq_true hc)
        · exact hin
      exact Nat.succ_lt_succ (ih hrest)
    · exact Nat.zero_lt_succ _

/-- Stepping back stays inside what was written. -/
theorem backUp_some {dst : ℕ} (h : dst≤buf.length) : ∃ d,d≤dst ∧ backUp buf dst=some d := by
  induction dst with
  | zero => exact ⟨0,le_refl _,rfl⟩
  | succ dst ih =>
    obtain ⟨d,hd,hback⟩ := ih (by omega)
    have hget : buf[dst]?=some buf[dst] := List.getElem?_eq_getElem h
    rw [backUp,hget]
    simp only [Option.bind_eq_bind,Option.bind_some]
    split
    · exact ⟨d,by omega,hback⟩
    · exact ⟨dst+1,le_refl _,rfl⟩

/-- Going up fails at the start, and leaves a part of what was written elsewhere. -/
theorem upOne_layout (h : Layout buf out src text) :
    upOne buf out.length src=some (.null buf) ∨
      ∃ out',upOne buf out.length src=some (.more buf out'.length src) ∧
        Layout buf out' src text := by
  rw [upOne]
  split
  · exact Or.inl rfl
  · have hlen := h.length_lt
    have hbehind := h.behind
    obtain ⟨d,hd,hback⟩ := backUp_some (show out.length-1 ≤ buf.length by omega)
    have htaken : (out.take d).length=d := by
      rw [List.length_take]
      omega
    have hl := h
    rw [←List.take_append_drop d out] at hl
    refine Or.inr ⟨out.take d,?_,hl.shrink⟩
    rw [hback,htaken]
    rfl

/-- Where a pass ends up: the loop goes on with less to read, ends, or fails. -/
def Advances (text : List Byte) : Pass → Prop
  | .more buf dst src => ∃ out text',dst=out.length ∧ Layout buf out src text' ∧
      text'.length < text.length ∧ ∀ c∈text',c≠0
  | .done buf dst => ∃ out src,dst=out.length ∧ Layout buf out src []
  | .null buf => Terminated buf

/-- What is left behind slashes is not longer and has no terminator. -/
theorem dropWhile_bounds (rest : List Byte) (hzero : ∀ c∈rest,c≠0) :
    (rest.dropWhile (·=slash)).length≤rest.length ∧ ∀ c∈rest.dropWhile (·=slash),c≠0 := by
  have hsuffix := List.dropWhile_suffix (·=slash) (l := rest)
  exact ⟨hsuffix.length_le,fun c hc => hzero c (hsuffix.subset hc)⟩

/-- A pass that goes up advances. -/
theorem advances_upOne {text' : List Byte} (h : Layout buf out src text')
    (hless : text'.length < text.length) (hzero : ∀ c∈text',c≠0) :
    ∃ pass,upOne buf out.length src=some pass ∧ Advances text pass := by
  rcases upOne_layout h with hnull | ⟨out',hmore,hl⟩
  · exact ⟨_,hnull,terminated_of_layout h⟩
  · exact ⟨_,hmore,out',text',rfl,hl,hless,hzero⟩

/-- A pass that copies a name advances. -/
theorem advances_copyUp {name tail : List Byte} (hname : ∀ c∈name,c≠0 ∧ c≠slash)
    (htail : tail=[] ∨ ∃ rest,tail=slash::rest) (hzero : ∀ c∈tail,c≠0)
    (h : Layout buf out src (name++tail)) :
    ∃ pass,copyUp buf out.length src=some pass ∧ Advances (name++tail) pass := by
  rcases htail with rfl | ⟨rest,rfl⟩
  · rw [List.append_nil] at h
    obtain ⟨buf',src',hrun,hl⟩ := copyUp_done name hname h
    exact ⟨_,hrun,_,src',rfl,hl⟩
  · obtain ⟨buf',src',hrun,hl⟩ := copyUp_more name hname h
    obtain ⟨hlen,hdrop⟩ := dropWhile_bounds rest fun c hc => hzero c (List.mem_cons_of_mem _ hc)
    refine ⟨_,hrun,_,_,rfl,hl,?_,hdrop⟩
    rw [List.length_append,List.length_cons]
    omega

/-- Every pass advances: by the first name of the text and by what follows it. -/
theorem advances_normalizePass (h : Layout buf out src text) (hzero : ∀ c∈text,c≠0) :
    ∃ pass,normalizePass buf out.length src=some pass ∧ Advances text pass := by
  have hsplit := List.takeWhile_append_dropWhile (p := (·≠slash)) (l := text)
  have hname : ∀ c∈text.takeWhile (·≠slash),c≠0 ∧ c≠slash := fun c hc =>
    ⟨hzero c ((List.takeWhile_prefix _).subset hc),by simpa using List.mem_takeWhile_imp hc⟩
  have hhead := List.head?_dropWhile_not (·≠slash) text
  generalize text.takeWhile (·≠slash)=name at hsplit hname
  generalize text.dropWhile (·≠slash)=tail at hsplit hhead
  subst hsplit
  have hslash : ∀ c∈tail.head?,c=slash := by
    intro c hc
    rw [Option.mem_def.mp hc] at hhead
    simpa using hhead
  have htail : tail=[] ∨ ∃ rest,tail=slash::rest := by
    cases tail with
    | nil => exact Or.inl rfl
    | cons c rest => exact Or.inr ⟨rest,by rw [hslash c rfl]⟩
  have hrest : ∀ c∈tail,c≠0 := fun c hc => hzero c (List.mem_append_right _ hc)
  by_cases hdot : name=[dot]
  · subst hdot
    rcases htail with rfl | ⟨rest,rfl⟩
    · obtain ⟨buf',src',hrun,hl⟩ := normalizePass_dot_end h
      exact ⟨_,hrun,out,src',rfl,hl⟩
    · obtain ⟨src',hrun,hl⟩ := normalizePass_dot_slash h
      obtain ⟨hlen,hdrop⟩ := dropWhile_bounds rest fun c hc => hrest c (List.mem_cons_of_mem _ hc)
      refine ⟨_,hrun,out,_,rfl,hl,?_,hdrop⟩
      simp only [List.cons_append,List.nil_append,List.length_cons]
      omega
  · by_cases hup : name=[dot,dot]
    · subst hup
      rcases htail with rfl | ⟨rest,rfl⟩
      · obtain ⟨hrun,hl⟩ := normalizePass_up_end h
        rw [hrun]
        exact advances_upOne hl Nat.zero_lt_two fun c hc => absurd hc List.not_mem_nil
      · obtain ⟨src',hrun,hl⟩ := normalizePass_up_slash h
        obtain ⟨hlen,hdrop⟩ := dropWhile_bounds rest fun c hc => hrest c (List.mem_cons_of_mem _ hc)
        rw [hrun]
        refine advances_upOne hl ?_ hdrop
        simp only [List.cons_append,List.nil_append,List.length_cons]
        omega
    · rw [normalizePass_name name tail hname ⟨hdot,hup⟩ hslash h]
      exact advances_copyUp hname htail hrest h

/-- What follows the loop succeeds and leaves a terminator. -/
theorem settle_some (h : Layout buf out src []) :
    ∃ buf',settle buf out.length=some buf' ∧ Terminated buf' := by
  have hlen := h.length_lt
  have hbehind := h.behind
  have hlt : out.length < buf.length := by omega
  rw [settle]
  split
  · rename_i hout
    rw [hout] at hlt
    exact ⟨buf.set 0 0,by rw [store,if_pos hlt],List.mem_set hlt 0⟩
  · rename_i hout
    have hget : (buf.set out.length 0)[out.length-1]?=some buf[out.length-1] := by
      rw [List.getElem?_set_ne (by omega)]
      exact List.getElem?_eq_getElem _
    rw [finish,store,if_pos hlt]
    simp only [Option.bind_eq_bind,Option.bind_some,if_neg hout,hget]
    split_ifs
    · refine ⟨_,by rw [store,List.length_set,if_pos (by omega)],List.mem_set ?_ 0⟩
      rw [List.length_set]
      omega
    · exact ⟨_,rfl,List.mem_set hlt 0⟩
    · exact ⟨_,rfl,List.mem_set hlt 0⟩

/-- The loop ends with a terminated buffer. -/
theorem settleLoop_some (fuel : ℕ) (h : Layout buf out src text) (hzero : ∀ c∈text,c≠0)
    (hfuel : text.length < fuel) :
    ∃ buf' found,settleLoop fuel buf out.length src=some (buf',found) ∧ Terminated buf' := by
  induction fuel generalizing buf out src text with
  | zero => exact absurd hfuel (Nat.not_lt_zero _)
  | succ fuel ih =>
    obtain ⟨pass,hpass,hadvances⟩ := advances_normalizePass h hzero
    rw [settleLoop,hpass]
    cases pass with
    | more buf' dst' src' =>
      obtain ⟨out',text',rfl,hl,hless,hzero'⟩ := hadvances
      exact ih hl hzero' (by omega)
    | null buf' => exact ⟨buf',false,rfl,hadvances⟩
    | done buf' dst' =>
      obtain ⟨out',src',rfl,hl⟩ := hadvances
      obtain ⟨buf'',hsettle,hterm⟩ := settle_some hl
      refine ⟨buf'',true,?_,hterm⟩
      simp only [Option.bind_eq_bind,Option.bind_some,hsettle]

/-- Normalisation of a string in a buffer leaves a string in that buffer. -/
theorem normalizeInPlace_some (h : Terminated buf) :
    ∃ buf' found,normalizeInPlace buf=some (buf',found) ∧ Terminated buf' ∧
      buf'.length=buf.length := by
  have hlt := cString_lt h
  obtain ⟨buf',found,hrun,hterm⟩ := settleLoop_some (buf.length+1) (layout_cString hlt)
    (cString_ne_zero buf) (by omega)
  exact ⟨buf',found,hrun,hterm,length_settleLoop hrun⟩

/-- A string written inside a buffer leaves a terminator. -/
theorem writeString_some {at_ : ℕ} {text : List Byte} (h : at_+text.length < buf.length) :
    ∃ buf',writeString buf at_ text=some buf' ∧ Terminated buf' ∧ buf'.length=buf.length := by
  refine ⟨_,if_pos h,by simp [Terminated],?_⟩
  simp only [List.length_append,List.length_cons,List.length_take,List.length_drop]
  omega

/-- Joining writes past the end exactly if a relative path meets a directory
that fills its buffer. -/
theorem joinBuf_cases (h : Terminated buf) (path : List Byte) :
    if path.head?≠some slash ∧ (cString buf).length+1=buf.length then joinBuf buf path=none
    else ∃ joined,joinBuf buf path=some joined ∧ Terminated joined ∧
      joined.length=buf.length := by
  have hlt := cString_lt h
  rw [joinBuf]
  by_cases habs : path.head?=some slash
  · rw [if_neg (fun hfull => hfull.1 habs),if_pos habs]
    apply writeString_some
    rw [List.length_take]
    omega
  · rw [if_neg habs]
    split_ifs with hfull
    · rw [strcat,writeString,if_neg]
      · rfl
      · rw [List.length_singleton]
        omega
    · have hroom : (cString buf).length+1 < buf.length := by
        have hne : ¬(cString buf).length+1=buf.length := fun hlen => hfull ⟨habs,hlen⟩
        omega
      obtain ⟨buf1,hwrite,hstring,hlen⟩ := writeString_eq [slash] (take_cString buf)
        (by simpa [or_imp,forall_and] using cString_ne_zero buf)
        (by rw [List.length_append,List.length_singleton]; exact hroom)
      have hrest : (cString buf1).length+
          (path.take (buf1.length-(cString buf1).length-1)).length < buf1.length := by
        rw [List.length_take,hstring,List.length_append,List.length_singleton,hlen]
        omega
      obtain ⟨joined,hjoined,hterm,hsize⟩ := writeString_some hrest
      refine ⟨joined,?_,hterm,hsize.trans hlen⟩
      simp only [strcat,hwrite,Option.bind_eq_bind,Option.bind_some,hjoined]

end Bounds

end ZephyrApp.FtpBuffers

import ZephyrApp.FtpNeeds

/-!
# Where a path leads when it is built in place

A path that is joined and normalised in the buffer of a directory leaves the
path of the place it leads to, also one level above the root, where nothing or
a path without its slash is left. Two levels above it the normalisation fails,
and the two dots at which it failed stand in the buffer as a name. The path of a
place never holds them. `CWD` and `CDUP` do this in the session's own buffer.
-/

namespace ZephyrApp.FtpTarget

open MachineBytes PathResolution FtpPath FtpBuffers FtpCommands FtpNeeds

section Normalised

variable {buf : List Byte} {dst src fuel : ℕ} {r : List Byte×Bool}

/-- Where the names of a text are read from: the root behind its slash, or
nothing. -/
def startPlace (text : List Byte) : Place := ⟨decide (text.head?=some slash),[]⟩

/-- Where a text leads, one level above the root included. -/
def leadsTo (text : List Byte) : Option Place := walk (startPlace text) (components slash text)

/-- Normalisation in place agrees with a place: it fails where there is none,
and leaves its path otherwise. -/
def Settles (r : Option (List Byte×Bool)) : Option Place → Prop
  | none => ∃ buf,r=some (buf,false)
  | some p => ∃ buf,r=some (buf,true) ∧ cString buf=p.path

/-- A loop that ends in memory ends alike inside the buffer, or leaves the
empty string. -/
theorem normalizeLoop_of_settleLoop (h : settleLoop fuel buf dst src=some r) :
    normalizeLoop fuel buf dst src=some r ∨ r.2=true ∧ cString r.1=[] := by
  induction fuel generalizing buf dst src with
  | zero => cases h
  | succ fuel ih =>
    rw [settleLoop] at h
    rw [normalizeLoop]
    obtain ⟨pass,hpass,h⟩ := Option.bind_eq_some_iff.mp h
    rw [hpass]
    cases pass with
    | more buf' dst' src' => exact ih h
    | null buf' => exact Or.inl h
    | done buf' dst' =>
      obtain ⟨out,hsettle,hr⟩ := Option.bind_eq_some_iff.mp h
      obtain rfl := Option.some.inj hr
      rw [settle] at hsettle
      split at hsettle
      · -- nothing is written, so that the terminator is the first byte
        rw [store] at hsettle
        split at hsettle
        · rename_i hlt
          rw [←Option.some.inj hsettle]
          exact Or.inr ⟨rfl,cString_set (fun c hc => absurd hc List.not_mem_nil) rfl hlt⟩
        · cases hsettle
      · left
        change (finish buf' dst').bind (fun buf => some (buf,true))=_
        rw [hsettle]
        rfl

/-- The loop in memory ends where the loop inside the buffer does. -/
theorem settles_of_ends {p : Option Place} (hsettle : settleLoop fuel buf dst src=some r)
    (hends : FtpPath.Ends (normalizeLoop fuel buf dst src) p) : Settles (some r) p := by
  have hsame := normalizeLoop_of_settleLoop hsettle
  cases p with
  | none =>
    obtain ⟨out,hrun⟩ := hends
    rw [←hsettle,settleLoop_of_normalizeLoop hrun]
    exact ⟨out,rfl⟩
  | some p =>
    rw [FtpPath.Ends] at hends
    split at hends
    · rename_i hpath
      rw [hends] at hsame
      obtain ⟨hfound,hempty⟩ := hsame.resolve_left (Option.some_ne_none _ ·.symm)
      exact ⟨r.1,by rw [←hfound],hempty.trans hpath.symm⟩
    · obtain ⟨out,hrun,hout⟩ := hends
      rw [←hsettle,settleLoop_of_normalizeLoop hrun]
      exact ⟨out,rfl,hout⟩

/-- The loop inside the buffer follows the names of every string. -/
theorem ftpNormalizePath_leadsTo (hlt : (cString buf).length < buf.length) :
    FtpPath.Ends (ftpNormalizePath buf) (leadsTo (cString buf)) := by
  rw [leadsTo,startPlace]
  by_cases hhead : (cString buf).head?=some slash
  · obtain ⟨rest,hrest⟩ := List.head?_eq_some_iff.mp hhead
    rw [decide_eq_true hhead]
    exact ftpNormalizePath_ends hrest hlt
  · rw [decide_eq_false hhead]
    exact normalizeLoop_ends (buf.length+1) (p := ⟨false,[]⟩)
      (fun n hn => absurd hn List.not_mem_nil) (layout_cString hlt) (by omega) hhead
      (cString_ne_zero buf)

/-- Every string in its buffer is normalised in place along its names. -/
theorem normalizeInPlace_leadsTo (h : Terminated buf) :
    Settles (normalizeInPlace buf) (leadsTo (cString buf)) := by
  obtain ⟨out,found,hrun,-,-⟩ := normalizeInPlace_some h
  rw [hrun]
  exact settles_of_ends hrun (ftpNormalizePath_leadsTo (cString_lt h))

end Normalised

section AboveRoot

variable {buf buf' : List Byte} {dst src dst' src' fuel : ℕ}

/-- No terminator stands below an index. -/
def Filled (buf : List Byte) (n : ℕ) : Prop := ∀ i < n,∃ c,buf[i]?=some c ∧ c≠0

/-- What is read from an index on begins a name: everything below is text, and
it is empty or ends in a slash. -/
structure AtName (buf : List Byte) (src : ℕ) : Prop where
  /-- The text below. -/
  filled : Filled buf src
  /-- Its end. -/
  behind : src=0 ∨ buf[src-1]?=some slash

/-- A byte that is no terminator extends what is filled. -/
theorem Filled.succ {c : Byte} (h : Filled buf src) (hget : buf[src]?=some c) (hc : c≠0) :
    Filled buf (src+1) := by
  intro i hi
  rcases Nat.lt_succ_iff_lt_or_eq.mp hi with hlt | rfl
  · exact h i hlt
  · exact ⟨c,hget,hc⟩

/-- Storing such a byte keeps what is filled. -/
theorem Filled.set {c : Byte} (h : Filled buf src) (hc : c≠0) (k : ℕ) :
    Filled (buf.set k c) src := by
  intro i hi
  obtain ⟨d,hget,hd⟩ := h i hi
  by_cases hk : k=i
  · subst hk
    exact ⟨c,List.getElem?_set_self (List.getElem?_eq_some_iff.mp hget).1,hc⟩
  · exact ⟨d,by rw [List.getElem?_set_ne hk,hget],hd⟩

/-- Skipping slashes from a name's end leads to the next name. -/
theorem AtName.skip (h : AtName buf src) (hskip : skipSlashes buf fuel src=some src') :
    AtName buf src' ∧ src ≤ src' := by
  induction fuel generalizing src with
  | zero => cases hskip
  | succ fuel ih =>
    rw [skipSlashes] at hskip
    obtain ⟨c,hget,hskip⟩ := Option.bind_eq_some_iff.mp hskip
    split at hskip
    · rename_i hc
      subst hc
      obtain ⟨hat,hle⟩ := ih ⟨h.filled.succ hget slash_ne_zero,Or.inr hget⟩ hskip
      exact ⟨hat,by omega⟩
    · obtain rfl := Option.some.inj hskip
      exact ⟨h,le_rfl⟩

/-- Copying a name down keeps the text below the byte that ends it. -/
theorem Filled.copyName {c : Byte} (h : Filled buf src) (hle : dst ≤ src)
    (hcopy : FtpPath.copyName fuel buf dst src=some (buf',dst',src',c)) :
    Filled buf' (src'-1) ∧ buf'[src'-1]?=some c ∧ dst' ≤ src'-1 ∧ 0 < src' := by
  induction fuel generalizing buf dst src with
  | zero => cases hcopy
  | succ fuel ih =>
    rw [FtpPath.copyName] at hcopy
    obtain ⟨b,hget,hcopy⟩ := Option.bind_eq_some_iff.mp hcopy
    split at hcopy
    · rename_i hb
      obtain ⟨buf1,hstore,hcopy⟩ := Option.bind_eq_some_iff.mp hcopy
      rw [store] at hstore
      split at hstore
      · rw [←Option.some.inj hstore] at hcopy
        exact ih ((h.succ hget hb.1).set hb.1 dst) (by omega) hcopy
      · cases hstore
    · obtain ⟨rfl,rfl,rfl,rfl⟩ : buf=buf' ∧ dst=dst' ∧ src+1=src' ∧ b=c := by
        simpa using hcopy
      exact ⟨h,hget,hle,Nat.succ_pos _⟩

/-- Copying up to a slash leads to the next name. -/
theorem AtName.copyUp (h : AtName buf src) (hle : dst ≤ src)
    (hcopy : FtpPath.copyUp buf dst src=some (.more buf' dst' src')) :
    AtName buf' src' ∧ dst' ≤ src' := by
  rw [FtpPath.copyUp] at hcopy
  obtain ⟨⟨buf1,dst1,src1,c⟩,hname,hcopy⟩ := Option.bind_eq_some_iff.mp hcopy
  obtain ⟨hfilled,hget,hle1,hpos⟩ := h.filled.copyName hle hname
  dsimp only at hcopy
  split at hcopy
  · rename_i hc
    subst hc
    obtain ⟨buf2,hstore,hcopy⟩ := Option.bind_eq_some_iff.mp hcopy
    obtain ⟨src2,hskip,hcopy⟩ := Option.bind_eq_some_iff.mp hcopy
    obtain ⟨rfl,rfl,rfl⟩ : buf2=buf' ∧ dst1+1=dst' ∧ src2=src' := by simpa using hcopy
    rw [store] at hstore
    split at hstore
    · rename_i hlt
      obtain rfl := Option.some.inj hstore
      have hsrc : src1-1+1=src1 := by omega
      have hbelow := (hfilled.succ hget slash_ne_zero).set slash_ne_zero dst1
      have hlast : (buf1.set dst1 slash)[src1-1]?=some slash := by
        by_cases heq : dst1=src1-1
        · rw [heq]
          exact List.getElem?_set_self (List.getElem?_eq_some_iff.mp hget).1
        · rw [List.getElem?_set_ne heq,hget]
      rw [hsrc] at hbelow
      obtain ⟨hat,hle2⟩ := AtName.skip ⟨hbelow,Or.inr hlast⟩ hskip
      exact ⟨hat,by omega⟩
    · cases hstore
  · cases hcopy

/-- A name starts here, or the text ends. -/
def AtNext (buf : List Byte) (src : ℕ) : Prop := AtName buf src ∨ buf[src]?=some 0

/-- The string of a buffer holds two dots as a name. -/
def HoldsUp (buf : List Byte) : Prop :=
  ∃ src,AtName buf src ∧ buf[src]?=some dot ∧ buf[src+1]?=some dot ∧
    (buf[src+2]?=some 0 ∨ buf[src+2]?=some slash)

/-- Where the loop stands after a pass. -/
def Stands : Pass → Prop
  | .more buf dst src => AtNext buf src ∧ dst ≤ src
  | .done _ _ => True
  | .null buf => HoldsUp buf

/-- Stepping back leads to an earlier index. -/
theorem backUp_le {n d : ℕ} (h : backUp buf n=some d) : d≤n := by
  induction n with
  | zero => exact (Option.some.inj h).symm.le
  | succ n ih =>
    rw [backUp] at h
    obtain ⟨c,-,h⟩ := Option.bind_eq_some_iff.mp h
    split at h
    · exact (ih h).trans (Nat.le_succ n)
    · exact (Option.some.inj h).symm.le

/-- At a terminator there is nothing to copy. -/
theorem copyUp_terminator {pass : Pass} (hget : buf[src]?=some 0)
    (h : copyUp buf dst src=some pass) : Stands pass := by
  rw [copyUp] at h
  obtain ⟨⟨buf1,dst1,src1,c⟩,hname,h⟩ := Option.bind_eq_some_iff.mp h
  have hc : c=0 := by
    cases hfuel : buf.length-src with
    | zero =>
      rw [hfuel] at hname
      cases hname
    | succ fuel =>
      rw [hfuel,copyName,hget] at hname
      obtain ⟨-,-,-,hc⟩ : buf=buf1 ∧ dst=dst1 ∧ src+1=src1 ∧ 0=c := by simpa using hname
      exact hc.symm
  subst hc
  obtain rfl : Pass.done buf1 dst1=pass := by simpa [slash] using h
  trivial

/-- Copying a name leads to the next one. -/
theorem AtName.stands_copyUp {pass : Pass} (h : AtName buf src) (hle : dst ≤ src)
    (hcopy : FtpPath.copyUp buf dst src=some pass) : Stands pass := by
  cases pass with
  | more buf' dst' src' =>
    obtain ⟨hat,hle'⟩ := h.copyUp hle hcopy
    exact ⟨Or.inl hat,hle'⟩
  | done buf' dst' => trivial
  | null buf' =>
    rw [FtpPath.copyUp] at hcopy
    obtain ⟨⟨buf1,dst1,src1,c⟩,-,hcopy⟩ := Option.bind_eq_some_iff.mp hcopy
    dsimp only at hcopy
    split at hcopy
    · obtain ⟨buf2,-,hcopy⟩ := Option.bind_eq_some_iff.mp hcopy
      obtain ⟨src2,-,hcopy⟩ := Option.bind_eq_some_iff.mp hcopy
      cases hcopy
    · cases hcopy

/-- Going up fails with the two dots in the buffer, or leads to the next name. -/
theorem stands_upOne {pass : Pass} (hup : HoldsUp buf) (hnext : AtNext buf src)
    (hle : dst ≤ src) (h : upOne buf dst src=some pass) : Stands pass := by
  rw [upOne] at h
  split at h
  · obtain rfl := Option.some.inj h
    exact hup
  · obtain ⟨d,hback,h⟩ := Option.bind_eq_some_iff.mp h
    obtain rfl := Option.some.inj h
    have hd := backUp_le hback
    exact ⟨hnext,by omega⟩

/-- Every pass leads from a name to the next one, or fails at two dots. -/
theorem AtNext.pass {pass : Pass} (h : AtNext buf src) (hle : dst ≤ src)
    (hpass : normalizePass buf dst src=some pass) : Stands pass := by
  rw [normalizePass] at hpass
  obtain ⟨c,hget,hpass⟩ := Option.bind_eq_some_iff.mp hpass
  rcases h with h | hend
  · split at hpass
    · rename_i hc
      subst hc
      have hone := h.filled.succ hget dot_ne_zero
      obtain ⟨c1,hget1,hpass⟩ := Option.bind_eq_some_iff.mp hpass
      split_ifs at hpass with hzero hslash hdot
      · subst hzero
        exact copyUp_terminator hget1 hpass
      · subst hslash
        obtain ⟨src2,hskip,hpass⟩ := Option.bind_eq_some_iff.mp hpass
        obtain rfl := Option.some.inj hpass
        obtain ⟨hat,hle2⟩ := AtName.skip ⟨hone.succ hget1 slash_ne_zero,Or.inr hget1⟩ hskip
        exact ⟨Or.inl hat,by omega⟩
      · subst hdot
        have htwo := hone.succ hget1 dot_ne_zero
        obtain ⟨c2,hget2,hpass⟩ := Option.bind_eq_some_iff.mp hpass
        split_ifs at hpass with hzero2 hslash2
        · subst hzero2
          exact stands_upOne ⟨src,h,hget,hget1,Or.inl hget2⟩ (Or.inr hget2) (by omega) hpass
        · subst hslash2
          obtain ⟨src3,hskip,hpass⟩ := Option.bind_eq_some_iff.mp hpass
          obtain ⟨hat,hle3⟩ := AtName.skip ⟨htwo.succ hget2 slash_ne_zero,Or.inr hget2⟩ hskip
          exact stands_upOne ⟨src,h,hget,hget1,Or.inr hget2⟩ (Or.inl hat) (by omega) hpass
        · exact h.stands_copyUp hle hpass
      · exact h.stands_copyUp hle hpass
    · exact h.stands_copyUp hle hpass
  · obtain rfl : 0=c := Option.some.inj (hend.symm.trans hget)
    rw [if_neg (show (0 : Byte)≠dot by decide)] at hpass
    exact copyUp_terminator hget hpass

/-- A normalisation that fails leaves two dots as a name. -/
theorem holdsUp_of_null (h : AtNext buf src) (hle : dst ≤ src)
    (hloop : settleLoop fuel buf dst src=some (buf',false)) : HoldsUp buf' := by
  induction fuel generalizing buf dst src with
  | zero => cases hloop
  | succ fuel ih =>
    rw [settleLoop] at hloop
    obtain ⟨pass,hpass,hloop⟩ := Option.bind_eq_some_iff.mp hloop
    have hstands := h.pass hle hpass
    cases pass with
    | more buf1 dst1 src1 => exact ih hstands.1 hstands.2 hloop
    | null buf1 =>
      obtain ⟨rfl,-⟩ := Prod.mk.inj (Option.some.inj hloop)
      exact hstands
    | done buf1 dst1 =>
      obtain ⟨out,-,hr⟩ := Option.bind_eq_some_iff.mp hloop
      cases hr

/-- Text that is filled starts the string. -/
theorem Filled.cString {n : ℕ} (h : Filled buf n) :
    FtpPath.cString buf=buf.take n++FtpPath.cString (buf.drop n) := by
  have htake : ∀ c∈buf.take n,decide (c≠0)=true := by
    intro c hc
    obtain ⟨i,hi,rfl⟩ := List.mem_iff_getElem.mp hc
    have hlt := List.length_take_le n buf
    obtain ⟨d,hget,hd⟩ := h i (by omega)
    rw [List.getElem_take]
    exact decide_eq_true ((List.getElem?_eq_some_iff.mp hget).2▸hd)
  conv_lhs => rw [FtpPath.cString,←List.take_append_drop n buf,
    List.takeWhile_append_of_pos htake]
  rfl

/-- Two dots that start a text, up to its end or a slash, are its first name. -/
theorem up_mem_components {junk : List Byte} {c : Byte} (hc : c=0 ∨ c=slash) :
    [dot,dot]∈components slash (FtpPath.cString (dot::dot::c::junk)) := by
  have hslash : slash∉[dot,dot] := by decide
  rcases hc with rfl | rfl
  · have hstring : FtpPath.cString (dot::dot::0::junk)=[dot,dot] := by simp [FtpPath.cString]
    rw [hstring,components_of_notMem hslash]
    decide
  · have hstring : FtpPath.cString (dot::dot::slash::junk)=
        [dot,dot]++slash::FtpPath.cString junk := by
      simp [FtpPath.cString]
    rw [hstring,components_append_cons,components_of_notMem hslash]
    exact List.mem_append_left _ (by decide)

/-- Two dots as a name in the buffer are a name of its string. -/
theorem HoldsUp.mem_components (h : HoldsUp buf) :
    [dot,dot]∈components slash (FtpPath.cString buf) := by
  obtain ⟨src,hat,hget,hget1,hget2⟩ := h
  obtain ⟨c,hc,hgetc⟩ : ∃ c,(c=0 ∨ c=slash) ∧ buf[src+2]?=some c :=
    hget2.elim (fun h => ⟨0,Or.inl rfl,h⟩) (fun h => ⟨slash,Or.inr rfl,h⟩)
  obtain ⟨hlt,hzero⟩ := List.getElem?_eq_some_iff.mp hget
  obtain ⟨hlt1,hone⟩ := List.getElem?_eq_some_iff.mp hget1
  obtain ⟨hlt2,htwo⟩ := List.getElem?_eq_some_iff.mp hgetc
  have hdrop : buf.drop src=dot::dot::c::buf.drop (src+3) := by
    rw [List.drop_eq_getElem_cons hlt,List.drop_eq_getElem_cons hlt1,
      List.drop_eq_getElem_cons hlt2,hzero,hone,htwo]
  have hname := @up_mem_components (buf.drop (src+3)) c hc
  rw [hat.filled.cString,hdrop]
  cases src with
  | zero => exact hname
  | succ n =>
    have hslash : buf[n]?=some slash := hat.behind.resolve_left (Nat.succ_ne_zero n)
    rw [List.take_add_one,hslash,Option.toList_some,List.append_assoc,List.singleton_append,
      components_append_cons]
    exact List.mem_append_right _ hname

end AboveRoot

section Target

variable {buf dir path : List Byte}

/-- The text that a directory and a path are joined to, as far as it fits the
buffer. -/
def joinedText (dir path : List Byte) : List Byte := (joinPath dir path).take 255

/-- The path that a path from a directory leads to, none if there is no room for
the slash between them, or if it leads two levels above the root. -/
def target (dir path : List Byte) : Option (List Byte) :=
  if path.head?≠some slash ∧ dir.length=255 then none
  else (leadsTo (joinedText dir path)).map Place.path

/-- Joining puts the joined text in the buffer. -/
theorem joinBuf_string (hterm : Terminated buf) (hlen : buf.length=256) (hpath : ∀ c∈path,c≠0)
    (hroom : ¬(path.head?≠some slash ∧ (cString buf).length=255)) :
    ∃ joined,joinBuf buf path=some joined ∧ cString joined=joinedText (cString buf) path ∧
      joined.length=256 := by
  have hlt := cString_lt hterm
  have hcut : ∀ n,∀ c∈path.take n,c≠0 := fun n c hc => hpath c (List.mem_of_mem_take hc)
  rw [joinBuf,joinedText,joinPath,hlen]
  by_cases habs : path.head?=some slash
  · have hnil : buf.take ([] : List Byte).length=[] := rfl
    obtain ⟨joined,hwrite,hstring,hsize⟩ := writeString_eq (path.take 255) hnil (hcut 255)
      (by rw [List.nil_append,List.length_take,hlen]; omega)
    rw [if_pos habs,if_pos habs]
    exact ⟨joined,hwrite,hstring,hsize.trans hlen⟩
  · have hshort : (cString buf).length ≤ 254 := by
      have hne : (cString buf).length≠255 := fun h => hroom ⟨habs,h⟩
      omega
    obtain ⟨buf1,hwrite1,hstring1,hlen1⟩ := writeString_eq [slash] (take_cString buf)
      (by simpa [or_imp,forall_and] using cString_ne_zero buf)
      (by rw [List.length_append,List.length_singleton]; omega)
    rw [hlen] at hlen1
    have hzero1 := cString_ne_zero buf1
    have hwhole : (cString buf1).length=(cString buf).length+1 := by
      rw [hstring1,List.length_append,List.length_singleton]
    have hrest : buf1.length-(cString buf1).length-1=254-(cString buf).length := by omega
    obtain ⟨joined,hwrite,hstring,hsize⟩ := writeString_eq
      (path.take (254-(cString buf).length)) (take_cString buf1)
      (fun c hc => (List.mem_append.mp hc).elim (hzero1 c) (hcut _ c))
      (by rw [List.length_append,List.length_take]; omega)
    refine ⟨joined,?_,?_,hsize.trans hlen1⟩
    · simp only [if_neg habs,strcat,hwrite1,Option.bind_eq_bind,Option.bind_some,hrest,hwrite]
    · have htake : (cString buf).take 255=cString buf := List.take_of_length_le (by omega)
      have hleft : 255-(cString buf).length=254-(cString buf).length+1 := by omega
      rw [if_neg habs,hstring,hstring1,List.take_append,htake,hleft,List.take_succ_cons,
        List.append_assoc,List.singleton_append]

/-- Building a path leaves what it leads to; where it leads nowhere there is a
write past the buffer, or a failure that leaves two dots in it. -/
theorem buildPath_target (hterm : Terminated buf) (hlen : buf.length=256)
    (hpath : ∀ c∈path,c≠0) :
    match target (cString buf) path with
    | some q => ∃ out,buildPath buf path=.ok (out,0) ∧ cString out=q
    | none => buildPath buf path=.error .overrun ∨
        ∃ out,buildPath buf path=.ok (out,-1) ∧ HoldsUp out := by
  rw [target]
  split_ifs with hfull
  · have hbuild := buildPath_cases hterm path
    rw [if_pos ⟨hfull.1,by rw [hfull.2,hlen]⟩] at hbuild
    exact Or.inl hbuild
  · obtain ⟨joined,hjoin,hstring,hsize⟩ := joinBuf_string hterm hlen hpath hfull
    have hjoined : Terminated joined := by
      by_contra hnot
      have hwhole : cString joined=joined := List.takeWhile_eq_self_iff.mpr fun c hc =>
        decide_eq_true fun hzero => hnot (show (0 : Byte)∈joined from hzero▸hc)
      have hle := List.length_take_le 255 (joinPath (cString buf) path)
      rw [←joinedText,←hstring,hwhole,hsize] at hle
      omega
    have hsettles := normalizeInPlace_leadsTo hjoined
    rw [buildPath,hjoin,Option.bind_some,←hstring]
    cases hleads : leadsTo (cString joined) with
    | none =>
      rw [hleads] at hsettles
      obtain ⟨out,hrun⟩ := hsettles
      have hstart : AtNext joined 0 := Or.inl ⟨fun i hi => absurd hi (Nat.not_lt_zero i),Or.inl rfl⟩
      rw [hrun]
      exact Or.inr ⟨out,rfl,holdsUp_of_null hstart le_rfl hrun⟩
    | some p =>
      rw [hleads] at hsettles
      obtain ⟨out,hrun,hout⟩ := hsettles
      rw [hrun]
      exact ⟨out,rfl,hout⟩

end Target

section Names

/-- Two dots are no name of a path. -/
def NoUp (path : List Byte) : Prop := [dot,dot]∉components slash path

instance (path : List Byte) : Decidable (NoUp path) := inferInstanceAs (Decidable (_∉_))

/-- The empty path has no names. -/
theorem noUp_nil : NoUp [] := by
  rw [NoUp,components_nil]
  exact List.not_mem_nil

/-- Two dots are never a name of a place. -/
theorem walk_noUp {p q : Place} {names : List (List Byte)} (h : walk p names=some q)
    (hp : [dot,dot]∉p.names) : [dot,dot]∉q.names := by
  induction names generalizing p with
  | nil => exact Option.some.inj h▸hp
  | cons name names ih =>
    rw [walk,Option.bind_eq_some_iff] at h
    obtain ⟨r,hstep,hrest⟩ := h
    refine ih hrest fun hr => ?_
    rcases Place.mem_step hstep hr with hold | rfl
    · exact hp hold
    · -- two dots are a step up
      rw [Place.step,if_neg (by decide),if_pos rfl] at hstep
      split at hstep
      · rename_i n ns hnames
        obtain rfl := Option.some.inj hstep
        exact hp (hnames▸List.mem_cons_of_mem n hr)
      · split at hstep
        · obtain rfl := Option.some.inj hstep
          exact absurd hr List.not_mem_nil
        · cases hstep

/-- What is written at a place has no names but those of the place. -/
theorem components_text {p : Place} (hp : ∀ n∈p.names,slash∉n) :
    ∀ n∈components slash p.text,n∈p.names := by
  cases p with
  | mk rooted names =>
    induction names with
    | nil => cases rooted <;> simp [Place.text,components_cons]
    | cons name names ih =>
      have hrest := ih fun n hn => hp n (List.mem_cons_of_mem name hn)
      have hname := hp name List.mem_cons_self
      have hlast : components slash ((Place.mk rooted names).text++name)=
          components slash (Place.mk rooted names).text++components slash name := by
        rcases Place.text_last ⟨rooted,names⟩ with hnil | hend
        · rw [hnil,components_nil]
          rfl
        · obtain ⟨init,hinit⟩ := List.getLast?_eq_some_iff.mp hend
          rw [hinit,List.append_assoc,List.singleton_append,components_append_cons,
            components_append_cons,components_nil,List.append_nil]
      intro n hn
      rw [Place.text_push ⟨rooted,names⟩,components_append_cons,components_nil,List.append_nil,
        hlast,components_of_notMem hname] at hn
      rcases List.mem_append.mp hn with hold | hnew
      · exact List.mem_cons_of_mem name (hrest n hold)
      · split at hnew
        · exact absurd hnew List.not_mem_nil
        · exact List.mem_singleton.mp hnew▸List.mem_cons_self

/-- The path of a place has the names that are written at it. -/
theorem components_path (p : Place) : components slash p.path=components slash p.text := by
  rw [Place.path]
  split
  · rfl
  · rename_i hne
    rcases p.text_last with hnil | hend
    · rw [hnil]
      rfl
    · obtain ⟨init,hinit⟩ := List.getLast?_eq_some_iff.mp hend
      rw [hinit,List.dropLast_concat,components_append_cons,components_nil,List.append_nil]

/-- A path leads to one without two dots. -/
theorem noUp_target {dir path q : List Byte} (h : target dir path=some q) : NoUp q := by
  rw [target] at h
  split at h
  · cases h
  · obtain ⟨p,hp,rfl⟩ := Option.map_eq_some_iff.mp h
    have hslash : ∀ n∈p.names,slash∉n := fun n hn =>
      (mem_of_walk hp hn).elim (fun hnone => absurd hnone List.not_mem_nil)
        fun hname => (of_mem_components hname).1
    rw [NoUp,components_path]
    exact fun hdots => walk_noUp hp List.not_mem_nil (components_text hslash _ hdots)

end Names

section Commands

/-- The command of a logged-in session changes the directory. -/
def Changes (c : Call) : Prop :=
  c.session.state=.ok ∧ (findFn c.cmd=some .cwd ∨ findFn c.cmd=some .cdup)

instance (c : Call) : Decidable (Changes c) :=
  inferInstanceAs (Decidable (c.session.state=.ok ∧ (_ ∨ _)))

/-- The path that the command changes to: `..` for `CDUP`, else its parameter. -/
def pathOf (c : Call) : Option (List Byte) :=
  if findFn c.cmd=some .cdup then some [dot,dot] else c.text

/-- The change of directory to that path. -/
def changePath (c : Call) : Except Fault Report :=
  match pathOf c with
  | none => .error .param
  | some path => changeDir c path

/-- The answer 250 is sent. -/
def Answers250 (r : Report) : Prop :=
  ∃ m∈r.replies,m.head?=some (.text "250 Changed to directory \"")

instance (r : Report) : Decidable (Answers250 r) :=
  inferInstanceAs (Decidable (∃ m∈r.replies,_=_))

variable {c : Call} {path : List Byte}

/-- A parameter holds no terminator. -/
theorem pathOf_ne_zero (h : path∈pathOf c) : ∀ c∈path,c≠0 := by
  rw [pathOf] at h
  split at h
  · obtain rfl := Option.some.inj h
    decide
  · obtain ⟨k,-,rfl⟩ := Option.map_eq_some_iff.mp h
    exact cString_ne_zero _

/-- A command that changes the directory is a change to its path. -/
theorem processCall_changes (root : MountPoint) (h : Changes c) :
    processCall root c=(changePath c).map fun r => {r with ret := 0} := by
  obtain ⟨hstate,hfn⟩ := h
  rw [processCall,hstate]
  dsimp only
  rw [ftpSessionCmdProcess,changePath,pathOf]
  rcases hfn with hfn | hfn
  · rw [hfn,if_neg (by decide)]
    change (c.read >>= changeDir c).map _=_
    rw [Call.read]
    cases c.text <;> rfl
  · rw [hfn,if_pos rfl]
    rfl

/-- A path that leads somewhere becomes the directory, and 250 is answered if it
opens. -/
theorem changeDir_some {q : List Byte} (hc : Bounded c.session) (hpath : ∀ c∈path,c≠0)
    (hq : target (cString c.session.currentdir) path=some q) :
    ∃ r out,changeDir c path=.ok r ∧ r.session={c.session with currentdir := out} ∧
      cString out=q ∧
      (Answers250 r ↔ c.outcomes.dirOpens=true ∧ c.outcomes.bufAlloc=true) := by
  have hbuild := buildPath_target hc.terminated hc.size hpath
  rw [hq] at hbuild
  obtain ⟨out,hrun,hout⟩ := hbuild
  rw [changeDir,hrun]
  change ∃ r out',answer c {c.session with currentdir := out} _=.ok r ∧ _
  rw [answer]
  cases halloc : c.outcomes.bufAlloc with
  | false => exact ⟨_,out,rfl,rfl,hout,by simp [Answers250]⟩
  | true =>
    refine ⟨_,out,rfl,rfl,hout,?_⟩
    cases hopens : c.outcomes.dirOpens with
    | false => simp [Answers250,cantOpen]
    | true => simp [Answers250]

/-- A path that leads nowhere is not answered with 250, and does not leave a
directory without two dots. -/
theorem changeDir_none (hc : Bounded c.session) (hpath : ∀ c∈path,c≠0)
    (hnone : target (cString c.session.currentdir) path=none) :
    changeDir c path=.error .overrun ∨ ∃ r,changeDir c path=.ok r ∧ ¬Answers250 r ∧
      ¬NoUp (cString r.session.currentdir) := by
  have hbuild := buildPath_target hc.terminated hc.size hpath
  rw [hnone] at hbuild
  rw [changeDir]
  rcases hbuild with hover | ⟨out,hrun,hup⟩
  · rw [hover]
    exact Or.inl rfl
  · rw [hrun]
    exact Or.inr ⟨_,rfl,by simp [Answers250],not_not.mpr hup.mem_components⟩

end Commands

end ZephyrApp.FtpTarget

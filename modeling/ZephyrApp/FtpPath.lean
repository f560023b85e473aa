import ZephyrApp.MachineBytes
import ZephyrApp.PathResolution

/-!
# Paths of the FTP server

A command's path is joined to the current directory in a buffer and then
normalised in place: one index reads, another one behind it writes. Each
access checks that it falls inside the buffer. Two dots at the root step the
writing index back over the leading slash.
-/

namespace ZephyrApp.FtpPath

open MachineBytes PathResolution

/-- `/`. -/
def slash : Byte := 0x2F

/-- `.`. -/
def dot : Byte := 0x2E

/-- A slash does not end a string. -/
@[simp] theorem slash_ne_zero : slash≠0#8 := by decide

/-- A dot does not end a string. -/
@[simp] theorem dot_ne_zero : dot≠0#8 := by decide

/-- A dot is not a slash. -/
@[simp] theorem dot_ne_slash : dot≠slash := by decide

/-- A slash is not a dot. -/
@[simp] theorem slash_ne_dot : slash≠dot := by decide

/-- The characters of the string that starts a buffer. -/
def cString (buf : List Byte) : List Byte := buf.takeWhile (·≠0)

/-- Store one byte, if the index is inside the buffer. -/
def store (buf : List Byte) (i : ℕ) (c : Byte) : Option (List Byte) :=
  if i < buf.length then some (buf.set i c) else none

section Loops

/-- Skip slashes from an index on, at most as many as the buffer has bytes left. -/
def skipSlashes (buf : List Byte) : ℕ → ℕ → Option ℕ
  | 0,_ => none
  | fuel+1,src => do
    let c ← buf[src]?
    if c=slash then skipSlashes buf fuel (src+1) else some src

/-- Copy a name down to the writing index, up to the byte that ends it. The
result is the buffer, both indices past what was copied and read, and that byte. -/
def copyName : ℕ → List Byte → ℕ → ℕ → Option (List Byte×ℕ×ℕ×Byte)
  | 0,_,_,_ => none
  | fuel+1,buf,dst,src => do
    let c ← buf[src]?
    if c≠0 ∧ c≠slash then
      let buf ← store buf dst c
      copyName fuel buf (dst+1) (src+1)
    else some (buf,dst,src+1,c)

/-- Step back to the slash before the writing index, or to the start. -/
def backUp (buf : List Byte) : ℕ → Option ℕ
  | 0 => some 0
  | dst+1 => do
    let c ← buf[dst]?
    if c≠slash then backUp buf dst else some (dst+1)

/-- What one pass of the loop leads to. -/
inductive Pass where
  /-- The next pass, with the buffer, the writing and the reading index. -/
  | more (buf : List Byte) (dst src : ℕ)
  /-- The end of the path is read. -/
  | done (buf : List Byte) (dst : ℕ)
  /-- The path leads above the start of the buffer. -/
  | null (buf : List Byte)

/-- The label `up_one`. -/
def upOne (buf : List Byte) (dst src : ℕ) : Option Pass :=
  if dst=0 then some (.null buf)
  else do
    let dst ← backUp buf (dst-1)
    some (.more buf dst src)

/-- Copy up to the next slash and skip all slashes there. -/
def copyUp (buf : List Byte) (dst src : ℕ) : Option Pass := do
  let (buf,dst,src,c) ← copyName (buf.length-src) buf dst src
  if c=slash then
    let buf ← store buf dst slash
    let src ← skipSlashes buf (buf.length-src) src
    some (.more buf (dst+1) src)
  else some (.done buf dst)

/-- One pass of the loop of `ftp_normalize_path`. -/
def normalizePass (buf : List Byte) (dst src : ℕ) : Option Pass := do
  let c ← buf[src]?
  if c=dot then
    let c1 ← buf[src+1]?
    if c1=0 then copyUp buf dst (src+1)
    else if c1=slash then
      let src ← skipSlashes buf (buf.length-(src+2)) (src+2)
      some (.more buf dst src)
    else if c1=dot then
      let c2 ← buf[src+2]?
      if c2=0 then upOne buf dst (src+2)
      else if c2=slash then
        let src ← skipSlashes buf (buf.length-(src+3)) (src+3)
        upOne buf dst src
      else copyUp buf dst src
    else copyUp buf dst src
  else copyUp buf dst src

/-- What follows the loop: the terminator, and no slash before it unless it is
the first byte. With nothing written the byte before the buffer is read. -/
def finish (buf : List Byte) (dst : ℕ) : Option (List Byte) := do
  let buf ← store buf dst 0
  if dst=0 then none
  else if dst-1≠0 then
    let c ← buf[dst-1]?
    if c=slash then store buf (dst-1) 0 else some buf
  else some buf

/-- The loop of `ftp_normalize_path`. Every pass that does not end it reads
ahead, so that the buffer bounds the number of passes. -/
def normalizeLoop : ℕ → List Byte → ℕ → ℕ → Option (List Byte×Bool)
  | 0,_,_,_ => none
  | fuel+1,buf,dst,src => do
    match ← normalizePass buf dst src with
    | .more buf dst src => normalizeLoop fuel buf dst src
    | .done buf dst => do
      let buf ← finish buf dst
      some (buf,true)
    | .null buf => some (buf,false)

/-- `ftp_normalize_path`: the buffer and whether a path is returned, or nothing
when it touches a byte outside the buffer. -/
def ftpNormalizePath (buf : List Byte) : Option (List Byte×Bool) :=
  normalizeLoop (buf.length+1) buf 0 0

end Loops

/-- Write a string and its terminator at an index. -/
def writeString (buf : List Byte) (at_ : ℕ) (text : List Byte) : Option (List Byte) :=
  if at_+text.length < buf.length then
    some (buf.take at_++text++0::buf.drop (at_+text.length+1))
  else none

/-- `strcat`. -/
def strcat (buf text : List Byte) : Option (List Byte) := writeString buf (cString buf).length text

/-- `build_full_path`: the buffer and the returned code. -/
def buildFullPath (buf path : List Byte) : Option (List Byte×ℤ) := do
  let joined ←
    if path.head?=some slash then writeString buf 0 (path.take (buf.length-1))
    else do
      let buf ← strcat buf [slash]
      strcat buf (path.take (buf.length-(cString buf).length-1))
  let (buf,found) ← ftpNormalizePath joined
  if found then some (buf,0) else some (buf,-1)

section Layout

/-- Where a pass finds things: what was written is at the start of the buffer,
the text still to be read is at the reading index and ends in a zero byte. -/
structure Layout (buf out : List Byte) (src : ℕ) (text : List Byte) : Prop where
  /-- The written bytes. -/
  written : buf.take out.length=out
  /-- Writing stays behind reading. -/
  behind : out.length ≤ src
  /-- The bytes still to be read. -/
  text : ∃ junk,buf.drop src=text++0::junk

variable {buf out text : List Byte} {src fuel : ℕ} {c : Byte}

/-- The text is read byte by byte, the terminator after it. -/
theorem Layout.get (h : Layout buf out src text) {k : ℕ} (hk : k≤text.length) :
    buf[src+k]?=some (text.getD k 0) := by
  obtain ⟨junk,hdrop⟩ := h.text
  rw [←List.getElem?_drop,hdrop]
  rcases Nat.lt_or_eq_of_le hk with hlt | rfl
  · rw [List.getElem?_append_left hlt,List.getD_eq_getElem?_getD,List.getElem?_eq_getElem hlt]
    rfl
  · rw [List.getElem?_append_right le_rfl,Nat.sub_self,List.getD_eq_default _ _ le_rfl]
    rfl

/-- The text and its terminator are inside the buffer. -/
theorem Layout.length_lt (h : Layout buf out src text) : src+text.length < buf.length := by
  obtain ⟨junk,hdrop⟩ := h.text
  have := congrArg List.length hdrop
  simp only [List.length_drop,List.length_append,List.length_cons] at this
  omega

/-- A byte of the text is passed over. -/
theorem Layout.next (h : Layout buf out src (c::text)) : Layout buf out (src+1) text := by
  obtain ⟨junk,hdrop⟩ := h.text
  refine ⟨h.written,Nat.le_succ_of_le h.behind,junk,?_⟩
  rw [←List.drop_drop,hdrop]
  rfl

/-- A byte is written while one of the text is passed over. -/
theorem Layout.set (h : Layout buf out src (c::text)) (b : Byte) :
    Layout (buf.set out.length b) (out++[b]) (src+1) text := by
  have hlt := h.length_lt
  have hbehind := h.behind
  obtain ⟨junk,hdrop⟩ := h.next.text
  constructor
  · rw [List.length_append,List.length_singleton,List.take_add_one,List.take_set_of_le le_rfl,
      h.written,List.getElem?_set_self (by omega)]
    rfl
  · rw [List.length_append,List.length_singleton]
    omega
  · exact ⟨junk,by rw [List.drop_set_of_lt (by omega),hdrop]⟩

/-- Writing may resume at any earlier index. -/
theorem Layout.shrink {more : List Byte} (h : Layout buf (out++more) src text) :
    Layout buf out src text := by
  have hout := h.written
  have hbehind := h.behind
  rw [List.length_append] at hout hbehind
  refine ⟨?_,by omega,h.text⟩
  have := congrArg (List.take out.length) hout
  rwa [List.take_take,Nat.min_eq_left (by omega),List.take_left] at this

end Layout

section Passes

variable {buf out text name tail : List Byte} {src fuel : ℕ}

/-- Slashes in front of the text are skipped. -/
theorem skipSlashes_eq (fuel : ℕ) (h : Layout buf out src text) (hfuel : text.length < fuel) :
    ∃ src',skipSlashes buf fuel src=some src' ∧ Layout buf out src' (text.dropWhile (·=slash)) := by
  induction text generalizing src fuel with
  | nil =>
    obtain ⟨fuel,rfl⟩ := Nat.exists_eq_succ_of_ne_zero (Nat.ne_of_gt hfuel)
    have hget := h.get (k := 0) le_rfl
    refine ⟨src,?_,h⟩
    rw [Nat.add_zero,List.getD_nil] at hget
    simp [skipSlashes,hget,slash]
  | cons c text ih =>
    obtain ⟨fuel,rfl⟩ := Nat.exists_eq_succ_of_ne_zero (Nat.ne_of_gt (Nat.zero_lt_of_lt hfuel))
    have hget := h.get (k := 0) (Nat.zero_le _)
    rw [Nat.add_zero,List.getD_cons_zero] at hget
    by_cases hc : c=slash
    · obtain ⟨src',hrun,hl⟩ := ih fuel h.next (Nat.lt_of_succ_lt_succ hfuel)
      refine ⟨src',?_,by simpa [List.dropWhile_cons,hc] using hl⟩
      simp [skipSlashes,hget,hc,hrun]
    · exact ⟨src,by simp [skipSlashes,hget,hc],by simpa [List.dropWhile_cons,hc] using h⟩

/-- A name is copied up to the byte that ends it. -/
theorem copyName_eq (fuel : ℕ) (hname : ∀ c∈name,c≠0 ∧ c≠slash) (htail : ∀ c∈tail.head?,c=slash)
    (h : Layout buf out src (name++tail)) (hfuel : (name++tail).length < fuel) :
    ∃ buf',copyName fuel buf out.length src=
      some (buf',out.length+name.length,src+name.length+1,tail.getD 0 0) ∧
      Layout buf' (out++name) (src+name.length) tail := by
  induction name generalizing buf out src fuel with
  | nil =>
    obtain ⟨fuel,rfl⟩ := Nat.exists_eq_succ_of_ne_zero (Nat.ne_of_gt (Nat.zero_lt_of_lt hfuel))
    have hget := h.get (k := 0) (Nat.zero_le _)
    have hend : tail.getD 0 0=0 ∨ tail.getD 0 0=slash := by
      cases tail with
      | nil => exact Or.inl rfl
      | cons c tail => exact Or.inr (htail c rfl)
    refine ⟨buf,?_,by simpa using h⟩
    rw [Nat.add_zero,List.nil_append] at hget
    generalize tail.getD 0 0=c at hget hend ⊢
    rcases hend with rfl | rfl <;> simp [copyName,hget]
  | cons c name ih =>
    obtain ⟨fuel,rfl⟩ := Nat.exists_eq_succ_of_ne_zero (Nat.ne_of_gt (Nat.zero_lt_of_lt hfuel))
    have hget := h.get (k := 0) (Nat.zero_le _)
    rw [Nat.add_zero,List.cons_append,List.getD_cons_zero] at hget
    have hc := hname c List.mem_cons_self
    have hlt : out.length < buf.length := by
      have := h.length_lt
      have := h.behind
      omega
    obtain ⟨buf',hrun,hl⟩ := ih fuel (fun d hd => hname d (List.mem_cons_of_mem c hd)) (h.set c)
      (Nat.lt_of_succ_lt_succ hfuel)
    refine ⟨buf',?_,by simpa [Nat.add_assoc,Nat.add_comm,Nat.add_left_comm] using hl⟩
    simp only [copyName,hget,store,hlt,if_true,Option.bind_eq_bind,Option.bind_some,if_pos hc]
    rw [List.length_append,List.length_singleton] at hrun
    rw [hrun,List.length_cons]
    simp only [Nat.add_assoc,Nat.add_comm,Nat.add_left_comm]

/-- The last name is copied and the loop ends. -/
theorem copyUp_done (name : List Byte) (hname : ∀ c∈name,c≠0 ∧ c≠slash)
    (h : Layout buf out src name) :
    ∃ buf' src',copyUp buf out.length src=some (.done buf' (out++name).length) ∧
      Layout buf' (out++name) src' [] := by
  have hlen := h.length_lt
  rw [←List.append_nil name] at h
  obtain ⟨buf',hrun,hl⟩ := copyName_eq (buf.length-src) hname (by simp) h
    (by rw [List.append_nil]; omega)
  refine ⟨buf',src+name.length,?_,hl⟩
  rw [copyUp,hrun,List.length_append]
  simp [slash]

/-- A name before a slash is copied with one slash, and the others are skipped. -/
theorem copyUp_more (name : List Byte) (hname : ∀ c∈name,c≠0 ∧ c≠slash)
    (h : Layout buf out src (name++slash::text)) :
    ∃ buf' src',copyUp buf out.length src=some (.more buf' (out++name++[slash]).length src') ∧
      Layout buf' (out++name++[slash]) src' (text.dropWhile (·=slash)) := by
  have hlen := h.length_lt
  obtain ⟨buf1,hrun,hl⟩ := copyName_eq (buf.length-src) hname (by simp) h (by omega)
  have hset := hl.set slash
  have hlt : (out++name).length < buf1.length := by
    have := hl.length_lt
    have := hl.behind
    omega
  have hlen1 := hset.length_lt
  obtain ⟨src',hskip,hl'⟩ := skipSlashes_eq
    ((buf1.set (out++name).length slash).length-(src+name.length+1)) hset (by omega)
  refine ⟨buf1.set (out++name).length slash,src',?_,hl'⟩
  rw [List.length_append] at hlt
  rw [List.length_append,List.length_set] at hskip
  rw [copyUp,hrun,List.length_append,List.length_append]
  simp [store,hlt,hskip]

/-- A written byte is read back. -/
theorem getElem?_of_take {pre rest : List Byte} {c : Byte}
    (h : buf.take (pre++c::rest).length=pre++c::rest) : buf[pre.length]?=some c := by
  have hget := congrArg (·[pre.length]?) h
  simpa [List.getElem?_take] using hget

/-- Stepping back stops behind the slash before a name, or at the start. -/
theorem backUp_eq {pre : List Byte} (hpre : pre=[] ∨ pre.getLast?=some slash)
    (hname : slash∉name) (h : buf.take (pre++name).length=pre++name) :
    backUp buf (pre++name).length=some pre.length := by
  induction name using List.reverseRecOn with
  | nil =>
    rw [List.append_nil] at h ⊢
    rcases hpre with rfl | hlast
    · rfl
    · obtain ⟨init,rfl⟩ := List.getLast?_eq_some_iff.mp hlast
      have hget : buf[init.length]?=some slash := getElem?_of_take h
      rw [List.length_append,List.length_singleton]
      simp [backUp,hget]
  | append_singleton name c ih =>
    rw [List.mem_append,not_or,List.mem_singleton] at hname
    have hc : c≠slash := Ne.symm hname.2
    rw [←List.append_assoc] at h ⊢
    have hget : buf[(pre++name).length]?=some c := getElem?_of_take h
    have hshort : buf.take (pre++name).length=pre++name := by
      have := congrArg (List.take (pre++name).length) h
      rwa [List.take_take,Nat.min_eq_left (by simp),List.take_left] at this
    rw [List.length_append,List.length_singleton]
    simp only [backUp,hget,Option.bind_eq_bind,Option.bind_some,hc,if_true,ne_eq,
      not_false_eq_true]
    exact ih hname.1 hshort

/-- Going up leaves a directory. -/
theorem upOne_eq (pre name : List Byte) (hpre : pre=[] ∨ pre.getLast?=some slash)
    (hname : slash∉name) (h : Layout buf (pre++name++[slash]) src text) :
    upOne buf (pre++name++[slash]).length src=some (.more buf pre.length src) ∧
      Layout buf pre src text := by
  have hshrink := h.shrink
  have hback := backUp_eq hpre hname hshrink.written
  refine ⟨?_,hshrink.shrink⟩
  rw [upOne,List.length_append,List.length_singleton,Nat.add_sub_cancel,hback]
  simp

/-- Going up with nothing written fails. -/
theorem upOne_nil (buf : List Byte) (src : ℕ) :
    upOne buf ([] : List Byte).length src=some (.null buf) := rfl

/-- A single dot at the end ends the loop with what was written. -/
theorem normalizePass_dot_end (h : Layout buf out src [dot]) :
    ∃ buf' src',normalizePass buf out.length src=some (.done buf' out.length) ∧
      Layout buf' out src' [] := by
  have hget0 := h.get (k := 0) (by simp)
  have hget1 := h.get (k := 1) (by simp)
  obtain ⟨buf',src',hrun,hl⟩ := copyUp_done [] (by simp) h.next
  rw [List.append_nil] at hrun hl
  refine ⟨buf',src',?_,hl⟩
  rw [Nat.add_zero] at hget0
  simpa [normalizePass,hget0,hget1] using hrun

/-- A single dot before a slash is passed over. -/
theorem normalizePass_dot_slash (h : Layout buf out src (dot::slash::text)) :
    ∃ src',normalizePass buf out.length src=some (.more buf out.length src') ∧
      Layout buf out src' (text.dropWhile (·=slash)) := by
  have hget0 := h.get (k := 0) (by simp)
  have hget1 := h.get (k := 1) (by simp)
  have hlen := h.length_lt
  rw [List.length_cons,List.length_cons] at hlen
  obtain ⟨src',hskip,hl⟩ := skipSlashes_eq (buf.length-(src+2)) h.next.next (by omega)
  refine ⟨src',?_,hl⟩
  rw [Nat.add_zero] at hget0
  simp [normalizePass,hget0,hget1,hskip]

/-- Two dots at the end go up. -/
theorem normalizePass_up_end (h : Layout buf out src [dot,dot]) :
    normalizePass buf out.length src=upOne buf out.length (src+2) ∧ Layout buf out (src+2) [] := by
  have hget0 := h.get (k := 0) (by simp)
  have hget1 := h.get (k := 1) (by simp)
  have hget2 := h.get (k := 2) (by simp)
  refine ⟨?_,h.next.next⟩
  rw [Nat.add_zero] at hget0
  simp [normalizePass,hget0,hget1,hget2]

/-- Two dots before a slash go up, and the slashes are skipped. -/
theorem normalizePass_up_slash (h : Layout buf out src (dot::dot::slash::text)) :
    ∃ src',normalizePass buf out.length src=upOne buf out.length src' ∧
      Layout buf out src' (text.dropWhile (·=slash)) := by
  have hget0 := h.get (k := 0) (by simp)
  have hget1 := h.get (k := 1) (by simp)
  have hget2 := h.get (k := 2) (by simp)
  have hlen := h.length_lt
  simp only [List.length_cons] at hlen
  obtain ⟨src',hskip,hl⟩ := skipSlashes_eq (buf.length-(src+3)) h.next.next.next (by omega)
  refine ⟨src',?_,hl⟩
  rw [Nat.add_zero] at hget0
  simp [normalizePass,hget0,hget1,hget2,hskip]

/-- Every other name is copied. -/
theorem normalizePass_name (name tail : List Byte) (hname : ∀ c∈name,c≠0 ∧ c≠slash)
    (hproper : name≠[dot] ∧ name≠[dot,dot])
    (htail : ∀ c∈tail.head?,c=slash) (h : Layout buf out src (name++tail)) :
    normalizePass buf out.length src=copyUp buf out.length src := by
  have hget0 := h.get (k := 0) (Nat.zero_le _)
  rw [Nat.add_zero] at hget0
  by_cases hc0 : (name++tail).getD 0 0=dot
  · -- the first byte is a dot, so the name has a second byte, and a third one if that is a dot
    obtain ⟨c1,rest,hsplit⟩ : ∃ c1 rest,name=dot::c1::rest := by
      match name,hproper.1 with
      | [],_ =>
        cases tail with
        | nil => exact absurd hc0 (by decide)
        | cons c tail =>
          have hc : c=slash := htail c rfl
          exact absurd (hc.symm.trans hc0) slash_ne_dot
      | [c],hne => exact absurd (congrArg (fun c => [c]) hc0) hne
      | c::c1::rest,_ => exact ⟨c1,rest,by rw [show c=dot from hc0]⟩
    subst hsplit
    have hget1 := h.get (k := 1) (by simp)
    have hc1 := hname c1 (by simp)
    by_cases hd : c1=dot
    · obtain ⟨c2,rest2,rfl⟩ : ∃ c2 rest2,rest=c2::rest2 := by
        cases rest with
        | nil => exact absurd (by rw [hd]) hproper.2
        | cons c2 rest2 => exact ⟨c2,rest2,rfl⟩
      have hget2 := h.get (k := 2) (by simp)
      have hc2 := hname c2 (by simp)
      simp only [BitVec.ofNat_eq_ofNat] at hc2
      simp [normalizePass,hget0,hget1,hget2,hd,hc2]
    · simp only [BitVec.ofNat_eq_ofNat] at hc1
      simp [normalizePass,hget0,hget1,hd,hc1]
  · rw [normalizePass,hget0]
    simp only [Option.bind_eq_bind,Option.bind_some,hc0,if_false]

end Passes

section Walk

/-- Where the names read so far have led. -/
structure Place where
  /-- Whether the leading slash still stands. -/
  rooted : Bool
  /-- The names below it, innermost first. -/
  names : List (List Byte)

/-- What is written in the buffer at a place. -/
def Place.text (p : Place) : List Byte :=
  let whole := p.names.reverse.flatMap (slash::·)++[slash]
  if p.rooted then whole else whole.tail

/-- The path that is left when the names end at a place. -/
def Place.path (p : Place) : List Byte :=
  if p.names=[] then p.text else p.text.dropLast

/-- The place after one more name. Two dots at the root take the leading slash
away, and two dots once more fail. -/
def Place.step (p : Place) (name : List Byte) : Option Place :=
  if name=[dot] then some p
  else if name=[dot,dot] then
    match p.names with
    | _::names => some {p with names := names}
    | [] => if p.rooted then some ⟨false,[]⟩ else none
  else some {p with names := name::p.names}

/-- The place after some names. -/
def walk : Place → List (List Byte) → Option Place
  | p,[] => some p
  | p,name::names => (p.step name).bind (walk · names)

/-- A dot leads nowhere else. -/
@[simp] theorem Place.step_dot (p : Place) : p.step [dot]=some p := if_pos rfl

/-- A name that is neither of the dots leads one level down. -/
theorem Place.step_name (p : Place) {name : List Byte} (hdot : name≠[dot])
    (hup : name≠[dot,dot]) : p.step name=some ⟨p.rooted,name::p.names⟩ := by
  rw [Place.step,if_neg hdot,if_neg hup]

/-- One more name is written with a slash behind it. -/
theorem Place.text_push (p : Place) (name : List Byte) :
    (Place.mk p.rooted (name::p.names)).text=p.text++name++[slash] := by
  cases p with
  | mk rooted names =>
    cases rooted with
    | true => simp [Place.text]
    | false => simp [Place.text,←List.tail_append_of_ne_nil]

/-- What is written is empty or ends in a slash. -/
theorem Place.text_last (p : Place) : p.text=[] ∨ p.text.getLast?=some slash := by
  cases p with
  | mk rooted names =>
    cases names with
    | nil => cases rooted <;> simp [Place.text]
    | cons name names =>
      rw [Place.text_push ⟨rooted,names⟩]
      simp

/-- A running outcome of the loop agrees with a place: the loop fails where
there is none, touches a byte outside the buffer where nothing is left of the
path, and returns the path otherwise. -/
def Ends (r : Option (List Byte×Bool)) : Option Place → Prop
  | none => ∃ buf,r=some (buf,false)
  | some p => if p.path=[] then r=none else ∃ buf,r=some (buf,true) ∧ cString buf=p.path

end Walk

section Ending

variable {buf out text name tail : List Byte} {src fuel : ℕ}

/-- A string is what stands before its terminator. -/
theorem cString_eq (hout : ∀ c∈out,c≠0) (htake : buf.take out.length=out)
    (hend : buf[out.length]?=some 0) : cString buf=out := by
  have hlt : out.length < buf.length := (List.getElem?_eq_some_iff.mp hend).1
  have hsplit : buf=out++0::buf.drop (out.length+1) := by
    conv_lhs => rw [←List.take_append_drop out.length buf,htake,List.drop_eq_getElem_cons hlt]
    rw [(List.getElem?_eq_some_iff.mp hend).2]
  rw [cString,hsplit,List.takeWhile_append_of_pos (by simpa using hout)]
  simp

/-- A terminator behind what was written makes it the string. -/
theorem cString_set {out : List Byte} (hout : ∀ c∈out,c≠0) (htake : buf.take out.length=out)
    (hlt : out.length < buf.length) : cString (buf.set out.length 0)=out := by
  apply cString_eq hout
  · rw [List.take_set_of_le le_rfl,htake]
  · exact List.getElem?_set_self hlt

/-- Text without a slash at its end, unless it is the slash. -/
def strip (out : List Byte) : List Byte :=
  if 2≤out.length ∧ out.getLast?=some slash then out.dropLast else out

/-- What was written becomes the string, without a slash at its end. -/
theorem finish_eq (h : Layout buf out src []) (hout : ∀ c∈out,c≠0) (hne : out≠[]) :
    ∃ buf',finish buf out.length=some buf' ∧ cString buf'=strip out := by
  have hlt : out.length < buf.length := by
    have := h.length_lt
    have := h.behind
    omega
  have hstring := cString_set hout h.written hlt
  obtain ⟨pre,c,rfl⟩ := (List.eq_nil_or_concat' out).resolve_left hne
  have hwritten : (buf.set (pre++[c]).length 0).take (pre++[c]).length=pre++[c] := by
    rw [List.take_set_of_le le_rfl,h.written]
  have hget : (buf.set (pre++[c]).length 0)[pre.length]?=some c := getElem?_of_take hwritten
  have hpre : (buf.set (pre++[c]).length 0).take pre.length=pre := by
    have := congrArg (List.take pre.length) hwritten
    rwa [List.take_take,Nat.min_eq_left (by simp),List.take_left] at this
  rw [List.length_append,List.length_singleton] at hlt hget hpre
  have hlast : (pre++[c]).getLast?=some c := List.getLast?_concat
  by_cases hstrip : pre≠[] ∧ c=slash
  · obtain ⟨hpre0,rfl⟩ := hstrip
    have hpos := List.length_pos_of_ne_nil hpre0
    refine ⟨(buf.set (pre.length+1) 0).set pre.length 0,?_,?_⟩
    · have hlt' : pre.length < buf.length := by omega
      rw [finish,List.length_append,List.length_singleton]
      simp only [store,hlt,hlt',hget,List.length_set,Option.bind_eq_bind,Option.bind_some,
        Nat.add_sub_cancel,Nat.succ_ne_zero,if_true,if_false,ne_eq]
      simp [hpre0]
    · rw [strip,hlast,if_pos ⟨by simp; omega,rfl⟩,List.dropLast_concat]
      apply cString_set (fun d hd => hout d (by simp [hd])) hpre
      rw [List.length_set]
      omega
  · refine ⟨buf.set (pre++[c]).length 0,?_,?_⟩
    · rw [finish,List.length_append,List.length_singleton]
      by_cases hpre0 : pre=[]
      · subst hpre0
        rw [List.length_nil] at hlt
        simp [store,hlt]
      · have hc : c≠slash := fun hc => hstrip ⟨hpre0,hc⟩
        have hne1 : pre.length≠0 := fun h0 => hpre0 (List.eq_nil_of_length_eq_zero h0)
        simp only [store,hlt,hget,hc,hne1,Option.bind_eq_bind,Option.bind_some,
          Nat.add_sub_cancel,Nat.succ_ne_zero,if_true,if_false,ne_eq,not_false_eq_true]
    · rw [hstring,strip,hlast,if_neg]
      rintro ⟨hlen,hc⟩
      refine hstrip ⟨?_,Option.some.inj hc⟩
      rintro rfl
      simp at hlen

/-- A place whose names are names. -/
def Place.Named (p : Place) : Prop := ∀ name∈p.names,name≠[] ∧ ∀ c∈name,c≠0 ∧ c≠slash

/-- The names of a place after a step were names before, or are the name of the
step. -/
theorem Place.mem_step {p q : Place} {name n : List Byte} (hstep : p.step name=some q)
    (hn : n∈q.names) : n∈p.names ∨ n=name := by
  rw [Place.step] at hstep
  split at hstep
  · cases hstep
    exact Or.inl hn
  · split at hstep
    · split at hstep
      · next m ms heq =>
        cases hstep
        exact Or.inl (heq ▸ List.mem_cons_of_mem m hn)
      · split at hstep
        · cases hstep
          exact absurd hn List.not_mem_nil
        · cases hstep
    · cases hstep
      exact (List.mem_cons.mp hn).symm

/-- A step along a name keeps the names of a place names. -/
theorem Place.Named.step {p q : Place} (hp : p.Named) (hne : name≠[])
    (hname : ∀ c∈name,c≠0 ∧ c≠slash) (hstep : p.step name=some q) : q.Named := by
  intro m hm
  rcases Place.mem_step hstep hm with hold | rfl
  · exact hp m hold
  · exact ⟨hne,hname⟩

/-- Nothing written at a place ends a string. -/
theorem Place.Named.text_ne_zero {p : Place} (hp : p.Named) : ∀ c∈p.text,c≠0 := by
  have hwhole : ∀ c∈p.names.reverse.flatMap (slash::·)++[slash],c≠0 := by
    intro c hc
    rw [List.mem_append,List.mem_flatMap,List.mem_singleton] at hc
    rcases hc with ⟨name,hname,hc⟩ | rfl
    · rcases List.mem_cons.mp hc with rfl | hc
      · exact slash_ne_zero
      · exact ((hp name (List.mem_reverse.mp hname)).2 c hc).1
    · exact slash_ne_zero
  rw [Place.text]
  split
  · exact hwhole
  · exact fun c hc => hwhole c (List.mem_of_mem_tail hc)

/-- Stripping what is written at a place leaves its path. -/
theorem Place.Named.strip_text {p : Place} (hp : p.Named) : strip p.text=p.path := by
  cases p with
  | mk rooted names =>
    cases names with
    | nil => cases rooted <;> simp [strip,Place.path,Place.text]
    | cons name names =>
      have hlen := List.length_pos_of_ne_nil (hp name List.mem_cons_self).1
      rw [Place.path,if_neg (List.cons_ne_nil _ _),Place.text_push ⟨rooted,names⟩,strip,if_pos]
      simp only [List.length_append,List.length_singleton,List.getLast?_concat,and_true]
      omega

/-- A place has a path exactly when something is written. -/
theorem Place.Named.path_eq_nil {p : Place} (hp : p.Named) : p.path=[] ↔ p.text=[] := by
  cases p with
  | mk rooted names =>
    cases names with
    | nil => simp [Place.path]
    | cons name names =>
      have hne := (hp name List.mem_cons_self).1
      rw [Place.path,if_neg (List.cons_ne_nil _ _),Place.text_push ⟨rooted,names⟩]
      simp [hne]

/-- The loop ends at a place whose path is what was written, stripped. -/
theorem ends_finish {p : Place} (h : Layout buf out src []) (hout : ∀ c∈out,c≠0)
    (hstrip : strip out=p.path) (hnil : p.path=[] ↔ out=[]) :
    Ends ((finish buf out.length).bind fun buf => some (buf,true)) (some p) := by
  rw [Ends]
  split
  · next hpath =>
    rw [hnil.mp hpath,finish,List.length_nil]
    cases store buf 0 0 <;> rfl
  · next hpath =>
    obtain ⟨buf',hrun,hstring⟩ := finish_eq h hout (mt hnil.mpr hpath)
    exact ⟨buf',by rw [hrun]; rfl,hstring.trans hstrip⟩

/-- The loop ends at a place whose text is written. -/
theorem ends_text {p : Place} (hp : p.Named) (h : Layout buf p.text src []) :
    Ends ((finish buf p.text.length).bind fun buf => some (buf,true)) (some p) :=
  ends_finish h hp.text_ne_zero hp.strip_text hp.path_eq_nil

/-- The loop ends at a place whose last name is copied. -/
theorem ends_name {p : Place} (hp : p.Named) (hne : name≠[]) (hname : ∀ c∈name,c≠0 ∧ c≠slash)
    (h : Layout buf (p.text++name) src []) :
    Ends ((finish buf (p.text++name).length).bind fun buf => some (buf,true))
      (some ⟨p.rooted,name::p.names⟩) := by
  have hpath : (Place.mk p.rooted (name::p.names)).path=p.text++name := by
    rw [Place.path,if_neg (List.cons_ne_nil _ _),Place.text_push,List.dropLast_concat]
  apply ends_finish h
  · intro c hc
    rcases List.mem_append.mp hc with hc | hc
    · exact hp.text_ne_zero c hc
    · exact (hname c hc).1
  · rw [hpath,strip,if_neg]
    rintro ⟨-,hlast⟩
    rw [List.getLast?_append_of_ne_nil _ hne] at hlast
    exact (hname slash (List.mem_of_getLast? hlast)).2 rfl
  · rw [hpath]

end Ending

section Loop

variable {buf text : List Byte} {src fuel : ℕ}

/-- A text that does not start with a slash is empty, one name, or a name with
a slash behind it. -/
theorem text_cases (hhead : text.head?≠some slash) (hzero : ∀ c∈text,c≠0) :
    text=[] ∨ ∃ name,name≠[] ∧ (∀ c∈name,c≠0 ∧ c≠slash) ∧
      (text=name ∨ ∃ rest,text=name++slash::rest) := by
  have hsplit := List.takeWhile_append_dropWhile (p := (·≠slash)) (l := text)
  have hname : ∀ c∈text.takeWhile (·≠slash),c≠0 ∧ c≠slash := fun c hc =>
    ⟨hzero c ((List.takeWhile_prefix _).subset hc),by simpa using List.mem_takeWhile_imp hc⟩
  cases text with
  | nil => exact Or.inl rfl
  | cons c cs =>
    have hc : c≠slash := fun hc => hhead (by rw [hc]; rfl)
    refine Or.inr ⟨(c::cs).takeWhile (·≠slash),by simp [hc],hname,?_⟩
    cases hrest : (c::cs).dropWhile (·≠slash) with
    | nil =>
      rw [hrest,List.append_nil] at hsplit
      exact Or.inl hsplit.symm
    | cons d rest =>
      have hd := List.head?_dropWhile_not (·≠slash) (c::cs)
      rw [hrest] at hd hsplit
      simp only [List.head?_cons,ne_eq,decide_not,Bool.not_eq_false',decide_eq_true_eq] at hd
      rw [hd] at hsplit
      exact Or.inr ⟨rest,hsplit.symm⟩

/-- Going up is a step along two dots. -/
theorem upOne_step {p : Place} (hp : p.Named) (h : Layout buf p.text src text) :
    match p.step [dot,dot] with
    | none => upOne buf p.text.length src=some (.null buf)
    | some q => upOne buf p.text.length src=some (.more buf q.text.length src) ∧
        Layout buf q.text src text := by
  cases p with
  | mk rooted names =>
    cases names with
    | nil =>
      cases rooted with
      | false => exact upOne_nil buf src
      | true => exact upOne_eq [] [] (Or.inl rfl) List.not_mem_nil h
    | cons name names =>
      have hpush := Place.text_push ⟨rooted,names⟩ name
      have hslash : slash∉name := fun hm => ((hp name List.mem_cons_self).2 slash hm).2 rfl
      have hstep : (Place.mk rooted (name::names)).step [dot,dot]=some ⟨rooted,names⟩ := by
        simp [Place.step]
      rw [hstep]
      rw [hpush] at h ⊢
      exact upOne_eq _ name (Place.text_last ⟨rooted,names⟩) hslash h

/-- One pass over a name with a slash behind it is a step along the name. -/
theorem normalizePass_inner {p : Place} (hp : p.Named) {name rest : List Byte}
    (hname : ∀ c∈name,c≠0 ∧ c≠slash) (h : Layout buf p.text src (name++slash::rest)) :
    match p.step name with
    | none => normalizePass buf p.text.length src=some (.null buf)
    | some q => ∃ buf' src',normalizePass buf p.text.length src=some (.more buf' q.text.length src') ∧
        Layout buf' q.text src' (rest.dropWhile (·=slash)) := by
  by_cases hdot : name=[dot]
  · subst hdot
    obtain ⟨src',hrun,hl⟩ := normalizePass_dot_slash h
    rw [Place.step_dot]
    exact ⟨buf,src',hrun,hl⟩
  · by_cases hup : name=[dot,dot]
    · subst hup
      obtain ⟨src',hrun,hl⟩ := normalizePass_up_slash h
      have hone := upOne_step hp hl
      rw [hrun]
      cases hstep : p.step [dot,dot] with
      | none => rwa [hstep] at hone
      | some q =>
        rw [hstep] at hone
        exact ⟨buf,src',hone⟩
    · obtain ⟨buf',src',hrun,hl⟩ := copyUp_more name hname h
      rw [p.step_name hdot hup,normalizePass_name name _ hname ⟨hdot,hup⟩ (by simp) h]
      exact ⟨buf',src',by rw [hrun,Place.text_push],by rwa [Place.text_push]⟩

/-- One pass over the last name is a step along the name, or ends the loop there. -/
theorem normalizePass_last {p : Place} (hp : p.Named) {name : List Byte} (hne : name≠[])
    (hname : ∀ c∈name,c≠0 ∧ c≠slash) (h : Layout buf p.text src name) :
    match p.step name with
    | none => normalizePass buf p.text.length src=some (.null buf)
    | some q =>
      (∃ buf' src',normalizePass buf p.text.length src=some (.more buf' q.text.length src') ∧
        Layout buf' q.text src' []) ∨
      ∃ buf' dst,normalizePass buf p.text.length src=some (.done buf' dst) ∧
        Ends ((finish buf' dst).bind fun buf => some (buf,true)) (some q) := by
  by_cases hdot : name=[dot]
  · subst hdot
    obtain ⟨buf',src',hrun,hl⟩ := normalizePass_dot_end h
    rw [Place.step_dot]
    exact Or.inr ⟨buf',p.text.length,hrun,ends_text hp hl⟩
  · by_cases hup : name=[dot,dot]
    · subst hup
      obtain ⟨hrun,hl⟩ := normalizePass_up_end h
      have hone := upOne_step hp hl
      rw [hrun]
      cases hstep : p.step [dot,dot] with
      | none => rwa [hstep] at hone
      | some q =>
        rw [hstep] at hone
        exact Or.inl ⟨buf,src+2,hone⟩
    · obtain ⟨buf',src',hrun,hl⟩ := copyUp_done name hname h
      rw [←List.append_nil name] at h
      rw [p.step_name hdot hup,normalizePass_name name _ hname ⟨hdot,hup⟩ (by simp) h]
      exact Or.inr ⟨buf',_,hrun,ends_name hp hne hname hl⟩

/-- The loop ends where the text does. -/
theorem normalizeLoop_nil {p : Place} (hp : p.Named) (h : Layout buf p.text src []) :
    Ends (normalizeLoop (fuel+1) buf p.text.length src) (some p) := by
  obtain ⟨buf',src',hrun,hl⟩ := copyUp_done [] (by simp) h
  rw [List.append_nil] at hrun hl
  have hpass := normalizePass_name [] [] (by simp) (by simp) (by simp) h
  rw [normalizeLoop,hpass,hrun]
  exact ends_text hp hl

/-- The loop follows the names of the text. -/
theorem normalizeLoop_ends (fuel : ℕ) {p : Place} (hp : p.Named) (h : Layout buf p.text src text)
    (hfuel : text.length < fuel) (hhead : text.head?≠some slash) (hzero : ∀ c∈text,c≠0) :
    Ends (normalizeLoop fuel buf p.text.length src) (walk p (components slash text)) := by
  induction fuel generalizing p buf src text with
  | zero => exact absurd hfuel (Nat.not_lt_zero _)
  | succ fuel ih =>
    rcases text_cases hhead hzero with rfl | ⟨name,hne,hname,hend⟩
    · rw [components_nil]
      exact normalizeLoop_nil hp h
    · have hslash : slash∉name := fun hm => (hname slash hm).2 rfl
      rcases hend with rfl | ⟨rest,rfl⟩
      · have hlast := normalizePass_last hp hne hname h
        rw [components_of_notMem hslash,if_neg hne]
        simp only [walk]
        cases hstep : p.step text with
        | none =>
          rw [hstep] at hlast
          rw [normalizeLoop,hlast]
          exact ⟨buf,rfl⟩
        | some q =>
          rw [hstep] at hlast
          rcases hlast with ⟨buf',src',hrun,hl⟩ | ⟨buf',dst,hrun,hends⟩
          · obtain ⟨fuel,rfl⟩ := Nat.exists_eq_succ_of_ne_zero (n := fuel) (by
              have := List.length_pos_of_ne_nil hne
              omega)
            rw [normalizeLoop,hrun]
            exact normalizeLoop_nil (hp.step hne hname hstep) hl
          · rw [normalizeLoop,hrun]
            exact hends
      · have hinner := normalizePass_inner hp hname h
        rw [components_name_cons hne hslash]
        simp only [walk]
        cases hstep : p.step name with
        | none =>
          rw [hstep] at hinner
          rw [normalizeLoop,hinner]
          exact ⟨buf,rfl⟩
        | some q =>
          rw [hstep] at hinner
          obtain ⟨buf',src',hrun,hl⟩ := hinner
          rw [normalizeLoop,hrun]
          refine ih (hp.step hne hname hstep) hl ?_ ?_ ?_
          · have hle := (List.dropWhile_suffix (·=slash) (l := rest)).length_le
            simp only [List.length_append,List.length_cons] at hfuel
            omega
          · have := List.head?_dropWhile_not (·=slash) rest
            intro hhead
            rw [hhead] at this
            simp at this
          · intro c hc
            have hmem := (List.dropWhile_suffix (·=slash) (l := rest)).subset hc
            exact hzero c (by simp [hmem])

end Loop

section Results

/-- The depth of a place: one below the root once the leading slash is gone. -/
def Place.depth (p : Place) : ℤ := p.names.length-(if p.rooted then 0 else 1)

/-- The place at the root. -/
def root : Place := ⟨true,[]⟩

/-- A place is at most one level above the root, and not above it while the
leading slash stands. -/
theorem Place.depth_bounds (p : Place) : -1≤p.depth ∧ (p.rooted=true → 0≤p.depth) := by
  rw [Place.depth]
  cases p.rooted
  · simp only [Bool.false_eq_true,if_false,false_implies,and_true]
    omega
  · simp

/-- A step moves the depth, and takes the leading slash away below zero. -/
theorem Place.step_depth (p : Place) (name : List Byte) :
    match p.step name with
    | none => move dot p.depth name=-2
    | some q => q.depth=move dot p.depth name ∧
        (q.rooted=true ↔ p.rooted=true ∧ 0 ≤ move dot p.depth name) ∧
        (q.rooted=true → q.names=resolveStep dot p.names name) := by
  have hbounds := p.depth_bounds
  by_cases hdot : name=[dot]
  · simp only [Place.step,move,resolveStep,hdot,if_true]
    exact ⟨trivial,⟨fun h => ⟨h,hbounds.2 h⟩,fun h => h.1⟩,fun _ => trivial⟩
  · by_cases hup : name=[dot,dot]
    · have hne : [dot,dot]≠[dot] := by decide
      simp only [Place.step,move,resolveStep,hup,hne,if_true,if_false]
      cases p with
      | mk rooted names => cases names <;> cases rooted <;> simp [Place.depth]
    · simp only [Place.step,move,resolveStep,hdot,hup,if_false]
      have hdepth : (Place.mk p.rooted (name::p.names)).depth=p.depth+1 := by
        simp only [Place.depth,List.length_cons]
        push_cast
        ring
      exact ⟨hdepth,⟨fun h => ⟨h,by have := hbounds.1; omega⟩,fun h => h.1⟩,fun _ => trivial⟩

/-- Names lead two levels above the root when they have no place, and keep the
leading slash when they never lead above it; the names are then those of the
resolution. -/
theorem walk_lowest (p : Place) (names : List (List Byte)) :
    match walk p names with
    | none => lowest dot p.depth names≤-2
    | some q => -1≤lowest dot p.depth names ∧
        (q.rooted=true ↔ p.rooted=true ∧ 0≤lowest dot p.depth names) ∧
        (q.rooted=true → q.names=names.foldl (resolveStep dot) p.names) := by
  induction names generalizing p with
  | nil =>
    have hbounds := p.depth_bounds
    simp only [walk,lowest,List.foldl_nil,implies_true,and_true]
    exact ⟨hbounds.1,fun h => ⟨h,hbounds.2 h⟩,fun h => h.1⟩
  | cons name names ih =>
    have hbounds := p.depth_bounds
    have hstep := p.step_depth name
    have hle := lowest_le dot (move dot p.depth name) names
    simp only [walk,lowest,List.foldl_cons]
    cases hq : p.step name with
    | none =>
      rw [hq] at hstep
      simp only [Option.bind_none] at hstep ⊢
      omega
    | some q =>
      rw [hq] at hstep
      obtain ⟨hdepth,hrooted,hnames⟩ := hstep
      have hwalk := ih q
      rw [hdepth] at hwalk
      simp only [Option.bind_some]
      cases hr : walk q names with
      | none =>
        rw [hr] at hwalk
        simp only at hwalk ⊢
        omega
      | some r =>
        rw [hr] at hwalk
        obtain ⟨hlow,hroot,hstack⟩ := hwalk
        refine ⟨by omega,?_,?_⟩
        · rw [hroot,hrooted]
          constructor
          · rintro ⟨⟨hp,-⟩,hl⟩
            exact ⟨hp,le_min (hbounds.2 hp) hl⟩
          · rintro ⟨hp,hl⟩
            have := le_min_iff.mp hl
            exact ⟨⟨hp,by omega⟩,this.2⟩
        · intro h
          rw [hstack h,hnames (hroot.mp h).1]

/-- The names of a place were names before or on the way. -/
theorem mem_of_walk {p q : Place} {names : List (List Byte)} (h : walk p names=some q)
    {n : List Byte} (hn : n∈q.names) : n∈p.names ∨ n∈names := by
  induction names generalizing p with
  | nil =>
    cases h
    exact Or.inl hn
  | cons name names ih =>
    rw [walk,Option.bind_eq_some_iff] at h
    obtain ⟨r,hstep,hrest⟩ := h
    rcases ih hrest with hr | hr
    · rcases Place.mem_step hstep hr with hold | rfl
      · exact Or.inl hold
      · exact Or.inr List.mem_cons_self
    · exact Or.inr (List.mem_cons_of_mem name hr)

/-- The path of a place with its leading slash is the path of its names. -/
theorem Place.path_rooted (names : List (List Byte)) :
    (Place.mk true names).path=render slash names.reverse := by
  rw [Place.path,render]
  cases names with
  | nil => rfl
  | cons name names =>
    rw [if_neg (List.cons_ne_nil _ _),if_neg (by simp)]
    simp only [Place.text,if_true]
    exact List.dropLast_concat

/-- The path of a place without its leading slash does not start with one. -/
theorem Place.path_unrooted {names : List (List Byte)} (hnames : ∀ n∈names,slash∉n ∧ n≠[]) :
    (Place.mk false names).path.head?≠some slash := by
  rw [Place.path]
  split
  · next h =>
    simp only at h
    simp [Place.text,h]
  · next h =>
    obtain ⟨n,ns,hrev⟩ := List.exists_cons_of_ne_nil (mt List.reverse_eq_nil_iff.mp h)
    have hn := hnames n (List.mem_reverse.mp (hrev ▸ List.mem_cons_self))
    obtain ⟨c,cs,rfl⟩ := List.exists_cons_of_ne_nil hn.2
    have htext : (Place.mk false names).text=
        c::(cs++ns.flatMap (slash::·))++[slash] := by
      simp [Place.text,hrev]
    rw [htext,List.dropLast_concat,List.head?_cons]
    intro hc
    exact hn.1 (by rw [Option.some.inj hc]; exact List.mem_cons_self)

/-- The path that a command's path is joined to. -/
def joinPath (cur path : List Byte) : List Byte :=
  if path.head?=some slash then path else cur++slash::path

/-- The outcome of `build_full_path` that a caller may rely on: failure, or the
canonical path that the joined path leads to. -/
def Resolved (joined : List Byte) : Option (List Byte×ℤ) → Prop
  | none => False
  | some (buf,ret) => ret=-1 ∨ ret=0 ∧ Canonical slash dot (cString buf) ∧
      cString buf=render slash (resolve dot (components slash joined))

/-- A string in a buffer is laid out to be read from its start. -/
theorem layout_cString {buf : List Byte} (hlt : (cString buf).length < buf.length) :
    Layout buf [] 0 (cString buf) := by
  have hsplit := List.takeWhile_append_dropWhile (p := (·≠(0 : Byte))) (l := buf)
  refine ⟨rfl,le_rfl,?_⟩
  cases hrest : buf.dropWhile (·≠(0 : Byte)) with
  | nil =>
    rw [hrest,List.append_nil] at hsplit
    rw [cString,hsplit] at hlt
    exact absurd hlt (Nat.lt_irrefl _)
  | cons c junk =>
    have hc := List.head?_dropWhile_not (·≠(0 : Byte)) buf
    rw [hrest] at hc hsplit
    simp only [List.head?_cons,ne_eq,decide_not,Bool.not_eq_false',decide_eq_true_eq] at hc
    rw [hc] at hsplit
    exact ⟨junk,hsplit.symm⟩

/-- No byte of a string is its terminator. -/
theorem cString_ne_zero (buf : List Byte) : ∀ c∈cString buf,c≠0 := by
  intro c hc
  simpa using List.mem_takeWhile_imp hc

/-- A path that starts with a slash is normalised along its names. -/
theorem ftpNormalizePath_ends {buf joined : List Byte} (hbuf : cString buf=slash::joined)
    (hlt : (cString buf).length < buf.length) :
    Ends (ftpNormalizePath buf) (walk root (components slash (cString buf))) := by
  have hl := layout_cString hlt
  have hzero := cString_ne_zero buf
  rw [hbuf] at hl hlt hzero ⊢
  obtain ⟨buf',src',hrun,hl'⟩ := copyUp_more [] (by simp) hl
  have hpass := normalizePass_name [] (slash::joined) (by simp) (by simp)
    (by simp) hl
  rw [List.length_nil] at hrun hpass
  have hsuffix := List.dropWhile_suffix (·=slash) (l := joined)
  have hends := normalizeLoop_ends buf.length (p := root) (fun n hn => absurd hn
    List.not_mem_nil) hl' (by have := hsuffix.length_le; rw [List.length_cons] at hlt; omega)
    (by
      have := List.head?_dropWhile_not (·=slash) joined
      intro hhead
      rw [hhead] at this
      simp at this)
    (fun c hc => hzero c (List.mem_cons_of_mem slash (hsuffix.subset hc)))
  rw [components_dropWhile] at hends
  rw [components_cons,ftpNormalizePath,normalizeLoop,hpass,hrun]
  exact hends

/-- A string written behind a string is joined to it. -/
theorem writeString_eq {buf pre : List Byte} (text : List Byte) (hpre : buf.take pre.length=pre)
    (hzero : ∀ c∈pre++text,c≠0) (hfits : (pre++text).length < buf.length) :
    ∃ buf',writeString buf pre.length text=some buf' ∧ cString buf'=pre++text ∧
      buf'.length=buf.length := by
  rw [List.length_append] at hfits
  refine ⟨pre++text++0::buf.drop (pre.length+text.length+1),?_,?_,?_⟩
  · rw [writeString,if_pos hfits,hpre]
  · rw [cString,List.takeWhile_append_of_pos (by simpa using hzero)]
    simp
  · simp only [List.length_append,List.length_cons,List.length_drop]
    omega

/-- A string stands at the start of its buffer. -/
theorem take_cString (buf : List Byte) : buf.take (cString buf).length=cString buf := by
  exact (List.prefix_iff_eq_take.mp (List.takeWhile_prefix _)).symm

/-- Joining puts the joined path in the buffer. -/
theorem buildFullPath_join {buf path : List Byte} (hpath : ∀ c∈path,c≠0)
    (hfits : (joinPath (cString buf) path).length < buf.length) :
    ∃ joined,buildFullPath buf path=((ftpNormalizePath joined).bind fun r =>
        if r.2 then some (r.1,0) else some (r.1,-1)) ∧
      cString joined=joinPath (cString buf) path ∧ joined.length=buf.length := by
  have hcur := cString_ne_zero buf
  by_cases habs : path.head?=some slash
  · rw [joinPath,if_pos habs] at hfits ⊢
    have hnil : buf.take ([] : List Byte).length=[] := rfl
    obtain ⟨joined,hwrite,hstring,hlen⟩ := writeString_eq path hnil hpath hfits
    rw [List.length_nil] at hwrite
    refine ⟨joined,?_,hstring,hlen⟩
    rw [buildFullPath,List.take_of_length_le (by omega),hwrite]
    simp [habs]
  · rw [joinPath,if_neg habs] at hfits ⊢
    simp only [List.length_append,List.length_cons] at hfits
    obtain ⟨buf1,hwrite1,hstring1,hlen1⟩ := writeString_eq [slash] (take_cString buf)
      (by simpa [or_imp,forall_and] using hcur)
      (by rw [List.length_append,List.length_singleton]; omega)
    have hzero1 := cString_ne_zero buf1
    obtain ⟨joined,hwrite,hstring,hlen⟩ := writeString_eq path (take_cString buf1)
      (fun c hc => (List.mem_append.mp hc).elim (hzero1 c) (hpath c))
      (by
        rw [hstring1,hlen1]
        simp only [List.length_append,List.length_cons,List.length_nil]
        omega)
    refine ⟨joined,?_,?_,hlen.trans hlen1⟩
    · have htake : path.take (buf1.length-(cString buf1).length-1)=path := by
        apply List.take_of_length_le
        rw [hstring1,hlen1]
        simp only [List.length_append,List.length_cons,List.length_nil]
        omega
      simp only [buildFullPath,strcat,hwrite1,Option.bind_eq_bind,Option.bind_some,htake,hwrite,
        if_neg habs]
    · rw [hstring,hstring1,List.append_assoc]
      rfl

/-- A path that leads to a place below the root gives its canonical path. -/
theorem resolved_of_rooted {joined : List Byte} {r : Option (List Byte×Bool)}
    {stack : List (List Byte)} (hends : Ends r (some ⟨true,stack⟩))
    (hpath : (Place.mk true stack).path=render slash (resolve dot (components slash joined))) :
    Resolved joined (r.bind fun r => if r.2 then some (r.1,0) else some (r.1,-1)) := by
  have hcanon := canonical_resolve dot fun n (hn : n∈components slash joined) => of_mem_components hn
  have hne : (Place.mk true stack).path≠[] := by
    rw [hpath]
    intro h
    have hhead := hcanon.head
    rw [h] at hhead
    cases hhead
  rw [Ends,if_neg hne] at hends
  obtain ⟨out,hrun,hout⟩ := hends
  rw [hrun]
  refine Or.inr ⟨rfl,?_,?_⟩
  · rw [hout,hpath]
    exact hcanon
  · rw [hout,hpath]

/-- A path that leads one level above the root gives nothing to rely on. -/
theorem not_resolved_of_unrooted {joined : List Byte} {r : Option (List Byte×Bool)}
    {stack : List (List Byte)} (hends : Ends r (some ⟨false,stack⟩))
    (hnames : ∀ n∈stack,slash∉n ∧ n≠[]) :
    ¬Resolved joined (r.bind fun r => if r.2 then some (r.1,0) else some (r.1,-1)) := by
  intro h
  rw [Ends] at hends
  split at hends
  · rw [hends] at h
    exact h.elim
  · obtain ⟨out,hrun,hout⟩ := hends
    rw [hrun] at h
    rcases h with h | ⟨-,hcanon,-⟩
    · exact absurd h (by simp)
    · exact absurd (hout ▸ hcanon.head) (Place.path_unrooted hnames)

/-- For every canonical current directory and every path that fits the buffer
with it, the result can be relied on exactly when the joined path does not lead
exactly one level above the root. -/
theorem buildFullPath_resolved_iff {buf path : List Byte}
    (hcur : Canonical slash dot (cString buf)) (hpath : ∀ c∈path,c≠0)
    (hfits : (joinPath (cString buf) path).length < buf.length) :
    Resolved (joinPath (cString buf) path) (buildFullPath buf path) ↔
      lowest dot 0 (components slash (joinPath (cString buf) path))≠-1 := by
  obtain ⟨joined,hbuild,hstring,hlen⟩ := buildFullPath_join hpath hfits
  have hstart : ∃ rest,joinPath (cString buf) path=slash::rest := by
    rw [joinPath]
    split
    · next h => exact List.head?_eq_some_iff.mp h
    · obtain ⟨rest,hrest⟩ := List.head?_eq_some_iff.mp hcur.head
      exact ⟨rest++slash::path,by rw [hrest,List.cons_append]⟩
  obtain ⟨rest,hrest⟩ := hstart
  have hends := ftpNormalizePath_ends (hstring.trans hrest) (by rw [hstring,hlen]; exact hfits)
  rw [hstring] at hends
  rw [hbuild]
  generalize hnames : components slash (joinPath (cString buf) path)=names at hends ⊢
  have hmem : ∀ n∈names,slash∉n ∧ n≠[] := fun n hn => of_mem_components (hnames ▸ hn)
  have hwalk := walk_lowest root names
  have hdepth : root.depth=0 := rfl
  rw [hdepth] at hwalk
  cases hq : walk root names with
  | none =>
    rw [hq] at hends hwalk
    obtain ⟨out,hrun⟩ := hends
    simp only at hwalk
    rw [hrun]
    exact ⟨fun _ => by omega,fun _ => Or.inl rfl⟩
  | some q =>
    rw [hq] at hends hwalk
    obtain ⟨hlow,hrooted,hresolve⟩ := hwalk
    have hqnames : ∀ n∈q.names,slash∉n ∧ n≠[] := fun n hn =>
      (mem_of_walk hq hn).elim (fun h => absurd h List.not_mem_nil) (hmem n)
    cases q with
    | mk rooted stack =>
      cases rooted with
      | true =>
        have hpath : (Place.mk true stack).path=render slash (resolve dot names) := by
          rw [Place.path_rooted,resolve]
          exact congrArg (fun l => render slash l.reverse) (hresolve rfl)
        have hpos := (hrooted.mp rfl).2
        rw [←hnames] at hpath
        exact ⟨fun _ => by omega,fun _ => resolved_of_rooted hends hpath⟩
      | false =>
        have hneg : ¬0 ≤ lowest dot 0 names := fun h => Bool.false_ne_true (hrooted.mpr ⟨rfl,h⟩)
        have hminus : lowest dot 0 names=-1 := by omega
        exact ⟨fun h => absurd h (not_resolved_of_unrooted hends hqnames),
          fun h => absurd hminus h⟩

/-- The buffer of the current directory `/lfs1`. -/
def lfs1Buf : List Byte := [0x2F,0x6C,0x66,0x73,0x31]++List.replicate 251 0

/-- From `/lfs1` the path `a/../b` leads to `/lfs1/b`. -/
theorem buildFullPath_resolved_b :
    Resolved (joinPath (cString lfs1Buf) [0x61,0x2F,0x2E,0x2E,0x2F,0x62])
      (buildFullPath lfs1Buf [0x61,0x2F,0x2E,0x2E,0x2F,0x62]) := by
  have hcur : Canonical slash dot (cString lfs1Buf) :=
    Or.inr ⟨[0x6C,0x66,0x73,0x31],by decide +kernel,by decide +kernel⟩
  refine (buildFullPath_resolved_iff hcur ?_ ?_).mpr ?_
  · decide
  · decide +kernel
  · decide +kernel

/-- From `/lfs1` the path `../..` reads the byte before the buffer, and the
path `/../a` leaves the relative path `a`. -/
theorem buildFullPath_above_root :
    ¬Resolved (joinPath (cString lfs1Buf) [0x2E,0x2E,0x2F,0x2E,0x2E])
      (buildFullPath lfs1Buf [0x2E,0x2E,0x2F,0x2E,0x2E]) ∧
    (buildFullPath lfs1Buf [0x2F,0x2E,0x2E,0x2F,0x61]).map (fun r => (cString r.1,r.2))=
      some ([0x61],0) := by
  have hup : buildFullPath lfs1Buf [0x2E,0x2E,0x2F,0x2E,0x2E]=none := by decide +kernel
  constructor
  · rw [hup]
    exact id
  · decide +kernel

end Results

end ZephyrApp.FtpPath

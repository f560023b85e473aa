import ZephyrApp.DecimalText

/-!
# Which history file is newest or oldest

The history files are named after the clock. A scan of the directory keeps the
best number it has seen, and zero stands for no number yet. What counts is that
a name starts with the prefix and a number; nothing behind the number is looked
at. The abstract choice is the list's largest or smallest element.
-/

namespace ZephyrApp.HistoryFiles

open MachineBytes DecimalText

/-- The two file systems that `ROOT` may be on. -/
inductive Filesystem where
  /-- The mount point of `lfs1`. -/
  | lfs1
  /-- The disk NAND. -/
  | nand
deriving DecidableEq

/-- `ROOT`. -/
def Filesystem.root : Filesystem → List Byte
  | .lfs1 => [0x2F,0x6C,0x66,0x73,0x31]
  | .nand => [0x2F,0x4E,0x41,0x4E,0x44,0x3A]

/-- An entry of the directory. -/
structure Entry where
  /-- `d_name`. -/
  name : List Byte
  /-- `S_ISREG`. -/
  regular : Bool
  /-- `st_size`, an `int`'s worth. -/
  size : ℕ
deriving DecidableEq

/-- The content of a directory. -/
structure Dir where
  /-- The entries. -/
  entries : List Entry
  /-- No two have the same name. -/
  nodup : (entries.map Entry.name).Nodup

/-- `data_`. -/
def dataPrefix : List Byte := [0x64,0x61,0x74,0x61,0x5F]

/-- `.raw`. -/
def rawSuffix : List Byte := [0x2E,0x72,0x61,0x77]

/-- `data_<n>.raw`. -/
def historyName (n : Word) : List Byte := dataPrefix++(decimalText n.toNat++rawSuffix)

/-- `snprintf` of a text into a buffer: what the buffer holds. -/
def snprintf (size : ℕ) (text : List Byte) : List Byte := text.take (size-1)

/-- `ROOT "/%s"`. -/
def rootPath (fs : Filesystem) (name : List Byte) : List Byte := fs.root++0x2F::name

/-- `stat` of a path below the directory. -/
def stat (fs : Filesystem) (dir : Dir) (path : List Byte) : Option Entry :=
  dir.entries.find? fun e => decide (rootPath fs e.name=path)

section Scanning

-- what `%u` stores for a number that 32 bits do not hold, which C leaves open
variable (wide : List Byte → Word)

/-- `%u`: white space, a sign and digits, none if there is no digit. -/
def scanUnsigned (text : List Byte) : Option Word :=
  let text := text.dropWhile isSpace
  let negative := text.head?=some 0x2D
  let digits := if negative ∨ text.head?=some 0x2B then text.tail else text
  match digits with
  | [] => none
  | c::_ =>
    if ¬isDigit c then none
    else if 2^32≤digitsValue digits then some (wide digits)
    else if negative then some (-BitVec.ofNat 32 (digitsValue digits))
    else some (BitVec.ofNat 32 (digitsValue digits))

/-- The number that `sscanf` of `data_%u.raw` stores when it returns one. -/
def sscanf (name : List Byte) : Option Word :=
  if dataPrefix<+:name then scanUnsigned wide (name.drop dataPrefix.length) else none

/-- A file that the scan counts. -/
structure Candidate where
  /-- `tmp`. -/
  number : Word
  /-- `st_size`. -/
  size : ℕ
  /-- What fits into `file_name`. -/
  fileName : List Byte
deriving DecidableEq

/-- The tests of the loop in `get_file` on an entry. -/
def candidate (fs : Filesystem) (dir : Dir) (e : Entry) : Option Candidate :=
  if ¬dataPrefix<+:e.name then none
  else
    let path := snprintf 128 (rootPath fs e.name)
    match sscanf wide e.name with
    | none => none
    | some tmp =>
      match stat fs dir path with
      | none => none
      | some st => if st.regular then some ⟨tmp,st.size,snprintf 64 e.name⟩ else none

/-- The variables of the loop. -/
structure Scan where
  /-- `val`, zero while no file was chosen. -/
  val : Word
  /-- `size`. -/
  size : ℕ
  /-- `num`. -/
  num : ℕ
  /-- `file_name`. -/
  fileName : List Byte

/-- Choose a candidate. -/
def Scan.take (s : Scan) (c : Candidate) : Scan := ⟨c.number,c.size,s.num+1,c.fileName⟩

/-- The body of the loop for a candidate. -/
def scanStep (latest : Bool) (s : Scan) (c : Candidate) : Scan :=
  if s.val=0 then s.take c
  else if latest then
    if s.val < c.number then s.take c else {s with num := s.num+1}
  else if c.number < s.val then s.take c else {s with num := s.num+1}

/-- The body of the loop. -/
def loopBody (fs : Filesystem) (dir : Dir) (latest : Bool) (s : Scan) (e : Entry) : Scan :=
  match candidate wide fs dir e with
  | none => s
  | some c => scanStep latest s c

/-- What `get_file` gives when it does not return minus one. -/
structure Found where
  /-- The path in the caller's buffer. -/
  path : List Byte
  /-- The value returned. -/
  size : ℕ
  /-- `*file_num`. -/
  fileNum : ℕ
deriving DecidableEq

/-- `get_file` on a directory and the entries in the order of `readdir`, none
for a directory that cannot be opened; none for the result minus one. -/
def getFile (fs : Filesystem) (dir : Dir) (latest : Bool) (listing : Option (List Entry)) :
    Option Found :=
  match listing with
  | none => none
  | some listing =>
    let s := listing.foldl (loopBody wide fs dir latest) ⟨0,0,0,[]⟩
    if s.val=0 then none else some ⟨snprintf 128 (rootPath fs s.fileName),s.size,s.num⟩

/-- The entry is the regular file `data_<n>.raw`. -/
def IsHistoryFile (e : Entry) (n : Word) : Prop := e.regular=true ∧ e.name=historyName n

open Classical in
/-- The history files of a directory. -/
noncomputable def historyFiles (dir : Dir) : List Entry :=
  dir.entries.filter fun e => ∃ n,IsHistoryFile e n

/-- The result names the history file with the largest or smallest number, with
its size and the number of such files; it is none if there is no such file. -/
def RightResult (fs : Filesystem) (dir : Dir) (latest : Bool) : Option Found → Prop
  | none => historyFiles dir=[]
  | some found => ∃ e∈dir.entries,∃ n,IsHistoryFile e n ∧
    (∀ e'∈dir.entries,∀ n',IsHistoryFile e' n' → if latest then n'≤n else n≤n') ∧
    found=⟨rootPath fs e.name,e.size,(historyFiles dir).length⟩

/-- Every file that the scan counts is a history file, and none is `data_0.raw`. -/
def OnlyNumbered (fs : Filesystem) (dir : Dir) : Prop :=
  ∀ e∈dir.entries,∀ c,candidate wide fs dir e=some c → ∃ n,n≠0 ∧ e.name=historyName n

/-- There is no history file, and every file that the scan counts has number zero. -/
def OnlyZeros (fs : Filesystem) (dir : Dir) : Prop :=
  (∀ e∈dir.entries,∀ n,¬IsHistoryFile e n) ∧
    ∀ e∈dir.entries,∀ c,candidate wide fs dir e=some c → c.number=0

end Scanning

section Names

variable {wide : List Byte → Word} {fs : Filesystem} {dir : Dir}

/-- The number in the name of a history file is read back. -/
theorem sscanf_historyName (n : Word) : sscanf wide (historyName n)=some n := by
  obtain ⟨c,rest,htext,-⟩ := decimalText_cons n.toNat
  have hc : isDigit c=true := isDigit_of_mem (htext ▸ List.mem_cons_self)
  have hvalue := digitsValue_decimalText n.toNat rawSuffix fun c hc => by
    obtain rfl := Option.some.inj hc
    rfl
  have hplain : isSpace c=false ∧ c≠0x2D ∧ c≠0x2B := by
    simp only [isDigit,decide_eq_true_eq] at hc
    refine ⟨?_,?_,?_⟩
    · simp only [isSpace,decide_eq_false_iff_not,not_or]
      refine ⟨?_,by omega⟩
      rintro rfl
      exact absurd hc.1 (by decide)
    · rintro rfl
      exact absurd hc.1 (by decide)
    · rintro rfl
      exact absurd hc.1 (by decide)
  rw [sscanf,historyName,if_pos (List.prefix_append _ _),List.drop_left,scanUnsigned]
  rw [htext] at hvalue ⊢
  simp only [List.cons_append] at hvalue ⊢
  rw [List.dropWhile_cons_of_neg (by rw [hplain.1]; decide)]
  simp only [List.head?_cons,Option.some.injEq,hplain.2.1,hplain.2.2,or_self,if_false]
  rw [if_neg (by rw [hc]; decide),hvalue,if_neg (by omega),BitVec.ofNat_toNat]
  rfl

/-- Different numbers give different names. -/
theorem historyName_injective : Function.Injective historyName := by
  intro m n h
  have hm := @sscanf_historyName (fun _ => 0) m
  rw [h,sscanf_historyName] at hm
  exact (Option.some.inj hm).symm

/-- The name of a history file has at most 19 bytes. -/
theorem historyName_length (n : Word) : (historyName n).length ≤ 19 := by
  have hdigits : (decimalText n.toNat).length ≤ 10 := by
    rw [decimalText]
    split
    · exact Nat.one_le_ofNat
    · rw [List.length_map,List.length_reverse]
      have hn := n.isLt
      exact (Nat.digits_length_le_iff (by omega) _).mpr (by omega)
  rw [historyName,List.length_append,List.length_append,dataPrefix,rawSuffix]
  simp only [List.length_cons,List.length_nil]
  omega

/-- Paths below the directory differ when the names do. -/
theorem rootPath_inj {name name' : List Byte} :
    rootPath fs name=rootPath fs name' ↔ name=name' := by
  simp [rootPath]

/-- Entries with the same name are the same. -/
theorem Dir.eq_of_name {e e' : Entry} (he : e∈dir.entries) (he' : e'∈dir.entries)
    (hname : e.name=e'.name) : e=e' := List.inj_on_of_nodup_map dir.nodup he he' hname

/-- The path of an entry leads to it. -/
theorem stat_rootPath {e : Entry} (he : e∈dir.entries) :
    stat fs dir (rootPath fs e.name)=some e := by
  obtain ⟨e',he'⟩ := Option.isSome_iff_exists.mp (List.find?_isSome
    (p := fun e' => decide (rootPath fs e'.name=rootPath fs e.name)) |>.mpr
    ⟨e,he,decide_eq_true rfl⟩)
  have hpath := List.find?_some he'
  have hname := rootPath_inj.mp (of_decide_eq_true hpath)
  rw [stat,he',dir.eq_of_name (List.mem_of_find?_eq_some he') he hname]

/-- A short text fits into its buffer. -/
theorem snprintf_eq {size : ℕ} {text : List Byte} (h : text.length < size) :
    snprintf size text=text := List.take_of_length_le (by omega)

/-- The path of a history file fits into the buffer. -/
theorem snprintf_rootPath (n : Word) :
    snprintf 128 (rootPath fs (historyName n))=rootPath fs (historyName n) := by
  have hlength := historyName_length n
  refine snprintf_eq ?_
  rw [rootPath,List.length_append,List.length_cons]
  cases fs <;> (simp only [Filesystem.root,List.length_cons,List.length_nil]; omega)

/-- An entry named as a history file is counted exactly if it is a regular file. -/
theorem candidate_historyName {e : Entry} (he : e∈dir.entries) {n : Word}
    (hname : e.name=historyName n) :
    candidate wide fs dir e=if e.regular then some ⟨n,e.size,e.name⟩ else none := by
  have hlength := historyName_length n
  have hprefix : dataPrefix<+:e.name := hname ▸ List.prefix_append _ _
  have hscan : sscanf wide e.name=some n := by rw [hname,sscanf_historyName]
  have hpath : snprintf 128 (rootPath fs e.name)=rootPath fs e.name := by
    rw [hname,snprintf_rootPath]
  rw [candidate,if_neg (not_not_intro hprefix)]
  dsimp only
  rw [hscan,hpath,stat_rootPath he,snprintf_eq (by rw [hname]; omega)]

end Names

section Folds

/-- The candidate that is chosen, if any. -/
def chosen (s : Scan) : Option Candidate :=
  if s.val=0 then none else some ⟨s.val,s.size,s.fileName⟩

variable {latest : Bool} {s : Scan} {cs : List Candidate}

/-- A candidate that is taken is chosen unless its number is zero. -/
theorem chosen_take {c : Candidate} (hc : c.number≠0) : chosen (s.take c)=some c := if_neg hc

/-- The scan counts every candidate. -/
theorem num_scan : (cs.foldl (scanStep latest) s).num=s.num+cs.length := by
  induction cs generalizing s with
  | nil => rfl
  | cons c cs ih =>
    have hstep : (scanStep latest s c).num=s.num+1 := by
      rw [scanStep]
      repeat' split
      all_goals rfl
    rw [List.foldl_cons,ih,hstep,List.length_cons]
    omega

/-- A candidate replaces the chosen one exactly if its number is better. -/
theorem chosen_scanStep {c : Candidate} (hc : c.number≠0) :
    chosen (scanStep latest s c)=if latest then
      List.argAux (fun c b => b.number.toNat < c.number.toNat) (chosen s) c
    else List.argAux (fun c b => c.number.toNat < b.number.toNat) (chosen s) c := by
  by_cases hval : s.val=0
  · rw [scanStep,if_pos hval,chosen_take hc,chosen,if_pos hval]
    cases latest <;> rfl
  · have hkeep : chosen {s with num := s.num+1}=chosen s := rfl
    have hchosen : chosen s=some ⟨s.val,s.size,s.fileName⟩ := if_neg hval
    rw [scanStep,if_neg hval]
    cases latest with
    | true =>
      simp only [if_true,List.argAux,hchosen,BitVec.lt_def]
      split
      · rw [chosen_take hc]
      · rw [hkeep,hchosen]
    | false =>
      simp only [Bool.false_eq_true,if_false,List.argAux,hchosen,BitVec.lt_def]
      split
      · rw [chosen_take hc]
      · rw [hkeep,hchosen]

/-- Among numbers other than zero the scan chooses the first largest or smallest
one, or keeps what was chosen before. -/
theorem chosen_scan (h : ∀ c∈cs,c.number≠0) :
    chosen (cs.foldl (scanStep latest) s)=if latest then
      cs.foldl (List.argAux fun c b => b.number.toNat < c.number.toNat) (chosen s)
    else cs.foldl (List.argAux fun c b => c.number.toNat < b.number.toNat) (chosen s) := by
  induction cs generalizing s with
  | nil => cases latest <;> rfl
  | cons c cs ih =>
    obtain ⟨hc,hcs⟩ := List.forall_mem_cons.mp h
    rw [List.foldl_cons,ih hcs,chosen_scanStep hc]
    cases latest <;> rfl

/-- From a scan that has chosen nothing yet. -/
theorem chosen_scan_none (h : ∀ c∈cs,c.number≠0) (hs : chosen s=none) :
    chosen (cs.foldl (scanStep latest) s)=
      if latest then cs.argmax fun c => c.number.toNat else cs.argmin fun c => c.number.toNat := by
  rw [chosen_scan h,hs]
  cases latest <;> rfl

/-- Candidates with the number zero leave nothing chosen. -/
theorem val_scan_zeros (h : ∀ c∈cs,c.number=0) (hs : s.val=0) :
    (cs.foldl (scanStep latest) s).val=0 := by
  induction cs generalizing s with
  | nil => exact hs
  | cons c cs ih =>
    obtain ⟨hc,hcs⟩ := List.forall_mem_cons.mp h
    refine ih hcs ?_
    rw [scanStep,if_pos hs]
    exact hc

/-- The scan for the largest number never goes down. -/
theorem le_val_scan : s.val≤(cs.foldl (scanStep true) s).val ∧
    ∀ c∈cs,c.number≤(cs.foldl (scanStep true) s).val := by
  induction cs generalizing s with
  | nil => exact ⟨BitVec.le_refl _,fun c hc => absurd hc List.not_mem_nil⟩
  | cons c cs ih =>
    have hstep : s.val≤(scanStep true s c).val ∧ c.number≤(scanStep true s c).val := by
      rw [scanStep]
      simp only [if_true,BitVec.le_def,BitVec.lt_def]
      split
      · rename_i hzero
        rw [hzero]
        exact ⟨Nat.zero_le _,le_refl _⟩
      · split
        · rename_i hlt
          exact ⟨Nat.le_of_lt hlt,le_refl _⟩
        · rename_i hge
          exact ⟨le_refl _,Nat.le_of_not_lt hge⟩
    obtain ⟨hval,hcs⟩ := ih (s := scanStep true s c)
    rw [List.foldl_cons]
    exact ⟨BitVec.le_trans hstep.1 hval,
      List.forall_mem_cons.mpr ⟨BitVec.le_trans hstep.2 hval,hcs⟩⟩

end Folds

section Selection

variable {wide : List Byte → Word} {fs : Filesystem} {dir : Dir} {latest : Bool}

/-- The files that the scan counts, in the order of a listing. -/
def candidates (wide : List Byte → Word) (fs : Filesystem) (dir : Dir) (listing : List Entry) :
    List Candidate := listing.filterMap (candidate wide fs dir)

/-- The loop is the scan of the candidates. -/
theorem foldl_loopBody (listing : List Entry) (s : Scan) :
    listing.foldl (loopBody wide fs dir latest) s=
      (candidates wide fs dir listing).foldl (scanStep latest) s := by
  induction listing generalizing s with
  | nil => rfl
  | cons e listing ih =>
    rw [List.foldl_cons,ih,loopBody,candidates,candidates,List.filterMap_cons]
    cases candidate wide fs dir e <;> rfl

/-- What is returned for a chosen candidate. -/
def found (fs : Filesystem) (count : ℕ) (c : Candidate) : Found :=
  ⟨snprintf 128 (rootPath fs c.fileName),c.size,count⟩

/-- The result belongs to the candidate that the scan has chosen. -/
theorem getFile_chosen (listing : List Entry) :
    getFile wide fs dir latest (some listing)=
      (chosen ((candidates wide fs dir listing).foldl (scanStep latest) ⟨0,0,0,[]⟩)).map
        (found fs (candidates wide fs dir listing).length) := by
  have hnum := @num_scan latest ⟨0,0,0,[]⟩ (candidates wide fs dir listing)
  rw [Nat.zero_add] at hnum
  rw [getFile,foldl_loopBody,chosen]
  split
  · rfl
  · rw [Option.map_some,found,←hnum]

/-- Without a candidate of number zero the result belongs to the first largest
or smallest one. -/
theorem getFile_arg {listing : List Entry}
    (h : ∀ c∈candidates wide fs dir listing,c.number≠0) :
    getFile wide fs dir latest (some listing)=
      (if latest then (candidates wide fs dir listing).argmax fun c => c.number.toNat
        else (candidates wide fs dir listing).argmin fun c => c.number.toNat).map
          (found fs (candidates wide fs dir listing).length) := by
  rw [getFile_chosen,chosen_scan_none h rfl]

/-- A history file is counted under its number. -/
theorem candidate_history {e : Entry} (he : e∈dir.entries) {n : Word} (h : IsHistoryFile e n) :
    candidate wide fs dir e=some ⟨n,e.size,e.name⟩ := by
  rw [candidate_historyName he h.2,if_pos h.1]

/-- What is counted under the name of a history file is one. -/
theorem history_of_candidate {e : Entry} (he : e∈dir.entries) {n : Word} {c : Candidate}
    (hname : e.name=historyName n) (hc : candidate wide fs dir e=some c) :
    IsHistoryFile e n ∧ c=⟨n,e.size,e.name⟩ := by
  rw [candidate_historyName he hname] at hc
  split at hc
  · rename_i hregular
    exact ⟨⟨hregular,hname⟩,(Option.some.inj hc).symm⟩
  · nomatch hc

/-- The entry that a candidate comes from. -/
theorem mem_candidates {listing : List Entry} (hperm : listing.Perm dir.entries) {c : Candidate} :
    c∈candidates wide fs dir listing ↔ ∃ e∈dir.entries,candidate wide fs dir e=some c := by
  simp only [candidates,List.mem_filterMap,hperm.mem_iff]

/-- As many files are counted as have a candidate. -/
theorem candidates_length {listing : List Entry} (hperm : listing.Perm dir.entries) :
    (candidates wide fs dir listing).length=
      (dir.entries.filter fun e => (candidate wide fs dir e).isSome).length := by
  rw [candidates,List.length_filterMap_eq_countP,hperm.countP_eq,List.countP_eq_length_filter]

/-- A history file is an entry with the name of one. -/
theorem mem_historyFiles {e : Entry} :
    e∈historyFiles dir ↔ e∈dir.entries ∧ ∃ n,IsHistoryFile e n := by
  classical
  rw [historyFiles,List.mem_filter,decide_eq_true_eq]

/-- If the scan counts history files only, it counts all of them. -/
theorem OnlyNumbered.length (h : OnlyNumbered wide fs dir) {listing : List Entry}
    (hperm : listing.Perm dir.entries) :
    (candidates wide fs dir listing).length=(historyFiles dir).length := by
  classical
  rw [candidates_length hperm,historyFiles]
  congr 1
  refine List.filter_congr fun e he => ?_
  rw [Bool.eq_iff_iff,decide_eq_true_eq,Option.isSome_iff_exists]
  constructor
  · rintro ⟨c,hc⟩
    obtain ⟨n,-,hname⟩ := h e he c hc
    exact ⟨n,(history_of_candidate he hname hc).1⟩
  · rintro ⟨n,hn⟩
    exact ⟨_,candidate_history he hn⟩

/-- If the scan counts only history files with a number, its result is right in
every order. -/
theorem OnlyNumbered.right (h : OnlyNumbered wide fs dir) {listing : List Entry}
    (hperm : listing.Perm dir.entries) :
    RightResult fs dir latest (getFile wide fs dir latest (some listing)) := by
  have hsource : ∀ c∈candidates wide fs dir listing,∃ e∈dir.entries,∃ n,n≠0 ∧
      IsHistoryFile e n ∧ c=⟨n,e.size,e.name⟩ := by
    intro c hc
    obtain ⟨e,he,hcand⟩ := (mem_candidates hperm).mp hc
    obtain ⟨n,hn,hname⟩ := h e he c hcand
    exact ⟨e,he,n,hn,history_of_candidate he hname hcand⟩
  have hnonzero : ∀ c∈candidates wide fs dir listing,c.number≠0 := by
    intro c hc
    obtain ⟨e,-,n,hn,-,rfl⟩ := hsource c hc
    exact hn
  have hbest : ∀ c∈candidates wide fs dir listing,
      (∀ c'∈candidates wide fs dir listing,
        if latest then c'.number≤c.number else c.number≤c'.number) →
      RightResult fs dir latest
        (some (found fs (candidates wide fs dir listing).length c)) := by
    intro c hc hall
    obtain ⟨e,he,n,-,hfile,rfl⟩ := hsource c hc
    refine ⟨e,he,n,hfile,fun e' he' n' hfile' => ?_,?_⟩
    · exact hall _ ((mem_candidates hperm).mpr ⟨e',he',candidate_history he' hfile'⟩)
    · rw [found,h.length hperm]
      dsimp only
      rw [hfile.2,snprintf_rootPath]
  have hnone : candidates wide fs dir listing=[] → RightResult fs dir latest none := by
    intro hnil
    have hlength := h.length hperm
    rw [hnil] at hlength
    exact List.length_eq_zero_iff.mp hlength.symm
  rw [getFile_arg hnonzero]
  cases latest with
  | true =>
    simp only [if_true]
    cases harg : (candidates wide fs dir listing).argmax fun c => c.number.toNat with
    | none => exact hnone (List.argmax_eq_none.mp harg)
    | some c =>
      exact hbest c (List.argmax_mem harg) fun c' hc' => List.le_of_mem_argmax hc' harg
  | false =>
    simp only [Bool.false_eq_true,if_false]
    cases harg : (candidates wide fs dir listing).argmin fun c => c.number.toNat with
    | none => exact hnone (List.argmin_eq_none.mp harg)
    | some c =>
      exact hbest c (List.argmin_mem harg) fun c' hc' => List.le_of_mem_argmin hc' harg

/-- If there is no history file and the scan counts only zeros, it fails in
every order. -/
theorem OnlyZeros.right (h : OnlyZeros wide fs dir) {listing : List Entry}
    (hperm : listing.Perm dir.entries) :
    RightResult fs dir latest (getFile wide fs dir latest (some listing)) := by
  have hzeros : ∀ c∈candidates wide fs dir listing,c.number=0 := by
    intro c hc
    obtain ⟨e,he,hcand⟩ := (mem_candidates hperm).mp hc
    exact h.2 e he c hcand
  rw [getFile_chosen,chosen,if_pos (val_scan_zeros hzeros rfl)]
  refine List.eq_nil_iff_forall_not_mem.mpr fun e he => ?_
  obtain ⟨hmem,n,hn⟩ := mem_historyFiles.mp he
  exact h.1 e hmem n hn

/-- If some history file exists and the results are right, the scan counts
history files only. -/
theorem history_of_right {e0 : Entry} {n0 : Word} (he0 : e0∈dir.entries)
    (hfile0 : IsHistoryFile e0 n0)
    (h : RightResult fs dir latest (getFile wide fs dir latest (some dir.entries))) {e : Entry}
    (he : e∈dir.entries) {c : Candidate} (hc : candidate wide fs dir e=some c) :
    ∃ n,IsHistoryFile e n := by
  classical
  have hresult := @getFile_chosen wide fs dir latest dir.entries
  generalize chosen _=choice at hresult
  rw [hresult] at h
  cases choice with
  | none =>
    have hmem : e0∈historyFiles dir := mem_historyFiles.mpr ⟨he0,n0,hfile0⟩
    rw [show historyFiles dir=[] from h] at hmem
    exact absurd hmem List.not_mem_nil
  | some c' =>
    obtain ⟨_,-,_,-,-,hfound⟩ := h
    have hcount := congrArg Found.fileNum hfound
    rw [found] at hcount
    dsimp only at hcount
    rw [candidates_length (List.Perm.refl _),historyFiles] at hcount
    -- the history files are among the counted ones, and as many
    have hsub : (dir.entries.filter fun e => ∃ n,IsHistoryFile e n).Sublist
        (dir.entries.filter fun e => (candidate wide fs dir e).isSome) := by
      rw [show (dir.entries.filter fun e => decide (∃ n,IsHistoryFile e n))=
        (dir.entries.filter fun e => (candidate wide fs dir e).isSome).filter
          fun e => decide (∃ n,IsHistoryFile e n) by
        rw [List.filter_filter]
        refine List.filter_congr fun e he => ?_
        rw [Bool.eq_iff_iff,Bool.and_eq_true,decide_eq_true_eq]
        constructor
        · rintro ⟨n,hn⟩
          exact ⟨⟨n,hn⟩,by rw [candidate_history he hn]; rfl⟩
        · exact fun h => h.1]
      exact List.filter_sublist
    have heq := hsub.eq_of_length hcount.symm
    have hmem : e∈dir.entries.filter fun e => (candidate wide fs dir e).isSome :=
      List.mem_filter.mpr ⟨he,by rw [hc]; rfl⟩
    rw [←heq,List.mem_filter,decide_eq_true_eq] at hmem
    exact hmem.2

/-- If the scan counts history files only and `data_0.raw` is listed first, the
scan for the smallest number does not find it. -/
theorem zero_not_found (honly : ∀ e∈dir.entries,∀ c,candidate wide fs dir e=some c →
      ∃ n,IsHistoryFile e n) {e0 : Entry} (he0 : e0∈dir.entries) (hfile0 : IsHistoryFile e0 0) :
    ¬RightResult fs dir false
      (getFile wide fs dir false (some (e0::dir.entries.erase e0))) := by
  intro h
  have hnodup : dir.entries.Nodup := List.Nodup.of_map _ dir.nodup
  have hrest : ∀ c∈candidates wide fs dir (dir.entries.erase e0),∃ n,n≠0 ∧
      c.number=n ∧ c.fileName=historyName n := by
    intro c hc
    obtain ⟨e,he,hcand⟩ := List.mem_filterMap.mp hc
    obtain ⟨hne,hmem⟩ := (hnodup.mem_erase_iff).mp he
    obtain ⟨n,hfile⟩ := honly e hmem c hcand
    rw [candidate_history hmem hfile] at hcand
    obtain rfl := Option.some.inj hcand
    refine ⟨n,?_,rfl,hfile.2⟩
    rintro rfl
    exact hne (dir.eq_of_name hmem he0 (hfile.2.trans hfile0.2.symm))
  have hnonzero : ∀ c∈candidates wide fs dir (dir.entries.erase e0),c.number≠0 := by
    intro c hc
    obtain ⟨n,hn,hnumber,-⟩ := hrest c hc
    rwa [hnumber]
  have hcandidates : candidates wide fs dir (e0::dir.entries.erase e0)=
      ⟨0,e0.size,e0.name⟩::candidates wide fs dir (dir.entries.erase e0) := by
    rw [candidates,List.filterMap_cons,candidate_history he0 hfile0]
    rfl
  rw [getFile_chosen,hcandidates,List.foldl_cons,
    @chosen_scan_none false _ _ hnonzero rfl] at h
  simp only [Bool.false_eq_true,if_false] at h
  cases harg : (candidates wide fs dir (dir.entries.erase e0)).argmin fun c => c.number.toNat with
  | none =>
    rw [harg] at h
    have hmem : e0∈historyFiles dir := mem_historyFiles.mpr ⟨he0,0,hfile0⟩
    rw [show historyFiles dir=[] from h] at hmem
    exact absurd hmem List.not_mem_nil
  | some c =>
    rw [harg] at h
    obtain ⟨e,he,n,hfile,hall,hfound⟩ := h
    have hzero := hall e0 he0 0 hfile0
    rw [if_neg (by decide)] at hzero
    obtain rfl := BitVec.le_zero_iff.mp hzero
    obtain ⟨n,hn,-,hname⟩ := hrest c (List.argmin_mem harg)
    have hpath := congrArg Found.path hfound
    rw [found] at hpath
    dsimp only at hpath
    rw [hname,snprintf_rootPath,hfile.2,rootPath_inj] at hpath
    exact hn (historyName_injective hpath)

/-- The result is right for both scans and every order of the entries exactly
if the scan counts history files other than `data_0.raw` only, or there are no
history files and it counts zeros only. -/
theorem getFile_right_iff (wide : List Byte → Word) (fs : Filesystem) (dir : Dir) :
    (∀ listing : List Entry,listing.Perm dir.entries → ∀ latest,
        RightResult fs dir latest (getFile wide fs dir latest (some listing))) ↔
      OnlyNumbered wide fs dir ∨ OnlyZeros wide fs dir := by
  constructor
  · intro h
    by_cases hfiles : ∃ e∈dir.entries,∃ n,IsHistoryFile e n
    · left
      obtain ⟨e0,he0,n0,hfile0⟩ := hfiles
      have honly : ∀ e∈dir.entries,∀ c,candidate wide fs dir e=some c →
          ∃ n,IsHistoryFile e n := fun e he c hc =>
        history_of_right he0 hfile0 (h dir.entries (List.Perm.refl _) true) he hc
      intro e he c hc
      obtain ⟨n,hfile⟩ := honly e he c hc
      refine ⟨n,?_,hfile.2⟩
      rintro rfl
      exact zero_not_found honly he hfile
        (h (e::dir.entries.erase e) (List.perm_cons_erase he).symm false)
    · right
      push Not at hfiles
      refine ⟨hfiles,fun e he c hc => ?_⟩
      -- the scan for the largest number would find anything above zero
      by_contra hnumber
      have hright := h dir.entries (List.Perm.refl _) true
      rw [getFile_chosen,chosen] at hright
      split at hright
      · rename_i hval
        have hle := (le_val_scan (s := ⟨0,0,0,[]⟩)).2 c
          ((mem_candidates (List.Perm.refl _)).mpr ⟨e,he,hc⟩)
        rw [hval] at hle
        exact hnumber (BitVec.le_zero_iff.mp hle)
      · obtain ⟨e',he',n,hfile,-⟩ := hright
        exact hfiles e' he' n hfile
  · rintro (h | h) listing hperm latest
    · exact h.right hperm
    · exact h.right hperm

/-- A directory with one file, written to in the first second. -/
def zeroOnly : Dir := ⟨[⟨historyName 0,true,16⟩],by decide⟩

/-- The only file is not found. -/
theorem zero_alone_missed :
    ¬∀ (dir : Dir) (listing : List Entry),listing.Perm dir.entries → ∀ latest,
      RightResult .lfs1 dir latest (getFile (fun _ => 0) .lfs1 dir latest (some listing)) := by
  intro h
  have hright := h zeroOnly zeroOnly.entries (List.Perm.refl _) true
  have hnone : getFile (fun _ => 0) .lfs1 zeroOnly true (some zeroOnly.entries)=none := by
    decide +kernel
  have hmem : (⟨historyName 0,true,16⟩ : Entry)∈historyFiles zeroOnly :=
    mem_historyFiles.mpr ⟨List.mem_singleton.mpr rfl,0,rfl,rfl⟩
  rw [hnone] at hright
  rw [show historyFiles zeroOnly=[] from hright] at hmem
  exact absurd hmem List.not_mem_nil

end Selection

end ZephyrApp.HistoryFiles

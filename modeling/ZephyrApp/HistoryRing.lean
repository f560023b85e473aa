import ZephyrApp.EventRuns

/-!
# Ring of history files

History records are appended to the newest file of a directory. A file that
is full is closed and a new one is created, named after the clock; with ten
files the oldest is removed first. Which file is the newest or the oldest is
found by scanning the directory, in any order. A reboot forgets the open file
and its offset, and may lose records that were not yet synchronised. Records
are told apart by their serial numbers.
-/

namespace ZephyrApp.HistoryRing

open EventRuns

/-- `sizeof(struct his_data)`. -/
abbrev recordSize : ℕ := 16

/-- `MAX_FILE_SIZE`. -/
abbrev maxFileSize : ℕ := 1024*1024

/-- `MAX_FILE_NUM`. -/
abbrev maxFileNum : ℕ := 10*1024*1024/maxFileSize

/-- A regular file `data_<number>.raw`. -/
structure File where
  /-- The number in its name. -/
  number : ℕ
  /-- Serial numbers of the records in it. -/
  records : List ℕ
deriving DecidableEq

/-- `st_size`. -/
def File.size (f : File) : ℕ := recordSize*f.records.length

/-- The variables of the scan in `get_file`; the name that is kept is that of
the file with number `val`. -/
structure Scan where
  /-- `val`, zero while no file was chosen. -/
  val : ℕ
  /-- `size`. -/
  size : ℕ
  /-- `num`. -/
  num : ℕ
deriving DecidableEq

/-- The body of the scan. -/
def scanStep (latest : Bool) (s : Scan) (f : File) : Scan :=
  let num := s.num+1
  if s.val=0 then ⟨f.number,f.size,num⟩
  else if latest then
    if s.val<f.number then ⟨f.number,f.size,num⟩ else {s with num:=num}
  else
    if f.number<s.val then ⟨f.number,f.size,num⟩ else {s with num:=num}

/-- `get_file` over a directory listing, none for minus one. -/
def getFile (latest : Bool) (listing : List File) : Option Scan :=
  let s := listing.foldl (scanStep latest) ⟨0,0,0⟩
  if s.val=0 then none else some s

/-- An order in which `readdir` returns the files of a directory. -/
structure DirOrder where
  /-- The listing. -/
  list : List File → List File
  /-- It holds all files once. -/
  perm : ∀ files,(list files).Perm files

/-- The files and the variables of the history. -/
structure History where
  /-- The files on disk. -/
  disk : List File
  /-- `fd`: the number of the open file. -/
  fd : Option ℕ
  /-- `fd_offset`. -/
  fdOffset : ℕ
  /-- `enable_write`. -/
  enableWrite : Bool
  /-- Records in the open file since it was last synchronised. -/
  unsynced : ℕ
  /-- All files created so far, in order, with all records written to them. -/
  created : List File
  /-- Number of records written so far. -/
  written : ℕ

/-- What a history write meets. -/
structure Write where
  /-- `time` when a file is created. -/
  t : ℕ
  /-- The order of the scan for the newest file. -/
  latestOrder : DirOrder
  /-- The order of the scan for the oldest file. -/
  oldestOrder : DirOrder
  /-- What `file_n` holds when no scan sets it. -/
  fileN : ℤ

/-- The record with the next serial number is appended to a file. -/
def appendRecord (number serial : ℕ) (files : List File) : List File :=
  files.map fun f => if f.number=number then {f with records:=f.records++[serial]} else f

/-- The last records of a file are gone. -/
def loseRecords (number lost : ℕ) (files : List File) : List File :=
  files.map fun f =>
    if f.number=number then {f with records:=f.records.take (f.records.length-lost)} else f

/-- `unlink` of the oldest file, if the scan finds one. -/
def unlinkOldest (order : DirOrder) (disk : List File) : List File :=
  match getFile false (order.list disk) with
  | none => disk
  | some g => disk.filter fun f => f.number≠g.val

/-- The file that `open_latest_file` opens instead of creating one. -/
def existing (disk : List File) (create : Bool) (w : Write) : Option Scan :=
  match getFile true (w.latestOrder.list disk) with
  | some g => if g.num ≤ maxFileNum ∧ create=false then some g else none
  | none => none

/-- `file_n` after the scan for the newest file. -/
def fileCount (disk : List File) (w : Write) : ℤ :=
  match getFile true (w.latestOrder.list disk) with
  | some g => g.num
  | none => w.fileN

/-- `open_latest_file`. -/
def openLatestFile (h : History) (create : Bool) (w : Write) : History :=
  match existing h.disk create w with
  | some g =>
    {h with
      fd:=some g.val
      fdOffset:=g.size}
  | none =>
    let disk :=
      if maxFileNum ≤ fileCount h.disk w then unlinkOldest w.oldestOrder h.disk else h.disk
    {h with
      disk:=disk++[⟨w.t,[]⟩]
      created:=h.created++[⟨w.t,[]⟩]
      fd:=some w.t
      fdOffset:=0}

/-- Whether the next record does not fit behind the offset. -/
def mustCreate (h : History) : Bool := decide (maxFileSize<h.fdOffset+recordSize)

/-- `write_history_data` up to its `write`: a full file is closed, and a file is
opened if none is. -/
def openForWrite (h : History) (w : Write) : History :=
  let create := mustCreate h
  let h := if create then {h with fd:=none,unsynced:=0} else h
  match h.fd with
  | some _ => h
  | none => openLatestFile h create w

/-- The `write` of a record to the open file, which is synchronised at every
4096 bytes. -/
def appendOne (h : History) : History :=
  match h.fd with
  | none => h
  | some number =>
    let offset := h.fdOffset+recordSize
    {h with
      disk:=appendRecord number h.written h.disk
      created:=appendRecord number h.written h.created
      fdOffset:=offset
      unsynced:=if offset%4096=0 then 0 else h.unsynced+1
      written:=h.written+1}

/-- `write_history_data`. -/
def writeHistoryData (h : History) (w : Write) : History :=
  if h.enableWrite then appendOne (openForWrite h w) else h

/-- `history_enable_write`. -/
def historyEnableWrite (h : History) (enable : Bool) : History :=
  if enable then {h with enableWrite:=true}
  else
    {h with
      fd:=none
      unsynced:=0
      enableWrite:=false}

/-- A reboot, which may lose records of the open file that were not synchronised. -/
def reboot (h : History) (lost : ℕ) : History :=
  {h with
    disk:=match h.fd with
      | none => h.disk
      | some number => loseRecords number (min lost h.unsynced) h.disk
    fd:=none
    fdOffset:=0
    enableWrite:=false
    unsynced:=0}

/-- What happens to the history. -/
inductive Event
  /-- A record is written. -/
  | write (w : Write)
  /-- Writing is enabled or disabled. -/
  | enable (on : Bool)
  /-- The device reboots. -/
  | reboot (lost : ℕ)

/-- The history after an event. -/
def next (h : History) : Event → History
  | .write w => writeHistoryData h w
  | .enable on => historyEnableWrite h on
  | .reboot lost => reboot h lost

/-- An empty directory after the first boot. -/
def start : History := ⟨[],none,0,false,0,[],0⟩

/-- The files in numeric order. -/
def inOrder (files : List File) : List File := files.mergeSort fun a b => decide (a.number≤b.number)

/-- The directory is a ring: at most ten files of at most one mebibyte, which
are, file by file, the last of all files ever created with all their records;
and those hold the records in writing order. -/
structure Ring (h : History) : Prop where
  /-- At most ten files. -/
  count : h.disk.length ≤ maxFileNum
  /-- No file is too large. -/
  sizes : ∀ f∈h.disk,f.size ≤ maxFileSize
  /-- Only whole oldest files are missing. -/
  suffix : inOrder h.disk<:+h.created
  /-- All files together hold all records in order. -/
  ordered : h.created.flatMap File.records=List.range h.written

/-- A write creates a file. -/
def CreatesFile (h : History) (w : Write) : Prop :=
  h.enableWrite=true ∧ (mustCreate h=true ∨ h.fd=none) ∧ existing h.disk (mustCreate h) w=none

/-- The clock has advanced since the last file was created. -/
def ClockAdvances (h : History) : Event → Prop
  | .write w => CreatesFile h w → ∀ f∈h.created,f.number<w.t
  | _ => True

/-- The first write after a reboot finds the newest file full. -/
def ReopensFull (h : History) : Prop :=
  h.enableWrite=true ∧ h.fd=none ∧ h.fdOffset=0 ∧
    ∃ f∈h.disk.getLast?,f.number≠0 ∧ f.size=maxFileSize

/-- A full ring with a file of number zero is rotated. -/
def RotatesZero (h : History) : Prop :=
  h.enableWrite=true ∧ mustCreate h=true ∧ h.disk.length=maxFileNum ∧ ∃ f∈h.disk,f.number=0

/-- No write reopens a full file or rotates a ring with file zero, and no reboot
loses records. -/
def Preserves (h : History) : Event → Prop
  | .write _ => ¬ReopensFull h ∧ ¬RotatesZero h
  | .enable _ => True
  | .reboot lost => ∀ number∈h.fd,min lost h.unsynced=0

/-- The scan counts the files and chooses one of them, if it chooses any. -/
theorem scan_mem (latest : Bool) (l : List File) :
    (l.foldl (scanStep latest) ⟨0,0,0⟩).num=l.length ∧
      ((l.foldl (scanStep latest) ⟨0,0,0⟩).val=0 ∨
        ∃ f∈l,f.number=(l.foldl (scanStep latest) ⟨0,0,0⟩).val ∧
          f.size=(l.foldl (scanStep latest) ⟨0,0,0⟩).size) := by
  induction l using List.reverseRecOn with
  | nil => exact ⟨rfl,Or.inl rfl⟩
  | append_singleton l f ih =>
    rw [List.foldl_append,List.foldl_cons,List.foldl_nil,List.length_append,List.length_singleton]
    generalize l.foldl (scanStep latest) ⟨0,0,0⟩=s at ih ⊢
    obtain ⟨hnum,hval⟩ := ih
    have hold : ∀ v size,(s.val=v ∧ s.size=size) → (v=0 ∨ ∃ g∈l++[f],g.number=v ∧ g.size=size) := by
      rintro v size ⟨rfl,rfl⟩
      exact hval.imp_right fun ⟨g,hg,hn⟩ => ⟨g,List.mem_append_left _ hg,hn⟩
    have hnew : ∃ g∈l++[f],g.number=f.number ∧ g.size=f.size :=
      ⟨f,List.mem_append_right _ List.mem_cons_self,rfl,rfl⟩
    rw [scanStep]
    split
    · exact ⟨congrArg (·+1) hnum,Or.inr hnew⟩
    · split
      · split
        · exact ⟨congrArg (·+1) hnum,Or.inr hnew⟩
        · exact ⟨congrArg (·+1) hnum,hold _ _ ⟨rfl,rfl⟩⟩
      · split
        · exact ⟨congrArg (·+1) hnum,Or.inr hnew⟩
        · exact ⟨congrArg (·+1) hnum,hold _ _ ⟨rfl,rfl⟩⟩

/-- The scan for the newest file ends with the greatest number. -/
theorem scan_latest (l : List File) :
    ∀ f∈l,f.number≤(l.foldl (scanStep true) ⟨0,0,0⟩).val := by
  induction l using List.reverseRecOn with
  | nil => exact fun _ h => absurd h List.not_mem_nil
  | append_singleton l f ih =>
    rw [List.foldl_append,List.foldl_cons,List.foldl_nil]
    generalize l.foldl (scanStep true) ⟨0,0,0⟩=s at ih ⊢
    intro g hg
    rcases List.mem_append.mp hg with hg | hg
    · have hle := ih g hg
      simp only [scanStep,if_true]
      split
      · omega
      · split
        · exact hle.trans (le_of_lt (by assumption))
        · exact hle
    · rw [List.mem_singleton.mp hg]
      simp only [scanStep,if_true]
      split
      · exact le_refl _
      · split
        · exact le_refl _
        · dsimp only
          omega

/-- The scan for the oldest of files with positive numbers ends with the least one. -/
theorem scan_oldest (l : List File) (hpos : ∀ f∈l,f.number≠0) :
    (l=[] ∨ (l.foldl (scanStep false) ⟨0,0,0⟩).val≠0) ∧
      ∀ f∈l,(l.foldl (scanStep false) ⟨0,0,0⟩).val≤f.number := by
  induction l using List.reverseRecOn with
  | nil => exact ⟨Or.inl rfl,fun _ h => absurd h List.not_mem_nil⟩
  | append_singleton l f ih =>
    have hf : f.number≠0 := hpos f (List.mem_append_right _ List.mem_cons_self)
    have hrest := ih fun g hg => hpos g (List.mem_append_left _ hg)
    rw [List.foldl_append,List.foldl_cons,List.foldl_nil]
    generalize l.foldl (scanStep false) ⟨0,0,0⟩=s at hrest ⊢
    obtain ⟨hchosen,hleast⟩ := hrest
    simp only [scanStep,Bool.false_eq_true,if_false]
    split
    · rename_i hval
      have hempty : l=[] := hchosen.resolve_right (not_not.mpr hval)
      subst hempty
      refine ⟨Or.inr hf,fun g hg => ?_⟩
      rw [List.mem_singleton.mp hg]
    · rename_i hval
      split
      · rename_i hlt
        refine ⟨Or.inr hf,fun g hg => ?_⟩
        rcases List.mem_append.mp hg with hg | hg
        · exact (le_of_lt hlt).trans (hleast g hg)
        · rw [List.mem_singleton.mp hg]
      · rename_i hge
        refine ⟨Or.inr hval,fun g hg => ?_⟩
        rcases List.mem_append.mp hg with hg | hg
        · exact hleast g hg
        · rw [List.mem_singleton.mp hg]
          exact not_lt.mp hge

/-- A chosen file is listed, has a number and comes with its size and the count. -/
theorem getFile_some {latest : Bool} {l : List File} {g : Scan} (h : getFile latest l=some g) :
    g.val≠0 ∧ g.num=l.length ∧ ∃ f∈l,f.number=g.val ∧ f.size=g.size := by
  obtain ⟨hnum,hmem⟩ := scan_mem latest l
  simp only [getFile] at h
  split at h
  · cases h
  · rename_i hval
    obtain rfl := Option.some.inj h
    exact ⟨hval,hnum,hmem.resolve_left hval⟩

/-- The newest file has the greatest number. -/
theorem getFile_latest {l : List File} {g : Scan} (h : getFile true l=some g) :
    ∀ f∈l,f.number≤g.val := by
  simp only [getFile] at h
  split at h
  · cases h
  · obtain rfl := Option.some.inj h
    exact scan_latest l

/-- There is no newest file only if no file has a number. -/
theorem getFile_latest_none {l : List File} (h : getFile true l=none) : ∀ f∈l,f.number=0 := by
  simp only [getFile] at h
  split at h
  · rename_i hval
    exact fun f hf => Nat.le_zero.mp (hval▸scan_latest l f hf)
  · cases h

/-- Of files with positive numbers the oldest one is found. -/
theorem getFile_oldest {l : List File} (hne : l≠[]) (hpos : ∀ f∈l,f.number≠0) :
    ∃ g,getFile false l=some g ∧ ∀ f∈l,g.val≤f.number := by
  obtain ⟨hchosen,hleast⟩ := scan_oldest l hpos
  refine ⟨l.foldl (scanStep false) ⟨0,0,0⟩,?_,hleast⟩
  rw [getFile]
  exact if_neg (hchosen.resolve_left hne)

/-- Files in increasing order of their numbers. -/
def Increasing (files : List File) : Prop := files.Pairwise fun a b => a.number<b.number

/-- Files in increasing order are in numeric order. -/
theorem inOrder_eq_self {files : List File} (h : Increasing files) : inOrder files=files :=
  List.mergeSort_of_pairwise (h.imp fun hlt => decide_eq_true (le_of_lt hlt))

/-- The numeric order has the same files. -/
theorem mem_inOrder {files : List File} {f : File} : f∈inOrder files ↔ f∈files :=
  (List.mergeSort_perm _ _).mem_iff

/-- Appending a record keeps the numbers. -/
theorem Increasing.appendRecord {files : List File} (h : Increasing files) (number serial : ℕ) :
    Increasing (appendRecord number serial files) := by
  rw [Increasing,HistoryRing.appendRecord,List.pairwise_map]
  refine h.imp fun hlt => ?_
  split <;> split <;> exact hlt

/-- A new file with a greater number keeps the order. -/
theorem Increasing.concat {files : List File} (h : Increasing files) {f : File}
    (hnew : ∀ g∈files,g.number<f.number) : Increasing (files++[f]) :=
  List.pairwise_append.mpr ⟨h,List.pairwise_singleton _ _,fun g hg _ hf =>
    (List.mem_singleton.mp hf)▸hnew g hg⟩

/-- A file that is younger than one of a suffix is in the suffix. -/
theorem Increasing.mem_suffix {files suffix : List File} (h : Increasing files)
    (hsuffix : suffix<:+files) {f g : File} (hf : f∈suffix) (hg : g∈files)
    (hlt : f.number<g.number) : g∈suffix := by
  obtain ⟨init,rfl⟩ := hsuffix
  rcases List.mem_append.mp hg with hg | hg
  · have hearlier := (List.pairwise_append.mp h).2.2 g hg f hf
    omega
  · exact hg

/-- The record goes to the last file if that has the number. -/
theorem Increasing.appendRecord_last {init : List File} {f : File} (h : Increasing (init++[f]))
    (serial : ℕ) : HistoryRing.appendRecord f.number serial (init++[f])=
      init++[{f with records:=f.records++[serial]}] := by
  have hinit : init.map (fun g => if g.number=f.number then
      {g with records:=g.records++[serial]} else g)=init := by
    refine (List.map_congr_left fun g hg => ?_).trans (List.map_id init)
    have hlt := (List.pairwise_append.mp h).2.2 g hg f List.mem_cons_self
    exact if_neg (ne_of_lt hlt)
  rw [HistoryRing.appendRecord,List.map_append,hinit]
  simp only [List.map_cons,List.map_nil,if_true]

/-- Without its least number an increasing list has lost its first file. -/
theorem Increasing.filter_least {files : List File} (h : Increasing files) {f : File}
    (hf : f∈files) (hleast : ∀ g∈files,f.number≤g.number) :
    files.filter (fun g => g.number≠f.number)=files.tail := by
  cases files with
  | nil => exact absurd hf List.not_mem_nil
  | cons a rest =>
    obtain ⟨hrest,-⟩ := List.pairwise_cons.mp h
    have hfirst : a.number=f.number := by
      rcases List.mem_cons.mp hf with rfl | hin
      · rfl
      · have hlt := hrest f hin
        have hle := hleast a List.mem_cons_self
        omega
    rw [List.filter_cons_of_neg (by simp only [hfirst,ne_eq,not_true_eq_false,decide_false,
      Bool.false_eq_true,not_false_eq_true]),List.tail_cons,List.filter_eq_self]
    intro g hg
    have hlt := hrest g hg
    exact decide_eq_true (by omega)

/-- The last of increasing files is the one with its number. -/
theorem Increasing.eq_last {files : List File} (h : Increasing files) {f g : File}
    (hlast : files.getLast?=some f) (hg : g∈files) (hle : f.number≤g.number) : g=f := by
  obtain ⟨init,rfl⟩ := List.getLast?_eq_some_iff.mp hlast
  rcases List.mem_append.mp hg with hg | hg
  · have hlt := (List.pairwise_append.mp h).2.2 g hg f List.mem_cons_self
    omega
  · exact List.mem_singleton.mp hg

/-- The invariant of a history that has lost nothing. -/
structure Sound (h : History) : Prop where
  /-- Files are created in increasing order. -/
  increasing : Increasing h.created
  /-- The files on disk are the last ones. -/
  suffix : h.disk<:+h.created
  /-- At most ten files. -/
  count : h.disk.length ≤ maxFileNum
  /-- No file is too large. -/
  sizes : ∀ f∈h.disk,f.size ≤ maxFileSize
  /-- All files together hold all records in order. -/
  ordered : h.created.flatMap File.records=List.range h.written
  /-- The open file is the newest, and the offset is its size. -/
  opened : ∀ number∈h.fd,∃ f,h.disk.getLast?=some f ∧ f.number=number ∧ h.fdOffset=f.size ∧
    h.unsynced≤f.records.length
  /-- Without an open file the offset is zero or the size of the newest file. -/
  closed : h.fd=none → h.unsynced=0 ∧
    (h.fdOffset=0 ∨ ∃ f,h.disk.getLast?=some f ∧ h.fdOffset=f.size)

section Steps

variable {h : History}

/-- The files on disk are increasing. -/
theorem Sound.disk_increasing (hs : Sound h) : Increasing h.disk :=
  hs.increasing.sublist hs.suffix.sublist

/-- A sound history is a ring. -/
theorem Sound.ring (hs : Sound h) : Ring h := by
  refine ⟨hs.count,hs.sizes,?_,hs.ordered⟩
  rw [inOrder_eq_self hs.disk_increasing]
  exact hs.suffix

/-- The newest file on disk is the last one created. -/
theorem Sound.created_last (hs : Sound h) {f : File} (hlast : h.disk.getLast?=some f) :
    ∃ init,h.created=init++[f] := by
  obtain ⟨init,hinit⟩ := List.getLast?_eq_some_iff.mp hlast
  obtain ⟨older,holder⟩ := hs.suffix
  exact ⟨older++init,by rw [←holder,hinit,List.append_assoc]⟩

/-- Writing a record that fits to the open file keeps the history sound. -/
theorem Sound.appendOne (hs : Sound h) {f : File} (hfd : h.fd=some f.number)
    (hlast : h.disk.getLast?=some f) (hroom : f.size+recordSize ≤ maxFileSize) :
    Sound (appendOne h) := by
  obtain ⟨init,hdisk⟩ := List.getLast?_eq_some_iff.mp hlast
  obtain ⟨all,hcreated⟩ := hs.created_last hlast
  obtain ⟨f',hlast',-,hoffset,hunsynced⟩ := hs.opened f.number hfd
  obtain rfl : f=f' := Option.some.inj (hlast.symm.trans hlast')
  have hincreasing := hs.increasing
  have hdiskinc := hs.disk_increasing
  rw [hcreated] at hincreasing
  rw [hdisk] at hdiskinc
  have hnewsize : ({f with records:=f.records++[h.written]} : File).size=f.size+recordSize := by
    simp only [File.size,List.length_append,List.length_singleton,Nat.mul_add,Nat.mul_one]
  rw [HistoryRing.appendOne,hfd]
  dsimp only
  refine ⟨hs.increasing.appendRecord _ _,hs.suffix.map _,?_,?_,?_,?_,?_⟩
  · rw [appendRecord,List.length_map]
    exact hs.count
  · dsimp only
    rw [hdisk,hdiskinc.appendRecord_last]
    intro g hg
    rcases List.mem_append.mp hg with hg | hg
    · exact hs.sizes g (hdisk▸List.mem_append_left _ hg)
    · rw [List.mem_singleton.mp hg,hnewsize]
      exact hroom
  · dsimp only
    have hordered := hs.ordered
    rw [hcreated,List.flatMap_append] at hordered
    simp only [List.flatMap_cons,List.flatMap_nil,List.append_nil] at hordered
    rw [hcreated,hincreasing.appendRecord_last,List.range_succ,←hordered,List.flatMap_append]
    simp only [List.flatMap_cons,List.flatMap_nil,List.append_nil,List.append_assoc]
  · intro number hnumber
    obtain rfl := Option.some.inj hnumber
    refine ⟨{f with records:=f.records++[h.written]},?_,rfl,?_,?_⟩
    · dsimp only
      rw [hdisk,hdiskinc.appendRecord_last,List.getLast?_concat]
    · rw [hnewsize,hoffset]
    · dsimp only
      rw [List.length_append,List.length_singleton]
      split
      · omega
      · omega
  · intro hnone
    cases hnone

/-- Creating a file behind the last of the earlier ones keeps the history sound. -/
theorem Sound.create (hs : Sound h) {disk : List File} (hsuffix : disk<:+h.disk)
    (hcount : disk.length < maxFileNum) {t : ℕ} (hclock : ∀ f∈h.created,f.number<t) :
    Sound {h with
      disk:=disk++[⟨t,[]⟩]
      created:=h.created++[⟨t,[]⟩]
      fd:=some t
      fdOffset:=0
      unsynced:=0} := by
  refine ⟨hs.increasing.concat hclock,?_,?_,?_,?_,?_,?_⟩
  · obtain ⟨older,holder⟩ := hsuffix.trans hs.suffix
    exact ⟨older,by rw [←List.append_assoc,holder]⟩
  · rw [List.length_append,List.length_singleton]
    exact hcount
  · intro f hf
    rcases List.mem_append.mp hf with hf | hf
    · exact hs.sizes f (hsuffix.subset hf)
    · rw [List.mem_singleton.mp hf]
      exact Nat.zero_le _
  · dsimp only
    rw [List.flatMap_append,hs.ordered]
    exact List.append_nil _
  · intro number hnumber
    obtain rfl := Option.some.inj hnumber
    exact ⟨⟨t,[]⟩,List.getLast?_concat,rfl,rfl,le_refl 0⟩
  · intro hnone
    cases hnone

/-- Files without a number are one file at most. -/
theorem Sound.length_of_zero (hs : Sound h) (hzero : ∀ f∈h.disk,f.number=0) : h.disk.length≤1 := by
  have hinc := hs.disk_increasing
  rcases hdisk : h.disk with _ | ⟨a,_ | ⟨b,rest⟩⟩
  · exact Nat.zero_le 1
  · exact le_refl 1
  · rw [hdisk] at hinc hzero
    have hlt := (List.pairwise_cons.mp hinc).1 b List.mem_cons_self
    have ha := hzero a List.mem_cons_self
    have hb := hzero b (List.mem_cons_of_mem _ List.mem_cons_self)
    omega

/-- Without a numbered file nothing is unlinked. -/
theorem unlinkOldest_of_zero (order : DirOrder) {disk : List File}
    (hzero : ∀ f∈disk,f.number=0) : unlinkOldest order disk=disk := by
  rw [unlinkOldest]
  split
  · rfl
  · rename_i g hg
    obtain ⟨hval,-,f,hf,hnumber,-⟩ := getFile_some hg
    exact absurd (hnumber.symm.trans (hzero f ((order.perm disk).mem_iff.mp hf))) hval

/-- Of numbered files the oldest is unlinked. -/
theorem Sound.unlinkOldest (hs : Sound h) (order : DirOrder) (hne : h.disk≠[])
    (hpos : ∀ f∈h.disk,f.number≠0) : unlinkOldest order h.disk=h.disk.tail := by
  have hperm := order.perm h.disk
  have hlist : order.list h.disk≠[] := fun hnil => hne (by
    rw [hnil] at hperm
    exact List.nil_perm.mp hperm)
  obtain ⟨g,hg,hleast⟩ := getFile_oldest hlist fun f hf => hpos f (hperm.mem_iff.mp hf)
  obtain ⟨-,-,f,hf,hnumber,-⟩ := getFile_some hg
  rw [HistoryRing.unlinkOldest,hg]
  dsimp only
  rw [←hnumber]
  exact hs.disk_increasing.filter_least (hperm.mem_iff.mp hf)
    fun a ha => hnumber▸hleast a (hperm.mem_iff.mpr ha)

/-- The newest file that the scan finds is the last one on disk. -/
theorem Sound.newest (hs : Sound h) {order : DirOrder} {g : Scan}
    (hg : getFile true (order.list h.disk)=some g) :
    g.val≠0 ∧ g.num=h.disk.length ∧
      ∃ f,h.disk.getLast?=some f ∧ f.number=g.val ∧ f.size=g.size := by
  have hperm := order.perm h.disk
  obtain ⟨hval,hnum,f,hf,hnumber,hsize⟩ := getFile_some hg
  have hmem := hperm.mem_iff.mp hf
  refine ⟨hval,hnum.trans hperm.length_eq,?_⟩
  cases hlast : h.disk.getLast? with
  | none => exact absurd (List.getLast?_eq_none_iff.mp hlast) (List.ne_nil_of_mem hmem)
  | some last =>
    have hin : last∈h.disk := List.mem_of_getLast? hlast
    have hle : last.number≤f.number := hnumber▸getFile_latest hg last (hperm.mem_iff.mpr hin)
    obtain rfl := hs.disk_increasing.eq_last hlast hmem hle
    exact ⟨f,rfl,hnumber,hsize⟩

/-- The directory after an older file is created from nothing or over a ring. -/
theorem Sound.openLatestFile_create (hs : Sound h) {w : Write} {create : Bool} (hfd : h.fd=none)
    (hexisting : existing h.disk create w=none)
    (hfull : h.disk.length=maxFileNum → ∀ f∈h.disk,f.number≠0) :
    ∃ disk,disk<:+h.disk ∧ disk.length < maxFileNum ∧
      openLatestFile h create w={h with
        disk:=disk++[⟨w.t,[]⟩]
        created:=h.created++[⟨w.t,[]⟩]
        fd:=some w.t
        fdOffset:=0
        unsynced:=0} := by
  have hunsynced := (hs.closed hfd).1
  simp only [openLatestFile,hexisting]
  cases hg : getFile true (w.latestOrder.list h.disk) with
  | none =>
    have hzero : ∀ f∈h.disk,f.number=0 := fun f hf =>
      getFile_latest_none hg f ((w.latestOrder.perm h.disk).mem_iff.mpr hf)
    refine ⟨h.disk,List.suffix_refl _,lt_of_le_of_lt (hs.length_of_zero hzero) (by decide),?_⟩
    rw [unlinkOldest_of_zero w.oldestOrder hzero,ite_self,hunsynced]
  | some g =>
    obtain ⟨-,hnum,-⟩ := hs.newest hg
    have hcount : fileCount h.disk w=h.disk.length := by
      simp only [fileCount,hg,hnum]
    rw [hcount]
    by_cases hten : h.disk.length=maxFileNum
    · have hne : h.disk≠[] := fun hnil => by
        rw [hnil] at hten
        exact absurd hten (by decide)
      refine ⟨h.disk.tail,List.tail_suffix _,?_,?_⟩
      · rw [List.length_tail,hten]
        decide
      · rw [if_pos (by rw [hten]),hs.unlinkOldest w.oldestOrder hne (hfull hten),hunsynced]
    · have hlt : h.disk.length < maxFileNum := lt_of_le_of_ne hs.count hten
      refine ⟨h.disk,List.suffix_refl _,hlt,?_⟩
      rw [if_neg (by exact_mod_cast not_le.mpr hlt),hunsynced]

/-- Reopening the newest file. -/
theorem Sound.openLatestFile_existing (hs : Sound h) {w : Write} {create : Bool} {g : Scan}
    (hexisting : existing h.disk create w=some g) :
    create=false ∧ ∃ f,h.disk.getLast?=some f ∧ f.number≠0 ∧
      openLatestFile h create w={h with fd:=some f.number,fdOffset:=f.size} := by
  simp only [openLatestFile,hexisting]
  rw [existing] at hexisting
  split at hexisting
  · rename_i g' hg
    split at hexisting
    · rename_i hcond
      obtain rfl := Option.some.inj hexisting
      obtain ⟨hval,-,f,hlast,hnumber,hsize⟩ := hs.newest hg
      exact ⟨hcond.2,f,hlast,hnumber▸hval,by rw [hnumber,hsize]⟩
    · cases hexisting
  · cases hexisting

/-- A file whose size is not the limit has room for a record. -/
theorem room_of_ne {f : File} (hsize : f.size ≤ maxFileSize) (hne : f.size≠maxFileSize) :
    f.size+recordSize ≤ maxFileSize := by
  simp only [File.size,recordSize,maxFileSize] at hsize hne ⊢
  omega

/-- A write that creates a file opens none that is there. -/
theorem existing_creates (disk : List File) (w : Write) : existing disk true w=none := by
  rw [existing]
  split
  · exact if_neg fun hcond => Bool.noConfusion hcond.2
  · rfl

/-- A directory of ten files has a newest one. -/
theorem Sound.getFile_latest_full (hs : Sound h) (hten : h.disk.length=maxFileNum) (w : Write) :
    getFile true (w.latestOrder.list h.disk)≠none := by
  intro hg
  have hshort := hs.length_of_zero fun f hf =>
    getFile_latest_none hg f ((w.latestOrder.perm h.disk).mem_iff.mpr hf)
  rw [hten] at hshort
  exact absurd hshort (by decide)

/-- A history whose file is closed is sound. -/
theorem Sound.closeFile (hs : Sound h) :
    Sound {h with fd:=none,unsynced:=0} := by
  refine ⟨hs.increasing,hs.suffix,hs.count,hs.sizes,hs.ordered,?_,fun _ => ⟨rfl,?_⟩⟩
  · intro number hnumber
    cases hnumber
  · cases hfd : h.fd with
    | none => exact (hs.closed hfd).2
    | some number =>
      obtain ⟨f,hlast,-,hoffset,-⟩ := hs.opened number hfd
      exact Or.inr ⟨f,hlast,hoffset⟩

/-- A file that is created behind an advanced clock is open and has room for the
record. -/
theorem Sound.openCreated (hs : Sound h) {w : Write} {create : Bool} (hfd : h.fd=none)
    (hexisting : existing h.disk create w=none)
    (hfull : h.disk.length=maxFileNum → ∀ f∈h.disk,f.number≠0)
    (hclock : ∀ f∈h.created,f.number<w.t) :
    Sound (openLatestFile h create w) ∧ ∃ f,(openLatestFile h create w).disk.getLast?=some f ∧
      (openLatestFile h create w).fd=some f.number ∧ f.size+recordSize ≤ maxFileSize := by
  obtain ⟨disk,hsuffix,hcount,hopen⟩ := hs.openLatestFile_create hfd hexisting hfull
  rw [hopen]
  exact ⟨hs.create hsuffix hcount hclock,⟨w.t,[]⟩,List.getLast?_concat,rfl,
    (by decide : 16*0+16 ≤ 1024*1024)⟩

/-- The newest file, if it has room for the record, is opened with it. -/
theorem Sound.openExisting (hs : Sound h) {w : Write} {create : Bool} {g : Scan} (hfd : h.fd=none)
    (hexisting : existing h.disk create w=some g)
    (hroom : ∀ f,h.disk.getLast?=some f → f.number≠0 → f.size+recordSize ≤ maxFileSize) :
    Sound (openLatestFile h create w) ∧ ∃ f,(openLatestFile h create w).disk.getLast?=some f ∧
      (openLatestFile h create w).fd=some f.number ∧ f.size+recordSize ≤ maxFileSize := by
  obtain ⟨hunsynced,-⟩ := hs.closed hfd
  obtain ⟨-,f,hlast,hnumber,hopen⟩ := hs.openLatestFile_existing hexisting
  rw [hopen]
  refine ⟨⟨hs.increasing,hs.suffix,hs.count,hs.sizes,hs.ordered,?_,?_⟩,f,hlast,rfl,
    hroom f hlast hnumber⟩
  · intro number' hnumber'
    exact ⟨f,hlast,Option.some.inj hnumber',rfl,hunsynced▸Nat.zero_le _⟩
  · intro hnone
    cases hnone

/-- A directory of ten files has a newest one, which is opened rather than
another one created. -/
theorem Sound.length_of_existing_none (hs : Sound h) {w : Write}
    (hexisting : existing h.disk false w=none) : h.disk.length≠maxFileNum := by
  intro hten
  rw [existing] at hexisting
  split at hexisting
  · rename_i g hg
    obtain ⟨-,hnum,-⟩ := hs.newest hg
    rw [if_pos ⟨hnum▸hs.count,rfl⟩] at hexisting
    cases hexisting
  · rename_i hg
    exact hs.getFile_latest_full hten w hg

/-- Before its `write`, an enabled history write has the newest file open with
room for the record. -/
theorem Sound.openForWrite (hs : Sound h) (w : Write) (hen : h.enableWrite=true)
    (hclock : ClockAdvances h (.write w)) (hc : Preserves h (.write w)) :
    Sound (openForWrite h w) ∧ ∃ f,(openForWrite h w).disk.getLast?=some f ∧
      (openForWrite h w).fd=some f.number ∧ f.size+recordSize ≤ maxFileSize := by
  obtain ⟨hreopen,hrotate⟩ := hc
  have hadvance := fun hwhy hexisting => hclock ⟨hen,hwhy,hexisting⟩
  rw [HistoryRing.openForWrite]
  cases hcreate : mustCreate h with
  | true =>
    have hexisting := existing_creates h.disk w
    rw [hcreate] at hadvance
    simp only [if_true]
    refine Sound.openCreated (h := {h with fd:=none,unsynced:=0}) hs.closeFile rfl hexisting ?_
      (hadvance (Or.inl rfl) hexisting)
    exact fun hten f hf hzero => hrotate ⟨hen,hcreate,hten,f,hf,hzero⟩
  | false =>
    have hfits : h.fdOffset+recordSize ≤ maxFileSize := not_lt.mp (of_decide_eq_false hcreate)
    rw [hcreate] at hadvance
    simp only [Bool.false_eq_true,if_false]
    cases hfd : h.fd with
    | some number =>
      obtain ⟨f,hlast,hnumber,hoffset,-⟩ := hs.opened number hfd
      exact ⟨hs,f,hlast,hfd.trans (congrArg some hnumber.symm),hoffset▸hfits⟩
    | none =>
      dsimp only
      cases hexisting : existing h.disk false w with
      | none =>
        exact hs.openCreated hfd hexisting
          (fun hten => absurd hten (hs.length_of_existing_none hexisting))
          (hadvance (Or.inr hfd) hexisting)
      | some g =>
        refine hs.openExisting hfd hexisting fun f hlast hnumber => ?_
        have hsize := hs.sizes f (List.mem_of_getLast? hlast)
        rcases (hs.closed hfd).2 with hzero | ⟨f',hlast',hoffset⟩
        · exact room_of_ne hsize fun hfull => hreopen ⟨hen,hfd,hzero,f,hlast,hnumber,hfull⟩
        · obtain rfl : f=f' := Option.some.inj (hlast.symm.trans hlast')
          exact hoffset▸hfits

/-- An event that meets the condition keeps the history sound. -/
theorem sound_next (h : History) (e : Event) (hs : Sound h) (hclock : ClockAdvances h e)
    (hc : Preserves h e) : Sound (next h e) := by
  cases e with
  | write w =>
    simp only [next,writeHistoryData]
    split
    · rename_i hen
      obtain ⟨hopen,f,hlast,hfd,hroom⟩ := hs.openForWrite w hen hclock hc
      exact hopen.appendOne hfd hlast hroom
    · exact hs
  | enable on =>
    cases on with
    | true => exact ⟨hs.increasing,hs.suffix,hs.count,hs.sizes,hs.ordered,hs.opened,hs.closed⟩
    | false =>
      have hclose := hs.closeFile
      exact ⟨hs.increasing,hs.suffix,hs.count,hs.sizes,hs.ordered,hclose.opened,hclose.closed⟩
  | reboot lost =>
    have hdisk : (next h (.reboot lost)).disk=h.disk := by
      simp only [next,reboot]
      split
      · rfl
      · rename_i number hfd
        rw [hc number hfd,loseRecords]
        refine (List.map_congr_left fun f _ => ?_).trans (List.map_id _)
        split
        · rw [Nat.sub_zero,List.take_length]
          rfl
        · rfl
    refine ⟨hs.increasing,?_,?_,?_,hs.ordered,?_,fun _ => ⟨rfl,Or.inl rfl⟩⟩
    · rw [hdisk]
      exact hs.suffix
    · rw [hdisk]
      exact hs.count
    · rw [hdisk]
      exact hs.sizes
    · intro number hnumber
      cases hnumber

/-- A file with a number is found again. -/
theorem Sound.existing_some (hs : Sound h) (w : Write) {f : File} (hin : f∈h.disk)
    (hnumber : f.number≠0) : ∃ g,existing h.disk false w=some g := by
  rw [existing]
  split
  · rename_i g hg
    obtain ⟨-,hnum,-⟩ := hs.newest hg
    exact ⟨g,if_pos ⟨hnum▸hs.count,rfl⟩⟩
  · rename_i hg
    exact absurd (getFile_latest_none hg f ((w.latestOrder.perm h.disk).mem_iff.mpr hin)) hnumber

/-- Writing to a reopened full file makes it too large. -/
theorem Sound.not_ring_reopened (hs : Sound h) (w : Write) (hreopen : ReopensFull h) :
    ¬Ring (writeHistoryData h w) := by
  obtain ⟨hen,hfd,hoffset,f,hlast,hnumber,hfull⟩ := hreopen
  have hin : f∈h.disk := List.mem_of_getLast? hlast
  have hcreate : mustCreate h=false := by
    rw [mustCreate,hoffset]
    decide
  obtain ⟨g,hg⟩ := hs.existing_some w hin hnumber
  obtain ⟨-,f',hlast',-,hopen⟩ := hs.openLatestFile_existing hg
  obtain rfl : f=f' := Option.some.inj (hlast.symm.trans hlast')
  have hopened : HistoryRing.openForWrite h w={h with fd:=some f.number,fdOffset:=f.size} := by
    simp only [HistoryRing.openForWrite,hcreate,Bool.false_eq_true,if_false,hfd,hopen]
  intro hring
  have hgrown : {f with records:=f.records++[h.written]}∈(writeHistoryData h w).disk := by
    rw [writeHistoryData,if_pos hen,hopened]
    exact List.mem_map.mpr ⟨f,hin,if_pos rfl⟩
  have hsize := hring.sizes _ hgrown
  simp only [File.size,recordSize,List.length_append,List.length_singleton] at hsize hfull
  omega

/-- Rotating a full ring with file zero keeps that file. -/
theorem Sound.not_ring_rotated (hs : Sound h) (w : Write) (hclock : ClockAdvances h (.write w))
    (hrotate : RotatesZero h) : ¬Ring (writeHistoryData h w) := by
  obtain ⟨hen,hcreate,hten,z,hz,hzero⟩ := hrotate
  have hexisting := existing_creates h.disk w
  have hadvance := hclock ⟨hen,Or.inl hcreate,by rw [hcreate]; exact hexisting⟩
  have hcount : fileCount h.disk w=maxFileNum := by
    rw [fileCount]
    split
    · rename_i g hg
      obtain ⟨-,hnum,-⟩ := hs.newest hg
      rw [hnum,hten]
    · rename_i hg
      exact absurd hg (hs.getFile_latest_full hten w)
  have hafter : (writeHistoryData h w).disk=appendRecord w.t h.written
        (HistoryRing.unlinkOldest w.oldestOrder h.disk++[⟨w.t,[]⟩]) ∧
      (writeHistoryData h w).created=appendRecord w.t h.written (h.created++[⟨w.t,[]⟩]) := by
    simp only [writeHistoryData,hen,if_true,HistoryRing.openForWrite,hcreate,openLatestFile,
      hexisting,hcount,le_refl,HistoryRing.appendOne,and_self]
  have hzcreated := hs.suffix.subset hz
  have hzt : z.number≠w.t := ne_of_lt (hadvance z hzcreated)
  rw [HistoryRing.unlinkOldest] at hafter
  cases hg : getFile false (w.oldestOrder.list h.disk) with
  | none =>
    rw [hg] at hafter
    intro hring
    have hlen := hring.count
    rw [hafter.1,appendRecord,List.length_map,List.length_append,hten,List.length_singleton] at hlen
    exact absurd hlen (by decide)
  | some g =>
    rw [hg] at hafter
    dsimp only at hafter
    obtain ⟨hval,-,f,hf,hnumber,-⟩ := getFile_some hg
    have hfcreated := hs.suffix.subset ((w.oldestOrder.perm h.disk).mem_iff.mp hf)
    have hft : f.number≠w.t := ne_of_lt (hadvance f hfcreated)
    intro hring
    have hincreasing : Increasing (writeHistoryData h w).created := by
      rw [hafter.2]
      exact (hs.increasing.concat hadvance).appendRecord _ _
    have hzkept : z∈inOrder (writeHistoryData h w).disk := by
      rw [mem_inOrder,hafter.1]
      refine List.mem_map.mpr ⟨z,List.mem_append_left _ (List.mem_filter.mpr ⟨hz,?_⟩),if_neg hzt⟩
      exact decide_eq_true (by rw [hzero]; exact hval.symm)
    have hfall : f∈(writeHistoryData h w).created := by
      rw [hafter.2]
      exact List.mem_map.mpr ⟨f,List.mem_append_left _ hfcreated,if_neg hft⟩
    have hfkept := hincreasing.mem_suffix hring.suffix hzkept hfall (by omega)
    rw [mem_inOrder,hafter.1] at hfkept
    obtain ⟨f',hf',heq⟩ := List.mem_map.mp hfkept
    have hsame : f'.number=f.number := by
      rw [←heq]
      split
      · rfl
      · rfl
    rcases List.mem_append.mp hf' with hf' | hf'
    · exact of_decide_eq_true (List.mem_filter.mp hf').2 (hsame.trans hnumber)
    · rw [List.mem_singleton.mp hf'] at hsame
      exact hft hsame.symm

/-- A reboot that loses records leaves a file that is not whole. -/
theorem Sound.not_ring_lost (hs : Sound h) {lost : ℕ}
    (hlost : ¬∀ number∈h.fd,min lost h.unsynced=0) : ¬Ring (reboot h lost) := by
  obtain ⟨number,hfd,hmin⟩ := not_forall₂.mp hlost
  obtain ⟨f,hlast,rfl,-,hunsynced⟩ := hs.opened number hfd
  obtain ⟨init,hinit⟩ := List.getLast?_eq_some_iff.mp hlast
  have hdisk : (reboot h lost).disk=loseRecords f.number (min lost h.unsynced) h.disk := by
    have hfd' : h.fd=some f.number := hfd
    simp only [reboot,hfd']
  have hincreasing : Increasing (reboot h lost).disk := by
    rw [hdisk,Increasing,loseRecords,List.pairwise_map]
    refine hs.disk_increasing.imp fun hlt => ?_
    split <;> split <;> exact hlt
  intro hring
  have hsuffix := hring.suffix
  rw [inOrder_eq_self hincreasing] at hsuffix
  have hlen : (reboot h lost).disk.length=h.disk.length := by
    rw [hdisk,loseRecords,List.length_map]
  have hsame : (reboot h lost).disk=h.disk := by
    have hback := hs.suffix
    rw [List.suffix_iff_eq_drop] at hsuffix hback
    rw [hsuffix,hlen]
    exact hback.symm
  have hin : {f with records:=f.records.take (f.records.length-min lost h.unsynced)}∈h.disk := by
    rw [←hsame,hdisk]
    exact List.mem_map.mpr ⟨f,List.mem_of_getLast? hlast,if_pos rfl⟩
  have heq := congrArg (·.records.length) (hs.disk_increasing.eq_last hlast hin (le_refl _))
  simp only [List.length_take] at heq
  omega

/-- An event against the condition breaks the ring. -/
theorem not_ring_next (h : History) (e : Event) (hs : Sound h) (hclock : ClockAdvances h e)
    (hc : ¬Preserves h e) : ¬Ring (next h e) := by
  cases e with
  | write w =>
    rcases not_and_or.mp hc with hreopen | hrotate
    · exact hs.not_ring_reopened w (not_not.mp hreopen)
    · exact hs.not_ring_rotated w hclock (not_not.mp hrotate)
  | enable on => exact absurd trivial hc
  | reboot lost => exact hs.not_ring_lost hc

end Steps

/-- An empty history is sound. -/
theorem sound_start : Sound start :=
  ⟨List.Pairwise.nil,List.suffix_refl _,Nat.zero_le _,fun _ h => absurd h List.not_mem_nil,rfl,
    fun _ h => absurd h (Option.not_mem_none _),fun _ => ⟨rfl,Or.inl rfl⟩⟩

/-- If the clock advances between file creations, the history is a ring in
every state of a run exactly if no write reopens a full file or rotates a full
ring with file zero and no reboot loses records. -/
theorem history_ring_iff (es : List Event) (hclock : AlongRun next ClockAdvances start es) :
    Throughout next Ring start es ↔ AlongRun next Preserves start es :=
  throughout_iff_of_assumed sound_next (fun _ hs => hs.ring) not_ring_next sound_start hclock

/-- The listing in the order of the disk. -/
def diskOrder : DirOrder := ⟨id,fun _ => List.Perm.refl _⟩

/-- A write at time one. -/
def firstWrite : Write := ⟨1,diskOrder,diskOrder,0⟩

/-- A record is written to a new file, which is opened again after a reboot. -/
theorem history_ring_example :
    let es : List Event := [.enable true,.write firstWrite,.reboot 0,.enable true,.write firstWrite]
    Throughout next Ring start es ↔ AlongRun next Preserves start es :=
  history_ring_iff _ ⟨trivial,fun _ _ hf => absurd hf List.not_mem_nil,trivial,trivial,
    fun hcreates => absurd hcreates.2.2 (by decide),trivial⟩

/-- A history with one open file of `n` records. -/
def oneFile (t n : ℕ) : History :=
  ⟨[⟨t,List.range n⟩],some t,recordSize*n,true,n%256,[⟨t,List.range n⟩],n⟩

/-- A record that fits is appended to the open file. -/
theorem writeHistoryData_oneFile (w : Write) (t : ℕ) {n : ℕ} (hn : n<65536) :
    writeHistoryData (oneFile t n) w=oneFile t (n+1) := by
  have hcreate : mustCreate (oneFile t n)=false := by
    refine decide_eq_false (not_lt.mpr ?_)
    simp only [oneFile,recordSize,maxFileSize]
    omega
  have hopen : openForWrite (oneFile t n) w=oneFile t n := by
    rw [openForWrite,hcreate]
    rfl
  have happend : appendRecord t n [⟨t,List.range n⟩]=[⟨t,List.range (n+1)⟩] := by
    simp only [appendRecord,List.map_cons,List.map_nil,if_true,List.range_succ]
  have hsync : (if (recordSize*n+recordSize)%4096=0 then 0 else n%256+1)=(n+1)%256 := by
    simp only [recordSize]
    split <;> omega
  rw [writeHistoryData,hopen]
  simp only [oneFile,if_true,appendOne,happend,Nat.mul_add_one]
  congr 1

/-- Records are appended to the open file until it is full. -/
theorem finalState_oneFile (w : Write) (t : ℕ) {n k : ℕ} (hk : n+k≤65536) :
    finalState next (oneFile t n) (List.replicate k (.write w))=oneFile t (n+k) := by
  induction k generalizing n with
  | zero => rfl
  | succ k ih =>
    have hstep : next (oneFile t n) (.write w)=oneFile t (n+1) :=
      writeHistoryData_oneFile w t (by omega)
    have hrest := ih (n:=n+1) (by omega)
    rw [Nat.add_right_comm] at hrest
    rw [List.replicate_succ,finalState,List.foldl_cons,hstep]
    exact hrest

/-- No file is created while the records fit. -/
theorem clockAdvances_oneFile (w : Write) (t : ℕ) {n k : ℕ} (hk : n+k≤65536) {es : List Event}
    (h : AlongRun next ClockAdvances (oneFile t (n+k)) es) :
    AlongRun next ClockAdvances (oneFile t n) (List.replicate k (.write w)++es) := by
  induction k generalizing n with
  | zero => exact h
  | succ k ih =>
    have hstep : next (oneFile t n) (.write w)=oneFile t (n+1) :=
      writeHistoryData_oneFile w t (by omega)
    rw [List.replicate_succ,List.cons_append]
    refine ⟨fun hcreates => ?_,?_⟩
    · rcases hcreates.2.1 with hcreate | hfd
      · have hlarge := of_decide_eq_true hcreate
        simp only [oneFile,recordSize,maxFileSize] at hlarge
        omega
      · cases hfd
    · rw [hstep]
      refine ih (n:=n+1) (by omega) ?_
      rw [Nat.add_right_comm]
      exact h

/-- The same history after a reboot, with writing enabled. -/
def reopened (t n : ℕ) : History :=
  ⟨[⟨t,List.range n⟩],none,0,true,0,[⟨t,List.range n⟩],n⟩

/-- Nothing is lost by a reboot after a delay. -/
theorem finalState_reboot (t n : ℕ) :
    finalState next (oneFile t n) [.reboot 0,.enable true]=reopened t n := by
  have hlose : loseRecords t 0 [⟨t,List.range n⟩]=[⟨t,List.range n⟩] := by
    simp only [loseRecords,List.map_cons,List.map_nil,if_true,Nat.sub_zero,List.take_length]
  simp only [finalState,List.foldl_cons,List.foldl_nil,next,reboot,oneFile,Nat.zero_min,hlose,
    historyEnableWrite,if_true,reopened]

/-- The history is sound, and its file is found again. -/
theorem sound_reopened (t : ℕ) {n : ℕ} (hn : n≤65536) : Sound (reopened t n) := by
  have hsize : recordSize*(List.range n).length ≤ maxFileSize := by
    rw [List.length_range,recordSize,maxFileSize]
    omega
  refine ⟨List.pairwise_singleton _ _,List.suffix_refl _,(by decide : 1 ≤ 10),?_,?_,?_,?_⟩
  · intro f hf
    rw [List.mem_singleton.mp hf]
    exact hsize
  · simp only [reopened,List.flatMap_cons,List.flatMap_nil,List.append_nil]
  · intro number hnumber
    cases hnumber
  · exact fun _ => ⟨rfl,Or.inl rfl⟩

/-- The first write after the reboot creates no file. -/
theorem not_createsFile_reopened (w : Write) {t n : ℕ} (ht : t≠0) (hn : n≤65536) :
    ¬CreatesFile (reopened t n) w := by
  have hcreate : mustCreate (reopened t n)=false := rfl
  rintro ⟨-,-,hnone⟩
  obtain ⟨g,hg⟩ := (sound_reopened t hn).existing_some w List.mem_cons_self ht
  rw [hcreate,hg] at hnone
  cases hnone

/-- A file filled to one mebibyte is opened again after a reboot and grows. -/
theorem reopened_file_too_large :
    ¬∀ es,AlongRun next ClockAdvances start es → Throughout next Ring start es := by
  intro hall
  obtain ⟨k,hk⟩ : ∃ k,1+k=65536 := ⟨65535,by decide⟩
  let fill : List Event := List.replicate k (.write firstWrite)
  let again : List Event := [.reboot 0,.enable true,.write firstWrite]
  have hfirst : finalState next start [.enable true,.write firstWrite]=oneFile 1 1 := rfl
  have hfill : finalState next (oneFile 1 1) fill=oneFile 1 (1+k) :=
    finalState_oneFile firstWrite 1 (le_of_eq hk)
  have hreboot := finalState_reboot 1 (1+k)
  have hclock : AlongRun next ClockAdvances start
      (.enable true::.write firstWrite::(fill++again)) := by
    refine ⟨trivial,fun _ _ hf => absurd hf List.not_mem_nil,?_⟩
    refine clockAdvances_oneFile firstWrite 1 (le_of_eq hk) ⟨trivial,trivial,?_,trivial⟩
    intro hcreates
    rw [show next (next (oneFile 1 (1+k)) (.reboot 0)) (.enable true)=reopened 1 (1+k)
      from hreboot] at hcreates
    exact absurd hcreates (not_createsFile_reopened firstWrite (by decide) (le_of_eq hk))
  have hring := (hall _ hclock).last
  have hend : finalState next start (.enable true::.write firstWrite::(fill++again))=
      writeHistoryData (reopened 1 (1+k)) firstWrite := by
    rw [←hreboot,←hfill,←hfirst]
    simp only [finalState,List.foldl_cons,List.foldl_append,List.foldl_nil,again,next]
  rw [hend] at hring
  refine (sound_reopened 1 (le_of_eq hk)).not_ring_reopened firstWrite
    ⟨rfl,rfl,rfl,⟨1,List.range (1+k)⟩,rfl,Nat.one_ne_zero,?_⟩ hring
  rw [File.size,List.length_range,hk,recordSize,maxFileSize]

end ZephyrApp.HistoryRing

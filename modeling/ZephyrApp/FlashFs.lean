import ZephyrApp.EventRuns
import ZephyrApp.ChunkAssembly
import ZephyrApp.MachineBytes

/-!
# Flash in a file

A flash device whose bytes are kept in a file. Addresses are signed and sizes
unsigned, both of 32 bits; a call goes to the file when their sum, without its
carry, is within the device. The file system may transfer fewer bytes than it
is asked for, and the driver goes on until all are transferred. Its answers are
part of each call. Beside the driver stands the array that a flash device of
the same history would hold.
-/

namespace ZephyrApp.FlashFs

open MachineBytes EventRuns ChunkAssembly

section File

/-- `EIO`. -/
def eio : ℤ := 5
/-- `EINVAL`. -/
def einval : ℤ := 22

/-- The backing file. -/
structure BackingFile where
  /-- Its bytes. -/
  bytes : List Byte
  /-- The position of the next transfer. -/
  pos : ℕ
deriving DecidableEq

/-- What the file system answers during a call. A negative answer is an error. -/
structure FsAnswers where
  /-- To opening the file. -/
  opens : ℤ
  /-- To setting the position. -/
  seeks : ℤ
  /-- To each transfer: at most so many bytes. -/
  transfers : ℕ → ℤ

/-- `fs_seek` from the start of the file. -/
def fsSeek (f : BackingFile) (off answer : ℤ) : ℤ×BackingFile :=
  if off < 0 then (-einval,f)
  else if answer≠0 then (answer,f)
  else (0,{f with pos := off.toNat})

/-- `fs_read`: what it returns, the bytes read and the file. -/
def fsRead (f : BackingFile) (len : ℕ) (answer : ℤ) : ℤ×List Byte×BackingFile :=
  if answer < 0 then (answer,[],f)
  else
    let bytes := (f.bytes.drop f.pos).take (min answer.toNat len)
    (bytes.length,bytes,{f with pos := f.pos+bytes.length})

/-- `fs_write`: what it returns and the file. A gap before the position is
filled with zeros. -/
def fsWrite (f : BackingFile) (src : List Byte) (answer : ℤ) : ℤ×BackingFile :=
  if answer < 0 then (answer,f)
  else
    let bytes := src.take answer.toNat
    if bytes=[] then (0,f)
    else
      (bytes.length,
        ⟨store (f.bytes++List.replicate (f.pos-f.bytes.length) 0) f.pos bytes,
          f.pos+bytes.length⟩)

end File

section Driver

/-- `K_SEM_MAX_LIMIT`. -/
def kSemMaxLimit : ℕ := 2^32-1

/-- `struct flashfs_config`. -/
structure FlashfsConfig where
  /-- The size of the device in bytes. -/
  flashSize : Word
  /-- The count of the semaphore. -/
  sem : ℕ
  /-- The file. -/
  file : BackingFile
  /-- The file is open. -/
  isOpen : Bool
deriving DecidableEq

/-- `read_write_init`. -/
def readWriteInit (cfg : FlashfsConfig) (answer : ℤ) : ℤ×FlashfsConfig :=
  if cfg.isOpen=true then (0,cfg)
  else if answer≠0 then (answer,cfg)
  else (0,{cfg with
    file := {cfg.file with pos := 0}
    isOpen := true})

/-- `acquire_device`, none when it waits for ever. -/
def acquireDevice (cfg : FlashfsConfig) : Option FlashfsConfig :=
  if cfg.sem=0 then none else some {cfg with sem := cfg.sem-1}

/-- `release_device`. -/
def releaseDevice (cfg : FlashfsConfig) : FlashfsConfig :=
  {cfg with sem := min (cfg.sem+1) kSemMaxLimit}

/-- What a call leaves. -/
structure Outcome where
  /-- What it returns. -/
  ret : ℤ
  /-- The bytes that were read. -/
  bytes : List Byte
  /-- How far `write_pos` came. -/
  written : ℕ
  /-- The device. -/
  cfg : FlashfsConfig

/-- The loop of `flash_fs_read`: what it returns, the bytes and the file. -/
def readLoop (answers : ℕ → ℤ) (f : BackingFile) (left i : ℕ) : ℤ×List Byte×BackingFile :=
  if left=0 then (0,[],f)
  else
    match fsRead f left (answers i) with
    | (ret,bytes,f) =>
      if ret < 0 then (-eio,[],f)
      else if ret=0 then (-eio,[],f)
      else
        let rest := readLoop answers f (left-ret.toNat) (i+1)
        (rest.1,bytes++rest.2.1,rest.2.2)
termination_by left
decreasing_by omega

/-- The loop of `flash_fs_write`: what it returns, how far it came and the
file. -/
def writeLoop (answers : ℕ → ℤ) (f : BackingFile) (src : List Byte) (i : ℕ) : ℤ×ℕ×BackingFile :=
  if src=[] then (0,0,f)
  else
    match fsWrite f src (answers i) with
    | (ret,f) =>
      if ret < 0 then (ret,0,f)
      else if ret=0 then (-eio,0,f)
      else
        let rest := writeLoop answers f (src.drop ret.toNat) (i+1)
        (rest.1,ret.toNat+rest.2.1,rest.2.2)
termination_by src.length
decreasing_by
  have hpos := List.length_pos_iff.mpr ‹src≠[]›
  rw [List.length_drop]
  omega

/-- Bytes that a caller passes: their number fits `size_t`. -/
structure Chunk where
  /-- The bytes. -/
  bytes : List Byte
  /-- Their number. -/
  length_lt : bytes.length < 2^32

/-- The `size` of a chunk. -/
def Chunk.size (src : Chunk) : Word := BitVec.ofNat 32 src.bytes.length

/-- What `flash_fs_read` and `flash_fs_write` have in common: all but the loop.
None when a call waits for ever. -/
def flashFsTransfer (cfg : FlashfsConfig) (addr size : Word) (fs : FsAnswers)
    (loop : BackingFile → ℤ×List Byte×ℕ×BackingFile) : Option Outcome :=
  if addr+size > cfg.flashSize then some ⟨-eio,[],0,releaseDevice cfg⟩
  else
    (acquireDevice cfg).map fun cfg =>
      let opened := readWriteInit cfg fs.opens
      if opened.1≠0 then ⟨-eio,[],0,releaseDevice opened.2⟩
      else
        let sought := fsSeek opened.2.file addr.toInt fs.seeks
        if sought.1≠0 then ⟨sought.1,[],0,releaseDevice opened.2⟩
        else
          let done := loop sought.2
          ⟨done.1,done.2.1,done.2.2.1,releaseDevice {opened.2 with file := done.2.2.2}⟩

/-- `flash_fs_read`. -/
def flashFsRead (cfg : FlashfsConfig) (addr size : Word) (fs : FsAnswers) : Option Outcome :=
  flashFsTransfer cfg addr size fs fun f =>
    let done := readLoop fs.transfers f size.toNat 0
    (done.1,done.2.1,0,done.2.2)

/-- `flash_fs_write`. -/
def flashFsWrite (cfg : FlashfsConfig) (addr : Word) (src : Chunk) (fs : FsAnswers) :
    Option Outcome :=
  flashFsTransfer cfg addr src.size fs fun f =>
    let done := writeLoop fs.transfers f src.bytes 0
    (done.1,[],done.2.1,done.2.2)

/-- `flash_fs_erase`. -/
def flashFsErase (cfg : FlashfsConfig) (_addr _size : Word) : Option Outcome :=
  some ⟨0,[],0,cfg⟩

/-- The device after `flash_fs_init`, which opens the file and closes it. -/
def flashFsInit (flashSize : Word) (bytes : List Byte) : FlashfsConfig :=
  ⟨flashSize,1,⟨bytes,0⟩,false⟩

end Driver

section Transfers

variable {answers : ℕ → ℤ} {f : BackingFile} {i : ℕ}

/-- Reading does not change the file. -/
theorem fsRead_file (f : BackingFile) (len : ℕ) (answer : ℤ) :
    (fsRead f len answer).2.2.bytes=f.bytes := by
  rw [fsRead]
  split <;> rfl

/-- What was read comes from the position on, and the position moves on. -/
theorem fsRead_got {len : ℕ} {answer : ℤ} (h : ¬(fsRead f len answer).1 < 0) :
    ∃ n ≤ len,(fsRead f len answer).1=n ∧
      (fsRead f len answer).2.1=(f.bytes.drop f.pos).take n ∧
      (fsRead f len answer).2.1.length=n ∧ (fsRead f len answer).2.2.pos=f.pos+n := by
  rw [fsRead] at h ⊢
  split at h
  · rename_i herror
    exact absurd herror h
  · rename_i hpos
    rw [if_neg hpos]
    refine ⟨_,?_,rfl,?_,rfl,rfl⟩
    · rw [List.length_take]
      omega
    · dsimp only
      rw [List.length_take,List.take_eq_take_iff]
      omega

/-- The loop of a read does not change the file. -/
theorem readLoop_file (answers : ℕ → ℤ) (f : BackingFile) (left i : ℕ) :
    (readLoop answers f left i).2.2.bytes=f.bytes := by
  fun_induction readLoop answers f left i with
  | case1 => rfl
  | case2 f left i hleft ret bytes f' hgot =>
    have h := fsRead_file f left (answers i)
    rw [hgot] at h
    exact h
  | case3 f left i hleft bytes f' hgot =>
    have h := fsRead_file f left (answers i)
    rw [hgot] at h
    exact h
  | case4 f left i hleft ret bytes f' hgot hpos hne rest ih =>
    have h := fsRead_file f left (answers i)
    rw [hgot] at h
    exact ih.trans h

/-- A read that succeeds returns the bytes from the position on, all of them. -/
theorem readLoop_ok {left : ℕ} (h : (readLoop answers f left i).1=0) :
    (readLoop answers f left i).2.1=(f.bytes.drop f.pos).take left ∧
      (readLoop answers f left i).2.1.length=left := by
  fun_induction readLoop answers f left i with
  | case1 => exact ⟨List.take_zero.symm,rfl⟩
  | case2 | case3 =>
    have hcode : -eio=0 := h
    exact absurd hcode (by decide)
  | case4 f left i hleft ret bytes f' hgot hpos hne rest ih =>
    have hfile := fsRead_file f left (answers i)
    have hread := fsRead_got (by rw [hgot]; exact hpos : ¬(fsRead f left (answers i)).1 < 0)
    rw [hgot] at hfile hread
    obtain ⟨n,hn,hret,hbytes,hlen,hmoved⟩ := hread
    dsimp only at hret hbytes hlen hmoved hfile
    obtain rfl : n=ret.toNat := by omega
    obtain ⟨hrest,hrestlen⟩ := ih h
    have hparts : (f.bytes.drop f.pos).take left=bytes++(f'.bytes.drop f'.pos).take
        (left-ret.toNat) := by
      rw [hfile,hmoved,←List.drop_drop,hbytes,←List.take_add,Nat.add_sub_cancel' hn]
    have hall : (bytes++rest.2.1).length=left := by
      rw [List.length_append,hlen,show rest.2.1.length=left-ret.toNat from hrestlen]
      omega
    rw [hparts]
    exact ⟨congrArg (bytes ++ ·) hrest,hall⟩

/-- A write within the file stores what it returns the number of. -/
theorem fsWrite_put {src : List Byte} {answer : ℤ} (hin : f.pos+src.length≤f.bytes.length)
    (h : ¬(fsWrite f src answer).1 < 0) :
    ∃ n ≤ src.length,(fsWrite f src answer).1=n ∧
      (fsWrite f src answer).2.bytes=store f.bytes f.pos (src.take n) ∧
      (fsWrite f src answer).2.pos=f.pos+n := by
  rw [fsWrite] at h ⊢
  split at h
  · rename_i herror
    exact absurd herror h
  · rename_i hpos
    rw [if_neg hpos]
    dsimp only
    split
    · exact ⟨0,Nat.zero_le _,rfl,(store_nil f.bytes f.pos).symm,rfl⟩
    · refine ⟨(src.take answer.toNat).length,?_,rfl,?_,rfl⟩
      · rw [List.length_take]
        exact Nat.min_le_right _ _
      · rw [Nat.sub_eq_zero_of_le (by omega : f.pos≤f.bytes.length),List.replicate_zero,
          List.append_nil,List.length_take]
        have hfront : src.take answer.toNat=src.take (min answer.toNat src.length) := by
          rw [List.take_eq_take_iff]
          omega
        exact congrArg (store f.bytes f.pos) hfront

/-- A write that transfers nothing leaves the file. -/
theorem fsWrite_none {src : List Byte} {answer : ℤ} (h : (fsWrite f src answer).1≤0) :
    (fsWrite f src answer).2=f := by
  rw [fsWrite] at h ⊢
  split at h
  · rename_i herror
    rw [if_pos herror]
  · rename_i hpos
    rw [if_neg hpos]
    dsimp only at h ⊢
    split at h
    · rename_i hnil
      rw [if_pos hnil]
    · rename_i hsome
      have hlen := List.length_pos_iff.mpr hsome
      omega

/-- A write within the file stores a front part of its bytes, and all of them
when it succeeds. -/
theorem writeLoop_store {src : List Byte} (hin : f.pos+src.length≤f.bytes.length) :
    (writeLoop answers f src i).2.1 ≤ src.length ∧
      (writeLoop answers f src i).2.2.bytes=
        store f.bytes f.pos (src.take (writeLoop answers f src i).2.1) ∧
      ((writeLoop answers f src i).1=0 → (writeLoop answers f src i).2.1=src.length) := by
  fun_induction writeLoop answers f src i with
  | case1 => exact ⟨Nat.zero_le _,(store_nil _ _).symm,fun _ => rfl⟩
  | case2 f src i hne ret f' hput hneg =>
    have hsame := fsWrite_none (by rw [hput]; exact hneg.le : (fsWrite f src (answers i)).1≤0)
    rw [hput] at hsame
    refine ⟨Nat.zero_le _,?_,fun hret => absurd hret hneg.ne⟩
    rw [List.take_zero,store_nil]
    exact congrArg BackingFile.bytes hsame
  | case3 f src i hne f' hput =>
    have hsame := fsWrite_none (by rw [hput] : (fsWrite f src (answers i)).1≤0)
    rw [hput] at hsame
    have hcode : ¬ -eio=0 := by decide
    refine ⟨Nat.zero_le _,?_,fun hret => absurd hret hcode⟩
    rw [List.take_zero,store_nil]
    exact congrArg BackingFile.bytes hsame
  | case4 f src i hne ret f' hput hpos hnz rest ih =>
    obtain ⟨n,hn,hret,hbytes,hmoved⟩ :=
      fsWrite_put hin (by rw [hput]; exact hpos : ¬(fsWrite f src (answers i)).1 < 0)
    rw [hput] at hret hbytes hmoved
    dsimp only at hret hbytes hmoved
    obtain rfl : n=ret.toNat := by omega
    have hfront : (src.take ret.toNat).length=ret.toNat := List.length_take_of_le hn
    have hlen : f'.bytes.length=f.bytes.length := by
      rw [hbytes]
      exact store_length (by rw [hfront]; omega)
    obtain ⟨hle,hstored,hall⟩ := ih (by rw [hmoved,hlen,List.length_drop]; omega)
    rw [List.length_drop] at hle hall
    have hroom : rest.2.1 ≤ src.length-ret.toNat := hle
    refine ⟨?_,?_,fun h0 => ?_⟩
    · change ret.toNat+rest.2.1 ≤ src.length
      omega
    · change rest.2.2.bytes=store f.bytes f.pos (src.take (ret.toNat+rest.2.1))
      have hback := @store_store _ f.bytes (src.take ret.toNat)
        ((src.drop ret.toNat).take rest.2.1) f.pos
      rw [hfront,List.length_take,List.length_drop] at hback
      rw [List.take_add,←hback (by omega),←hbytes,←hmoved]
      exact hstored
    · change ret.toNat+rest.2.1=src.length
      have hrest : rest.2.1=src.length-ret.toNat := hall h0
      omega

end Transfers

section Runs

/-- A call of the driver. -/
inductive Call
  /-- `flash_fs_read`. -/
  | read (addr size : Word) (fs : FsAnswers)
  /-- `flash_fs_write`. -/
  | write (addr : Word) (src : Chunk) (fs : FsAnswers)
  /-- `flash_fs_erase`. -/
  | erase (addr size : Word)

/-- Carry out a call. -/
def call (cfg : FlashfsConfig) : Call → Option Outcome
  | .read addr size fs => flashFsRead cfg addr size fs
  | .write addr src fs => flashFsWrite cfg addr src fs
  | .erase addr size => flashFsErase cfg addr size

/-- The start and the size of the range of a call. -/
def Call.range : Call → Word×Word
  | .read addr size _ => (addr,size)
  | .write addr src _ => (addr,src.size)
  | .erase addr size => (addr,size)

/-- The range lies in the device; nothing wraps around. -/
def Inside (flashSize : Word) (range : Word×Word) : Prop :=
  range.2=0 ∨ 0≤range.1.toInt ∧ range.1.toNat+range.2.toNat≤flashSize.toNat

instance (flashSize : Word) (range : Word×Word) : Decidable (Inside flashSize range) :=
  inferInstanceAs (Decidable (_ ∨ _))

/-- The driver beside the array of a flash device. -/
structure Flash where
  /-- The driver. -/
  cfg : FlashfsConfig
  /-- For each place the value last written there, or the erase value. -/
  array : List Byte

/-- `erase_value`. -/
def eraseValue : Byte := 0xFF

/-- What a call makes of the array: what a write transferred is stored, and a
range that was erased gets the erase value. -/
def recorded (array : List Byte) (out : Outcome) : Call → List Byte
  | .read _ _ _ => array
  | .write addr src _ => store array addr.toNat (src.bytes.take out.written)
  | .erase addr size =>
    if out.ret=0 then store array addr.toNat (List.replicate size.toNat eraseValue) else array

/-- One call. -/
def next (s : Flash) (c : Call) : Flash :=
  match call s.cfg c with
  | some out => ⟨out.cfg,recorded s.array out c⟩
  | none => s

/-- What an accepted call does. -/
def AcceptedRight (s : Flash) (out : Outcome) : Call → Prop
  | .read addr size _ => out.bytes.length=size.toNat ∧
    ∀ k < size.toNat,out.bytes[k]?=s.array[addr.toNat+k]?
  | .write addr src _ => out.written=src.bytes.length ∧
    (∀ k < src.bytes.length,out.cfg.file.bytes[addr.toNat+k]?=src.bytes[k]?) ∧
    ∀ k,k < addr.toNat ∨ addr.toNat+src.bytes.length ≤ k →
      out.cfg.file.bytes[k]?=s.cfg.file.bytes[k]?
  | .erase _ _ => True

/-- A call returns; outside the device it is refused and the file keeps its
bytes; an accepted read returns the array, and an accepted write has stored all
its bytes and changed no others. -/
def StepRight (s : Flash) (c : Call) : Prop :=
  ∃ out,call s.cfg c=some out ∧
    (¬Inside s.cfg.flashSize c.range → out.ret≠0 ∧ out.cfg.file.bytes=s.cfg.file.bytes) ∧
    (out.ret=0 → AcceptedRight s out c)

/-- The sum of address and size of a write does not wrap around to a value
within the device, and erased is only what has the erase value. -/
def Harmless (s : Flash) : Call → Prop
  | .read _ _ _ => True
  | .write addr src _ => ¬(0≤addr.toInt ∧ 2^32≤addr.toNat+src.bytes.length ∧
    addr.toNat+src.bytes.length-2^32 ≤ s.cfg.flashSize.toNat)
  | .erase addr size => Inside s.cfg.flashSize (addr,size) ∧
    ∀ k < size.toNat,s.cfg.file.bytes[addr.toNat+k]?=some eraseValue

instance (s : Flash) : (c : Call) → Decidable (Harmless s c)
  | .read _ _ _ => instDecidableTrue
  | .write _ _ _ => inferInstanceAs (Decidable (¬_))
  | .erase _ _ => inferInstanceAs (Decidable (_ ∧ _))

/-- The array is in the file, the file has the size of the device, and the
device is free. -/
structure Mirrors (s : Flash) : Prop where
  /-- The file holds the array. -/
  file : s.cfg.file.bytes=s.array
  /-- It has the size of the device. -/
  size : s.array.length=s.cfg.flashSize.toNat
  /-- Nobody holds the semaphore. -/
  free : 0 < s.cfg.sem

variable {cfg : FlashfsConfig} {addr : Word} {s : Flash}

/-- The error of a refused call is not zero. -/
theorem eio_ne : -eio≠0 := by decide

/-- An offset that is not negative is the number its bits are. -/
theorem toNat_toInt (h : 0≤addr.toInt) : addr.toInt.toNat=addr.toNat ∧ addr.toNat < 2^31 := by
  have hlt := addr.isLt
  rw [BitVec.toInt_eq_toNat_cond] at h ⊢
  split at h
  · rename_i hlow
    rw [if_pos hlow,Int.toNat_natCast]
    exact ⟨rfl,by omega⟩
  · omega

/-- Opening the file does not change its bytes. -/
theorem readWriteInit_keeps (cfg : FlashfsConfig) (answer : ℤ) :
    (readWriteInit cfg answer).2.file.bytes=cfg.file.bytes ∧
      (readWriteInit cfg answer).2.flashSize=cfg.flashSize := by
  rw [readWriteInit]
  split
  · exact ⟨rfl,rfl⟩
  · split <;> exact ⟨rfl,rfl⟩

/-- The position is set to an offset that is not negative. -/
theorem fsSeek_ok {f : BackingFile} {off answer : ℤ} (h : (fsSeek f off answer).1=0) :
    0≤off ∧ (fsSeek f off answer).2.bytes=f.bytes ∧ (fsSeek f off answer).2.pos=off.toNat := by
  rw [fsSeek] at h ⊢
  split at h
  · have hcode : -einval=0 := h
    exact absurd hcode (by decide)
  · rename_i hoff
    rw [if_neg hoff]
    split at h
    · rename_i hanswer
      exact absurd h hanswer
    · rename_i hanswer
      rw [if_neg hanswer]
      exact ⟨not_lt.mp hoff,rfl,rfl⟩

/-- A released device is free. -/
theorem releaseDevice_free (cfg : FlashfsConfig) : 0 < (releaseDevice cfg).sem :=
  lt_min (Nat.succ_pos cfg.sem) (by decide)

/-- A transfer returns. It is refused and leaves the file, or its loop runs from
the address on. -/
theorem flashFsTransfer_cases (hfree : 0 < cfg.sem) (addr size : Word) (fs : FsAnswers)
    (loop : BackingFile → ℤ×List Byte×ℕ×BackingFile) :
    ∃ out,flashFsTransfer cfg addr size fs loop=some out ∧
      out.cfg.flashSize=cfg.flashSize ∧ 0 < out.cfg.sem ∧
      (out.ret≠0 ∧ out.written=0 ∧ out.cfg.file.bytes=cfg.file.bytes ∨
        ¬addr+size > cfg.flashSize ∧ 0≤addr.toInt ∧
          ∃ f : BackingFile,f.bytes=cfg.file.bytes ∧ f.pos=addr.toNat ∧
            out.ret=(loop f).1 ∧ out.bytes=(loop f).2.1 ∧ out.written=(loop f).2.2.1 ∧
            out.cfg.file=(loop f).2.2.2) := by
  rw [flashFsTransfer]
  by_cases hbound : addr+size > cfg.flashSize
  · rw [if_pos hbound]
    exact ⟨_,rfl,rfl,releaseDevice_free cfg,Or.inl ⟨eio_ne,rfl,rfl⟩⟩
  · rw [if_neg hbound,acquireDevice,if_neg hfree.ne',Option.map_some]
    dsimp only
    have hkeeps := readWriteInit_keeps {cfg with sem := cfg.sem-1} fs.opens
    split
    · exact ⟨_,rfl,hkeeps.2,releaseDevice_free _,Or.inl ⟨eio_ne,rfl,hkeeps.1⟩⟩
    · split
      · rename_i hseek
        exact ⟨_,rfl,hkeeps.2,releaseDevice_free _,Or.inl ⟨hseek,rfl,hkeeps.1⟩⟩
      · rename_i hseek
        obtain ⟨hoff,hbytes,hpos⟩ := fsSeek_ok (not_not.mp hseek)
        refine ⟨_,rfl,hkeeps.2,releaseDevice_free _,
          Or.inr ⟨hbound,hoff,_,hbytes.trans hkeeps.1,?_,rfl,rfl,rfl,rfl⟩⟩
        rw [hpos]
        exact (toNat_toInt hoff).1

/-- After a call that returns. -/
theorem next_eq {c : Call} {out : Outcome} (h : call s.cfg c=some out) :
    next s c=⟨out.cfg,recorded s.array out c⟩ := by
  rw [next,h]

/-- A read changes nothing and returns the array when it succeeds. -/
theorem read_step (h : Mirrors s) (addr size : Word) (fs : FsAnswers) :
    Mirrors (next s (.read addr size fs)) ∧ StepRight s (.read addr size fs) := by
  obtain ⟨out,hcall,hsize,hfree,hcase⟩ := flashFsTransfer_cases h.free addr size fs fun f =>
    let done := readLoop fs.transfers f size.toNat 0
    (done.1,done.2.1,0,done.2.2)
  replace hcall : call s.cfg (.read addr size fs)=some out := hcall
  have hfile : out.cfg.file.bytes=s.cfg.file.bytes := by
    rcases hcase with ⟨-,-,hsame⟩ | ⟨-,-,f,hbytes,-,-,-,-,hafter⟩
    · exact hsame
    · rw [hafter,readLoop_file,hbytes]
  have hok : out.ret=0 → 0≤addr.toInt ∧
      out.bytes=(s.array.drop addr.toNat).take size.toNat ∧ out.bytes.length=size.toNat := by
    intro hret
    rcases hcase with ⟨hne,-,-⟩ | ⟨-,hoff,f,hbytes,hpos,hloop,hgot,-,-⟩
    · exact absurd hret hne
    · have hread := readLoop_ok (hloop.symm.trans hret)
      rw [hbytes,hpos,h.file] at hread
      rw [hgot]
      exact ⟨hoff,hread⟩
  rw [next_eq hcall]
  refine ⟨⟨hfile.trans h.file,h.size.trans (congrArg BitVec.toNat hsize.symm),hfree⟩,
    out,hcall,fun hout => ⟨fun hret => hout ?_,hfile⟩,fun hret => ?_⟩
  · obtain ⟨hoff,hbytes,hlen⟩ := hok hret
    rw [hbytes,List.length_take,List.length_drop,h.size] at hlen
    by_cases hzero : size=0
    · exact Or.inl hzero
    · have hpos : size.toNat≠0 := fun h0 => hzero (BitVec.eq_of_toNat_eq h0)
      exact Or.inr ⟨hoff,by change addr.toNat+size.toNat≤_; omega⟩
  · obtain ⟨-,hbytes,hlen⟩ := hok hret
    refine ⟨hlen,fun k hk => ?_⟩
    rw [hbytes,List.getElem?_take,if_pos hk,List.getElem?_drop]

/-- A write that passes the bound check without a carry is inside. -/
theorem inside_of_sum {flashSize : Word} {src : Chunk} (hoff : 0≤addr.toInt)
    (hbound : ¬addr+src.size > flashSize)
    (hwrap : ¬(0≤addr.toInt ∧ 2^32≤addr.toNat+src.bytes.length ∧
      addr.toNat+src.bytes.length-2^32≤flashSize.toNat)) :
    addr.toNat+src.bytes.length≤flashSize.toNat := by
  have hsize : src.size.toNat=src.bytes.length := Nat.mod_eq_of_lt src.length_lt
  have hsum : (addr+src.size).toNat≤flashSize.toNat := not_lt.mp hbound
  have hlow := (toNat_toInt hoff).2
  have hlt := src.length_lt
  rw [BitVec.toNat_add,hsize] at hsum
  rw [not_and,not_and] at hwrap
  have hno := hwrap hoff
  omega

/-- A harmless write stores what it transfers. -/
theorem write_step (h : Mirrors s) (addr : Word) (src : Chunk) (fs : FsAnswers)
    (hc : Harmless s (.write addr src fs)) :
    Mirrors (next s (.write addr src fs)) ∧ StepRight s (.write addr src fs) := by
  obtain ⟨out,hcall,hsize,hfree,hcase⟩ := flashFsTransfer_cases h.free addr src.size fs fun f =>
    let done := writeLoop fs.transfers f src.bytes 0
    (done.1,[],done.2.1,done.2.2)
  replace hcall : call s.cfg (.write addr src fs)=some out := hcall
  rw [next_eq hcall]
  rcases hcase with ⟨hne,hnone,hsame⟩ | ⟨hbound,hoff,f,hbytes,hpos,hloop,-,hput,hafter⟩
  · refine ⟨⟨?_,?_,hfree⟩,out,hcall,fun _ => ⟨hne,hsame⟩,fun hret => absurd hret hne⟩
    · rw [recorded,hnone,List.take_zero,store_nil,hsame,h.file]
    · rw [recorded,hnone,List.take_zero,store_nil,h.size,hsize]
  · have hin := inside_of_sum hoff hbound hc
    have hroom : f.pos+src.bytes.length≤f.bytes.length := by
      rw [hpos,hbytes,h.file,h.size]
      exact hin
    obtain ⟨hle,hstored,hall⟩ := @writeLoop_store fs.transfers f 0 src.bytes hroom
    dsimp only at hloop hput hafter
    rw [←hput] at hle hstored hall
    rw [←hafter,hbytes,hpos,h.file] at hstored
    have hfront : (src.bytes.take out.written).length=out.written := List.length_take_of_le hle
    have hstore : addr.toNat+(src.bytes.take out.written).length ≤ s.array.length := by
      rw [hfront,h.size]
      omega
    refine ⟨⟨hstored,?_,hfree⟩,out,hcall,fun hout => absurd ?_ hout,fun hret => ?_⟩
    · exact (store_length hstore).trans (h.size.trans (congrArg BitVec.toNat hsize.symm))
    · have hsize : src.size.toNat=src.bytes.length := Nat.mod_eq_of_lt src.length_lt
      exact Or.inr ⟨hoff,by change addr.toNat+src.size.toNat≤_; omega⟩
    · have hwhole : out.written=src.bytes.length := hall (hloop.symm.trans hret)
      refine ⟨hwhole,fun k hk => ?_,fun k hk => ?_⟩
      · rw [hstored,store_getElem? hstore,hfront,if_pos (by omega),Nat.add_sub_cancel_left,
          hwhole,List.take_length]
      · rw [hstored,store_getElem? hstore,h.file,hfront,if_neg (by omega)]

/-- A harmless erase changes nothing. -/
theorem erase_step (h : Mirrors s) (addr size : Word) (hc : Harmless s (.erase addr size)) :
    Mirrors (next s (.erase addr size)) ∧ StepRight s (.erase addr size) := by
  have hcall : call s.cfg (.erase addr size)=some ⟨0,[],0,s.cfg⟩ := rfl
  have hsame : store s.array addr.toNat (List.replicate size.toNat eraseValue)=s.array := by
    rcases hc.1 with hzero | ⟨-,hin⟩
    · rw [show size=0 from hzero]
      exact store_nil s.array addr.toNat
    · have hroom : addr.toNat+(List.replicate size.toNat eraseValue).length ≤ s.array.length := by
        rw [List.length_replicate,h.size]
        exact hin
      apply List.ext_getElem?
      intro k
      rw [store_getElem? hroom,List.length_replicate]
      split
      · rename_i hk
        have hblank := hc.2 (k-addr.toNat) (by omega)
        rw [Nat.add_sub_cancel' hk.1,h.file] at hblank
        rw [hblank,List.getElem?_replicate_of_lt (by omega)]
      · rfl
  rw [next_eq hcall,recorded,if_pos rfl,hsame]
  exact ⟨⟨h.file,h.size,h.free⟩,_,hcall,fun hout => absurd hc.1 hout,fun _ => trivial⟩

/-- A harmless call keeps the file and the array the same and does what it
should. -/
theorem harmless_step (h : Mirrors s) {c : Call} (hc : Harmless s c) :
    Mirrors (next s c) ∧ StepRight s c := by
  cases c with
  | read addr size fs => exact read_step h addr size fs
  | write addr src fs => exact write_step h addr src fs hc
  | erase addr size => exact erase_step h addr size hc

/-- In every run of harmless calls on a file of the size of the device every
call outside is refused without effect, an accepted read returns what was last
written or erased, and an accepted write stores all its bytes and changes its
range only. -/
theorem flash_runs {flashSize : Word} {bytes : List Byte} (hsize : bytes.length=flashSize.toNat)
    {cs : List Call} (hc : AlongRun next Harmless ⟨flashFsInit flashSize bytes,bytes⟩ cs) :
    AlongRun next StepRight ⟨flashFsInit flashSize bytes,bytes⟩ cs := by
  have hstep : ∀ s c,Mirrors s → Harmless s c → Mirrors (next s c) ∧ StepRight s c :=
    fun _ _ h hc => harmless_step h hc
  exact alongRun_of_invariant hstep ⟨rfl,hsize,Nat.one_pos⟩ hc

/-- A blank device of four bytes that is erased, read past its end, written with
one byte at a time and read back. -/
def sampleCalls : List Call :=
  [.erase 0 4,.read 2 4 ⟨0,0,fun _ => 1⟩,.write 1 ⟨[0x12,0x34],by decide⟩ ⟨0,0,fun _ => 1⟩,
    .read 0 4 ⟨0,0,fun _ => 3⟩]

/-- All is well on the blank device. -/
theorem flash_runs_sample :
    AlongRun next StepRight ⟨flashFsInit 4 [0xFF,0xFF,0xFF,0xFF],[0xFF,0xFF,0xFF,0xFF]⟩
      sampleCalls :=
  flash_runs rfl (by decide)

/-- The loop of a write whose first transfer moves one byte and whose second
fails. -/
theorem writeLoop_one {b c : Byte} {rest : List Byte} :
    writeLoop (fun i => if i=0 then 1 else -eio) ⟨[0,0,0,0],1⟩ (b::c::rest) 0=
      (-eio,1,⟨[0,b,0,0],2⟩) := by
  have hrest : writeLoop (fun i => if i=0 then 1 else -eio) ⟨[0,b,0,0],2⟩ (c::rest) 1=
      (-eio,0,⟨[0,b,0,0],2⟩) := by
    rw [writeLoop,if_neg (List.cons_ne_nil c rest)]
    rfl
  rw [writeLoop,if_neg (List.cons_ne_nil b _)]
  exact congrArg (fun r : ℤ×ℕ×BackingFile => (r.1,1+r.2.1,r.2.2)) hrest

/-- A write whose sum wraps around to zero changes the file. -/
theorem wrapped_write_fails {b c : Byte} {rest : List Byte} (hb : b≠0)
    (hlen : (b::c::rest).length=2^32-1) :
    ¬StepRight ⟨flashFsInit 4 [0,0,0,0],[0,0,0,0]⟩
      (.write 1 ⟨b::c::rest,by omega⟩ ⟨0,0,fun i => if i=0 then 1 else -eio⟩) := by
  have hsize : Chunk.size ⟨b::c::rest,by omega⟩=0xFFFFFFFF := by
    rw [Chunk.size,hlen]
    rfl
  rintro ⟨out,hcall,hrefused,-⟩
  have hwrite : call (flashFsInit 4 [0,0,0,0])
      (.write 1 ⟨b::c::rest,by omega⟩ ⟨0,0,fun i => if i=0 then 1 else -eio⟩)=
      some (let done := writeLoop (fun i => if i=0 then 1 else -eio) ⟨[0,0,0,0],1⟩ (b::c::rest) 0
        ⟨done.1,[],done.2.1,releaseDevice ⟨4,0,done.2.2,true⟩⟩) := by
    rw [call,flashFsWrite,hsize]
    rfl
  rw [writeLoop_one] at hwrite
  obtain rfl := Option.some.inj (hwrite.symm.trans hcall)
  have hnot : ¬Inside 4 (1,Chunk.size ⟨b::c::rest,by omega⟩) := by
    rw [hsize]
    decide
  have hsame : [0,b,0,0]=[(0 : Byte),0,0,0] := (hrefused hnot).2
  exact hb (List.cons.inj (List.cons.inj hsame).2).1

/-- An erase outside the device is not refused, erased bytes keep their value,
and a write whose sum wraps around changes the file. -/
theorem flash_fails :
    ¬AlongRun next StepRight ⟨flashFsInit 4 [0,0,0,0],[0,0,0,0]⟩ [.erase 8 1] ∧
      ¬AlongRun next StepRight ⟨flashFsInit 4 [0,0,0,0],[0,0,0,0]⟩
        [.erase 0 1,.read 0 1 ⟨0,0,fun _ => 1⟩] ∧
      ¬AlongRun next StepRight ⟨flashFsInit 4 [0,0,0,0],[0,0,0,0]⟩
        [.write 1 ⟨1::1::List.replicate (2^32-3) 1,
          by rw [List.length_cons,List.length_cons,List.length_replicate]; decide⟩
          ⟨0,0,fun i => if i=0 then 1 else -eio⟩] := by
  refine ⟨?_,?_,fun h => ?_⟩
  · rintro ⟨⟨out,hcall,hout,-⟩,-⟩
    obtain rfl := Option.some.inj hcall
    exact (hout (by decide)).1 rfl
  · rintro ⟨-,⟨out,hcall,-,hok⟩,-⟩
    have hloop : readLoop (fun _ => 1) ⟨[0,0,0,0],0⟩ 1 0=(0,[0],⟨[0,0,0,0],1⟩) := by
      rw [readLoop,if_neg Nat.one_ne_zero]
      exact congrArg (fun r : ℤ×List Byte×BackingFile => (r.1,[0]++r.2.1,r.2.2))
        (show readLoop (fun _ => 1) ⟨[0,0,0,0],1⟩ 0 1=(0,[],⟨[0,0,0,0],1⟩) by
          rw [readLoop,if_pos rfl])
    have hread : call (flashFsInit 4 [0,0,0,0]) (.read 0 1 ⟨0,0,fun _ => 1⟩)=
        some (let done := readLoop (fun _ => 1) ⟨[0,0,0,0],0⟩ 1 0
          ⟨done.1,done.2.1,0,releaseDevice ⟨4,0,done.2.2,true⟩⟩) := rfl
    rw [hloop] at hread
    obtain rfl := Option.some.inj (hread.symm.trans hcall)
    have hbyte : [(0 : Byte)][0]?=[(0xFF : Byte),0,0,0][0]? := (hok rfl).2 0 Nat.one_pos
    exact absurd hbyte (by decide)
  · refine wrapped_write_fails (by decide) ?_ h.1
    rw [List.length_cons,List.length_cons,List.length_replicate]
    rfl

end Runs

end ZephyrApp.FlashFs

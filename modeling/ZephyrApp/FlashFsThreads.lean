import ZephyrApp.FlashFs

/-!
# Threads at the flash in a file

Threads call the driver of the flash device in a file and take their steps in any
order. A step ends with an access that the others see: to the semaphore, to the
file, or to the mark that it is open. A request beyond the device goes to the label
where the semaphore is given, although it has not been taken.
-/

/-!
## A semaphore with one permit

The permit is with the semaphore or with exactly one thread. Whoever changes the
count and the holders in step keeps it so.
-/

namespace ZephyrApp.BinarySemaphore

variable {τ : Type*} {sem : ℕ} {holds holds' : τ → Prop} {t u : τ}

/-- The permit is free and no thread holds it, or one thread does and the count is
zero. -/
def Guards (sem : ℕ) (holds : τ → Prop) : Prop :=
  (sem=1 ∧ ∀ t,¬holds t) ∨ (sem=0 ∧ ∃ t,∀ u,holds u ↔ u=t)

/-- There is at most one permit. -/
theorem Guards.le_one (h : Guards sem holds) : sem≤1 := by
  rcases h with ⟨hone,-⟩ | ⟨hzero,-⟩
  · exact hone.le
  · omega

/-- At most one thread holds the permit. -/
theorem Guards.exclusive (h : Guards sem holds) (ht : holds t) (hu : holds u) : t=u := by
  rcases h with ⟨-,hfree⟩ | ⟨-,owner,howner⟩
  · exact absurd ht (hfree t)
  · exact ((howner t).mp ht).trans ((howner u).mp hu).symm

/-- While a thread holds the permit the count is zero. -/
theorem Guards.eq_zero (h : Guards sem holds) (ht : holds t) : sem=0 := by
  rcases h with ⟨-,hfree⟩ | ⟨hzero,-⟩
  · exact absurd ht (hfree t)
  · exact hzero

/-- With a permit to take no thread holds it. -/
theorem Guards.not_holds (h : Guards sem holds) (hsem : sem≠0) (t : τ) : ¬holds t :=
  fun ht => hsem (h.eq_zero ht)

/-- The same holders keep the permit. -/
theorem Guards.keep (h : Guards sem holds) (hsame : ∀ u,holds' u ↔ holds u) :
    Guards sem holds' := by
  have heq : holds'=holds := funext fun u => propext (hsame u)
  rw [heq]
  exact h

/-- A thread takes the permit. -/
theorem Guards.take (h : Guards sem holds) (hsem : sem≠0) (ht : holds' t)
    (hother : ∀ u≠t,holds' u ↔ holds u) : Guards (sem-1) holds' := by
  have hone : sem≤1 := h.le_one
  refine Or.inr ⟨by omega,t,fun u => ⟨fun hu => ?_,fun hu => hu ▸ ht⟩⟩
  by_contra hne
  exact h.not_holds hsem u ((hother u hne).mp hu)

/-- The thread that holds the permit gives it back. -/
theorem Guards.give (h : Guards sem holds) (ht : holds t) (ht' : ¬holds' t)
    (hother : ∀ u≠t,holds' u ↔ holds u) : Guards (sem+1) holds' := by
  have hzero : sem=0 := h.eq_zero ht
  refine Or.inl ⟨by omega,fun u hu => ?_⟩
  by_cases heq : u=t
  · exact ht' (heq ▸ hu)
  · exact heq (h.exclusive ((hother u heq).mp hu) ht)

end ZephyrApp.BinarySemaphore

namespace ZephyrApp.FlashFsThreads

open MachineBytes EventRuns FlashFs BinarySemaphore

variable {τ : Type*}

section Source

/-- What a request transfers. -/
inductive Transfer where
  /-- `flash_fs_read` of so many bytes. -/
  | read (size : Word)
  /-- `flash_fs_write` of these bytes. -/
  | write (src : Chunk)

/-- A request, with the answers of the file system during it. -/
structure Request where
  /-- `addr`. -/
  addr : Word
  /-- What it transfers. -/
  transfer : Transfer
  /-- What the file system answers. -/
  fs : FsAnswers

/-- `size`. -/
def Request.size (r : Request) : Word :=
  match r.transfer with
  | .read size => size
  | .write src => src.size

/-- The request as one call of the driver. -/
def Request.call (r : Request) : Call :=
  match r.transfer with
  | .read size => .read r.addr size r.fs
  | .write src => .write r.addr src r.fs

/-- Where a thread is in the driver. -/
inductive Place where
  /-- It is not in the driver. -/
  | outside
  /-- Before `acquire_device`. -/
  | acquiring (r : Request)
  /-- Before `read_write_init`. -/
  | opening (r : Request)
  /-- Before `fs_seek`. -/
  | seeking (r : Request)
  /-- In the loop: the transfers made, the bytes read and how far `write_pos` came. -/
  | copying (r : Request) (i : ℕ) (bytes : List Byte) (written : ℕ)
  /-- Before `release_device`, with what the call returns. -/
  | releasing (r : Request) (ret : ℤ) (bytes : List Byte) (written : ℕ)

/-- A thread, with how often it has taken and given the semaphore. -/
structure Thread where
  /-- Where it is. -/
  place : Place
  /-- Calls of `k_sem_take` that returned. -/
  takes : ℕ
  /-- Calls of `k_sem_give`. -/
  gives : ℕ

/-- The device with the threads that use it. -/
structure System (τ : Type*) where
  /-- The device. -/
  cfg : FlashfsConfig
  /-- The threads. -/
  thread : τ → Thread

/-- The device after `flash_fs_init`, and no thread in the driver. -/
def System.start (flashSize : Word) (bytes : List Byte) : System τ :=
  ⟨flashFsInit flashSize bytes,fun _ => ⟨.outside,0,0⟩⟩

/-- The range check of `flash_fs_read` and `flash_fs_write`. -/
def OutOfRange (flashSize : Word) (r : Request) : Prop := r.addr+r.size > flashSize

instance (flashSize : Word) (r : Request) : Decidable (OutOfRange flashSize r) :=
  inferInstanceAs (Decidable (_ > _))

/-- A thread enters the driver: the range check, and for a request that it refuses
the label at the end. -/
def enter (cfg : FlashfsConfig) (t : Thread) (r : Request) : FlashfsConfig×Thread :=
  if OutOfRange cfg.flashSize r then (releaseDevice cfg,{t with gives := t.gives+1})
  else (cfg,{t with place := .acquiring r})

/-- One pass of the loop. -/
def copy (cfg : FlashfsConfig) (r : Request) (i : ℕ) (bytes : List Byte) (written : ℕ) :
    FlashfsConfig×Place :=
  match r.transfer with
  | .read size =>
    if size.toNat-bytes.length=0 then (cfg,.releasing r 0 bytes written)
    else
      match fsRead cfg.file (size.toNat-bytes.length) (r.fs.transfers i) with
      | (ret,got,file) =>
        if ret < 0 then ({cfg with file := file},.releasing r (-eio) bytes written)
        else if ret=0 then ({cfg with file := file},.releasing r (-eio) bytes written)
        else ({cfg with file := file},.copying r (i+1) (bytes++got) written)
  | .write src =>
    if src.bytes.drop written=[] then (cfg,.releasing r 0 bytes written)
    else
      match fsWrite cfg.file (src.bytes.drop written) (r.fs.transfers i) with
      | (ret,file) =>
        if ret < 0 then ({cfg with file := file},.releasing r ret bytes written)
        else if ret=0 then ({cfg with file := file},.releasing r (-eio) bytes written)
        else ({cfg with file := file},.copying r (i+1) bytes (written+ret.toNat))

/-- A thread in the driver goes on. -/
def advance (cfg : FlashfsConfig) (t : Thread) : FlashfsConfig×Thread :=
  match t.place with
  | .outside => (cfg,t)
  | .acquiring r =>
    match acquireDevice cfg with
    | none => (cfg,t)
    | some cfg => (cfg,{t with place := .opening r,takes := t.takes+1})
  | .opening r =>
    let opened := readWriteInit cfg r.fs.opens
    (opened.2,{t with
      place := if opened.1≠0 then .releasing r (-eio) [] 0 else .seeking r})
  | .seeking r =>
    let sought := fsSeek cfg.file r.addr.toInt r.fs.seeks
    ({cfg with file := sought.2},{t with
      place := if sought.1≠0 then .releasing r sought.1 [] 0 else .copying r 0 [] 0})
  | .copying r i bytes written =>
    let pass := copy cfg r i bytes written
    (pass.1,{t with place := pass.2})
  | .releasing _ _ _ _ => (releaseDevice cfg,{t with place := .outside,gives := t.gives+1})

/-- What happens. -/
inductive Event (τ : Type*) where
  /-- A thread makes a request. -/
  | call (t : τ) (r : Request)
  /-- A thread goes on. -/
  | run (t : τ)

variable [DecidableEq τ]

/-- One thread and the device after a step of the thread. -/
def System.put (s : System τ) (t : τ) (out : FlashfsConfig×Thread) : System τ :=
  ⟨out.1,Function.update s.thread t out.2⟩

/-- One step; a thread that is in the driver makes no request. -/
def step (s : System τ) : Event τ → System τ
  | .call t r =>
    match (s.thread t).place with
    | .outside => s.put t (enter s.cfg (s.thread t) r)
    | _ => s
  | .run t => s.put t (advance s.cfg (s.thread t))

end Source

section Balance

/-- The thread has taken the semaphore and not given it yet. -/
def Place.holds : Place → Bool
  | .outside | .acquiring _ => false
  | .opening _ | .seeking _ | .copying _ _ _ _ | .releasing _ _ _ _ => true

/-- The thread works on the file and its position. -/
def Place.usesFile : Place → Bool
  | .opening _ | .seeking _ | .copying _ _ _ _ => true
  | .outside | .acquiring _ | .releasing _ _ _ _ => false

/-- Whoever works on the file has not given the semaphore. -/
theorem holds_of_usesFile {p : Place} (h : p.usesFile=true) : p.holds=true := by
  cases p with
  | outside | acquiring _ | releasing _ _ _ _ => nomatch h
  | opening _ | seeking _ | copying _ _ _ _ => rfl

/-- Every call that is over has given the semaphore as often as it took it, the count
is at most one, and no two threads work on the file. -/
structure Orderly (s : System τ) : Prop where
  /-- Outside the driver a thread has given what it took. -/
  balanced : ∀ t,(s.thread t).place=.outside → (s.thread t).gives=(s.thread t).takes
  /-- At most one permit. -/
  count : s.cfg.sem≤1
  /-- At most one thread at the file. -/
  exclusive : ∀ t u,(s.thread t).place.usesFile=true → (s.thread u).place.usesFile=true → t=u

/-- A request that is made passes the range check. -/
def InRange (s : System τ) : Event τ → Prop
  | .call t r => (s.thread t).place=.outside → ¬OutOfRange s.cfg.flashSize r
  | .run _ => True

/-- The permit is with the semaphore or with one thread, and the ledgers say so. -/
structure Kept (s : System τ) : Prop where
  /-- One permit. -/
  guards : Guards s.cfg.sem fun t => (s.thread t).place.holds=true
  /-- What a thread has taken and not given it holds. -/
  ledger : ∀ t,(s.thread t).takes=(s.thread t).gives+(s.thread t).place.holds.toNat

/-- What a thread does to the semaphore in a step. -/
inductive LockMove (cfg : FlashfsConfig) (t : Thread) : FlashfsConfig×Thread → Prop
  /-- Nothing. -/
  | quiet {out : FlashfsConfig×Thread} (sem : out.1.sem=cfg.sem) (takes : out.2.takes=t.takes)
      (gives : out.2.gives=t.gives) (holds : out.2.place.holds=t.place.holds) : LockMove cfg t out
  /-- It takes the semaphore. -/
  | take {out : FlashfsConfig×Thread} (free : cfg.sem≠0) (before : t.place.holds=false)
      (sem : out.1.sem=cfg.sem-1) (takes : out.2.takes=t.takes+1) (gives : out.2.gives=t.gives)
      (holds : out.2.place.holds=true) : LockMove cfg t out
  /-- It gives the semaphore. -/
  | give {out : FlashfsConfig×Thread} (before : t.place.holds=true)
      (sem : out.1=releaseDevice cfg) (takes : out.2.takes=t.takes) (gives : out.2.gives=t.gives+1)
      (holds : out.2.place.holds=false) : LockMove cfg t out

/-- Opening the file leaves the semaphore alone. -/
theorem readWriteInit_sem (cfg : FlashfsConfig) (answer : ℤ) :
    (readWriteInit cfg answer).2.sem=cfg.sem := by
  rw [readWriteInit]
  split
  · rfl
  · split <;> rfl

/-- A pass of the loop leaves the semaphore and the size alone, and the thread keeps
the semaphore. -/
theorem copy_keeps (cfg : FlashfsConfig) (r : Request) (i : ℕ) (bytes : List Byte)
    (written : ℕ) :
    (copy cfg r i bytes written).1.sem=cfg.sem ∧
      (copy cfg r i bytes written).1.flashSize=cfg.flashSize ∧
      (copy cfg r i bytes written).2.holds=true := by
  rw [copy]
  split
  · split
    · exact ⟨rfl,rfl,rfl⟩
    · dsimp only
      split
      · exact ⟨rfl,rfl,rfl⟩
      · split <;> exact ⟨rfl,rfl,rfl⟩
  · split
    · exact ⟨rfl,rfl,rfl⟩
    · dsimp only
      split
      · exact ⟨rfl,rfl,rfl⟩
      · split <;> exact ⟨rfl,rfl,rfl⟩

/-- A thread in the driver takes the semaphore if it is free, gives it at the end, and
leaves it alone in between. -/
theorem advance_move (cfg : FlashfsConfig) (t : Thread) : LockMove cfg t (advance cfg t) := by
  obtain ⟨place,takes,gives⟩ := t
  cases place with
  | outside => exact .quiet rfl rfl rfl rfl
  | acquiring r =>
    rw [advance,acquireDevice]
    by_cases hfree : cfg.sem=0
    · rw [if_pos hfree]
      exact .quiet rfl rfl rfl rfl
    · rw [if_neg hfree]
      exact .take hfree rfl rfl rfl rfl rfl
  | opening r =>
    refine .quiet (readWriteInit_sem cfg r.fs.opens) rfl rfl ?_
    dsimp only [advance]
    split <;> rfl
  | seeking r =>
    refine .quiet rfl rfl rfl ?_
    dsimp only [advance]
    split <;> rfl
  | copying r i bytes written =>
    obtain ⟨hsem,-,hholds⟩ := copy_keeps cfg r i bytes written
    exact .quiet hsem rfl rfl hholds
  | releasing r ret bytes written => exact .give rfl rfl rfl rfl rfl

variable {s : System τ} {e : Event τ}

/-- Where the permit is with the semaphore or with one thread, all is in order. -/
theorem orderly_of_kept (h : Kept s) : Orderly s := by
  refine ⟨fun t hplace => ?_,h.guards.le_one,fun t u ht hu => ?_⟩
  · have hledger := h.ledger t
    rw [hplace] at hledger
    exact hledger.symm
  · exact h.guards.exclusive (holds_of_usesFile ht) (holds_of_usesFile hu)

/-- At the start the permit is with the semaphore. -/
theorem kept_start (flashSize : Word) (bytes : List Byte) :
    Kept (System.start flashSize bytes : System τ) :=
  ⟨Or.inl ⟨rfl,fun _ => Bool.false_ne_true⟩,fun _ => rfl⟩

variable [DecidableEq τ]

/-- The thread that took the step. -/
theorem put_self (t : τ) (out : FlashfsConfig×Thread) : (s.put t out).thread t=out.2 :=
  Function.update_self t _ _

/-- The other threads stay where they are. -/
theorem put_other {t u : τ} (out : FlashfsConfig×Thread) (hne : u≠t) :
    (s.put t out).thread u=s.thread u := Function.update_of_ne hne _ _

/-- What holds of the thread that took the step and of the others where they were holds
of all. -/
theorem forall_put {P : τ → Thread → Prop} {t : τ} {out : FlashfsConfig×Thread}
    (hself : P t out.2) (hother : ∀ u≠t,P u (s.thread u)) (u : τ) :
    P u ((s.put t out).thread u) := by
  by_cases heq : u=t
  · rw [heq,put_self]
    exact hself
  · rw [put_other out heq]
    exact hother u heq

/-- A step that changes nothing. -/
theorem put_same (t : τ) : s.put t (s.cfg,s.thread t)=s :=
  congrArg (System.mk s.cfg) (Function.update_eq_self t s.thread)

/-- The permit stays with the semaphore or with one thread whatever a thread does to
it. -/
theorem kept_move (h : Kept s) (t : τ) {out : FlashfsConfig×Thread}
    (hmove : LockMove s.cfg (s.thread t) out) : Kept (s.put t out) := by
  have hothers : ∀ u≠t,((s.put t out).thread u).place.holds=true ↔
      (s.thread u).place.holds=true := by
    intro u hne
    rw [put_other out hne]
  have hledger : out.2.takes=out.2.gives+out.2.place.holds.toNat →
      ∀ u,((s.put t out).thread u).takes=
        ((s.put t out).thread u).gives+((s.put t out).thread u).place.holds.toNat :=
    fun hthread => forall_put (P := fun _ x => x.takes=x.gives+x.place.holds.toNat) hthread
      fun u _ => h.ledger u
  have hbefore := h.ledger t
  cases hmove with
  | quiet sem takes gives holds =>
    refine ⟨?_,hledger ?_⟩
    · have hguards : Guards s.cfg.sem fun u => ((s.put t out).thread u).place.holds=true := by
        refine h.guards.keep (forall_put (P := fun u x => x.place.holds=true ↔
          (s.thread u).place.holds=true) ?_ fun _ _ => Iff.rfl)
        rw [holds]
      exact sem ▸ hguards
    · rw [takes,gives,holds]
      exact hbefore
  | take free before sem takes gives holds =>
    refine ⟨?_,hledger ?_⟩
    · have hguards : Guards (s.cfg.sem-1) fun u => ((s.put t out).thread u).place.holds=true :=
        h.guards.take free (by rw [put_self]; exact holds) hothers
      exact sem ▸ hguards
    · rw [takes,gives,holds,hbefore,before]
      rfl
  | give before sem takes gives holds =>
    have hzero : s.cfg.sem=0 := h.guards.eq_zero before
    have hgiven : out.1.sem=s.cfg.sem+1 := by
      rw [sem,releaseDevice,hzero]
      rfl
    refine ⟨?_,hledger ?_⟩
    · have hguards : Guards (s.cfg.sem+1) fun u => ((s.put t out).thread u).place.holds=true :=
        h.guards.give before (by rw [put_self,holds]; exact Bool.false_ne_true) hothers
      exact hgiven ▸ hguards
    · rw [takes,gives,holds,hbefore,before]
      rfl

/-- A step whose request passes the range check keeps the permit where it belongs. -/
theorem kept_step (h : Kept s) (hrange : InRange s e) : Kept (step s e) := by
  cases e with
  | call t r =>
    rw [step]
    split
    · rename_i hplace
      have hmove : LockMove s.cfg (s.thread t) (enter s.cfg (s.thread t) r) := by
        rw [enter,if_neg (hrange hplace)]
        refine .quiet rfl rfl rfl ?_
        rw [hplace]
        rfl
      exact kept_move h t hmove
    · exact h
  | run t => exact kept_move h t (advance_move s.cfg (s.thread t))

/-- A request beyond the device gives the semaphore once too often. -/
theorem not_orderly_of_outOfRange (h : Kept s) (hrange : ¬InRange s e) :
    ¬Orderly (step s e) := by
  cases e with
  | run t => exact absurd trivial hrange
  | call t r =>
    rw [InRange,Classical.not_imp,not_not] at hrange
    obtain ⟨hplace,hout⟩ := hrange
    intro horderly
    have hstep : (step s (.call t r)).thread t={s.thread t with gives := (s.thread t).gives+1} := by
      rw [step,hplace]
      dsimp only
      rw [put_self,enter,if_pos hout]
    have hbalanced := horderly.balanced t
    have hledger := h.ledger t
    rw [hstep] at hbalanced
    rw [hplace] at hledger
    have hgives : (s.thread t).gives+1=(s.thread t).takes := hbalanced hplace
    have htakes : (s.thread t).takes=(s.thread t).gives := hledger
    omega

/-- The lock is balanced throughout a run exactly if every request that a thread makes
passes the range check. -/
theorem orderly_throughout_iff (flashSize : Word) (bytes : List Byte) (es : List (Event τ)) :
    Throughout step Orderly (System.start flashSize bytes) es ↔
      AlongRun step InRange (System.start flashSize bytes) es := by
  have hgives : ∀ s : System τ,Kept s → Orderly s := fun _ => orderly_of_kept
  exact throughout_iff_of_invariant (fun _ _ => kept_step) hgives
    (fun _ _ => not_orderly_of_outOfRange) (kept_start flashSize bytes) es

/-- The file system gives what it is asked for. -/
def fullAnswers : FsAnswers := ⟨0,0,fun _ => 4⟩

/-- A read of four bytes. -/
def readFour (addr : Word) : Request := ⟨addr,.read 4,fullAnswers⟩

/-- A read just beyond a device of eight bytes is refused; then two threads read at the
same time. -/
def refusedThenTwo : List (Event Bool) :=
  [.call false (readFour 8),.call false (readFour 0),.call true (readFour 4),
    .run false,.run false,.run true,.run true,.run false,.run true]

/-- After a refused request the count is two, and two threads are in the loop with the
position that the second one set. -/
theorem refused_request_lets_two_in :
    ¬Throughout step Orderly (System.start 8 (List.replicate 8 0) : System Bool) refusedThenTwo ∧
      (finalState step (System.start 8 (List.replicate 8 0)) (refusedThenTwo.take 1)).cfg.sem=2 ∧
      ((finalState step (System.start 8 (List.replicate 8 0)) refusedThenTwo).thread
        false).place.usesFile=true ∧
      ((finalState step (System.start 8 (List.replicate 8 0)) refusedThenTwo).thread
        true).place.usesFile=true := by
  have hfalse : ((finalState step (System.start 8 (List.replicate 8 0)) refusedThenTwo).thread
      false).place.usesFile=true := by
    decide
  have htrue : ((finalState step (System.start 8 (List.replicate 8 0)) refusedThenTwo).thread
      true).place.usesFile=true := by
    decide
  refine ⟨fun horderly => ?_,by decide,hfalse,htrue⟩
  exact absurd (horderly.last.exclusive false true hfalse htrue) Bool.false_ne_true

end Balance

section Serial

/-- What a call still does in its loop. -/
def loopRest (cfg : FlashfsConfig) (r : Request) (i : ℕ) (bytes : List Byte) (written : ℕ) :
    Outcome :=
  match r.transfer with
  | .read size =>
    let done := readLoop r.fs.transfers cfg.file (size.toNat-bytes.length) i
    ⟨done.1,bytes++done.2.1,written,releaseDevice {cfg with file := done.2.2}⟩
  | .write src =>
    let done := writeLoop r.fs.transfers cfg.file (src.bytes.drop written) i
    ⟨done.1,bytes,written+done.2.1,releaseDevice {cfg with file := done.2.2}⟩

/-- What a call still does before it sets the position. -/
def seekRest (cfg : FlashfsConfig) (r : Request) : Outcome :=
  let sought := fsSeek cfg.file r.addr.toInt r.fs.seeks
  if sought.1≠0 then ⟨sought.1,[],0,releaseDevice cfg⟩
  else loopRest {cfg with file := sought.2} r 0 [] 0

/-- What a call still does before it opens the file. -/
def openRest (cfg : FlashfsConfig) (r : Request) : Outcome :=
  let opened := readWriteInit cfg r.fs.opens
  if opened.1≠0 then ⟨-eio,[],0,releaseDevice opened.2⟩ else seekRest opened.2 r

/-- What a thread that holds the semaphore leaves when nobody disturbs it. -/
def Place.rest (cfg : FlashfsConfig) : Place → Option (Request×Outcome)
  | .outside | .acquiring _ => none
  | .opening r => some (r,openRest cfg r)
  | .seeking r => some (r,seekRest cfg r)
  | .copying r i bytes written => some (r,loopRest cfg r i bytes written)
  | .releasing r ret bytes written => some (r,⟨ret,bytes,written,releaseDevice cfg⟩)

/-- A call that passes the range check is what its steps do. -/
theorem call_eq {cfg : FlashfsConfig} {r : Request} (hrange : ¬OutOfRange cfg.flashSize r) :
    call cfg r.call=(acquireDevice cfg).map fun cfg => openRest cfg r := by
  obtain ⟨addr,transfer,fs⟩ := r
  cases transfer with
  | read size =>
    have hbound : ¬addr+size > cfg.flashSize := hrange
    rw [Request.call,call,flashFsRead,flashFsTransfer,if_neg hbound]
    rfl
  | write src =>
    have hbound : ¬addr+src.size > cfg.flashSize := hrange
    have hloop : ∀ cfg,loopRest cfg ⟨addr,.write src,fs⟩ 0 [] 0=
        ⟨(writeLoop fs.transfers cfg.file src.bytes 0).1,[],
          (writeLoop fs.transfers cfg.file src.bytes 0).2.1,
          releaseDevice {cfg with file := (writeLoop fs.transfers cfg.file src.bytes 0).2.2}⟩ := by
      intro cfg
      dsimp only [loopRest]
      rw [Nat.zero_add,List.drop_zero]
    rw [Request.call,call,flashFsWrite,flashFsTransfer,if_neg hbound]
    dsimp only [openRest,seekRest]
    simp only [hloop]

/-- A pass of the loop does its part of what is left. -/
theorem copy_rest (cfg : FlashfsConfig) (r : Request) (i : ℕ) (bytes : List Byte)
    (written : ℕ) :
    (copy cfg r i bytes written).2.rest (copy cfg r i bytes written).1=
      some (r,loopRest cfg r i bytes written) := by
  obtain ⟨addr,transfer,fs⟩ := r
  cases transfer with
  | read size =>
    dsimp only [copy,loopRest]
    rw [readLoop]
    split
    · rw [List.append_nil]
      rfl
    · have hlen : ¬(fsRead cfg.file (size.toNat-bytes.length) (fs.transfers i)).1 < 0 →
          (fsRead cfg.file (size.toNat-bytes.length) (fs.transfers i)).2.1.length=
            (fsRead cfg.file (size.toNat-bytes.length) (fs.transfers i)).1.toNat := by
        intro hpos
        obtain ⟨n,-,hret,-,hgot,-⟩ := fsRead_got hpos
        rw [hgot,hret]
        rfl
      generalize fsRead cfg.file (size.toNat-bytes.length) (fs.transfers i)=answer at hlen ⊢
      obtain ⟨ret,got,file⟩ := answer
      dsimp only at hlen ⊢
      split
      · rw [List.append_nil]
        rfl
      · rename_i hpos
        split
        · rw [List.append_nil]
          rfl
        · have hleft : size.toNat-(bytes++got).length=size.toNat-bytes.length-ret.toNat := by
            rw [List.length_append,hlen hpos,Nat.sub_sub]
          dsimp only [Place.rest,loopRest]
          rw [hleft,List.append_assoc]
  | write src =>
    dsimp only [copy,loopRest]
    rw [writeLoop]
    split
    · rfl
    · obtain ⟨ret,file⟩ := fsWrite cfg.file (src.bytes.drop written) (fs.transfers i)
      dsimp only
      split
      · rfl
      · split
        · rfl
        · dsimp only [Place.rest,loopRest]
          rw [List.drop_drop,Nat.add_assoc]

/-- A seek that fails leaves the position. -/
theorem fsSeek_failed {f : BackingFile} {off answer : ℤ} (h : (fsSeek f off answer).1≠0) :
    (fsSeek f off answer).2=f := by
  rw [fsSeek] at h ⊢
  split
  · rfl
  · rename_i hoff
    rw [if_neg hoff] at h
    split
    · rfl
    · rename_i hanswer
      rw [if_neg hanswer] at h
      exact absurd rfl h

/-- A thread that holds the semaphore and goes on does its part of what is left. -/
theorem advance_rest {cfg : FlashfsConfig} {t : Thread} {r : Request} {out : Outcome}
    (h : t.place.rest cfg=some (r,out)) :
    (advance cfg t).2.place.rest (advance cfg t).1=some (r,out) ∨
      ((advance cfg t).2.place=.outside ∧ (advance cfg t).1=out.cfg ∧
        ∃ ret bytes written,t.place=.releasing r ret bytes written) := by
  obtain ⟨place,takes,gives⟩ := t
  cases place with
  | outside | acquiring _ => nomatch h
  | opening r' =>
    refine Or.inl (Eq.trans ?_ h)
    dsimp only [advance,Place.rest,openRest]
    by_cases hopened : (readWriteInit cfg r'.fs.opens).1≠0
    · rw [if_pos hopened,if_pos hopened]
    · rw [if_neg hopened,if_neg hopened]
  | seeking r' =>
    refine Or.inl (Eq.trans ?_ h)
    dsimp only [advance,Place.rest,seekRest]
    by_cases hsought : (fsSeek cfg.file r'.addr.toInt r'.fs.seeks).1≠0
    · rw [if_pos hsought,if_pos hsought,fsSeek_failed hsought]
    · rw [if_neg hsought,if_neg hsought]
  | copying r' i bytes written =>
    exact Or.inl ((copy_rest cfg r' i bytes written).trans h)
  | releasing r' ret bytes written =>
    obtain ⟨rfl,rfl⟩ := Prod.mk.inj (Option.some.inj h)
    exact Or.inr ⟨rfl,rfl,ret,bytes,written,rfl⟩

/-- The size of the device does not change. -/
theorem advance_flashSize (cfg : FlashfsConfig) (t : Thread) :
    (advance cfg t).1.flashSize=cfg.flashSize := by
  obtain ⟨place,takes,gives⟩ := t
  cases place with
  | outside => rfl
  | acquiring r =>
    rw [advance,acquireDevice]
    by_cases hfree : cfg.sem=0
    · rw [if_pos hfree]
    · rw [if_neg hfree]
  | opening r => exact (readWriteInit_keeps cfg r.fs.opens).2
  | seeking r => rfl
  | copying r i bytes written => exact (copy_keeps cfg r i bytes written).2.1
  | releasing r ret bytes written => rfl

/-- Whoever holds the semaphore has something left to do. -/
theorem exists_rest {p : Place} (cfg : FlashfsConfig) (h : p.holds=true) :
    ∃ r out,p.rest cfg=some (r,out) := by
  cases p with
  | outside | acquiring _ => nomatch h
  | opening _ | seeking _ | copying _ _ _ _ | releasing _ _ _ _ => exact ⟨_,_,rfl⟩

/-- Whoever has something left to do holds the semaphore. -/
theorem holds_of_rest {p : Place} {cfg : FlashfsConfig} {r : Request} {out : Outcome}
    (h : p.rest cfg=some (r,out)) : p.holds=true := by
  cases p with
  | outside | acquiring _ => nomatch h
  | opening _ | seeking _ | copying _ _ _ _ | releasing _ _ _ _ => rfl

/-- The call that a step ends, with what it leaves. -/
def finished (s : System τ) : Event τ → Option (Request×Outcome)
  | .call t r =>
    match (s.thread t).place with
    | .outside =>
      if OutOfRange s.cfg.flashSize r then some (r,⟨-eio,[],0,releaseDevice s.cfg⟩) else none
    | _ => none
  | .run t =>
    match (s.thread t).place with
    | .releasing r ret bytes written => some (r,⟨ret,bytes,written,releaseDevice s.cfg⟩)
    | _ => none

/-- Calls one after the other, each from where the one before left the device. -/
def OneByOne : FlashfsConfig → List (Request×Outcome) → Prop
  | _,[] => True
  | cfg,(r,out)::rest => call cfg r.call=some out ∧ OneByOne out.cfg rest

/-- The device is where the last call left it, or a thread is doing the next call from
there. -/
structure Serial (base : FlashfsConfig) (s : System τ) : Prop where
  /-- One permit. -/
  kept : Kept s
  /-- The size does not change. -/
  size : s.cfg.flashSize=base.flashSize
  /-- A thread that waits has passed the range check. -/
  pending : ∀ t r,(s.thread t).place=.acquiring r → ¬OutOfRange base.flashSize r
  /-- With no call under way the device is where the last one left it. -/
  free : (∀ t,(s.thread t).place.holds=false) → s.cfg=base
  /-- The thread that holds the semaphore does what its call does from there. -/
  held : ∀ t r out,(s.thread t).place.rest s.cfg=some (r,out) → call base r.call=some out

/-- At the start the device is as its initialisation left it. -/
theorem serial_start (flashSize : Word) (bytes : List Byte) :
    Serial (flashFsInit flashSize bytes) (System.start flashSize bytes : System τ) where
  kept := kept_start flashSize bytes
  size := rfl
  pending := fun _ _ hplace => nomatch hplace
  free := fun _ => rfl
  held := fun _ _ _ hrest => nomatch hrest

variable {base : FlashfsConfig} {s : System τ} {e : Event τ} [DecidableEq τ]

/-- A thread goes on with the only call under way. -/
theorem serial_put (h : Serial base s) {t : τ} {out : FlashfsConfig×Thread}
    (hother : ∀ u≠t,(s.thread u).place.holds=false) (hkept : Kept (s.put t out))
    (hsize : out.1.flashSize=s.cfg.flashSize) {r : Request} {left : Outcome}
    (hrest : out.2.place.rest out.1=some (r,left)) (hcall : call base r.call=some left) :
    Serial base (s.put t out) := by
  refine ⟨hkept,hsize.trans h.size,
    forall_put (P := fun _ x => ∀ r,x.place=.acquiring r → ¬OutOfRange base.flashSize r)
      (fun r' hplace => ?_) fun u _ => h.pending u,fun hfree => ?_,
    forall_put (P := fun _ x => ∀ r left,x.place.rest out.1=some (r,left) →
      call base r.call=some left) (fun r' left' hleft => ?_) fun u hne r' left' hleft => ?_⟩
  · rw [hplace] at hrest
    nomatch hrest
  · have hnot := hfree t
    rw [put_self,holds_of_rest hrest] at hnot
    nomatch hnot
  · obtain ⟨rfl,rfl⟩ := Prod.mk.inj (Option.some.inj (hrest.symm.trans hleft))
    exact hcall
  · exact absurd (holds_of_rest hleft) (Bool.eq_false_iff.mp (hother u hne))

/-- A request that passes the range check ends no call. -/
theorem serial_call (h : Serial base s) (t : τ) (r : Request) (hrange : InRange s (.call t r)) :
    finished s (.call t r)=none ∧ Serial base (step s (.call t r)) := by
  have hkept := kept_step h.kept hrange
  by_cases hplace : (s.thread t).place=.outside
  · have hin : ¬OutOfRange s.cfg.flashSize r := hrange hplace
    have hstep : step s (.call t r)=s.put t (s.cfg,{s.thread t with place := .acquiring r}) := by
      rw [step,hplace]
      dsimp only
      rw [enter,if_neg hin]
    rw [hstep] at hkept ⊢
    refine ⟨?_,hkept,h.size,
      forall_put (P := fun _ x => ∀ r,x.place=.acquiring r → ¬OutOfRange base.flashSize r)
        (fun r' hacquiring => ?_) fun u _ => h.pending u,fun hfree => h.free fun u => ?_,
      forall_put (P := fun _ x => ∀ r left,x.place.rest s.cfg=some (r,left) →
        call base r.call=some left) (fun r' left hleft => nomatch hleft) fun u _ => h.held u⟩
    · rw [finished,hplace]
      dsimp only
      rw [if_neg hin]
    · obtain rfl := Place.acquiring.inj hacquiring
      exact h.size ▸ hin
    · by_cases heq : u=t
      · rw [heq,hplace]
        rfl
      · have hnot := hfree u
        rw [put_other _ heq] at hnot
        exact hnot
  · have hstep : step s (.call t r)=s := by
      rw [step]
      split
      · rename_i houtside
        exact absurd houtside hplace
      · rfl
    refine ⟨?_,by rw [hstep]; exact h⟩
    rw [finished]
    split
    · rename_i houtside
      exact absurd houtside hplace
    · rfl

/-- A thread that takes the semaphore starts its call where the last one left the
device. -/
theorem serial_take (h : Serial base s) {t : τ} {r : Request} (hfree : s.cfg.sem≠0)
    (hplace : (s.thread t).place=.acquiring r) : Serial base (step s (.run t)) := by
  have hnone : ∀ u,(s.thread u).place.holds=false := fun u =>
    Bool.eq_false_iff.mpr (h.kept.guards.not_holds hfree u)
  have hbase : s.cfg=base := h.free hnone
  have hcall : call base r.call=some (openRest {s.cfg with sem := s.cfg.sem-1} r) := by
    rw [call_eq (h.pending t r hplace),←hbase,acquireDevice,if_neg hfree,Option.map_some]
  have hadvance : advance s.cfg (s.thread t)=({s.cfg with sem := s.cfg.sem-1},
      {s.thread t with place := .opening r,takes := (s.thread t).takes+1}) := by
    rw [advance,hplace]
    dsimp only
    rw [acquireDevice,if_neg hfree]
  have hrest : (advance s.cfg (s.thread t)).2.place.rest (advance s.cfg (s.thread t)).1=
      some (r,openRest {s.cfg with sem := s.cfg.sem-1} r) := by
    rw [hadvance]
    rfl
  exact serial_put h (fun u _ => hnone u) (kept_step (e := .run t) h.kept trivial)
    (advance_flashSize s.cfg (s.thread t)) hrest hcall

/-- A thread that holds the semaphore goes on with its call or ends it. -/
theorem serial_hold (h : Serial base s) {t : τ} (hholds : (s.thread t).place.holds=true) :
    (finished s (.run t)=none ∧ Serial base (step s (.run t))) ∨
      ∃ r out,finished s (.run t)=some (r,out) ∧ call base r.call=some out ∧
        Serial out.cfg (step s (.run t)) := by
  have hkept : Kept (step s (.run t)) := kept_step h.kept trivial
  have hother : ∀ u≠t,(s.thread u).place.holds=false := fun u hne =>
    Bool.eq_false_iff.mpr fun hu => hne (h.kept.guards.exclusive hu hholds)
  obtain ⟨r,out,hrest⟩ := exists_rest s.cfg hholds
  have hcall := h.held t r out hrest
  have hsize := advance_flashSize s.cfg (s.thread t)
  rcases advance_rest hrest with hgoes | ⟨houtside,hcfg,ret,bytes,written,hplace⟩
  · refine Or.inl ⟨?_,serial_put h hother hkept hsize hgoes hcall⟩
    rw [finished]
    split
    · rename_i hplace
      rw [advance,hplace] at hgoes
      nomatch hgoes
    · rfl
  · have hbase : out.cfg.flashSize=base.flashSize := by
      rw [←hcfg,hsize,h.size]
    refine Or.inr ⟨r,out,?_,hcall,hkept,congrArg FlashfsConfig.flashSize hcfg,
      forall_put (P := fun _ x => ∀ r,x.place=.acquiring r → ¬OutOfRange out.cfg.flashSize r)
        (fun r' hacquiring => ?_) fun u _ => hbase ▸ h.pending u,fun _ => hcfg,
      forall_put (P := fun _ x => ∀ r left,x.place.rest (advance s.cfg (s.thread t)).1=
        some (r,left) → call out.cfg r.call=some left) (fun r' left hleft => ?_)
        fun u hne r' left hleft => ?_⟩
    · rw [finished,hplace]
      rw [hplace] at hrest
      exact hrest
    · rw [houtside] at hacquiring
      nomatch hacquiring
    · rw [houtside] at hleft
      nomatch hleft
    · exact absurd (holds_of_rest hleft) (Bool.eq_false_iff.mp (hother u hne))

/-- A thread that goes on ends at most its own call, and that one did what it does
alone. -/
theorem serial_run (h : Serial base s) (t : τ) :
    (finished s (.run t)=none ∧ Serial base (step s (.run t))) ∨
      ∃ r out,finished s (.run t)=some (r,out) ∧ call base r.call=some out ∧
        Serial out.cfg (step s (.run t)) := by
  cases hplace : (s.thread t).place with
  | outside =>
    have hsame : step s (.run t)=s := by
      rw [step,advance,hplace]
      exact put_same t
    exact Or.inl ⟨by rw [finished,hplace],by rw [hsame]; exact h⟩
  | acquiring r =>
    refine Or.inl ⟨by rw [finished,hplace],?_⟩
    by_cases hfree : s.cfg.sem=0
    · have hsame : step s (.run t)=s := by
        rw [step,advance,hplace]
        dsimp only
        rw [acquireDevice,if_pos hfree]
        exact put_same t
      rw [hsame]
      exact h
    · exact serial_take h hfree hplace
  | opening _ | seeking _ | copying _ _ _ _ | releasing _ _ _ _ =>
    exact serial_hold h (by rw [hplace]; rfl)

/-- From a serial state on, calls end one after the other. -/
theorem oneByOne_of_serial {es : List (Event τ)} (h : Serial base s)
    (hrange : AlongRun step InRange s es) :
    OneByOne base (outputs step finished s es).reduceOption := by
  induction es generalizing s base with
  | nil => trivial
  | cons e es ih =>
    rw [outputs]
    cases e with
    | call t r =>
      obtain ⟨hnone,hserial⟩ := serial_call h t r hrange.1
      rw [hnone,List.reduceOption_cons_of_none]
      exact ih hserial hrange.2
    | run t =>
      rcases serial_run h t with ⟨hnone,hserial⟩ | ⟨r,out,hsome,hcall,hserial⟩
      · rw [hnone,List.reduceOption_cons_of_none]
        exact ih hserial hrange.2
      · rw [hsome,List.reduceOption_cons_of_some]
        exact ⟨hcall,ih hserial hrange.2⟩

/-- In every run whose requests pass the range check, each call that is over returned
and left what it does when the calls are made one after the other, in the order in which
they ended. -/
theorem calls_one_by_one (flashSize : Word) (bytes : List Byte) {es : List (Event τ)}
    (hrange : AlongRun step InRange (System.start flashSize bytes) es) :
    OneByOne (flashFsInit flashSize bytes)
      (outputs step finished (System.start flashSize bytes) es).reduceOption :=
  oneByOne_of_serial (serial_start flashSize bytes) hrange

end Serial

end ZephyrApp.FlashFsThreads

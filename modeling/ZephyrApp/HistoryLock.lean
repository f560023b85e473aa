import ZephyrApp.HistoryRing
import ZephyrApp.ReentrantLock

/-!
# The lock of the history file

Any number of threads write history records, switch the writing on and off and
empty the queue of samples. Their steps interleave; the open file and the
switch are touched under one lock only, so that a section under the lock is one
step. A write that finds the writing switched off returns without a release.
-/

namespace ZephyrApp.HistoryLock

open EventRuns ReentrantLock HistoryRing

/-- The statics under `h_lock`. -/
structure Vars where
  /-- `fd`. -/
  fd : ℤ
  /-- `fd_offset`. -/
  fdOffset : ℤ
  /-- `enable_write`. -/
  enableWrite : Bool
deriving DecidableEq

/-- What the file operations of a write give. -/
structure FileOps where
  /-- The descriptor from `open_latest_file`. -/
  opened : ℤ
  /-- The offset that it leaves. -/
  offset : ℤ
  /-- The value of `write`. -/
  written : ℤ

/-- `write_history_data` of a record under the lock: the statics, whether the
lock is released, and the value returned. -/
def writeHistoryData (v : Vars) (ops : FileOps) : Vars×Bool×ℤ :=
  if ¬v.enableWrite then (v,false,-1)
  else
    let v := if (maxFileSize : ℤ) < (v.fdOffset+recordSize)%2^32 then {v with fd := -1} else v
    let v := if v.fd < 0 then {v with fd := ops.opened,fdOffset := ops.offset} else v
    if v.fd < 0 then (v,true,-1)
    else if ops.written < 0 then (v,true,-1)
    else ({v with fdOffset := v.fdOffset+recordSize},true,0)

/-- `history_enable_write` under the lock, which it always releases. -/
def historyEnableWrite (v : Vars) (enable : Bool) : Vars :=
  let v := if ¬enable ∧ 0≤v.fd then {v with fd := -1} else v
  {v with enableWrite := enable}

/-- A function with a section under the lock. -/
inductive Section where
  /-- `write_history_data`. -/
  | write
  /-- `history_enable_write`. -/
  | enable (enable : Bool)
deriving DecidableEq

/-- A section: the statics and whether the lock is released. -/
def Section.body (v : Vars) (ops : FileOps) : Section → Vars×Bool
  | .write => ((writeHistoryData v ops).1,(writeHistoryData v ops).2.1)
  | .enable b => (historyEnableWrite v b,true)

/-- Where a thread is; a section may have been entered from `his_process_save`. -/
inductive Pc where
  /-- In none of the functions. -/
  | idle
  /-- In `his_process_save`, about to look into the queue. -/
  | saving
  /-- At the lock. -/
  | atLock (sec : Section) (saving : Bool)
  /-- Behind the lock. -/
  | inside (sec : Section) (saving : Bool)
deriving DecidableEq

/-- The thread is in a section under the lock. -/
def Pc.isInside : Pc → Bool
  | .inside _ _ => true
  | _ => false

/-- Where a thread goes on behind a section. -/
def returnTo (saving : Bool) : Pc := if saving then .saving else .idle

/-- The lock, the threads and what they share. -/
structure State (τ : Type) where
  /-- `h_lock`. -/
  hLock : Mutex τ
  /-- Where each thread is. -/
  pc : τ → Pc
  /-- The statics under the lock. -/
  vars : Vars
  /-- The number of samples in `his_rx_fifo`. -/
  queued : ℕ

/-- A call of a function, or a step inside one. -/
inductive Event (τ : Type) where
  /-- A thread calls `write_history_data`. -/
  | callWrite (t : τ)
  /-- A thread calls `history_enable_write`. -/
  | callEnable (t : τ) (enable : Bool)
  /-- A thread calls `his_process_save`. -/
  | callSave (t : τ)
  /-- A sample is queued. -/
  | put
  /-- A thread takes its next step. -/
  | step (t : τ) (ops : FileOps)

section Steps

variable {τ : Type} [DecidableEq τ]

/-- A thread goes to another place. -/
def State.goto (s : State τ) (t : τ) (pc : Pc) : State τ :=
  {s with pc := Function.update s.pc t pc}

/-- A call by a thread that is in none of the functions. -/
def call (s : State τ) (t : τ) (pc : Pc) : State τ := if s.pc t=.idle then s.goto t pc else s

/-- The next step of a thread. -/
def threadStep (s : State τ) (t : τ) (ops : FileOps) : State τ :=
  match s.pc t with
  | .idle => s
  | .saving =>
    if s.queued=0 then s.goto t .idle
    else {s.goto t (.atLock .write true) with queued := s.queued-1}
  | .atLock sec saving =>
    match s.hLock.lock t with
    | none => s
    | some m => {s.goto t (.inside sec saving) with hLock := m}
  | .inside sec saving =>
    {s.goto t (returnTo saving) with
      hLock := if (sec.body s.vars ops).2 then s.hLock.unlock t else s.hLock
      vars := (sec.body s.vars ops).1}

/-- The state after an event. -/
def next (s : State τ) : Event τ → State τ
  | .callWrite t => call s t (.atLock .write false)
  | .callEnable t enable => call s t (.atLock (.enable enable) false)
  | .callSave t => call s t .saving
  | .put => {s with queued := s.queued+1}
  | .step t ops => threadStep s t ops

/-- Nobody is in the functions. -/
def start : State τ := ⟨.free,fun _ => .idle,⟨-1,0,false⟩,0⟩

/-- Takes and releases balance: who is in no section holds nothing, who is in
one holds the lock once, and leaves it free with the next step. -/
structure Balanced (s : State τ) : Prop where
  /-- A thread outside. -/
  outside : ∀ t,(s.pc t).isInside=false → s.hLock.count t=0
  /-- A thread inside. -/
  inside : ∀ t,(s.pc t).isInside=true → s.hLock.count t=1
  /-- The release. -/
  freed : ∀ t ops,(s.pc t).isInside=true → (next s (.step t ops)).hLock=.free

/-- The step does not take the lock for a write while the writing is switched off. -/
def WritesEnabled (s : State τ) : Event τ → Prop
  | .step t _ => ∀ saving,s.pc t=.atLock .write saving → s.hLock.lock t≠none →
    s.vars.enableWrite=true
  | _ => True

/-- The section releases the lock. -/
def Section.Releases (v : Vars) : Section → Prop
  | .write => v.enableWrite=true
  | .enable _ => True

/-- The lock is held as it should be, and every section will release it. -/
structure Held (s : State τ) : Prop where
  /-- A thread outside holds nothing. -/
  outside : ∀ t,(s.pc t).isInside=false → s.hLock.count t=0
  /-- A thread inside holds the lock once. -/
  inside : ∀ t,(s.pc t).isInside=true → s.hLock.count t=1
  /-- Whoever is inside releases. -/
  releases : ∀ t sec saving,s.pc t=.inside sec saving → sec.Releases s.vars

/-- A thread holds the lock once more than it will release it. -/
structure Leaked (t : τ) (s : State τ) : Prop where
  /-- It holds the lock. -/
  owner : 0 < s.hLock.count t
  /-- Inside a section that releases it holds the lock once more. -/
  again : ∀ sec saving,s.pc t=.inside sec saving → sec.Releases s.vars → 1 < s.hLock.count t
  /-- Nobody else is inside. -/
  others : ∀ u,u≠t → (s.pc u).isInside=false

variable {s : State τ} {t u : τ}

/-- The moved thread is where it went. -/
@[simp] theorem goto_pc_self (pc : Pc) : (s.goto t pc).pc t=pc := Function.update_self _ _ _

/-- The other threads stay. -/
@[simp] theorem goto_pc_other (pc : Pc) (h : u≠t) : (s.goto t pc).pc u=s.pc u :=
  Function.update_of_ne h _ _

/-- A section releases the lock exactly if it is no write with the writing
switched off. -/
theorem body_releases (sec : Section) (v : Vars) (ops : FileOps) :
    (sec.body v ops).2=true ↔ sec.Releases v := by
  cases sec with
  | write =>
    rw [Section.body,Section.Releases]
    dsimp only
    rw [writeHistoryData]
    cases v.enableWrite with
    | false => exact Iff.rfl
    | true =>
      simp only [not_true_eq_false,if_false,iff_true]
      repeat' split
      all_goals rfl
  | enable b => exact iff_of_true rfl trivial

/-- A thread that goes from one place outside to another, the lock and the
statics untouched, keeps the lock as it should be. -/
theorem Held.outside_step {s' : State τ} (hs : Held s) (hlock : s'.hLock=s.hLock)
    (hvars : s'.vars=s.vars)
    (hpc : ∀ u,s'.pc u=s.pc u ∨ (s.pc u).isInside=false ∧ (s'.pc u).isInside=false) :
    Held s' := by
  refine ⟨fun u hu => ?_,fun u hu => ?_,fun u sec saving hu => ?_⟩
  · rw [hlock]
    rcases hpc u with h | ⟨h,-⟩
    · exact hs.outside u (h ▸ hu)
    · exact hs.outside u h
  · rw [hlock]
    rcases hpc u with h | ⟨-,h⟩
    · exact hs.inside u (h ▸ hu)
    · rw [h] at hu
      nomatch hu
  · rw [hvars]
    rcases hpc u with h | ⟨-,h⟩
    · exact hs.releases u sec saving (h ▸ hu)
    · rw [hu] at h
      nomatch h

/-- The same for a lock that is leaked. -/
theorem Leaked.outside_step {s' : State τ} (hs : Leaked t s) (hlock : s'.hLock=s.hLock)
    (hvars : s'.vars=s.vars)
    (hpc : ∀ u,s'.pc u=s.pc u ∨ (s.pc u).isInside=false ∧ (s'.pc u).isInside=false) :
    Leaked t s' := by
  refine ⟨hlock ▸ hs.owner,fun sec saving ht hreleases => ?_,fun u hne => ?_⟩
  · rw [hlock]
    rcases hpc t with h | ⟨-,h⟩
    · exact hs.again sec saving (h ▸ ht) (hvars ▸ hreleases)
    · rw [ht] at h
      nomatch h
  · rcases hpc u with h | ⟨-,h⟩
    · exact h ▸ hs.others u hne
    · exact h

/-- A thread that goes from a place outside to another one. -/
theorem goto_outside {pc : Pc} (hpc : pc.isInside=false) (ht : (s.pc t).isInside=false) (u : τ) :
    (s.goto t pc).pc u=s.pc u ∨ (s.pc u).isInside=false ∧ ((s.goto t pc).pc u).isInside=false := by
  by_cases hu : u=t
  · subst hu
    exact .inr ⟨ht,by rw [goto_pc_self]; exact hpc⟩
  · exact .inl (goto_pc_other pc hu)

end Steps

section Runs

variable {τ : Type} [DecidableEq τ] {s : State τ} {t u : τ}

/-- A thread in a place outside takes a step that takes no lock: the lock and
the statics stay, and only places outside change. -/
theorem next_cases (s : State τ) (e : Event τ) :
    ((next s e).hLock=s.hLock ∧ (next s e).vars=s.vars ∧
        ∀ u,(next s e).pc u=s.pc u ∨
          (s.pc u).isInside=false ∧ ((next s e).pc u).isInside=false) ∨
      (∃ t ops sec saving m,e=.step t ops ∧ s.pc t=.atLock sec saving ∧ s.hLock.lock t=some m ∧
        next s e={s.goto t (.inside sec saving) with hLock := m}) ∨
      ∃ t ops sec saving,e=.step t ops ∧ s.pc t=.inside sec saving ∧
        next s e={s.goto t (returnTo saving) with
          hLock := if (sec.body s.vars ops).2 then s.hLock.unlock t else s.hLock
          vars := (sec.body s.vars ops).1} := by
  have hcall : ∀ (t : τ) (pc : Pc),pc.isInside=false → (call s t pc).hLock=s.hLock ∧
      (call s t pc).vars=s.vars ∧ ∀ u,(call s t pc).pc u=s.pc u ∨
        (s.pc u).isInside=false ∧ ((call s t pc).pc u).isInside=false := by
    intro t pc hpc
    rw [call]
    split
    · rename_i hidle
      exact ⟨rfl,rfl,goto_outside hpc (by rw [hidle]; rfl)⟩
    · exact ⟨rfl,rfl,fun _ => .inl rfl⟩
  cases e with
  | callWrite t => exact .inl (hcall t _ rfl)
  | callEnable t enable => exact .inl (hcall t _ rfl)
  | callSave t => exact .inl (hcall t _ rfl)
  | put => exact .inl ⟨rfl,rfl,fun _ => .inl rfl⟩
  | step t ops =>
    rw [next,threadStep]
    cases hpc : s.pc t with
    | idle => exact .inl ⟨rfl,rfl,fun _ => .inl rfl⟩
    | saving =>
      dsimp only
      split
      · exact .inl ⟨rfl,rfl,goto_outside rfl (by rw [hpc]; rfl)⟩
      · exact .inl ⟨rfl,rfl,goto_outside rfl (by rw [hpc]; rfl)⟩
    | atLock sec saving =>
      cases hlock : s.hLock.lock t with
      | none => exact .inl ⟨rfl,rfl,fun _ => .inl rfl⟩
      | some m => exact .inr (.inl ⟨t,ops,sec,saving,m,rfl,hpc,hlock,rfl⟩)
    | inside sec saving => exact .inr (.inr ⟨t,ops,sec,saving,rfl,hpc,rfl⟩)

/-- The lock is as it should be when it is free and nobody is inside. -/
theorem held_of_nobody (hlock : s.hLock=.free) (hpc : ∀ u,(s.pc u).isInside=false) : Held s := by
  refine ⟨fun u _ => eq_free_iff.mp hlock u,fun u hu => ?_,fun u sec saving hu => ?_⟩
  · rw [hpc u] at hu
    nomatch hu
  · have hin := hpc u
    rw [hu] at hin
    nomatch hin

/-- Where the other threads hold nothing, none of them is inside. -/
theorem Held.others_outside (hs : Held s) (h : ∀ u,u≠t → s.hLock.count u=0) (hne : u≠t) :
    (s.pc u).isInside=false := by
  by_contra hin
  have hother := h u hne
  rw [hs.inside u (Bool.eq_true_of_not_eq_false hin)] at hother
  nomatch hother

/-- When a thread can take the lock, the others hold nothing. -/
theorem count_eq_zero_of_lock {m m' : Mutex τ} (h : m.lock t=some m') (hne : u≠t) :
    m.count u=0 := by
  by_contra hpos
  rw [lock_eq_none_iff.mpr ⟨u,hne,Nat.pos_of_ne_zero hpos⟩] at h
  nomatch h

/-- Only the thread that goes inside is there. -/
theorem isInside_goto {sec : Section} {saving : Bool} (h : ∀ u,u≠t → (s.pc u).isInside=false)
    (u : τ) : ((s.goto t (.inside sec saving)).pc u).isInside=decide (u=t) := by
  by_cases hne : u=t
  · rw [decide_eq_true hne,hne,goto_pc_self]
    rfl
  · rw [decide_eq_false hne,goto_pc_other _ hne]
    exact h u hne

/-- A thread that takes the lock for a section that will release it keeps the
lock as it should be. -/
theorem Held.take (hs : Held s) {sec : Section} {saving : Bool} {m : Mutex τ}
    (hpc : s.pc t=.atLock sec saving) (hlock : s.hLock.lock t=some m)
    (hreleases : sec.Releases s.vars) :
    Held {s.goto t (.inside sec saving) with hLock := m} := by
  have hinside : ∀ u,((s.goto t (.inside sec saving)).pc u).isInside=decide (u=t) :=
    isInside_goto fun u hne => hs.others_outside (fun u hne => count_eq_zero_of_lock hlock hne) hne
  refine ⟨fun u hu => ?_,fun u hu => ?_,fun u sec' saving' hu => ?_⟩
  · exact count_lock_other hlock (of_decide_eq_false ((hinside u).symm.trans hu))
  · obtain rfl := of_decide_eq_true ((hinside u).symm.trans hu)
    dsimp only
    rw [count_lock_self hlock,hs.outside u (by rw [hpc]; rfl)]
  · have hin : ((s.goto t (.inside sec saving)).pc u).isInside=true := by
      rw [show (s.goto t (.inside sec saving)).pc u=.inside sec' saving' from hu]
      rfl
    obtain rfl := of_decide_eq_true ((hinside u).symm.trans hin)
    obtain ⟨rfl,-⟩ := Pc.inside.inj ((goto_pc_self _).symm.trans hu)
    exact hreleases

/-- The section of a thread that holds the lock once leaves it free. -/
theorem Held.unlock_free (hs : Held s) (ht : (s.pc t).isInside=true) :
    s.hLock.unlock t=.free := by
  rw [eq_free_iff]
  intro u
  by_cases hne : u=t
  · subst hne
    rw [count_unlock_self,hs.inside u ht]
  · rw [count_unlock_other hne]
    exact count_exclusive (by rw [hs.inside t ht]; exact Nat.one_pos) hne

/-- A thread that leaves its section is outside, and the others stay there. -/
theorem returned_outside (saving : Bool) (h : ∀ u,u≠t → (s.pc u).isInside=false) (u : τ) :
    ((s.goto t (returnTo saving)).pc u).isInside=false := by
  by_cases hne : u=t
  · subst hne
    rw [goto_pc_self]
    cases saving <;> rfl
  · rw [goto_pc_other _ hne]
    exact h u hne

/-- A section that releases keeps the lock as it should be. -/
theorem Held.leave (hs : Held s) {sec : Section} {saving : Bool}
    (hpc : s.pc t=.inside sec saving) (ops : FileOps) :
    Held {s.goto t (returnTo saving) with
      hLock := if (sec.body s.vars ops).2 then s.hLock.unlock t else s.hLock
      vars := (sec.body s.vars ops).1} := by
  have ht : (s.pc t).isInside=true := by rw [hpc]; rfl
  have hothers : ∀ u,u≠t → s.hLock.count u=0 := fun u hne =>
    count_exclusive (by rw [hs.inside t ht]; exact Nat.one_pos) hne
  rw [if_pos ((body_releases sec s.vars ops).mpr (hs.releases t sec saving hpc)),
    hs.unlock_free ht]
  exact held_of_nobody rfl (returned_outside saving fun u hne => hs.others_outside hothers hne)

/-- A step that takes the lock only for sections that release it keeps the
lock as it should be. -/
theorem Held.next (hs : Held s) {e : Event τ} (henabled : WritesEnabled s e) :
    Held (next s e) := by
  rcases next_cases s e with ⟨hlock,hvars,hpc⟩ | ⟨t,ops,sec,saving,m,rfl,hpc,hlock,hnext⟩ |
    ⟨t,ops,sec,saving,rfl,hpc,hnext⟩
  · exact hs.outside_step hlock hvars hpc
  · rw [hnext]
    refine hs.take hpc hlock ?_
    cases sec with
    | write => exact henabled saving hpc (by rw [hlock]; exact Option.some_ne_none m)
    | enable enable => trivial
  · rw [hnext]
    exact hs.leave hpc ops

/-- Where the lock is as it should be, takes and releases balance. -/
theorem Held.balanced (hs : Held s) : Balanced s := by
  refine ⟨hs.outside,hs.inside,fun t ops ht => ?_⟩
  cases hpc : s.pc t with
  | inside sec saving =>
    rw [HistoryLock.next,threadStep,hpc]
    dsimp only
    rw [if_pos ((body_releases sec s.vars ops).mpr (hs.releases t sec saving hpc)),
      hs.unlock_free ht]
  | _ =>
    rw [hpc] at ht
    nomatch ht

/-- A step that takes the lock for a write while the writing is switched off. -/
theorem not_writesEnabled_iff {e : Event τ} :
    ¬WritesEnabled s e ↔ ∃ t ops saving m,e=.step t ops ∧ s.pc t=.atLock .write saving ∧
      s.hLock.lock t=some m ∧ s.vars.enableWrite=false := by
  cases e with
  | step t ops =>
    rw [WritesEnabled]
    push Not
    constructor
    · rintro ⟨saving,hpc,hlock,henable⟩
      obtain ⟨m,hm⟩ := Option.ne_none_iff_exists'.mp hlock
      exact ⟨t,ops,saving,m,rfl,hpc,hm,Bool.eq_false_of_not_eq_true henable⟩
    · rintro ⟨t',ops',saving,m,he,hpc,hm,henable⟩
      obtain ⟨rfl,rfl⟩ := Event.step.inj he
      exact ⟨saving,hpc,by rw [hm]; exact Option.some_ne_none m,by rw [henable]; decide⟩
  | _ => exact iff_of_false (fun h => h trivial) fun ⟨_,_,_,_,h,_⟩ => nomatch h

/-- Such a step leaks the lock. -/
theorem Held.leak (hs : Held s) {e : Event τ} (h : ¬WritesEnabled s e) :
    ∃ t,(∃ saving,(HistoryLock.next s e).pc t=.inside .write saving) ∧
      (HistoryLock.next s e).vars.enableWrite=false ∧ Leaked t (HistoryLock.next s e) := by
  obtain ⟨t,ops,saving,m,rfl,hpc,hlock,henable⟩ := not_writesEnabled_iff.mp h
  have hnext : HistoryLock.next s (.step t ops)=
      {s.goto t (.inside .write saving) with hLock := m} := by
    rw [HistoryLock.next,threadStep,hpc]
    dsimp only
    rw [hlock]
  have hinside : ∀ u,((s.goto t (.inside .write saving)).pc u).isInside=decide (u=t) :=
    isInside_goto fun u hne => hs.others_outside (fun u hne => count_eq_zero_of_lock hlock hne) hne
  rw [hnext]
  refine ⟨t,⟨saving,goto_pc_self _⟩,henable,?_,fun sec saving' hin hreleases => ?_,
    fun u hne => (hinside u).trans (decide_eq_false hne)⟩
  · dsimp only
    rw [count_lock_self hlock]
    exact Nat.succ_pos _
  · obtain ⟨rfl,-⟩ := Pc.inside.inj ((goto_pc_self _).symm.trans hin)
    rw [show s.vars.enableWrite=true from hreleases] at henable
    nomatch henable

/-- A leaked lock stays leaked, whatever happens. -/
theorem Leaked.next (hs : Leaked t s) (e : Event τ) : Leaked t (next s e) := by
  rcases next_cases s e with ⟨hlock,hvars,hpc⟩ | ⟨u,ops,sec,saving,m,rfl,hpc,hlock,hnext⟩ |
    ⟨u,ops,sec,saving,rfl,hpc,hnext⟩
  · exact hs.outside_step hlock hvars hpc
  · -- only the owner gets past the lock
    have hown : u=t := by
      by_contra hne
      rw [lock_eq_none_iff.mpr ⟨t,Ne.symm hne,hs.owner⟩] at hlock
      nomatch hlock
    subst hown
    have hcount : m.count u=s.hLock.count u+1 := count_lock_self hlock
    have howner := hs.owner
    rw [hnext]
    refine ⟨?_,fun _ _ _ _ => ?_,fun v hne => ?_⟩
    · dsimp only
      omega
    · dsimp only
      omega
    · exact (isInside_goto hs.others v).trans (decide_eq_false hne)
  · have hown : u=t := by
      by_contra hne
      have hin := hs.others u hne
      rw [hpc] at hin
      nomatch hin
    subst hown
    have hout := returned_outside saving hs.others
    rw [hnext]
    refine ⟨?_,fun sec' saving' hin _ => ?_,fun v _ => hout v⟩
    · dsimp only
      split
      · rename_i hreleases
        have hagain := hs.again sec saving hpc ((body_releases sec s.vars ops).mp hreleases)
        rw [count_unlock_self]
        omega
      · exact hs.owner
    · have hin' := hout u
      rw [show (s.goto u (returnTo saving)).pc u=.inside sec' saving' from hin] at hin'
      nomatch hin'

/-- In every run of interleaved steps, takes and releases balance in every
state exactly if no write takes the lock while the writing is switched off.
After a step that does, one thread holds the lock for ever and every other one
that comes to it waits for ever. -/
theorem lock_balanced_iff (es : List (Event τ)) :
    (Throughout next Balanced start es ↔ AlongRun next WritesEnabled start es) ∧
      (¬AlongRun next WritesEnabled start es → ∃ t : τ,∀ later : List (Event τ),∀ u,u≠t →
        (finalState next start (es++later)).hLock.lock u=none) := by
  have hstart : Held (start : State τ) := held_of_nobody rfl fun _ => rfl
  constructor
  · refine throughout_iff_of_invariant (fun s e hs he => hs.next he) (fun s hs => hs.balanced)
      (fun s e hs he hbalanced => ?_) hstart es
    obtain ⟨t,⟨saving,hpc⟩,henable,hleaked⟩ := hs.leak he
    have hfree := hbalanced.freed t ⟨0,0,0⟩ (by rw [hpc]; rfl)
    have howner := (hleaked.next (.step t ⟨0,0,0⟩)).owner
    rw [hfree] at howner
    exact lt_irrefl 0 howner
  · intro h
    obtain ⟨pre,e,post,rfl,hpre,hfails⟩ := exists_first_failure h
    have hheld : Held (finalState next start pre) :=
      (throughout_of_invariant (fun s e hs he => Held.next hs he) hstart hpre).last
    obtain ⟨t,-,-,hleaked⟩ := hheld.leak hfails
    refine ⟨t,fun later u hne => ?_⟩
    have hlater := finalState_preserves (I := Leaked t) (fun _ e hs => hs.next e) hleaked
      (post++later)
    have hrun : finalState next start (pre++e::post++later)=
        finalState next (next (finalState next start pre) e) (post++later) := by
      rw [finalState,List.append_assoc,List.cons_append,List.foldl_append,List.foldl_cons]
      rfl
    rw [hrun]
    exact lock_eq_none_iff.mpr ⟨t,Ne.symm hne,hlater.owner⟩

/-- The Modbus thread switches the writing on, a sample is queued, the writing
is switched off, and the work thread then saves the sample: it keeps the lock. -/
theorem late_sample_keeps_lock :
    ¬∀ es : List (Event Bool),Throughout next Balanced start es := by
  intro h
  let modbus : Event Bool := .step true ⟨0,0,0⟩
  let work : Event Bool := .step false ⟨0,0,0⟩
  have hlast := (h [.callEnable true true,modbus,modbus,.put,.callEnable true false,modbus,modbus,
    .callSave false,work,work,work]).last.outside false rfl
  revert hlast
  decide

end Runs

end ZephyrApp.HistoryLock

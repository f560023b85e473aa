import Mathlib

/-!
# A lock that its owner may take again

The kernel's mutex counts how often its owner has taken it and is free when it
has been released as often. Other threads wait while it is held. The rules give
the number of times that each thread holds the lock.
-/

namespace ZephyrApp.ReentrantLock

variable {τ : Type*}

/-- A lock is free or held by one thread, any number of times more than once. -/
inductive Mutex (τ : Type*) where
  /-- Nobody holds it. -/
  | free
  /-- A thread holds it. -/
  | held (owner : τ) (more : ℕ)
deriving DecidableEq

variable [DecidableEq τ]

/-- How often a thread holds the lock. -/
def Mutex.count : Mutex τ → τ → ℕ
  | .free,_ => 0
  | .held owner more,t => if owner=t then more+1 else 0

/-- `k_mutex_lock`, none while the thread has to wait. -/
def Mutex.lock : Mutex τ → τ → Option (Mutex τ)
  | .free,t => some (.held t 0)
  | .held owner more,t => if owner=t then some (.held owner (more+1)) else none

/-- `k_mutex_unlock`, without effect for a thread that is not the owner. -/
def Mutex.unlock : Mutex τ → τ → Mutex τ
  | .free,_ => .free
  | .held owner 0,t => if owner=t then .free else .held owner 0
  | .held owner (more+1),t => if owner=t then .held owner more else .held owner (more+1)

section Rules

variable {m m' : Mutex τ} {t u : τ}

/-- A lock that nobody holds is free. -/
theorem eq_free_iff : m=.free ↔ ∀ t,m.count t=0 := by
  cases m with
  | free => exact iff_of_true rfl fun _ => rfl
  | held owner more =>
    refine iff_of_false (fun h => nomatch h) fun h => ?_
    have hown := h owner
    rw [Mutex.count,if_pos rfl] at hown
    omega

/-- At most one thread holds the lock. -/
theorem count_exclusive (ht : 0 < m.count t) (hne : u≠t) : m.count u=0 := by
  cases m with
  | free => rfl
  | held owner more =>
    rw [Mutex.count] at ht ⊢
    split at ht
    · rename_i howner
      exact if_neg fun h => hne (h.symm.trans howner)
    · omega

/-- A thread waits exactly while another one holds the lock. -/
theorem lock_eq_none_iff : m.lock t=none ↔ ∃ u,u≠t ∧ 0 < m.count u := by
  cases m with
  | free => exact iff_of_false (fun h => nomatch h) fun ⟨_,_,h⟩ => absurd h (lt_irrefl 0)
  | held owner more =>
    rw [Mutex.lock]
    by_cases howner : owner=t
    · rw [if_pos howner]
      refine iff_of_false (fun h => nomatch h) fun ⟨u,hne,hu⟩ => ?_
      rw [Mutex.count,if_neg fun h => hne (h.symm.trans howner)] at hu
      exact lt_irrefl 0 hu
    · rw [if_neg howner]
      refine iff_of_true rfl ⟨owner,howner,?_⟩
      rw [Mutex.count,if_pos rfl]
      exact Nat.succ_pos _

/-- A thread that takes the lock holds it once more than before. -/
theorem count_lock_self (h : m.lock t=some m') : m'.count t=m.count t+1 := by
  cases m with
  | free =>
    obtain rfl := Option.some.inj h
    exact if_pos rfl
  | held owner more =>
    rw [Mutex.lock] at h
    split at h
    · rename_i howner
      obtain rfl := Option.some.inj h
      rw [Mutex.count,Mutex.count,if_pos howner,if_pos howner]
    · nomatch h

/-- When a thread has taken the lock, no other one holds it. -/
theorem count_lock_other (h : m.lock t=some m') (hne : u≠t) : m'.count u=0 := by
  refine count_exclusive (t := t) ?_ hne
  rw [count_lock_self h]
  exact Nat.succ_pos _

/-- A thread that releases the lock holds it once less than before. -/
theorem count_unlock_self : (m.unlock t).count t=m.count t-1 := by
  match m with
  | .free => rfl
  | .held owner 0 =>
    rw [Mutex.unlock]
    by_cases howner : owner=t
    · rw [if_pos howner,Mutex.count,Mutex.count,if_pos howner]
    · rw [if_neg howner,Mutex.count,if_neg howner]
  | .held owner (more+1) =>
    rw [Mutex.unlock]
    by_cases howner : owner=t
    · rw [if_pos howner,Mutex.count,Mutex.count,if_pos howner,if_pos howner]
      rfl
    · rw [if_neg howner,Mutex.count,if_neg howner]

/-- Releasing the lock leaves the other threads' counts alone. -/
theorem count_unlock_other (hne : u≠t) : (m.unlock t).count u=m.count u := by
  match m with
  | .free => rfl
  | .held owner 0 =>
    rw [Mutex.unlock]
    split
    · rename_i howner
      rw [Mutex.count,Mutex.count,if_neg fun h => hne (h.symm.trans howner)]
    · rfl
  | .held owner (more+1) =>
    rw [Mutex.unlock]
    split
    · rename_i howner
      have hother : owner≠u := fun h => hne (h.symm.trans howner)
      rw [Mutex.count,Mutex.count,if_neg hother,if_neg hother]
    · rfl

end Rules

end ZephyrApp.ReentrantLock

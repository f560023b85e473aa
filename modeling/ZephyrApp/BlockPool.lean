import Mathlib.Data.List.Infix
import Mathlib.Control.Monad.Basic

/-!
# Pool of blocks

A pool hands out the block at the head of its free list and takes a block back
to the head, without asking whether it was handed out. A trace records both. A
program borrows from a pool if it gives back what it took: where a block is
free, it gets one, and the pool is left as it was.
-/

namespace ZephyrApp.BlockPool

variable {β α γ : Type}

/-- A block is handed out or taken back; the null pointer stands for no block. -/
inductive Event (β : Type) where
  /-- What an allocation returned. -/
  | alloc (p : Option β)
  /-- What was given back. -/
  | free (p : Option β)
deriving DecidableEq

/-- A pool and all that happened to it. -/
structure Pool (β : Type) where
  /-- The free list. -/
  free : List (Option β)
  /-- What happened, the latest last. -/
  trace : List (Event β)
deriving DecidableEq

/-- A program that uses a pool. -/
abbrev Uses (β α : Type) := StateM (Pool β) α

/-- An allocation takes the head of the free list, and nothing from an empty one. -/
def alloc : Uses β (Option β) := fun P =>
  match P.free with
  | [] => (none,⟨[],P.trace++[.alloc none]⟩)
  | p::free => (p,⟨free,P.trace++[.alloc p]⟩)

/-- A pointer is given back to the head of the free list. -/
def release (p : Option β) : Uses β Unit := fun P => ((),⟨p::P.free,P.trace++[.free p]⟩)

/-- The blocks that are out after an event. -/
def hold [DecidableEq β] (out : List β) : Event β → List β
  | .alloc none => out
  | .alloc (some b) => b::out
  | .free none => out
  | .free (some b) => out.erase b

/-- The blocks that are out after a trace. -/
def held [DecidableEq β] (trace : List (Event β)) : List β := trace.foldl hold []

/-- No allocation failed, no more than one block was out at any time, every
pointer that was given back was out, and no block is out at the end. -/
structure Sound [DecidableEq β] (trace : List (Event β)) : Prop where
  /-- No allocation failed. -/
  served : .alloc none∉trace
  /-- At most one block is out at a time. -/
  one : ∀ pre,pre<+:trace → (held pre).length≤1
  /-- A pointer that is given back is out. -/
  once : ∀ pre p,pre++[.free p]<+:trace → ∃ b,p=some b ∧ b∈held pre
  /-- No block is out at the end. -/
  back : held trace=[]

section Traces

variable [DecidableEq β] {trace : List (Event β)}

/-- Nothing happened yet. -/
theorem sound_nil : Sound ([] : List (Event β)) where
  served := List.not_mem_nil
  one pre hpre := by
    rw [List.prefix_nil.mp hpre]
    exact Nat.zero_le 1
  once pre p hpre := absurd (List.prefix_nil.mp hpre) (by simp)
  back := rfl

/-- A block that is handed out and given back leaves a sound trace. -/
theorem Sound.borrow (h : Sound trace) (b : β) :
    Sound (trace++[.alloc (some b)]++[.free (some b)]) := by
  have hout : held (trace++[.alloc (some b)])=[b] := by
    rw [held,List.foldl_append]
    change hold (held trace) (.alloc (some b))=[b]
    rw [h.back,hold]
  have hback : held (trace++[.alloc (some b)]++[.free (some b)])=[] := by
    rw [held,List.foldl_append]
    change hold (held (trace++[.alloc (some b)])) (.free (some b))=[]
    rw [hout,hold,List.erase_cons_head]
  refine ⟨?_,fun pre hpre => ?_,fun pre p hpre => ?_,hback⟩
  · simp [h.served]
  · rcases List.prefix_concat_iff.mp hpre with rfl | hpre
    · rw [hback]
      exact Nat.zero_le 1
    · rcases List.prefix_concat_iff.mp hpre with rfl | hpre
      · rw [hout]
        exact le_rfl
      · exact h.one pre hpre
  · rcases List.prefix_concat_iff.mp hpre with heq | hpre
    · obtain ⟨rfl,hlast⟩ := List.append_inj' heq rfl
      obtain rfl : p=some b := by simpa using hlast
      exact ⟨b,rfl,by rw [hout]; exact List.mem_singleton_self b⟩
    · rcases List.prefix_concat_iff.mp hpre with heq | hpre
      · exact absurd (List.append_inj' heq rfl).2 (by simp)
      · exact h.once pre p hpre

end Traces

section Programs

variable [DecidableEq β]

/-- Where a block is free, a program comes to this result, leaves the free list as
it was and keeps the trace sound. -/
def Borrows (x : Uses β α) (a : α) : Prop :=
  ∀ P : Pool β,(∃ b rest,P.free=some b::rest) →
    (x P).1=a ∧ (x P).2.free=P.free ∧ (Sound P.trace → Sound (x P).2.trace)

/-- A program that does not use the pool. -/
theorem borrows_pure (a : α) : Borrows (pure a : Uses β α) a :=
  fun _ _ => ⟨rfl,rfl,id⟩

/-- Two programs, one after the other. -/
theorem Borrows.bind {x : Uses β α} {a : α} {f : α → Uses β γ} {c : γ} (hx : Borrows x a)
    (hf : Borrows (f a) c) : Borrows (x >>= f) c := by
  intro P hready
  obtain ⟨hresult,hfree,hsound⟩ := hx P hready
  have hready' : ∃ b rest,(x P).2.free=some b::rest := by rwa [hfree]
  obtain ⟨hresult',hfree',hsound'⟩ := hf (x P).2 hready'
  have hrun : (x >>= f) P=f a (x P).2 := by
    rw [←hresult]
    rfl
  rw [hrun]
  exact ⟨hresult',hfree'.trans hfree,fun h => hsound' (hsound h)⟩

/-- A block that is taken and given back before the program ends. -/
theorem borrows_alloc {a : α} {f : Option β → Uses β α}
    (h : ∀ b,f (some b)=(release (some b) >>= fun _ => pure a)) : Borrows (alloc >>= f) a := by
  rintro ⟨free,trace⟩ ⟨b,rest,hfree⟩
  obtain rfl : free=some b::rest := hfree
  have hrun : (alloc >>= f) ⟨some b::rest,trace⟩=
      (a,⟨some b::rest,trace++[.alloc (some b)]++[.free (some b)]⟩) := by
    change f (some b) _=_
    rw [h b]
    rfl
  rw [hrun]
  exact ⟨rfl,rfl,fun hsound => hsound.borrow b⟩

end Programs

end ZephyrApp.BlockPool

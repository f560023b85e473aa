import Mathlib

/-!
# A loop that may not end

A loop runs its body while a test holds. With a number of tests to make at most it is a
function; it returns for some such number exactly if the test fails after some number of
passes.
-/

namespace ZephyrApp.WhileLoop

variable {σ : Type*} {test : σ → Bool} {body : σ → σ} {s t : σ} {fuel k : ℕ}

/-- Run the body while the test holds, with at most so many tests. -/
def whileLoop (test : σ → Bool) (body : σ → σ) : ℕ → σ → Option σ
  | 0,_ => none
  | fuel+1,s => if test s then whileLoop test body fuel (body s) else some s

/-- The loop returns the first state that fails the test. -/
theorem whileLoop_eq_some_iff :
    whileLoop test body fuel s=some t ↔
      ∃ k < fuel,t=body^[k] s ∧ test t=false ∧ ∀ i < k,test (body^[i] s)=true := by
  induction fuel generalizing s with
  | zero => exact iff_of_false (fun h => nomatch h) fun ⟨k,hk,_⟩ => Nat.not_lt_zero k hk
  | succ fuel ih =>
    rw [whileLoop]
    cases htest : test s with
    | true =>
      rw [if_pos rfl,ih]
      constructor
      · rintro ⟨k,hk,rfl,hstop,hgo⟩
        refine ⟨k+1,by omega,rfl,hstop,fun i hi => ?_⟩
        cases i with
        | zero => exact htest
        | succ i => exact hgo i (by omega)
      · rintro ⟨k,hk,rfl,hstop,hgo⟩
        cases k with
        | zero => exact absurd (htest.symm.trans hstop) (by decide)
        | succ k => exact ⟨k,by omega,rfl,hstop,fun i hi => hgo (i+1) (by omega)⟩
    | false =>
      rw [if_neg Bool.false_ne_true,Option.some_inj]
      constructor
      · rintro rfl
        exact ⟨0,by omega,rfl,htest,fun i hi => absurd hi (Nat.not_lt_zero i)⟩
      · rintro ⟨k,-,rfl,-,hgo⟩
        cases k with
        | zero => rfl
        | succ k => exact absurd ((hgo 0 (by omega)).symm.trans htest) (by decide)

/-- The loop returns exactly if the test fails after some number of passes. -/
theorem whileLoop_returns_iff :
    (∃ fuel t,whileLoop test body fuel s=some t) ↔ ∃ k,test (body^[k] s)=false := by
  constructor
  · rintro ⟨fuel,t,hloop⟩
    obtain ⟨k,-,rfl,hstop,-⟩ := whileLoop_eq_some_iff.mp hloop
    exact ⟨k,hstop⟩
  · intro hex
    refine ⟨Nat.find hex+1,body^[Nat.find hex] s,whileLoop_eq_some_iff.mpr
      ⟨Nat.find hex,by omega,rfl,Nat.find_spec hex,fun i hi => ?_⟩⟩
    exact Bool.eq_true_of_not_eq_false (Nat.find_min hex hi)

end ZephyrApp.WhileLoop

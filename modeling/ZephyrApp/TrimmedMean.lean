import Mathlib

/-!
# Means without the extremes

A list with its least and its greatest element, the sum without them and, for
integers, its truncated mean. Raising one element may make another one the least
or the greatest. Against the others the raised element only counts clamped
between their extremes, and a clamp is monotone.
-/

namespace ZephyrApp.TrimmedMean

/-- The least and the greatest element of a list. -/
structure Extremes {α : Type*} [Preorder α] (l : List α) where
  /-- The least element. -/
  least : α
  /-- The greatest element. -/
  greatest : α
  /-- It is in the list and below all of it. -/
  isLeast : IsLeast {x | x∈l} least
  /-- It is in the list and above all of it. -/
  isGreatest : IsGreatest {x | x∈l} greatest

namespace Extremes

section Order

variable {α : Type*} [LinearOrder α] {l l' : List α}

/-- The extremes of one element. -/
def single (x : α) : Extremes [x] where
  least := x
  greatest := x
  isLeast := ⟨List.mem_singleton_self x,fun _ h => (List.mem_singleton.mp h).ge⟩
  isGreatest := ⟨List.mem_singleton_self x,fun _ h => (List.mem_singleton.mp h).le⟩

/-- One more element. -/
def cons (x : α) (e : Extremes l) : Extremes (x::l) where
  least := min x e.least
  greatest := max x e.greatest
  isLeast := by
    rw [List.setOfPred_mem_cons]
    exact e.isLeast.insert x
  isGreatest := by
    rw [List.setOfPred_mem_cons]
    exact e.isGreatest.insert x

/-- The extremes depend on the elements alone, not on their order or number. -/
def congr (e : Extremes l) (h : ∀ x,x∈l ↔ x∈l') : Extremes l' where
  least := e.least
  greatest := e.greatest
  isLeast := ⟨(h _).mp e.isLeast.1,fun x hx => e.isLeast.2 ((h x).mpr hx)⟩
  isGreatest := ⟨(h _).mp e.isGreatest.1,fun x hx => e.isGreatest.2 ((h x).mpr hx)⟩

/-- One more element at the end. -/
def snoc (e : Extremes l) (x : α) : Extremes (l++[x]) :=
  (e.cons x).congr fun _ => (List.perm_append_singleton x l).symm.mem_iff

/-- Every list with an element has extremes. -/
theorem nonempty_of_ne_nil (h : l≠[]) : Nonempty (Extremes l) := by
  induction l with
  | nil => exact absurd rfl h
  | cons x l ih =>
    by_cases hl : l=[]
    · subst hl
      exact ⟨single x⟩
    · obtain ⟨e⟩ := ih hl
      exact ⟨e.cons x⟩

/-- Two lists of the same elements have the same extremes. -/
theorem eq_of_mem_iff (e : Extremes l) (e' : Extremes l') (h : ∀ x,x∈l ↔ x∈l') :
    e.least=e'.least ∧ e.greatest=e'.greatest :=
  ⟨(e.congr h).isLeast.unique e'.isLeast,(e.congr h).isGreatest.unique e'.isGreatest⟩

end Order

section Sum

variable {α : Type*} [AddCommGroup α] [LinearOrder α] {l l' : List α}

/-- The sum without the least and the greatest element. -/
def trimmed (e : Extremes l) : α := l.sum-e.least-e.greatest

/-- It does not depend on the order. -/
theorem trimmed_perm (e : Extremes l) (e' : Extremes l') (h : l.Perm l') :
    e.trimmed=e'.trimmed := by
  obtain ⟨hleast,hgreatest⟩ := e.eq_of_mem_iff e' fun _ => h.mem_iff
  rw [trimmed,trimmed,hleast,hgreatest,h.sum_eq]

/-- Of an element and the others, the element counts clamped between the
extremes of the others. -/
theorem trimmed_cons (x : α) (e : Extremes l) :
    (e.cons x).trimmed=e.trimmed+max e.least (min x e.greatest) := by
  have hle : e.least≤e.greatest := e.isLeast.2 e.isGreatest.1
  simp only [trimmed,cons,List.sum_cons]
  rcases le_total x e.least with hx | hx
  · have hxg : x≤e.greatest := hx.trans hle
    rw [min_eq_left hx,max_eq_right hxg,min_eq_left hxg,max_eq_left hx]
    abel
  · rcases le_total x e.greatest with hxg | hxg
    · rw [min_eq_right hx,max_eq_right hxg,min_eq_left hxg,max_eq_right hx]
      abel
    · rw [min_eq_right hx,max_eq_left hxg,min_eq_right hxg,max_eq_right hle]
      abel

variable [IsOrderedAddMonoid α]

/-- Raising one element raises the trimmed sum, whichever elements are trimmed
before and after. -/
theorem trimmed_le_of_raise {pre post : List α} {x y : α} (hxy : x≤y) (hrest : pre++post≠[])
    (e : Extremes (pre++x::post)) (e' : Extremes (pre++y::post)) : e.trimmed≤e'.trimmed := by
  obtain ⟨others⟩ := nonempty_of_ne_nil hrest
  calc e.trimmed=(others.cons x).trimmed := e.trimmed_perm _ List.perm_middle
    _ = others.trimmed+max others.least (min x others.greatest) := trimmed_cons x others
    _ ≤ others.trimmed+max others.least (min y others.greatest) := by gcongr
    _ = (others.cons y).trimmed := (trimmed_cons y others).symm
    _ = e'.trimmed := (others.cons y).trimmed_perm e' List.perm_middle.symm

/-- Raising elements behind a prefix that stays, one after the other. -/
theorem trimmed_le_of_raises {pre : List α} (h : List.Forall₂ (· ≤ ·) l l')
    (hlength : 2≤(pre++l).length) (e : Extremes (pre++l)) (e' : Extremes (pre++l')) :
    e.trimmed≤e'.trimmed := by
  induction h generalizing pre with
  | nil => exact (e.trimmed_perm e' (List.Perm.refl _)).le
  | @cons x y xs ys hxy hrest ih =>
    have hothers : pre++xs≠[] := by
      intro hnil
      have := congrArg List.length hnil
      simp only [List.length_append,List.length_cons,List.length_nil] at this hlength
      omega
    obtain ⟨middle⟩ := @nonempty_of_ne_nil α _ (pre++y::xs) (by simp)
    have hshift : ∀ zs : List α,pre++y::zs=(pre++[y])++zs := fun zs => by simp
    have hfirst : e.trimmed ≤ middle.trimmed := trimmed_le_of_raise hxy hothers e middle
    have hothersRaised := @ih (pre++[y]) (by simpa using hlength)
    rw [←hshift,←hshift] at hothersRaised
    exact hfirst.trans (hothersRaised middle e')

/-- The trimmed sum of a list of at least two is monotone in every element. -/
theorem trimmed_mono (h : List.Forall₂ (· ≤ ·) l l') (hlength : 2≤l.length) (e : Extremes l)
    (e' : Extremes l') : e.trimmed≤e'.trimmed :=
  @trimmed_le_of_raises α _ _ l l' _ [] h hlength e e'

/-- What is left has two elements less, none below the least one. -/
theorem nsmul_least_le_trimmed (hlength : 2≤l.length) (e : Extremes l) :
    (l.length-2)•e.least≤e.trimmed := by
  have hsum : e.greatest+(l.erase e.greatest).sum=l.sum := List.sum_erase e.isGreatest.1
  have hlen : (l.erase e.greatest).length=(l.length-2)+1 := by
    rw [List.length_erase_of_mem e.isGreatest.1]
    omega
  have hrest : (l.erase e.greatest).length•e.least≤(l.erase e.greatest).sum :=
    List.card_nsmul_le_sum _ _ fun x hx => e.isLeast.2 (List.mem_of_mem_erase hx)
  rw [hlen,succ_nsmul] at hrest
  calc (l.length-2)•e.least≤(l.erase e.greatest).sum-e.least := le_sub_iff_add_le.mpr hrest
    _ = e.trimmed := by
      rw [trimmed,←hsum]
      abel

/-- And none above the greatest one. -/
theorem trimmed_le_nsmul_greatest (hlength : 2≤l.length) (e : Extremes l) :
    e.trimmed≤(l.length-2)•e.greatest := by
  have hsum : e.least+(l.erase e.least).sum=l.sum := List.sum_erase e.isLeast.1
  have hlen : (l.erase e.least).length=(l.length-2)+1 := by
    rw [List.length_erase_of_mem e.isLeast.1]
    omega
  have hrest : (l.erase e.least).sum≤(l.erase e.least).length•e.greatest :=
    List.sum_le_card_nsmul _ _ fun x hx => e.isGreatest.2 (List.mem_of_mem_erase hx)
  rw [hlen,succ_nsmul] at hrest
  calc e.trimmed=(l.erase e.least).sum-e.greatest := by
        rw [trimmed,←hsum]
        abel
    _ ≤ (l.length-2)•e.greatest := sub_le_iff_le_add.mpr hrest

end Sum

section Mean

variable {l l' : List ℤ}

/-- The mean of the elements without the extremes, truncated towards zero. -/
def mean (e : Extremes l) : ℤ := e.trimmed.tdiv (l.length-2)

/-- It does not depend on the order. -/
theorem mean_perm (e : Extremes l) (e' : Extremes l') (h : l.Perm l') : e.mean=e'.mean := by
  rw [mean,mean,e.trimmed_perm e' h,h.length_eq]

/-- It is monotone in every element: the quotient is, on both sides of zero. -/
theorem mean_mono (h : List.Forall₂ (· ≤ ·) l l') (hlength : 3≤l.length) (e : Extremes l)
    (e' : Extremes l') : e.mean≤e'.mean := by
  rw [mean,mean,←h.length_eq]
  exact Int.tdiv_le_tdiv (by omega) (trimmed_mono h (by omega) e e')

/-- It lies between the extremes. -/
theorem mean_between (hlength : 3≤l.length) (e : Extremes l) :
    e.least≤e.mean ∧ e.mean≤e.greatest := by
  have hpos : (0 : ℤ) < l.length-2 := by omega
  have hcast : ((l.length-2 : ℕ) : ℤ)=(l.length : ℤ)-2 := by omega
  have hlow := e.nsmul_least_le_trimmed (by omega)
  have hhigh := e.trimmed_le_nsmul_greatest (by omega)
  rw [nsmul_eq_mul,hcast] at hlow hhigh
  constructor
  · calc e.least=(((l.length : ℤ)-2)*e.least).tdiv (l.length-2) :=
          (Int.mul_tdiv_cancel_left _ hpos.ne').symm
      _ ≤ e.mean := Int.tdiv_le_tdiv hpos hlow
  · calc e.mean≤(((l.length : ℤ)-2)*e.greatest).tdiv (l.length-2) := Int.tdiv_le_tdiv hpos hhigh
      _ = e.greatest := Int.mul_tdiv_cancel_left _ hpos.ne'

end Mean

end Extremes

end ZephyrApp.TrimmedMean

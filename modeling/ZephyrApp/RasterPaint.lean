import Mathlib.Tactic

/-!
# Rectangles painted over each other

A patch is a rectangle with its content. Of a list of patches that are painted in order, a
point takes its content from the last one that covers it, and keeps its own where none does.
-/

namespace ZephyrApp.RasterPaint

variable {α : Type*}

/-- A picture: the content of each column and row. -/
abbrev Raster (α : Type*) := ℕ → ℕ → α

/-- A rectangle with its content, which is counted from the corner. -/
structure Patch (α : Type*) where
  /-- The first column. -/
  x : ℕ
  /-- The first row. -/
  y : ℕ
  /-- The number of columns. -/
  w : ℕ
  /-- The number of rows. -/
  h : ℕ
  /-- The content. -/
  pixel : Raster α

/-- The content of a rectangle at a point of the picture, none outside. -/
def within (x y w h : ℕ) (f : Raster α) (i j : ℕ) : Option α :=
  if (x ≤ i ∧ i < x+w) ∧ y ≤ j ∧ j < y+h then some (f (i-x) (j-y)) else none

/-- What a patch gives to a point. -/
def Patch.content (p : Patch α) : ℕ → ℕ → Option α := within p.x p.y p.w p.h p.pixel

/-- One patch painted. -/
def paint (s : Raster α) (p : Patch α) : Raster α := fun i j => (p.content i j).getD (s i j)

/-- Patches painted in order. -/
def paintAll (s : Raster α) (ps : List (Patch α)) : Raster α := ps.foldl paint s

/-- What the last patch that covers a point gives to it, none where none covers it. -/
def content : List (Patch α) → ℕ → ℕ → Option α
  | [],_,_ => none
  | p::ps,i,j => (content ps i j).or (p.content i j)

/-- A point inside. -/
theorem within_pos {x y w h : ℕ} (f : Raster α) {i j : ℕ}
    (hin : (x ≤ i ∧ i < x+w) ∧ y ≤ j ∧ j < y+h) : within x y w h f i j=some (f (i-x) (j-y)) :=
  if_pos hin

/-- A point outside. -/
theorem within_neg {x y w h : ℕ} (f : Raster α) {i j : ℕ}
    (hout : ¬((x ≤ i ∧ i < x+w) ∧ y ≤ j ∧ j < y+h)) : within x y w h f i j=none :=
  if_neg hout

/-- Two contents that agree inside. -/
theorem within_congr {x y w h : ℕ} {f g : Raster α} (hfg : ∀ i j,i < w → j < h → f i j=g i j)
    (i j : ℕ) : within x y w h f i j=within x y w h g i j := by
  by_cases hin : (x ≤ i ∧ i < x+w) ∧ y ≤ j ∧ j < y+h
  · rw [within_pos f hin,within_pos g hin,hfg _ _ (by omega) (by omega)]
  · rw [within_neg f hin,within_neg g hin]

/-- Two lists after each other: the second covers the first. -/
theorem content_append (ps qs : List (Patch α)) (i j : ℕ) :
    content (ps++qs) i j=(content qs i j).or (content ps i j) := by
  induction ps with
  | nil => exact (Option.or_none).symm
  | cons p ps ih => rw [List.cons_append,content,ih,content,Option.or_assoc]

/-- A point of the picture after painting. -/
theorem paintAll_apply (s : Raster α) (ps : List (Patch α)) (i j : ℕ) :
    paintAll s ps i j=(content ps i j).getD (s i j) := by
  induction ps generalizing s with
  | nil => rfl
  | cons p ps ih =>
    change paintAll (paint s p) ps i j=_
    rw [ih,content]
    cases content ps i j with
    | none => rfl
    | some a => rfl

/-- Patches of one size, side by side. -/
def cellRow (x y cw ch : ℕ) : List (Raster α) → List (Patch α)
  | [] => []
  | g::gs => ⟨x,y,cw,ch,g⟩::cellRow (x+cw) y cw ch gs

/-- A row of cells is one rectangle, whose columns fall into the cells. -/
theorem content_cellRow {cw : ℕ} (hcw : 0 < cw) (x y ch : ℕ) (gs : List (Raster α)) (d : Raster α)
    (i j : ℕ) : content (cellRow x y cw ch gs) i j=
      within x y (cw*gs.length) ch (fun i j => gs.getD (i/cw) d (i%cw) j) i j := by
  induction gs generalizing x with
  | nil =>
    rw [within_neg _ (by simp only [List.length_nil,Nat.mul_zero,Nat.add_zero]; omega)]
    rfl
  | cons g gs ih =>
    have hlen : cw*(g::gs).length=cw+cw*gs.length := by
      rw [List.length_cons,Nat.mul_add,Nat.mul_one,Nat.add_comm]
    rw [cellRow,content,ih,hlen]
    dsimp only [Patch.content]
    by_cases hrow : y ≤ j ∧ j < y+ch
    · by_cases hfirst : i < x+cw
      · rw [within_neg _ (by omega),Option.none_or]
        by_cases hleft : x ≤ i
        · have hsmall : i-x < cw := by omega
          rw [within_pos _ ⟨⟨hleft,hfirst⟩,hrow⟩,within_pos _ ⟨⟨hleft,by omega⟩,hrow⟩,
            Nat.div_eq_of_lt hsmall,Nat.mod_eq_of_lt hsmall]
          rfl
        · rw [within_neg _ (by omega),within_neg _ (by omega)]
      · by_cases hlast : i < x+(cw+cw*gs.length)
        · have hsplit : i-x=i-(x+cw)+cw := by omega
          rw [within_pos _ ⟨⟨by omega,by omega⟩,hrow⟩,within_pos _ ⟨⟨by omega,hlast⟩,hrow⟩,
            Option.some_or,hsplit,Nat.add_div_right _ hcw,Nat.add_mod_right]
          rfl
        · rw [within_neg _ (by omega),within_neg _ (by omega),within_neg _ (by omega),
            Option.none_or]
    · rw [within_neg _ (by omega),within_neg _ (by omega),within_neg _ (by omega),Option.none_or]

end ZephyrApp.RasterPaint

import ZephyrApp.MachineBytes

/-!
# A flash area that is written in place

The interface of an area that is opened, erased as a whole and written at any
offset. A place is fresh from an erase to the first write to it; what a second
write leaves there is not known. Writes beyond the area are refused. A list of
pieces may be written to one offset, one over the other: only the places of the
first of them are sure to hold what was written. A memory whose places are
spoilt by a second write is a model.
-/

namespace ZephyrApp.FlashArea

open MachineBytes

/-- The operations of an area over the states of a device. Each reports whether
it succeeded. -/
structure AreaFlash (δ : Type) where
  /-- `fa_size`, the bytes of the area. -/
  size : ℕ
  /-- The byte at an offset. -/
  read : δ → ℕ → Byte
  /-- The place has not been written since it was erased. -/
  Fresh : δ → ℕ → Prop
  /-- `flash_area_open`. -/
  areaOpen : δ → Bool×δ
  /-- `flash_area_erase` of the whole area. -/
  areaErase : δ → Bool×δ
  /-- `flash_area_write` of bytes to an offset. -/
  areaWrite : δ → ℕ → List Byte → Bool×δ

/-- What the operations promise. -/
structure AreaFlash.Lawful {δ : Type} (F : AreaFlash δ) : Prop where
  /-- A successful erase makes all places fresh. -/
  erase_ok : ∀ d,(F.areaErase d).1=true → ∀ i < F.size,F.Fresh (F.areaErase d).2 i
  /-- A write beyond the area is refused. -/
  write_out : ∀ d off bytes,F.size < off+bytes.length → F.areaWrite d off bytes=(false,d)
  /-- A successful write to fresh places stores the bytes. -/
  write_ok : ∀ d off bytes,(F.areaWrite d off bytes).1=true →
    (∀ i < bytes.length,F.Fresh d (off+i)) →
      ∀ i < bytes.length,F.read (F.areaWrite d off bytes).2 (off+i)=bytes.getD i 0
  /-- A successful write leaves the other places. -/
  write_frame : ∀ d off bytes,(F.areaWrite d off bytes).1=true →
    ∀ i,i < off ∨ off+bytes.length ≤ i → F.read (F.areaWrite d off bytes).2 i=F.read d i ∧
      (F.Fresh (F.areaWrite d off bytes).2 i ↔ F.Fresh d i)

section Counting

/-- The number of pieces that have bytes. -/
def filled (pieces : List (List Byte)) : ℕ := (pieces.filter fun p => !p.isEmpty).length

/-- An empty piece does not count. -/
theorem filled_nil_cons (pieces : List (List Byte)) : filled ([]::pieces)=filled pieces := rfl

/-- A piece with bytes counts. -/
theorem filled_cons (b : Byte) (bytes : List Byte) (pieces : List (List Byte)) :
    filled ((b::bytes)::pieces)=filled pieces+1 := rfl

/-- No piece has bytes exactly if there are none altogether. -/
theorem filled_eq_zero (pieces : List (List Byte)) : filled pieces=0 ↔ pieces.flatten=[] := by
  induction pieces with
  | nil => exact iff_of_true rfl rfl
  | cons bytes pieces ih =>
    cases bytes with
    | nil => rwa [filled_nil_cons,List.flatten_cons,List.nil_append]
    | cons b bytes =>
      rw [filled_cons]
      exact iff_of_false (Nat.succ_ne_zero _) (List.cons_ne_nil _ _)

/-- If at most one piece has bytes, that piece is all there is. -/
theorem flatten_of_filled {pieces : List (List Byte)} (h : filled pieces≤1) :
    pieces.flatten=[] ∨ pieces.flatten∈pieces := by
  induction pieces with
  | nil => exact Or.inl rfl
  | cons bytes pieces ih =>
    cases bytes with
    | nil =>
      rw [filled_nil_cons] at h
      exact (ih h).imp_right (List.mem_cons_of_mem _)
    | cons b bytes =>
      rw [filled_cons] at h
      rw [List.flatten_cons,(filled_eq_zero pieces).mp (by omega),List.append_nil]
      exact Or.inr List.mem_cons_self

end Counting

section Pieces

variable {δ : Type} (F : AreaFlash δ) (off : ℕ)

/-- The device after writing pieces to one offset. -/
def writeEach (d : δ) (pieces : List (List Byte)) : δ :=
  pieces.foldl (fun d bytes => (F.areaWrite d off bytes).2) d

/-- All these writes succeed. -/
def AllWritten : δ → List (List Byte) → Prop
  | _,[] => True
  | d,bytes::pieces =>
    (F.areaWrite d off bytes).1=true ∧ AllWritten (F.areaWrite d off bytes).2 pieces

variable {F off} {d : δ} {pieces : List (List Byte)}

/-- Pieces that are written lie in the area. -/
theorem AllWritten.inside (hF : F.Lawful) (h : AllWritten F off d pieces) :
    ∀ bytes∈pieces,off+bytes.length≤F.size := by
  induction pieces generalizing d with
  | nil => exact fun bytes hmem => absurd hmem List.not_mem_nil
  | cons bytes pieces ih =>
    intro b hb
    rcases List.mem_cons.mp hb with rfl | hb
    · by_contra hout
      have hrefused := hF.write_out d off b (by omega)
      have hwrote := h.1
      rw [hrefused] at hwrote
      exact Bool.false_ne_true hwrote
    · exact ih h.2 b hb

/-- Nothing below the offset changes. -/
theorem read_writeEach_below (hF : F.Lawful) (h : AllWritten F off d pieces) {i : ℕ}
    (hi : i < off) : F.read (writeEach F off d pieces) i=F.read d i := by
  induction pieces generalizing d with
  | nil => rfl
  | cons bytes pieces ih =>
    exact (ih h.2).trans (hF.write_frame d off bytes h.1 i (Or.inl hi)).1

/-- Empty pieces change nothing. -/
theorem read_writeEach_empty (hF : F.Lawful) (h : AllWritten F off d pieces)
    (hempty : pieces.flatten=[]) (i : ℕ) :
    F.read (writeEach F off d pieces) i=F.read d i := by
  induction pieces generalizing d with
  | nil => rfl
  | cons bytes pieces ih =>
    rw [List.flatten_cons,List.append_eq_nil_iff] at hempty
    refine (ih h.2 hempty.2).trans (hF.write_frame d off bytes h.1 i ?_).1
    rw [hempty.1,List.length_nil]
    omega

/-- At most one piece with bytes, over fresh places, is held from the offset on. -/
theorem read_writeEach_single (hF : F.Lawful) (h : AllWritten F off d pieces)
    (hone : filled pieces≤1) (hfresh : ∀ i,off ≤ i → i < F.size → F.Fresh d i) :
    ∀ i < pieces.flatten.length,
      F.read (writeEach F off d pieces) (off+i)=pieces.flatten.getD i 0 := by
  induction pieces generalizing d with
  | nil => exact fun i hi => absurd hi (Nat.not_lt_zero i)
  | cons bytes pieces ih =>
    have hinside := h.inside hF bytes List.mem_cons_self
    cases bytes with
    | nil =>
      refine ih h.2 hone fun i hlow hhigh => ?_
      exact (hF.write_frame d off [] h.1 i (Or.inr hlow)).2.mpr (hfresh i hlow hhigh)
    | cons b bytes =>
      rw [filled_cons] at hone
      have hrest : pieces.flatten=[] := (filled_eq_zero pieces).mp (by omega)
      intro i hi
      rw [List.flatten_cons,hrest,List.append_nil] at hi ⊢
      refine (read_writeEach_empty hF h.2 hrest (off+i)).trans ?_
      exact hF.write_ok d off (b::bytes) h.1 (fun j hj => hfresh _ (by omega) (by omega)) i hi

end Pieces

section Memory

/-- A place of a memory that a second write spoils. -/
inductive Cell where
  /-- It is erased. -/
  | erased
  /-- It was written once. -/
  | holds (b : Byte)
  /-- It was written again. -/
  | spoilt (b : Byte)
deriving DecidableEq

/-- What is read from a place: once spoilt, not what was written first. -/
def Cell.read : Cell → Byte
  | .erased => 0xFF
  | .holds b => b
  | .spoilt b => ~~~b

/-- A write to a place. -/
def Cell.put (b : Byte) : Cell → Cell
  | .erased => .holds b
  | .holds first => .spoilt first
  | .spoilt first => .spoilt first

/-- An area of such places. It refuses nothing but writes beyond it. -/
def writeOnce (n : ℕ) : AreaFlash (ℕ → Cell) where
  size := n
  read d i := (d i).read
  Fresh d i := d i=.erased
  areaOpen d := (true,d)
  areaErase _ := (true,fun _ => .erased)
  areaWrite d off bytes :=
    if off+bytes.length≤n then
      (true,fun i => if off ≤ i ∧ i < off+bytes.length then (d i).put (bytes.getD (i-off) 0) else d i)
    else (false,d)

/-- The memory obeys the laws. -/
theorem writeOnce_lawful (n : ℕ) : (writeOnce n).Lawful where
  erase_ok _ _ _ _ := rfl
  write_out d off bytes h := by
    simp only [writeOnce] at h ⊢
    rw [if_neg (by omega)]
  write_ok d off bytes h hfresh i hi := by
    simp only [writeOnce] at h hfresh ⊢
    split at h
    · rename_i hin
      rw [if_pos hin]
      dsimp only
      rw [if_pos ⟨by omega,by omega⟩,hfresh i hi,Nat.add_sub_cancel_left]
      rfl
    · exact absurd h Bool.false_ne_true
  write_frame d off bytes h i hi := by
    simp only [writeOnce] at h ⊢
    split at h
    · rename_i hin
      rw [if_pos hin]
      dsimp only
      rw [if_neg (by omega)]
      exact ⟨rfl,Iff.rfl⟩
    · exact absurd h Bool.false_ne_true

/-- A write inside the memory succeeds. -/
theorem writeOnce_write {n off : ℕ} {bytes : List Byte} (d : ℕ → Cell)
    (h : ((writeOnce n).areaWrite d off bytes).1=false) : n < off+bytes.length := by
  simp only [writeOnce] at h
  split at h
  · cases h
  · omega

/-- The first place of a piece that is written. -/
theorem writeOnce_first {n off : ℕ} {bytes : List Byte} (d : ℕ → Cell)
    (h : ((writeOnce n).areaWrite d off bytes).1=true) :
    ((writeOnce n).areaWrite d off bytes).2 off=
      match bytes with
      | [] => d off
      | b::_ => (d off).put b := by
  simp only [writeOnce] at h ⊢
  split at h
  · rename_i hin
    rw [if_pos hin]
    cases bytes with
    | nil => exact if_neg (by rw [List.length_nil]; omega)
    | cons b bytes =>
      refine (if_pos ⟨le_refl off,by rw [List.length_cons]; omega⟩).trans ?_
      rw [Nat.sub_self]
      rfl
  · exact absurd h Bool.false_ne_true

/-- A spoilt place stays so. -/
theorem writeOnce_spoilt {n off : ℕ} {d : ℕ → Cell} {pieces : List (List Byte)} {b : Byte}
    (h : AllWritten (writeOnce n) off d pieces) (hd : d off=.spoilt b) :
    writeEach (writeOnce n) off d pieces off=.spoilt b := by
  induction pieces generalizing d with
  | nil => exact hd
  | cons bytes pieces ih =>
    have hfirst := writeOnce_first d h.1
    rw [hd] at hfirst
    refine ih h.2 (hfirst.trans ?_)
    cases bytes <;> rfl

/-- A place that holds a byte is spoilt by one more piece with bytes. -/
theorem writeOnce_again {n off : ℕ} {d : ℕ → Cell} {pieces : List (List Byte)} {b : Byte}
    (h : AllWritten (writeOnce n) off d pieces) (hd : d off=.holds b)
    (hmore : pieces.flatten≠[]) : writeEach (writeOnce n) off d pieces off=.spoilt b := by
  induction pieces generalizing d with
  | nil => exact absurd rfl hmore
  | cons bytes pieces ih =>
    have hfirst := writeOnce_first d h.1
    rw [hd] at hfirst
    cases bytes with
    | nil => exact ih h.2 hfirst hmore
    | cons c bytes =>
      have hrest := writeOnce_spoilt h.2 hfirst
      exact hrest

/-- Two pieces with bytes spoil the place where the first byte of all is held. -/
theorem writeOnce_twice {n off : ℕ} {d : ℕ → Cell} {pieces : List (List Byte)}
    (h : AllWritten (writeOnce n) off d pieces) (hd : d off=.erased)
    (hmore : 1 < filled pieces) :
    ∃ b,pieces.flatten.head?=some b ∧ writeEach (writeOnce n) off d pieces off=.spoilt b := by
  induction pieces generalizing d with
  | nil => exact absurd hmore (Nat.not_lt_zero 1)
  | cons bytes pieces ih =>
    have hfirst := writeOnce_first d h.1
    rw [hd] at hfirst
    cases bytes with
    | nil => exact ih h.2 hfirst hmore
    | cons c bytes =>
      have hrest : pieces.flatten≠[] := by
        intro hnone
        rw [filled_cons,(filled_eq_zero pieces).mpr hnone] at hmore
        exact Nat.lt_irrefl 1 hmore
      have hspoilt := writeOnce_again h.2 hfirst hrest
      exact ⟨c,rfl,hspoilt⟩

end Memory

end ZephyrApp.FlashArea

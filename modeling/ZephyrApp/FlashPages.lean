import ZephyrApp.MachineBytes

/-!
# Flash memory in pages

A flash device read byte by byte, erased page by page and written to erased
places. Erasing and writing may fail, and about a failed operation nothing is
known. Two predicates say that a range is erased and that bytes are held from
an address on; a successful operation moves the line between the two. A memory
with pages of equal size is a model.
-/

namespace ZephyrApp.FlashPages

open MachineBytes

/-- A page of the device. -/
structure Page where
  /-- Its first address. -/
  start : ℕ
  /-- Its number of bytes. -/
  size : ℕ
  deriving DecidableEq

/-- The addresses of a page. -/
def Page.Contains (p : Page) (a : ℕ) : Prop := p.start≤a ∧ a < p.start+p.size

instance (p : Page) (a : ℕ) : Decidable (p.Contains a) :=
  inferInstanceAs (Decidable (p.start≤a ∧ a < p.start+p.size))

/-- The operations of a device over its states. Erasing and writing report
whether they succeeded. -/
structure PagedFlash (δ : Type) where
  /-- The byte at an address. -/
  read : δ → ℕ → Byte
  /-- The page of an address, if it has one. -/
  pageInfo : ℕ → Option Page
  /-- Erase a number of bytes from an address on. -/
  erase : δ → ℕ → ℕ → Bool×δ
  /-- Write bytes from an address on. -/
  write : δ → ℕ → List Byte → Bool×δ
  /-- Restart the system. -/
  restart : δ → δ

namespace PagedFlash

variable {δ : Type}

/-- What the successful operations promise. -/
structure Lawful (F : PagedFlash δ) : Prop where
  /-- The page of an address contains it. -/
  page_mem : ∀ a p,F.pageInfo a=some p → p.Contains a
  /-- Pages are disjoint. -/
  page_same : ∀ a b p,F.pageInfo a=some p → p.Contains b → F.pageInfo b=some p
  /-- Erasing a page clears it and nothing else. -/
  erase_ok : ∀ d a p,F.pageInfo a=some p → (F.erase d p.start p.size).1=true →
    ∀ b,F.read (F.erase d p.start p.size).2 b=if p.Contains b then 0xFF else F.read d b
  /-- Writing to erased places stores the bytes and nothing else. -/
  write_ok : ∀ d a bytes,(∀ i < bytes.length,F.read d (a+i)=0xFF) → (F.write d a bytes).1=true →
    ∀ b,F.read (F.write d a bytes).2 b=
      if a≤b ∧ b < a+bytes.length then bytes.getD (b-a) 0 else F.read d b

/-- On a faultless device every operation succeeds. -/
structure Faultless (F : PagedFlash δ) : Prop where
  /-- Erasing a page succeeds. -/
  erase_ok : ∀ d a p,F.pageInfo a=some p → (F.erase d p.start p.size).1=true
  /-- Writing succeeds. -/
  write_ok : ∀ d a bytes,(F.write d a bytes).1=true

/-- No page crosses the address. -/
def Boundary (F : PagedFlash δ) (a : ℕ) : Prop :=
  ∀ b p,F.pageInfo b=some p → p.start+p.size≤a ∨ a≤p.start

/-- Every address of the range has a page. -/
def Covers (F : PagedFlash δ) (lo hi : ℕ) : Prop :=
  ∀ a,lo≤a → a < hi → (F.pageInfo a).isSome=true

/-- Every byte of the range is erased. -/
def Erased (F : PagedFlash δ) (d : δ) (lo hi : ℕ) : Prop :=
  ∀ a,lo≤a → a < hi → F.read d a=0xFF

/-- The pages that meet a range, each once and in ascending order. -/
structure Tiles (F : PagedFlash δ) (lo hi : ℕ) (pages : List Page) : Prop where
  /-- They are the pages of the addresses of the range. -/
  mem : ∀ p,p∈pages ↔ ∃ a,lo≤a ∧ a < hi ∧ F.pageInfo a=some p
  /-- Each one ends before the next one starts. -/
  ascending : pages.Pairwise fun p q => p.start+p.size≤q.start

/-- The device holds the bytes from the address on. -/
def Holds (F : PagedFlash δ) (d : δ) (lo : ℕ) (bytes : List Byte) : Prop :=
  ∀ i < bytes.length,F.read d (lo+i)=bytes.getD i 0

/-- The word at an address, lowest byte first. -/
def word (F : PagedFlash δ) (d : δ) (a : ℕ) : Word :=
  sysGetLe32 [F.read d a,F.read d (a+1),F.read d (a+2),F.read d (a+3)] 0

/-- The page of an address meets a range. -/
def Meets (F : PagedFlash δ) (a lo hi : ℕ) : Prop :=
  ∃ p b,F.pageInfo a=some p ∧ lo≤b ∧ b < hi ∧ p.Contains b

end PagedFlash

section Laws

variable {δ : Type} {F : PagedFlash δ}

/-- The page of a boundary starts there. -/
theorem page_start (hF : F.Lawful) {a : ℕ} (ha : F.Boundary a) {p : Page}
    (hp : F.pageInfo a=some p) : p.start=a := by
  have hmem := hF.page_mem a p hp
  have hside := ha a p hp
  unfold Page.Contains at hmem
  omega

/-- A page has at least one byte. -/
theorem page_size_pos (hF : F.Lawful) {a : ℕ} {p : Page} (hp : F.pageInfo a=some p) :
    0 < p.size := by
  have hmem := hF.page_mem a p hp
  unfold Page.Contains at hmem
  omega

/-- The end of a page is a boundary. -/
theorem page_end_boundary (hF : F.Lawful) {a : ℕ} {p : Page} (hp : F.pageInfo a=some p) :
    F.Boundary (p.start+p.size) := by
  intro b q hq
  have hpos := page_size_pos hF hp
  by_contra hcross
  rw [not_or,Nat.not_le,Nat.not_le] at hcross
  -- a page across the end contains the last byte before it
  have hlast : F.pageInfo (p.start+p.size-1)=some p :=
    hF.page_same a _ p hp ⟨by omega,by omega⟩
  have hother : F.pageInfo (p.start+p.size-1)=some q :=
    hF.page_same b _ q hq ⟨by omega,by omega⟩
  have hpq : p=q := Option.some.inj (hlast.symm.trans hother)
  rw [hpq] at hcross
  omega

/-- Erasing the page that starts at the end of an erased range extends it. -/
theorem erased_page (hF : F.Lawful) {d : δ} {lo a : ℕ} {p : Page} (hp : F.pageInfo a=some p)
    (hstart : p.start=a) (h : F.Erased d lo a) (hok : (F.erase d p.start p.size).1=true) :
    F.Erased (F.erase d p.start p.size).2 lo (p.start+p.size) := by
  intro b hlo hhi
  rw [hF.erase_ok d a p hp hok]
  split
  · rfl
  · rename_i hout
    unfold Page.Contains at hout
    exact h b hlo (by omega)

/-- A part of an erased range is erased. -/
theorem PagedFlash.Erased.mono {d : δ} {lo lo' hi hi' : ℕ} (h : F.Erased d lo hi) (hlo : lo≤lo')
    (hhi : hi'≤hi) : F.Erased d lo' hi' :=
  fun a ha hb => h a (hlo.trans ha) (Nat.lt_of_lt_of_le hb hhi)

/-- No page meets an empty range. -/
theorem tiles_nil (F : PagedFlash δ) {lo hi : ℕ} (h : hi≤lo) : F.Tiles lo hi [] :=
  ⟨fun p => iff_of_false List.not_mem_nil fun ⟨a,hlo,hhi,_⟩ => by omega,List.Pairwise.nil⟩

/-- The page that starts a range comes before those of the rest of the range,
which is empty if the page goes beyond it. -/
theorem tiles_cons (hF : F.Lawful) {lo hi : ℕ} {p : Page} {rest : List Page} (hlt : lo < hi)
    (hp : F.pageInfo lo=some p) (hstart : p.start=lo)
    (h : F.Tiles (lo+p.size) (max hi (lo+p.size)) rest) : F.Tiles lo hi (p::rest) := by
  refine ⟨fun q => ?_,List.pairwise_cons.mpr ⟨fun q hq => ?_,h.ascending⟩⟩
  · rw [List.mem_cons,h.mem]
    constructor
    · rintro (rfl | ⟨a,hlo,hhi,ha⟩)
      · exact ⟨lo,le_refl lo,hlt,hp⟩
      · exact ⟨a,by omega,by omega,ha⟩
    · rintro ⟨a,hlo,hhi,ha⟩
      by_cases hin : a < lo+p.size
      · have hsame := hF.page_same lo a p hp ⟨by omega,by omega⟩
        exact Or.inl (Option.some.inj (ha.symm.trans hsame))
      · exact Or.inr ⟨a,by omega,by omega,ha⟩
  · obtain ⟨a,hlo,hhi,ha⟩ := (h.mem q).mp hq
    have hside := page_end_boundary hF hp a q ha
    have hmem := hF.page_mem a q ha
    unfold Page.Contains at hmem
    omega

/-- The pages of a range between boundaries lie in it. -/
theorem PagedFlash.Tiles.inside (hF : F.Lawful) {lo hi top : ℕ} {pages : List Page}
    (h : F.Tiles lo hi pages) (hlow : F.Boundary lo) (hhigh : F.Boundary top) (hle : hi≤top) :
    ∀ p∈pages,lo≤p.start ∧ p.start+p.size≤top := by
  intro p hp
  obtain ⟨a,hlo,hhi,ha⟩ := (h.mem p).mp hp
  have hmem := hF.page_mem a p ha
  have hleft := hlow a p ha
  have hright := hhigh a p ha
  unfold Page.Contains at hmem
  omega

/-- A word is made of its four bytes. -/
theorem word_congr {d d' : δ} {a : ℕ} (h : ∀ b,a≤b → b < a+4 → F.read d b=F.read d' b) :
    F.word d a=F.word d' a := by
  unfold PagedFlash.word
  rw [h a (le_refl a) (by omega),h (a+1) (by omega) (by omega),h (a+2) (by omega) (by omega),
    h (a+3) (by omega) (by omega)]

/-- A word among held bytes. -/
theorem word_of_holds {d : δ} {lo at_ : ℕ} {bytes : List Byte} (h : F.Holds d lo bytes)
    (hroom : at_+4≤bytes.length) : F.word d (lo+at_)=sysGetLe32 bytes at_ := by
  have hread : ∀ i < 4,F.read d (lo+at_+i)=bytes.getD (at_+i) 0 := by
    intro i hi
    rw [Nat.add_assoc]
    exact h (at_+i) (by omega)
  have hfirst := hread 0 (by omega)
  rw [Nat.add_zero,Nat.add_zero] at hfirst
  unfold PagedFlash.word
  rw [hfirst,hread 1 (by omega),hread 2 (by omega),hread 3 (by omega)]
  rfl

/-- A range is met at its first page or behind it. -/
theorem meets_cons (hF : F.Lawful) {lo hi a : ℕ} {p : Page} (hp : F.pageInfo lo=some p)
    (hstart : p.start=lo) (hlt : lo < hi) :
    F.Meets a lo hi ↔ p.Contains a ∨ F.Meets a (lo+p.size) (max hi (lo+p.size)) := by
  have hmem := hF.page_mem lo p hp
  constructor
  · rintro ⟨q,b,hq,hlo,hhi,hb⟩
    by_cases hin : b < lo+p.size
    · have hbp := hF.page_same lo b p hp ⟨by omega,by omega⟩
      have hbq := hF.page_same a b q hq hb
      obtain rfl : p=q := Option.some.inj (hbp.symm.trans hbq)
      exact Or.inl (hF.page_mem a p hq)
    · exact Or.inr ⟨q,b,hq,by omega,by omega,hb⟩
  · rintro (hin | ⟨q,b,hq,hlo,hhi,hb⟩)
    · exact ⟨p,lo,hF.page_same lo a p hp hin,le_refl lo,hlt,hmem⟩
    · exact ⟨q,b,hq,by omega,by omega,hb⟩

/-- No bytes are held anywhere. -/
theorem holds_nil (d : δ) (lo : ℕ) : F.Holds d lo [] :=
  fun _ h => absurd h (Nat.not_lt_zero _)

/-- Bytes written at the end of what is held are held with it. -/
theorem holds_write (hF : F.Lawful) {d : δ} {lo a hi : ℕ} {held bytes : List Byte}
    (h : F.Holds d lo held) (ha : a=lo+held.length) (he : F.Erased d a hi)
    (hroom : a+bytes.length≤hi) (hok : (F.write d a bytes).1=true) :
    F.Holds (F.write d a bytes).2 lo (held++bytes) ∧
      F.Erased (F.write d a bytes).2 (a+bytes.length) hi := by
  have hread := hF.write_ok d a bytes (fun i hi => he _ (by omega) (by omega)) hok
  subst ha
  constructor
  · intro i hi
    rw [List.length_append] at hi
    rw [hread]
    by_cases hold : i < held.length
    · rw [if_neg (by omega),List.getD_append _ _ _ _ hold]
      exact h i hold
    · rw [if_pos ⟨by omega,by omega⟩,List.getD_append_right _ _ _ _ (by omega)]
      congr 1
      omega
  · intro b hlo hhi
    rw [hread,if_neg (by omega)]
    exact he b (by omega) hhi

end Laws

section Memory

/-- A memory with pages of equal size that never fails. Writing can only clear
bits. -/
def ramPages (pageSize : ℕ) : PagedFlash (ℕ → Byte) where
  read d a := d a
  pageInfo a := if 0 < pageSize then some ⟨a/pageSize*pageSize,pageSize⟩ else none
  erase d a n := (true,fun b => if a≤b ∧ b < a+n then 0xFF else d b)
  write d a bytes :=
    (true,fun b => if a≤b ∧ b < a+bytes.length then bytes.getD (b-a) 0 &&& d b else d b)
  restart d := d

/-- The pages of the memory are the multiples of their size. -/
theorem ramPages_pageInfo {pageSize a : ℕ} {p : Page}
    (h : (ramPages pageSize).pageInfo a=some p) :
    0 < pageSize ∧ p=⟨a/pageSize*pageSize,pageSize⟩ := by
  simp only [ramPages] at h
  split at h
  · rename_i hpos
    exact ⟨hpos,(Option.some.inj h).symm⟩
  · cases h

/-- The memory obeys the laws. -/
theorem ramPages_lawful (pageSize : ℕ) : (ramPages pageSize).Lawful := by
  refine ⟨fun a p h => ?_,fun a b p h hb => ?_,fun d a p h _ b => rfl,
    fun d a bytes he _ b => ?_⟩
  · obtain ⟨hpos,rfl⟩ := ramPages_pageInfo h
    have hmod := Nat.div_add_mod' a pageSize
    have hlt := Nat.mod_lt a hpos
    unfold Page.Contains
    dsimp only
    omega
  · obtain ⟨hpos,rfl⟩ := ramPages_pageInfo h
    unfold Page.Contains at hb
    dsimp only at hb
    have hdiv : b/pageSize=a/pageSize := by
      rw [Nat.div_eq_iff hpos]
      omega
    simp only [ramPages,if_pos hpos,hdiv]
  · simp only [ramPages] at he ⊢
    split
    · rename_i hin
      have hb := he (b-a) (by omega)
      rw [Nat.add_sub_cancel' hin.1] at hb
      rw [hb]
      exact BitVec.and_allOnes
    · rfl

/-- The memory never fails. -/
theorem ramPages_faultless (pageSize : ℕ) : (ramPages pageSize).Faultless :=
  ⟨fun _ _ _ _ => rfl,fun _ _ _ => rfl⟩

/-- No page of the memory crosses a multiple of their size. -/
theorem ramPages_boundary {pageSize a : ℕ} (h : pageSize∣a) : (ramPages pageSize).Boundary a := by
  intro b p hp
  obtain ⟨hpos,rfl⟩ := ramPages_pageInfo hp
  obtain ⟨k,rfl⟩ := h
  dsimp only
  rcases Nat.lt_or_ge (b/pageSize) k with hlt | hge
  · have hstep := Nat.mul_le_mul_left pageSize (Nat.succ_le_of_lt hlt)
    rw [Nat.mul_succ,Nat.mul_comm] at hstep
    exact Or.inl hstep
  · rw [Nat.mul_comm]
    exact Or.inr (Nat.mul_le_mul_left pageSize hge)

/-- Every address of the memory has a page. -/
theorem ramPages_covers {pageSize : ℕ} (hpos : 0 < pageSize) (lo hi : ℕ) :
    (ramPages pageSize).Covers lo hi := by
  intro a _ _
  simp only [ramPages,if_pos hpos,Option.isSome_some]

end Memory

end ZephyrApp.FlashPages

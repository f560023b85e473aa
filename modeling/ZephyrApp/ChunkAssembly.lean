import Mathlib

/-!
# Assembling a buffer from numbered pieces

A buffer is filled piece by piece, each piece at the place its number gives,
and a mask marks the numbers that have arrived. Pieces may come in any order
and repeatedly. The rules relate the buffer and the mask to the latest content
of every number, until the buffer is read and the mask cleared.
-/

namespace ZephyrApp.ChunkAssembly

variable {α : Type*} {w : ℕ}

/-- The piece of a number in pieces of equal width; the last may be shorter. -/
def piece (width : ℕ) (buf : List α) (i : ℕ) : List α := (buf.drop (width*i)).take width

/-- Overwrite a part of a buffer. -/
def store (buf : List α) (at_ : ℕ) (bytes : List α) : List α :=
  buf.take at_++bytes++buf.drop (at_+bytes.length)

/-- The mask with one bit for each of the first numbers. -/
def fullMask (w n : ℕ) : BitVec w := BitVec.ofNat w (2^n-1)

/-- Pieces numbered one after the other that arrive in any order are, sorted by
their numbers, the pieces as they were sent. -/
theorem eq_of_numbered {β : Type*} {number : β → ℕ} {sent received : List β} {first : ℕ}
    (hsent : sent.map number=List.range' first sent.length) (harrived : received.Perm sent)
    (hsorted : received.Pairwise fun a b => number a ≤ number b) : received=sent := by
  have hlt : sent.Pairwise fun a b => number a < number b := by
    rw [←List.pairwise_map (f := number) (R := (· < ·)),hsent]
    exact List.pairwise_lt_range'
  have hinj : ∀ a b,a∈sent → b∈sent → number a=number b → a=b := fun a b ha hb he =>
    List.inj_on_of_nodup_map (by rw [hsent]; exact List.nodup_range') ha hb he
  refine List.Perm.eq_of_pairwise ?_ hsorted (hlt.imp Nat.le_of_lt) harrived
  exact fun a b ha hb hab hba => hinj a b (harrived.mem_iff.mp ha) hb (Nat.le_antisymm hab hba)

/-- A piece has the bytes of its place. -/
theorem piece_getElem? (width : ℕ) (buf : List α) (i k : ℕ) :
    (piece width buf i)[k]?=if k < width then buf[width*i+k]? else none := by
  rw [piece,List.getElem?_take,List.getElem?_drop]

/-- A piece is as long as its place, and the last as long as what remains. -/
theorem piece_length (width : ℕ) (buf : List α) (i : ℕ) :
    (piece width buf i).length=min width (buf.length-width*i) := by
  rw [piece,List.length_take,List.length_drop]

/-- Overwriting inside a buffer keeps its length. -/
theorem store_length {buf bytes : List α} {at_ : ℕ} (h : at_+bytes.length≤buf.length) :
    (store buf at_ bytes).length=buf.length := by
  rw [store,List.length_append,List.length_append,List.length_take,List.length_drop]
  omega

/-- An overwritten buffer has the new bytes at their place and its own
elsewhere. -/
theorem store_getElem? {buf bytes : List α} {at_ : ℕ} (h : at_+bytes.length≤buf.length) (k : ℕ) :
    (store buf at_ bytes)[k]?=
      if at_≤k ∧ k < at_+bytes.length then bytes[k-at_]? else buf[k]? := by
  have htake : (buf.take at_).length=at_ := List.length_take_of_le (by omega)
  rw [store,List.append_assoc]
  by_cases hlow : k < at_
  · rw [List.getElem?_append_left (by omega),List.getElem?_take,if_pos hlow,if_neg (by omega)]
  · rw [List.getElem?_append_right (by omega),htake]
    by_cases hmid : k < at_+bytes.length
    · rw [List.getElem?_append_left (by omega),if_pos ⟨by omega,hmid⟩]
    · rw [List.getElem?_append_right (by omega),List.getElem?_drop,if_neg fun hk => hmid hk.2]
      congr 1
      omega

/-- Overwriting nothing changes nothing. -/
theorem store_nil (buf : List α) (at_ : ℕ) : store buf at_ []=buf := by
  rw [store,List.append_nil,List.length_nil,Nat.add_zero,List.take_append_drop]

/-- Overwriting a part and then the part behind it is overwriting both. -/
theorem store_store {buf front back : List α} {at_ : ℕ}
    (h : at_+front.length+back.length≤buf.length) :
    store (store buf at_ front) (at_+front.length) back=store buf at_ (front++back) := by
  have hfront : at_+front.length≤buf.length := by omega
  have hboth : at_+(front++back).length≤buf.length := by rw [List.length_append]; omega
  have hback : at_+front.length+back.length≤(store buf at_ front).length := by
    rw [store_length hfront]
    exact h
  apply List.ext_getElem?
  intro k
  rw [store_getElem? hback,store_getElem? hfront,store_getElem? hboth,List.length_append]
  by_cases hlow : k < at_+front.length
  · rw [if_neg (by omega)]
    by_cases hin : at_≤k
    · rw [if_pos ⟨hin,hlow⟩,if_pos ⟨hin,by omega⟩,List.getElem?_append_left (by omega)]
    · rw [if_neg (by omega),if_neg (by omega)]
  · by_cases hhigh : k < at_+front.length+back.length
    · rw [if_pos ⟨by omega,hhigh⟩,if_pos ⟨by omega,by omega⟩,
        List.getElem?_append_right (by omega)]
      congr 1
      omega
    · rw [if_neg (by omega),if_neg (by omega),if_neg (by omega)]

/-- A stored piece is read back. -/
theorem piece_store_self {width i : ℕ} {buf bytes : List α} (hin : width*i≤buf.length)
    (h : bytes.length=(piece width buf i).length) :
    piece width (store buf (width*i) bytes) i=bytes := by
  rw [piece_length] at h
  have hroom : width*i+bytes.length≤buf.length := by omega
  apply List.ext_getElem?
  intro k
  rw [piece_getElem?,store_getElem? hroom]
  by_cases hk : k < bytes.length
  · rw [if_pos (by omega),if_pos ⟨by omega,by omega⟩,Nat.add_sub_cancel_left]
  · have hnone : bytes[k]?=none := List.getElem?_eq_none (by omega)
    rw [hnone]
    split
    · rw [if_neg (by omega),List.getElem?_eq_none (by omega)]
    · rfl

/-- Storing one piece leaves the others. -/
theorem piece_store_ne {width i j : ℕ} {buf bytes : List α} (hin : width*i≤buf.length)
    (h : bytes.length=(piece width buf i).length) (hij : j≠i) :
    piece width (store buf (width*i) bytes) j=piece width buf j := by
  rw [piece_length] at h
  have hroom : width*i+bytes.length≤buf.length := by omega
  apply List.ext_getElem?
  intro k
  rw [piece_getElem?,piece_getElem?,store_getElem? hroom]
  by_cases hk : k < width
  · rw [if_pos hk,if_pos hk,if_neg]
    rintro ⟨hlow,hhigh⟩
    rcases Nat.lt_or_gt_of_ne hij with hlt | hgt
    · have hstep := Nat.mul_le_mul_left width (Nat.succ_le_of_lt hlt)
      rw [Nat.mul_succ] at hstep
      omega
    · have hstep := Nat.mul_le_mul_left width (Nat.succ_le_of_lt hgt)
      rw [Nat.mul_succ] at hstep
      omega
  · rw [if_neg hk,if_neg hk]

/-- The first pieces together are the front of the buffer. -/
theorem flatMap_piece (width : ℕ) (buf : List α) (count : ℕ) :
    (List.range count).flatMap (piece width buf)=buf.take (width*count) := by
  induction count with
  | zero => rw [Nat.mul_zero,List.take_zero,List.range_zero,List.flatMap_nil]
  | succ count ih =>
    rw [List.range_succ,List.flatMap_append,ih,List.flatMap_singleton,piece,Nat.mul_succ,
      List.take_add]

/-- A mask covers the full one when each of its bits is set. -/
theorem and_fullMask_iff {n : ℕ} (hn : n≤w) (mask : BitVec w) :
    mask &&& fullMask w n=fullMask w n ↔ ∀ i < n,mask.getLsbD i=true := by
  have hbit : ∀ i,(fullMask w n).getLsbD i=decide (i < n) := by
    intro i
    rw [fullMask,BitVec.getLsbD_ofNat,Nat.testBit_two_pow_sub_one,Bool.and_eq_right_iff_imp,
      decide_eq_true_eq,decide_eq_true_eq]
    omega
  constructor
  · intro h i hi
    have hget := congrArg (fun m => BitVec.getLsbD m i) h
    simp only [BitVec.getLsbD_and,hbit,hi,decide_true,Bool.and_true] at hget
    exact hget
  · intro h
    apply BitVec.eq_of_getLsbD_eq
    intro i hi
    rw [BitVec.getLsbD_and,hbit,Bool.and_eq_right_iff_imp,decide_eq_true_eq]
    exact h i

/-- Setting one bit leaves the others. -/
theorem or_bit_getLsbD (mask : BitVec w) {i j : ℕ} (hj : j < w) :
    (mask ||| BitVec.ofNat w (2^i)).getLsbD j=(mask.getLsbD j || decide (i=j)) := by
  rw [BitVec.getLsbD_or,BitVec.getLsbD_ofNat,Nat.testBit_two_pow,decide_eq_true hj,Bool.true_and]

/-- A buffer of a fixed size and a mask agree with the latest content of the
numbers: those that have one are marked, and the buffer holds it. -/
structure Assembles (size width count : ℕ) (buf : List α) (mask : BitVec w)
    (latest : ℕ → Option (List α)) : Prop where
  /-- The buffer keeps its size. -/
  size_eq : buf.length=size
  /-- Exactly the numbers with a content are marked. -/
  marked : ∀ i < count,mask.getLsbD i=(latest i).isSome
  /-- The buffer holds the latest content of every number. -/
  held : ∀ i,∀ bytes∈latest i,piece width buf i=bytes

namespace Assembles

variable {size width count : ℕ} {buf : List α} {mask : BitVec w} {latest : ℕ → Option (List α)}

/-- With a cleared mask nothing has arrived, whatever the buffer holds. -/
theorem cleared (hsize : buf.length=size) :
    Assembles size width count buf (0 : BitVec w) fun _ => none :=
  ⟨hsize,fun i _ => by simp,fun i bytes h => absurd h (Option.not_mem_none bytes)⟩

/-- A piece of the right length may be stored over anything. -/
theorem stored (h : Assembles size width count buf mask latest) (hw : count≤w) {i : ℕ}
    {bytes : List α} (hin : width*i ≤ size) (hlength : bytes.length=min width (size-width*i)) :
    Assembles size width count (store buf (width*i) bytes) (mask ||| BitVec.ofNat w (2^i))
      (Function.update latest i (some bytes)) := by
  have hbuf : width*i≤buf.length := h.size_eq.symm ▸ hin
  have hpiece : bytes.length=(piece width buf i).length := by
    rw [piece_length,h.size_eq,hlength]
  refine ⟨?_,fun j hj => ?_,fun j content hcontent => ?_⟩
  · rw [store_length (by rw [h.size_eq]; omega),h.size_eq]
  · rw [or_bit_getLsbD mask (by omega),h.marked j hj]
    by_cases hij : j=i
    · subst hij
      simp
    · have hji : ¬i=j := fun he => hij he.symm
      simp [hij,hji]
  · by_cases hij : j=i
    · subst hij
      rw [Function.update_self,Option.mem_some_iff] at hcontent
      rw [piece_store_self hbuf hpiece,hcontent]
    · rw [Function.update_of_ne hij] at hcontent
      rw [piece_store_ne hbuf hpiece hij]
      exact h.held j content hcontent

/-- The mask is full exactly when every number has a content. -/
theorem full_iff (h : Assembles size width count buf mask latest) (hw : count≤w) :
    mask &&& fullMask w count=fullMask w count ↔ ∀ i < count,(latest i).isSome=true := by
  rw [and_fullMask_iff hw]
  exact forall₂_congr fun i hi => by rw [h.marked i hi]

/-- Once every number has a content, the buffer is their concatenation. -/
theorem buf_eq (h : Assembles size width count buf mask latest) (hsize : size ≤ width*count)
    (hall : ∀ i < count,(latest i).isSome=true) :
    buf=(List.range count).flatMap fun i => (latest i).getD [] := by
  have hpieces : (List.range count).flatMap (fun i => (latest i).getD [])=
      (List.range count).flatMap (piece width buf) := by
    apply List.flatMap_congr
    intro i hi
    obtain ⟨bytes,hbytes⟩ := Option.isSome_iff_exists.mp (hall i (List.mem_range.mp hi))
    rw [hbytes,Option.getD_some,h.held i bytes hbytes]
  rw [hpieces,flatMap_piece,List.take_of_length_le (by rw [h.size_eq]; exact hsize)]

end Assembles

end ZephyrApp.ChunkAssembly

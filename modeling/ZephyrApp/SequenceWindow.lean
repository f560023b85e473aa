import Mathlib

/-!
# Recovering a counter from its low bits

A receiver that knows the last counter of a peer infers the next one from
its low bits: it advances by the difference of the low bits, taken modulo
their width. The inference is exact for every counter less than one period
ahead. A strictly forward window accepts only a bounded advance; over the
indices of the accepted messages it is an increasing sequence.
-/

namespace ZephyrApp.SequenceWindow

variable {v w : ℕ}

/-- How far the received low bits are ahead of the last counter. -/
def lowDistance (last : BitVec w) (low : BitVec v) : BitVec v := low-last.setWidth v

/-- The counter inferred by advancing the last one by that distance. -/
def advance (last : BitVec w) (low : BitVec v) : BitVec w :=
  last+(lowDistance last low).setWidth w

/-- The low bits of a wider counter value are the value modulo their width. -/
theorem setWidth_ofNat (h : v≤w) (i : ℕ) :
    (BitVec.ofNat w i).setWidth v=BitVec.ofNat v i := by
  apply BitVec.eq_of_toNat_eq
  rw [BitVec.toNat_setWidth,BitVec.toNat_ofNat,BitVec.toNat_ofNat]
  exact Nat.mod_mod_of_dvd _ (Nat.pow_dvd_pow 2 h)

/-- Two counter values separated by a number of steps differ by it in
their low bits, whichever of the two indices is the larger. -/
theorem lowDistance_eq (h : v≤w) {i j d : ℕ} (he : (i : ℤ)%2^v=(j+d : ℤ)%2^v) :
    lowDistance (BitVec.ofNat w j) ((BitVec.ofNat w i).setWidth v)=BitVec.ofNat v d := by
  have hn : i%2^v=(j+d)%2^v := by exact_mod_cast he
  have hi : BitVec.ofNat v i=BitVec.ofNat v (j+d) := by
    apply BitVec.eq_of_toNat_eq
    rw [BitVec.toNat_ofNat,BitVec.toNat_ofNat,hn]
  rw [lowDistance,setWidth_ofNat h,setWidth_ofNat h,hi,BitVec.ofNat_add,BitVec.add_comm]
  exact BitVec.add_sub_cancel _ _

/-- The inferred counter is the one less than a period ahead whose low bits
were received. -/
theorem advance_eq (h : v≤w) {i j d : ℕ} (he : (i : ℤ)%2^v=(j+d : ℤ)%2^v) (hd : d<2^v) :
    advance (BitVec.ofNat w j) ((BitVec.ofNat w i).setWidth v)=BitVec.ofNat w (j+d) := by
  have hw : (BitVec.ofNat v d).setWidth w=BitVec.ofNat w d := by
    apply BitVec.eq_of_toNat_eq
    rw [BitVec.toNat_setWidth,BitVec.toNat_ofNat,BitVec.toNat_ofNat,Nat.mod_eq_of_lt hd]
  rw [advance,lowDistance_eq h he,hw,BitVec.ofNat_add]

/-- A counter with the received low bits, at least one and at most `W` steps ahead of
the last one. -/
def Ahead (W : ℕ) (last : BitVec w) (low : BitVec v) (c : BitVec w) : Prop :=
  c.setWidth v=low ∧ ∃ k,1≤k ∧ k≤W ∧ c=last+BitVec.ofNat w k

/-- A counter a number of steps ahead has the received low bits exactly if these are as
far ahead. -/
theorem setWidth_add_eq_iff (h : v≤w) (last : BitVec w) (low : BitVec v) (k : ℕ) :
    (last+BitVec.ofNat w k).setWidth v=low ↔ lowDistance last low=BitVec.ofNat v k := by
  rw [BitVec.setWidth_add _ _ h,setWidth_ofNat h,lowDistance]
  constructor
  · intro hlow
    rw [←hlow,BitVec.add_comm]
    exact BitVec.add_sub_cancel _ _
  · intro hdist
    rw [←hdist,BitVec.add_comm]
    exact BitVec.sub_add_cancel low _

/-- A window shorter than a period of the low bits has at most one counter with the
received ones, which is the inferred one, and has it exactly if their distance is in the
window. -/
theorem ahead_iff (h : v≤w) {W : ℕ} (hW : W < 2^v) (last c : BitVec w) (low : BitVec v) :
    Ahead W last low c ↔
      (1≤(lowDistance last low).toNat ∧ (lowDistance last low).toNat≤W) ∧
        c=advance last low := by
  have hinferred : last+BitVec.ofNat w (lowDistance last low).toNat=advance last low := by
    rw [advance,BitVec.ofNat_toNat]
  constructor
  · rintro ⟨hlow,k,hk1,hkW,rfl⟩
    have hdist : lowDistance last low=BitVec.ofNat v k :=
      (setWidth_add_eq_iff h last low k).mp hlow
    have hk : (lowDistance last low).toNat=k := by
      rw [hdist,BitVec.toNat_ofNat,Nat.mod_eq_of_lt (by omega)]
    rw [←hinferred,hk]
    exact ⟨⟨hk1,hkW⟩,rfl⟩
  · rintro ⟨⟨h1,hle⟩,rfl⟩
    refine ⟨?_,_,h1,hle,hinferred.symm⟩
    rw [←hinferred,setWidth_add_eq_iff h,BitVec.ofNat_toNat,BitVec.setWidth_eq]

/-- Whether a message index lies in the strictly forward window of the last
accepted one; with none accepted only the given start indices do. -/
def InWindow (start : ℕ → Prop) (W : ℕ) (last : Option ℕ) (i : ℕ) : Prop :=
  match last with
  | none => start i
  | some j => j < i ∧ i≤j+W

instance (start : ℕ → Prop) [DecidablePred start] (W : ℕ) (last : Option ℕ) (i : ℕ) :
    Decidable (InWindow start W last i) :=
  match last with
  | none => inferInstanceAs (Decidable (start i))
  | some j => inferInstanceAs (Decidable (j < i ∧ i≤j+W))

/-- A sequence of indices each in the forward window of its predecessor. -/
def ForwardRun (start : ℕ → Prop) (W : ℕ) : Option ℕ → List ℕ → Prop
  | _,[] => True
  | last,i::is => InWindow start W last i ∧ ForwardRun start W (some i) is

/-- Allowing more start indices keeps a forward run one. -/
theorem ForwardRun.mono {start start' : ℕ → Prop} {W : ℕ} (hs : ∀ i,start i → start' i)
    {last : Option ℕ} {is : List ℕ} (h : ForwardRun start W last is) :
    ForwardRun start' W last is := by
  cases is with
  | nil => trivial
  | cons i is =>
    have hrest : ∀ (j : ℕ) (ks : List ℕ),ForwardRun start W (some j) ks →
        ForwardRun start' W (some j) ks := by
      intro j ks
      induction ks generalizing j with
      | nil => exact fun _ => trivial
      | cons k ks ih => exact fun hk => ⟨hk.1,ih k hk.2⟩
    cases last with
    | none => exact ⟨hs i h.1,hrest i is h.2⟩
    | some j => exact ⟨h.1,hrest i is h.2⟩

/-- Every index of a forward run lies beyond the last accepted one. -/
theorem ForwardRun.lt {start : ℕ → Prop} {W j : ℕ} {is : List ℕ}
    (h : ForwardRun start W (some j) is) : ∀ k∈is,j<k := by
  induction is generalizing j with
  | nil =>
    intro k hk
    cases hk
  | cons i is ih =>
    have hji : j < i := h.1.1
    intro k hk
    rcases List.mem_cons.mp hk with rfl | hk
    · exact hji
    · have hik := ih h.2 k hk
      omega

/-- A forward run never accepts one index twice. -/
theorem ForwardRun.nodup {start : ℕ → Prop} {W : ℕ} {last : Option ℕ} {is : List ℕ}
    (h : ForwardRun start W last is) : is.Nodup := by
  induction is generalizing last with
  | nil => exact List.nodup_nil
  | cons i is ih =>
    refine List.nodup_cons.mpr ⟨fun hi => ?_,ih h.2⟩
    have hii := ForwardRun.lt h.2 i hi
    omega

end ZephyrApp.SequenceWindow

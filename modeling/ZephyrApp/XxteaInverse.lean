import ZephyrApp.Nrf24CryptFrames

/-!
# Undoing the rounds of the block function

Each round adds to one word of the block a mix of the other word, the round
constant and the key, so that the round before it is recovered by subtracting
the same mix. Hence the block function is injective for every key, and two
counters never share a keystream block. The key words of an address likewise
determine the address.
-/

namespace ZephyrApp.Nrf24Crypt

open MachineBytes CounterStream

/-- The variables of the loop at a round boundary: `z` repeats `v[1]`. -/
def XxteaState.AtBoundary (s : XxteaState) : Prop := s.z=s.v1

/-- Subtract the two mixes of a round, the second one first. -/
def xxteaRoundInv (key : CryptKey) (s : XxteaState) : XxteaState :=
  let e := Fin.ofNat 4 (s.sum >>> 2).toNat
  let v1 := s.v1-xxteaMix s.sum s.v0 s.v0 (key ((1 : Fin 4) ^^^ e))
  let v0 := s.v0-xxteaMix s.sum v1 v1 (key ((0 : Fin 4) ^^^ e))
  ⟨v0,v1,v1,s.sum-xxteaDelta⟩

/-- Every round ends at a boundary. -/
theorem xxteaRound_atBoundary (key : CryptKey) (s : XxteaState) :
    (xxteaRound key s).AtBoundary := rfl

/-- A round taken from a boundary is undone. -/
theorem xxteaRoundInv_round (key : CryptKey) {s : XxteaState} (h : s.AtBoundary) :
    xxteaRoundInv key (xxteaRound key s)=s := by
  obtain ⟨v0,v1,z,sum⟩ := s
  have hz : z=v1 := h
  subst hz
  simp only [xxteaRound,xxteaRoundInv,add_sub_cancel_right]

/-- Rounds taken from a boundary end at a boundary. -/
theorem xxteaRounds_atBoundary (key : CryptKey) (n : ℕ) {s : XxteaState} (h : s.AtBoundary) :
    ((xxteaRound key)^[n] s).AtBoundary := by
  cases n with
  | zero => exact h
  | succ n =>
    rw [Function.iterate_succ_apply']
    exact xxteaRound_atBoundary key _

/-- Any number of rounds taken from a boundary can be undone. -/
theorem xxteaRounds_undo (key : CryptKey) (n : ℕ) {s : XxteaState} (h : s.AtBoundary) :
    (xxteaRoundInv key)^[n] ((xxteaRound key)^[n] s)=s := by
  induction n with
  | zero => rfl
  | succ n ih =>
    rw [Function.iterate_succ_apply,Function.iterate_succ_apply' (xxteaRound key),
      xxteaRoundInv_round key (xxteaRounds_atBoundary key n h)]
    exact ih

/-- The round constant after a number of rounds depends on their number only. -/
theorem xxteaRounds_sum (key : CryptKey) (n : ℕ) (s : XxteaState) :
    ((xxteaRound key)^[n] s).sum=s.sum+BitVec.ofNat 32 n*xxteaDelta := by
  induction n with
  | zero =>
    change s.sum=s.sum+0*xxteaDelta
    rw [zero_mul,add_zero]
  | succ n ih =>
    rw [Function.iterate_succ_apply']
    change ((xxteaRound key)^[n] s).sum+xxteaDelta=_
    rw [ih,BitVec.ofNat_add,add_mul,add_assoc]
    congr 2

/-- The block function is injective under every key. -/
theorem xxteaEncryptBlock_injective (key : CryptKey) :
    Function.Injective (xxteaEncryptBlock key) := by
  intro a b h
  have ha : (⟨a.1,a.2,a.2,0⟩ : XxteaState).AtBoundary := rfl
  have hb : (⟨b.1,b.2,b.2,0⟩ : XxteaState).AtBoundary := rfl
  have hfinal : (xxteaRound key)^[xxteaRounds] ⟨a.1,a.2,a.2,0⟩=
      (xxteaRound key)^[xxteaRounds] ⟨b.1,b.2,b.2,0⟩ := by
    have hza := xxteaRounds_atBoundary key xxteaRounds ha
    have hzb := xxteaRounds_atBoundary key xxteaRounds hb
    have hsa := xxteaRounds_sum key xxteaRounds ⟨a.1,a.2,a.2,0⟩
    have hsb := xxteaRounds_sum key xxteaRounds ⟨b.1,b.2,b.2,0⟩
    have h0 := congrArg Prod.fst h
    have h1 := congrArg Prod.snd h
    dsimp only [xxteaEncryptBlock] at h0 h1
    generalize (xxteaRound key)^[xxteaRounds] ⟨a.1,a.2,a.2,0⟩=x at *
    generalize (xxteaRound key)^[xxteaRounds] ⟨b.1,b.2,b.2,0⟩=y at *
    obtain ⟨x0,x1,xz,xs⟩ := x
    obtain ⟨y0,y1,yz,ys⟩ := y
    dsimp only [XxteaState.AtBoundary] at hza hzb hsa hsb h0 h1
    rw [hza,hzb,hsa,hsb,h0,h1]
  have hstart := congrArg (xxteaRoundInv key)^[xxteaRounds] hfinal
  rw [xxteaRounds_undo key _ ha,xxteaRounds_undo key _ hb] at hstart
  injection hstart with h0 h1
  exact Prod.ext h0 h1

/-- Undoing a round from a boundary leads to a boundary, from which the round is
taken again. -/
theorem xxteaRound_roundInv (key : CryptKey) {s : XxteaState} (h : s.AtBoundary) :
    xxteaRound key (xxteaRoundInv key s)=s := by
  obtain ⟨v0,v1,z,sum⟩ := s
  have hz : z=v1 := h
  subst hz
  simp only [xxteaRound,xxteaRoundInv,sub_add_cancel]

/-- Any number of rounds undone from a boundary can be taken again. -/
theorem xxteaRounds_redo (key : CryptKey) (n : ℕ) {s : XxteaState} (h : s.AtBoundary) :
    (xxteaRound key)^[n] ((xxteaRoundInv key)^[n] s)=s := by
  induction n generalizing s with
  | zero => rfl
  | succ n ih =>
    have hinv : (xxteaRoundInv key s).AtBoundary := rfl
    rw [Function.iterate_succ_apply' (xxteaRound key),Function.iterate_succ_apply,ih hinv]
    exact xxteaRound_roundInv key h

/-- Undoing rounds from a boundary leads to a boundary. -/
theorem xxteaRoundsInv_atBoundary (key : CryptKey) (n : ℕ) {s : XxteaState}
    (h : s.AtBoundary) : ((xxteaRoundInv key)^[n] s).AtBoundary := by
  cases n with
  | zero => exact h
  | succ n =>
    rw [Function.iterate_succ_apply']
    rfl

/-- The round constant before a number of rounds depends on their number only. -/
theorem xxteaRoundsInv_sum (key : CryptKey) (n : ℕ) (s : XxteaState) :
    ((xxteaRoundInv key)^[n] s).sum=s.sum-BitVec.ofNat 32 n*xxteaDelta := by
  induction n with
  | zero =>
    change s.sum=s.sum-0*xxteaDelta
    rw [zero_mul,sub_zero]
  | succ n ih =>
    rw [Function.iterate_succ_apply']
    change ((xxteaRoundInv key)^[n] s).sum-xxteaDelta=_
    rw [ih,BitVec.ofNat_add,add_mul,sub_sub]
    congr 2

/-- The block whose encryption is given: all rounds are undone from the last
round constant. -/
def xxteaUndoBlock (key : CryptKey) (v : Word×Word) : Word×Word :=
  let s := (xxteaRoundInv key)^[xxteaRounds]
    ⟨v.1,v.2,v.2,BitVec.ofNat 32 xxteaRounds*xxteaDelta⟩
  (s.v0,s.v1)

/-- Encrypting the block that was found gives the block back. -/
theorem xxteaEncryptBlock_undoBlock (key : CryptKey) (v : Word×Word) :
    xxteaEncryptBlock key (xxteaUndoBlock key v)=v := by
  have hv : (⟨v.1,v.2,v.2,BitVec.ofNat 32 xxteaRounds*xxteaDelta⟩ : XxteaState).AtBoundary := rfl
  have hz := xxteaRoundsInv_atBoundary key xxteaRounds hv
  have hsum := xxteaRoundsInv_sum key xxteaRounds
    ⟨v.1,v.2,v.2,BitVec.ofNat 32 xxteaRounds*xxteaDelta⟩
  have hredo := xxteaRounds_redo key xxteaRounds hv
  rw [sub_self] at hsum
  unfold xxteaEncryptBlock xxteaUndoBlock
  generalize (xxteaRoundInv key)^[xxteaRounds] _=s at hz hsum hredo ⊢
  obtain ⟨v0,v1,z,sum⟩ := s
  dsimp only [XxteaState.AtBoundary] at hz hsum ⊢
  rw [hz,hsum] at hredo
  rw [hredo]

/-- The block function permutes the blocks under every key. -/
theorem xxteaEncryptBlock_bijective (key : CryptKey) :
    Function.Bijective (xxteaEncryptBlock key) :=
  ⟨xxteaEncryptBlock_injective key,fun v => ⟨_,xxteaEncryptBlock_undoBlock key v⟩⟩

/-- Distinct counters have distinct keystream blocks, under every key. -/
theorem keystreamBlock_injective (key : CryptKey) : Function.Injective (keystreamBlock key) := by
  intro a b h
  dsimp only [keystreamBlock] at h
  obtain ⟨h0,h1⟩ := List.append_inj h (by rw [sysPutBe32_length,sysPutBe32_length])
  have hblock := Prod.ext (sysPutBe32_injective h0) (sysPutBe32_injective h1)
  exact congrArg Prod.fst (xxteaEncryptBlock_injective key hblock)

/-- Under every key the block function permutes the blocks, and the counters
have keystream blocks of eight bytes each, no two of them equal. -/
theorem keystream_blocks_distinct (key : CryptKey) :
    Function.Bijective (xxteaEncryptBlock key) ∧
      (∀ counter,(keystreamBlock key counter).length=8) ∧
        Function.Injective (keystreamBlock key) :=
  ⟨xxteaEncryptBlock_bijective key,keystreamBlock_length key,keystreamBlock_injective key⟩

/-- Keystreams that agree on a whole block belong to one counter. -/
theorem keystream_injective {key : CryptKey} {a b : Word}
    (h : ∀ i<8,keystream key a i=keystream key b i) : a=b :=
  keystreamBlock_injective key (block_eq_of_streamByte (keystreamBlock_length key) h)

/-- Two addresses with one key are the same address. -/
theorem deriveKey_injective : Function.Injective deriveKey := by
  intro a b h
  obtain ⟨h0,h1,h2,h3⟩ := sysGetBe32_eq (congrFun h 0)
  obtain ⟨h4,-,-,-⟩ := sysGetBe32_eq (congrFun h 1)
  funext i
  fin_cases i
  · exact h0
  · exact h1
  · exact h2
  · exact h3
  · exact h4

/-- The zero key that a boot leaves is the key of the zero address. -/
theorem deriveKey_zero : deriveKey (fun _ => 0)=CryptState.boot.cryptKey := by
  funext i
  fin_cases i <;> rfl

end ZephyrApp.Nrf24Crypt

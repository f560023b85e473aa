import ZephyrApp.Nrf24Crypt

/-!
# What sealing and opening do to a frame

The in-place loop of the cipher is a mask with the counter's keystream, the
sealed frame is the low counter byte followed by the masked plaintext, and
opening unmasks the body under the counter that the window infers. Distinct
counters have distinct keystream blocks, because the rounds of the block
function can be undone.
-/

namespace ZephyrApp.Nrf24Crypt

open MachineBytes CounterStream SequenceWindow

/-- A counter block gives eight keystream bytes. -/
@[simp] theorem keystreamBlock_length (key : CryptKey) (counter : Word) :
    (keystreamBlock key counter).length=8 := rfl

/-- The byte loop changes only the bytes it runs over, each by its own XOR. -/
theorem xorInto_getElem? (ks buf : List Byte) (at_ j : ℕ) :
    (xorInto buf at_ ks)[j]?=
      if at_≤j ∧ j<at_+ks.length then buf[j]?.map (· ^^^ ks.getD (j-at_) 0) else buf[j]? := by
  induction ks generalizing buf at_ with
  | nil =>
    rw [xorInto,if_neg (by simp only [List.length_nil]; omega)]
  | cons k ks ih =>
    rw [xorInto,ih,List.getElem?_modify]
    by_cases hj : j=at_
    · subst hj
      rw [if_neg (by omega),if_pos (by simp only [List.length_cons]; omega),Nat.sub_self]
      simp only [if_true,List.getD_cons_zero]
      rfl
    · have hm : (fun a : Byte => if at_=j then a ^^^ k else a)=id := by
        funext a
        rw [if_neg (Ne.symm hj)]
        rfl
      have hmap : (fun a : Byte => if at_=j then a ^^^ k else a) <$> buf[j]?=buf[j]? := by
        rw [hm]
        exact id_map _
      rw [hmap]
      by_cases hin : at_+1≤j ∧ j<at_+1+ks.length
      · have hs : j-at_=j-(at_+1)+1 := by omega
        rw [if_pos hin,if_pos (by simp only [List.length_cons]; omega),hs,List.getD_cons_succ]
      · rw [if_neg hin,if_neg (by simp only [List.length_cons]; omega)]

/-- From an offset on, the block loop XORs every remaining byte with the
keystream of its counter and feeds one counter for each block begun. -/
theorem ctrXorLoop_spec (key : CryptKey) (len fuel : ℕ) (buf : List Byte) (off : ℕ)
    (counter : Word) (hfuel : len-off≤fuel) :
    (∀ j,(ctrXorLoop key len fuel buf off counter).1[j]?=
        if off≤j ∧ j<len then buf[j]?.map (· ^^^ keystream key counter (j-off)) else buf[j]?) ∧
      (ctrXorLoop key len fuel buf off counter).2=counterRun counter (blockCount 8 (len-off)) := by
  induction fuel generalizing buf off counter with
  | zero =>
    have h0 : len-off=0 := by omega
    constructor
    · intro j
      rw [if_neg (by omega)]
      rfl
    · rw [h0]
      rfl
  | succ fuel ih =>
    by_cases hoff : off<len
    · set chunk := if len-off<8 then len-off else 8 with hchunk
      have hc : 0<chunk ∧ chunk≤8 ∧ chunk≤len-off ∧ (chunk<8 → chunk=len-off) := by
        rw [hchunk]
        split <;> omega
      obtain ⟨hbytes,hfed⟩ := ih (xorInto buf off ((keystreamBlock key counter).take chunk))
        (off+chunk) (counter+1) (by omega)
      have htake : ((keystreamBlock key counter).take chunk).length=chunk := by
        rw [List.length_take,keystreamBlock_length]
        omega
      rw [ctrXorLoop,if_pos hoff]
      dsimp only
      rw [←hchunk]
      constructor
      · intro j
        rw [hbytes,xorInto_getElem?,htake]
        by_cases hfirst : off≤j ∧ j<off+chunk
        · have hk : keystream key counter (j-off)=(keystreamBlock key counter).getD (j-off) 0 :=
            streamByte_of_lt _ _ (by omega)
          have hg : ((keystreamBlock key counter).take chunk).getD (j-off) 0=
              (keystreamBlock key counter).getD (j-off) 0 := by
            rw [List.getD_eq_getElem?_getD,List.getD_eq_getElem?_getD,
              List.getElem?_take_of_lt (by omega)]
          rw [if_neg (by omega),if_pos hfirst,if_pos (by omega),hk,hg]
        · rw [if_neg hfirst]
          by_cases hrest : off+chunk≤j ∧ j<len
          · have h8 : chunk=8 := by omega
            have hs : j-off=8+(j-(off+8)) := by omega
            have hk : keystream key counter (j-off)=keystream key (counter+1) (j-(off+8)) := by
              rw [hs]
              exact streamByte_add _ (by omega) _ _
            rw [if_pos hrest,if_pos (by omega),hk,h8]
          · rw [if_neg hrest,if_neg (by omega)]
      · have hcount : blockCount 8 (len-off)=blockCount 8 (len-(off+chunk))+1 := by
          unfold blockCount
          omega
        rw [hfed,hcount,counterRun_succ]
    · have h0 : len-off=0 := by omega
      rw [ctrXorLoop,if_neg hoff]
      constructor
      · intro j
        rw [if_neg (by omega)]
      · rw [h0]
        rfl

/-- The first `len` bytes are masked with the keystream, the rest is kept. -/
theorem ctrXor_buf (key : CryptKey) (data tail : List Byte) (counter : Word) :
    (ctrXor key (data++tail) data.length counter).1=maskBytes (keystream key counter) data++tail := by
  apply List.ext_getElem?
  intro j
  rw [ctrXor,(ctrXorLoop_spec key data.length data.length _ 0 counter (by omega)).1,Nat.sub_zero]
  by_cases hj : j<data.length
  · rw [if_pos ⟨Nat.zero_le _,hj⟩,List.getElem?_append_left hj,
      List.getElem?_append_left (by rwa [maskBytes_length]),maskBytes_getElem?]
  · rw [if_neg (by omega),List.getElem?_append_right (by omega),
      List.getElem?_append_right (by rw [maskBytes_length]; omega),maskBytes_length]

/-- Masking `len` bytes feeds one counter for every eight bytes begun. -/
theorem ctrXor_fed (key : CryptKey) (buf : List Byte) (len : ℕ) (counter : Word) :
    (ctrXor key buf len counter).2=counterRun counter (blockCount 8 len) :=
  (ctrXorLoop_spec key len len buf 0 counter (by omega)).2

/-- The transmitted byte is the low byte of the counter. -/
theorem ctrByte_eq (ctr : Word) : (ctr &&& 0xFF#32).setWidth 8=ctr.setWidth 8 := by
  apply BitVec.eq_of_getLsbD_eq
  intro i hi
  have hm : (0xFF#32).getLsbD i=true := by
    interval_cases i <;> rfl
  simp only [BitVec.getLsbD_setWidth,BitVec.getLsbD_and,hm,Bool.and_true]

/-- The frame that goes on the air for a plaintext sealed under a counter. -/
def sealedFrame (key : CryptKey) (counter : Word) (plaintext : List Byte) : List Byte :=
  counter.setWidth 8::maskBytes (keystream key counter) plaintext

/-- A sealed frame is one byte longer than its plaintext. -/
@[simp] theorem sealedFrame_length (key : CryptKey) (counter : Word) (plaintext : List Byte) :
    (sealedFrame key counter plaintext).length=plaintext.length+1 := by
  simp only [sealedFrame,List.length_cons,maskBytes_length]

/-- Sealing a plaintext of a legal length in a buffer with a spare byte puts
the sealed frame in front, whatever the rest of the buffer holds. -/
theorem nrf24CryptSeal_eq (s : CryptState) {plaintext : List Byte} (spare : Byte)
    (tail : List Byte) (h2 : 2≤plaintext.length) (h31 : plaintext.length≤31) :
    nrf24CryptSeal s (plaintext++spare::tail) plaintext.length=
      ⟨plaintext.length+1,sealedFrame s.cryptKey s.txCounter plaintext++tail,
        {s with txCounter := s.txCounter+1},
        counterRun s.txCounter (blockCount 8 plaintext.length)⟩ := by
  obtain ⟨b,rest,hp⟩ : ∃ b rest,plaintext=b::rest := by
    cases plaintext with
    | nil => exact absurd h2 (by simp only [List.length_nil]; omega)
    | cons b rest => exact ⟨b,rest,rfl⟩
  have hmove : memmove (plaintext++spare::tail) 1 0 plaintext.length=b::(plaintext++tail) := by
    have hd : (plaintext++spare::tail).drop (1+plaintext.length)=tail := by
      rw [Nat.add_comm,List.drop_append]
      simp only [Nat.add_sub_cancel_left,List.drop_succ_cons,List.drop_zero]
      rw [List.drop_eq_nil_of_le (by omega),List.nil_append]
    rw [memmove,List.drop_zero,List.take_left,hd,hp]
    rfl
  unfold nrf24CryptSeal
  rw [if_neg (by omega)]
  dsimp only
  rw [hmove,List.drop_succ_cons,List.drop_zero,ctrXor_buf,ctrXor_fed,ctrByte_eq]
  rfl

/-- Opening a frame whose counter is inferred unmasks the body under it. -/
theorem nrf24CryptOpen_accepts (s : CryptState) {ctrByte : Byte} {body : List Byte}
    (tail : List Byte) {ctr : Word} (h2 : 2≤body.length) (h31 : body.length≤31)
    (hctr : inferCounter s ctrByte=some ctr) :
    (nrf24CryptOpen s (ctrByte::body++tail) (body.length+1)).plaintext=
        some (maskBytes (keystream s.cryptKey ctr) body) ∧
      (nrf24CryptOpen s (ctrByte::body++tail) (body.length+1)).ret=body.length ∧
      (nrf24CryptOpen s (ctrByte::body++tail) (body.length+1)).state=
        {s with rxCounter := ctr,rxInitialized := true} := by
  have hopen : nrf24CryptOpen s (ctrByte::body++tail) (body.length+1)=
      ⟨body.length,memmove (ctrByte::(maskBytes (keystream s.cryptKey ctr) body++tail)) 0 1
        body.length,{s with rxCounter := ctr,rxInitialized := true}⟩ := by
    unfold nrf24CryptOpen
    rw [if_neg (by omega)]
    simp only [List.cons_append,List.getD_cons_zero,hctr,Nat.add_sub_cancel,List.drop_succ_cons,
      List.drop_zero,ctrXor_buf,List.take_succ_cons,List.take_zero,List.nil_append]
  have hmask : (maskBytes (keystream s.cryptKey ctr) body).length=body.length :=
    maskBytes_length _ _
  have hmove : (memmove (ctrByte::(maskBytes (keystream s.cryptKey ctr) body++tail)) 0 1
      body.length).take body.length=maskBytes (keystream s.cryptKey ctr) body := by
    rw [memmove,List.take_zero,List.nil_append,List.drop_succ_cons,List.drop_zero,←hmask,
      List.take_left,List.take_left]
  rw [hopen]
  refine ⟨?_,rfl,rfl⟩
  unfold OpenReport.plaintext
  dsimp only
  rw [if_neg (by omega),hmove]

/-- A frame outside the window is rejected and nothing changes. -/
theorem nrf24CryptOpen_rejects (s : CryptState) {buf : List Byte} (n : ℕ)
    (h : inferCounter s (buf.getD 0 0)=none) : nrf24CryptOpen s buf n=⟨0,buf,s⟩ := by
  unfold nrf24CryptOpen
  rw [h]
  split <;> rfl

/-- An uninitialised window takes any counter byte with high bits zero. -/
theorem inferCounter_first {s : CryptState} (h : s.rxInitialized=false) (ctrByte : Byte) :
    inferCounter s ctrByte=some (ctrByte.setWidth 32) := by
  rw [inferCounter,if_pos h]

/-- Masking off the low byte rounds a counter down to a multiple of 256. -/
theorem highBits_toNat (a : Word) : (a &&& ~~~0xFF#32).toNat=a.toNat/256*256 := by
  have hm : ~~~0xFF#32=BitVec.allOnes 32 <<< 8 := by decide
  have h : a &&& ~~~0xFF#32=(a >>> 8) <<< 8 := by
    rw [hm]
    ext i hi
    simp only [BitVec.getElem_and,BitVec.getElem_shiftLeft,BitVec.getElem_allOnes,
      BitVec.getElem_ushiftRight]
    by_cases h8 : i<8
    · simp [h8]
    · have he : 8+(i-8)=i := by omega
      simp [h8,he,BitVec.getLsbD_eq_getElem hi]
  have hlt := a.isLt
  rw [h,BitVec.toNat_shiftLeft,BitVec.toNat_ushiftRight,Nat.shiftRight_eq_div_pow,
    Nat.shiftLeft_eq]
  omega

/-- With an initialised window, both branches of the reconstruction, the one
that carries into the high bits and the one that does not, advance the last
counter by the distance of the low bytes. -/
theorem inferCounter_window {s : CryptState} (h : s.rxInitialized=true) (ctrByte : Byte) :
    inferCounter s ctrByte=
      if lowDistance s.rxCounter ctrByte=0 ∨ 32#8<lowDistance s.rxCounter ctrByte then none
      else some (advance s.rxCounter ctrByte) := by
  have hlow := ctrByte_eq s.rxCounter
  unfold inferCounter
  rw [if_neg (by rw [h]; decide)]
  dsimp only
  rw [hlow]
  change (if lowDistance s.rxCounter ctrByte=0 ∨ 32#8<lowDistance s.rxCounter ctrByte then none
    else _)=_
  split
  · rfl
  · have hb := ctrByte.isLt
    have hr := s.rxCounter.isLt
    have hhigh := highBits_toNat s.rxCounter
    have hdist : (lowDistance s.rxCounter ctrByte).toNat=
        (256-s.rxCounter.toNat%256+ctrByte.toNat)%256 := by
      rw [lowDistance,BitVec.toNat_sub,BitVec.toNat_setWidth]
    have hadv : (advance s.rxCounter ctrByte).toNat=
        (s.rxCounter.toNat+(256-s.rxCounter.toNat%256+ctrByte.toNat)%256)%2^32 := by
      rw [advance,BitVec.toNat_add,BitVec.toNat_setWidth,hdist,
        Nat.mod_eq_of_lt (by omega : (256-s.rxCounter.toNat%256+ctrByte.toNat)%256<2^32)]
    have hcmp : ctrByte<s.rxCounter.setWidth 8 ↔ ctrByte.toNat<s.rxCounter.toNat%256 := by
      rw [BitVec.lt_def,BitVec.toNat_setWidth]
    have hc32 : (ctrByte.setWidth 32).toNat=ctrByte.toNat := by
      rw [BitVec.toNat_setWidth,Nat.mod_eq_of_lt (by omega)]
    by_cases hlt : ctrByte<s.rxCounter.setWidth 8
    · rw [if_pos hlt]
      have hn := hcmp.mp hlt
      congr 1
      apply BitVec.eq_of_toNat_eq
      rw [hadv,BitVec.toNat_add,BitVec.toNat_add,hhigh,hc32,BitVec.toNat_ofNat]
      omega
    · rw [if_neg hlt]
      have hn : ¬ctrByte.toNat<s.rxCounter.toNat%256 := fun hx => hlt (hcmp.mpr hx)
      congr 1
      apply BitVec.eq_of_toNat_eq
      rw [hadv,BitVec.toNat_add,hhigh,hc32]
      omega

end ZephyrApp.Nrf24Crypt

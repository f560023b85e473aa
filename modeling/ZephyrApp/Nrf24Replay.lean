import ZephyrApp.Nrf24Link

/-!
# Resynchronisation and replays

The first frame after a reset is taken with high counter bits zero, and a
later frame is placed by its counter byte alone. A receiver therefore aligns
with the sender exactly when the first frame's index is below 256 modulo the
counter space, and stays aligned as long as no delivered frame seems to lie in
its window without lying there. Frames of at least one whole keystream block
show that both conditions are needed.
-/

namespace ZephyrApp.Nrf24Crypt

open MachineBytes CounterStream SequenceWindow EventRuns

/-- A frame whose plaintext covers a keystream block is only restored under
the counter it was sealed with. -/
theorem openFrame_wrong_counter {key : CryptKey} {s : CryptState} (hkey : s.cryptKey=key)
    (f : Airborne) {ctr : Word} (h8 : 8≤f.message.plaintext.length)
    (hctr : inferCounter s ((BitVec.ofNat 32 f.index).setWidth 8)=some ctr)
    (hne : ctr≠BitVec.ofNat 32 f.index) :
    (openFrame s (f.rx key)).result≠(f.message.plaintext.length,f.message.plaintext) := by
  have hresult := (openFrame_inferred hkey f hctr).1
  intro h
  rw [hresult,Prod.mk.injEq] at h
  have hagree := (maskBytes_restored_iff _ _ _).mp h.2
  have heq : ctr=BitVec.ofNat 32 f.index :=
    keystream_injective fun i hi => hagree i (by omega)
  exact hne heq

/-- Two different indices below the counter space have different counters. -/
theorem counter_ne {i j : ℕ} (hi : i<2^32) (hj : j<2^32) (hne : i≠j) :
    BitVec.ofNat 32 i≠BitVec.ofNat 32 j := by
  intro h
  have hv := congrArg BitVec.toNat h
  rw [BitVec.toNat_ofNat,BitVec.toNat_ofNat,Nat.mod_eq_of_lt hi,Nat.mod_eq_of_lt hj] at hv
  exact hne hv

section Resynchronisation

/-- A receiver that has the key of an address and has just forgotten its
window, or has just set the key. -/
inductive Resynced (addr : Rf24Addr) : CryptState → Prop
  /-- The window is reset under the same key. -/
  | reset (s : CryptState) (hkey : s.cryptKey=deriveKey addr) : Resynced addr (nrf24CryptRxReset s)
  /-- The receiver starts fresh with the same key. -/
  | fresh (s : CryptState) : Resynced addr (nrf24CryptSetKey s addr)

/-- Either way the receiver has the key and has accepted nothing. -/
theorem Resynced.tracks {addr : Rf24Addr} {s : CryptState} (h : Resynced addr s) :
    Tracks (deriveKey addr) s none := by
  cases h with
  | reset s hkey =>
    rw [←hkey]
    exact tracks_rxReset s
  | fresh s => exact tracks_setKey s addr

/-- After `n` sealed frames, a resynchronised receiver opens the next frame
and the ones that follow in order exactly. -/
def ResyncExact (addr : Rf24Addr) (n : ℕ) : Prop :=
  ∀ (sender receiver : CryptState) (messages : List TxMessage)
    (ds : List (Delivery messages.length)),
    Resynced addr receiver →
    (ds.map fun d => d.index.val)=List.range' n ds.length →
      (openRun receiver
          (ds.map (Delivery.frame (sealRun (nrf24CryptSetKey sender addr) messages)))).map
            OpenReport.result=
        ds.map fun d => ((d.plaintext messages).length,d.plaintext messages)

/-- Frames taken in order are a forward run after the first one. -/
theorem forwardRun_range' {start : ℕ → Prop} {W : ℕ} (hW : 1≤W) (n len : ℕ) {last : Option ℕ}
    (h : InWindow start W last n) : ForwardRun start W last (List.range' n len) := by
  induction len generalizing n last with
  | zero => trivial
  | succ len ih =>
    have hnext : InWindow start W (some n) (n+1) := ⟨by omega,by omega⟩
    exact ⟨h,ih (n+1) hnext⟩

/-- A first frame from before the wrap of the counter byte aligns the receiver. -/
theorem resyncExact_of_lt (addr : Rf24Addr) {n : ℕ} (hn : n%2^32<256) : ResyncExact addr n := by
  intro sender receiver messages ds hr hds
  have hrun : ForwardRun (fun i => i%2^32<256) 32 none
      ((ds.map (Delivery.airborne messages)).map Airborne.index) := by
    rw [List.map_map]
    change ForwardRun _ _ _ (ds.map fun d => d.index.val)
    rw [hds]
    exact forwardRun_range' (by omega) n ds.length hn
  have hopen := openRun_forward hr.tracks _ hrun
  rw [delivery_frames_eq,hopen,List.map_map]
  rfl

/-- A message of one keystream block. -/
def blockMessage : TxMessage := ⟨List.replicate 8 0,0,[],by decide,by decide⟩

/-- A first frame from after the wrap is taken under the wrong counter. -/
theorem lt_of_resyncExact (addr : Rf24Addr) {n : ℕ} (h : ResyncExact addr n) : n%2^32<256 := by
  by_contra hn
  have hlen : (List.replicate (n+1) blockMessage).length=n+1 := List.length_replicate
  have hexact := h .boot (nrf24CryptSetKey .boot addr) (List.replicate (n+1) blockMessage)
    [⟨⟨n,by omega⟩,[]⟩] (.fresh .boot) rfl
  rw [delivery_frames_eq] at hexact
  have ht := tracks_setKey .boot addr
  have hget : (List.replicate (n+1) blockMessage).get ⟨n,by omega⟩=blockMessage := by
    simp only [List.get_eq_getElem,List.getElem_replicate]
  have hne : BitVec.ofNat 32 (n%256)≠BitVec.ofNat 32 n := by
    intro he
    have hv := congrArg BitVec.toNat he
    rw [BitVec.toNat_ofNat,BitVec.toNat_ofNat] at hv
    omega
  have h8 : 8≤blockMessage.plaintext.length := by decide
  have hwrong := openFrame_wrong_counter ht.1 ⟨n,blockMessage,[]⟩ h8 (inferCounter_none ht n) hne
  apply hwrong
  have hhead := List.head_eq_of_cons_eq hexact
  simp only [Delivery.airborne,Delivery.plaintext,hget] at hhead
  exact hhead

/-- A resynchronised receiver aligns with the sender exactly when the number
of frames sealed before, modulo the counter space, is below 256. -/
theorem resyncExact_iff (addr : Rf24Addr) (n : ℕ) : ResyncExact addr n ↔ n%2^32<256 :=
  ⟨lt_of_resyncExact addr,resyncExact_of_lt addr⟩

/-- After 256 frames a reset receiver no longer aligns. -/
theorem resyncExact_fails : ¬ResyncExact (fun _ => 0xE7) 256 := by
  intro h
  have hlt := lt_of_resyncExact _ h
  omega

end Resynchronisation

section Replay

/-- The frames a run of opens accepts, each with the report of its opening. -/
def accepted {α : Type} (fs : List α) (reports : List OpenReport) : List (α×OpenReport) :=
  (fs.zip reports).filter fun x => x.2.ret≠0

/-- Every accepted frame leaves exactly the plaintext sealed into it, and no
sealed frame is accepted twice. -/
structure ReplaySafe (messages : List TxMessage) (ds : List (Delivery messages.length))
    (reports : List OpenReport) : Prop where
  /-- Length and plaintext of every accepted frame. -/
  exact_ : ∀ x∈accepted ds reports,
    x.2.result=((x.1.plaintext messages).length,x.1.plaintext messages)
  /-- Every sealed frame is accepted at most once. -/
  once : ((accepted ds reports).map fun x => x.1.index.val).Nodup

/-- The last frame taken after another one is delivered, by counter bytes. -/
def lastTaken (last : Option ℕ) (i : ℕ) : Option ℕ :=
  match last with
  | none => some i
  | some j => if SeemsNext j i then some i else some j

/-- A frame that seems to lie in the window really lies there. -/
def NotAliased (last : Option ℕ) (i : ℕ) : Prop :=
  match last with
  | none => i%2^32<256
  | some j => SeemsNext j i → j < i ∧ i≤j+32

/-- No frame of a delivery order only seems to lie in the window. -/
def AliasFree (is : List ℕ) : Prop := AlongRun lastTaken NotAliased none is

variable {key : CryptKey} {s : CryptState}

/-- The accepted frames of a longer run, by whether the first is accepted. -/
theorem accepted_cons {α : Type} (f : α) (fs : List α) (r : OpenReport) (rs : List OpenReport) :
    accepted (f::fs) (r::rs)=if r.ret≠0 then (f,r)::accepted fs rs else accepted fs rs := by
  simp only [accepted,List.zip_cons_cons,List.filter_cons,decide_eq_true_eq]

/-- One delivery that is not aliased: the frame is rejected with the statics
unchanged, or it lies in the window, opens exactly and is tracked. -/
theorem openFrame_notAliased {last : Option ℕ} (ht : Tracks key s last) (f : Airborne)
    (h : NotAliased last f.index) :
    ((openFrame s (f.rx key)).ret=0 ∧ (openFrame s (f.rx key)).state=s ∧
        lastTaken last f.index=last) ∨
      (InWindow (fun i => i%2^32<256) 32 last f.index ∧ lastTaken last f.index=some f.index) := by
  cases last with
  | none => exact Or.inr ⟨h,rfl⟩
  | some j =>
    by_cases hs : SeemsNext j f.index
    · exact Or.inr ⟨h hs,if_pos hs⟩
    · have hrej := openFrame_rejected ht f hs
      refine Or.inl ⟨?_,?_,if_neg hs⟩
      · rw [hrej]
      · rw [hrej]

/-- In an alias-free run every accepted frame opens exactly, and the accepted
indices are a forward run. -/
theorem openRun_aliasFree {last : Option ℕ} (ht : Tracks key s last) (fs : List Airborne)
    (h : AlongRun lastTaken NotAliased last (fs.map Airborne.index)) :
    (∀ x∈accepted fs (openRun s (fs.map (Airborne.rx key))),
        x.2.result=(x.1.message.plaintext.length,x.1.message.plaintext)) ∧
      ForwardRun (fun i => i%2^32<256) 32 last
        ((accepted fs (openRun s (fs.map (Airborne.rx key)))).map fun x => x.1.index) := by
  induction fs generalizing s last with
  | nil => exact ⟨fun x hx => absurd hx List.not_mem_nil,trivial⟩
  | cons f fs ih =>
    have hrun : openRun s ((f::fs).map (Airborne.rx key))=
        openFrame s (f.rx key)::openRun (openFrame s (f.rx key)).state
          (fs.map (Airborne.rx key)) := rfl
    rw [hrun,accepted_cons]
    rcases openFrame_notAliased ht f h.1 with ⟨hret,hstate,hlast⟩ | ⟨hwin,hlast⟩
    · have hrest := h.2
      rw [hlast] at hrest
      rw [if_neg (by rw [hret]; decide),hstate]
      exact ih ht hrest
    · have hopen := openFrame_exact ht f hwin
      have hrest := h.2
      rw [hlast] at hrest
      have hih := ih hopen.2 hrest
      rw [if_pos (ret_ne_zero hopen.1)]
      refine ⟨?_,hwin,hih.2⟩
      intro x hx
      rcases List.mem_cons.mp hx with rfl | hx
      · exact hopen.1
      · exact hih.1 x hx

/-- A run of frames of at least one keystream block, few enough not to wrap
the counter, that opens all accepted frames exactly is alias-free. -/
theorem aliasFree_of_exact {last : Option ℕ} (ht : Tracks key s last)
    (hlast : ∀ j∈last,j+32<2^32) (fs : List Airborne)
    (h8 : ∀ f∈fs,8≤f.message.plaintext.length) (hmax : ∀ f∈fs,f.index+32<2^32)
    (hexact : ∀ x∈accepted fs (openRun s (fs.map (Airborne.rx key))),
      x.2.result=(x.1.message.plaintext.length,x.1.message.plaintext)) :
    AlongRun lastTaken NotAliased last (fs.map Airborne.index) := by
  induction fs generalizing s last with
  | nil => trivial
  | cons f fs ih =>
    have hrun : openRun s ((f::fs).map (Airborne.rx key))=
        openFrame s (f.rx key)::openRun (openFrame s (f.rx key)).state
          (fs.map (Airborne.rx key)) := rfl
    rw [hrun,accepted_cons] at hexact
    have hf := hmax f List.mem_cons_self
    have hhead : NotAliased last f.index := by
      by_contra hnot
      have hinfer : ∃ ctr,inferCounter s ((BitVec.ofNat 32 f.index).setWidth 8)=some ctr ∧
          ctr≠BitVec.ofNat 32 f.index := by
        cases last with
        | none =>
          unfold NotAliased at hnot
          exact ⟨_,inferCounter_none ht f.index,counter_ne (by omega) (by omega) (by omega)⟩
        | some j =>
          have hj := hlast j rfl
          unfold NotAliased at hnot
          have hs : SeemsNext j f.index := by
            by_contra hs
            exact hnot fun hx => absurd hx hs
          have hctr := inferCounter_some ht f.index
          rw [if_pos hs] at hctr
          have hgap := hs
          unfold SeemsNext at hgap
          refine ⟨_,hctr,counter_ne (by omega) (by omega) fun he => hnot fun _ => ?_⟩
          omega
      obtain ⟨ctr,hctr,hne⟩ := hinfer
      have hresult := (openFrame_inferred ht.1 f hctr).1
      rw [if_pos (ret_ne_zero hresult)] at hexact
      exact openFrame_wrong_counter ht.1 f (h8 f List.mem_cons_self) hctr hne
        (hexact _ List.mem_cons_self)
    refine ⟨hhead,?_⟩
    have h8' : ∀ g∈fs,8≤g.message.plaintext.length := fun g hg => h8 g (List.mem_cons_of_mem _ hg)
    have hmax' : ∀ g∈fs,g.index+32<2^32 := fun g hg => hmax g (List.mem_cons_of_mem _ hg)
    rcases openFrame_notAliased ht f hhead with ⟨hret,hstate,hnext⟩ | ⟨hwin,hnext⟩
    · rw [if_neg (by rw [hret]; decide),hstate] at hexact
      rw [hnext]
      exact ih ht hlast h8' hmax' hexact
    · have hopen := openFrame_exact ht f hwin
      rw [if_pos (ret_ne_zero hopen.1)] at hexact
      rw [hnext]
      refine ih hopen.2 ?_ h8' hmax' fun x hx => hexact x (List.mem_cons_of_mem _ hx)
      intro j hj
      rw [Option.mem_some_iff] at hj
      omega

/-- Renaming the frames of a run renames the accepted ones. -/
theorem accepted_map {α β : Type} (g : α → β) (fs : List α) (rs : List OpenReport) :
    accepted (fs.map g) rs=(accepted fs rs).map fun x => (g x.1,x.2) := by
  induction fs generalizing rs with
  | nil => rfl
  | cons f fs ih =>
    cases rs with
    | nil => rfl
    | cons r rs =>
      rw [List.map_cons,accepted_cons,accepted_cons,ih]
      split <;> rfl

/-- A receiver with the sender's key is safe from replays in every run that
delivers no aliased frame. Conversely, when every plaintext covers a keystream
block and the counter does not wrap, only such runs open exactly. -/
theorem replaySafe_aliasFree (sender receiver : CryptState) (addr : Rf24Addr)
    (messages : List TxMessage) (ds : List (Delivery messages.length)) :
    let reports := openRun (nrf24CryptSetKey receiver addr)
      (ds.map (Delivery.frame (sealRun (nrf24CryptSetKey sender addr) messages)))
    (AliasFree (ds.map fun d => d.index.val) → ReplaySafe messages ds reports) ∧
      ((∀ m∈messages,8 ≤ m.plaintext.length) ∧ messages.length+31<2^32 →
        ReplaySafe messages ds reports → AliasFree (ds.map fun d => d.index.val)) := by
  dsimp only
  rw [delivery_frames_eq]
  have ht := tracks_setKey receiver addr
  have hindex : (ds.map (Delivery.airborne messages)).map Airborne.index=
      ds.map fun d => d.index.val := by
    rw [List.map_map]
    rfl
  constructor
  · intro hfree
    rw [AliasFree,←hindex] at hfree
    have hrun := openRun_aliasFree ht _ hfree
    rw [accepted_map] at hrun
    constructor
    · intro x hx
      exact hrun.1 (x.1.airborne messages,x.2) (List.mem_map.mpr ⟨x,hx,rfl⟩)
    · have hnodup := hrun.2.nodup
      rw [List.map_map] at hnodup
      exact hnodup
  · rintro ⟨h8,hmax⟩ hsafe
    rw [AliasFree,←hindex]
    refine aliasFree_of_exact ht (fun j hj => by cases hj) _ ?_ ?_ ?_
    · intro f hf
      obtain ⟨d,-,rfl⟩ := List.mem_map.mp hf
      exact h8 _ (List.get_mem _ _)
    · intro f hf
      obtain ⟨d,-,rfl⟩ := List.mem_map.mp hf
      have hd := d.index.isLt
      change d.index.val+32<2^32
      omega
    · intro x hx
      rw [accepted_map] at hx
      obtain ⟨y,hy,rfl⟩ := List.mem_map.mp hx
      exact hsafe.exact_ y hy

/-- Seven steps of 32 frames carry the window so far around the counter byte
that the very first frame is taken a second time. -/
theorem replaySafe_fails :
    let m : TxMessage := ⟨[0x01#8,0x01#8],0,[],by decide,by decide⟩
    let ms := List.replicate 225 m
    let at_ : Fin 225 → Delivery ms.length := fun i =>
      ⟨i.cast (by rw [List.length_replicate]),[]⟩
    let ds := [0,32,64,96,128,160,192,224,0].map at_
    ¬ReplaySafe ms ds (openRun (nrf24CryptSetKey .boot fun _ => 0xE7)
      (ds.map (Delivery.frame (sealRun (nrf24CryptSetKey .boot fun _ => 0xE7) ms)))) := by
  intro m ms at_ ds h
  have honce := h.once
  rw [delivery_frames_eq] at honce
  revert honce
  decide +kernel

end Replay

end ZephyrApp.Nrf24Crypt

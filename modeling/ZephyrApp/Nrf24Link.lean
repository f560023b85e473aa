import ZephyrApp.Nrf24CryptFrames
import ZephyrApp.XxteaInverse
import ZephyrApp.EventRuns

/-!
# One direction of the encrypted radio link

A sender seals a sequence of messages and a channel delivers the sealed
frames to one receiver. The receiver's inferred counter follows the index of
the last frame it accepted as long as every accepted frame really lies in the
forward window. Runs of in-window frames open exactly, and a run is safe from
replays when no delivered frame only seems to lie in the window.
-/

namespace ZephyrApp.Nrf24Crypt

open MachineBytes CounterStream SequenceWindow EventRuns

/-- A plaintext of a legal length in a transmit buffer with a spare byte. -/
structure TxMessage where
  /-- The plaintext bytes at the start of the buffer. -/
  plaintext : List Byte
  /-- The byte that the shift overwrites. -/
  spare : Byte
  /-- Whatever else the buffer holds. -/
  tail : List Byte
  /-- The message id takes two bytes. -/
  two_le : 2≤plaintext.length
  /-- The counter byte and the plaintext fit a radio payload. -/
  le_31 : plaintext.length≤31

/-- The whole transmit buffer. -/
def TxMessage.buf (m : TxMessage) : List Byte := m.plaintext++m.spare::m.tail

/-- Seal a message in its buffer. -/
def sealMessage (s : CryptState) (m : TxMessage) : SealReport :=
  nrf24CryptSeal s m.buf m.plaintext.length

/-- The bytes handed to the radio after sealing. -/
def SealReport.frame (report : SealReport) : List Byte := report.buf.take report.ret

/-- The statics after sealing a message. -/
def sealNext (s : CryptState) (m : TxMessage) : CryptState := (sealMessage s m).state

/-- The frames of a sequence of messages sealed one after the other. -/
def sealRun (s : CryptState) (messages : List TxMessage) : List (List Byte) :=
  outputs sealNext (fun s m => (sealMessage s m).frame) s messages

/-- A received radio payload in its receive buffer. -/
structure RxFrame where
  /-- The received bytes. -/
  bytes : List Byte
  /-- The rest of the receive buffer. -/
  tail : List Byte

/-- Open a received payload in its buffer. -/
def openFrame (s : CryptState) (f : RxFrame) : OpenReport :=
  nrf24CryptOpen s (f.bytes++f.tail) f.bytes.length

/-- The statics after opening a payload. -/
def openNext (s : CryptState) (f : RxFrame) : CryptState := (openFrame s f).state

/-- Open a sequence of received payloads one after the other. -/
def openRun (s : CryptState) (frames : List RxFrame) : List OpenReport :=
  outputs openNext openFrame s frames

/-- The returned length with the plaintext bytes it stands for. -/
def OpenReport.result (report : OpenReport) : ℕ×List Byte :=
  (report.ret,report.buf.take report.ret)

/-- What the channel delivers: one of the sealed frames, by its index. -/
structure Delivery (n : ℕ) where
  /-- Index of the delivered frame in the order of sealing. -/
  index : Fin n
  /-- The rest of the receive buffer it arrives in. -/
  tail : List Byte

/-- The delivered frame out of the sealed ones. -/
def Delivery.frame {n : ℕ} (frames : List (List Byte)) (d : Delivery n) : RxFrame :=
  ⟨frames.getD d.index [],d.tail⟩

/-- The plaintext that was sealed into the delivered frame. -/
def Delivery.plaintext (messages : List TxMessage) (d : Delivery messages.length) : List Byte :=
  (messages.get d.index).plaintext

/-- The frame of a message sealed as number `index` after the key was set. -/
structure Airborne where
  /-- The number of frames sealed before. -/
  index : ℕ
  /-- The message sealed into the frame. -/
  message : TxMessage
  /-- The rest of the receive buffer it arrives in. -/
  tail : List Byte

/-- The received payload of such a frame under a key. -/
def Airborne.rx (key : CryptKey) (f : Airborne) : RxFrame :=
  ⟨sealedFrame key (BitVec.ofNat 32 f.index) f.message.plaintext,f.tail⟩

/-- The statics hold the key and the index of the last accepted frame, none
when no frame has been accepted yet. -/
def Tracks (key : CryptKey) (s : CryptState) (last : Option ℕ) : Prop :=
  s.cryptKey=key ∧
    match last with
    | none => s.rxInitialized=false
    | some j => s.rxInitialized=true ∧ s.rxCounter=BitVec.ofNat 32 j

/-- Setting the key puts the receiver in the state that has accepted nothing. -/
theorem tracks_setKey (s : CryptState) (addr : Rf24Addr) :
    Tracks (deriveKey addr) (nrf24CryptSetKey s addr) none := ⟨rfl,rfl⟩

/-- Resetting the window keeps the key and forgets the last accepted frame. -/
theorem tracks_rxReset (s : CryptState) :
    Tracks s.cryptKey (nrf24CryptRxReset s) none := ⟨rfl,rfl⟩

section Sealing

/-- Sealing a message yields its sealed frame and advances the counter. -/
theorem sealMessage_spec (s : CryptState) (m : TxMessage) :
    (sealMessage s m).frame=sealedFrame s.cryptKey s.txCounter m.plaintext ∧
      (sealMessage s m).state={s with txCounter := s.txCounter+1} ∧
      (sealMessage s m).fed=counterRun s.txCounter (blockCount 8 m.plaintext.length) := by
  have h := nrf24CryptSeal_eq s m.spare m.tail m.two_le m.le_31
  have hl := sealedFrame_length s.cryptKey s.txCounter m.plaintext
  unfold sealMessage SealReport.frame TxMessage.buf
  rw [h]
  refine ⟨?_,rfl,rfl⟩
  dsimp only
  rw [←hl,List.take_left]

/-- Frame `i` of a run is sealed under the counter that is `i` steps ahead. -/
theorem sealRun_getElem? {s : CryptState} {k : ℕ} (hs : s.txCounter=BitVec.ofNat 32 k)
    (messages : List TxMessage) (i : ℕ) :
    (sealRun s messages)[i]?=
      messages[i]?.map fun m => sealedFrame s.cryptKey (BitVec.ofNat 32 (k+i)) m.plaintext := by
  induction messages generalizing s k i with
  | nil => rfl
  | cons m messages ih =>
    obtain ⟨hframe,hstate,-⟩ := sealMessage_spec s m
    cases i with
    | zero =>
      change some (sealMessage s m).frame=some _
      rw [hframe,hs,Nat.add_zero]
    | succ i =>
      have hnext : (sealNext s m).txCounter=BitVec.ofNat 32 (k+1) := by
        rw [sealNext,hstate,BitVec.ofNat_add,←hs]
        rfl
      have hkey : (sealNext s m).cryptKey=s.cryptKey := by rw [sealNext,hstate]
      have hstep := ih hnext i
      rw [hkey,Nat.add_right_comm,Nat.add_assoc] at hstep
      exact hstep

/-- A delivered frame is the sealed frame of the message at its index. -/
theorem delivery_frame_eq {s : CryptState} {k : ℕ} (hs : s.txCounter=BitVec.ofNat 32 k)
    (messages : List TxMessage) (d : Delivery messages.length) :
    d.frame (sealRun s messages)=
      Airborne.rx s.cryptKey ⟨k+d.index,messages.get d.index,d.tail⟩ := by
  have h := sealRun_getElem? hs messages d.index
  have hm : messages[(d.index : ℕ)]?=some (messages.get d.index) := by
    rw [List.getElem?_eq_getElem d.index.isLt]
    rfl
  rw [hm,Option.map_some] at h
  rw [Delivery.frame,List.getD_eq_getElem?_getD,h]
  rfl

end Sealing

section Opening

variable {key : CryptKey} {s : CryptState}

/-- How far the counter byte of one frame index is ahead of another's. -/
def lowGap (j i : ℕ) : ℕ := (i+(256-j%256))%256

/-- The counter byte alone puts the index into the window of the last one. -/
def SeemsNext (j i : ℕ) : Prop := 1≤lowGap j i ∧ lowGap j i≤32

instance (j i : ℕ) : Decidable (SeemsNext j i) :=
  inferInstanceAs (Decidable (1≤lowGap j i ∧ lowGap j i≤32))

/-- With nothing accepted, a frame is taken under its index modulo 256. -/
theorem inferCounter_none (ht : Tracks key s none) (i : ℕ) :
    inferCounter s ((BitVec.ofNat 32 i).setWidth 8)=some (BitVec.ofNat 32 (i%256)) := by
  rw [inferCounter_first ht.2]
  congr 1
  apply BitVec.eq_of_toNat_eq
  rw [BitVec.toNat_setWidth,BitVec.toNat_setWidth,BitVec.toNat_ofNat,BitVec.toNat_ofNat]
  omega

/-- With frame `j` accepted last, a frame that seems next is taken under the
counter ahead of `j` by the gap of the counter bytes, any other rejected. -/
theorem inferCounter_some {j : ℕ} (ht : Tracks key s (some j)) (i : ℕ) :
    inferCounter s ((BitVec.ofNat 32 i).setWidth 8)=
      if SeemsNext j i then some (BitVec.ofNat 32 (j+lowGap j i)) else none := by
  obtain ⟨-,hinit,hctr⟩ := ht
  have hgap : lowGap j i<256 := Nat.mod_lt _ (by omega)
  have hmod : (i : ℤ)%2^8=((j : ℤ)+(lowGap j i : ℕ))%2^8 := by
    unfold lowGap
    omega
  have hlow : lowDistance s.rxCounter ((BitVec.ofNat 32 i).setWidth 8)=
      BitVec.ofNat 8 (lowGap j i) := by
    rw [hctr]
    exact lowDistance_eq (by omega) hmod
  have hzero : BitVec.ofNat 8 (lowGap j i)=0 ↔ lowGap j i=0 := by
    rw [←BitVec.toNat_inj,BitVec.toNat_ofNat,Nat.mod_eq_of_lt hgap]
    rfl
  have hlarge : 32#8<BitVec.ofNat 8 (lowGap j i) ↔ 32<lowGap j i := by
    rw [BitVec.lt_def,BitVec.toNat_ofNat,BitVec.toNat_ofNat,Nat.mod_eq_of_lt hgap]
  have hadv : advance s.rxCounter ((BitVec.ofNat 32 i).setWidth 8)=
      BitVec.ofNat 32 (j+lowGap j i) := by
    rw [hctr]
    exact advance_eq (by omega) hmod hgap
  rw [inferCounter_window hinit,hlow,hadv]
  by_cases h : SeemsNext j i
  · obtain ⟨h1,h32⟩ := h
    rw [if_neg (by rw [hzero,hlarge]; omega),if_pos ⟨h1,h32⟩]
  · have hout : lowGap j i=0 ∨ 32<lowGap j i := by
      unfold SeemsNext at h
      omega
    rw [if_pos (by rw [hzero,hlarge]; exact hout),if_neg h]

/-- A frame taken under a counter is unmasked with the keystream of it. -/
theorem openFrame_inferred (hkey : s.cryptKey=key) (f : Airborne) {ctr : Word}
    (hctr : inferCounter s ((BitVec.ofNat 32 f.index).setWidth 8)=some ctr) :
    (openFrame s (f.rx key)).result=(f.message.plaintext.length,
        maskBytes (keystream key ctr)
          (maskBytes (keystream key (BitVec.ofNat 32 f.index)) f.message.plaintext)) ∧
      (openFrame s (f.rx key)).state={s with rxCounter := ctr,rxInitialized := true} := by
  set body := maskBytes (keystream key (BitVec.ofNat 32 f.index)) f.message.plaintext with hbody
  have hlen : body.length=f.message.plaintext.length := maskBytes_length _ _
  have h2 := f.message.two_le
  have h31 := f.message.le_31
  obtain ⟨hplain,hret,hstate⟩ :=
    nrf24CryptOpen_accepts s f.tail (by omega : 2≤body.length) (by omega) hctr
  have hopen : openFrame s (f.rx key)=nrf24CryptOpen s
      ((BitVec.ofNat 32 f.index).setWidth 8::body++f.tail) (body.length+1) := rfl
  rw [hopen]
  refine ⟨?_,hstate⟩
  unfold OpenReport.plaintext at hplain
  rw [if_neg (by omega),Option.some.injEq] at hplain
  rw [OpenReport.result,hplain,hret,hlen,hkey]

/-- A frame that opens to a result has the result's length returned. -/
theorem ret_ne_zero {f : Airborne} {plaintext : List Byte}
    (h : (openFrame s (f.rx key)).result=(f.message.plaintext.length,plaintext)) :
    (openFrame s (f.rx key)).ret≠0 := by
  have h2 := f.message.two_le
  have hret : (openFrame s (f.rx key)).ret=f.message.plaintext.length := congrArg Prod.fst h
  omega

/-- A frame whose counter byte is out of the window is rejected unchanged. -/
theorem openFrame_rejected {j : ℕ} (ht : Tracks key s (some j)) (f : Airborne)
    (h : ¬SeemsNext j f.index) : openFrame s (f.rx key)=⟨0,(f.rx key).bytes++f.tail,s⟩ := by
  have hnone := inferCounter_some ht f.index
  rw [if_neg h] at hnone
  exact nrf24CryptOpen_rejects s _ hnone

/-- A frame that lies in the window opens exactly and is tracked from then on;
the first one must come before the counter byte has wrapped. -/
theorem openFrame_exact {last : Option ℕ} (ht : Tracks key s last) (f : Airborne)
    (h : InWindow (fun i => i%2^32<256) 32 last f.index) :
    (openFrame s (f.rx key)).result=(f.message.plaintext.length,f.message.plaintext) ∧
      Tracks key (openFrame s (f.rx key)).state (some f.index) := by
  have hctr : inferCounter s ((BitVec.ofNat 32 f.index).setWidth 8)=
      some (BitVec.ofNat 32 f.index) := by
    cases last with
    | none =>
      have hfirst : f.index%2^32<256 := h
      rw [inferCounter_none ht]
      congr 1
      apply BitVec.eq_of_toNat_eq
      rw [BitVec.toNat_ofNat,BitVec.toNat_ofNat]
      omega
    | some j =>
      obtain ⟨hlt,hle⟩ : j < f.index ∧ f.index≤j+32 := h
      have hgap : lowGap j f.index=f.index-j := by
        unfold lowGap
        omega
      have hseems : SeemsNext j f.index := by
        unfold SeemsNext
        omega
      have hsum : j+lowGap j f.index=f.index := by omega
      rw [inferCounter_some ht,if_pos hseems,hsum]
  obtain ⟨hresult,hstate⟩ := openFrame_inferred ht.1 f hctr
  rw [maskBytes_maskBytes] at hresult
  refine ⟨hresult,?_⟩
  rw [hstate]
  exact ⟨ht.1,rfl,rfl⟩

/-- In a forward run every frame opens exactly. -/
theorem openRun_forward {last : Option ℕ} (ht : Tracks key s last) (fs : List Airborne)
    (h : ForwardRun (fun i => i%2^32<256) 32 last (fs.map Airborne.index)) :
    (openRun s (fs.map (Airborne.rx key))).map OpenReport.result=
      fs.map fun f => (f.message.plaintext.length,f.message.plaintext) := by
  induction fs generalizing s last with
  | nil => rfl
  | cons f fs ih =>
    obtain ⟨hresult,hnext⟩ := openFrame_exact ht f h.1
    have hrest := ih hnext h.2
    change (openFrame s (f.rx key)).result::_=_::_
    rw [hresult]
    exact congrArg _ hrest

end Opening

/-- The delivered frame as one that its message was sealed into. -/
def Delivery.airborne (messages : List TxMessage) (d : Delivery messages.length) : Airborne :=
  ⟨d.index,messages.get d.index,d.tail⟩

/-- Right after the key is set, the delivered frames are the ones sealed under
the counters 0, 1, 2, ... -/
theorem delivery_frames_eq (sender : CryptState) (addr : Rf24Addr) (messages : List TxMessage)
    (ds : List (Delivery messages.length)) :
    ds.map (Delivery.frame (sealRun (nrf24CryptSetKey sender addr) messages))=
      (ds.map (Delivery.airborne messages)).map (Airborne.rx (deriveKey addr)) := by
  have hs : (nrf24CryptSetKey sender addr).txCounter=BitVec.ofNat 32 0 := rfl
  rw [List.map_map]
  apply List.map_congr_left
  intro d _
  have hd := delivery_frame_eq hs messages d
  rw [Nat.zero_add] at hd
  exact hd

/-- Encrypted round trip: both ends set the same address, and the delivered
frames keep the order of sealing, start among the first 256 and lose at most
31 in a row. Then every one of them opens to its length and plaintext. -/
theorem openRun_roundTrip (sender receiver : CryptState) (addr : Rf24Addr)
    (messages : List TxMessage) (ds : List (Delivery messages.length))
    (h : ForwardRun (· < 256) 32 none (ds.map fun d => d.index.val)) :
    (openRun (nrf24CryptSetKey receiver addr)
        (ds.map (Delivery.frame (sealRun (nrf24CryptSetKey sender addr) messages)))).map
          OpenReport.result=
      ds.map fun d => ((d.plaintext messages).length,d.plaintext messages) := by
  have hrun : ForwardRun (fun i => i%2^32<256) 32 none
      ((ds.map (Delivery.airborne messages)).map Airborne.index) := by
    rw [List.map_map]
    refine ForwardRun.mono (fun i hi => ?_) h
    omega
  have hopen := openRun_forward (tracks_setKey receiver addr) _ hrun
  rw [delivery_frames_eq,hopen,List.map_map]
  rfl

/-- Frames 250, 256 and 288 of a longer run cross the wrap of the counter byte
with the largest loss in between, and open to what was sealed. -/
theorem openRun_roundTrip_wrap :
    let m : TxMessage := ⟨[0x01#8,0x01#8,0xAA#8],0,[],by decide,by decide⟩
    let ms := List.replicate 289 m
    let at_ : (i : ℕ) → i<289 → Delivery ms.length := fun i h =>
      ⟨⟨i,by rw [List.length_replicate]; exact h⟩,[]⟩
    let ds := [at_ 250 (by decide),at_ 256 (by decide),at_ 288 (by decide)]
    (openRun (nrf24CryptSetKey .boot fun _ => 0xE7)
        (ds.map (Delivery.frame (sealRun (nrf24CryptSetKey .boot fun _ => 0xE7) ms)))).map
          OpenReport.result=
      ds.map fun d => ((d.plaintext ms).length,d.plaintext ms) :=
  openRun_roundTrip .boot .boot (fun _ => 0xE7) _ _
    ⟨by decide,⟨by decide,by decide⟩,⟨by decide,by decide⟩,trivial⟩

end ZephyrApp.Nrf24Crypt

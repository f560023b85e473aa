import ZephyrApp.CanFwUpgrade
import ZephyrApp.ChunkAssembly
import ZephyrApp.CStrings
import ZephyrApp.WhileLoop

/-!
# The version text in frames

The version text is sent in frames of a number and seven bytes. Offset and number are
counted in eight bits. The host sorts what it has received by the numbers, joins the
texts, and cuts at the length that was announced or at the first zero byte.
-/

namespace ZephyrApp.VersionFrames

open MachineBytes CanFrames CanFwUpgrade ChunkAssembly CStrings WhileLoop

section Source

/-- `CAN_FW_VERSION_TX`. -/
def canFwVersionTx : Word := 0x105

/-- The loop of `fw_can_send_version_string`. -/
structure SendLoop where
  /-- `off`. -/
  off : Byte
  /-- `seq`. -/
  seq : Byte
  /-- The frames sent. -/
  sent : List CanFrame

/-- A frame of the version text: the number, the bytes, and zeros behind them. -/
def versionFrame (seq : Byte) (bytes : List Byte) : CanFrame :=
  ⟨canFwVersionTx,canBytesToDlc 8,copyToData (seq::bytes),copyToData_length (seq::bytes)⟩

/-- One pass of the loop. -/
def sendPass (ver : List Byte) (len : Byte) (s : SendLoop) : SendLoop :=
  let chunk := min 7 (len.toNat-s.off.toNat)
  ⟨s.off+7,s.seq+1,s.sent++[versionFrame s.seq ((ver.drop s.off.toNat).take chunk)]⟩

/-- `fw_can_send_version_string` with at most so many tests of its loop: the frames that
it sends. -/
def fwCanSendVersionString (fuel : ℕ) (ver : List Byte) (len : Byte) : Option (List CanFrame) :=
  (whileLoop (fun s => decide (s.off < len)) (sendPass ver len) fuel ⟨0,0,[]⟩).map SendLoop.sent

/-- The offset of the reply with the code `FW_CODE_VERSION`. -/
def announcedLength (ver : List Byte) : Word := BitVec.ofNat 32 ver.length

end Source

section Host

/-- The number of a frame. -/
def frameSeq (f : CanFrame) : ℕ := (f.data.getD 0 0).toNat

/-- The text of a frame. -/
def frameText (f : CanFrame) : List Byte := f.data.drop 1

/-- The texts of the frames, in the order of their numbers. -/
def hostJoin (received : List CanFrame) : List Byte :=
  (received.mergeSort fun f g => decide (frameSeq f ≤ frameSeq g)).flatMap frameText

/-- The text up to the announced length. -/
def hostByLength (announced : Word) (received : List CanFrame) : List Byte :=
  (hostJoin received).take announced.toNat

/-- The text up to the first zero byte. -/
def hostByNul (received : List CanFrame) : List Byte := cString (hostJoin received)

end Host

section Frames

variable (text : List Byte)

/-- The number of frames: the seventh part of the length, rounded up. -/
def frameCount : ℕ := (text.length+6)/7

/-- The text with the zeros that fill its last frame. -/
def padded : List Byte := text++List.replicate (7*frameCount text-text.length) 0

/-- The frame of a number. -/
def frameAt (k : ℕ) : CanFrame := versionFrame (BitVec.ofNat 8 k) (piece 7 text k)

variable {text}

/-- Some passes later the loop has sent the frames of their numbers. -/
theorem sendPass_iterate (hlen : text.length≤252) {k : ℕ} (hk : k≤frameCount text) :
    (sendPass text (BitVec.ofNat 8 text.length))^[k] ⟨0,0,[]⟩=
      ⟨BitVec.ofNat 8 (7*k),BitVec.ofNat 8 k,(List.range k).map (frameAt text)⟩ := by
  induction k with
  | zero => rfl
  | succ k ih =>
    rw [frameCount] at hk
    have hoff : (BitVec.ofNat 8 (7*k)).toNat=7*k := Nat.mod_eq_of_lt (by omega)
    have hlength : (BitVec.ofNat 8 text.length).toNat=text.length :=
      Nat.mod_eq_of_lt (by omega)
    have hpiece : (text.drop (7*k)).take (min 7 (text.length-7*k))=piece 7 text k := by
      rw [piece,List.take_eq_take_iff,List.length_drop]
      omega
    rw [Function.iterate_succ_apply',ih (by rw [frameCount]; omega),sendPass]
    dsimp only
    rw [hoff,hlength,hpiece,List.range_succ,List.map_append,Nat.mul_succ,BitVec.ofNat_add,
      BitVec.ofNat_add]
    rfl

/-- The loop ends after the frames of the text. -/
theorem fwCanSendVersionString_eq (hlen : text.length≤252) :
    fwCanSendVersionString (frameCount text+1) text (BitVec.ofNat 8 text.length)=
      some ((List.range (frameCount text)).map (frameAt text)) := by
  have htest : ∀ k≤frameCount text,decide (((sendPass text
      (BitVec.ofNat 8 text.length))^[k] ⟨0,0,[]⟩).off < BitVec.ofNat 8 text.length)=
        decide (7*k < text.length) := by
    intro k hk
    rw [sendPass_iterate hlen hk]
    rw [frameCount] at hk
    refine decide_eq_decide.mpr ?_
    rw [BitVec.lt_def,BitVec.toNat_ofNat,BitVec.toNat_ofNat,Nat.mod_eq_of_lt (by omega),
      Nat.mod_eq_of_lt (by omega)]
  rw [fwCanSendVersionString]
  refine Option.map_eq_some_iff.mpr ⟨_,whileLoop_eq_some_iff.mpr
    ⟨frameCount text,Nat.lt_succ_self _,rfl,?_,fun i hi => ?_⟩,?_⟩
  · rw [htest _ le_rfl,decide_eq_false_iff_not,frameCount]
    omega
  · rw [htest i hi.le,decide_eq_true_eq]
    rw [frameCount] at hi
    omega
  · rw [sendPass_iterate hlen le_rfl]

/-- A frame carries its piece of the padded text. -/
theorem frameText_frameAt {k : ℕ} (hk : k < frameCount text) :
    frameText (frameAt text k)=piece 7 (padded text) k := by
  have hcount : frameCount text=(text.length+6)/7 := rfl
  have hcut : 7*k≤text.length := by omega
  have hdata : frameText (frameAt text k)=(piece 7 text k++List.replicate 8 0).take 7 := rfl
  rw [hdata,piece,piece,padded,List.drop_append_of_le_length hcut,List.take_append,
    List.take_append,List.take_take,Nat.min_self,List.take_replicate,List.take_replicate,
    List.length_take,List.length_drop]
  congr 2
  omega

/-- Joined in the order of their numbers the frames carry the padded text. -/
theorem flatMap_frameText :
    ((List.range (frameCount text)).map (frameAt text)).flatMap frameText=padded text := by
  have hcount : frameCount text=(text.length+6)/7 := rfl
  have hlen : (padded text).length=7*frameCount text := by
    rw [padded,List.length_append,List.length_replicate]
    omega
  have hpieces : (List.range (frameCount text)).flatMap (fun k => frameText (frameAt text k))=
      (List.range (frameCount text)).flatMap (piece 7 (padded text)) :=
    List.flatMap_congr fun k hk => frameText_frameAt (List.mem_range.mp hk)
  rw [List.flatMap_map,hpieces,flatMap_piece]
  exact List.take_of_length_le hlen.le

/-- Sorted by their numbers the frames are those sent, in whatever order they came. -/
theorem mergeSort_received (hlen : text.length≤252) {received : List CanFrame}
    (harrived : received.Perm ((List.range (frameCount text)).map (frameAt text))) :
    received.mergeSort (fun f g => decide (frameSeq f ≤ frameSeq g))=
      (List.range (frameCount text)).map (frameAt text) := by
  have hcount : frameCount text=(text.length+6)/7 := rfl
  have hsent : ((List.range (frameCount text)).map (frameAt text)).map frameSeq=
      List.range' 0 ((List.range (frameCount text)).map (frameAt text)).length := by
    rw [List.map_map,List.length_map,List.length_range,←List.range_eq_range']
    refine (List.map_congr_left fun k hk => ?_).trans (List.map_id _)
    have hk' := List.mem_range.mp hk
    exact Nat.mod_eq_of_lt (by omega : k < 2^8)
  have hsorted := @List.pairwise_mergeSort _ (fun f g => decide (frameSeq f ≤ frameSeq g))
    (fun a b c hab hbc => decide_eq_true ((of_decide_eq_true hab).trans (of_decide_eq_true hbc)))
    (fun a b => by simp [Nat.le_total]) received
  exact eq_of_numbered hsent ((List.mergeSort_perm received _).trans harrived)
    (hsorted.imp fun h => of_decide_eq_true h)

/-- The padded text up to its first zero byte. -/
theorem cString_padded (hnul : ∀ b∈text,b≠0) : cString (padded text)=text := by
  rw [padded,cString_append hnul]
  cases 7*frameCount text-text.length with
  | zero => exact List.append_nil text
  | succ n =>
    rw [List.replicate_succ,cString,List.takeWhile_cons_of_neg (by decide),List.append_nil]

/-- The announced length is that of the text. -/
theorem announcedLength_toNat (hlen : text.length≤252) :
    (announcedLength text).toNat=text.length := Nat.mod_eq_of_lt (by omega)

/-- A text without zero bytes of at most 252 bytes is sent in as many frames as the
seventh part of its length, rounded up, and the host reads it back from them in whatever
order they arrive, by the announced length and by the first zero byte. -/
theorem version_text_readback (hlen : text.length≤252)
    (hnul : ∀ b∈text,b≠0) :
    ∃ fuel sent,fwCanSendVersionString fuel text (BitVec.ofNat 8 text.length)=some sent ∧
      sent.length=(text.length+6)/7 ∧ (∀ f∈sent,f.id=canFwVersionTx) ∧
      ∀ received : List CanFrame,received.Perm sent →
        hostByLength (announcedLength text) received=text ∧ hostByNul received=text := by
  refine ⟨_,_,fwCanSendVersionString_eq hlen,?_,fun f hf => ?_,fun received harrived => ?_⟩
  · rw [List.length_map,List.length_range,frameCount]
  · obtain ⟨k,-,rfl⟩ := List.mem_map.mp hf
    rfl
  · have hjoin : hostJoin received=padded text := by
      rw [hostJoin,mergeSort_received hlen harrived,flatMap_frameText]
    rw [hostByLength,hostByNul,hjoin,announcedLength_toNat hlen]
    exact ⟨List.take_left,cString_padded hnul⟩

/-- The text of a release with the first digits of its commit. -/
def releaseText : List Byte :=
  [0x76,0x30,0x2E,0x31,0x2E,0x34,0x5F,0x30,0x62,0x34,0x65,0x65,0x33]

/-- The text of a release is read back from two frames. -/
theorem releaseText_readback :
    ∃ fuel sent,fwCanSendVersionString fuel releaseText (BitVec.ofNat 8 releaseText.length)=
        some sent ∧ sent.length=2 ∧ (∀ f∈sent,f.id=canFwVersionTx) ∧
      ∀ received : List CanFrame,received.Perm sent →
        hostByLength (announcedLength releaseText) received=releaseText ∧
          hostByNul received=releaseText :=
  version_text_readback (by decide) (by decide)

/-- The frames are those that the model of the upgrade library answers the version
command with. -/
theorem versionFrames_eq (text : List Byte) :
    versionFrames text=((List.range (frameCount text)).map (frameAt text)).map fun f =>
      .versionText (f.data.getD 0 0) (frameText f) := by
  rw [versionFrames,List.map_map]
  refine List.map_congr_left fun k _ => ?_
  have hlen : (piece 7 text k).length≤7 := List.length_take_le _ _
  have htext : frameText (frameAt text k)=
      piece 7 text k++List.replicate (7-(piece 7 text k).length) 0 := by
    have hdata : frameText (frameAt text k)=(piece 7 text k++List.replicate 8 0).take 7 := rfl
    rw [hdata,List.take_append,List.take_of_length_le hlen,List.take_replicate]
    congr 2
    omega
  exact congrArg (FwAction.versionText (BitVec.ofNat 8 k)) htext.symm

end Frames

end ZephyrApp.VersionFrames

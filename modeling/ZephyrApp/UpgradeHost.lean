import ZephyrApp.CanFwUpgrade
import ZephyrApp.LockStep

/-!
# The upgrade tool on the host

The tool that sends an image over the bus: a start command, the file in chunks
of eight bytes, a wait for a reply at every multiple of 64 bytes and at the end
of the file, and a confirm command. Its turns, read off the file alone, are the
frames it sends with the replies it hopes for.
-/

namespace ZephyrApp.UpgradeHost

open MachineBytes CanFrames LockStep
open CanFwUpgrade (RxCanFrame commandFrame commandFrame_data32)

/-- `FW_CODE_OFFSET`. -/
def fwCodeOffset : Word := 0

/-- `FW_CODE_UPDATE_SUCCESS`. -/
def fwCodeUpdateSuccess : Word := 1

/-- `FW_CODE_CONFIRM`. -/
def fwCodeConfirm : Word := 3

/-- `FW_CODE_TRANFER_ERROR`. -/
def fwCodeTranferError : Word := 5

/-- `FW_DATA_RX`, the id of firmware data. -/
def fwDataRx : Word := 0x103

/-- `BOARD_START_UPDATE`. -/
def boardStartUpdate : Word := 0

/-- `BOARD_CONFIRM`. -/
def boardConfirm : Word := 1

/-- A reply as `can_recv` unpacks it: code and offset. -/
abbrev Reply := Word×Word

/-- How a run of the tool ends. -/
inductive Outcome where
  /-- The upload is reported as finished. -/
  | uploaded
  /-- The download is reported as failed. -/
  | downloadFailed
  /-- Nothing is reported. -/
  | unreported
  /-- The exception of a refused start. -/
  | flashEraseError
  /-- The exception of a failed upload. -/
  | firmwareUploadError
  deriving DecidableEq

/-- Where the tool is in `firmware_upgrade`. -/
inductive HostState where
  /-- Before the start command. -/
  | start
  /-- Waiting for its reply. -/
  | awaitStart
  /-- At the head of the loop, with some bytes sent. -/
  | upload (sent : ℕ)
  /-- Waiting for a reply in the loop. -/
  | awaitUpload (sent : ℕ)
  /-- After the loop. -/
  | confirm
  /-- Waiting for the reply to the confirm command. -/
  | awaitConfirm
  /-- After the end. -/
  | ended (outcome : Outcome)
  deriving DecidableEq

/-- A data message with a chunk of at most eight bytes. -/
def dataMessage (chunk : List Byte) : RxCanFrame :=
  ⟨⟨fwDataRx,min chunk.length 8,copyToData chunk,copyToData_length chunk⟩,Nat.min_le_right _ 8⟩

section Tool

variable (file : List Byte) (test : Bool)

/-- The start message. -/
def startMessage : RxCanFrame := commandFrame boardStartUpdate (BitVec.ofNat 32 file.length)

/-- The confirm message. -/
def confirmMessage : RxCanFrame := commandFrame boardConfirm (if test then 0 else 1)

/-- The bytes of the next read. -/
def chunkAt (sent : ℕ) : List Byte := (file.drop sent).take 8

/-- The replies to the start command that the tool takes for a refusal. -/
def startRefused (reply : Reply) : Bool := decide (reply.1≠fwCodeOffset ∧ reply.2≠0)

/-- `firmware_upgrade`. A size beyond 32 bits cannot be packed. -/
def firmwareUpgrade : HostState → Move HostState RxCanFrame Reply
  | .start => if 2^32 ≤ file.length then .done else .send (startMessage file) .awaitStart
  | .awaitStart => .receive fun reply =>
      if startRefused reply=true then .ended .flashEraseError else .upload 0
  | .upload sent =>
    if chunkAt file sent=[] then .send (confirmMessage test) .awaitConfirm
    else
      let sent' := sent+(chunkAt file sent).length
      .send (dataMessage (chunkAt file sent))
        (if sent'%64≠0 ∧ sent'≠file.length then .upload sent' else .awaitUpload sent')
  | .awaitUpload sent => .receive fun reply =>
      if reply.1=fwCodeUpdateSuccess ∧ reply.2.toNat=sent then .confirm
      else if reply.1≠fwCodeOffset then .ended .firmwareUploadError
      else .upload sent
  | .confirm => .send (confirmMessage test) .awaitConfirm
  | .awaitConfirm => .receive fun reply =>
      if reply.1=fwCodeConfirm ∧ reply.2=0x55AA55AA then .ended .uploaded
      else if reply.1=fwCodeTranferError then .ended .downloadFailed
      else .ended .unreported
  | .ended _ => .done

/-- The number of bytes sent after a chunk. -/
def sentAfter (i : ℕ) : ℕ := min (8*(i+1)) file.length

/-- The turn of a chunk: its message, and the reply due after it, at the end of
the file and at every multiple of 64 bytes. -/
def dataTurn (i : ℕ) : RxCanFrame×Option Reply :=
  (dataMessage (chunkAt file (8*i)),
    if sentAfter file i=file.length then some (fwCodeUpdateSuccess,BitVec.ofNat 32 file.length)
    else if sentAfter file i%64=0 then some (fwCodeOffset,BitVec.ofNat 32 (sentAfter file i))
    else none)

/-- The number of chunks of the file. -/
def chunkCount : ℕ := (file.length+7)/8

/-- The turns of the chunks from one on. -/
def dataTurns (i n : ℕ) : List (RxCanFrame×Option Reply) := (List.range' i n).map (dataTurn file)

/-- The turns of an upgrade. -/
def upgradeTurns : List (RxCanFrame×Option Reply) :=
  (startMessage file,some (fwCodeOffset,0))::(dataTurns file 0 (chunkCount file)++
    [(confirmMessage test,some (fwCodeConfirm,0x55AA55AA))])

end Tool

/-- The start message carries the command and the size of the file. -/
theorem startMessage_words (file : List Byte) :
    (startMessage file).data32 0=boardStartUpdate ∧
      (startMessage file).data32 1=BitVec.ofNat 32 file.length :=
  commandFrame_data32 _ _

/-- The confirm message carries the command and the kind of boot. -/
theorem confirmMessage_words (test : Bool) :
    (confirmMessage test).data32 0=boardConfirm ∧
      (confirmMessage test).data32 1=if test then 0 else 1 :=
  commandFrame_data32 _ _

/-- A data message carries its chunk. -/
theorem dataMessage_payload {chunk : List Byte} (h : chunk.length≤8) :
    (dataMessage chunk).payload=chunk := by
  have hdlc : (dataMessage chunk).dlc=chunk.length := Nat.min_eq_left h
  have hdata : (dataMessage chunk).data=copyToData chunk := rfl
  rw [RxCanFrame.payload,hdlc,hdata,canDlcToBytes_of_le h,copyToData,List.take_take,
    Nat.min_eq_left h,List.take_left]

section Schedule

variable {file : List Byte} {test : Bool} {i n : ℕ}

/-- A chunk has at most eight bytes. -/
theorem chunkAt_length (file : List Byte) (sent : ℕ) :
    (chunkAt file sent).length=min 8 (file.length-sent) := by
  rw [chunkAt,List.length_take,List.length_drop]

/-- The chunks of the file are not empty. -/
theorem chunkAt_ne_nil (h : 8*i < file.length) : chunkAt file (8*i)≠[] := by
  intro hnil
  have hlength := chunkAt_length file (8*i)
  rw [hnil,List.length_nil] at hlength
  omega

/-- The bytes sent after a chunk are those before it and the chunk. -/
theorem sentAfter_eq (h : 8*i < file.length) :
    8*i+(chunkAt file (8*i)).length=sentAfter file i := by
  rw [chunkAt_length,sentAfter]
  omega

/-- The first bytes of the file up to a chunk, and the chunk. -/
theorem take_sentAfter (h : 8*i < file.length) :
    file.take (8*i)++chunkAt file (8*i)=file.take (sentAfter file i) := by
  rw [chunkAt,←List.take_add,sentAfter,List.take_eq_take_iff]
  omega

/-- The turns of the chunks follow each other. -/
theorem dataTurns_succ (file : List Byte) (i n : ℕ) :
    dataTurns file i (n+1)=dataTurn file i::dataTurns file (i+1) n := by
  rw [dataTurns,List.range'_succ,List.map_cons]
  rfl

/-- Only the last chunk ends at the end of the file. -/
theorem sentAfter_last (hi : i+(n+1)=chunkCount file) :
    8*i < file.length ∧ (sentAfter file i=file.length ↔ n=0) ∧
      (n≠0 → sentAfter file i=8*(i+1)) := by
  unfold chunkCount at hi
  unfold sentAfter
  omega

/-- The tool sends a chunk and goes on, or waits when a reply is due. -/
theorem upload_sends (test : Bool) (hlt : 8*i < file.length) :
    firmwareUpgrade file test (.upload (8*i))=.send (dataMessage (chunkAt file (8*i)))
      (if sentAfter file i%64≠0 ∧ sentAfter file i≠file.length then .upload (sentAfter file i)
      else .awaitUpload (sentAfter file i)) := by
  rw [firmwareUpgrade,if_neg (chunkAt_ne_nil hlt)]
  dsimp only
  rw [sentAfter_eq hlt]

/-- The tool follows the turn of a chunk before the last. -/
theorem follows_turn (test : Bool) (hlt : 8*i < file.length) (hend : sentAfter file i≠file.length) :
    Follows (firmwareUpgrade file test) (.upload (8*i)) [dataTurn file i] (.upload (8*(i+1))) := by
  have hsend := upload_sends test hlt
  have hsent : sentAfter file i=8*(i+1) := by
    unfold sentAfter at hend ⊢
    omega
  rw [dataTurn,if_neg hend]
  by_cases hdue : sentAfter file i%64=0
  · rw [if_neg fun h => h.1 hdue] at hsend
    rw [if_pos hdue]
    refine .awaited hsend rfl ?_
    have hcode : ¬fwCodeOffset=fwCodeUpdateSuccess := by decide
    rw [if_neg fun h => hcode h.1,if_neg (not_not.mpr rfl),hsent]
    exact .nil _
  · rw [if_pos ⟨hdue,hend⟩] at hsend
    rw [if_neg hdue]
    refine .silent hsend ?_
    rw [hsent]
    exact .nil _

/-- The tool follows the turn of the last chunk, and leaves the loop. -/
theorem follows_last (test : Bool) (hsize : file.length < 2^32) (hlt : 8*i < file.length)
    (hend : sentAfter file i=file.length) :
    Follows (firmwareUpgrade file test) (.upload (8*i)) [dataTurn file i] .confirm := by
  have hsend := upload_sends test hlt
  have hcount : (BitVec.ofNat 32 file.length).toNat=file.length := word_toNat hsize
  rw [if_neg fun h => h.2 hend] at hsend
  rw [dataTurn,if_pos hend]
  refine .awaited hsend rfl ?_
  rw [if_pos ⟨rfl,hcount.trans hend.symm⟩]
  exact .nil _

/-- The tool follows the turns of some chunks before the end of the file. -/
theorem follows_part (test : Bool) (hpart : 8*(i+n) < file.length) :
    Follows (firmwareUpgrade file test) (.upload (8*i)) (dataTurns file i n)
      (.upload (8*(i+n))) := by
  induction n generalizing i with
  | zero => exact .nil _
  | succ n ih =>
    have hend : sentAfter file i≠file.length := by
      unfold sentAfter
      omega
    have hrest := ih (i := i+1) (by omega)
    rw [Nat.add_right_comm] at hrest
    rw [dataTurns_succ]
    exact (follows_turn test (by omega) hend).append hrest

/-- The tool follows the turns of the chunks, and then sends the confirm message. -/
theorem follows_data (test : Bool) (hsize : file.length < 2^32) (hi : i+n=chunkCount file) :
    ∃ e,Follows (firmwareUpgrade file test) (.upload (8*i)) (dataTurns file i n) e ∧
      firmwareUpgrade file test e=.send (confirmMessage test) .awaitConfirm := by
  induction n generalizing i with
  | zero =>
    refine ⟨.upload (8*i),.nil _,?_⟩
    have hnil : chunkAt file (8*i)=[] := by
      unfold chunkCount at hi
      apply List.length_eq_zero_iff.mp
      rw [chunkAt_length]
      omega
    rw [firmwareUpgrade,if_pos hnil]
  | succ n ih =>
    obtain ⟨hlt,hlast,-⟩ := sentAfter_last hi
    rw [dataTurns_succ]
    by_cases hend : sentAfter file i=file.length
    · obtain rfl := hlast.mp hend
      exact ⟨.confirm,follows_last test hsize hlt hend,rfl⟩
    · obtain ⟨e,hfollows,he⟩ := ih (i := i+1) (by omega)
      exact ⟨e,(follows_turn test hlt hend).append hfollows,he⟩

/-- The tool sends its start message unless the file is too large. -/
theorem start_sends (test : Bool) (hsize : file.length < 2^32) :
    firmwareUpgrade file test .start=.send (startMessage file) .awaitStart := by
  rw [firmwareUpgrade,if_neg (Nat.not_le.mpr hsize)]

/-- The tool follows the turns of an upgrade. -/
theorem follows_upgrade (hsize : file.length < 2^32) :
    Follows (firmwareUpgrade file test) .start (upgradeTurns file test) (.ended .uploaded) := by
  obtain ⟨e,hdata,he⟩ := follows_data test hsize (Nat.zero_add (chunkCount file))
  refine .awaited (start_sends test hsize) rfl (hdata.append (.awaited he rfl ?_))
  rw [if_pos ⟨rfl,rfl⟩]
  exact .nil _

/-- Between two replies the tool sends at most eight chunks. -/
theorem within_data {k : ℕ} (hi : i+n=chunkCount file) (hk : k < 8) (hcount : 0 < n → k=i%8)
    (turn : RxCanFrame×Option Reply) : Within 8 k (dataTurns file i n++[turn]) := by
  induction n generalizing i k with
  | zero => exact ⟨hk,trivial⟩
  | succ n ih =>
    obtain ⟨hlt,hlast,hnext⟩ := sentAfter_last hi
    have hnow : k=i%8 := hcount (Nat.succ_pos n)
    rw [dataTurns_succ]
    refine ⟨hk,ih (by omega) ?_ fun hn => ?_⟩
    · unfold dataTurn
      dsimp only
      split
      · exact Nat.zero_lt_succ 7
      · rename_i hend
        have hsent := hnext fun hn => hend (hlast.mpr hn)
        split
        · exact Nat.zero_lt_succ 7
        · rename_i hdue
          rw [hsent] at hdue
          simp only [Option.isSome_none,Bool.false_eq_true,if_false]
          omega
    · have hend : ¬sentAfter file i=file.length := fun h => absurd (hlast.mp h) (by omega)
      have hsent := hnext (by omega)
      unfold dataTurn
      dsimp only
      rw [if_neg hend]
      split
      · rename_i hdue
        rw [hsent] at hdue
        simp only [Option.isSome_some,if_true]
        omega
      · rename_i hdue
        rw [hsent] at hdue
        simp only [Option.isSome_none,Bool.false_eq_true,if_false]
        omega

/-- The tool never sends more than eight frames before it waits. -/
theorem within_upgrade (file : List Byte) (test : Bool) : Within 8 0 (upgradeTurns file test) :=
  ⟨Nat.zero_lt_succ 7,within_data (Nat.zero_add _) (Nat.zero_lt_succ 7) (fun _ => rfl) _⟩

end Schedule

end ZephyrApp.UpgradeHost

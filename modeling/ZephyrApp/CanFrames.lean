import ZephyrApp.MachineBytes

/-!
# Classic CAN frames

A frame has an identifier, a data length code and eight data bytes, whatever
its length code says. The two conversions between byte counts and length codes
cover the longer counts of the flexible data rate too.
-/

namespace ZephyrApp.CanFrames

open MachineBytes

/-- A classic CAN frame with its eight data bytes. -/
structure CanFrame where
  /-- The identifier. -/
  id : Word
  /-- The data length code. -/
  dlc : ℕ
  /-- The data bytes. -/
  data : List Byte
  /-- There are always eight of them. -/
  size : data.length=8

/-- `can_bytes_to_dlc`, the smallest length code that holds a number of bytes. -/
def canBytesToDlc (n : ℕ) : ℕ :=
  if 48<n then 15 else if 32<n then 14 else if 24<n then 13 else if 20<n then 12
  else if 16<n then 11 else if 12<n then 10 else if 8<n then 9 else n

/-- `can_dlc_to_bytes`, the number of bytes a length code stands for. -/
def canDlcToBytes (dlc : ℕ) : ℕ :=
  [0,1,2,3,4,5,6,7,8,12,16,20,24,32,48,64].getD dlc 64

/-- The length code of a classic frame is its number of bytes. -/
theorem canDlcToBytes_of_le {dlc : ℕ} (h : dlc≤8) : canDlcToBytes dlc=dlc := by
  interval_cases dlc <;> rfl

/-- Bytes copied to the front of eight zeroed data bytes, as far as they fit. -/
def copyToData (bytes : List Byte) : List Byte := (bytes++List.replicate 8 0).take 8

/-- The copy fills exactly the data bytes. -/
theorem copyToData_length (bytes : List Byte) : (copyToData bytes).length=8 := by
  rw [copyToData,List.length_take,List.length_append,List.length_replicate]
  omega

end ZephyrApp.CanFrames

import ZephyrApp.MachineBytes

/-!
# Sending on the FTP data connection

Data goes out in pieces of at most 256 bytes, and the connection takes of each
piece what it likes. The loop goes on behind what was taken, until nothing is
left or a call fails.
-/

namespace ZephyrApp.FtpDataSend

open MachineBytes

/-- What `send` returns on a data connection, from the bytes it took so far and
the number of bytes offered. -/
abbrev DataConn := List Byte → ℕ → ℤ

/-- The loop of `ftp_data_send`: the bytes that the connection took and the
returned value. Every pass but a failed one takes a byte at least, so that the
data bounds the number of passes. -/
def sendLoop (conn : DataConn) (len : ℕ) : ℕ → List Byte → List Byte → List Byte×ℤ
  | 0,taken,_ => (taken,len)
  | fuel+1,taken,rest =>
    if rest=[] then (taken,len)
    else
      let result := conn taken (min rest.length 256)
      if result≤0 then (taken,result)
      else sendLoop conn len fuel (taken++rest.take result.toNat) (rest.drop result.toNat)

/-- `ftp_data_send` on a connection that took some bytes before. -/
def ftpDataSend (conn : DataConn) (taken data : List Byte) : List Byte×ℤ :=
  sendLoop conn data.length data.length taken data

/-- A connection that takes all bytes, in any pieces: of what it is offered it
takes one byte at least. -/
structure Accepting where
  /-- What `send` returns. -/
  result : DataConn
  /-- It takes something. -/
  pos : ∀ taken n,0 < n → 0 < result taken n
  /-- It takes no more than it is offered. -/
  le : ∀ taken n,result taken n ≤ n

variable (conn : Accepting)

/-- A loop on such a connection sends what is left. -/
theorem sendLoop_accepting (len fuel : ℕ) (taken rest : List Byte) (hfuel : rest.length≤fuel) :
    sendLoop conn.result len fuel taken rest=(taken++rest,(len : ℤ)) := by
  induction fuel generalizing taken rest with
  | zero =>
    obtain rfl := List.eq_nil_of_length_eq_zero (Nat.le_zero.mp hfuel)
    rw [sendLoop,List.append_nil]
  | succ fuel ih =>
    rw [sendLoop]
    split
    · rename_i hrest
      rw [hrest,List.append_nil]
    · rename_i hrest
      have hlen := List.length_pos_of_ne_nil hrest
      have hpos := conn.pos taken (min rest.length 256) (by omega)
      dsimp only
      rw [if_neg (not_le.mpr hpos),ih _ _ (by rw [List.length_drop]; omega),List.append_assoc,
        List.take_append_drop]

/-- `ftp_data_send` sends all data on such a connection and returns its length. -/
theorem ftpDataSend_accepting (taken data : List Byte) :
    ftpDataSend conn.result taken data=(taken++data,(data.length : ℤ)) :=
  sendLoop_accepting conn data.length data.length taken data le_rfl

end ZephyrApp.FtpDataSend

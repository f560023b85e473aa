import ZephyrApp.CounterStream
import ZephyrApp.SequenceWindow

/-!
# The nRF24 link cipher

XXTEA-CTR encryption of radio frames as the driver computes it: the block
function with its 32 rounds, the key derived from the radio address, the
in-place counter-mode loop, and sealing and opening of one frame with the
8-bit transmitted counter and the strictly forward window. Every function
acts on the module's static state and on the caller's buffer.
-/

namespace ZephyrApp.Nrf24Crypt

open MachineBytes CounterStream SequenceWindow

/-- A 128-bit cipher key, four words. -/
abbrev CryptKey := Fin 4 → Word

/-- A five-byte radio address. -/
abbrev Rf24Addr := Fin 5 → Byte

/-- The round constant of the block function. -/
def xxteaDelta : Word := 0x9E3779B9#32

/-- The number of rounds for a block of two words. -/
def xxteaRounds : ℕ := 6+52/2

/-- Local variables of the block function between two rounds. -/
structure XxteaState where
  /-- First word of the block, `v[0]`. -/
  v0 : Word
  /-- Second word of the block, `v[1]`. -/
  v1 : Word
  /-- The word stored last. -/
  z : Word
  /-- The running round constant. -/
  sum : Word

/-- The mixing expression that both stores of a round add to their word. -/
def xxteaMix (sum y z k : Word) : Word :=
  (((z >>> 5) ^^^ (y <<< 2))+((y >>> 3) ^^^ (z <<< 4))) ^^^ ((sum ^^^ y)+(k ^^^ z))

/-- One pass of the `do` loop for two words: the inner loop runs for `p=0`
only, and the key words are selected by two bits of the round constant. -/
def xxteaRound (key : CryptKey) (s : XxteaState) : XxteaState :=
  let sum := s.sum+xxteaDelta
  let e := Fin.ofNat 4 (sum >>> 2).toNat
  let z := s.v0+xxteaMix sum s.v1 s.z (key ((0 : Fin 4) ^^^ e))
  let z' := s.v1+xxteaMix sum z z (key ((1 : Fin 4) ^^^ e))
  ⟨z,z',z',sum⟩

/-- Encrypt a block of two words in place. -/
def xxteaEncryptBlock (key : CryptKey) (v : Word×Word) : Word×Word :=
  let s := (xxteaRound key)^[xxteaRounds] ⟨v.1,v.2,v.2,0⟩
  (s.v0,s.v1)

/-- The static state of the cipher module. -/
structure CryptState where
  /-- The key derived from the radio address. -/
  cryptKey : CryptKey
  /-- Counter of the next frame to seal. -/
  txCounter : Word
  /-- Counter of the last frame opened. -/
  rxCounter : Word
  /-- Whether a frame has been opened since the last reset. -/
  rxInitialized : Bool

/-- The statics as a boot leaves them, all zero. -/
def CryptState.boot : CryptState := ⟨fun _ => 0,0,0,false⟩

/-- The sixteen key bytes: the address repeated cyclically. -/
def keyBytes (addr : Rf24Addr) : List Byte :=
  (List.range 16).map fun i => addr (Fin.ofNat 5 i)

/-- The four big-endian key words of an address. -/
def deriveKey (addr : Rf24Addr) : CryptKey := fun i => sysGetBe32 (keyBytes addr) (i*4)

/-- Derive the key from an address and restart both counters. The stored
receive counter keeps its value, but it is no longer considered. -/
def nrf24CryptSetKey (s : CryptState) (addr : Rf24Addr) : CryptState :=
  {s with cryptKey := deriveKey addr,txCounter := 0,rxInitialized := false}

/-- Forget the receive window. -/
def nrf24CryptRxReset (s : CryptState) : CryptState := {s with rxInitialized := false}

/-- The eight keystream bytes of a counter, from the block `[ctr,~ctr]`. -/
def keystreamBlock (key : CryptKey) (counter : Word) : List Byte :=
  let block := xxteaEncryptBlock key (counter,~~~counter)
  sysPutBe32 block.1++sysPutBe32 block.2

/-- XOR keystream bytes into the buffer, one by one from an offset on. -/
def xorInto : List Byte → ℕ → List Byte → List Byte
  | buf,_,[] => buf
  | buf,at_,k::ks => xorInto (buf.modify at_ (· ^^^ k)) (at_+1) ks

/-- The block loop: while bytes remain, encrypt the counter block, XOR at most
eight bytes and count up. Besides the buffer it records every counter that is
fed to the block function. Each pass consumes a byte, so that a fuel of the
remaining length is never exhausted. -/
def ctrXorLoop (key : CryptKey) (len : ℕ) : ℕ → List Byte → ℕ → Word → List Byte×List Word
  | 0,buf,_,_ => (buf,[])
  | fuel+1,buf,off,counter =>
    if off<len then
      let ks := keystreamBlock key counter
      let chunk := if len-off<8 then len-off else 8
      let rest := ctrXorLoop key len fuel (xorInto buf off (ks.take chunk)) (off+chunk) (counter+1)
      (rest.1,counter::rest.2)
    else (buf,[])

/-- XOR the first `len` bytes of a buffer with the keystream of a counter. -/
def ctrXor (key : CryptKey) (buf : List Byte) (len : ℕ) (counter : Word) : List Byte×List Word :=
  ctrXorLoop key len len buf 0 counter

/-- What sealing returns, leaves in the buffer and does to the statics. -/
structure SealReport where
  /-- Length of the sealed frame, zero when the length is rejected. -/
  ret : ℕ
  /-- The caller's buffer afterwards. -/
  buf : List Byte
  /-- The statics afterwards. -/
  state : CryptState
  /-- The counters fed to the block function, in order. -/
  fed : List Word

/-- Seal one frame in place: shift the plaintext by one byte, encrypt it under
the next counter and put the counter's low byte in front. -/
def nrf24CryptSeal (s : CryptState) (buf : List Byte) (plaintextLen : ℕ) : SealReport :=
  if plaintextLen<2 ∨ 31<plaintextLen then ⟨0,buf,s,[]⟩
  else
    let ctr := s.txCounter
    let ctrByte := (ctr &&& 0xFF#32).setWidth 8
    let moved := memmove buf 1 0 plaintextLen
    let body := ctrXor s.cryptKey (moved.drop 1) plaintextLen ctr
    ⟨plaintextLen+1,(moved.take 1++body.1).set 0 ctrByte,{s with txCounter := ctr+1},body.2⟩

/-- The full counter of a received low byte, or none when it is outside the
strictly forward window. The first frame is taken with high bits zero. -/
def inferCounter (s : CryptState) (ctrByte : Byte) : Option Word :=
  if s.rxInitialized=false then some (ctrByte.setWidth 32)
  else
    let rxLow := (s.rxCounter &&& 0xFF#32).setWidth 8
    let diff := ctrByte-rxLow
    if diff=0 ∨ 32#8<diff then none
    else if ctrByte<rxLow then some ((s.rxCounter &&& ~~~0xFF#32)+256#32+ctrByte.setWidth 32)
    else some ((s.rxCounter &&& ~~~0xFF#32)+ctrByte.setWidth 32)

/-- What opening returns, leaves in the buffer and does to the statics. -/
structure OpenReport where
  /-- Length of the plaintext, zero when the frame is rejected. -/
  ret : ℕ
  /-- The caller's buffer afterwards. -/
  buf : List Byte
  /-- The statics afterwards. -/
  state : CryptState

/-- Open one frame in place: infer its counter, decrypt the body and shift it
to the front. A rejected frame leaves buffer and statics as they were. -/
def nrf24CryptOpen (s : CryptState) (buf : List Byte) (frameLen : ℕ) : OpenReport :=
  if frameLen<3 ∨ 32<frameLen then ⟨0,buf,s⟩
  else
    match inferCounter s (buf.getD 0 0) with
    | none => ⟨0,buf,s⟩
    | some ctr =>
      let body := ctrXor s.cryptKey (buf.drop 1) (frameLen-1) ctr
      ⟨frameLen-1,memmove (buf.take 1++body.1) 0 1 (frameLen-1),
        {s with rxCounter := ctr,rxInitialized := true}⟩

/-- The plaintext an opened frame leaves to the caller, none when rejected. -/
def OpenReport.plaintext (report : OpenReport) : Option (List Byte) :=
  if report.ret=0 then none else some (report.buf.take report.ret)

/-- The keystream of a counter as a stream of bytes. -/
abbrev keystream (key : CryptKey) (counter : Word) : ℕ → Byte :=
  streamByte (keystreamBlock key) 8 counter

end ZephyrApp.Nrf24Crypt

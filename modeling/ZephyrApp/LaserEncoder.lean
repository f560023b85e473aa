import ZephyrApp.CanFrames
import ZephyrApp.EventRuns

/-!
# Encoder positions in the laser's CAN frame

The FPGA reports a time, a place within the turn and a count of turns for each
of two encoders. The position goes into twenty bits of the frame, or zero if
the local clock ran away from the encoder's own time since the previous call.
A previous time of zero stands for no previous call.
-/

namespace ZephyrApp.LaserEncoder

open EventRuns MachineBytes CanFrames

/-- What an encoder measures. -/
structure Reading where
  /-- The place within the turn. -/
  singleNum : BitVec 17
  /-- The signed count of turns. -/
  mutliNum : BitVec 16
deriving DecidableEq

/-- The position in steps of the encoder. -/
def Reading.position (r : Reading) : ℤ := r.mutliNum.toInt*2^17+r.singleNum.toNat

/-- `struct encode_msg` behind its register. -/
structure EncodeMsg where
  /-- `timecount`. -/
  timecount : BitVec 31
  /-- `single_num` and `mutli_num`. -/
  reading : Reading
deriving DecidableEq

/-- The bit fields of a message as the FPGA sends them, lowest first. -/
def EncodeMsg.bits (m : EncodeMsg) : BitVec 64 :=
  m.reading.mutliNum++m.reading.singleNum++m.timecount

/-- `encode_data_get`: the bit fields behind the register byte of a transfer. -/
def encodeDataGet (rx : List Byte) : EncodeMsg :=
  let bits := sysGetLe64 rx 1
  ⟨bits.extractLsb' 0 31,bits.extractLsb' 31 17,bits.extractLsb' 48 16⟩

/-- The statics of `laser_get_encode_data`. -/
structure Statics where
  /-- `local_previous_time`. -/
  localPreviousTime : BitVec 64
  /-- `fpga_previous_time1`. -/
  fpgaPreviousTime1 : Word
  /-- `fpga_previous_time2`. -/
  fpgaPreviousTime2 : Word

/-- `BIT(n)`. -/
abbrev bit (n : ℕ) : Word := BitVec.twoPow 32 n

/-- `diff_l`. -/
def diffL (previous timestamp : BitVec 64) : Word :=
  if previous=0 then 0
  else if timestamp < previous then
    (timestamp+(BitVec.allOnes 64-previous)+1).setWidth 32
  else (timestamp-previous).setWidth 32

/-- `diff_f` of one encoder. -/
def diffF (previous : Word) (timecount : BitVec 31) : Word :=
  if previous=0 then 0
  else if timecount.setWidth 32 < previous then timecount.setWidth 32+(bit 31-previous)
  else timecount.setWidth 32-previous

/-- `postion`, an `int`. -/
def postion (r : Reading) : Word := r.mutliNum.signExtend 32*bit 17+r.singleNum.setWidth 32

/-- A field of `struct laser_encode_data`: the position, unless it is too old. -/
def encodeField (diffL : Word) (previous : Word) (m : EncodeMsg) : BitVec 20 :=
  let diffF := diffF previous m.timecount
  if diffF < diffL ∧ 1000 < diffL-diffF then 0 else (postion m.reading).setWidth 20

/-- `struct laser_encode_data`. -/
structure LaserEncodeData where
  /-- `encode1`. -/
  encode1 : BitVec 20
  /-- `encode2`. -/
  encode2 : BitVec 20
  /-- `laser_val`. -/
  laserVal : BitVec 24
deriving DecidableEq

/-- The bit fields of the structure, lowest first. -/
def LaserEncodeData.bits (d : LaserEncodeData) : BitVec 64 := d.laserVal++d.encode2++d.encode1

/-- The bit fields of eight bytes of memory. -/
def LaserEncodeData.ofBytes (bytes : List Byte) : LaserEncodeData :=
  let bits := sysGetLe64 bytes 0
  ⟨bits.extractLsb' 0 20,bits.extractLsb' 20 20,bits.extractLsb' 40 24⟩

/-- `laser_get_encode_data` with the time it reads and the two messages: the
statics and the two fields. -/
def laserGetEncodeData (s : Statics) (timestamp : BitVec 64) (msg1 msg2 : EncodeMsg) :
    Statics×BitVec 20×BitVec 20 :=
  let diffL := diffL s.localPreviousTime timestamp
  (⟨timestamp,msg1.timecount.setWidth 32,msg2.timecount.setWidth 32⟩,
    encodeField diffL s.fpgaPreviousTime1 msg1,encodeField diffL s.fpgaPreviousTime2 msg2)

/-- A call of `laser_get_encode_data` for a distance that is sent. -/
structure Call where
  /-- `k_uptime_get` in milliseconds. -/
  localTime : ℕ
  /-- The FPGA's time of the first encoder, before it is cut to 31 bits. -/
  timer1 : ℕ
  /-- The same for the second encoder. -/
  timer2 : ℕ
  /-- What the first encoder measures. -/
  reading1 : Reading
  /-- What the second encoder measures. -/
  reading2 : Reading
  /-- `distance`. -/
  distance : ℤ

/-- The first message of a call. -/
def Call.msg1 (c : Call) : EncodeMsg := ⟨BitVec.ofNat 31 c.timer1,c.reading1⟩

/-- The second message of a call. -/
def Call.msg2 (c : Call) : EncodeMsg := ⟨BitVec.ofNat 31 c.timer2,c.reading2⟩

/-- What the transfer of a message receives. -/
def received (m : EncodeMsg) : List Byte := 0::sysPutLe64 m.bits

/-- The call with the messages of the FPGA. -/
def Call.run (s : Statics) (c : Call) : Statics×BitVec 20×BitVec 20 :=
  laserGetEncodeData s (BitVec.ofNat 64 c.localTime) (encodeDataGet (received c.msg1))
    (encodeDataGet (received c.msg2))

/-- The frame that `laser_msg_process_thread` sends. -/
def canFrame (s : Statics) (c : Call) : CanFrame :=
  let data : LaserEncodeData := ⟨(c.run s).2.1,(c.run s).2.2,BitVec.ofInt 24 c.distance⟩
  ⟨0x2E4,canBytesToDlc 8,sysPutLe64 data.bits,rfl⟩

/-- The statics with the previous call beside them. -/
structure Record where
  /-- The statics. -/
  statics : Statics
  /-- The previous call, if there was one. -/
  previous : Option Call

/-- The record after a call. -/
def next (s : Record) (c : Call) : Record := ⟨(c.run s.statics).1,some c⟩

/-- The record at start. -/
def start : Record := ⟨⟨0,0,0⟩,none⟩

/-- Since the previous call no clock went back, and the FPGA's times advanced by
less than one turn of 31 bits. -/
def TimersAdvance (s : Record) (c : Call) : Prop :=
  ∀ p∈s.previous,p.localTime≤c.localTime ∧ (p.timer1≤c.timer1 ∧ c.timer1 < p.timer1+2^31) ∧
    (p.timer2≤c.timer2 ∧ c.timer2 < p.timer2+2^31)

instance (s : Record) (c : Call) : Decidable (TimersAdvance s c) :=
  inferInstanceAs (Decidable (∀ p∈s.previous,_))

/-- A field holds the position in signed twenty bits, unless it is zeroed. -/
def FieldCarries (r : Reading) (field : BitVec 20) : Prop :=
  field.toInt=0 ∨ field.toInt=r.position.bmod (2^20)

/-- Whatever the statics hold, the frame of a call carries its positions, each of
them unless it is zeroed, and the distance. -/
structure FrameCarries (s : Statics) (c : Call) : Prop where
  /-- `encode1`. -/
  encode1 : FieldCarries c.reading1 (LaserEncodeData.ofBytes (canFrame s c).data).encode1
  /-- `encode2`. -/
  encode2 : FieldCarries c.reading2 (LaserEncodeData.ofBytes (canFrame s c).data).encode2
  /-- `laser_val`. -/
  laserVal : 0 ≤ c.distance → c.distance < 2^24 →
    (LaserEncodeData.ofBytes (canFrame s c).data).laserVal.toNat=c.distance.toNat

/-- A field holds the position in signed twenty bits. After a previous call in
which neither the clock nor the encoder's time read zero it is zero instead
exactly if the clock advanced more than a second further, as 32 bits count it. -/
def FieldRight (previous : Option Call) (timer : Call → ℕ) (r : Reading) (c : Call)
    (field : BitVec 20) : Prop :=
  match previous with
  | none => field.toInt=r.position.bmod (2^20)
  | some p => p.localTime%2^64≠0 → timer p%2^31≠0 →
    field.toInt=if timer c-timer p+1000 < (c.localTime-p.localTime)%2^32 then 0
      else r.position.bmod (2^20)

/-- Both fields of a frame are right. -/
structure FrameRight (s : Record) (c : Call) : Prop where
  /-- `encode1`. -/
  encode1 : FieldRight s.previous Call.timer1 c.reading1 c
    (LaserEncodeData.ofBytes (canFrame s.statics c).data).encode1
  /-- `encode2`. -/
  encode2 : FieldRight s.previous Call.timer2 c.reading2 c
    (LaserEncodeData.ofBytes (canFrame s.statics c).data).encode2

section Fields

/-- Three bit fields one behind the other are read back. -/
theorem extractLsb'_fields {l m n : ℕ} (a : BitVec l) (b : BitVec m) (c : BitVec n) :
    (a++b++c).extractLsb' 0 n=c ∧ (a++b++c).extractLsb' n m=b ∧
      (a++b++c).extractLsb' (n+m) l=a := by
  refine ⟨?_,?_,?_⟩
  · ext i hi
    simp [hi,BitVec.getLsbD_append]
  · ext i hi
    simp [hi,BitVec.getLsbD_append]
  · ext i hi
    have hn : ¬n+m+i < n := by omega
    have hm : ¬n+m+i-n < m := by omega
    have hlast : n+m+i-n-m=i := by omega
    simp [hi,BitVec.getLsbD_append,hn,hm,hlast]

/-- A message is read back from its transfer. -/
theorem encodeDataGet_received (m : EncodeMsg) : encodeDataGet (received m)=m := by
  have hbits : sysGetLe64 (received m) 1=m.bits := by
    have h := sysGetLe64_sysPutLe64 m.bits (show [(0 : Byte)].length=1 from rfl) []
    rw [List.append_nil] at h
    exact h
  obtain ⟨htime,hsingle,hmulti⟩ := extractLsb'_fields m.reading.mutliNum m.reading.singleNum
    m.timecount
  rw [encodeDataGet,hbits]
  dsimp only [EncodeMsg.bits]
  rw [htime,hsingle,hmulti]

/-- The fields of the structure are read back from its bytes. -/
theorem ofBytes_sysPutLe64 (d : LaserEncodeData) :
    LaserEncodeData.ofBytes (sysPutLe64 d.bits)=d := by
  have hbits : sysGetLe64 (sysPutLe64 d.bits) 0=d.bits := by
    have h := sysGetLe64_sysPutLe64 d.bits (show ([] : List Byte).length=0 from rfl) []
    rw [List.append_nil] at h
    exact h
  obtain ⟨h1,h2,hval⟩ := extractLsb'_fields d.laserVal d.encode2 d.encode1
  rw [LaserEncodeData.ofBytes,hbits]
  dsimp only [LaserEncodeData.bits]
  rw [h1,h2,hval]

/-- The frame of a call carries the fields that the call computes. -/
theorem ofBytes_canFrame (s : Statics) (c : Call) :
    LaserEncodeData.ofBytes (canFrame s c).data=
      ⟨(c.run s).2.1,(c.run s).2.2,BitVec.ofInt 24 c.distance⟩ := ofBytes_sysPutLe64 _

/-- The `int` is the position as 32 bits hold it. -/
theorem postion_eq (r : Reading) : postion r=BitVec.ofInt 32 r.position := by
  have hscale : bit 17=BitVec.ofInt 32 (2^17) := by decide
  have hsingle : r.singleNum.setWidth 32=BitVec.ofInt 32 r.singleNum.toNat := by
    rw [BitVec.ofInt_natCast,BitVec.ofNat_toNat]
  rw [postion,Reading.position,BitVec.ofInt_add,BitVec.ofInt_mul,hscale,hsingle]
  rfl

/-- A field without delay is the position in signed twenty bits. -/
theorem toInt_postion (r : Reading) :
    ((postion r).setWidth 20).toInt=r.position.bmod (2^20) := by
  rw [postion_eq,BitVec.toInt_setWidth,BitVec.toNat_ofInt,
    Int.toNat_of_nonneg (Int.emod_nonneg _ (by decide))]
  have hdvd : ((2^20 : ℕ) : ℤ)∣((2^32 : ℕ) : ℤ) :=
    Int.natCast_dvd_natCast.mpr (pow_dvd_pow 2 (by decide))
  rw [←Int.emod_bmod,Int.emod_emod_of_dvd _ hdvd,Int.emod_bmod]

/-- A position fits twenty bits exactly within four turns below and above zero. -/
theorem position_fits_iff (r : Reading) :
    r.position.bmod (2^20)=r.position ↔ -4 ≤ r.mutliNum.toInt ∧ r.mutliNum.toInt ≤ 3 := by
  have hsingle := r.singleNum.isLt
  have hlow := Int.le_bmod (x := r.position) (Nat.two_pow_pos 20)
  have hhigh := Int.bmod_lt (x := r.position) (Nat.two_pow_pos 20)
  rw [Reading.position] at hlow hhigh ⊢
  constructor
  · intro h
    rw [h] at hlow hhigh
    omega
  · rintro ⟨hmin,hmax⟩
    exact Int.bmod_eq_of_le (by omega) (by omega)

end Fields

section Clocks

/-- The difference of the local clock is its advance, also when it wraps around. -/
theorem diffL_eq {previous : BitVec 64} (h : previous≠0) (timestamp : BitVec 64) :
    diffL previous timestamp=(timestamp-previous).setWidth 32 := by
  have hones : timestamp+(BitVec.allOnes 64-previous)+1=timestamp-previous := by
    have hone : (1#64 : BitVec 64)=1 := rfl
    rw [←BitVec.neg_one_eq_allOnes,hone]
    ring
  rw [diffL,if_neg h,hones,ite_self]

/-- The difference of the local clock is counted in 32 bits. -/
theorem diffL_toNat {p c : ℕ} (h : p≤c) (hzero : p%2^64≠0) :
    (diffL (BitVec.ofNat 64 p) (BitVec.ofNat 64 c)).toNat=(c-p)%2^32 := by
  have hne : BitVec.ofNat 64 p≠0 := fun heq => by
    have hnat := congrArg BitVec.toNat heq
    rw [BitVec.toNat_ofNat] at hnat
    exact hzero hnat
  rw [diffL_eq hne,BitVec.toNat_setWidth,BitVec.toNat_sub,BitVec.toNat_ofNat,BitVec.toNat_ofNat]
  omega

/-- A time as the statics keep it. -/
theorem timecount_toNat (n : ℕ) : ((BitVec.ofNat 31 n).setWidth 32 : Word).toNat=n%2^31 := by
  rw [BitVec.toNat_setWidth,BitVec.toNat_ofNat]
  omega

/-- The difference of an encoder's time is exact below one turn. -/
theorem diffF_toNat {p c : ℕ} (h : p≤c) (hturn : c < p+2^31) (hzero : p%2^31≠0) :
    (diffF ((BitVec.ofNat 31 p).setWidth 32) (BitVec.ofNat 31 c)).toNat=c-p := by
  have hp := timecount_toNat p
  have hc := timecount_toNat c
  have hturns : (bit 31).toNat=2^31 := BitVec.toNat_twoPow_of_lt (by decide)
  have hne : (BitVec.ofNat 31 p).setWidth 32≠(0 : Word) := fun heq => by
    rw [heq] at hp
    exact hzero hp.symm
  rw [diffF,if_neg hne]
  generalize (BitVec.ofNat 31 p).setWidth 32=previous at hp ⊢
  generalize (BitVec.ofNat 31 c).setWidth 32=timecount at hc ⊢
  split
  · rename_i hlt
    rw [BitVec.lt_def,hp,hc] at hlt
    have hrest : (bit 31-previous).toNat=2^31-p%2^31 := by
      rw [BitVec.toNat_sub_of_le (by rw [BitVec.le_def,hp,hturns]; omega),hp,hturns]
    rw [BitVec.toNat_add_of_lt (by rw [hrest,hc]; omega),hrest,hc]
    omega
  · rename_i hlt
    rw [BitVec.lt_def,hp,hc] at hlt
    rw [BitVec.toNat_sub_of_le (by rw [BitVec.le_def,hp,hc]; omega),hp,hc]
    omega

/-- A field is zeroed exactly if the clock advanced more than a second further
than the encoder's time. -/
theorem encodeField_toInt {diff previous : Word} {m : EncodeMsg} :
    (encodeField diff previous m).toInt=
      if (diffF previous m.timecount).toNat+1000 < diff.toNat then 0
      else m.reading.position.bmod (2^20) := by
  have hmore : diffF previous m.timecount < diff ∧ 1000 < diff-diffF previous m.timecount ↔
      (diffF previous m.timecount).toNat+1000 < diff.toNat := by
    constructor
    · rintro ⟨hlt,hmore⟩
      rw [BitVec.lt_def,BitVec.toNat_sub_of_le (BitVec.le_of_lt hlt)] at hmore
      rw [BitVec.lt_def] at hlt
      have hsecond : (1000 : Word).toNat=1000 := rfl
      omega
    · intro hmore
      have hlt : diffF previous m.timecount < diff := by
        rw [BitVec.lt_def]
        omega
      refine ⟨hlt,?_⟩
      rw [BitVec.lt_def,BitVec.toNat_sub_of_le (BitVec.le_of_lt hlt)]
      have hsecond : (1000 : Word).toNat=1000 := rfl
      omega
  rw [encodeField]
  simp only [hmore]
  split
  · rfl
  · exact toInt_postion m.reading

end Clocks

section Runs

/-- The statics keep what the previous call read. -/
structure Kept (s : Record) : Prop where
  /-- Without a previous call the local time is zero. -/
  first : s.previous=none → s.statics.localPreviousTime=0
  /-- The local time of the previous call. -/
  localTime : ∀ p∈s.previous,s.statics.localPreviousTime=BitVec.ofNat 64 p.localTime
  /-- The first encoder's time in it. -/
  timer1 : ∀ p∈s.previous,s.statics.fpgaPreviousTime1=(BitVec.ofNat 31 p.timer1).setWidth 32
  /-- The second encoder's time in it. -/
  timer2 : ∀ p∈s.previous,s.statics.fpgaPreviousTime2=(BitVec.ofNat 31 p.timer2).setWidth 32

/-- The statics at start keep nothing. -/
theorem kept_start : Kept start :=
  ⟨fun _ => rfl,fun _ h => absurd h (Option.not_mem_none _),
    fun _ h => absurd h (Option.not_mem_none _),fun _ h => absurd h (Option.not_mem_none _)⟩

/-- A call leaves what it read in the statics. -/
theorem Kept.next {s : Record} (c : Call) : Kept (next s c) := by
  have hstatics : (LaserEncoder.next s c).statics=⟨BitVec.ofNat 64 c.localTime,
      (BitVec.ofNat 31 c.timer1).setWidth 32,(BitVec.ofNat 31 c.timer2).setWidth 32⟩ := by
    simp only [LaserEncoder.next,Call.run,laserGetEncodeData,encodeDataGet_received,Call.msg1,
      Call.msg2]
  refine ⟨fun h => absurd h (Option.some_ne_none c),?_,?_,?_⟩
  all_goals
    intro p hp
    obtain rfl := Option.some.inj (Option.mem_def.mp hp)
    rw [hstatics]

/-- A field of a call is right if the statics keep the previous call and the
encoder's time advanced by less than a turn. -/
theorem fieldRight_encodeField {previous : Option Call} {lastLocal : BitVec 64} {last : Word}
    {timer : Call → ℕ} {r : Reading} {c : Call} (hfirst : previous=none → lastLocal=0)
    (hlocal : ∀ p∈previous,lastLocal=BitVec.ofNat 64 p.localTime)
    (htimer : ∀ p∈previous,last=(BitVec.ofNat 31 (timer p)).setWidth 32)
    (hadvance : ∀ p∈previous,p.localTime≤c.localTime ∧ timer p≤timer c ∧
      timer c < timer p+2^31) :
    FieldRight previous timer r c (encodeField (diffL lastLocal (BitVec.ofNat 64 c.localTime))
      last ⟨BitVec.ofNat 31 (timer c),r⟩) := by
  cases previous with
  | none =>
    have hdiff : diffL lastLocal (BitVec.ofNat 64 c.localTime)=0 := by
      rw [diffL,if_pos (hfirst rfl)]
    rw [FieldRight,encodeField_toInt,hdiff]
    exact if_neg (Nat.not_lt_zero _)
  | some p =>
    intro hlocalZero htimerZero
    obtain ⟨hclock,hle,hturn⟩ := hadvance p rfl
    rw [encodeField_toInt,hlocal p rfl,htimer p rfl,diffL_toNat hclock hlocalZero,
      diffF_toNat hle hturn htimerZero]

/-- A field is zeroed or holds the position. -/
theorem fieldCarries_encodeField (diff previous : Word) (m : EncodeMsg) :
    FieldCarries m.reading (encodeField diff previous m) := by
  rw [FieldCarries,encodeField_toInt]
  split
  · exact Or.inl rfl
  · exact Or.inr rfl

/-- The frame of a call carries the positions and the distance. -/
theorem frameCarries (s : Statics) (c : Call) : FrameCarries s c := by
  have hfields := ofBytes_canFrame s c
  simp only [Call.run,laserGetEncodeData,encodeDataGet_received] at hfields
  refine ⟨?_,?_,fun hmin hmax => ?_⟩
  · rw [hfields]
    exact fieldCarries_encodeField _ _ c.msg1
  · rw [hfields]
    exact fieldCarries_encodeField _ _ c.msg2
  · rw [hfields,BitVec.toNat_ofInt,Int.emod_eq_of_lt hmin (by push_cast; exact hmax)]

/-- Where the clocks advance, the fields of a call are right after the calls that
the statics keep. -/
theorem Kept.frameRight {s : Record} {c : Call} (hs : Kept s) (hadvance : TimersAdvance s c) :
    FrameRight s c := by
  have hfields := ofBytes_canFrame s.statics c
  simp only [Call.run,laserGetEncodeData,encodeDataGet_received] at hfields
  constructor
  · rw [hfields]
    exact fieldRight_encodeField hs.first hs.localTime hs.timer1
      fun p hp => ⟨(hadvance p hp).1,(hadvance p hp).2.1⟩
  · rw [hfields]
    exact fieldRight_encodeField hs.first hs.localTime hs.timer2
      fun p hp => ⟨(hadvance p hp).1,(hadvance p hp).2.2⟩

/-- The frame of every call, whatever the statics hold, carries the positions, in
signed twenty bits and each of them unless it is zeroed, and the distance. In
every run of calls whose clock does not go back and whose FPGA times advance by
less than a turn, a field is zeroed exactly as the two clocks say. The twenty bits
are the position itself exactly from four turns below zero on and below four
turns. -/
theorem frames_carry_positions :
    (∀ s c,FrameCarries s c) ∧
      (∀ calls,AlongRun next TimersAdvance start calls → AlongRun next FrameRight start calls) ∧
        ∀ r : Reading,r.position.bmod (2^20)=r.position ↔
          -4 ≤ r.mutliNum.toInt ∧ r.mutliNum.toInt ≤ 3 :=
  ⟨frameCarries,fun _ h => alongRun_of_invariant (I := Kept)
    (fun _ c hs hadvance => ⟨Kept.next c,hs.frameRight hadvance⟩) kept_start h,position_fits_iff⟩

/-- Two calls two seconds apart, the second one with an encoder whose time
stood still: its field is zeroed, the other one is not. -/
theorem frames_carry_positions_two :
    AlongRun next FrameRight start
        [⟨5,7,7,⟨3,1⟩,⟨4,2⟩,100⟩,⟨2005,7,2007,⟨3,1⟩,⟨4,2⟩,101⟩] ∧
      FrameCarries (next start ⟨5,7,7,⟨3,1⟩,⟨4,2⟩,100⟩).statics
        ⟨2005,7,2007,⟨3,1⟩,⟨4,2⟩,101⟩ :=
  ⟨frames_carry_positions.2.1 _ (by decide),frames_carry_positions.1 _ _⟩

/-- Four turns are sent as minus four turns. -/
theorem four_turns_wrap :
    ¬∀ c : Call,(LaserEncodeData.ofBytes (canFrame start.statics c).data).encode1.toInt=
      c.reading1.position := by
  intro h
  have hfour := h ⟨5,7,7,⟨0,4⟩,⟨0,0⟩,100⟩
  revert hfour
  decide +kernel

end Runs

end ZephyrApp.LaserEncoder

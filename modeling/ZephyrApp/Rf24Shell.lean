import ZephyrApp.Nrf24Chip
import ZephyrApp.Rf24Config

/-!
# The handler's shell command for the radio address

The command writes the bytes of its arguments into the parameter one by one and
then programs the radio, whose answer it does not look at. Programming stops at
the first access that fails, so that the address registers may keep what they
held.
-/

namespace ZephyrApp.Rf24Shell

open MachineBytes Nrf24Crypt Nrf24Chip
open Rf24Config (strtol16 writeAddrBytes)

section Source

/-- The parameter and the radio of the handler. -/
structure Endpoint where
  /-- `global_params.rf24_addr`. -/
  rf24Addr : Rf24Addr
  /-- The radio. -/
  radio : Radio

/-- Which accesses of the driver succeed, counted from the start of
`nrf24_configure`, and whether those of `nrf24_start_rx` do. -/
structure Spi where
  /-- The accesses of `nrf24_configure`. -/
  accepts : ℕ → Bool
  /-- The accesses of `nrf24_start_rx`. -/
  starts : Bool

/-- Accesses whose failure ends the procedure, from the number of the first. -/
def runChecked (accepts : ℕ → Bool) : ℕ → Radio → List DriverOp → Radio
  | _,r,[] => r
  | n,r,op::ops => if accepts n then runChecked accepts (n+1) (r.access op) ops else r

/-- Accesses whose failure is not looked at. -/
def runUnchecked (accepts : ℕ → Bool) : ℕ → Radio → List DriverOp → Radio
  | _,r,[] => r
  | n,r,op::ops => runUnchecked accepts (n+1) (if accepts n then r.access op else r) ops

/-- The number of accesses at the end of `apply_config_with` that are not checked. -/
def cleanupOps : ℕ := 3

/-- `apply_config_with` with the outcomes of its accesses. -/
def applyConfig (accepts : ℕ → Bool) (r : Radio) (cfg : Nrf24Config) (prim : Bool) : Radio :=
  let ops := applyConfigWith cfg prim
  let checked := ops.take (ops.length-cleanupOps)
  let r := runChecked accepts 0 r checked
  if ∀ n < checked.length,accepts n=true then
    runUnchecked accepts checked.length r (ops.drop (ops.length-cleanupOps))
  else r

/-- The settings of `rf24_apply_config`; those it leaves out are zero. -/
def applySettings (addr : Rf24Addr) : Nrf24Cfg :=
  ⟨1,.rate250K,.pwr18Dbm,.oneByte,5,some (List.ofFn addr)⟩

/-- `rf24_apply_config`. -/
def rf24ApplyConfig (dcfg : Nrf24Config) (spi : Spi) (h : Endpoint) : Endpoint :=
  let cfg := mergeCfg dcfg (some (applySettings h.rf24Addr))
  let radio := applyConfig spi.accepts h.radio cfg (decide (h.radio.mode=.prx))
  {h with radio := if spi.starts then radio.run (setModeLocked .prx) else radio}

/-- `-EINVAL`. -/
def einval : ℤ := -22

/-- `-EIO`. -/
def eio : ℤ := -5

/-- A refused argument is no success. -/
theorem einval_ne_zero : einval≠0 := by decide

/-- A device that is not ready is no success. -/
theorem eio_ne_zero : eio≠0 := by decide

/-- `cmd_rf24_addr` with the arguments after its name: what is left and the
returned value. -/
def cmdRf24Addr (dcfg : Nrf24Config) (ready : Bool) (spi : Spi) (h : Endpoint)
    (args : List (List Char)) : Endpoint×ℤ :=
  if args.length < 5 then (h,einval)
  else if ready=false then (h,eio)
  else
    match writeAddrBytes h.rf24Addr 0 args with
    | (addr,false) => ({h with rf24Addr := addr},einval)
    | (addr,true) => (rf24ApplyConfig dcfg spi {h with rf24Addr := addr},0)

end Source

section Arguments

variable (args : List (List Char))

/-- The value of an argument. -/
def argValue (i : ℕ) : ℤ := strtol16 (args.getD i [])

/-- An argument is a byte. -/
def IsByte (i : ℕ) : Prop := 0 ≤ argValue args i ∧ argValue args i ≤ 0xFF

instance (i : ℕ) : Decidable (IsByte args i) :=
  inferInstanceAs (Decidable (0 ≤ argValue args i ∧ argValue args i ≤ 0xFF))

/-- The address of the first five arguments. -/
def given : Rf24Addr := fun i => BitVec.ofInt 8 (argValue args i)

/-- An address with its first bytes from the arguments. -/
def overwritten (addr : Rf24Addr) (n : ℕ) : Rf24Addr :=
  fun i => if i.val < n then given args i else addr i

variable {args}

/-- As long as the arguments are bytes they are written one after the other. -/
theorem writeAddrBytes_first (addr : Rf24Addr) {n : ℕ} (hn : n≤5) (hlen : 5≤args.length)
    (hbytes : ∀ i < n,IsByte args i) :
    writeAddrBytes addr 0 args=writeAddrBytes (overwritten args addr n) n (args.drop n) := by
  induction n with
  | zero =>
    have hnone : overwritten args addr 0=addr := funext fun i => if_neg (Nat.not_lt_zero _)
    rw [hnone,List.drop_zero]
  | succ n ih =>
    obtain ⟨hlow,hhigh⟩ := hbytes n (Nat.lt_succ_self n)
    have hdrop : args.drop n=args.getD n []::args.drop (n+1) := by
      rw [List.drop_eq_getElem_cons (by omega),List.getD_eq_getElem _ _ (by omega)]
    have hupdate : Function.update (overwritten args addr n) (Fin.ofNat 5 n)
        (BitVec.ofInt 8 (argValue args n))=overwritten args addr (n+1) := by
      have hval : (Fin.ofNat 5 n).val=n := Nat.mod_eq_of_lt hn
      funext i
      by_cases hi : i=Fin.ofNat 5 n
      · subst hi
        rw [Function.update_self,overwritten,hval,if_pos (Nat.lt_succ_self n),given,hval]
      · have hne : i.val≠n := fun h => hi (Fin.ext (h.trans hval.symm))
        rw [Function.update_of_ne hi,overwritten,overwritten]
        exact if_congr (by omega) rfl rfl
    rw [ih (by omega) fun i hi => hbytes i (by omega),hdrop,writeAddrBytes,if_pos (by omega)]
    dsimp only
    rw [if_neg (by rw [argValue] at hlow hhigh; omega)]
    exact congrArg (writeAddrBytes · (n+1) (args.drop (n+1))) hupdate

/-- Five bytes are written in full. -/
theorem writeAddrBytes_bytes (addr : Rf24Addr) (hlen : 5≤args.length)
    (hbytes : ∀ i < 5,IsByte args i) : writeAddrBytes addr 0 args=(given args,true) := by
  have hall : overwritten args addr 5=given args := funext fun i => if_pos i.isLt
  rw [writeAddrBytes_first addr le_rfl hlen hbytes,hall]
  cases args.drop 5 with
  | nil => rfl
  | cons arg rest => rfl

/-- The first argument that is no byte ends the writing. -/
theorem writeAddrBytes_bad (addr : Rf24Addr) {k : ℕ} (hk : k < 5) (hlen : 5≤args.length)
    (hbytes : ∀ i < k,IsByte args i) (hbad : ¬IsByte args k) :
    writeAddrBytes addr 0 args=(overwritten args addr k,false) := by
  have hdrop : args.drop k=args.getD k []::args.drop (k+1) := by
    rw [List.drop_eq_getElem_cons (by omega),List.getD_eq_getElem _ _ (by omega)]
  rw [writeAddrBytes_first addr hk.le hlen hbytes,hdrop,writeAddrBytes,if_pos hk]
  dsimp only
  rw [if_pos]
  rw [IsByte,argValue] at hbad
  omega

end Arguments

section Accesses

variable {accepts : ℕ → Bool} {reg : Byte} {r : Radio}

/-- An access that does not write this address register. -/
def Keeps (reg : Byte) (op : DriverOp) : Prop := ∀ bytes,op≠.writeMulti reg bytes

/-- An access to the chip keeps the address registers that it does not write. -/
theorem chip_access_keeps (c : Chip) {op : DriverOp} (h : Keeps reg op) :
    (c.access op).addr reg=c.addr reg := by
  cases op with
  | writeMulti other bytes =>
    have hne : reg≠other := fun heq => h bytes (by rw [heq])
    exact Function.update_of_ne hne bytes c.addr
  | writeReg other value =>
    rw [Chip.access,Chip.writeReg]
    split <;> rfl
  | writeTxPayload payload =>
    rw [Chip.access]
    split <;> rfl
  | setCe _ | setMode _ | flushTx | flushRx | modeConfig _ => rfl

/-- An access keeps the supply, and the address registers that it does not write. -/
theorem access_keeps (r : Radio) {op : DriverOp} (h : Keeps reg op) :
    (r.access op).chip.addr reg=r.chip.addr reg ∧ (r.access op).supplied=r.supplied := by
  obtain ⟨hchip,hsupplied⟩ := access_chip r op
  refine ⟨?_,hsupplied⟩
  rw [hchip]
  split
  · exact chip_access_keeps r.chip h
  · rfl

/-- Checked accesses keep the supply, and the address registers that none of them
writes. -/
theorem runChecked_keeps (n : ℕ) {ops : List DriverOp} (h : ∀ op∈ops,Keeps reg op) :
    (runChecked accepts n r ops).chip.addr reg=r.chip.addr reg ∧
      (runChecked accepts n r ops).supplied=r.supplied := by
  induction ops generalizing n r with
  | nil => exact ⟨rfl,rfl⟩
  | cons op ops ih =>
    rw [runChecked]
    split
    · obtain ⟨haddr,hsupplied⟩ := access_keeps r (h op List.mem_cons_self)
      obtain ⟨haddr',hsupplied'⟩ := ih (r := r.access op) (n+1) fun op' hop =>
        h op' (List.mem_cons_of_mem _ hop)
      exact ⟨haddr'.trans haddr,hsupplied'.trans hsupplied⟩
    · exact ⟨rfl,rfl⟩

/-- A checked write of an address register takes place if the radio is supplied and
all accesses up to it succeed. -/
theorem runChecked_writes (n : ℕ) {pre post : List DriverOp} (bytes : List Byte)
    (hpre : ∀ op∈pre,Keeps reg op) (hpost : ∀ op∈post,Keeps reg op) :
    (runChecked accepts n r (pre++.writeMulti reg bytes::post)).chip.addr reg=
      if r.supplied=true ∧ ∀ k≤pre.length,accepts (n+k)=true then bytes
      else r.chip.addr reg := by
  induction pre generalizing n r with
  | nil =>
    have hall : (∀ k≤([] : List DriverOp).length,accepts (n+k)=true)↔accepts n=true :=
      ⟨fun h => h 0 le_rfl,fun h k hk => by
        obtain rfl : k=0 := Nat.le_zero.mp hk
        exact h⟩
    rw [List.nil_append,runChecked]
    by_cases hok : accepts n=true
    · rw [if_pos hok,(runChecked_keeps (n+1) hpost).1,(access_chip r _).1]
      by_cases hsup : r.supplied=true
      · rw [if_pos hsup,if_pos ⟨hsup,hall.mpr hok⟩]
        exact Function.update_self reg bytes r.chip.addr
      · rw [if_neg hsup,if_neg fun h => hsup h.1]
    · rw [if_neg hok,if_neg fun h => hok (hall.mp h.2)]
  | cons op pre ih =>
    have hop : Keeps reg op := hpre op List.mem_cons_self
    have hrest : ∀ op'∈pre,Keeps reg op' := fun op' h => hpre op' (List.mem_cons_of_mem _ h)
    rw [List.cons_append,runChecked]
    by_cases hok : accepts n=true
    · rw [if_pos hok,ih (r := r.access op) (n+1) hrest,(access_keeps r hop).1,
        (access_keeps r hop).2]
      refine if_congr (and_congr_right fun _ => ⟨fun h k hk => ?_,fun h k hk => ?_⟩) rfl rfl
      · cases k with
        | zero => exact hok
        | succ k =>
          have hstep := h k (Nat.le_of_succ_le_succ hk)
          rwa [show n+1+k=n+(k+1) by omega] at hstep
      · have hstep := h (k+1) (Nat.succ_le_succ hk)
        rwa [show n+(k+1)=n+1+k by omega] at hstep
    · rw [if_neg hok,if_neg fun h => hok (h.2 0 (Nat.zero_le _))]

/-- Accesses that are not checked keep the address registers that none of them
writes. -/
theorem runUnchecked_keeps (n : ℕ) {ops : List DriverOp} (h : ∀ op∈ops,Keeps reg op) :
    (runUnchecked accepts n r ops).chip.addr reg=r.chip.addr reg := by
  induction ops generalizing n r with
  | nil => rfl
  | cons op ops ih =>
    rw [runUnchecked,ih (n+1) fun op' hop => h op' (List.mem_cons_of_mem _ hop)]
    split
    · exact (access_keeps r (h op List.mem_cons_self)).1
    · rfl

/-- Changing the mode keeps the address registers. -/
theorem setModeLocked_keeps (r : Radio) (mode : Nrf24Mode) :
    (r.run (setModeLocked mode)).chip.addr reg=r.chip.addr reg := by
  have hmode : Keeps reg (.modeConfig mode) := fun _ h => nomatch h
  exact (access_keeps r hmode).1

end Accesses

section Programming

variable (dcfg : Nrf24Config) (addr : Rf24Addr)

/-- The number of accesses before the one that writes `TX_ADDR`; `RX_ADDR_P0` is
next. -/
def addrOps : ℕ := if parsePayloadMode dcfg.payloadMode=.dynamic then 10 else 11

/-- The shell's settings program the five bytes of the parameter. -/
theorem programmed_bytes :
    (mergeCfg dcfg (some (applySettings addr))).txAddr.take
      (effectiveWidth (mergeCfg dcfg (some (applySettings addr))))=List.ofFn addr := by
  have hwidth : (mergeCfg dcfg (some (applySettings addr))).addressWidth=5 := rfl
  have hlen : ((List.ofFn addr).take 5).length=5 := by simp
  rw [effectiveWidth,hwidth,if_pos (by omega)]
  have happend : (mergeCfg dcfg (some (applySettings addr))).txAddr=
      (List.ofFn addr).take 5++dcfg.txAddr.drop 5 := rfl
  rw [happend,List.take_left' hlen]
  exact List.take_of_length_le (List.length_ofFn (f := addr)).le

/-- The accesses before the address registers write single-byte registers, and
flushes and the clearing of the flags follow. -/
theorem accesses_split (prim : Bool) :
    ∃ head : List DriverOp,head.length=addrOps dcfg ∧ (∀ op∈head,∀ reg,Keeps reg op) ∧
      applyConfigWith (mergeCfg dcfg (some (applySettings addr))) prim=
        head++([.writeMulti regTxAddr (List.ofFn addr),
          .writeMulti regRxAddrP0 (List.ofFn addr)]++
          [.flushTx,.flushRx,.writeReg regStatus irqAll]) := by
  have hmode : (mergeCfg dcfg (some (applySettings addr))).payloadMode=dcfg.payloadMode := rfl
  rw [applyConfigWith,programmed_bytes,hmode,addrOps]
  split
  · refine ⟨_,rfl,?_,rfl⟩
    simp [Keeps]
  · refine ⟨_,rfl,?_,rfl⟩
    simp [Keeps]

variable (accepts : ℕ → Bool) (r : Radio) (prim : Bool)

/-- The accesses at the end leave the address registers to the checked ones. -/
theorem applyConfig_checked {cfg : Nrf24Config} {checked cleanup : List DriverOp} {reg : Byte}
    (hsplit : applyConfigWith cfg prim=checked++cleanup) (hlen : cleanup.length=cleanupOps)
    (hkeeps : ∀ op∈cleanup,Keeps reg op) :
    (applyConfig accepts r cfg prim).chip.addr reg=
      (runChecked accepts 0 r checked).chip.addr reg := by
  have hcut : checked.length=(checked++cleanup).length-cleanupOps := by
    rw [List.length_append]
    omega
  rw [applyConfig,hsplit,List.take_left' hcut,List.drop_left' hcut]
  split
  · exact runUnchecked_keeps _ hkeeps
  · rfl

/-- The address registers get the bytes of the parameter as far as the accesses
succeed. -/
theorem applyConfig_addr :
    (applyConfig accepts r (mergeCfg dcfg (some (applySettings addr))) prim).chip.addr regTxAddr=
        (if r.supplied=true ∧ ∀ k≤addrOps dcfg,accepts k=true then List.ofFn addr
          else r.chip.addr regTxAddr) ∧
      (applyConfig accepts r (mergeCfg dcfg (some (applySettings addr))) prim).chip.addr
          regRxAddrP0=
        (if r.supplied=true ∧ ∀ k≤addrOps dcfg+1,accepts k=true then List.ofFn addr
          else r.chip.addr regRxAddrP0) := by
  obtain ⟨head,hlen,hhead,hsplit⟩ := accesses_split dcfg addr prim
  rw [← List.append_assoc] at hsplit
  have hcleanup : ∀ reg,∀ op∈[DriverOp.flushTx,.flushRx,.writeReg regStatus irqAll],
      Keeps reg op := by
    intro reg
    simp [Keeps]
  constructor
  · have hrest : ∀ op∈[DriverOp.writeMulti regRxAddrP0 (List.ofFn addr)],Keeps regTxAddr op := by
      simp [Keeps,regRxAddrP0,regTxAddr]
    rw [applyConfig_checked accepts r prim hsplit rfl (hcleanup regTxAddr),
      runChecked_writes 0 _ (fun op hop => hhead op hop regTxAddr) hrest,hlen]
    simp only [Nat.zero_add]
  · have hbefore : ∀ op∈head++[DriverOp.writeMulti regTxAddr (List.ofFn addr)],
        Keeps regRxAddrP0 op := by
      intro op hop
      rcases List.mem_append.mp hop with hop | hop
      · exact hhead op hop regRxAddrP0
      · rw [List.mem_singleton] at hop
        subst hop
        intro bytes heq
        simp [regRxAddrP0,regTxAddr] at heq
    have hassoc : head++[DriverOp.writeMulti regTxAddr (List.ofFn addr),
        .writeMulti regRxAddrP0 (List.ofFn addr)]=
        (head++[.writeMulti regTxAddr (List.ofFn addr)])++
          .writeMulti regRxAddrP0 (List.ofFn addr)::[] := by simp
    rw [applyConfig_checked accepts r prim hsplit rfl (hcleanup regRxAddrP0),hassoc,
      runChecked_writes 0 _ hbefore fun _ h => absurd h List.not_mem_nil,List.length_append,
      hlen]
    simp only [Nat.zero_add,List.length_singleton]

end Programming

section Outcome

variable (dcfg : Nrf24Config) (ready : Bool) (spi : Spi) (h : Endpoint)
  (args : List (List Char))

/-- Both address registers hold an address. -/
def HoldsAddr (r : Radio) (addr : Rf24Addr) : Prop :=
  r.chip.addr regTxAddr=List.ofFn addr ∧ r.chip.addr regRxAddrP0=List.ofFn addr

/-- Either the command returns zero and parameter and radio hold the five bytes of
the arguments, or it returns an error and neither has changed. -/
def Atomic (out : Endpoint×ℤ) : Prop :=
  (out.2=0 ∧ (∀ i < 5,IsByte args i) ∧ out.1.rf24Addr=given args ∧
    HoldsAddr out.1.radio (given args)) ∨ (out.2≠0 ∧ out.1=h)

/-- An argument is no byte, and those before it are the bytes that the parameter
has already. -/
def HarmlessPrefix : Prop :=
  ∃ k < 5,¬IsByte args k ∧ ∀ i : Fin 5,i.val < k → IsByte args i ∧ given args i=h.rf24Addr i

/-- An address register gets the bytes of the arguments, since the radio is supplied
and all accesses up to the one with this number succeed, or has them already. -/
def Lands (reg : Byte) (n : ℕ) : Prop :=
  (h.radio.supplied=true ∧ ∀ k≤n,spi.accepts k=true) ∨
    h.radio.chip.addr reg=List.ofFn (given args)

/-- The command writes the parameter as the model of the key's life says. -/
theorem cmdRf24Addr_parameter (ok : Bool) (s : Rf24Config.HandlerState)
    (hs : s.addr=h.rf24Addr) :
    (cmdRf24Addr dcfg ready spi h args).1.rf24Addr=
      (Rf24Config.handlerCmdAddr ready ok s args).addr := by
  rw [cmdRf24Addr,Rf24Config.handlerCmdAddr,hs]
  by_cases hlen : args.length < 5
  · rw [if_pos hlen,if_pos (Or.inl hlen),hs]
  · by_cases hready : ready=false
    · rw [if_neg hlen,if_pos hready,if_pos (Or.inr hready),hs]
    · rw [if_neg hlen,if_neg hready,if_neg (not_or.mpr ⟨hlen,hready⟩)]
      obtain ⟨addr,done⟩ := writeAddrBytes h.rf24Addr 0 args
      cases done <;> rfl

variable {h args}

/-- The radio holds the bytes exactly if both registers get them. -/
theorem rf24ApplyConfig_holds :
    HoldsAddr (rf24ApplyConfig dcfg spi {h with rf24Addr := given args}).radio (given args) ↔
      Lands spi h args regTxAddr (addrOps dcfg) ∧
        Lands spi h args regRxAddrP0 (addrOps dcfg+1) := by
  have hstart : ∀ reg,
      (rf24ApplyConfig dcfg spi {h with rf24Addr := given args}).radio.chip.addr reg=
        (applyConfig spi.accepts h.radio (mergeCfg dcfg (some (applySettings (given args))))
          (decide (h.radio.mode=.prx))).chip.addr reg := by
    intro reg
    rw [rf24ApplyConfig]
    split
    · exact setModeLocked_keeps _ .prx
    · rfl
  obtain ⟨htx,hrx⟩ := applyConfig_addr dcfg (given args) spi.accepts h.radio
    (decide (h.radio.mode=.prx))
  rw [HoldsAddr,hstart,hstart,htx,hrx,Lands,Lands]
  exact and_congr (ite_eq_left_iff.trans or_iff_not_imp_left.symm)
    (ite_eq_left_iff.trans or_iff_not_imp_left.symm)

/-- Where all five arguments are bytes the command is atomic exactly if both address
registers get them. -/
theorem atomic_bytes (hlen : 5≤args.length) (hready : ready=true)
    (hbytes : ∀ i < 5,IsByte args i) :
    Atomic h args (cmdRf24Addr dcfg ready spi h args) ↔
      Lands spi h args regTxAddr (addrOps dcfg) ∧
        Lands spi h args regRxAddrP0 (addrOps dcfg+1) := by
  rw [cmdRf24Addr,if_neg (by omega),if_neg (by simp [hready]),
    writeAddrBytes_bytes h.rf24Addr hlen hbytes]
  have hparam : (rf24ApplyConfig dcfg spi {h with rf24Addr := given args}).rf24Addr=
      given args := rfl
  constructor
  · rintro (⟨-,-,-,hholds⟩ | ⟨hne,-⟩)
    · exact (rf24ApplyConfig_holds dcfg spi).mp hholds
    · exact absurd rfl hne
  · intro hlands
    exact Or.inl ⟨rfl,hbytes,hparam,(rf24ApplyConfig_holds dcfg spi).mpr hlands⟩

/-- At the first argument that is no byte the command is atomic exactly if the bytes
before it change nothing. -/
theorem atomic_bad (hlen : 5≤args.length) (hready : ready=true) {k : ℕ} (hk : k < 5)
    (hbytes : ∀ i < k,IsByte args i) (hbad : ¬IsByte args k) :
    Atomic h args (cmdRf24Addr dcfg ready spi h args) ↔
      ∀ i : Fin 5,i.val < k → given args i=h.rf24Addr i := by
  rw [cmdRf24Addr,if_neg (by omega),if_neg (by simp [hready]),
    writeAddrBytes_bad h.rf24Addr hk hlen hbytes hbad]
  constructor
  · rintro (⟨hzero,-⟩ | ⟨-,hsame⟩) i hi
    · exact absurd hzero einval_ne_zero
    · have hbyte := congrFun (congrArg Endpoint.rf24Addr hsame) i
      exact (if_pos hi).symm.trans hbyte
  · intro hsame
    have haddr : overwritten args h.rf24Addr k=h.rf24Addr := by
      funext i
      rw [overwritten]
      split
      case isTrue hi => exact hsame i hi
      case isFalse => rfl
    refine Or.inr ⟨einval_ne_zero,?_⟩
    dsimp only
    rw [haddr]

variable (h args)

/-- The command is atomic exactly for too few arguments, on a device that is not
ready, for an argument that is no byte after bytes the parameter has already, and
for five bytes that both address registers get. -/
theorem cmdRf24Addr_atomic_iff :
    Atomic h args (cmdRf24Addr dcfg ready spi h args) ↔
      args.length < 5 ∨ ready=false ∨ HarmlessPrefix h args ∨
        ((∀ i < 5,IsByte args i) ∧ Lands spi h args regTxAddr (addrOps dcfg) ∧
          Lands spi h args regRxAddrP0 (addrOps dcfg+1)) := by
  by_cases hlen : args.length < 5
  · have hout : cmdRf24Addr dcfg ready spi h args=(h,einval) := if_pos hlen
    rw [hout]
    exact ⟨fun _ => Or.inl hlen,fun _ => Or.inr ⟨einval_ne_zero,rfl⟩⟩
  · cases hready : ready with
    | false =>
      have hout : cmdRf24Addr dcfg false spi h args=(h,eio) := by
        rw [cmdRf24Addr,if_neg hlen,if_pos rfl]
      rw [hout]
      exact ⟨fun _ => Or.inr (Or.inl rfl),fun _ => Or.inr ⟨eio_ne_zero,rfl⟩⟩
    | true =>
      by_cases hbytes : ∀ i < 5,IsByte args i
      · have hharmless : ¬HarmlessPrefix h args := fun ⟨k,hk,hbad,_⟩ => hbad (hbytes k hk)
        rw [atomic_bytes dcfg true spi (by omega) rfl hbytes]
        simp only [hlen,hharmless,and_iff_right hbytes,false_or,reduceCtorEq]
      · have hex : ∃ k,k < 5 ∧ ¬IsByte args k := by
          push Not at hbytes
          exact hbytes
        obtain ⟨hk,hbad⟩ := Nat.find_spec hex
        have hbefore : ∀ i < Nat.find hex,IsByte args i := by
          intro i hi
          have hmin := Nat.find_min hex hi
          by_contra hnot
          exact hmin ⟨by omega,hnot⟩
        have hharmless : HarmlessPrefix h args ↔
            ∀ i : Fin 5,i.val < Nat.find hex → given args i=h.rf24Addr i := by
          constructor
          · rintro ⟨k,hk',hbad',hsame⟩ i hi
            refine (hsame i ?_).2
            have hle : Nat.find hex≤k := Nat.find_min' hex ⟨hk',hbad'⟩
            omega
          · intro hsame
            exact ⟨_,hk,hbad,fun i hi => ⟨hbefore i hi,hsame i hi⟩⟩
        rw [atomic_bad dcfg true spi (by omega) rfl hk hbefore hbad,hharmless]
        simp only [hlen,hbytes,false_or,or_false,reduceCtorEq,false_and]

/-- The radio's settings in the devicetree. -/
def deviceConfig : Nrf24Config :=
  ⟨true,1,"1m","0dbm",5,"dynamic",32,"2-byte",0x50,9,List.replicate 5 0xE7⟩

/-- A radio after its reset, and the parameter its address registers hold. -/
def freshEndpoint : Endpoint := ⟨fun _ => 0xE7,⟨.reset,true,true,.prx,true⟩⟩

/-- The second of five arguments is no byte: the command reports an error with the
first one already in the parameter, which the radio then does not agree with. -/
theorem bad_second_byte_half_written :
    ¬Atomic freshEndpoint ["12".toList,"1ff".toList,"34".toList,"56".toList,"78".toList]
        (cmdRf24Addr deviceConfig true ⟨fun _ => true,true⟩ freshEndpoint
          ["12".toList,"1ff".toList,"34".toList,"56".toList,"78".toList]) ∧
      ¬HoldsAddr (cmdRf24Addr deviceConfig true ⟨fun _ => true,true⟩ freshEndpoint
          ["12".toList,"1ff".toList,"34".toList,"56".toList,"78".toList]).1.radio
        (cmdRf24Addr deviceConfig true ⟨fun _ => true,true⟩ freshEndpoint
          ["12".toList,"1ff".toList,"34".toList,"56".toList,"78".toList]).1.rf24Addr := by
  have hfirst : (cmdRf24Addr deviceConfig true ⟨fun _ => true,true⟩ freshEndpoint
      ["12".toList,"1ff".toList,"34".toList,"56".toList,"78".toList]).1.rf24Addr 0=0x12#8 := by
    decide
  constructor
  · rintro (⟨hzero,-⟩ | ⟨-,hsame⟩)
    · exact absurd hzero (by decide)
    · rw [hsame] at hfirst
      exact absurd hfirst (by decide)
  · rintro ⟨htx,-⟩
    exact absurd htx (by decide)

end Outcome

end ZephyrApp.Rf24Shell

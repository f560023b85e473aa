import ZephyrApp.EventRuns
import ZephyrApp.DaqRegisters

/-!
# Digital outputs, their register and their coils

Three threads change the digital outputs: the Modbus server writes the DO
register, the heartbeat thread and the network event handler clear it. Each
stores the register and then sets the pins from a value of its own. The
threads are first interleaved at these two steps, then run to completion
one after another together with the coil writes.
-/

namespace ZephyrApp.DigitalOutputs

open EventRuns DaqRegisters

/-- Number of `do-gpios` and of `doled-gpios` of the board. -/
abbrev doNumber : ℕ := 8

/-- Levels of the output pins and of their indicators. -/
structure Outputs where
  /-- `do_gpios`. -/
  doGpios : Fin doNumber → Bool
  /-- `doled_gpios`. -/
  doledGpios : Fin doNumber → Bool
deriving DecidableEq

/-- One round of the loop of `mb_set_do`: pin and indicator take the bit. -/
def setPin (reg : BitVec 16) (out : Outputs) (i : Fin doNumber) : Outputs :=
  let status := reg.getLsbD i
  ⟨Function.update out.doGpios i status,Function.update out.doledGpios i status⟩

/-- `mb_set_do`. -/
def mbSetDo (reg : BitVec 16) (out : Outputs) : Outputs :=
  (List.finRange doNumber).foldl (setPin reg) out

/-- A loop over pins gives the visited ones their bits and leaves the others. -/
theorem foldl_setPin (reg : BitVec 16) (out : Outputs) (is : List (Fin doNumber))
    (i : Fin doNumber) :
    (is.foldl (setPin reg) out).doGpios i=if i∈is then reg.getLsbD i else out.doGpios i := by
  induction is generalizing out with
  | nil => simp only [List.foldl_nil,List.not_mem_nil,if_false]
  | cons j is ih =>
    rw [List.foldl_cons,ih]
    by_cases hj : i=j
    · subst hj
      simp only [setPin,Function.update_self,List.mem_cons,true_or,if_true,ite_self]
    · simp only [setPin,Function.update_of_ne hj,List.mem_cons,hj,false_or]

/-- After `mb_set_do` every pin has its bit of the argument. -/
@[simp] theorem mbSetDo_doGpios (reg : BitVec 16) (out : Outputs) (i : Fin doNumber) :
    (mbSetDo reg out).doGpios i=reg.getLsbD i := by
  rw [mbSetDo,foldl_setPin,if_pos (List.mem_finRange i)]

/-- `dio_init`: all pins low. -/
def dioInit : Outputs := ⟨fun _ => false,fun _ => false⟩

/-- The pins show the low bits of a register value. -/
def Shows (out : Outputs) (reg : BitVec 16) : Prop := ∀ i : Fin doNumber,out.doGpios i=reg.getLsbD i

instance (out : Outputs) (reg : BitVec 16) : Decidable (Shows out reg) :=
  inferInstanceAs (Decidable (∀ i : Fin doNumber,out.doGpios i=reg.getLsbD i))

/-- Two register values that the pins cannot tell apart. -/
def SameLow (a b : BitVec 16) : Prop := ∀ i : Fin doNumber,a.getLsbD i=b.getLsbD i

instance (a b : BitVec 16) : Decidable (SameLow a b) :=
  inferInstanceAs (Decidable (∀ i : Fin doNumber,a.getLsbD i=b.getLsbD i))

/-- Pins that were just set show a register exactly if its low bits are those
of the argument. -/
theorem shows_mbSetDo (a b : BitVec 16) (out : Outputs) :
    Shows (mbSetDo a out) b ↔ SameLow a b := by
  simp only [Shows,SameLow,mbSetDo_doGpios]

/-- The low byte that `holding_reg_wr` passes on has the low bits of the register. -/
theorem sameLow_lowByte (reg : BitVec 16) : SameLow (reg&&&0xff) reg := by
  intro i
  have hmask : BitVec.getLsbD (0xff : BitVec 16) i=true := by revert i; decide
  rw [BitVec.getLsbD_and,hmask,Bool.and_true]

/-- The threads that change the outputs. -/
inductive Thread
  /-- The work queue of the Modbus server. -/
  | modbus
  /-- `heart_poll`. -/
  | heart
  /-- The thread that runs `net_event_handler`. -/
  | net
deriving DecidableEq

/-- Registers, pins and the threads between their two steps. -/
structure State where
  /-- `holding_reg`. -/
  regs : HoldingRegs
  /-- The pins. -/
  out : Outputs
  /-- `link_down`. -/
  linkDown : Bool
  /-- The argument with which a thread that stored the register has yet to
  call `mb_set_do`. -/
  pending : Thread → Option (BitVec 16)

/-- What can happen next. -/
inductive Event
  /-- `holding_reg_wr` stores a value in the DO register. -/
  | storeDo (reg : BitVec 16)
  /-- `holding_reg_wr` stores the heartbeat enable register. -/
  | storeHeartEn (reg : BitVec 16)
  /-- The semaphore of `heart_poll` times out. -/
  | heartExpiry
  /-- `NET_EVENT_IF_DOWN`. -/
  | ifDown
  /-- `NET_EVENT_IF_UP`. -/
  | ifUp
  /-- A thread performs its `mb_set_do`. -/
  | setDo (thread : Thread)

/-- `heart_poll` clears the heartbeat and the DO register if it is enabled. -/
def heartStore (regs : HoldingRegs) : Option HoldingRegs :=
  if regs holdingHeartEnIdx≠0 then
    some (Function.update (Function.update regs holdingHeartIdx 0) holdingDoIdx 0)
  else none

/-- A thread has stored the register and goes on to `mb_set_do`. -/
def stored (s : State) (thread : Thread) (regs : HoldingRegs) (reg : BitVec 16) : State :=
  {s with regs:=regs,pending:=Function.update s.pending thread (some reg)}

/-- A thread starts an operation only when it has finished the one before. -/
def next (s : State) : Event → State
  | .storeDo reg =>
    match s.pending .modbus,holdingRegWr s.regs holdingDoIdx reg with
    | none,some (regs,.mbSetDo low) => stored s .modbus regs low
    | _,_ => s
  | .storeHeartEn reg =>
    match s.pending .modbus,holdingRegWr s.regs holdingHeartEnIdx reg with
    | none,some (regs,_) => {s with regs:=regs}
    | _,_ => s
  | .heartExpiry =>
    match s.pending .heart,heartStore s.regs with
    | none,some regs => stored s .heart regs 0
    | _,_ => s
  | .ifDown =>
    match s.pending .net with
    | none => stored s .net (Function.update s.regs holdingDoIdx 0) 0
    | some _ => s
  | .ifUp =>
    match s.pending .net with
    | none => {s with linkDown:=false}
    | some _ => s
  | .setDo thread =>
    match s.pending thread with
    | none => s
    | some reg =>
      {s with out:=mbSetDo reg s.out
              linkDown:=s.linkDown||decide (thread=.net)
              pending:=Function.update s.pending thread none}

/-- No operation is in progress. -/
def Quiet (s : State) : Prop := ∀ thread,s.pending thread=none

/-- Once no operation is in progress the pins show the DO register. -/
def Follows (s : State) : Prop := Quiet s → Shows s.out (s.regs holdingDoIdx)

/-- When the last operation in progress sets the pins, the register still has
the low bits that the operation stored. -/
def Undisturbed (s : State) : Event → Prop
  | .setDo thread =>
    (∀ t,t≠thread → s.pending t=none) →
      ∀ reg∈s.pending thread,SameLow reg (s.regs holdingDoIdx)
  | _ => True

/-- A thread that has stored the register is in progress. -/
theorem not_quiet_stored (s : State) (thread : Thread) (regs : HoldingRegs) (reg : BitVec 16) :
    ¬Quiet (stored s thread regs reg) := by
  intro h
  have hthread := h thread
  simp only [stored,Function.update_self] at hthread
  cases hthread

/-- A state in which a store was just made has nothing to show yet. -/
theorem follows_stored (s : State) (thread : Thread) (regs : HoldingRegs) (reg : BitVec 16) :
    Follows (stored s thread regs reg) := fun h => absurd h (not_quiet_stored s thread regs reg)

/-- A store of the heartbeat enable register keeps the DO register, the pins and
what is in progress. -/
theorem storeHeartEn_keeps (s : State) (reg : BitVec 16) :
    (next s (.storeHeartEn reg)).regs holdingDoIdx=s.regs holdingDoIdx ∧
      (next s (.storeHeartEn reg)).out=s.out ∧
      (next s (.storeHeartEn reg)).pending=s.pending := by
  cases hpending : s.pending .modbus with
  | none =>
    rw [next,hpending,holdingRegWr_heartEn]
    exact ⟨Function.update_of_ne (by decide : holdingDoIdx≠holdingHeartEnIdx) reg s.regs,
      rfl,rfl⟩
  | some low => simp only [next,hpending,and_self]

/-- A thread that sets the pins leaves nothing in progress exactly if no other
thread is. -/
theorem quiet_setDo {s : State} {thread : Thread} {reg : BitVec 16}
    (hpending : s.pending thread=some reg) :
    Quiet (next s (.setDo thread)) ↔ ∀ t,t≠thread → s.pending t=none := by
  simp only [Quiet,next,hpending]
  constructor
  · intro hq t ht
    simpa only [Function.update_of_ne ht] using hq t
  · intro hothers t
    by_cases ht : t=thread
    · subst ht
      exact Function.update_self _ _ _
    · rw [Function.update_of_ne ht]
      exact hothers t ht

/-- A thread that sets the pins keeps them with their register exactly when it
is undisturbed. -/
theorem follows_setDo (s : State) (thread : Thread) (h : Follows s) :
    Follows (next s (.setDo thread)) ↔ Undisturbed s (.setDo thread) := by
  cases hpending : s.pending thread with
  | none =>
    refine iff_of_true ?_ ?_
    · simpa only [next,hpending] using h
    · intro _ reg hreg
      simp only [hpending,Option.mem_def,reduceCtorEq] at hreg
  | some reg =>
    have hshows : Shows (next s (.setDo thread)).out
        ((next s (.setDo thread)).regs holdingDoIdx) ↔ SameLow reg (s.regs holdingDoIdx) := by
      simp only [next,hpending]
      exact shows_mbSetDo _ _ _
    simp only [Follows,Undisturbed,quiet_setDo hpending,hshows,hpending,Option.mem_def,
      Option.some.injEq,forall_eq']

/-- One step keeps the pins with their register exactly when it is undisturbed. -/
theorem follows_next (s : State) (e : Event) (h : Follows s) :
    Follows (next s e) ↔ Undisturbed s e := by
  cases e with
  | storeDo reg =>
    refine iff_of_true ?_ trivial
    simp only [next]
    split
    · exact follows_stored _ _ _ _
    · exact h
  | storeHeartEn reg =>
    obtain ⟨hregs,hout,hpending⟩ := storeHeartEn_keeps s reg
    refine iff_of_true (fun hq => ?_) trivial
    rw [hregs,hout]
    exact h fun t => by rw [←hpending]; exact hq t
  | heartExpiry =>
    refine iff_of_true ?_ trivial
    simp only [next]
    split
    · exact follows_stored _ _ _ _
    · exact h
  | ifDown =>
    refine iff_of_true ?_ trivial
    simp only [next]
    split
    · exact follows_stored _ _ _ _
    · exact h
  | ifUp =>
    refine iff_of_true ?_ trivial
    simp only [next]
    split
    · exact h
    · exact h
  | setDo thread => exact follows_setDo s thread h

/-- The state after a start: the register bank holds some settings, the DO
register is zero, all pins are low and no operation is in progress. -/
def boot (regs : HoldingRegs) : State :=
  ⟨Function.update regs holdingDoIdx 0,dioInit,false,fun _ => none⟩

/-- After a start pins and register agree. -/
theorem boot_shows (regs : HoldingRegs) :
    Shows (boot regs).out ((boot regs).regs holdingDoIdx) := by
  intro i
  simp only [boot,dioInit,Function.update_self,BitVec.ofNat_eq_ofNat,BitVec.getLsbD_zero]

/-- In every interleaving, the pins show the DO register whenever no operation
is in progress exactly if every last operation in progress is undisturbed. -/
theorem pins_follow_register_iff (regs : HoldingRegs) (es : List Event) :
    Throughout next Follows (boot regs) es ↔ AlongRun next Undisturbed (boot regs) es :=
  throughout_iff_alongRun follows_next (fun _ => boot_shows regs) es

/-- A Modbus write that is preempted by a link down between its two steps
switches an output on after the register was cleared. -/
theorem preempted_write_leaves_pin_on :
    ¬∀ regs es,Throughout next Follows (boot regs) es := by
  intro h
  have hlast := (h (modbusInit 0) [.storeDo 1,.ifDown,.setDo .net,.setDo .modbus]).last
  have hquiet : Quiet (finalState next (boot (modbusInit 0))
      [.storeDo 1,.ifDown,.setDo .net,.setDo .modbus]) := by
    intro t
    cases t <;> rfl
  have hpin := hlast hquiet 0
  exact absurd hpin (by decide)

/-- The device with its coils, one operation at a time. -/
structure Device where
  /-- Registers and pins. -/
  state : State
  /-- `coils_state`. -/
  coils : Coils

/-- An operation that runs to completion. -/
inductive Op
  /-- `coil_wr`. -/
  | coilWr (addr : ℕ) (state : Bool)
  /-- `holding_reg_wr` of the DO register. -/
  | writeDo (reg : BitVec 16)
  /-- `holding_reg_wr` of the heartbeat enable register. -/
  | writeHeartEn (reg : BitVec 16)
  /-- A timeout of `heart_poll`. -/
  | heartTimeout
  /-- A link down in `net_event_handler`. -/
  | linkDown
  /-- A link up in `net_event_handler`. -/
  | linkUp

/-- The two steps of an operation without another one in between. -/
def steps : Op → List Event
  | .coilWr _ _ => []
  | .writeDo reg => [.storeDo reg,.setDo .modbus]
  | .writeHeartEn reg => [.storeHeartEn reg]
  | .heartTimeout => [.heartExpiry,.setDo .heart]
  | .linkDown => [.ifDown,.setDo .net]
  | .linkUp => [.ifUp]

/-- An operation takes its steps, and a coil write changes the coils if it is
not rejected. -/
def complete (d : Device) (op : Op) : Device :=
  ⟨finalState next d.state (steps op),
    match op with
    | .coilWr addr state => (coilWr d.coils addr state).getD d.coils
    | _ => d.coils⟩

/-- The device after a start. -/
def powerOn (regs : HoldingRegs) : Device := ⟨boot regs,fun _ => 0⟩

/-- A coil reads as the bit of the DO register, which is the level of the pin. -/
def OneState (d : Device) : Prop :=
  ∀ i : Fin doNumber,coilRd d.coils i=some ((d.state.regs holdingDoIdx).getLsbD i) ∧
    d.state.out.doGpios i=(d.state.regs holdingDoIdx).getLsbD i

/-- An operation that switches nothing on. -/
def SwitchesOff : Op → Prop
  | .coilWr addr state => addr<colsNumbers → state=false
  | .writeDo reg => SameLow reg 0
  | _ => True

/-- The value that an operation stores in the DO register, if it stores one. -/
def storesDo (s : State) : Op → Option (BitVec 16)
  | .writeDo reg => some reg
  | .heartTimeout => if s.regs holdingHeartEnIdx≠0 then some 0 else none
  | .linkDown => some 0
  | _ => none

/-- Register and pins between operations. -/
def Consistent (s : State) : Prop := Quiet s ∧ Shows s.out (s.regs holdingDoIdx)

/-- A store followed by the set of the same thread ends with no operation in
progress, the register stored and the pins showing it. -/
theorem store_setDo {s : State} {e : Event} {thread : Thread} {regs : HoldingRegs}
    {reg : BitVec 16} (hq : Quiet s) (hstore : next s e=stored s thread regs reg)
    (hlow : SameLow reg (regs holdingDoIdx)) :
    Consistent (finalState next s [e,.setDo thread]) ∧
      (finalState next s [e,.setDo thread]).regs holdingDoIdx=regs holdingDoIdx := by
  have hnext : finalState next s [e,.setDo thread]=
      {regs:=regs
       out:=mbSetDo reg s.out
       linkDown:=s.linkDown||decide (thread=.net)
       pending:=Function.update (Function.update s.pending thread (some reg)) thread none} := by
    rw [finalState,List.foldl_cons,List.foldl_cons,List.foldl_nil,hstore]
    simp only [next,stored,Function.update_self]
  rw [hnext]
  refine ⟨⟨?_,(shows_mbSetDo _ _ _).mpr hlow⟩,rfl⟩
  intro t
  by_cases ht : t=thread
  · subst ht
    exact Function.update_self _ _ _
  · simp only [Function.update_of_ne ht]
    exact hq t

/-- A store of zero followed by the set of the same thread leaves the register
zero. -/
theorem clear_setDo {s : State} {e : Event} {thread : Thread} {regs : HoldingRegs}
    (hq : Quiet s) (hstore : next s e=stored s thread (Function.update regs holdingDoIdx 0) 0) :
    Consistent (finalState next s [e,.setDo thread]) ∧
      (finalState next s [e,.setDo thread]).regs holdingDoIdx=0 := by
  have hzero : Function.update regs holdingDoIdx 0 holdingDoIdx=0 := Function.update_self _ _ _
  have hset := store_setDo hq hstore (by rw [hzero]; exact fun _ => rfl)
  rwa [hzero] at hset

/-- An operation that runs to completion leaves the DO register with what it
stores and the pins showing it. -/
theorem consistent_complete {s : State} (h : Consistent s) (op : Op) :
    Consistent (finalState next s (steps op)) ∧
      (finalState next s (steps op)).regs holdingDoIdx=
        (storesDo s op).getD (s.regs holdingDoIdx) := by
  obtain ⟨hq,hshows⟩ := h
  cases op with
  | coilWr addr state => exact ⟨⟨hq,hshows⟩,rfl⟩
  | writeDo reg =>
    have hstore : next s (.storeDo reg)=
        stored s .modbus (Function.update s.regs holdingDoIdx reg) (reg&&&0xff) := by
      rw [next,hq .modbus,holdingRegWr_do]
    have hreg : Function.update s.regs holdingDoIdx reg holdingDoIdx=reg :=
      Function.update_self _ _ _
    have hset := store_setDo hq hstore (by rw [hreg]; exact sameLow_lowByte reg)
    rwa [hreg] at hset
  | writeHeartEn reg =>
    obtain ⟨hregs,hout,hpending⟩ := storeHeartEn_keeps s reg
    refine ⟨⟨fun t => ?_,?_⟩,hregs⟩
    · exact (congrFun hpending t).trans (hq t)
    · change Shows (next s (.storeHeartEn reg)).out ((next s (.storeHeartEn reg)).regs holdingDoIdx)
      rwa [hout,hregs]
  | heartTimeout =>
    by_cases hen : s.regs holdingHeartEnIdx≠0
    · have hstore : next s .heartExpiry=stored s .heart
          (Function.update (Function.update s.regs holdingHeartIdx 0) holdingDoIdx 0) 0 := by
        rw [next,hq .heart,heartStore,if_pos hen]
      rw [storesDo,if_pos hen]
      exact clear_setDo hq hstore
    · have hskip : next s .heartExpiry=s := by rw [next,hq .heart,heartStore,if_neg hen]
      have hset : next s (.setDo .heart)=s := by rw [next,hq .heart]
      simp only [steps,finalState,List.foldl_cons,List.foldl_nil,hskip,hset]
      refine ⟨⟨hq,hshows⟩,?_⟩
      rw [storesDo,if_neg hen]
      rfl
  | linkDown =>
    have hstore : next s .ifDown=stored s .net (Function.update s.regs holdingDoIdx 0) 0 := by
      rw [next,hq .net]
    exact clear_setDo hq hstore
  | linkUp =>
    have hstore : next s .ifUp={s with linkDown:=false} := by rw [next,hq .net]
    simp only [steps,finalState,List.foldl_cons,List.foldl_nil,hstore]
    exact ⟨⟨hq,hshows⟩,rfl⟩

/-- After a start no operation is in progress and the pins show the register. -/
theorem consistent_boot (regs : HoldingRegs) : Consistent (boot regs) :=
  ⟨fun _ => rfl,boot_shows regs⟩

/-- Operations that run to completion keep the pins with the DO register. -/
theorem pins_follow_completed (regs : HoldingRegs) (ops : List Op) :
    Throughout complete (fun d => Consistent d.state) (powerOn regs) ops :=
  (throughout_iff _ _).mpr fun pre _ =>
    finalState_preserves (I:=fun d : Device => Consistent d.state)
      (fun _ op h => (consistent_complete h op).1) (consistent_boot regs) pre

/-- Outputs and coils are all off. -/
def AllOff (d : Device) : Prop :=
  Consistent d.state ∧ SameLow (d.state.regs holdingDoIdx) 0 ∧
    ∀ i : Fin doNumber,coilRd d.coils i=some false

/-- With everything off the two views agree. -/
theorem oneState_of_allOff (d : Device) (h : AllOff d) : OneState d := by
  obtain ⟨⟨-,hshows⟩,hlow,hcoils⟩ := h
  intro i
  refine ⟨?_,hshows i⟩
  rw [hcoils i,hlow i]
  simp only [BitVec.ofNat_eq_ofNat,BitVec.getLsbD_zero]

/-- An operation that switches nothing on keeps everything off. -/
theorem allOff_complete (d : Device) (op : Op) (h : AllOff d) (hop : SwitchesOff op) :
    AllOff (complete d op) := by
  obtain ⟨hcons,hlow,hcoils⟩ := h
  obtain ⟨hcons',hreg⟩ := consistent_complete hcons op
  refine ⟨hcons',?_,?_⟩
  · have hstored : ∀ reg∈storesDo d.state op,SameLow reg 0 := by
      intro reg hmem
      cases op with
      | writeDo v =>
        obtain rfl := Option.some.inj hmem
        exact hop
      | heartTimeout =>
        simp only [storesDo] at hmem
        split at hmem
        · obtain rfl := Option.some.inj hmem
          exact fun _ => rfl
        · cases hmem
      | linkDown =>
        obtain rfl := Option.some.inj hmem
        exact fun _ => rfl
      | coilWr addr state => cases hmem
      | writeHeartEn reg => cases hmem
      | linkUp => cases hmem
    change SameLow ((finalState next d.state (steps op)).regs holdingDoIdx) 0
    rw [hreg]
    cases hs : storesDo d.state op with
    | none => exact hlow
    | some reg => exact hstored reg hs
  · intro i
    cases op with
    | coilWr addr state =>
      change coilRd ((coilWr d.coils addr state).getD d.coils) i=some false
      cases hwr : coilWr d.coils addr state with
      | none => exact hcoils i
      | some coils' =>
        rw [Option.getD_some,coilRd_coilWr hwr]
        split
        · rename_i hi
          have haddr : addr<colsNumbers := hi▸i.isLt
          rw [hop haddr]
        · exact hcoils i
    | writeDo reg => exact hcoils i
    | writeHeartEn reg => exact hcoils i
    | heartTimeout => exact hcoils i
    | linkDown => exact hcoils i
    | linkUp => exact hcoils i

/-- An operation that switches an output or a coil on changes one view only. -/
theorem not_oneState_complete (d : Device) (op : Op) (h : AllOff d) (hop : ¬SwitchesOff op) :
    ¬OneState (complete d op) := by
  obtain ⟨hcons,hlow,hcoils⟩ := h
  intro hone
  cases op with
  | coilWr addr state =>
    simp only [SwitchesOff,Classical.not_imp,Bool.not_eq_false] at hop
    obtain ⟨haddr,rfl⟩ := hop
    obtain ⟨hcoil,-⟩ := hone ⟨addr,haddr⟩
    have hwr : ∃ coils',coilWr d.coils addr true=some coils' := by
      rw [coilWr,dif_pos haddr]
      exact ⟨_,rfl⟩
    obtain ⟨coils',hwr⟩ := hwr
    have hread : coilRd (complete d (.coilWr addr true)).coils addr=some true := by
      change coilRd ((coilWr d.coils addr true).getD d.coils) addr=some true
      rw [hwr,Option.getD_some,coilRd_coilWr hwr,if_pos rfl]
    have hbit := hlow ⟨addr,haddr⟩
    rw [hread] at hcoil
    have htrue : (d.state.regs holdingDoIdx).getLsbD addr=true := (Option.some.inj hcoil).symm
    rw [htrue] at hbit
    simp only [BitVec.ofNat_eq_ofNat,BitVec.getLsbD_zero,Bool.true_eq_false] at hbit
  | writeDo reg =>
    apply hop
    intro i
    obtain ⟨hcoil,-⟩ := hone i
    have hreg := (consistent_complete hcons (.writeDo reg)).2
    change coilRd d.coils i=some
      (((finalState next d.state (steps (.writeDo reg))).regs holdingDoIdx).getLsbD i) at hcoil
    rw [hcoils i,hreg] at hcoil
    have hbit : false=reg.getLsbD i := Option.some.inj hcoil
    rw [←hbit]
    simp only [BitVec.ofNat_eq_ofNat,BitVec.getLsbD_zero]
  | writeHeartEn reg => exact hop trivial
  | heartTimeout => exact hop trivial
  | linkDown => exact hop trivial
  | linkUp => exact hop trivial

/-- After a start everything is off. -/
theorem allOff_powerOn (regs : HoldingRegs) : AllOff (powerOn regs) := by
  refine ⟨consistent_boot regs,?_,?_⟩
  · intro i
    simp only [powerOn,boot,Function.update_self]
  · intro i
    rw [coilRd_eq_getLsbD _ i.isLt]
    simp only [powerOn,BitVec.ofNat_eq_ofNat,BitVec.getLsbD_zero]

/-- Over operations that run to completion, coils, DO register and pins are one
state exactly as long as no operation switches anything on. -/
theorem coils_are_outputs_iff (regs : HoldingRegs) (ops : List Op) :
    Throughout complete OneState (powerOn regs) ops ↔ ∀ op∈ops,SwitchesOff op := by
  rw [throughout_iff_of_invariant (C:=fun _ op => SwitchesOff op) allOff_complete
    oneState_of_allOff not_oneState_complete (allOff_powerOn regs)]
  exact alongRun_forall (C:=SwitchesOff)

/-- A write of the DO register switches a pin on whose coil still reads off. -/
theorem register_write_misses_coil :
    ¬∀ regs ops,Throughout complete OneState (powerOn regs) ops := by
  intro h
  have hlast := (h (modbusInit 0) [.writeDo 1]).last
  exact absurd (hlast 0).1 (by decide)

end ZephyrApp.DigitalOutputs

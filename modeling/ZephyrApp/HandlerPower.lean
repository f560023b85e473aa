import ZephyrApp.EventRuns

/-!
# Power states of the handler

The main thread, the shell and the system work queue switch between the two
links, put the handler to sleep and wake it. Each is a list of the calls it
still has to make, and they take turns between any two calls. What a function
decides from `connect_type` is put into its list when it reads it. Buttons and
timeouts may come at any time; calls without a part in this are all alike.
-/

namespace ZephyrApp.HandlerPower

open EventRuns

section Model

/-- The links: `CAN_TYPE` and `RF24_TYPE`. -/
inductive Link
  /-- The CAN bus. -/
  | can
  /-- The radio. -/
  | rf24
deriving DecidableEq

instance : Fintype Link := ⟨{.can,.rf24},fun l => by cases l <;> decide⟩

/-- The other link. -/
def Link.other : Link → Link
  | .can => .rf24
  | .rf24 => .can

/-- A call that a thread has to make. -/
inductive Op
  /-- The test of `connect_type` in `connect_switch`. -/
  | chooseSwitch
  /-- `k_event_clear` of the link's event. -/
  | clearEvent (l : Link)
  /-- `k_event_post` of the link's event. -/
  | postEvent (l : Link)
  /-- `can_power_enable`, `rf24_init` or `rf24_deinit`. -/
  | power (l : Link) (up : Bool)
  /-- `dis_power_enable`. -/
  | disPower (up : Bool)
  /-- `handler_power_enable`. -/
  | handlerPower (up : Bool)
  /-- `k_event_clear` of `WAKE_EVENT`. -/
  | clearWake
  /-- `k_event_post` of `WAKE_EVENT`. -/
  | postWake
  /-- `atomic_set(&global_params.sleeping, 1)`. -/
  | setSleeping
  /-- The test of `connect_type` in `system_sleep`. -/
  | chooseSleep
  /-- `pm_state_force`, the last call of `system_sleep`. -/
  | pmForce
  /-- The test of `connect_type` in `system_wake`. -/
  | chooseWake
  /-- `atomic_set(&global_params.sleeping, 0)`. -/
  | clearSleeping
  /-- `atomic_set(&waking, 0)`. -/
  | clearWaking
  /-- Any other call: a wait, a print, the display or the settings. -/
  | call
deriving DecidableEq

/-- `connect_switch`. -/
def connectSwitch : List Op := [.chooseSwitch]

/-- The branch of `connect_switch` for a link. -/
def switchTo (l : Link) : List Op :=
  [.clearEvent l.other,.power l.other false,.power l true,.postEvent l,.call,.call]

/-- `system_sleep`. -/
def systemSleep : List Op :=
  [.clearWake,.setSleeping,.call,.chooseSleep,.disPower false,.handlerPower false,.pmForce]

/-- `system_wake` after it has set `waking`. -/
def systemWake : List Op :=
  [.handlerPower true,.disPower true,.chooseWake,.call,.call,.clearSleeping,.call,.clearWaking,
    .postWake]

/-- The calls that a test of `connect_type` decides on. -/
def Op.branch (type : Link) : Op → List Op
  | .chooseSwitch => switchTo type
  | .chooseSleep => [.power type false]
  | .chooseWake => [.power type true]
  | _ => []

/-- The threads. -/
inductive Thread
  /-- The main thread. -/
  | main
  /-- The shell. -/
  | shell
  /-- The system work queue. -/
  | work
deriving DecidableEq

instance : Fintype Thread := ⟨{.main,.shell,.work},fun t => by cases t <;> decide⟩

/-- How far sleep and wake have come. -/
inductive Phase
  /-- The link is powered. -/
  | awake
  /-- A `system_sleep` has tested `connect_type`. -/
  | closing
  /-- A `system_wake` has begun and not yet tested `connect_type`. -/
  | opening
deriving DecidableEq

/-- The handler. -/
structure Handler where
  /-- `connect_type`. -/
  connectType : Link
  /-- The links that are powered. -/
  power : Link → Bool
  /-- The display is powered. -/
  dis : Bool
  /-- The handler's sensors are powered. -/
  handler : Bool
  /-- `CAN_EVENT` and `RF24_EVENT`. -/
  event : Link → Bool
  /-- `WAKE_EVENT`. -/
  wakeEvent : Bool
  /-- `sleeping`. -/
  sleeping : Bool
  /-- `waking`. -/
  waking : Bool
  /-- `linksw_work` is scheduled. -/
  linkPending : Bool
  /-- `sleep_work` is scheduled. -/
  sleepPending : Bool
  /-- `device_is_ready` of the radio. -/
  ready : Bool
  /-- What the threads have to do. -/
  ops : Thread → List Op
  /-- How far sleep and wake have come. -/
  phase : Phase
  /-- A `system_sleep` has completed and no `system_wake` has run since. -/
  asleep : Bool

/-- Make a call. -/
def exec (s : Handler) : Op → Handler
  | .clearEvent l => {s with event := Function.update s.event l false}
  | .postEvent l => {s with event := Function.update s.event l true}
  | .power .can up => {s with power := Function.update s.power .can up}
  | .power .rf24 up =>
    if s.ready=true then {s with power := Function.update s.power .rf24 up} else s
  | .disPower up => {s with dis := up}
  | .handlerPower up => {s with handler := up}
  | .clearWake => {s with wakeEvent := false}
  | .postWake => {s with wakeEvent := true}
  | .setSleeping => {s with sleeping := true}
  | .chooseSleep => {s with phase := .closing}
  | .pmForce => {s with asleep := true}
  | .chooseWake => {s with phase := .awake}
  | .clearSleeping => {s with sleeping := false}
  | .clearWaking => {s with waking := false}
  | .chooseSwitch | .call => s

/-- A thread goes on with other calls. -/
def Handler.goes (s : Handler) (t : Thread) (ops : List Op) : Handler :=
  {s with ops := Function.update s.ops t ops}

/-- What happens. -/
inductive Event
  /-- The interrupt of the link switch. -/
  | linkswIrq
  /-- The interrupt of the power button. -/
  | powerIrq
  /-- The work queue takes `linksw_work` and finds the switch pressed or not. -/
  | linkswWork (pressed : Bool)
  /-- The work queue takes `sleep_work` and finds the button pressed or not. -/
  | sleepWork (pressed : Bool)
  /-- The shell command `link can` or `link rf24`. -/
  | shellLink (l : Link)
  /-- The shell command `sleep`. -/
  | shellSleep
  /-- The main thread's timeout. -/
  | timeout
  /-- A thread makes its next call. -/
  | run (t : Thread)

/-- `connect_type` is set and `connect_switch` called. -/
def Handler.switches (s : Handler) (t : Thread) (l : Link) : Handler :=
  {s with connectType := l}.goes t connectSwitch

/-- `waking` is set and the rest of `system_wake` begins. -/
def Handler.wakes (s : Handler) : Handler :=
  {s with
    waking := true
    phase := .opening
    asleep := false}.goes .work systemWake

/-- One event. -/
def next (s : Handler) : Event → Handler
  | .linkswIrq => if s.sleeping=true then s else {s with linkPending := true}
  | .powerIrq => {s with sleepPending := true}
  | .linkswWork pressed =>
    if s.ops .work=[] ∧ s.linkPending=true then
      let taken := {s with linkPending := false}
      if pressed=true then taken.switches .work s.connectType.other else taken
    else s
  | .sleepWork pressed =>
    if s.ops .work=[] ∧ s.sleepPending=true then
      let taken := {s with sleepPending := false}
      if pressed=true ∧ s.sleeping=true ∧ s.waking=false then taken.wakes else taken
    else s
  | .shellLink l => if s.ops .shell=[] then s.switches .shell l else s
  | .shellSleep =>
    if s.ops .shell=[] ∧ s.sleeping=false then s.goes .shell (.call::systemSleep) else s
  | .timeout => if s.ops .main=[] ∧ s.sleeping=false then s.goes .main systemSleep else s
  | .run t =>
    match s.ops t with
    | [] => s
    | op::rest => (exec s op).goes t (op.branch s.connectType++rest)

/-- The handler after `power_init`, at the call of `connect_switch` in `main`. -/
def boot (type : Link) (ready radio : Bool) : Handler where
  connectType := type
  power := fun
    | .can => true
    | .rf24 => radio
  dis := true
  handler := true
  event := fun
    | .can => true
    | .rf24 => false
  wakeEvent := false
  sleeping := false
  waking := false
  linkPending := false
  sleepPending := false
  ready := ready
  ops := fun
    | .main => connectSwitch
    | _ => []
  phase := .awake
  asleep := false

end Model

section Property

/-- All supplies are off. -/
structure Dark (s : Handler) : Prop where
  /-- Both links. -/
  power : ∀ l,s.power l=false
  /-- The display. -/
  dis : s.dis=false
  /-- The sensors. -/
  handler : s.handler=false

/-- Exactly the link of `connect_type` is powered, and exactly its event is set. -/
structure Linked (s : Handler) : Prop where
  /-- The powered link. -/
  power : ∀ l,s.power l=decide (l=s.connectType)
  /-- The event that is set. -/
  event : ∀ l,s.event l=decide (l=s.connectType)

/-- A call that belongs to switching links. -/
def Op.Links : Op → Prop
  | .chooseSwitch | .clearEvent _ | .postEvent _ | .power _ _ => True
  | _ => False

instance : (op : Op) → Decidable op.Links
  | .chooseSwitch | .clearEvent _ | .postEvent _ | .power _ _ => instDecidableTrue
  | .disPower _ | .handlerPower _ | .clearWake | .postWake | .setSleeping | .chooseSleep
  | .pmForce | .chooseWake | .clearSleeping | .clearWaking | .call => instDecidableFalse

/-- No thread is about to switch links. -/
def Settled (s : Handler) : Prop := ∀ t,∀ op∈s.ops t,¬op.Links

instance (s : Handler) : Decidable (Settled s) :=
  inferInstanceAs (Decidable (∀ t,∀ op∈s.ops t,¬op.Links))

/-- What the handler promises about its supplies. -/
structure Right (s : Handler) : Prop where
  /-- After `system_sleep` and before `system_wake` all is off. -/
  asleep : s.asleep=true → Dark s
  /-- Awake, with no switch in progress, exactly one link is on. -/
  awake : s.sleeping=false → Settled s → Linked s

/-- A call does nothing against a link: it leads to this link being on and the
other off. While the handler is closing only this link is still switched off. -/
def Op.Suits (phase : Phase) (type : Link) : Op → Prop
  | .chooseSwitch => phase≠.closing
  | .clearEvent l => l≠type
  | .postEvent l => l=type
  | .power l up => if phase=.closing then l=type ∧ up=false else up=decide (l=type)
  | _ => True

instance (phase : Phase) (type : Link) : (op : Op) → Decidable (op.Suits phase type)
  | .chooseSwitch => inferInstanceAs (Decidable (_≠_))
  | .clearEvent _ => inferInstanceAs (Decidable (_≠_))
  | .postEvent _ => inferInstanceAs (Decidable (_=_))
  | .power _ _ => inferInstanceAs (Decidable (if _=_ then _ ∧ _ else _=_))
  | .disPower _ | .handlerPower _ | .clearWake | .postWake | .setSleeping | .chooseSleep
  | .pmForce | .chooseWake | .clearSleeping | .clearWaking | .call => instDecidableTrue

/-- A call that switches a link on or off, or will lead to one. -/
def Op.Powers : Op → Prop
  | .chooseSwitch | .power _ _ => True
  | _ => False

instance : (op : Op) → Decidable op.Powers
  | .chooseSwitch | .power _ _ => instDecidableTrue
  | .clearEvent _ | .postEvent _ | .disPower _ | .handlerPower _ | .clearWake | .postWake
  | .setSleeping | .chooseSleep | .pmForce | .chooseWake | .clearSleeping | .clearWaking
  | .call => instDecidableFalse

/-- A thread in `system_sleep` that has set `sleeping`. -/
abbrev Sleeper (ops : List Op) : Prop := Op.pmForce∈ops ∧ Op.setSleeping∉ops

/-- A switch to a link may begin: the handler is not closing, and what the
threads are about to do suits the link. -/
abbrev MaySwitch (s : Handler) (l : Link) : Prop :=
  s.phase≠.closing ∧ ∀ t,∀ op∈s.ops t,op.Suits s.phase l

/-- A call is made in time: `sleeping` is not set while a `system_wake` has yet
to clear it, a `system_sleep` does not test `connect_type` while links are being
switched, and the radio obeys. -/
def InTime (s : Handler) : Op → Prop
  | .setSleeping => ∀ t,Op.clearSleeping∉s.ops t
  | .chooseSleep => s.phase≠.closing → ∀ t,∀ op∈s.ops t,¬op.Powers
  | .power .rf24 up => s.ready=true ∨ s.power .rf24=up
  | _ => True

instance (s : Handler) : (op : Op) → Decidable (InTime s op)
  | .setSleeping => inferInstanceAs (Decidable (∀ t,Op.clearSleeping∉s.ops t))
  | .chooseSleep => inferInstanceAs (Decidable (_≠_ → ∀ t,∀ op∈s.ops t,¬op.Powers))
  | .power .rf24 _ => inferInstanceAs (Decidable (_ ∨ _))
  | .power .can _ | .chooseSwitch | .clearEvent _ | .postEvent _ | .disPower _ | .handlerPower _
  | .clearWake | .postWake | .pmForce | .chooseWake | .clearSleeping | .clearWaking
  | .call => instDecidableTrue

/-- An event comes in time: besides calls in time, a switch begins only when it
may, and a `system_wake` only when no `system_sleep` is under way. -/
def Careful (s : Handler) : Event → Prop
  | .linkswWork pressed => s.ops .work=[] → s.linkPending=true → pressed=true →
    MaySwitch s s.connectType.other
  | .shellLink l => s.ops .shell=[] → MaySwitch s l
  | .sleepWork pressed => s.ops .work=[] → s.sleepPending=true → pressed=true →
    s.sleeping=true → s.waking=false → ∀ t,¬Sleeper (s.ops t)
  | .run t => ∀ op∈(s.ops t).head?,InTime s op
  | _ => True

instance (s : Handler) : (e : Event) → Decidable (Careful s e)
  | .linkswWork _ => inferInstanceAs (Decidable (_ → _ → _ → MaySwitch _ _))
  | .shellLink _ => inferInstanceAs (Decidable (_ → MaySwitch _ _))
  | .sleepWork _ => inferInstanceAs (Decidable (_ → _ → _ → _ → _ → ∀ t,¬Sleeper (s.ops t)))
  | .run t => inferInstanceAs (Decidable (∀ op∈(s.ops t).head?,InTime s op))
  | .linkswIrq | .powerIrq | .shellSleep | .timeout => instDecidableTrue

end Property

section Calls

variable {s : Handler} {op : Op} {t : Thread}

/-- A call does not change `connect_type`. -/
@[simp] theorem exec_connectType (s : Handler) (op : Op) :
    (exec s op).connectType=s.connectType := by
  cases op with
  | power l up =>
    cases l with
    | can => rfl
    | rf24 => rw [exec]; split <;> rfl
  | _ => rfl

/-- A call does not change what the threads have to do. -/
@[simp] theorem exec_ops (s : Handler) (op : Op) : (exec s op).ops=s.ops := by
  cases op with
  | power l up =>
    cases l with
    | can => rfl
    | rf24 => rw [exec]; split <;> rfl
  | _ => rfl

/-- A call in time switches the link it names. -/
theorem exec_power {l : Link} {up : Bool} (h : InTime s (.power l up)) :
    exec s (.power l up)={s with power := Function.update s.power l up} := by
  cases l with
  | can => rfl
  | rf24 =>
    rw [exec]
    rcases h with hready | hsame
    · rw [if_pos hready]
    · split
      · rfl
      · rw [←hsame,Function.update_eq_self]

end Calls

section Shapes

/-- What a thread has to do after a call. -/
def advance (type : Link) : List Op → List Op
  | [] => []
  | op::rest => op.branch type++rest

/-- Everything that a thread may have to do: the ends of the functions, their
branches included. -/
def reachable : List (List Op) :=
  ([connectSwitch,switchTo .can,switchTo .rf24,.call::systemSleep,systemWake].flatMap List.tails)++
    [Link.can,.rf24].flatMap fun l =>
      [.power l false::systemSleep.drop 4,.power l true::systemWake.drop 3]

/-- A thread in `system_sleep` that has tested `connect_type`. -/
abbrev Closer (ops : List Op) : Prop := Sleeper ops ∧ Op.chooseSleep∉ops

variable {type : Link} {ops rest : List Op}

/-- Calls lead from one such list to another. -/
theorem advance_reachable : ∀ type,∀ q∈reachable,advance type q∈reachable := by decide

/-- Only a `system_wake` under way clears `sleeping`. -/
theorem clearSleeping_advance : ∀ type,∀ q∈reachable,
    Op.clearSleeping∈advance type q → Op.clearSleeping∈q := by decide

/-- A `system_sleep` is under way from `setSleeping` on. -/
theorem sleeper_advance : ∀ type,∀ q∈reachable,Sleeper (advance type q) →
    Sleeper q ∨ q.head?=some .setSleeping := by decide

/-- It has tested `connect_type` from `chooseSleep` on. -/
theorem closer_advance : ∀ type,∀ q∈reachable,Closer (advance type q) →
    Closer q ∨ q.head?=some .chooseSleep := by decide

/-- Nothing comes after `pmForce`. -/
theorem tail_pmForce : ∀ q∈reachable,q.head?=some .pmForce → q=[.pmForce] := by decide

/-- A `system_sleep` has its end before it when it tests `connect_type`. -/
theorem tail_chooseSleep : ∀ q∈reachable,q.head?=some .chooseSleep →
    q=[.chooseSleep,.disPower false,.handlerPower false,.pmForce] := by decide

/-- When `sleeping` is cleared the test of `connect_type` was before. -/
theorem tail_clearSleeping : ∀ q∈reachable,q.head?=some .clearSleeping →
    Op.chooseWake∉q := by decide

/-- What `system_wake` switches on comes before it clears `sleeping`. -/
theorem waker_ops : ∀ q∈reachable,
    Op.disPower true∈q ∨ Op.handlerPower true∈q ∨ Op.chooseWake∈q → Op.clearSleeping∈q := by
  decide

/-- A thread that switches a link off is in `system_sleep`, or will switch the
other link on. -/
theorem power_false_ops : ∀ l : Link,∀ q∈reachable,Op.power l false∈q →
    Sleeper q ∨ Op.power l.other true∈q := by decide

end Shapes

section Steps

/-- Some thread has to make a call. -/
def Pending (s : Handler) (op : Op) : Prop := ∃ t,op∈s.ops t

/-- Some thread will make a call, or test `connect_type` in `connect_switch`. -/
def Owed (s : Handler) (op : Op) : Prop := Pending s op ∨ Pending s .chooseSwitch

/-- What the threads have to do are ends of the functions, and only the work
queue wakes the handler. -/
structure Shaped (s : Handler) : Prop where
  /-- The ends. -/
  reach : ∀ t,s.ops t∈reachable
  /-- The one that wakes. -/
  waker : ∀ t,Op.clearSleeping∈s.ops t → t=.work

/-- The links and their events are as `connect_type` says, or a call that makes
them so is still to come. -/
structure Linking (s : Handler) : Prop where
  /-- No call works against the link. -/
  suits : ∀ t,∀ op∈s.ops t,op.Suits s.phase s.connectType
  /-- Its event is set. -/
  eventOn : s.event s.connectType=true ∨ Owed s (.postEvent s.connectType)
  /-- The other event is not. -/
  eventOff : s.event s.connectType.other=false ∨ Owed s (.clearEvent s.connectType.other)
  /-- The other link is off. -/
  powerOff : s.power s.connectType.other=false ∨ Owed s (.power s.connectType.other false)
  /-- While awake the link is on. -/
  powerOn : s.phase=.awake → s.power s.connectType=true ∨ Owed s (.power s.connectType true)

/-- What is on will be switched off by a thread. -/
structure Darkens (s : Handler) (ops : List Op) : Prop where
  /-- Both links. -/
  power : ∀ l,s.power l=true → Op.power l false∈ops
  /-- The display. -/
  dis : s.dis=true → Op.disPower false∈ops
  /-- The sensors. -/
  handler : s.handler=true → Op.handlerPower false∈ops

/-- How the flags and the supplies follow sleep and wake. -/
structure Resting (s : Handler) : Prop where
  /-- A `system_sleep` switches all off from its test of `connect_type` on. -/
  closer : ∀ t,Closer (s.ops t) → s.phase=.closing ∧ Darkens s (s.ops t)
  /-- It has done so at its end. -/
  asleep : s.asleep=true → s.phase=.closing ∧ Dark s
  /-- Before and after, `sleeping` is set. -/
  flag : s.phase≠.awake → s.sleeping=true
  /-- No `system_wake` is under way with a `system_sleep`. -/
  sleeper : ∀ t,Sleeper (s.ops t) → s.sleeping=true ∧ ∀ t',Op.clearSleeping∉s.ops t'
  /-- A `system_wake` ends the closing. -/
  rising : ∀ t,Op.clearSleeping∈s.ops t → s.phase≠.closing
  /-- The opening ends with its test of `connect_type`. -/
  opening : s.phase=.opening → Op.chooseWake∈s.ops .work

variable {s : Handler} {t : Thread} {op o : Op} {rest : List Op}

/-- The handler after a call of a thread. -/
abbrev Handler.after (s : Handler) (t : Thread) (op : Op) (rest : List Op) : Handler :=
  (exec s op).goes t (op.branch s.connectType++rest)

/-- What the thread has to do after its call. -/
theorem after_ops_self (hops : s.ops t=op::rest) :
    (s.after t op rest).ops t=advance s.connectType (s.ops t) := by
  rw [hops]
  exact Function.update_self t _ _

/-- What the others have to do. -/
theorem after_ops_ne {t' : Thread} (h : t'≠t) : (s.after t op rest).ops t'=s.ops t' := by
  have hne : (s.after t op rest).ops t'=(exec s op).ops t' := Function.update_of_ne h _ _
  rw [hne,exec_ops]

/-- A call to come after a call was to come before it, or is in its branch. -/
theorem mem_after {t' : Thread} (hops : s.ops t=op::rest) (h : o∈(s.after t op rest).ops t') :
    o∈s.ops t' ∨ o∈op.branch s.connectType := by
  by_cases ht : t'=t
  · subst ht
    rw [after_ops_self hops,hops] at h
    rcases List.mem_append.mp h with h | h
    · exact Or.inr h
    · exact Or.inl (by rw [hops]; exact List.mem_cons_of_mem op h)
  · rw [after_ops_ne ht] at h
    exact Or.inl h

/-- Another call that a thread has to make stays to come. -/
theorem mem_ops_after {t' : Thread} (hops : s.ops t=op::rest) (ho : o∈s.ops t') (hne : o≠op) :
    o∈(s.after t op rest).ops t' := by
  by_cases ht : t'=t
  · subst ht
    rw [hops] at ho
    rw [after_ops_self hops,hops]
    exact List.mem_append_right _ ((List.mem_cons.mp ho).resolve_left hne)
  · rw [after_ops_ne ht]
    exact ho

/-- A call to come stays so while others are made. -/
theorem Pending.after (hops : s.ops t=op::rest) (h : Pending s o) (hne : o≠op) :
    Pending (s.after t op rest) o := by
  obtain ⟨t',ho⟩ := h
  exact ⟨t',mem_ops_after hops ho hne⟩

/-- The branch of a call is to come after it. -/
theorem pending_branch (hops : s.ops t=op::rest) (h : o∈op.branch s.connectType) :
    Pending (s.after t op rest) o := by
  refine ⟨t,?_⟩
  rw [after_ops_self hops,hops]
  exact List.mem_append_left _ h

/-- What is owed stays so until it is done, if a switch leads to it. -/
theorem Owed.after (hops : s.ops t=op::rest) (h : Owed s o) (hne : o≠op)
    (hswitch : o∈switchTo s.connectType) : Owed (s.after t op rest) o := by
  by_cases hchoose : op=.chooseSwitch
  · subst hchoose
    exact Or.inl (pending_branch hops hswitch)
  · exact h.imp (·.after hops hne) (·.after hops (Ne.symm hchoose))

/-- What the threads have to do keeps its shape. -/
theorem Shaped.after (h : Shaped s) (hops : s.ops t=op::rest) : Shaped (s.after t op rest) where
  reach t' := by
    by_cases ht : t'=t
    · subst ht
      rw [after_ops_self hops]
      exact advance_reachable _ _ (h.reach t')
    · rw [after_ops_ne ht]
      exact h.reach t'
  waker t' := by
    intro hclear
    by_cases ht : t'=t
    · subst ht
      rw [after_ops_self hops] at hclear
      exact h.waker t' (clearSleeping_advance _ _ (h.reach t') hclear)
    · rw [after_ops_ne ht] at hclear
      exact h.waker t' hclear

/-- The phase changes with the tests of `connect_type` in sleep and wake only. -/
theorem exec_phase (hsleep : op≠.chooseSleep) (hwake : op≠.chooseWake) :
    (exec s op).phase=s.phase := by
  cases op with
  | power l up =>
    cases l with
    | can => rfl
    | rf24 => rw [exec]; split <;> rfl
  | chooseSleep => exact absurd rfl hsleep
  | chooseWake => exact absurd rfl hwake
  | _ => rfl

/-- A call that suits keeps the event of the link set and the other clear. -/
theorem exec_event (hc : InTime s op) (hsuits : op.Suits s.phase s.connectType) :
    (s.event s.connectType=true → (exec s op).event s.connectType=true) ∧
      (s.event s.connectType.other=false → (exec s op).event s.connectType.other=false) := by
  cases op with
  | clearEvent l =>
    refine ⟨fun h => ?_,fun h => ?_⟩
    · rw [exec]
      exact (Function.update_of_ne (Ne.symm hsuits) _ _).trans h
    · change Function.update s.event l false s.connectType.other=false
      rw [Function.update_apply]
      split
      · rfl
      · exact h
  | postEvent l =>
    obtain rfl : l=s.connectType := hsuits
    refine ⟨fun _ => Function.update_self _ _ _,fun h => ?_⟩
    refine (Function.update_of_ne ?_ _ _).trans h
    cases s.connectType <;> decide
  | power l up =>
    rw [exec_power hc]
    exact ⟨id,id⟩
  | _ => exact ⟨id,id⟩

/-- A call that suits keeps the other link off, and the link on while the
handler is not closing. -/
theorem exec_links (hc : InTime s op) (hsuits : op.Suits s.phase s.connectType) :
    (s.power s.connectType.other=false → (exec s op).power s.connectType.other=false) ∧
      (s.phase≠.closing → s.power s.connectType=true →
        (exec s op).power s.connectType=true) := by
  cases op with
  | power l up =>
    rw [exec_power hc]
    dsimp only
    rw [Function.update_apply,Function.update_apply]
    rw [Op.Suits] at hsuits
    refine ⟨fun h => ?_,fun hphase h => ?_⟩
    · split
      · rename_i hl
        split at hsuits
        · exact hsuits.2
        · rw [hsuits,←hl]
          cases s.connectType <;> rfl
      · exact h
    · rw [if_neg hphase] at hsuits
      split
      · rename_i hl
        rw [hsuits,hl]
        exact decide_eq_true rfl
      · exact h
  | _ => exact ⟨id,fun _ => id⟩

/-- The calls of a switch suit its link. -/
theorem switchTo_suits {phase : Phase} (hphase : phase≠.closing) (l : Link) :
    ∀ o∈switchTo l,o.Suits phase l := by
  cases phase with
  | closing => exact absurd rfl hphase
  | awake | opening => cases l <;> decide

/-- The calls of a switch are those that are owed. -/
theorem owed_mem (l : Link) : Op.postEvent l∈switchTo l ∧ Op.clearEvent l.other∈switchTo l ∧
    Op.power l.other false∈switchTo l ∧ Op.power l true∈switchTo l := by
  cases l <;> decide

/-- What suits does so in every phase but the closing. -/
theorem suits_congr {phase phase' : Phase} {l : Link} (hp : phase≠.closing)
    (hp' : phase'≠.closing) (h : o.Suits phase l) : o.Suits phase' l := by
  cases o with
  | chooseSwitch => exact hp'
  | power l' up =>
    rw [Op.Suits,if_neg hp] at h
    rw [Op.Suits,if_neg hp']
    exact h
  | _ => exact h

/-- After a call in time everything to come suits the link. -/
theorem suits_after (h : Linking s) (hshape : Shaped s) (hrest : Resting s)
    (hops : s.ops t=op::rest) (hc : InTime s op) (t' : Thread) :
    ∀ o∈(s.after t op rest).ops t',o.Suits (exec s op).phase s.connectType := by
  intro o ho
  have hhead : op∈s.ops t := by rw [hops]; exact List.mem_cons_self
  rcases mem_after hops ho with hold | hbranch
  · have hsuits := h.suits t' o hold
    by_cases hsleep : op=.chooseSleep
    · subst hsleep
      by_cases hphase : s.phase=.closing
      · rw [hphase] at hsuits
        exact hsuits
      · have hlinks := hc hphase t' o hold
        cases o with
        | chooseSwitch => exact absurd trivial hlinks
        | power l up => exact absurd trivial hlinks
        | _ => exact hsuits
    by_cases hwake : op=.chooseWake
    · subst hwake
      have hclear := waker_ops _ (hshape.reach t) (Or.inr (Or.inr hhead))
      exact suits_congr (hrest.rising t hclear) (show Phase.awake≠.closing by decide) hsuits
    rw [exec_phase hsleep hwake]
    exact hsuits
  · cases op with
    | chooseSwitch => exact switchTo_suits (h.suits t _ hhead) _ o hbranch
    | chooseSleep =>
      rw [List.mem_singleton.mp hbranch]
      exact ⟨rfl,rfl⟩
    | chooseWake =>
      rw [List.mem_singleton.mp hbranch]
      exact (decide_eq_true rfl).symm
    | _ => exact absurd hbranch List.not_mem_nil

/-- A call in time keeps the links right or owed. -/
theorem Linking.after (h : Linking s) (hshape : Shaped s) (hrest : Resting s)
    (hops : s.ops t=op::rest) (hc : InTime s op) : Linking (s.after t op rest) := by
  have hhead : op∈s.ops t := by rw [hops]; exact List.mem_cons_self
  have hsuits := h.suits t op hhead
  have hevent := exec_event hc hsuits
  have hlinks := exec_links hc hsuits
  obtain ⟨hpost,hclear,hoff,hon⟩ := owed_mem s.connectType
  have htype : (s.after t op rest).connectType=s.connectType := exec_connectType s op
  constructor
  · rw [htype]
    exact suits_after h hshape hrest hops hc
  · rw [htype]
    rcases h.eventOn with hset | howed
    · exact Or.inl (hevent.1 hset)
    · by_cases hop : .postEvent s.connectType=op
      · subst hop
        exact Or.inl (Function.update_self _ _ _)
      · exact Or.inr (howed.after hops hop hpost)
  · rw [htype]
    rcases h.eventOff with hset | howed
    · exact Or.inl (hevent.2 hset)
    · by_cases hop : .clearEvent s.connectType.other=op
      · subst hop
        exact Or.inl (Function.update_self _ _ _)
      · exact Or.inr (howed.after hops hop hclear)
  · rw [htype]
    rcases h.powerOff with hset | howed
    · exact Or.inl (hlinks.1 hset)
    · by_cases hop : .power s.connectType.other false=op
      · subst hop
        refine Or.inl ?_
        change (exec s _).power s.connectType.other=false
        rw [exec_power hc]
        exact Function.update_self _ _ _
      · exact Or.inr (howed.after hops hop hoff)
  · rw [htype]
    intro hphase
    by_cases hwake : op=.chooseWake
    · subst hwake
      exact Or.inr (Or.inl (pending_branch hops List.mem_cons_self))
    by_cases hsleep : op=.chooseSleep
    · subst hsleep
      exact absurd hphase (show Phase.closing≠.awake by decide)
    have hawake : s.phase=.awake := (exec_phase hsleep hwake).symm.trans hphase
    rcases h.powerOn hawake with hset | howed
    · exact Or.inl (hlinks.2 (by rw [hawake]; decide) hset)
    · by_cases hop : .power s.connectType true=op
      · subst hop
        refine Or.inl ?_
        change (exec s _).power s.connectType=true
        rw [exec_power hc]
        exact Function.update_self _ _ _
      · exact Or.inr (howed.after hops hop hon)

/-- A call that switches nothing on: what is on was on, and the call did not
switch it off. -/
theorem exec_dims (hc : InTime s op) (hpower : ∀ l,op≠.power l true)
    (hdis : op≠.disPower true) (hhandler : op≠.handlerPower true) :
    (∀ l,(exec s op).power l=true → s.power l=true ∧ op≠.power l false) ∧
      ((exec s op).dis=true → s.dis=true ∧ op≠.disPower false) ∧
      ((exec s op).handler=true → s.handler=true ∧ op≠.handlerPower false) := by
  cases op with
  | power l up =>
    obtain rfl : up=false := by
      cases up with
      | true => exact absurd rfl (hpower l)
      | false => rfl
    rw [exec_power hc]
    refine ⟨fun l' hon => ?_,fun h => ⟨h,nofun⟩,fun h => ⟨h,nofun⟩⟩
    by_cases hl : l'=l
    · subst hl
      exact absurd ((Function.update_self l' false s.power).symm.trans hon) Bool.false_ne_true
    · exact ⟨(Function.update_of_ne hl _ _).symm.trans hon,fun he => hl (Op.power.inj he).1.symm⟩
  | disPower up =>
    cases up with
    | true => exact absurd rfl hdis
    | false => exact ⟨fun _ h => ⟨h,nofun⟩,nofun,fun h => ⟨h,nofun⟩⟩
  | handlerPower up =>
    cases up with
    | true => exact absurd rfl hhandler
    | false => exact ⟨fun _ h => ⟨h,nofun⟩,fun h => ⟨h,nofun⟩,nofun⟩
  | _ => exact ⟨fun _ h => ⟨h,nofun⟩,fun h => ⟨h,nofun⟩,fun h => ⟨h,nofun⟩⟩

/-- While the handler is closing no call switches anything on. -/
theorem closing_ops (hshape : Shaped s) (hlink : Linking s) (hrest : Resting s)
    (hphase : s.phase=.closing) {t : Thread} {op : Op} (hop : op∈s.ops t) :
    (∀ l,op≠.power l true) ∧ op≠.disPower true ∧ op≠.handlerPower true ∧ op≠.chooseWake := by
  have hwaker : ¬(Op.disPower true∈s.ops t ∨ Op.handlerPower true∈s.ops t ∨
      Op.chooseWake∈s.ops t) :=
    fun h => hrest.rising t (waker_ops _ (hshape.reach t) h) hphase
  refine ⟨fun l he => ?_,fun he => ?_,fun he => ?_,fun he => ?_⟩
  · have hsuits := hlink.suits t op hop
    rw [he,Op.Suits,if_pos hphase] at hsuits
    exact absurd hsuits.2 (by decide)
  · exact hwaker (Or.inl (he▸hop))
  · exact hwaker (Or.inr (Or.inl (he▸hop)))
  · exact hwaker (Or.inr (Or.inr (he▸hop)))

/-- A `system_sleep` that tests `connect_type` finds the other link off. -/
theorem other_off (hlink : Linking s) (hc : InTime s .chooseSleep) :
    s.power s.connectType.other=false := by
  refine hlink.powerOff.resolve_right fun howed => ?_
  by_cases hphase : s.phase=.closing
  · rcases howed with ⟨t',ho⟩ | ⟨t',ho⟩
    · have hsuits := hlink.suits t' _ ho
      rw [Op.Suits,if_pos hphase] at hsuits
      cases htype : s.connectType <;> rw [htype] at hsuits <;> exact absurd hsuits.1 (by decide)
    · exact hlink.suits t' _ ho hphase
  · rcases howed with ⟨t',ho⟩ | ⟨t',ho⟩
    · exact hc hphase t' _ ho trivial
    · exact hc hphase t' _ ho trivial

/-- The supplies that a thread will switch off are still among its calls when it
has made one that is none of them. -/
theorem Darkens.after {ops ops' : List Op} (h : Darkens s ops) (hc : InTime s op)
    (hpower : ∀ l,op≠.power l true) (hdis : op≠.disPower true) (hhandler : op≠.handlerPower true)
    (hkeep : ∀ o∈ops,o≠op → o∈ops') : Darkens (exec s op) ops' := by
  obtain ⟨hp,hd,hh⟩ := exec_dims hc hpower hdis hhandler
  constructor
  · intro l hon
    exact hkeep _ (h.power l (hp l hon).1) (Ne.symm (hp l hon).2)
  · intro hon
    exact hkeep _ (h.dis (hd hon).1) (Ne.symm (hd hon).2)
  · intro hon
    exact hkeep _ (h.handler (hh hon).1) (Ne.symm (hh hon).2)

/-- A `system_sleep` under way after a call tested `connect_type` before it or
with it, and will switch all off. -/
theorem closer_after (h : Resting s) (hshape : Shaped s) (hlink : Linking s)
    (hops : s.ops t=op::rest) (hc : InTime s op) {t' : Thread}
    (hcloser : Closer ((s.after t op rest).ops t')) :
    (exec s op).phase=.closing ∧ Darkens (exec s op) ((s.after t op rest).ops t') := by
  have hhead : op∈s.ops t := by rw [hops]; exact List.mem_cons_self
  have hold : Closer (s.ops t') → (exec s op).phase=.closing ∧
      Darkens (exec s op) ((s.after t op rest).ops t') := by
    intro hbefore
    obtain ⟨hphase,hdark⟩ := h.closer t' hbefore
    obtain ⟨hpower,hdis,hhandler,hwake⟩ := closing_ops hshape hlink h hphase hhead
    refine ⟨?_,hdark.after hc hpower hdis hhandler fun o ho hne => ?_⟩
    · by_cases hsleep : op=.chooseSleep
      · rw [hsleep]
        rfl
      · exact (exec_phase hsleep hwake).trans hphase
    · exact mem_ops_after hops ho hne
  by_cases ht : t'=t
  · subst ht
    rw [after_ops_self hops] at hcloser
    rcases closer_advance _ _ (hshape.reach t') hcloser with hbefore | htest
    · exact hold hbefore
    · have htail := tail_chooseSleep _ (hshape.reach t') htest
      rw [hops] at htail
      obtain ⟨rfl,rfl⟩ := List.cons.inj htail
      refine ⟨rfl,?_⟩
      rw [after_ops_self hops,hops]
      constructor
      · intro l hon
        by_cases hl : l=s.connectType
        · rw [hl]
          exact List.mem_cons_self
        · have hother : l=s.connectType.other := by
            revert hl
            cases s.connectType <;> cases l <;> decide
          have hoff := other_off hlink hc
          rw [←hother] at hoff
          exact absurd (hoff.symm.trans hon) Bool.false_ne_true
      · intro _
        exact List.mem_cons_of_mem _ List.mem_cons_self
      · intro _
        exact List.mem_cons_of_mem _ (List.mem_cons_of_mem _ List.mem_cons_self)
  · rw [after_ops_ne ht] at hcloser
    exact hold hcloser

/-- Only `clearSleeping` clears `sleeping`. -/
theorem exec_sleeping (h : s.sleeping=true) (hop : op≠.clearSleeping) :
    (exec s op).sleeping=true := by
  cases op with
  | power l up =>
    cases l with
    | can => exact h
    | rf24 => rw [exec]; split <;> exact h
  | clearSleeping => exact absurd rfl hop
  | setSleeping => rfl
  | _ => exact h

/-- Only the end of a `system_sleep` puts the handler to sleep. -/
theorem exec_asleep (h : (exec s op).asleep=true) : s.asleep=true ∨ op=.pmForce := by
  cases op with
  | power l up =>
    cases l with
    | can => exact Or.inl h
    | rf24 =>
      rw [exec] at h
      split at h <;> exact Or.inl h
  | pmForce => exact Or.inr rfl
  | _ => exact Or.inl h

/-- No branch clears `sleeping`. -/
theorem clearSleeping_of_after {t' : Thread} (hops : s.ops t=op::rest)
    (h : Op.clearSleeping∈(s.after t op rest).ops t') : Op.clearSleeping∈s.ops t' := by
  refine (mem_after hops h).resolve_right fun hbranch => ?_
  cases op with
  | chooseSwitch => cases hl : s.connectType <;> rw [hl] at hbranch <;> revert hbranch <;> decide
  | chooseSleep | chooseWake => exact absurd (List.mem_singleton.mp hbranch) (by nofun)
  | _ => exact absurd hbranch List.not_mem_nil

/-- The handler is dark when a `system_sleep` has come to its end. -/
theorem asleep_after (h : Resting s) (hshape : Shaped s) (hlink : Linking s)
    (hops : s.ops t=op::rest) (hc : InTime s op) (hasleep : (exec s op).asleep=true) :
    (exec s op).phase=.closing ∧ Dark (exec s op) := by
  have hhead : op∈s.ops t := by rw [hops]; exact List.mem_cons_self
  have hdark : s.phase=.closing ∧ Dark s := by
    rcases exec_asleep hasleep with hbefore | rfl
    · exact h.asleep hbefore
    · have htail := tail_pmForce _ (hshape.reach t) (by rw [hops]; rfl)
      have hcloser : Closer (s.ops t) := by
        rw [htail]
        decide
      obtain ⟨hphase,hdark⟩ := h.closer t hcloser
      rw [htail] at hdark
      refine ⟨hphase,fun l => ?_,?_,?_⟩
      · exact Bool.eq_false_iff.mpr fun hon =>
          absurd (List.mem_singleton.mp (hdark.power l hon)) (by nofun)
      · exact Bool.eq_false_iff.mpr fun hon =>
          absurd (List.mem_singleton.mp (hdark.dis hon)) (by nofun)
      · exact Bool.eq_false_iff.mpr fun hon =>
          absurd (List.mem_singleton.mp (hdark.handler hon)) (by nofun)
  obtain ⟨hphase,hoff⟩ := hdark
  obtain ⟨hpower,hdis,hhandler,hwake⟩ := closing_ops hshape hlink h hphase hhead
  obtain ⟨hp,hd,hh⟩ := exec_dims hc hpower hdis hhandler
  refine ⟨?_,fun l => ?_,?_,?_⟩
  · by_cases hsleep : op=.chooseSleep
    · rw [hsleep]
      rfl
    · exact (exec_phase hsleep hwake).trans hphase
  · exact Bool.eq_false_iff.mpr fun hon => absurd ((hp l hon).1) (by rw [hoff.power l]; decide)
  · exact Bool.eq_false_iff.mpr fun hon => absurd ((hd hon).1) (by rw [hoff.dis]; decide)
  · exact Bool.eq_false_iff.mpr fun hon => absurd ((hh hon).1) (by rw [hoff.handler]; decide)

/-- A `system_sleep` that sets `sleeping` or has set it finds no `system_wake`
that will clear it. -/
theorem sleeper_after (h : Resting s) (hshape : Shaped s) (hops : s.ops t=op::rest)
    (hc : InTime s op) {t' : Thread} (hsleeper : Sleeper ((s.after t op rest).ops t')) :
    (exec s op).sleeping=true ∧ ∀ t'',Op.clearSleeping∉(s.after t op rest).ops t'' := by
  have hold : Sleeper (s.ops t') → (exec s op).sleeping=true ∧
      ∀ t'',Op.clearSleeping∉(s.after t op rest).ops t'' := by
    intro hbefore
    obtain ⟨hset,hnone⟩ := h.sleeper t' hbefore
    refine ⟨exec_sleeping hset fun he => hnone t ?_,
      fun t'' hclear => hnone t'' (clearSleeping_of_after hops hclear)⟩
    rw [hops,he]
    exact List.mem_cons_self
  by_cases ht : t'=t
  · subst ht
    rw [after_ops_self hops] at hsleeper
    rcases sleeper_advance _ _ (hshape.reach t') hsleeper with hbefore | hset
    · exact hold hbefore
    · rw [hops] at hset
      obtain rfl := Option.some.inj hset
      exact ⟨rfl,fun t'' hclear => hc t'' (clearSleeping_of_after hops hclear)⟩
  · rw [after_ops_ne ht] at hsleeper
    exact hold hsleeper

/-- While `sleeping` is cleared at the end of a `system_wake` the link is
powered. -/
theorem awake_of_clearSleeping (h : Resting s) (hshape : Shaped s)
    (hops : s.ops t=.clearSleeping::rest) : s.phase=.awake := by
  have hhead : Op.clearSleeping∈s.ops t := by rw [hops]; exact List.mem_cons_self
  cases hphase : s.phase with
  | awake => rfl
  | closing => exact absurd hphase (h.rising t hhead)
  | opening =>
    have hchoose := h.opening hphase
    rw [←hshape.waker t hhead] at hchoose
    exact absurd hchoose (tail_clearSleeping _ (hshape.reach t) (by rw [hops]; rfl))

/-- A thread that is to test `connect_type` in a `system_sleep` is asleep. -/
theorem sleeper_of_chooseSleep (hshape : Shaped s) (hops : s.ops t=.chooseSleep::rest) :
    Sleeper (s.ops t) := by
  rw [tail_chooseSleep _ (hshape.reach t) (by rw [hops]; rfl)]
  decide

/-- A call in time keeps the order of sleep and wake. -/
theorem Resting.after (h : Resting s) (hshape : Shaped s) (hlink : Linking s)
    (hops : s.ops t=op::rest) (hc : InTime s op) : Resting (s.after t op rest) where
  closer t' hcloser := by
    obtain ⟨hphase,hdark⟩ := closer_after h hshape hlink hops hc hcloser
    exact ⟨hphase,hdark.power,hdark.dis,hdark.handler⟩
  asleep hasleep := by
    obtain ⟨hphase,hdark⟩ := asleep_after h hshape hlink hops hc hasleep
    exact ⟨hphase,hdark.power,hdark.dis,hdark.handler⟩
  flag hphase := by
    by_cases hclear : op=.clearSleeping
    · subst hclear
      exact absurd (awake_of_clearSleeping h hshape hops) hphase
    refine exec_sleeping ?_ hclear
    by_cases hsleep : op=.chooseSleep
    · subst hsleep
      exact (h.sleeper t (sleeper_of_chooseSleep hshape hops)).1
    · by_cases hwake : op=.chooseWake
      · subst hwake
        exact absurd rfl hphase
      · exact h.flag fun he => hphase ((exec_phase hsleep hwake).trans he)
  sleeper t' := sleeper_after h hshape hops hc
  rising t' hclear := by
    have hold := clearSleeping_of_after hops hclear
    by_cases hsleep : op=.chooseSleep
    · subst hsleep
      exact absurd hold ((h.sleeper t (sleeper_of_chooseSleep hshape hops)).2 t')
    · by_cases hwake : op=.chooseWake
      · subst hwake
        exact (show Phase.awake≠.closing by decide)
      · exact fun he => h.rising t' hold ((exec_phase hsleep hwake).symm.trans he)
  opening hphase := by
    by_cases hsleep : op=.chooseSleep
    · subst hsleep
      exact absurd hphase (show Phase.closing≠.opening by decide)
    by_cases hwake : op=.chooseWake
    · subst hwake
      exact absurd hphase (show Phase.awake≠.opening by decide)
    have hchoose := h.opening ((exec_phase hsleep hwake).symm.trans hphase)
    exact mem_ops_after hops hchoose (Ne.symm hwake)

end Steps

section Runs

/-- The invariant of the handler. -/
structure Kept (s : Handler) : Prop where
  /-- What the threads have to do. -/
  shaped : Shaped s
  /-- The links. -/
  linking : Linking s
  /-- Sleep and wake. -/
  resting : Resting s

variable {s : Handler} {t : Thread} {q : List Op} {o : Op}

/-- What the thread has to do when it goes on. -/
theorem goes_ops_self (s : Handler) (t : Thread) (q : List Op) : (s.goes t q).ops t=q := by
  exact Function.update_self t _ _

/-- What the others have to do. -/
theorem goes_ops_ne {t' : Thread} (h : t'≠t) : (s.goes t q).ops t'=s.ops t' := by
  exact Function.update_of_ne h _ _

/-- A property of what every thread has to do, when one goes on. -/
theorem forall_goes {P : Thread → List Op → Prop} (h : ∀ t',t'≠t → P t' (s.ops t')) (hq : P t q)
    (t' : Thread) : P t' ((s.goes t q).ops t') := by
  by_cases ht : t'=t
  · rw [ht,goes_ops_self]
    exact hq
  · rw [goes_ops_ne ht]
    exact h t' ht

/-- What is owed stays so when a thread that had nothing to do begins. -/
theorem Owed.goes (hidle : s.ops t=[]) (h : Owed s o) : Owed (s.goes t q) o := by
  have hpending : ∀ o,Pending s o → Pending (s.goes t q) o := by
    rintro o ⟨t',ho⟩
    refine ⟨t',?_⟩
    have ht : t'≠t := by
      rintro rfl
      rw [hidle] at ho
      exact absurd ho List.not_mem_nil
    rw [goes_ops_ne ht]
    exact ho
  exact h.imp (hpending o) (hpending .chooseSwitch)

/-- A function begins that keeps the shape. -/
theorem Shaped.goes (h : Shaped s) (hq : q∈reachable) (hwork : Op.clearSleeping∈q → t=.work) :
    Shaped (s.goes t q) where
  reach := forall_goes (P := fun _ q => q∈reachable) (fun t' _ => h.reach t') hq
  waker := forall_goes (P := fun t' q => Op.clearSleeping∈q → t'=.work)
    (fun t' _ => h.waker t') hwork

/-- A function begins that does nothing against the link. -/
theorem Linking.goes (h : Linking s) (hidle : s.ops t=[])
    (hsuits : ∀ o∈q,o.Suits s.phase s.connectType) : Linking (s.goes t q) where
  suits := forall_goes (P := fun _ q => ∀ o∈q,o.Suits s.phase s.connectType)
    (fun t' _ => h.suits t') hsuits
  eventOn := h.eventOn.imp_right (Owed.goes hidle)
  eventOff := h.eventOff.imp_right (Owed.goes hidle)
  powerOff := h.powerOff.imp_right (Owed.goes hidle)
  powerOn hphase := (h.powerOn hphase).imp_right (Owed.goes hidle)

/-- A function begins that is no part of a `system_sleep` under way or of a
`system_wake`. -/
theorem Resting.goes (h : Resting s) (hidle : s.ops t=[]) (hsleeper : ¬Sleeper q)
    (hclear : Op.clearSleeping∉q) : Resting (s.goes t q) where
  closer := forall_goes (P := fun _ q' => Closer q' →
      (s.goes t q).phase=.closing ∧ Darkens (s.goes t q) q')
    (fun t' _ hcloser => by
      obtain ⟨hphase,hdark⟩ := h.closer t' hcloser
      exact ⟨hphase,hdark.power,hdark.dis,hdark.handler⟩)
    (fun hcloser => absurd hcloser.1 hsleeper)
  asleep hasleep := by
    obtain ⟨hphase,hdark⟩ := h.asleep hasleep
    exact ⟨hphase,hdark.power,hdark.dis,hdark.handler⟩
  flag := h.flag
  sleeper := forall_goes (P := fun _ q' => Sleeper q' →
      s.sleeping=true ∧ ∀ t',Op.clearSleeping∉(s.goes t q).ops t')
    (fun t' _ hs => ⟨(h.sleeper t' hs).1,forall_goes (P := fun _ q => Op.clearSleeping∉q)
      (fun t'' _ => (h.sleeper t' hs).2 t'') hclear⟩)
    (fun hs => absurd hs hsleeper)
  rising := forall_goes (P := fun _ q => Op.clearSleeping∈q → s.phase≠.closing)
    (fun t' _ => h.rising t') (fun hmem => absurd hmem hclear)
  opening hphase := by
    have hchoose := h.opening hphase
    by_cases ht : .work=t
    · rw [ht,hidle] at hchoose
      exact absurd hchoose List.not_mem_nil
    · rw [goes_ops_ne ht]
      exact hchoose

/-- A `system_sleep` begins. -/
theorem Kept.sleeps (h : Kept s) (hidle : s.ops t=[])
    (hq : q=systemSleep ∨ q=.call::systemSleep) : Kept (s.goes t q) := by
  have hfacts : q∈reachable ∧ ¬Sleeper q ∧ Op.clearSleeping∉q := by
    rcases hq with rfl | rfl <;> decide
  have hsuits : ∀ phase type,∀ o∈q,o.Suits phase type := by
    intro phase type o ho
    rcases hq with rfl | rfl <;>
      · simp only [systemSleep,List.mem_cons,List.not_mem_nil,or_false] at ho
        rcases ho with rfl | rfl | rfl | rfl | rfl | rfl | rfl | rfl <;> trivial
  exact ⟨h.shaped.goes hfacts.1 fun hmem => absurd hmem hfacts.2.2,
    h.linking.goes hidle (hsuits _ _),h.resting.goes hidle hfacts.2.1 hfacts.2.2⟩

/-- A switch begins. -/
theorem Kept.switches (h : Kept s) (hidle : s.ops t=[]) {l : Link} (hmay : MaySwitch s l) :
    Kept (s.switches t l) where
  shaped := by
    have hshape : Shaped {s with connectType := l} := ⟨h.shaped.reach,h.shaped.waker⟩
    exact hshape.goes (by decide) fun hmem => absurd hmem (by decide)
  linking := by
    have howed : ∀ o,Owed (s.switches t l) o := by
      intro o
      refine Or.inr ⟨t,?_⟩
      rw [Handler.switches,goes_ops_self]
      exact List.mem_singleton_self _
    constructor
    · refine forall_goes (P := fun _ q => ∀ o∈q,o.Suits s.phase l) (fun t' _ => hmay.2 t') ?_
      intro o ho
      rw [List.mem_singleton.mp ho]
      exact hmay.1
    · exact Or.inr (howed _)
    · exact Or.inr (howed _)
    · exact Or.inr (howed _)
    · exact fun _ => Or.inr (howed _)
  resting := by
    have hrest : Resting {s with connectType := l} := by
      refine ⟨fun t' hc => ?_,fun ha => ?_,h.resting.flag,h.resting.sleeper,h.resting.rising,
        h.resting.opening⟩
      · exact absurd (h.resting.closer t' hc).1 hmay.1
      · exact absurd (h.resting.asleep ha).1 hmay.1
    exact hrest.goes hidle (by decide) (by decide)

/-- What suits while the handler is closing and no `system_sleep` is under way
suits when it opens. -/
theorem suits_opening (h : Kept s) (hnone : ∀ t,¬Sleeper (s.ops t)) (ho : o∈s.ops t) :
    o.Suits .opening s.connectType := by
  have hsuits := h.linking.suits t o ho
  by_cases hphase : s.phase=.closing
  · rw [hphase] at hsuits
    cases o with
    | chooseSwitch => exact absurd rfl hsuits
    | power l up =>
      obtain ⟨-,rfl⟩ := hsuits
      have hother := (power_false_ops l _ (h.shaped.reach t) ho).resolve_left (hnone t)
      have hup := h.linking.suits t _ hother
      rw [hphase] at hup
      exact absurd hup.2 (by decide)
    | _ => exact hsuits
  · exact suits_congr hphase (by decide) hsuits

/-- A `system_wake` begins. -/
theorem Kept.wakes (h : Kept s) (hidle : s.ops .work=[]) (hsleeping : s.sleeping=true)
    (hnone : ∀ t,¬Sleeper (s.ops t)) : Kept s.wakes where
  shaped := by
    have hshape : Shaped {s with waking := true, phase := .opening, asleep := false} :=
      ⟨h.shaped.reach,h.shaped.waker⟩
    exact hshape.goes (by decide) fun _ => rfl
  linking := by
    have hlink : Linking {s with waking := true, phase := .opening, asleep := false} :=
      ⟨fun t o ho => suits_opening (s := s) (t := t) h hnone ho,h.linking.eventOn,
        h.linking.eventOff,h.linking.powerOff,
        fun hphase => absurd hphase (show Phase.opening≠.awake by decide)⟩
    refine hlink.goes hidle fun o ho => ?_
    simp only [systemWake,List.mem_cons,List.not_mem_nil,or_false] at ho
    rcases ho with rfl | rfl | rfl | rfl | rfl | rfl | rfl | rfl | rfl <;> trivial
  resting := by
    refine ⟨?_,nofun,fun _ => hsleeping,?_,fun _ _ => nofun,fun _ => ?_⟩
    · exact forall_goes (P := fun _ q => Closer q → s.wakes.phase=.closing ∧ Darkens s.wakes q)
        (fun t' _ hc => absurd hc.1 (hnone t')) (fun hc => absurd hc (by decide))
    · exact forall_goes (P := fun _ q => Sleeper q →
          s.wakes.sleeping=true ∧ ∀ t',Op.clearSleeping∉s.wakes.ops t')
        (fun t' _ hs => absurd hs (hnone t')) (fun hs => absurd hs (by decide))
    · rw [Handler.wakes,goes_ops_self]
      decide

/-- What is scheduled has no part in the invariant. -/
theorem Kept.schedule (h : Kept s) (link sleep : Bool) :
    Kept {s with linkPending := link, sleepPending := sleep} where
  shaped := ⟨h.shaped.reach,h.shaped.waker⟩
  linking := ⟨h.linking.suits,h.linking.eventOn,h.linking.eventOff,h.linking.powerOff,
    h.linking.powerOn⟩
  resting := by
    refine ⟨fun t' hc => ?_,fun ha => ?_,h.resting.flag,h.resting.sleeper,h.resting.rising,
      h.resting.opening⟩
    · obtain ⟨hphase,hdark⟩ := h.resting.closer t' hc
      exact ⟨hphase,hdark.power,hdark.dis,hdark.handler⟩
    · obtain ⟨hphase,hdark⟩ := h.resting.asleep ha
      exact ⟨hphase,hdark.power,hdark.dis,hdark.handler⟩

/-- An event in time keeps the invariant. -/
theorem Kept.next (h : Kept s) {e : Event} (hc : Careful s e) : Kept (next s e) := by
  cases e with
  | linkswIrq =>
    rw [HandlerPower.next]
    split
    · exact h
    · exact h.schedule true s.sleepPending
  | powerIrq => exact h.schedule s.linkPending true
  | linkswWork pressed =>
    rw [HandlerPower.next]
    split
    · rename_i hready
      dsimp only
      split
      · rename_i hpressed
        exact (h.schedule false s.sleepPending).switches hready.1
          (hc hready.1 hready.2 hpressed)
      · exact h.schedule false s.sleepPending
    · exact h
  | sleepWork pressed =>
    rw [HandlerPower.next]
    split
    · rename_i hready
      dsimp only
      split
      · rename_i hwake
        exact (h.schedule s.linkPending false).wakes hready.1 hwake.2.1
          (hc hready.1 hready.2 hwake.1 hwake.2.1 hwake.2.2)
      · exact h.schedule s.linkPending false
    · exact h
  | shellLink l =>
    rw [HandlerPower.next]
    split
    · rename_i hidle
      exact h.switches hidle (hc hidle)
    · exact h
  | shellSleep =>
    rw [HandlerPower.next]
    split
    · rename_i hidle
      exact h.sleeps hidle.1 (Or.inr rfl)
    · exact h
  | timeout =>
    rw [HandlerPower.next]
    split
    · rename_i hidle
      exact h.sleeps hidle.1 (Or.inl rfl)
    · exact h
  | run t =>
    simp only [HandlerPower.next]
    cases hops : s.ops t with
    | nil => exact h
    | cons op rest =>
      have htime : InTime s op := hc op (by rw [hops]; rfl)
      exact ⟨h.shaped.after hops,h.linking.after h.shaped h.resting hops htime,
        h.resting.after h.shaped h.linking hops htime⟩

/-- The supplies are right when the invariant holds. -/
theorem Kept.right (h : Kept s) : Right s where
  asleep hasleep := (h.resting.asleep hasleep).2
  awake hsleeping hsettled := by
    have hphase : s.phase=.awake := by
      by_contra hne
      rw [h.resting.flag hne] at hsleeping
      exact absurd hsleeping (by decide)
    have hpaid : ∀ o : Op,o.Links → ¬Owed s o := by
      rintro o hlinks (⟨t,ho⟩ | ⟨t,ho⟩)
      · exact hsettled t o ho hlinks
      · exact hsettled t _ ho trivial
    have hcases : ∀ l : Link,l=s.connectType ∨ l=s.connectType.other := by
      intro l
      cases l <;> cases s.connectType <;> decide
    have hother : s.connectType.other≠s.connectType := by
      cases s.connectType <;> decide
    constructor
    · intro l
      rcases hcases l with rfl | rfl
      · rw [decide_eq_true rfl]
        exact (h.linking.powerOn hphase).resolve_right (hpaid _ trivial)
      · rw [decide_eq_false hother]
        exact h.linking.powerOff.resolve_right (hpaid _ trivial)
    · intro l
      rcases hcases l with rfl | rfl
      · rw [decide_eq_true rfl]
        exact h.linking.eventOn.resolve_right (hpaid _ trivial)
      · rw [decide_eq_false hother]
        exact h.linking.eventOff.resolve_right (hpaid _ trivial)

/-- The invariant holds after the boot. -/
theorem kept_boot (type : Link) (ready radio : Bool) : Kept (boot type ready radio) := by
  have howed : ∀ o,Owed (boot type ready radio) o :=
    fun o => Or.inr ⟨.main,List.mem_singleton_self _⟩
  have hops : ∀ t,(boot type ready radio).ops t=connectSwitch ∨
      (boot type ready radio).ops t=[] := by
    intro t
    cases t with
    | main => exact Or.inl rfl
    | shell | work => exact Or.inr rfl
  have hall : ∀ P : List Op → Prop,P connectSwitch → P [] →
      ∀ t,P ((boot type ready radio).ops t) := by
    intro P hswitch hnil t
    rcases hops t with h | h <;> rw [h] <;> assumption
  refine ⟨⟨hall _ (by decide) (by decide),fun t hm => ?_⟩,⟨?_,Or.inr (howed _),Or.inr (howed _),
    Or.inr (howed _),fun _ => Or.inr (howed _)⟩,⟨fun t hc => ?_,nofun,
    fun hphase => absurd rfl hphase,fun t hs => ?_,fun t hm => ?_,nofun⟩⟩
  · exact absurd hm (hall (Op.clearSleeping∉·) (by decide) (by decide) t)
  · refine hall (fun q => ∀ o∈q,o.Suits .awake type) (fun o ho => ?_) (fun o ho => ?_)
    · rw [List.mem_singleton.mp ho]
      exact (by decide : Phase.awake≠.closing)
    · exact absurd ho List.not_mem_nil
  · exact absurd hc (hall (¬Closer ·) (by decide) (by decide) t)
  · exact absurd hs (hall (¬Sleeper ·) (by decide) (by decide) t)
  · exact absurd hm (hall (Op.clearSleeping∉·) (by decide) (by decide) t)

/-- In every run whose events come in time, whatever the link and the radio at
the boot, the supplies are right in every state. -/
theorem power_right (type : Link) (ready radio : Bool) {es : List Event}
    (hc : AlongRun next Careful (boot type ready radio) es) :
    Throughout next Right (boot type ready radio) es := by
  have hkept : Throughout next Kept (boot type ready radio) es :=
    throughout_of_invariant (fun _ _ h hc => h.next hc) (kept_boot type ready radio) hc
  exact hkept.mono fun _ h => h.right

/-- A thread makes a number of calls. -/
def runs (t : Thread) (n : ℕ) : List Event := List.replicate n (.run t)

/-- The boot, a switch to the radio, a sleep after the timeout, the power button
and a switch back with the link switch. -/
def sampleRun : List Event :=
  runs .main 7++.shellLink .rf24::runs .shell 7++.timeout::runs .main 8++
    [.linkswIrq,.powerIrq,.sleepWork true]++runs .work 10++
    [.linkswIrq,.linkswWork true]++runs .work 7

/-- The supplies are right throughout the sample run. -/
theorem power_right_sample : Throughout next Right (boot .can true false) sampleRun :=
  power_right .can true false (by decide)

/-- The radio is powered while the handler is asleep when `link rf24` runs after
`system_sleep` has tested `connect_type`. The link is off while the handler is
awake when the power button is pressed during the wait in `system_sleep`. -/
theorem power_wrong :
    ¬Throughout next Right (boot .can true false)
      (runs .main 7++.timeout::runs .main 4++.shellLink .rf24::runs .shell 7++runs .main 4) ∧
    ¬Throughout next Right (boot .can true false)
      (runs .main 7++.timeout::runs .main 2++[.powerIrq,.sleepWork true]++runs .work 10++
        runs .main 6) := by
  constructor
  · intro h
    exact absurd ((h.last.asleep (by decide)).power .rf24) (by decide)
  · intro h
    exact absurd ((h.last.awake (by decide) (by decide)).power .can) (by decide)

end Runs

end ZephyrApp.HandlerPower

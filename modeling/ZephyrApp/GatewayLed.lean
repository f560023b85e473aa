import ZephyrApp.EventRuns
import ZephyrApp.MachineBytes

/-!
# The status lamps of the gateway

Any number of threads report radio activity while the work queue runs the blinking of
the activity lamp and the self-test of the error lamp. Every load and store of the shared
variables, every access to a lamp and every submission of work is a step of its own, and
the steps of threads and handlers interleave in any order.
-/

namespace ZephyrApp.GatewayLed

open MachineBytes EventRuns

/-- `RF24_BLINK_HALF_PERIOD_MS`. -/
def rf24BlinkHalfPeriodMs : ℕ := 100

/-- `RF24_ACTIVITY_TIMEOUT_MS`. -/
def rf24ActivityTimeoutMs : Word := 400

/-- `ERR_SELFTEST_MS`. -/
def errSelftestMs : ℕ := 150

/-- Where a thread is in `gw_led_rf24_activity`. -/
inductive ActivityPc where
  /-- Not in a call. -/
  | idle
  /-- The uptime has been read. -/
  | timed (now : Word)
  /-- `rf24_last_activity` has been stored. -/
  | stored
  /-- `blinking` has been read as false. -/
  | claiming
  /-- `blinking` has been set. -/
  | claimed
  /-- The lamp has been switched off. -/
  | dark
  deriving DecidableEq

/-- Where the work queue is in `led_blink_work_handler`. -/
inductive BlinkPc where
  /-- The handler does not run. -/
  | idle
  /-- The handler has been entered. -/
  | entered
  /-- The uptime has been read. -/
  | timed (now : Word)
  /-- The activity is recent. -/
  | active
  /-- The level of the lamp has been read. -/
  | read (cur : Bool)
  /-- The lamp has been toggled. -/
  | toggled
  /-- The activity has timed out. -/
  | silent
  /-- The lamp has been switched on for good. -/
  | lit
  deriving DecidableEq

/-- Where a thread is in `gw_led_error_on`. -/
inductive ErrorPc where
  /-- Not in a call. -/
  | idle
  /-- `error_latched` has been set. -/
  | latched
  deriving DecidableEq

/-- `struct k_work_delayable`. An item may be in the queue and delayed at once. -/
structure Delayable where
  /-- What is left of the delay, if the item is delayed. -/
  delay : Option ℕ
  /-- The item is in the queue. -/
  queued : Bool
  deriving DecidableEq

section WorkItems

/-- `k_work_reschedule`, which leaves an item in the queue. -/
def Delayable.reschedule (w : Delayable) (ms : ℕ) : Delayable := {w with delay := some ms}

/-- Time passes. An item whose delay ends goes into the queue. -/
def Delayable.pass (w : Delayable) (ms : ℕ) : Delayable :=
  match w.delay with
  | none => w
  | some left => if left ≤ ms then ⟨none,true⟩ else ⟨some (left-ms),w.queued⟩

/-- The work queue takes the item to run it. -/
def Delayable.taken (w : Delayable) : Delayable := {w with queued := false}

/-- The item is delayed or in the queue. -/
def Delayable.Pending (w : Delayable) : Prop := w.delay≠none ∨ w.queued=true

/-- The time until the item runs next. -/
def Delayable.wait (w : Delayable) : Option ℕ := if w.queued then some 0 else w.delay

/-- An item that was rescheduled is pending. -/
theorem Delayable.pending_reschedule (w : Delayable) (ms : ℕ) : (w.reschedule ms).Pending :=
  Or.inl (Option.some_ne_none ms)

/-- Time does not lose an item. -/
theorem Delayable.Pending.pass {w : Delayable} (h : w.Pending) (ms : ℕ) : (w.pass ms).Pending := by
  rw [Delayable.pass]
  split
  · exact h
  · split
    · exact Or.inr rfl
    · exact Or.inl (Option.some_ne_none _)

/-- An item without a wait is nowhere. -/
theorem Delayable.not_pending_iff (w : Delayable) : ¬w.Pending ↔ w.wait=none := by
  obtain ⟨delay,queued⟩ := w
  cases queued <;> simp [Delayable.Pending,Delayable.wait]

/-- After its wait an item is in the queue, and delayed only if it was both. -/
theorem Delayable.pass_wait {w : Delayable} {left : ℕ} (h : w.wait=some left) :
    (w.pass left).queued=true ∧ (w.queued=false → (w.pass left).delay=none) := by
  obtain ⟨delay,queued⟩ := w
  rw [Delayable.wait] at h
  cases queued with
  | true =>
    rw [Delayable.pass]
    refine ⟨?_,fun hfree => Bool.noConfusion hfree⟩
    split
    · rfl
    · split <;> rfl
  | false =>
    obtain rfl : delay=some left := h
    rw [Delayable.pass]
    simp

end WorkItems

/-- The lamps, the shared variables and the work items. -/
structure Led (ι : Type) where
  /-- Milliseconds since the start. -/
  uptime : ℕ
  /-- The activity lamp. -/
  ledRf24 : Bool
  /-- The error lamp. -/
  ledErr : Bool
  /-- The system lamp. -/
  ledSys : Bool
  /-- `rf24_last_activity`. -/
  rf24LastActivity : Word
  /-- `blinking`. -/
  blinking : Bool
  /-- `error_latched`. -/
  errorLatched : Bool
  /-- `led_blink_work`. -/
  ledBlinkWork : Delayable
  /-- `err_selftest_work`. -/
  errSelftestWork : Delayable
  /-- The place in the blink handler. -/
  handler : BlinkPc
  /-- The places of the threads that report activity. -/
  callers : ι → ActivityPc
  /-- The places of the threads that report errors. -/
  reporters : ι → ErrorPc

/-- `k_uptime_get_32`. -/
def Led.kUptimeGet32 {ι : Type} (s : Led ι) : Word := BitVec.ofNat 32 s.uptime

/-- What happens next. -/
inductive LedEvent (ι : Type) where
  /-- A thread goes on in `gw_led_rf24_activity`, or calls it. -/
  | activity (i : ι)
  /-- The work queue goes on in the blink handler, or enters it when it is queued. -/
  | blink
  /-- The work queue runs `err_selftest_work_handler` when it is queued. -/
  | selftest
  /-- A thread goes on in `gw_led_error_on`, or calls it. -/
  | errorOn (i : ι)
  /-- `gw_led_sys_on`. -/
  | sysOn
  /-- Time passes. -/
  | pass (ms : ℕ)

section Steps

variable {ι : Type} [DecidableEq ι]

/-- `gw_led_init`. -/
def gwLedInit (uptime : ℕ) : Led ι where
  uptime := uptime
  ledRf24 := true
  ledErr := true
  ledSys := false
  rf24LastActivity := 0
  blinking := false
  errorLatched := false
  ledBlinkWork := ⟨none,false⟩
  errSelftestWork := ⟨some errSelftestMs,false⟩
  handler := .idle
  callers := fun _ => .idle
  reporters := fun _ => .idle

/-- A thread reaches the next place of its call. -/
def Led.goes (s : Led ι) (i : ι) (pc : ActivityPc) : Led ι :=
  {s with callers := Function.update s.callers i pc}

/-- The next step of `gw_led_rf24_activity`. -/
def gwLedRf24Activity (s : Led ι) (i : ι) : Led ι :=
  match s.callers i with
  | .idle => s.goes i (.timed s.kUptimeGet32)
  | .timed now => {s.goes i .stored with rf24LastActivity := now}
  | .stored => s.goes i (if s.blinking then .idle else .claiming)
  | .claiming => {s.goes i .claimed with blinking := true}
  | .claimed => {s.goes i .dark with ledRf24 := false}
  | .dark =>
    {s.goes i .idle with ledBlinkWork := s.ledBlinkWork.reschedule rf24BlinkHalfPeriodMs}

/-- The next step of `led_blink_work_handler`. -/
def ledBlinkWorkHandler (s : Led ι) : Led ι :=
  match s.handler with
  | .idle =>
    if s.ledBlinkWork.queued then
      {s with ledBlinkWork := s.ledBlinkWork.taken,handler := .entered}
    else s
  | .entered => {s with handler := .timed s.kUptimeGet32}
  | .timed now =>
    {s with handler :=
      if now-s.rf24LastActivity < rf24ActivityTimeoutMs then .active else .silent}
  | .active => {s with handler := .read s.ledRf24}
  | .read cur => {s with ledRf24 := !cur,handler := .toggled}
  | .toggled =>
    {s with ledBlinkWork := s.ledBlinkWork.reschedule rf24BlinkHalfPeriodMs,handler := .idle}
  | .silent => {s with ledRf24 := true,handler := .lit}
  | .lit => {s with blinking := false,handler := .idle}

/-- `err_selftest_work_handler`. -/
def errSelftestWorkHandler (s : Led ι) : Led ι :=
  if s.errSelftestWork.queued then
    {s with ledErr := false,errSelftestWork := s.errSelftestWork.taken}
  else s

/-- The next step of `gw_led_error_on`. -/
def gwLedErrorOn (s : Led ι) (i : ι) : Led ι :=
  match s.reporters i with
  | .idle => {s with errorLatched := true,reporters := Function.update s.reporters i .latched}
  | .latched => {s with ledErr := true,reporters := Function.update s.reporters i .idle}

/-- One step. -/
def ledNext (s : Led ι) : LedEvent ι → Led ι
  | .activity i => gwLedRf24Activity s i
  | .blink => ledBlinkWorkHandler s
  | .selftest => errSelftestWorkHandler s
  | .errorOn i => gwLedErrorOn s i
  | .sysOn => {s with ledSys := true}
  | .pass ms =>
    {s with
      uptime := s.uptime+ms
      ledBlinkWork := s.ledBlinkWork.pass ms
      errSelftestWork := s.errSelftestWork.pass ms}

end Steps

/-- The handler runs and will still switch the lamp on or submit itself again. -/
def BlinkPc.Owes : BlinkPc → Prop
  | .idle => False
  | .lit => False
  | _ => True

section Blinking

variable {ι : Type} [DecidableEq ι] {s : Led ι}

/-- Someone answers for a dark lamp and for the flag of blinking: a pending item, the
running handler, or a thread that is about to schedule the item. -/
structure Answered (s : Led ι) : Prop where
  /-- A dark lamp. -/
  dark : s.ledRf24=false → s.ledBlinkWork.Pending ∨ s.handler.Owes ∨ ∃ i,s.callers i=.dark
  /-- The flag of blinking. -/
  blinking : s.blinking=true →
    s.ledBlinkWork.Pending ∨ s.handler≠.idle ∨ ∃ i,s.callers i=.claimed ∨ s.callers i=.dark

/-- No thread is in a call, the handler does not run, is not queued and not delayed. -/
structure Quiescent (s : Led ι) : Prop where
  /-- Nothing is pending. -/
  work : ¬s.ledBlinkWork.Pending
  /-- The handler does not run. -/
  handler : s.handler=.idle
  /-- No thread is in a call. -/
  callers : ∀ i,s.callers i=.idle

omit [DecidableEq ι] in
/-- After the initialisation the lamp is on and nothing blinks. -/
theorem answered_init (uptime : ℕ) : Answered (gwLedInit uptime : Led ι) where
  dark h := absurd h (by simp [gwLedInit])
  blinking h := absurd h (by simp [gwLedInit])

/-- The thread is where it went. -/
theorem goes_self (s : Led ι) (i : ι) (pc : ActivityPc) : (s.goes i pc).callers i=pc :=
  Function.update_self (β := fun _ => ActivityPc) i pc s.callers

/-- A thread that was elsewhere leaves those who answer where they are. -/
theorem exists_goes {P : ActivityPc → Prop} {i : ι} (pc : ActivityPc) (hnot : ¬P (s.callers i))
    (h : ∃ j,P (s.callers j)) : ∃ j,P ((s.goes i pc).callers j) := by
  obtain ⟨j,hj⟩ := h
  have hne : j≠i := fun heq => hnot (heq ▸ hj)
  refine ⟨j,?_⟩
  have hsame : (s.goes i pc).callers j=s.callers j :=
    Function.update_of_ne (β := fun _ => ActivityPc) hne pc s.callers
  rw [hsame]
  exact hj

/-- A thread that does not answer for anything may go on. -/
theorem Answered.goes (h : Answered s) {i : ι} (pc : ActivityPc) (hdark : s.callers i≠.dark)
    (hclaimed : s.callers i≠.claimed) : Answered (s.goes i pc) where
  dark hoff := (h.dark hoff).imp_right (Or.imp_right
    (exists_goes (P := fun p => p=.dark) pc hdark))
  blinking hon := (h.blinking hon).imp_right (Or.imp_right
    (exists_goes (P := fun p => p=.claimed ∨ p=.dark) pc (not_or.mpr ⟨hclaimed,hdark⟩)))

/-- A thread's step keeps everything answered for. -/
theorem activity_answered (h : Answered s) (i : ι) : Answered (gwLedRf24Activity s i) := by
  unfold gwLedRf24Activity
  split
  · rename_i hpc
    exact h.goes _ (by rw [hpc]; decide) (by rw [hpc]; decide)
  · rename_i now hpc
    have hgoes := h.goes (i := i) .stored (by simp [hpc]) (by simp [hpc])
    exact ⟨hgoes.dark,hgoes.blinking⟩
  · rename_i hpc
    exact h.goes _ (by rw [hpc]; decide) (by rw [hpc]; decide)
  · rename_i hpc
    have hgoes := h.goes (i := i) .claimed (by rw [hpc]; decide) (by rw [hpc]; decide)
    exact ⟨hgoes.dark,fun _ => Or.inr (Or.inr ⟨i,Or.inl (goes_self s i _)⟩)⟩
  · exact ⟨fun _ => Or.inr (Or.inr ⟨i,goes_self s i _⟩),
      fun _ => Or.inr (Or.inr ⟨i,Or.inr (goes_self s i _)⟩)⟩
  · exact ⟨fun _ => Or.inl (Delayable.pending_reschedule _ _),
      fun _ => Or.inl (Delayable.pending_reschedule _ _)⟩

omit [DecidableEq ι] in
/-- The handler's step keeps everything answered for. -/
theorem blink_answered (h : Answered s) : Answered (ledBlinkWorkHandler s) := by
  have hidle : ∀ t : Led ι,t.handler≠.idle → t.handler.Owes → Answered t := fun t hne howes =>
    ⟨fun _ => Or.inr (Or.inl howes),fun _ => Or.inr (Or.inl hne)⟩
  unfold ledBlinkWorkHandler
  split
  · split
    · exact hidle _ (fun h => BlinkPc.noConfusion h) trivial
    · exact h
  · exact hidle _ (fun h => BlinkPc.noConfusion h) trivial
  · refine hidle _ ?_ ?_ <;> dsimp only <;> split
    · exact fun h => BlinkPc.noConfusion h
    · exact fun h => BlinkPc.noConfusion h
    · trivial
    · trivial
  · exact hidle _ (fun h => BlinkPc.noConfusion h) trivial
  · exact hidle _ (fun h => BlinkPc.noConfusion h) trivial
  · exact ⟨fun _ => Or.inl (Delayable.pending_reschedule _ _),
      fun _ => Or.inl (Delayable.pending_reschedule _ _)⟩
  · exact ⟨fun hoff => Bool.noConfusion hoff,
      fun _ => Or.inr (Or.inl fun h => BlinkPc.noConfusion h)⟩
  · rename_i hpc
    refine ⟨fun hoff => ?_,fun hon => Bool.noConfusion hon⟩
    have hdark := h.dark hoff
    rw [hpc] at hdark
    exact hdark.imp_right fun hrest => hrest.imp_left fun hfalse => False.elim hfalse

/-- Every step keeps everything answered for. -/
theorem answered_next (s : Led ι) (e : LedEvent ι) (h : Answered s) : Answered (ledNext s e) := by
  cases e with
  | activity i => exact activity_answered h i
  | blink => exact blink_answered h
  | selftest =>
    rw [ledNext,errSelftestWorkHandler]
    split
    · exact ⟨h.dark,h.blinking⟩
    · exact h
  | errorOn i =>
    rw [ledNext,gwLedErrorOn]
    split
    · exact ⟨h.dark,h.blinking⟩
    · exact ⟨h.dark,h.blinking⟩
  | sysOn => exact ⟨h.dark,h.blinking⟩
  | pass ms =>
    exact ⟨fun hoff => (h.dark hoff).imp_left fun hw => hw.pass ms,
      fun hon => (h.blinking hon).imp_left fun hw => hw.pass ms⟩

omit [DecidableEq ι] in
/-- When no thread is in a call and the work queue has nothing to do for the lamp, it is on
and nothing blinks. -/
theorem Answered.steady (h : Answered s) (hq : Quiescent s) :
    s.ledRf24=true ∧ s.blinking=false := by
  constructor
  · by_contra hoff
    rcases h.dark (Bool.eq_false_of_not_eq_true hoff) with hwork|howes|⟨i,hi⟩
    · exact hq.work hwork
    · rw [hq.handler] at howes
      exact howes
    · rw [hq.callers i] at hi
      exact ActivityPc.noConfusion hi
  · by_contra hon
    rcases h.blinking (Bool.eq_true_of_not_eq_false hon) with hwork|hrun|⟨i,hi|hi⟩
    · exact hq.work hwork
    · exact hrun hq.handler
    · rw [hq.callers i] at hi
      exact ActivityPc.noConfusion hi
    · rw [hq.callers i] at hi
      exact ActivityPc.noConfusion hi

/-- However the steps of any number of reporting threads, of the blink handler and of the
passing time interleave, the activity lamp is never left dark or blinking: in every state
in which nobody is at work on it, it is on and the next activity starts the blinking. -/
theorem lamp_never_left_dark (uptime : ℕ) (es : List (LedEvent ι)) :
    Throughout ledNext (fun s => Quiescent s → s.ledRf24=true ∧ s.blinking=false)
      (gwLedInit uptime) es := by
  have hall : Throughout ledNext Answered (gwLedInit uptime : Led ι) es :=
    (throughout_iff _ _).mpr fun pre _ =>
      finalState_preserves answered_next (answered_init uptime) pre
  exact hall.mono fun s h hq => h.steady hq

/-- The work queue waits for the handler, if it is queued or delayed, and runs it. -/
def serve (s : Led ι) : Led ι :=
  match s.ledBlinkWork.wait with
  | none => s
  | some left => finalState ledNext s (.pass left::List.replicate 6 .blink)

/-- What the handler will find elapsed when its time has come. -/
def elapsed (s : Led ι) (left : ℕ) : Word := BitVec.ofNat 32 (s.uptime+left)-s.rf24LastActivity

/-- The handler toggles the lamp and schedules itself again. -/
theorem serve_active {left : ℕ} (hwork : s.ledBlinkWork.wait=some left) (hidle : s.handler=.idle)
    (helapsed : elapsed s left < rf24ActivityTimeoutMs) :
    serve s={s with
      uptime := s.uptime+left
      ledRf24 := !s.ledRf24
      ledBlinkWork := ⟨some rf24BlinkHalfPeriodMs,false⟩
      errSelftestWork := s.errSelftestWork.pass left} := by
  obtain ⟨hqueued,-⟩ := Delayable.pass_wait hwork
  rw [serve,hwork]
  obtain ⟨uptime,led,err,sys,last,blinking,latched,work,selftest,handler,callers,reporters⟩ := s
  obtain rfl : handler=_ := hidle
  have hrecent : BitVec.ofNat 32 (uptime+left)-last < rf24ActivityTimeoutMs := helapsed
  simp [finalState,List.replicate,ledNext,ledBlinkWorkHandler,Led.kUptimeGet32,hrecent,hqueued,
    Delayable.taken,Delayable.reschedule]

/-- The handler switches the lamp on and ends the blinking. -/
theorem serve_silent {left : ℕ} (hwork : s.ledBlinkWork.wait=some left) (hidle : s.handler=.idle)
    (helapsed : ¬elapsed s left < rf24ActivityTimeoutMs) :
    serve s={s with
      uptime := s.uptime+left
      ledRf24 := true
      blinking := false
      ledBlinkWork := (s.ledBlinkWork.pass left).taken
      errSelftestWork := s.errSelftestWork.pass left} := by
  obtain ⟨hqueued,-⟩ := Delayable.pass_wait hwork
  rw [serve,hwork]
  obtain ⟨uptime,led,err,sys,last,blinking,latched,work,selftest,handler,callers,reporters⟩ := s
  obtain rfl : handler=_ := hidle
  have hold : ¬BitVec.ofNat 32 (uptime+left)-last < rf24ActivityTimeoutMs := helapsed
  simp [finalState,List.replicate,ledNext,ledBlinkWorkHandler,Led.kUptimeGet32,hold,hqueued,
    Delayable.taken]

/-- Once nothing is pending the work queue leaves the lamp alone. -/
theorem serve_iterate_none (h : s.ledBlinkWork.wait=none) (n : ℕ) : serve^[n] s=s := by
  have hone : serve s=s := by rw [serve,h]
  exact Function.iterate_fixed hone n

/-- The lamp is on, nothing blinks, nothing is pending and no later than at a time; the
threads are where they were. -/
structure SettledBy (s t : Led ι) (time : ℕ) : Prop where
  /-- Nothing is pending. -/
  work : t.ledBlinkWork.wait=none
  /-- The handler does not run. -/
  handler : t.handler=.idle
  /-- The threads. -/
  callers : t.callers=s.callers
  /-- The time. -/
  uptime : t.uptime≤time
  /-- The lamp. -/
  lamp : t.ledRf24=true
  /-- The flag. -/
  blinking : t.blinking=false

/-- A settled lamp stays as it is. -/
theorem SettledBy.again {t : Led ι} {time later : ℕ} (h : SettledBy s t time) (hle : time≤later)
    (n : ℕ) : SettledBy s (serve^[n] t) later := by
  rw [serve_iterate_none h.work]
  exact ⟨h.work,h.handler,h.callers,h.uptime.trans hle,h.lamp,h.blinking⟩

/-- A run that finds the activity timed out settles the lamp, unless the handler was queued
and delayed at once. -/
theorem settled_silent {left : ℕ} (hwork : s.ledBlinkWork.wait=some left)
    (hone : s.ledBlinkWork.queued=true → s.ledBlinkWork.delay=none) (hidle : s.handler=.idle)
    (hold : ¬elapsed s left < rf24ActivityTimeoutMs) :
    SettledBy s (serve s) (s.uptime+left) := by
  have hgone : (s.ledBlinkWork.pass left).delay=none := by
    cases hqueued : s.ledBlinkWork.queued with
    | false => exact (Delayable.pass_wait hwork).2 hqueued
    | true =>
      rw [Delayable.pass,hone hqueued]
      exact hone hqueued
  rw [serve_silent hwork hidle hold]
  refine ⟨?_,hidle,rfl,le_rfl,rfl,rfl⟩
  rw [Delayable.wait,Delayable.taken,if_neg Bool.false_ne_true]
  exact hgone

/-- A run that finds recent activity has the next one half a period later find that much
more elapsed. -/
theorem elapsed_active {left : ℕ} (hwork : s.ledBlinkWork.wait=some left)
    (hidle : s.handler=.idle) (hrecent : elapsed s left < rf24ActivityTimeoutMs) :
    (elapsed (serve s) rf24BlinkHalfPeriodMs).toNat=(elapsed s left).toNat+100 := by
  have hless : (elapsed s left).toNat < 400 := hrecent
  have hnext : elapsed (serve s) rf24BlinkHalfPeriodMs=
      elapsed s left+BitVec.ofNat 32 rf24BlinkHalfPeriodMs := by
    rw [serve_active hwork hidle hrecent,elapsed,elapsed,BitVec.ofNat_add]
    ring
  have hperiod : (BitVec.ofNat 32 rf24BlinkHalfPeriodMs).toNat=100 := rfl
  rw [hnext,BitVec.toNat_add,hperiod]
  omega

/-- As long as the activity is recent the elapsed time grows by half a period each time. -/
theorem serve_settles {n left : ℕ} (hwork : s.ledBlinkWork.wait=some left)
    (hone : s.ledBlinkWork.queued=true → s.ledBlinkWork.delay=none) (hidle : s.handler=.idle)
    (hn : 400≤(elapsed s left).toNat+100*n) :
    SettledBy s (serve^[n+1] s) (s.uptime+left+100*n) := by
  induction n generalizing s left with
  | zero =>
    refine settled_silent hwork hone hidle ?_
    rw [BitVec.lt_def]
    exact Nat.not_lt.mpr hn
  | succ n ih =>
    rw [Function.iterate_succ_apply]
    by_cases hrecent : elapsed s left < rf24ActivityTimeoutMs
    · have helapsed := elapsed_active hwork hidle hrecent
      have hserve := serve_active hwork hidle hrecent
      obtain ⟨h1,h2,h3,h4,h5,h6⟩ := ih (s := serve s) (by rw [hserve]; rfl)
        (by rw [hserve]; exact fun hqueued => Bool.noConfusion hqueued)
        (by rw [hserve]; exact hidle) (by rw [helapsed]; omega)
      have hcallers : (serve s).callers=s.callers := by rw [hserve]
      have huptime : (serve s).uptime=s.uptime+left := by rw [hserve]
      have hperiod : rf24BlinkHalfPeriodMs=100 := rfl
      exact ⟨h1,h2,h3.trans hcallers,by omega,h5,h6⟩
    · exact (settled_silent hwork hone hidle hrecent).again (Nat.le_add_right _ _) _

/-- A handler that is queued and delayed at once takes one run more. -/
theorem serve_settles_both {left : ℕ} (hqueued : s.ledBlinkWork.queued=true)
    (hdelay : s.ledBlinkWork.delay=some left) (hidle : s.handler=.idle) :
    SettledBy s (serve^[6] s) (s.uptime+left+400) := by
  have hwork : s.ledBlinkWork.wait=some 0 := by rw [Delayable.wait,if_pos hqueued]
  rw [Function.iterate_succ_apply]
  by_cases hrecent : elapsed s 0 < rf24ActivityTimeoutMs
  · have helapsed := elapsed_active hwork hidle hrecent
    have hserve := serve_active hwork hidle hrecent
    have hsettled := serve_settles (n := 3) (s := serve s) (by rw [hserve]; rfl)
      (by rw [hserve]; exact fun hq => Bool.noConfusion hq) (by rw [hserve]; exact hidle)
      (by rw [helapsed]; omega)
    have hcallers : (serve s).callers=s.callers := by rw [hserve]
    have huptime : (serve s).uptime=s.uptime := by rw [hserve]; rfl
    have hperiod : rf24BlinkHalfPeriodMs=100 := rfl
    obtain ⟨h1,h2,h3,h4,h5,h6⟩ := hsettled.again le_rfl 1
    exact ⟨h1,h2,h3.trans hcallers,h4.trans (by omega),h5,h6⟩
  · have hserve := serve_silent hwork hidle hrecent
    have hrest : (s.ledBlinkWork.pass 0).taken=
        if left≤0 then ⟨none,false⟩ else ⟨some left,false⟩ := by
      rw [Delayable.pass,hdelay]
      dsimp only
      split <;> rfl
    have hcallers : (serve s).callers=s.callers := by rw [hserve]
    have huptime : (serve s).uptime=s.uptime := by rw [hserve]; rfl
    have hidle' : (serve s).handler=.idle := by rw [hserve]; exact hidle
    by_cases hdue : left≤0
    · have hnone : (serve s).ledBlinkWork.wait=none := by
        rw [hserve]
        dsimp only
        rw [hrest,if_pos hdue]
        rfl
      rw [serve_iterate_none hnone]
      refine ⟨hnone,hidle',hcallers,by omega,?_,?_⟩ <;> rw [hserve]
    · have hwait : (serve s).ledBlinkWork=⟨some left,false⟩ := by
        rw [hserve]
        dsimp only
        rw [hrest,if_neg hdue]
      have hsettled := serve_settles (n := 4) (s := serve s) (by rw [hwait]; rfl)
        (by rw [hwait]; exact fun hq => Bool.noConfusion hq) hidle' (Nat.le_add_left _ _)
      obtain ⟨h1,h2,h3,h4,h5,h6⟩ := hsettled
      exact ⟨h1,h2,h3.trans hcallers,h4.trans (by omega),h5,h6⟩

/-- The handler is never delayed for more than half a period. -/
def Prompt (s : Led ι) : Prop := ∀ left,s.ledBlinkWork.delay=some left → left≤rf24BlinkHalfPeriodMs

/-- Time that passes keeps a delay short. -/
theorem Delayable.pass_le {w : Delayable} {bound : ℕ} (h : ∀ left,w.delay=some left → left≤bound)
    (ms : ℕ) : ∀ left,(w.pass ms).delay=some left → left≤bound := by
  intro left
  rw [Delayable.pass]
  split
  · exact h left
  · rename_i left' hdelay
    split
    · exact fun heq => absurd heq.symm (Option.some_ne_none left)
    · intro heq
      obtain rfl := Option.some.inj heq
      exact (Nat.sub_le left' ms).trans (h left' hdelay)

/-- Every step keeps the delays short. -/
theorem prompt_next (s : Led ι) (e : LedEvent ι) (h : Prompt s) : Prompt (ledNext s e) := by
  have hsome : ∀ left,some rf24BlinkHalfPeriodMs=some left → left≤rf24BlinkHalfPeriodMs :=
    fun left heq => (Option.some.inj heq).ge
  cases e with
  | activity i =>
    rw [ledNext,gwLedRf24Activity]
    split
    · exact h
    · exact h
    · exact h
    · exact h
    · exact h
    · exact hsome
  | blink =>
    rw [ledNext,ledBlinkWorkHandler]
    split
    · split
      · exact h
      · exact h
    · exact h
    · exact h
    · exact h
    · exact h
    · exact hsome
    · exact h
    · exact h
  | selftest =>
    rw [ledNext,errSelftestWorkHandler]
    split
    · exact h
    · exact h
  | errorOn i =>
    rw [ledNext,gwLedErrorOn]
    split
    · exact h
    · exact h
  | sysOn => exact h
  | pass ms => exact Delayable.pass_le h ms

/-- The runs of the handler that settle the lamp: one more where it is queued and delayed
at once. -/
def settlingRuns (w : Delayable) : ℕ := if w.queued=true ∧ w.delay≠none then 6 else 5

/-- The runs settle the lamp within half a second. -/
theorem serve_settlingRuns (hprompt : Prompt s) (hpending : s.ledBlinkWork.Pending)
    (hidle : s.handler=.idle) :
    SettledBy s (serve^[settlingRuns s.ledBlinkWork] s) (s.uptime+500) := by
  have hperiod : rf24BlinkHalfPeriodMs=100 := rfl
  rw [settlingRuns]
  by_cases hboth : s.ledBlinkWork.queued=true ∧ s.ledBlinkWork.delay≠none
  · obtain ⟨left,hdelay⟩ := Option.ne_none_iff_exists'.mp hboth.2
    have hleft := hprompt left hdelay
    rw [if_pos hboth]
    exact (serve_settles_both hboth.1 hdelay hidle).again (by omega) 0
  · have hone : s.ledBlinkWork.queued=true → s.ledBlinkWork.delay=none := fun hqueued =>
      not_not.mp fun hdelay => hboth ⟨hqueued,hdelay⟩
    obtain ⟨left,hwait⟩ := Option.ne_none_iff_exists'.mp
      fun hnone => (Delayable.not_pending_iff _).mpr hnone hpending
    have hleft : left≤100 := by
      rw [Delayable.wait] at hwait
      split at hwait
      · rw [←Option.some.inj hwait]
        exact Nat.zero_le 100
      · exact hprompt left hwait
    rw [if_neg hboth]
    exact (serve_settles (n := 4) hwait hone hidle (Nat.le_add_left _ _)).again (by omega) 0

/-- In every run, once no thread is in a call and the handler does not run, serving the
handler five times, six where it is queued and delayed at once, and at most half a second
later, finds the lamp on, nothing pending and nothing blinking. -/
theorem lamp_settles (uptime : ℕ) (es : List (LedEvent ι))
    (hcallers : ∀ i,(finalState ledNext (gwLedInit uptime) es).callers i=.idle)
    (hhandler : (finalState ledNext (gwLedInit uptime) es).handler=.idle) :
    let s := finalState ledNext (gwLedInit uptime) es
    let t := serve^[settlingRuns s.ledBlinkWork] s
    Quiescent t ∧ t.ledRf24=true ∧ t.blinking=false ∧ t.uptime ≤ s.uptime+500 := by
  have hinit : Prompt (gwLedInit uptime : Led ι) := fun left heq =>
    absurd heq (Option.some_ne_none left).symm
  have hprompt := finalState_preserves prompt_next hinit es
  have hanswered := finalState_preserves answered_next (answered_init uptime) es
  intro s t
  change Prompt s at hprompt
  change Answered s at hanswered
  by_cases hpending : s.ledBlinkWork.Pending
  · have hsettled := serve_settlingRuns hprompt hpending hhandler
    have hq : Quiescent t := ⟨(Delayable.not_pending_iff _).mpr hsettled.work,hsettled.handler,
      fun i => (congrFun hsettled.callers i).trans (hcallers i)⟩
    exact ⟨hq,hsettled.lamp,hsettled.blinking,hsettled.uptime⟩
  · have hsame : t=s := serve_iterate_none ((Delayable.not_pending_iff _).mp hpending) _
    have hq : Quiescent s := ⟨hpending,hhandler,hcallers⟩
    have hsteady := hanswered.steady hq
    rw [hsame]
    exact ⟨hq,hsteady.1,hsteady.2,Nat.le_add_right _ _⟩

end Blinking

/-- Two threads report activity at once. The first one's item has gone into the queue when
the second one schedules it again. -/
def overlappingReports : List (LedEvent Bool) :=
  [.activity true,.activity false,.activity true,.activity false,.activity true,.activity false,
    .activity true,.activity false,.activity true,.activity true,.pass 100,.activity false,
    .activity false]

/-- After two overlapping reports the lamp settles. -/
theorem lamp_settles_overlapping :
    (∀ i,(finalState ledNext (gwLedInit 7) overlappingReports).callers i=.idle) ∧
      (finalState ledNext (gwLedInit 7) overlappingReports).ledBlinkWork=⟨some 100,true⟩ ∧
      (serve^[6] (finalState ledNext (gwLedInit 7) overlappingReports)).ledRf24=true :=
  ⟨by decide,by decide,
    (lamp_settles 7 overlappingReports (by decide) (by decide)).2.1⟩

section ErrorLamp

variable {ι : Type} [DecidableEq ι] {s : Led ι}

/-- The work queue runs the self-test in this step. -/
def SelftestRuns (s : Led ι) (e : LedEvent ι) : Prop :=
  e=.selftest ∧ s.errSelftestWork.queued=true

/-- The promise of the latch: the error lamp is on once an error has been reported and no
thread stands between the latch and the lamp. -/
def LatchKept (s : Led ι) : Prop :=
  s.errorLatched=true → (∀ i,s.reporters i=.idle) → s.ledErr=true

/-- The self-test does not run after a report, unless another report is about to switch the
lamp on again. -/
def SparesLamp (s : Led ι) (e : LedEvent ι) : Prop :=
  SelftestRuns s e → s.errorLatched=false ∨ ∃ i,s.reporters i≠.idle

/-- A step of a report keeps the promise. -/
theorem latchKept_errorOn (i : ι) : LatchKept (gwLedErrorOn s i) := by
  rw [gwLedErrorOn]
  split
  · intro _ hidle
    have hlatched : Function.update (β := fun _ => ErrorPc) s.reporters i .latched i=.idle :=
      hidle i
    rw [Function.update_self] at hlatched
    cases hlatched
  · exact fun _ _ => rfl

/-- The promise of the latch is kept throughout a run from the initialisation exactly when
the self-test does not run after a report: its handler switches the lamp off without looking
at the latch. -/
theorem error_lamp_kept_iff (uptime : ℕ) (es : List (LedEvent ι)) :
    Throughout ledNext LatchKept (gwLedInit uptime) es ↔
      AlongRun ledNext SparesLamp (gwLedInit uptime) es := by
  have hstart : LatchKept (gwLedInit uptime : Led ι) := fun _ _ => rfl
  refine throughout_iff_alongRun (P := fun t : Led ι => LatchKept t) ?_ hstart es
  intro s e hkept
  have hother : ∀ {e : LedEvent ι},e≠.selftest → SparesLamp s e := fun hne hruns =>
    absurd hruns.1 hne
  cases e with
  | selftest =>
    rw [ledNext,errSelftestWorkHandler]
    by_cases hdue : s.errSelftestWork.queued=true
    · rw [if_pos hdue]
      constructor
      · intro hlamp _
        by_contra hspared
        obtain ⟨hlatched,hidle⟩ := not_or.mp hspared
        have hall : ∀ i,s.reporters i=.idle := fun i => not_not.mp (not_exists.mp hidle i)
        exact Bool.noConfusion (hlamp (Bool.eq_true_of_not_eq_false hlatched) hall)
      · intro hspares hlatched hidle
        rcases hspares ⟨rfl,hdue⟩ with hclear|⟨i,hbusy⟩
        · exact absurd (hclear.symm.trans hlatched) Bool.false_ne_true
        · exact absurd (hidle i) hbusy
    · rw [if_neg hdue]
      exact iff_of_true hkept fun hruns => absurd hruns.2 hdue
  | activity i =>
    refine iff_of_true ?_ (hother (by simp))
    rw [ledNext,gwLedRf24Activity]
    split <;> exact hkept
  | blink =>
    refine iff_of_true ?_ (hother (by simp))
    rw [ledNext,ledBlinkWorkHandler]
    split <;> first | exact hkept | (split <;> exact hkept)
  | errorOn i => exact iff_of_true (latchKept_errorOn i) (hother (by simp))
  | sysOn => exact iff_of_true hkept (hother (by simp))
  | pass ms => exact iff_of_true hkept (hother (by simp))

end ErrorLamp

end ZephyrApp.GatewayLed

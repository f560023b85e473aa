import ZephyrApp.EventRuns
import ZephyrApp.DaqRegisters

/-!
# Samples on their way to the history file

The ADC thread and the DI thread each fill one buffer of their own, field by
field, and put its address into a queue. The work handler takes an address,
stamps the buffer and writes what the buffer then holds. The threads are
interleaved at every assignment, submission, removal and write.
-/

namespace ZephyrApp.HistorySamples

open EventRuns

/-- The threads that submit samples, which name their buffers. -/
inductive Producer
  /-- `adc_handler`. -/
  | adc
  /-- `di_process_handler`. -/
  | di
deriving DecidableEq

/-- What a sample records. The two parts of the union have the enable bits in
the same place, and the DI value is where the first AI value is. -/
structure Sample where
  /-- `type`. -/
  type : BitVec 16
  /-- `ai_en_status` and `di_en_status`. -/
  enStatus : BitVec 16
  /-- `ai_value`, and `di_value` in the first element. -/
  value : Fin 4 → BitVec 16
deriving DecidableEq

/-- `struct his_data`. -/
structure HisData where
  /-- Type, enable bits and values. -/
  sample : Sample
  /-- `timestamps`. -/
  timestamps : BitVec 32
deriving DecidableEq

/-- `DI_TYPE`. -/
def diType : BitVec 16 := 1

/-- `AI_TYPE`. -/
def aiType : BitVec 16 := 2

/-- A field that a producer assigns. -/
inductive Field
  /-- `type`. -/
  | type
  /-- An element of the values. -/
  | value (i : Fin 4)
  /-- The enable bits. -/
  | enStatus

/-- The assignments of a producer before it submits its buffer, in order. -/
def script : Producer → List Field
  | .adc => [.type,.value 0,.value 1,.value 2,.value 3,.enStatus]
  | .di => [.type,.value 0,.enStatus]

/-- The value that a producer assigns: its type, or the register it reads. -/
def assigned (p : Producer) (f : Field) (reg : BitVec 16) : BitVec 16 :=
  match f with
  | .type => match p with
    | .adc => aiType
    | .di => diType
  | .value _ | .enStatus => reg

/-- A field of a sample. -/
def Sample.get (d : Sample) : Field → BitVec 16
  | .type => d.type
  | .value i => d.value i
  | .enStatus => d.enStatus

/-- A field of a sample is assigned. -/
def Sample.set (d : Sample) (f : Field) (v : BitVec 16) : Sample :=
  match f with
  | .type => {d with type:=v}
  | .value i => {d with value:=Function.update d.value i v}
  | .enStatus => {d with enStatus:=v}

/-- The buffers, the producers and the queue. -/
structure State where
  /-- The buffer of each producer. -/
  data : Producer → HisData
  /-- How many assignments of its round a producer has made. -/
  position : Producer → ℕ
  /-- `his_rx_fifo`, the addresses of buffers. -/
  hisRxFifo : List Producer
  /-- The buffer that the work handler has taken and not yet written. -/
  inHand : Option Producer
  /-- The samples submitted so far, as they were then. -/
  submitted : List Sample
  /-- The samples passed to `write_history_data` so far. -/
  passed : List Sample

/-- What happens next. -/
inductive Event
  /-- A producer makes its next step, with the register it reads. -/
  | producer (p : Producer) (reg : BitVec 16)
  /-- `his_process_save` takes a buffer and stamps it. -/
  | take (now : BitVec 32)
  /-- `his_process_save` passes the buffer on. -/
  | write

/-- A producer assigns the next field of its script, or submits its buffer with
`send_history_data` and starts again. -/
def producerStep (s : State) (p : Producer) (reg : BitVec 16) : State :=
  match (script p)[s.position p]? with
  | some f =>
    {s with
      data:=Function.update s.data p
        {s.data p with sample:=(s.data p).sample.set f (assigned p f reg)}
      position:=Function.update s.position p (s.position p+1)}
  | none =>
    {s with
      position:=Function.update s.position p 0
      hisRxFifo:=s.hisRxFifo++[p]
      submitted:=s.submitted++[(s.data p).sample]}

/-- `his_process_save` has taken a buffer and stamped it. -/
def taken (s : State) (p : Producer) (now : BitVec 32) (rest : List Producer) : State :=
  {s with
    data:=Function.update s.data p ⟨(s.data p).sample,now⟩
    hisRxFifo:=rest
    inHand:=some p}

/-- `his_process_save` has passed a buffer to `write_history_data`. -/
def written (s : State) (p : Producer) : State :=
  {s with
    inHand:=none
    passed:=s.passed++[(s.data p).sample]}

/-- A step of one of the threads. -/
def next (s : State) : Event → State
  | .producer p reg => producerStep s p reg
  | .take now =>
    match s.inHand,s.hisRxFifo with
    | none,p::rest => taken s p now rest
    | _,_ => s
  | .write =>
    match s.inHand with
    | none => s
    | some p => written s p

/-- The state at start; the buffers hold anything. -/
def start (data : Producer → HisData) : State := ⟨data,fun _ => 0,[],none,[],[]⟩

/-- The buffers that were submitted and not yet passed on, oldest first. -/
def waiting (s : State) : List Producer := s.inHand.toList++s.hisRxFifo

/-- The samples that are passed on if the handler finishes now. -/
def pending (s : State) : List Sample := (waiting s).map fun p => (s.data p).sample

/-- The steps with which the handler finishes. -/
def finishing (s : State) : List Event :=
  s.inHand.toList.map (fun _ => .write)++s.hisRxFifo.flatMap fun _ => [.take 0,.write]

/-- If the handler finishes now, it has passed on exactly the samples that were
submitted, as they were submitted. -/
def Intact (s : State) : Prop := (finalState next s (finishing s)).passed=s.submitted

/-- A producer does not change a buffer that waits. -/
def LeavesWaiting (s : State) : Event → Prop
  | .producer p reg =>
    p∈waiting s → ∀ f∈(script p)[s.position p]?,(s.data p).sample.get f=assigned p f reg
  | _ => True

/-- Assigning the value that a field has changes nothing, and no other
assignment leaves the sample as it was. -/
theorem Sample.set_eq_self_iff (d : Sample) (f : Field) (v : BitVec 16) :
    d.set f v=d ↔ d.get f=v := by
  constructor
  · intro h
    rw [←h]
    cases f with
    | type => rfl
    | value i => exact Function.update_self i v d.value
    | enStatus => rfl
  · rintro rfl
    cases f with
    | type => rfl
    | value i => simp only [Sample.set,Sample.get,Function.update_eq_self]
    | enStatus => rfl

/-- A stamp does not change the samples. -/
@[simp] theorem taken_sample (s : State) (p : Producer) (now : BitVec 32) (rest : List Producer)
    (r : Producer) : ((taken s p now rest).data r).sample=(s.data r).sample := by
  by_cases hr : r=p
  · subst hr
    simp only [taken,Function.update_self]
  · simp only [taken,Function.update_of_ne hr]

/-- With free hands the handler takes the first buffer of the queue. -/
theorem next_take {s : State} {p : Producer} {rest : List Producer} (now : BitVec 32)
    (h : s.inHand=none) (hq : s.hisRxFifo=p::rest) : next s (.take now)=taken s p now rest := by
  rw [next,h,hq]

/-- Taking and writing the queued buffers one by one passes on what they hold. -/
theorem passed_fifo (s : State) (h : s.inHand=none) :
    (finalState next s (s.hisRxFifo.flatMap fun _ => [.take 0,.write])).passed=
      s.passed++s.hisRxFifo.map fun p => (s.data p).sample := by
  generalize hq : s.hisRxFifo=q
  induction q generalizing s with
  | nil => simp only [List.flatMap_nil,finalState,List.foldl_nil,List.map_nil,List.append_nil]
  | cons p q ih =>
    have hrest := ih (written (taken s p 0 q) p) rfl rfl
    rw [List.flatMap_cons,finalState,List.foldl_append]
    simp only [List.foldl_cons,List.foldl_nil,next_take 0 h hq]
    refine hrest.trans ?_
    simp only [written,taken_sample,List.append_assoc,List.singleton_append,List.map_cons]
    rfl

/-- Finishing passes on what the waiting buffers hold. -/
theorem passed_finishing (s : State) :
    (finalState next s (finishing s)).passed=s.passed++pending s := by
  cases h : s.inHand with
  | none =>
    simp only [finishing,pending,waiting,h,Option.toList_none,List.map_nil,List.nil_append]
    exact passed_fifo s h
  | some p =>
    have hwrite : next s .write=written s p := by rw [next,h]
    simp only [finishing,pending,waiting,h,Option.toList_some,List.map_cons,List.map_nil,
      List.singleton_append,finalState,List.foldl_cons,hwrite]
    refine (passed_fifo (written s p) rfl).trans ?_
    simp only [written,List.append_assoc,List.singleton_append]

/-- Intact samples are those passed on and those waiting. -/
theorem intact_iff (s : State) : Intact s ↔ s.passed++pending s=s.submitted := by
  rw [Intact,passed_finishing]

/-- An assignment changes what is pending exactly if it changes a waiting buffer. -/
theorem pending_assign (s : State) (p : Producer) (d : HisData) (position : Producer → ℕ) :
    pending {s with data:=Function.update s.data p d,position:=position}=pending s ↔
      (p∈waiting s → d.sample=(s.data p).sample) := by
  have hmap : pending {s with data:=Function.update s.data p d,position:=position}=
      (waiting s).map fun r => (Function.update s.data p d r).sample := rfl
  rw [hmap,pending]
  generalize waiting s=ws
  rw [List.map_inj_left]
  constructor
  · intro h hp
    have hsame := h p hp
    rwa [Function.update_self] at hsame
  · intro h r hr
    by_cases hrp : r=p
    · subst hrp
      rw [Function.update_self]
      exact h hr
    · rw [Function.update_of_ne hrp]

/-- A step keeps the samples intact exactly if it leaves the waiting buffers. -/
theorem intact_next (s : State) (e : Event) (h : Intact s) :
    Intact (next s e) ↔ LeavesWaiting s e := by
  rw [intact_iff] at h ⊢
  cases e with
  | producer p reg =>
    cases hf : (script p)[s.position p]? with
    | none =>
      refine iff_of_true ?_ ?_
      · simp only [next,producerStep,hf,pending,waiting,List.map_append,List.map_cons,List.map_nil]
        rw [←h,pending,waiting,List.map_append]
        simp only [List.append_assoc]
      · intro _ f hmem
        rw [hf] at hmem
        cases hmem
    | some f =>
      have hnext : next s (.producer p reg)={s with
          data:=Function.update s.data p
            ⟨(s.data p).sample.set f (assigned p f reg),(s.data p).timestamps⟩
          position:=Function.update s.position p (s.position p+1)} := by
        simp only [next,producerStep,hf]
      have hpending : pending (next s (.producer p reg))=pending s ↔
          (p∈waiting s → (s.data p).sample.get f=assigned p f reg) := by
        rw [hnext,pending_assign,Sample.set_eq_self_iff]
      have hintact : (next s (.producer p reg)).passed++pending (next s (.producer p reg))=
          (next s (.producer p reg)).submitted ↔ pending (next s (.producer p reg))=pending s := by
        have hkept : (next s (.producer p reg)).passed=s.passed ∧
            (next s (.producer p reg)).submitted=s.submitted := by
          rw [hnext]
          exact ⟨rfl,rfl⟩
        rw [hkept.1,hkept.2,←h,List.append_cancel_left_eq]
      rw [hintact,hpending]
      simp only [LeavesWaiting,hf,Option.mem_def,Option.some.injEq,forall_eq']
  | take now =>
    refine iff_of_true ?_ trivial
    rw [next]
    split
    · rename_i p rest hhand hfifo
      rw [pending,waiting,hhand,hfifo] at h
      simp only [pending,waiting,taken_sample]
      exact h
    · exact h
  | write =>
    refine iff_of_true ?_ trivial
    rw [next]
    split
    · exact h
    · rename_i p hhand
      rw [pending,waiting,hhand] at h
      simp only [pending,waiting,written,Option.toList_none,List.nil_append,List.append_assoc]
      exact h

/-- Before the first submission there is nothing to pass on. -/
theorem intact_start (data : Producer → HisData) : Intact (start data) := by
  rw [intact_iff]
  rfl

/-- In every interleaving, the handler passes on every submitted sample once and
unaltered, whenever it finishes, exactly if no producer changes a buffer between
its submission and its write. -/
theorem samples_intact_iff (data : Producer → HisData) (es : List Event) :
    Throughout next Intact (start data) es ↔ AlongRun next LeavesWaiting (start data) es :=
  throughout_iff_alongRun intact_next (intact_start data) es

/-- A second DI sample that is taken before the first one is written replaces it. -/
theorem delayed_write_alters_sample :
    ¬∀ data es,Throughout next Intact (start data) es := by
  intro h
  have hrun := h (fun _ => ⟨⟨0,0,fun _ => 0⟩,0⟩)
    [.producer .di 0,.producer .di 5,.producer .di 1,.producer .di 0,
      .producer .di 0,.producer .di 9]
  have hlast := hrun.last
  rw [intact_iff] at hlast
  exact absurd hlast (by decide)

end ZephyrApp.HistorySamples

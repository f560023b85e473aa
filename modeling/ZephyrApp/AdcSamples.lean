import ZephyrApp.EventRuns
import ZephyrApp.MachineBytes
import ZephyrApp.TrimmedMean

/-!
# Averaged ADC samples of the handler

Ten readings of a channel are averaged without the smallest and the largest
one. The sums are `int32_t` and wrap on the target. Where the exact difference
that is divided fits, the register holds it, whatever the partial sums did, so
the average is the truncated mean of the library. The joystick readings
are degrees from -20 to 20 by then, and their sums always fit.
-/

namespace ZephyrApp.AdcSamples

open EventRuns MachineBytes TrimmedMean

section Source

/-- The variables of the loop in `trim_avg`. -/
structure TrimLoop where
  /-- `min_v`. -/
  minV : Int32
  /-- `max_v`. -/
  maxV : Int32
  /-- `sum`. -/
  sum : Int32

/-- One pass over `samples[i]`. -/
def TrimLoop.next (v : TrimLoop) (sample : Int32) : TrimLoop where
  minV := if sample < v.minV then sample else v.minV
  maxV := if v.maxV < sample then sample else v.maxV
  sum := v.sum+sample

/-- `trim_avg`: none where it reads behind the samples or divides by zero. -/
def trimAvg (samples : List Int32) (count : Int32) : Option Int32 := do
  let first ← samples[0]?
  let v ← (List.range count.toNatClampNeg).foldlM (fun v i => samples[i]?.map (TrimLoop.next v))
    ⟨first,first,0⟩
  if count-2=0 then none else some ((v.sum-v.minV-v.maxV)/(count-2))

/-- `CLAMP`. -/
def clamp (val low high : Int32) : Int32 :=
  if val ≤ low then low else if val < high then val else high

/-- 500 to 4500 mV as -20 to 20 degrees. -/
def xyDegree (valMv : Int32) : Int32 := (clamp (valMv*10/6) 500 4500-500)*40/4000-20

/-- What `adc_read_thread` keeps: its sample arrays and, of `global_params`, the
degrees it reports. -/
structure AdcRead where
  /-- `x_samples`. -/
  xSamples : List Int32
  /-- `y_samples`. -/
  ySamples : List Int32
  /-- `x_degree`. -/
  xDegree : Int32
  /-- `y_degree`. -/
  yDegree : Int32
  /-- `last_activity_time`. -/
  lastActivityTime : Word

/-- What one pass of the thread takes from outside. -/
structure Pass where
  /-- `val_mv` after `adc_raw_to_millivolts_dt` for a sample and a channel, none
  where `adc_read_dt` failed. -/
  readings : ℕ → ℕ → Option Int32
  /-- `h_button`. -/
  hButton : Byte
  /-- `k_uptime_get_32`. -/
  uptime : Word

/-- `XY_SAMPLE_COUNT`. -/
def xySampleCount : ℕ := 10

/-- The zeroed statics of the start. -/
def AdcRead.start : AdcRead where
  xSamples := List.replicate xySampleCount 0
  ySamples := List.replicate xySampleCount 0
  xDegree := 0
  yDegree := 0
  lastActivityTime := 0

/-- Channel `i` of sample `idx`: a failed reading leaves the sample before it. -/
def AdcRead.readChannel (p : Pass) (idx : ℕ) (s : AdcRead) (i : ℕ) : AdcRead :=
  match p.readings idx i with
  | none => s
  | some valMv =>
    if i=0 then {s with xSamples := s.xSamples.set idx (xyDegree valMv)}
    else {s with ySamples := s.ySamples.set idx (xyDegree valMv)}

/-- All samples of both joystick channels, the last channel being the supply. -/
def AdcRead.sample (p : Pass) (s : AdcRead) : AdcRead :=
  (List.range xySampleCount).foldl (fun s idx => (List.range 2).foldl (AdcRead.readChannel p idx) s)
    s

/-- The eight bytes for `send_handler_state`. -/
def AdcRead.report (s : AdcRead) (hButton : Byte) : List Byte :=
  sysPutBe16 (s.xDegree.toBitVec.setWidth 16)++sysPutBe16 (s.yDegree.toBitVec.setWidth 16)++
    [hButton,0xff,0xff,0xff]

/-- The averages, and whether they are news. -/
def AdcRead.update (s : AdcRead) (x y : Int32) (uptime : Word) : AdcRead :=
  if x≠s.xDegree ∨ y≠s.yDegree then
    {s with xDegree := x,yDegree := y,lastActivityTime := uptime}
  else s

/-- A pass of `adc_read_thread` that does not sleep, with its report. -/
def AdcRead.pass (s : AdcRead) (p : Pass) : Option (AdcRead × List Byte) := do
  let sampled := s.sample p
  let x ← trimAvg sampled.xSamples (Int32.ofNat xySampleCount)
  let y ← trimAvg sampled.ySamples (Int32.ofNat xySampleCount)
  let updated := sampled.update x y p.uptime
  some (updated,updated.report p.hButton)

/-- `adc_read_thread` over the passes in which it does not sleep, with the reports. -/
def AdcRead.run (s : AdcRead) : List Pass → Option (AdcRead × List (List Byte))
  | [] => some (s,[])
  | p::ps => do
    let (next,report) ← s.pass p
    let (last,reports) ← next.run ps
    some (last,report::reports)

/-- The statics of `adc_power_thread` and its `power_mv`. -/
structure AdcPower where
  /-- `power_samples`. -/
  powerSamples : List Int32
  /-- `power_sample_idx`. -/
  powerSampleIdx : ℕ
  /-- `power_mv`. -/
  powerMv : Int32

/-- `POWER_SAMPLE_COUNT`. -/
def powerSampleCount : ℕ := 10

/-- The zeroed statics of the start. -/
def AdcPower.start : AdcPower := ⟨List.replicate powerSampleCount 0,0,0⟩

/-- Only a reading that was read and converted is kept, doubled. -/
def AdcPower.store (s : AdcPower) : Option Int32 → AdcPower
  | none => s
  | some valMv => {s with
      powerSamples := s.powerSamples.set s.powerSampleIdx (valMv*2)
      powerSampleIdx := s.powerSampleIdx+1}

/-- A pass of `adc_power_thread` that does not sleep. -/
def AdcPower.pass (s : AdcPower) (reading : Option Int32) : Option AdcPower := do
  let stored := s.store reading
  if powerSampleCount ≤ stored.powerSampleIdx then
    let powerMv ← trimAvg stored.powerSamples (Int32.ofNat powerSampleCount)
    some {stored with powerSampleIdx := 0,powerMv := powerMv}
  else some stored

end Source

/-! ### The average -/

/-- The samples as integers. -/
def values (samples : List Int32) : List ℤ := samples.map Int32.toInt

/-- There are as many of them. -/
@[simp] theorem values_length (samples : List Int32) : (values samples).length=samples.length :=
  List.length_map _

/-- An integer that an `int32_t` holds. -/
def InInt32 (n : ℤ) : Prop := -2^31 ≤ n ∧ n < 2^31

/-- No partial sum of the samples and no difference that `trim_avg` takes
leaves the `int32_t`. -/
structure Fits (samples : List Int32) : Prop where
  /-- `sum` after any number of passes. -/
  sums : ∀ k,InInt32 ((values samples).take k).sum
  /-- `sum - min_v`. -/
  withoutLeast : ∀ e : Extremes (values samples),InInt32 ((values samples).sum-e.least)
  /-- `sum - min_v - max_v`. -/
  trimmed : ∀ e : Extremes (values samples),InInt32 e.trimmed

/-- A register holds an integer that fits. -/
theorem InInt32.bmod_eq {n : ℤ} (h : InInt32 n) : n.bmod (2^32)=n :=
  Int.bmod_eq_of_le (by simpa using h.1) (by simpa using h.2)

/-- The loop over an index range reads the list from front to back. -/
theorem foldlM_range_getElem? {α β : Type} (f : β → α → β) (s : β) (l : List α) {n : ℕ}
    (hn : n≤l.length) :
    (List.range n).foldlM (fun v i => l[i]?.map (f v)) s=some ((l.take n).foldl f s) := by
  induction n with
  | zero => rfl
  | succ n ih =>
    have hget : l[n]?=some l[n] := List.getElem?_eq_getElem hn
    rw [List.range_succ,List.foldlM_append,ih (by omega),List.take_succ_eq_append_getElem hn,
      List.foldl_append]
    simp only [List.foldlM_cons,List.foldlM_nil,hget,Option.map_some,Option.bind_eq_bind,
      Option.bind_some,Option.pure_def,List.foldl_cons,List.foldl_nil]

/-- What the loop has found in the samples it passed: their extremes, the first
sample among them from the start, and their sum as far as the register goes. -/
structure TrimLoop.Covers (v : TrimLoop) (first : Int32) (passed : List Int32) : Prop where
  /-- `min_v` is the least. -/
  least : ∀ e : Extremes (values (first::passed)),v.minV.toInt=e.least
  /-- `max_v` is the greatest. -/
  greatest : ∀ e : Extremes (values (first::passed)),v.maxV.toInt=e.greatest
  /-- `sum` is the wrapped sum. -/
  sum : v.sum.toInt=(values passed).sum.bmod (2^32)

/-- A smaller sample replaces `min_v`. -/
theorem TrimLoop.next_minV (v : TrimLoop) (sample : Int32) :
    (v.next sample).minV.toInt=min sample.toInt v.minV.toInt := by
  change (if sample < v.minV then sample else v.minV).toInt=_
  split
  · rename_i hlt
    exact (min_eq_left (Int32.lt_iff_toInt_lt.mp hlt).le).symm
  · rename_i hnot
    exact (min_eq_right (not_lt.mp (mt Int32.lt_iff_toInt_lt.mpr hnot))).symm

/-- A greater sample replaces `max_v`. -/
theorem TrimLoop.next_maxV (v : TrimLoop) (sample : Int32) :
    (v.next sample).maxV.toInt=max sample.toInt v.maxV.toInt := by
  change (if v.maxV < sample then sample else v.maxV).toInt=_
  split
  · rename_i hlt
    exact (max_eq_left (Int32.lt_iff_toInt_lt.mp hlt).le).symm
  · rename_i hnot
    exact (max_eq_right (not_lt.mp (mt Int32.lt_iff_toInt_lt.mpr hnot))).symm

/-- The loop variables after passes over a list. -/
def TrimLoop.after (first : Int32) (passed : List Int32) : TrimLoop :=
  passed.foldl TrimLoop.next ⟨first,first,0⟩

/-- Before the first pass. -/
theorem TrimLoop.covers_start (first : Int32) : (TrimLoop.after first []).Covers first [] where
  least e := ((Extremes.single first.toInt).eq_of_mem_iff e fun _ => Iff.rfl).1
  greatest e := ((Extremes.single first.toInt).eq_of_mem_iff e fun _ => Iff.rfl).2
  sum := rfl

/-- A pass. -/
theorem TrimLoop.Covers.next {v : TrimLoop} {first : Int32} {passed : List Int32}
    (h : v.Covers first passed) (sample : Int32) :
    (v.next sample).Covers first (passed++[sample]) := by
  have hmem : ∀ x,x∈values (first::passed)++[sample.toInt] ↔ x∈values (first::(passed++[sample])) :=
    fun x => by simp only [values,List.map_cons,List.map_append,List.map_nil,List.cons_append]
  obtain ⟨before⟩ := Extremes.nonempty_of_ne_nil (List.cons_ne_nil first.toInt (values passed))
  constructor
  · intro e
    rw [v.next_minV,h.least before,←((before.snoc sample.toInt).eq_of_mem_iff e hmem).1]
    rfl
  · intro e
    rw [v.next_maxV,h.greatest before,←((before.snoc sample.toInt).eq_of_mem_iff e hmem).2]
    rfl
  · have hsum : (values (passed++[sample])).sum=(values passed).sum+sample.toInt := by
      simp only [values,List.map_append,List.map_cons,List.map_nil,List.sum_append,
        List.sum_singleton]
    rw [TrimLoop.next,Int32.toInt_add,h.sum,Int.bmod_add_bmod,hsum]

/-- The passes over a list. -/
theorem TrimLoop.covers_after (first : Int32) (passed : List Int32) :
    (TrimLoop.after first passed).Covers first passed := by
  induction passed using List.reverseRecOn with
  | nil => exact TrimLoop.covers_start first
  | append_singleton passed sample ih =>
    rw [TrimLoop.after,List.foldl_append]
    exact ih.next sample

/-- The loop over all samples finds their extremes: the first one counts once. -/
theorem TrimLoop.after_extremes (first : Int32) (rest : List Int32)
    (e : Extremes (values (first::rest))) :
    (TrimLoop.after first (first::rest)).minV.toInt=e.least ∧
      (TrimLoop.after first (first::rest)).maxV.toInt=e.greatest := by
  have hall := TrimLoop.covers_after first (first::rest)
  have hmem : ∀ x,x∈values (first::rest) ↔ x∈values (first::first::rest) := fun x => by
    simp only [values,List.map_cons,List.mem_cons,or_self_left]
  exact ⟨hall.least (e.congr hmem),hall.greatest (e.congr hmem)⟩

/-- The dividend of `trim_avg`. -/
def TrimLoop.dividend (v : TrimLoop) : Int32 := v.sum-v.minV-v.maxV

/-- It is the exact difference wrapped, wherever the sums wrapped before. -/
theorem TrimLoop.dividend_toInt (first : Int32) (rest : List Int32)
    (e : Extremes (values (first::rest))) :
    (TrimLoop.after first (first::rest)).dividend.toInt=e.trimmed.bmod (2^32) := by
  obtain ⟨hmin,hmax⟩ := TrimLoop.after_extremes first rest e
  have hsum := (TrimLoop.covers_after first (first::rest)).sum
  rw [TrimLoop.dividend,Int32.toInt_sub,Int32.toInt_sub,hmin,hmax,hsum,Int.bmod_sub_bmod,sub_sub,
    Int.bmod_sub_bmod,←sub_sub]
  rfl

/-- The divisor of `trim_avg` is positive from three samples on. -/
theorem divisor_toInt {count : Int32} (hcount : 3≤count.toInt) :
    (count-2).toInt=count.toInt-2 := by
  have hsmall : InInt32 (count.toInt-2) := ⟨by omega,by have := count.toInt_lt; omega⟩
  rw [Int32.toInt_sub]
  exact hsmall.bmod_eq

/-- From three samples on `trim_avg` divides what its loop has left. -/
theorem trimAvg_cons {first : Int32} {rest : List Int32} {count : Int32}
    (hcount : 3≤count.toInt) (hlength : ((first::rest).length : ℤ)=count.toInt) :
    trimAvg (first::rest) count=
      some ((TrimLoop.after first (first::rest)).dividend/(count-2)) := by
  have hn : count.toNatClampNeg=(first::rest).length := by
    rw [Int32.toNatClampNeg,←hlength]
    rfl
  have hzero : count-2≠0 := fun h => by
    have hdivisor := divisor_toInt hcount
    rw [h,Int32.toInt_zero] at hdivisor
    omega
  rw [trimAvg,List.getElem?_cons_zero,Option.bind_eq_bind,Option.bind_some,hn,
    foldlM_range_getElem? _ _ _ le_rfl,List.take_length,Option.bind_eq_bind,Option.bind_some,
    if_neg hzero]
  rfl

/-- Where the difference that is divided fits, `trim_avg` returns the truncated
mean without the extremes. -/
theorem trimAvg_mean {samples : List Int32} {count : Int32} (hcount : 3≤count.toInt)
    (hlength : (samples.length : ℤ)=count.toInt) (e : Extremes (values samples))
    (hfits : InInt32 e.trimmed) :
    ∃ avg,trimAvg samples count=some avg ∧ avg.toInt=e.mean := by
  cases samples with
  | nil =>
    rw [List.length_nil] at hlength
    omega
  | cons first rest =>
    have hminus : count-2≠ -1 := fun h => by
      have hdivisor := divisor_toInt hcount
      have hneg : (-1 : Int32).toInt= -1 := rfl
      rw [h,hneg] at hdivisor
      omega
    refine ⟨_,trimAvg_cons hcount hlength,?_⟩
    rw [Int32.toInt_div_of_ne_right _ _ hminus,TrimLoop.dividend_toInt first rest e,hfits.bmod_eq,
      divisor_toInt hcount,Extremes.mean,values_length,hlength]

/-- The quotient of -3 by 2 is cut towards zero. -/
example : (trimAvg [-7,-2,-1,4] 4).map Int32.toInt=some (-1) := rfl

/-- In a run over samples that fit no operation wraps: the sum is exact after
every pass, and so are both differences. -/
theorem Fits.no_wrap {first : Int32} {rest : List Int32} (h : Fits (first::rest))
    (e : Extremes (values (first::rest))) :
    (∀ k,(TrimLoop.after first ((first::rest).take k)).sum.toInt=
        ((values (first::rest)).take k).sum) ∧
      ((TrimLoop.after first (first::rest)).sum-(TrimLoop.after first (first::rest)).minV).toInt=
        (values (first::rest)).sum-e.least ∧
      (TrimLoop.after first (first::rest)).dividend.toInt=e.trimmed := by
  refine ⟨fun k => ?_,?_,?_⟩
  · have htaken : values ((first::rest).take k)=(values (first::rest)).take k := List.map_take
    rw [(TrimLoop.covers_after first ((first::rest).take k)).sum,htaken,(h.sums k).bmod_eq]
  · rw [Int32.toInt_sub,(TrimLoop.after_extremes first rest e).1,
      (TrimLoop.covers_after first (first::rest)).sum,Int.bmod_sub_bmod,
      (h.withoutLeast e).bmod_eq]
  · rw [TrimLoop.dividend_toInt first rest e,(h.trimmed e).bmod_eq]

/-- Permuted samples have the same values up to order. -/
theorem values_perm {samples other : List Int32} (h : other.Perm samples) :
    (values other).Perm (values samples) := h.map _

/-- Samples raised one by one have raised values. -/
theorem values_forall₂ {samples other : List Int32} (h : List.Forall₂ (· ≤ ·) samples other) :
    List.Forall₂ (· ≤ ·) (values samples) (values other) := by
  rw [values,values,List.forall₂_map_left_iff,List.forall₂_map_right_iff]
  exact h.imp fun _ _ => Int32.le_iff_toInt_le.mp

/-- Three samples or more have a least and a greatest one. -/
theorem exists_extremes {samples : List Int32} (h : 3 ≤ samples.length) :
    Nonempty (Extremes (values samples)) := by
  refine Extremes.nonempty_of_ne_nil fun hnil => ?_
  have hzero := congrArg List.length hnil
  rw [values_length,List.length_nil] at hzero
  omega

section Average

variable {samples : List Int32} {count : Int32} (hcount : 3≤count.toInt)
  (hlength : (samples.length : ℤ)=count.toInt) (hfits : Fits samples)

include hcount hlength hfits

/-- Samples that fit have an average, the truncated mean. -/
theorem exists_trimAvg : ∃ (avg : Int32) (e : Extremes (values samples)),
    trimAvg samples count=some avg ∧ avg.toInt=e.mean := by
  have hthree : 3 ≤ samples.length := by omega
  obtain ⟨e⟩ := exists_extremes hthree
  obtain ⟨avg,havg,hmean⟩ := trimAvg_mean hcount hlength e (hfits.trimmed e)
  exact ⟨avg,e,havg,hmean⟩

/-- Every order of the samples has the same average, also one whose partial
sums wrap. -/
theorem trimAvg_of_perm {other : List Int32} (hperm : other.Perm samples) :
    trimAvg other count=trimAvg samples count := by
  have hlength' : (other.length : ℤ)=count.toInt := by rw [hperm.length_eq,hlength]
  have hthree : 3≤other.length := by omega
  obtain ⟨avg,e,havg,hmean⟩ := exists_trimAvg hcount hlength hfits
  obtain ⟨e'⟩ := exists_extremes hthree
  have hfits' : InInt32 e'.trimmed := by
    rw [e'.trimmed_perm e (values_perm hperm)]
    exact hfits.trimmed e
  obtain ⟨avg',havg',hmean'⟩ := trimAvg_mean hcount hlength' e' hfits'
  have hsame : avg'=avg := by
    rw [←Int32.toInt_inj,hmean',hmean,e'.mean_perm e (values_perm hperm)]
  rw [havg',havg,hsame]

/-- Raised samples that fit have no smaller average. -/
theorem trimAvg_of_raised {other : List Int32}
    (hraised : List.Forall₂ (· ≤ ·) samples other) (hfits' : Fits other) {avg : Int32}
    (havg : trimAvg samples count=some avg) :
    ∃ raised,trimAvg other count=some raised ∧ avg ≤ raised := by
  have hlength' : (other.length : ℤ)=count.toInt := by rw [←hraised.length_eq,hlength]
  obtain ⟨avg₀,e,havg₀,hmean⟩ := exists_trimAvg hcount hlength hfits
  obtain ⟨raised,e',hreturns,hmean'⟩ := exists_trimAvg hcount hlength' hfits'
  obtain rfl : avg₀=avg := Option.some.inj (havg₀.symm.trans havg)
  have hthree : 3≤(values samples).length := by
    rw [values_length]
    omega
  refine ⟨raised,hreturns,?_⟩
  rw [Int32.le_iff_toInt_le,hmean,hmean']
  exact Extremes.mean_mono (values_forall₂ hraised) hthree e e'

/-- The average lies between two of the samples, which bound all of them. -/
theorem trimAvg_between {avg : Int32} (havg : trimAvg samples count=some avg) :
    ∃ smallest∈samples,∃ largest∈samples,(∀ s∈samples,smallest ≤ s ∧ s ≤ largest) ∧
      smallest ≤ avg ∧ avg ≤ largest := by
  obtain ⟨avg₀,e,havg₀,hmean⟩ := exists_trimAvg hcount hlength hfits
  obtain rfl : avg₀=avg := Option.some.inj (havg₀.symm.trans havg)
  have hthree : 3≤(values samples).length := by
    rw [values_length]
    omega
  obtain ⟨smallest,hsmallest,hleast⟩ := List.mem_map.mp e.isLeast.1
  obtain ⟨largest,hlargest,hgreatest⟩ := List.mem_map.mp e.isGreatest.1
  refine ⟨smallest,hsmallest,largest,hlargest,fun s hs => ?_,?_⟩
  · rw [Int32.le_iff_toInt_le,Int32.le_iff_toInt_le,hleast,hgreatest]
    exact ⟨e.isLeast.2 (List.mem_map_of_mem hs),e.isGreatest.2 (List.mem_map_of_mem hs)⟩
  · rw [Int32.le_iff_toInt_le,Int32.le_iff_toInt_le,hleast,hgreatest,hmean]
    exact e.mean_between hthree

end Average

/-! ### What the callers guarantee -/

/-- The sum of bounded integers. -/
theorem abs_sum_le {l : List ℤ} {bound : ℤ} (h : ∀ x∈l,|x|≤bound) :
    |l.sum|≤l.length*bound := by
  rw [abs_le]
  constructor
  · have hlow := l.card_nsmul_le_sum (-bound) fun x hx => (abs_le.mp (h x hx)).1
    rwa [nsmul_eq_mul,mul_neg] at hlow
  · have hhigh := l.sum_le_card_nsmul bound fun x hx => (abs_le.mp (h x hx)).2
    rwa [nsmul_eq_mul] at hhigh

/-- Samples fit where each is small against their number. -/
theorem fits_of_bound {samples : List Int32} {bound : ℤ}
    (h : ∀ s∈samples,|s.toInt|≤bound) (hbound : 0≤bound)
    (hsmall : (samples.length+2)*bound < 2^31) : Fits samples := by
  have hvalues : ∀ x∈values samples,|x|≤bound := by
    intro x hx
    obtain ⟨s,hs,rfl⟩ := List.mem_map.mp hx
    exact h s hs
  have hall := abs_le.mp (abs_sum_le hvalues)
  rw [values_length] at hall
  have htwice : (samples.length+2)*bound=samples.length*bound+2*bound := by ring
  refine ⟨fun k => ?_,fun e => ?_,fun e => ?_⟩
  · have htake : ∀ x∈(values samples).take k,|x|≤bound := fun x hx =>
      hvalues x (List.mem_of_mem_take hx)
    have hcount : ((values samples).take k).length*bound ≤ samples.length*bound := by
      have hlen : ((values samples).take k).length ≤ samples.length := by
        rw [List.length_take,values_length]
        exact min_le_right _ _
      gcongr
    have hsum := abs_le.mp (abs_sum_le htake)
    constructor <;> omega
  · have hleast := abs_le.mp (hvalues _ e.isLeast.1)
    constructor <;> omega
  · have hleast := abs_le.mp (hvalues _ e.isLeast.1)
    have hgreatest := abs_le.mp (hvalues _ e.isGreatest.1)
    rw [Extremes.trimmed]
    constructor <;> omega

/-- Small samples have an average that is as small. -/
theorem trimAvg_of_bound {samples : List Int32} {count : Int32} {bound : ℤ}
    (hcount : 3≤count.toInt) (hlength : (samples.length : ℤ)=count.toInt)
    (h : ∀ s∈samples,|s.toInt|≤bound) (hbound : 0≤bound)
    (hsmall : (samples.length+2)*bound < 2^31) :
    ∃ avg,trimAvg samples count=some avg ∧ |avg.toInt|≤bound := by
  have hfits := fits_of_bound h hbound hsmall
  obtain ⟨avg,-,havg,-⟩ := exists_trimAvg hcount hlength hfits
  obtain ⟨smallest,hsmallest,largest,hlargest,-,hlow,hhigh⟩ :=
    trimAvg_between hcount hlength hfits havg
  rw [Int32.le_iff_toInt_le] at hlow hhigh
  have hleast := abs_le.mp (h smallest hsmallest)
  have hgreatest := abs_le.mp (h largest hlargest)
  exact ⟨avg,havg,abs_le.mpr ⟨hleast.1.trans hlow,hhigh.trans hgreatest.2⟩⟩

/-- A number of degrees. -/
def Degree (v : Int32) : Prop := |v.toInt|≤20

/-- `CLAMP` keeps its bounds. -/
theorem clamp_within {val low high : Int32} (h : low ≤ high) :
    low ≤ clamp val low high ∧ clamp val low high ≤ high := by
  simp only [clamp,Int32.le_iff_toInt_le,Int32.lt_iff_toInt_lt] at h ⊢
  split
  · omega
  · split
    · omega
    · omega

/-- Every voltage gives a number of degrees, also one that overflowed before. -/
theorem xyDegree_degree (valMv : Int32) : Degree (xyDegree valMv) := by
  obtain ⟨hlow,hhigh⟩ := @clamp_within (valMv*10/6) 500 4500 (by decide)
  rw [xyDegree]
  generalize clamp (valMv*10/6) 500 4500=c at hlow hhigh
  rw [Int32.le_iff_toInt_le] at hlow hhigh
  have h500 : (500 : Int32).toInt=500 := rfl
  have h4500 : (4500 : Int32).toInt=4500 := rfl
  have hsub : (c-500).toInt=c.toInt-500 := by
    rw [Int32.toInt_sub,h500]
    exact InInt32.bmod_eq ⟨by omega,by omega⟩
  have hmul : ((c-500)*40).toInt=(c.toInt-500)*40 := by
    have h40 : (40 : Int32).toInt=40 := rfl
    rw [Int32.toInt_mul,hsub,h40]
    exact InInt32.bmod_eq ⟨by omega,by omega⟩
  have hdiv : ((c-500)*40/4000).toInt=(c.toInt-500)*40/4000 := by
    have h4000 : (4000 : Int32).toInt=4000 := rfl
    rw [Int32.toInt_div_of_ne_right _ _ (by decide),hmul,h4000]
    exact Int.tdiv_eq_ediv_of_nonneg (by omega)
  have hdegree : ((c-500)*40/4000-20).toInt=(c.toInt-500)*40/4000-20 := by
    have h20 : (20 : Int32).toInt=20 := rfl
    rw [Int32.toInt_sub,hdiv,h20]
    exact InInt32.bmod_eq ⟨by omega,by omega⟩
  rw [Degree,hdegree,abs_le]
  omega

/-- An array of `adc_read_thread`. -/
structure Degrees (samples : List Int32) : Prop where
  /-- Its size. -/
  length : samples.length=xySampleCount
  /-- What is in it. -/
  degree : ∀ s∈samples,Degree s

/-- A sample of the array is replaced. -/
theorem Degrees.set {samples : List Int32} (h : Degrees samples) (idx : ℕ) {v : Int32}
    (hv : Degree v) : Degrees (samples.set idx v) where
  length := by rw [List.length_set,h.length]
  degree s hs := by
    rcases List.mem_or_eq_of_mem_set hs with hold | rfl
    · exact h.degree s hold
    · exact hv

/-- Ten numbers of degrees are small against the `int32_t`. -/
theorem Degrees.small {samples : List Int32} (h : Degrees samples) :
    ((samples.length : ℤ)+2)*20 < 2^31 := by
  rw [h.length,xySampleCount]
  norm_num

/-- Its sums fit. -/
theorem Degrees.fits {samples : List Int32} (h : Degrees samples) : Fits samples :=
  fits_of_bound h.degree (by omega) h.small

/-- Its average is a number of degrees. -/
theorem Degrees.trimAvg {samples : List Int32} (h : Degrees samples) :
    ∃ avg,trimAvg samples (Int32.ofNat xySampleCount)=some avg ∧ Degree avg := by
  have hlength : (samples.length : ℤ)=(Int32.ofNat xySampleCount).toInt := by
    rw [h.length]
    rfl
  have hcount : 3≤(Int32.ofNat xySampleCount).toInt := by decide
  exact trimAvg_of_bound hcount hlength h.degree (by omega) h.small

/-- What every pass of `adc_read_thread` keeps. -/
structure AdcRead.Bounded (s : AdcRead) : Prop where
  /-- `x_samples`. -/
  xSamples : Degrees s.xSamples
  /-- `y_samples`. -/
  ySamples : Degrees s.ySamples
  /-- `x_degree`. -/
  xDegree : Degree s.xDegree
  /-- `y_degree`. -/
  yDegree : Degree s.yDegree

/-- It holds at the start. -/
theorem AdcRead.start_bounded : AdcRead.start.Bounded := by
  have hzero : Degree 0 := by
    rw [Degree,Int32.toInt_zero,abs_zero]
    omega
  have hzeros : Degrees (List.replicate xySampleCount 0) :=
    ⟨List.length_replicate,fun s hs => (List.eq_of_mem_replicate hs) ▸ hzero⟩
  exact ⟨hzeros,hzeros,hzero,hzero⟩

/-- A channel. -/
theorem AdcRead.Bounded.readChannel {s : AdcRead} (h : s.Bounded) (p : Pass) (idx i : ℕ) :
    (s.readChannel p idx i).Bounded := by
  rw [AdcRead.readChannel]
  split
  · exact h
  · rename_i valMv hread
    split
    · exact {h with xSamples := h.xSamples.set idx (xyDegree_degree valMv)}
    · exact {h with ySamples := h.ySamples.set idx (xyDegree_degree valMv)}

/-- All channels of all samples. -/
theorem AdcRead.Bounded.sample {s : AdcRead} (h : s.Bounded) (p : Pass) : (s.sample p).Bounded :=
  finalState_preserves (fun _ idx hs => finalState_preserves
    (fun _ i ht => ht.readChannel p idx i) hs _) h _

/-- News. -/
theorem AdcRead.Bounded.update {s : AdcRead} (h : s.Bounded) {x y : Int32} (hx : Degree x)
    (hy : Degree y) (uptime : Word) : (s.update x y uptime).Bounded := by
  rw [AdcRead.update]
  split
  · exact {h with xDegree := hx,yDegree := hy}
  · exact h

/-- A pass gives `trim_avg` arrays that fit, and keeps the bounds. -/
theorem AdcRead.Bounded.pass {s : AdcRead} (h : s.Bounded) (p : Pass) :
    ∃ next : AdcRead,s.pass p=some (next,next.report p.hButton) ∧ next.Bounded := by
  have hsampled := h.sample p
  obtain ⟨x,hx,hxDegree⟩ := hsampled.xSamples.trimAvg
  obtain ⟨y,hy,hyDegree⟩ := hsampled.ySamples.trimAvg
  refine ⟨(s.sample p).update x y p.uptime,?_,hsampled.update hxDegree hyDegree p.uptime⟩
  simp only [AdcRead.pass,hx,hy,Option.bind_eq_bind,Option.bind_some]

/-- A number of degrees survives the cut to sixteen bits. -/
theorem Degree.setWidth_toInt {v : Int32} (h : Degree v) :
    (v.toBitVec.setWidth 16).toInt=v.toInt := by
  have hdvd : 2^16 ∣ 2^32 := by norm_num
  have hwide : v.toInt=(v.toBitVec.toNat : ℤ).bmod (2^32) := BitVec.toInt_eq_toNat_bmod _
  have hcut : (v.toBitVec.setWidth 16).toInt=v.toInt.bmod (2^16) := by
    rw [BitVec.toInt_setWidth,hwide,Int.bmod_bmod_of_dvd hdvd]
  obtain ⟨hlow,hhigh⟩ := abs_le.mp h
  rw [hcut]
  exact Int.bmod_eq_of_le (by norm_num; omega) (by norm_num; omega)

/-- A report reads as the degrees it was made of. -/
theorem AdcRead.Bounded.report {s : AdcRead} (h : s.Bounded) (hButton : Byte) :
    (sysGetBe16 (s.report hButton) 0).toInt=s.xDegree.toInt ∧
      (sysGetBe16 (s.report hButton) 2).toInt=s.yDegree.toInt := by
  constructor
  · rw [AdcRead.report,List.append_assoc,sysGetBe16_sysPutBe16]
    exact h.xDegree.setWidth_toInt
  · have hsecond : sysGetBe16 (s.report hButton) 2=
        sysGetBe16 (sysPutBe16 (s.yDegree.toBitVec.setWidth 16)++[hButton,0xff,0xff,0xff]) 0 := rfl
    rw [hsecond,sysGetBe16_sysPutBe16]
    exact h.yDegree.setWidth_toInt

/-- `adc_read_thread` gets an average in every pass, and reports degrees from -20
to 20. -/
theorem AdcRead.run_bounded {s : AdcRead} (h : s.Bounded) (ps : List Pass) :
    ∃ last reports,s.run ps=some (last,reports) ∧ last.Bounded ∧ reports.length=ps.length ∧
      ∀ r∈reports,|(sysGetBe16 r 0).toInt|≤20 ∧ |(sysGetBe16 r 2).toInt|≤20 := by
  induction ps generalizing s with
  | nil => exact ⟨s,[],rfl,h,rfl,fun r hr => absurd hr List.not_mem_nil⟩
  | cons p ps ih =>
    obtain ⟨next,hpass,hnext⟩ := h.pass p
    obtain ⟨last,reports,hrun,hlast,hlength,hreports⟩ := ih hnext
    obtain ⟨hx,hy⟩ := hnext.report p.hButton
    refine ⟨last,next.report p.hButton::reports,?_,hlast,?_,?_⟩
    · simp only [AdcRead.run,hpass,hrun,Option.bind_eq_bind,Option.bind_some]
    · rw [List.length_cons,List.length_cons,hlength]
    · rw [List.forall_mem_cons,hx,hy]
      exact ⟨⟨hnext.xDegree,hnext.yDegree⟩,hreports⟩

/-- For samples whose sums and differences fit, from three on, `trim_avg` returns
an average. It is the same in every order of the samples, even where the
sums of that order wrap; it does not fall when samples rise; it lies between
the smallest and the largest sample, and is the common value where all are equal.
The arrays that `adc_read_thread` hands over fit in every run, whatever is read. -/
theorem trimAvg_average :
    (∀ (samples : List Int32) (count : Int32),3≤count.toInt →
      (samples.length : ℤ)=count.toInt → Fits samples →
      ∃ avg,trimAvg samples count=some avg ∧
        (∀ other,other.Perm samples → trimAvg other count=some avg) ∧
        (∀ other,List.Forall₂ (· ≤ ·) samples other → Fits other →
          ∃ raised,trimAvg other count=some raised ∧ avg ≤ raised) ∧
        (∃ smallest∈samples,∃ largest∈samples,(∀ s∈samples,smallest ≤ s ∧ s ≤ largest) ∧
          smallest ≤ avg ∧ avg ≤ largest) ∧
        ∀ common,(∀ s∈samples,s=common) → avg=common) ∧
      ∀ ps,∃ last reports,AdcRead.start.run ps=some (last,reports) ∧
        Fits last.xSamples ∧ Fits last.ySamples := by
  constructor
  · intro samples count hcount hlength hfits
    obtain ⟨avg,-,havg,-⟩ := exists_trimAvg hcount hlength hfits
    have hbetween := trimAvg_between hcount hlength hfits havg
    refine ⟨avg,havg,?_,?_,hbetween,?_⟩
    · intro other hperm
      rw [trimAvg_of_perm hcount hlength hfits hperm,havg]
    · intro other hraised hfits'
      exact trimAvg_of_raised hcount hlength hfits hraised hfits' havg
    · intro common hall
      obtain ⟨smallest,hsmallest,largest,hlargest,-,hlow,hhigh⟩ := hbetween
      rw [hall smallest hsmallest] at hlow
      rw [hall largest hlargest] at hhigh
      exact Int32.le_antisymm hhigh hlow
  · intro ps
    obtain ⟨last,reports,hrun,hlast,-⟩ := AdcRead.run_bounded AdcRead.start_bounded ps
    exact ⟨last,reports,hrun,hlast.xSamples.fits,hlast.ySamples.fits⟩

/-- Samples on both sides of zero. -/
def mixedSamples : List Int32 := [-7,-2,-1,4]

/-- They fit, and average the same in every order. -/
theorem mixedSamples_average :
    Fits mixedSamples ∧ ∃ avg,trimAvg mixedSamples 4=some avg ∧
      ∀ other,other.Perm mixedSamples → trimAvg other 4=some avg := by
  have hvalues : values mixedSamples=[-7,-2,-1,4] := rfl
  have hbound : ∀ s∈mixedSamples,|s.toInt|≤7 := fun s hs => by
    have hvalue : s.toInt∈values mixedSamples := List.mem_map_of_mem hs
    have hall : ∀ x∈([-7,-2,-1,4] : List ℤ),|x|≤7 := by decide
    exact hall _ (hvalues ▸ hvalue)
  have hsmall : ((mixedSamples.length : ℤ)+2)*7 < 2^31 := by norm_num [mixedSamples]
  have hfits := fits_of_bound hbound (by decide) hsmall
  obtain ⟨avg,havg,hperm,-⟩ := trimAvg_average.1 mixedSamples 4 (by decide) rfl hfits
  exact ⟨hfits,avg,havg,hperm⟩

/-- What every pass of `adc_power_thread` keeps. -/
structure AdcPower.Bounded (s : AdcPower) : Prop where
  /-- The size of the array. -/
  length : s.powerSamples.length=powerSampleCount
  /-- The next sample is written inside it. -/
  index : s.powerSampleIdx < powerSampleCount
  /-- Doubled voltages. -/
  samples : ∀ v∈s.powerSamples,|v.toInt|≤2^27
  /-- Their average. -/
  powerMv : |s.powerMv.toInt|≤2^27

/-- It holds at the start. -/
theorem AdcPower.start_bounded : AdcPower.start.Bounded where
  length := List.length_replicate
  index := by decide
  samples v hv := by
    rw [List.eq_of_mem_replicate hv,Int32.toInt_zero,abs_zero]
    norm_num
  powerMv := by
    rw [AdcPower.start,Int32.toInt_zero,abs_zero]
    norm_num

/-- A voltage that fits doubled. -/
theorem doubled_toInt {v : Int32} (h : |v.toInt|≤2^26) : (v*2).toInt=v.toInt*2 := by
  have htwo : (2 : Int32).toInt=2 := rfl
  obtain ⟨hlow,hhigh⟩ := abs_le.mp h
  rw [Int32.toInt_mul,htwo]
  exact InInt32.bmod_eq ⟨by omega,by omega⟩

/-- The samples after a reading: a voltage is stored in place, or there is none. -/
theorem AdcPower.Bounded.store {s : AdcPower} (h : s.Bounded) {reading : Option Int32}
    (hreading : ∀ v,reading=some v → |v.toInt|≤2^26) :
    (s.store reading).powerSamples.length=powerSampleCount ∧
      (∀ v∈(s.store reading).powerSamples,|v.toInt|≤2^27) ∧
      (s.store reading).powerMv=s.powerMv := by
  cases reading with
  | none => exact ⟨h.length,h.samples,rfl⟩
  | some valMv =>
    refine ⟨List.length_set.trans h.length,fun v hv => ?_,rfl⟩
    rcases List.mem_or_eq_of_mem_set hv with hold | rfl
    · exact h.samples v hold
    · obtain ⟨hlow,hhigh⟩ := abs_le.mp (hreading valMv rfl)
      rw [doubled_toInt (hreading valMv rfl),abs_le]
      omega

/-- Where the driver converts to at most 2^26 mV, a pass gets its average. -/
theorem AdcPower.Bounded.pass {s : AdcPower} (h : s.Bounded) {reading : Option Int32}
    (hreading : ∀ v,reading=some v → |v.toInt|≤2^26) :
    ∃ next,s.pass reading=some next ∧ next.Bounded := by
  obtain ⟨hlength,hsamples,hpower⟩ := h.store hreading
  by_cases hfull : powerSampleCount ≤ (s.store reading).powerSampleIdx
  · have hcount : ((s.store reading).powerSamples.length : ℤ)=
        (Int32.ofNat powerSampleCount).toInt := by
      rw [hlength]
      rfl
    have hsmall : (((s.store reading).powerSamples.length : ℤ)+2)*2^27 < 2^31 := by
      rw [hlength,powerSampleCount]
      norm_num
    obtain ⟨avg,havg,hbound⟩ := trimAvg_of_bound (by decide) hcount hsamples (by norm_num) hsmall
    have hfirst : 0 < powerSampleCount := by decide
    refine ⟨{s.store reading with powerSampleIdx := 0,powerMv := avg},?_,hlength,hfirst,
      hsamples,hbound⟩
    simp only [AdcPower.pass,if_pos hfull,havg,Option.bind_eq_bind,Option.bind_some]
  · refine ⟨s.store reading,?_,hlength,not_le.mp hfull,hsamples,?_⟩
    · simp only [AdcPower.pass,if_neg hfull]
    · rw [hpower]
      exact h.powerMv

/-- `adc_power_thread` on such a driver gets an average whenever its array is full, and
never writes behind it. -/
theorem AdcPower.run_bounded {s : AdcPower} (h : s.Bounded) {readings : List (Option Int32)}
    (hreadings : ∀ v,some v∈readings → |v.toInt|≤2^26) :
    ∃ last,readings.foldlM AdcPower.pass s=some last ∧ last.Bounded := by
  induction readings generalizing s with
  | nil => exact ⟨s,rfl,h⟩
  | cons reading readings ih =>
    have hhead : ∀ v,reading=some v → |v.toInt|≤2^26 := fun v hv =>
      hreadings v (hv ▸ List.mem_cons_self)
    obtain ⟨next,hpass,hnext⟩ := h.pass hhead
    obtain ⟨last,hrun,hlast⟩ := ih hnext fun v hv => hreadings v (List.mem_cons_of_mem _ hv)
    refine ⟨last,?_,hlast⟩
    rw [List.foldlM_cons,hpass,Option.bind_eq_bind,Option.bind_some,hrun]

end ZephyrApp.AdcSamples

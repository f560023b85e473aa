import ZephyrApp.EventRuns
import ZephyrApp.MachineBytes

/-!
# Signal quality of the handler's radio link

Each transmission moves a truncating average towards the score of its result,
and the average is shown in five bands. From 28 on, the full band, the average
never rises or falls under good transmissions; below it the truncation holds
it at 25, one band short.
-/

namespace ZephyrApp.LinkQuality

open EventRuns MachineBytes

/-- What `nrf24_send` reports of a transmission. -/
structure TxResult where
  /-- `acked`. -/
  acked : Bool
  /-- `retransmits`. -/
  retransmits : Byte
deriving DecidableEq

/-- `RF24_QUAL_ALPHA_NUM`. -/
abbrev rf24QualAlphaNum : ℤ := 1

/-- `RF24_QUAL_ALPHA_DEN`. -/
abbrev rf24QualAlphaDen : ℤ := 8

/-- `RF24_QUAL_FAIL_DROP`. -/
abbrev rf24QualFailDrop : ℤ := 2*rf24QualAlphaDen

/-- `RF24_QUAL_INIT`. -/
abbrev rf24QualInit : ℤ := 4*rf24QualAlphaDen

/-- `rf24_tx_level`. -/
def rf24TxLevel (r : TxResult) : ℕ :=
  if ¬r.acked then 0
  else if r.retransmits.toNat ≤ 1 then 4
  else if r.retransmits.toNat ≤ 4 then 3
  else if r.retransmits.toNat ≤ 9 then 2
  else 1

/-- The average and the level on the display. -/
structure Link where
  /-- `rf24_quality`. -/
  quality : ℤ
  /-- `global_params.rssi`. -/
  rssi : ℕ
deriving DecidableEq

/-- The average after a transmission. -/
def updateQuality (quality : ℤ) (r : TxResult) : ℤ :=
  let quality := (rf24TxLevel r*rf24QualAlphaDen*rf24QualAlphaNum+
    quality*(rf24QualAlphaDen-rf24QualAlphaNum)).tdiv rf24QualAlphaDen
  if ¬r.acked then
    let quality := quality-rf24QualFailDrop
    if quality < 0 then 0 else quality
  else quality

/-- The band of an average. -/
def levelOf (quality : ℤ) : ℕ :=
  if 28 ≤ quality then 4
  else if 20 ≤ quality then 3
  else if 12 ≤ quality then 2
  else if 4 ≤ quality then 1
  else 0

/-- `rf24_update_rssi`. -/
def rf24UpdateRssi (s : Link) (r : TxResult) : Link :=
  let quality := updateQuality s.quality r
  let level := levelOf quality
  ⟨quality,if s.rssi≠level then level else s.rssi⟩

/-- What happens to the link. -/
inductive Event where
  /-- A transmission ended with this result. -/
  | sent (r : TxResult)
  /-- `rf24_init` started reception and reset the average, not the display. -/
  | init
deriving DecidableEq

/-- The link after an event. -/
def next (s : Link) : Event → Link
  | .sent r => rf24UpdateRssi s r
  | .init => ⟨rf24QualInit,s.rssi⟩

/-- The statics at start. -/
def boot : Link := ⟨rf24QualInit,0⟩

/-- An acknowledged transmission with at most one retransmit. -/
def Good (r : TxResult) : Prop := r.acked ∧ r.retransmits.toNat ≤ 1

instance (r : TxResult) : Decidable (Good r) := inferInstanceAs (Decidable (_ ∧ _))

/-- A transmission that failed. -/
def Failed (r : TxResult) : Prop := r.acked=false

instance (r : TxResult) : Decidable (Failed r) := inferInstanceAs (Decidable (_=_))

/-- The levels on the display before a run of transmissions and after each. -/
def shown (s : Link) (run : List TxResult) : List ℕ :=
  s.rssi::outputs rf24UpdateRssi (fun s r => (rf24UpdateRssi s r).rssi) s run

/-- The display recovers from a state and follows the link down, and its level
changes one way along each such run. -/
structure Recovers (s : Link) : Prop where
  /-- A long run of good transmissions ends at the full level. -/
  full : ∃ n,∀ run : List TxResult,n≤run.length → (∀ r∈run,Good r) →
    (finalState rf24UpdateRssi s run).rssi=4
  /-- A long run of failures ends at zero. -/
  empty : ∃ n,∀ run : List TxResult,n≤run.length → (∀ r∈run,Failed r) →
    (finalState rf24UpdateRssi s run).rssi=0
  /-- The level does not fall along a run of good transmissions. -/
  rising : ∀ run : List TxResult,(∀ r∈run,Good r) → (shown s run).Pairwise (· ≤ ·)
  /-- The level does not rise along a run of failures. -/
  falling : ∀ run : List TxResult,(∀ r∈run,Failed r) → (shown s run).Pairwise (· ≥ ·)

/-- The average is on its scale, and the display shows its band unless the
average was just reset. -/
structure Scaled (s : Link) : Prop where
  /-- The average is not negative. -/
  lower : 0 ≤ s.quality
  /-- The average is at most the full score. -/
  upper : s.quality ≤ 32
  /-- The display has five levels. -/
  rssi : s.rssi ≤ 4
  /-- The level is the band of the average. -/
  level : s.quality≠32 → s.rssi=levelOf s.quality

section Steps

variable {s : Link} {r : TxResult}

/-- An update shows the band of the average that it computes. -/
theorem rf24UpdateRssi_eq (s : Link) (r : TxResult) :
    rf24UpdateRssi s r=⟨updateQuality s.quality r,levelOf (updateQuality s.quality r)⟩ := by
  rw [rf24UpdateRssi]
  split <;> simp_all

/-- A score is at most four. -/
theorem rf24TxLevel_le (r : TxResult) : rf24TxLevel r ≤ 4 := by
  rw [rf24TxLevel]
  repeat' split
  all_goals omega

/-- There are five bands. -/
theorem levelOf_le (q : ℤ) : levelOf q ≤ 4 := by
  rw [levelOf]
  repeat' split
  all_goals omega

/-- A larger average has no lower band. -/
theorem levelOf_mono : Monotone levelOf := by
  intro p q hpq
  rw [levelOf,levelOf]
  repeat' split
  all_goals omega

/-- The average after a transmission, in numbers. -/
theorem updateQuality_eq (r : TxResult) {q : ℤ} (hq : 0 ≤ q) :
    updateQuality q r=if r.acked then (rf24TxLevel r*8+q*7)/8 else max 0 (q*7/8-16) := by
  have hsum : (rf24TxLevel r*rf24QualAlphaDen*rf24QualAlphaNum+
      q*(rf24QualAlphaDen-rf24QualAlphaNum)).tdiv rf24QualAlphaDen=
        (rf24TxLevel r*8+q*7)/8 := by
    norm_num
    exact Int.tdiv_eq_ediv_of_nonneg (by omega)
  rw [updateQuality,hsum]
  cases hacked : r.acked with
  | true => rfl
  | false =>
    have hscore : rf24TxLevel r=0 := by simp only [rf24TxLevel,hacked]; rfl
    simp only [hscore,Bool.false_eq_true,not_false_eq_true,if_true,if_false,rf24QualFailDrop,
      rf24QualAlphaDen]
    omega

/-- The average after a good transmission. -/
theorem updateQuality_good {r : TxResult} (hr : Good r) {q : ℤ} (hq : 0 ≤ q) :
    updateQuality q r=(32+q*7)/8 := by
  have hscore : rf24TxLevel r=4 := by simp only [rf24TxLevel,hr.1,hr.2]; rfl
  rw [updateQuality_eq r hq,hscore,if_pos hr.1]
  rfl

/-- The average after a failure. -/
theorem updateQuality_failed {r : TxResult} (hr : Failed r) {q : ℤ} (hq : 0 ≤ q) :
    updateQuality q r=max 0 (q*7/8-16) := by
  rw [updateQuality_eq r hq,if_neg (by rw [show r.acked=false from hr]; decide)]

/-- Every update keeps the average on its scale. -/
theorem updateQuality_mem {q : ℤ} (hlower : 0 ≤ q) (hupper : q ≤ 32) (r : TxResult) :
    0 ≤ updateQuality q r ∧ updateQuality q r ≤ 32 := by
  have hscore := rf24TxLevel_le r
  rw [updateQuality_eq r hlower]
  split <;> omega

/-- An update shows the band of an average on the scale. -/
theorem Scaled.update (hs : Scaled s) (r : TxResult) : Scaled (rf24UpdateRssi s r) := by
  have hq := updateQuality_mem hs.lower hs.upper r
  rw [rf24UpdateRssi_eq]
  exact ⟨hq.1,hq.2,levelOf_le _,fun _ => rfl⟩

/-- Every event keeps the average on its scale. -/
theorem Scaled.next (hs : Scaled s) (e : Event) : Scaled (next s e) := by
  cases e with
  | sent r => exact hs.update r
  | init => exact ⟨show (0 : ℤ)≤ rf24QualInit by decide,show rf24QualInit≤ 32 by decide,hs.rssi,
    fun h => absurd rfl h⟩

/-- Good transmissions neither lift an average over the full band's threshold
nor pull one below it. -/
theorem full_band_kept (hs : Scaled s) (hr : Good r) :
    28 ≤ (rf24UpdateRssi s r).quality ↔ 28 ≤ s.quality := by
  have hlower := hs.lower
  rw [rf24UpdateRssi_eq,updateQuality_good hr hlower]
  dsimp only
  omega

/-- A good transmission does not lower the level. -/
theorem rssi_le_good (hs : Scaled s) (hr : Good r) : s.rssi≤(rf24UpdateRssi s r).rssi := by
  have hlower := hs.lower
  have hupper := hs.upper
  rw [rf24UpdateRssi_eq,updateQuality_good hr hlower]
  by_cases hreset : s.quality=32
  · rw [hreset]
    exact hs.rssi
  · rw [hs.level hreset]
    exact levelOf_mono (by omega)

/-- A failure raises the level only where the average was reset under a low one. -/
theorem rssi_ge_failed_iff (hs : Scaled s) (hr : Failed r) :
    s.rssi≥(rf24UpdateRssi s r).rssi ↔ (s.quality=32 → 2 ≤ s.rssi) := by
  have hlower := hs.lower
  have hupper := hs.upper
  rw [rf24UpdateRssi_eq,updateQuality_failed hr hlower]
  by_cases hreset : s.quality=32
  · rw [hreset]
    exact ⟨fun h _ => h,fun h => h rfl⟩
  · rw [hs.level hreset]
    exact ⟨fun _ h => absurd h hreset,fun _ => levelOf_mono (by omega)⟩

end Steps

section Runs

variable {s : Link}

/-- The states of a run of events are scaled. -/
theorem scaled_run (es : List Event) : Scaled (finalState next boot es) :=
  finalState_preserves (fun _ e hs => hs.next e)
    ⟨show (0 : ℤ)≤ rf24QualInit by decide,show rf24QualInit≤ 32 by decide,by decide,
      fun h => absurd rfl h⟩ es

/-- A run of good transmissions stays on its side of the full band. -/
theorem full_band_run (hs : Scaled s) {run : List TxResult} (hrun : ∀ r∈run,Good r) :
    28 ≤ (finalState rf24UpdateRssi s run).quality ↔ 28 ≤ s.quality := by
  induction run generalizing s with
  | nil => exact Iff.rfl
  | cons r run ih =>
    obtain ⟨hr,hrun⟩ := List.forall_mem_cons.mp hrun
    exact (ih (hs.update r) hrun).trans (full_band_kept hs hr)

/-- After a run with at least one transmission the display shows the band. -/
theorem rssi_run (s : Link) {run : List TxResult} (hrun : run≠[]) :
    (finalState rf24UpdateRssi s run).rssi=
      levelOf (finalState rf24UpdateRssi s run).quality := by
  obtain ⟨first,r,rfl⟩ := (List.eq_nil_or_concat run).resolve_left hrun
  rw [finalState,List.concat_eq_append,List.foldl_concat,rf24UpdateRssi_eq]

/-- Good transmissions lead to the full level exactly from the full band. -/
theorem full_iff (hs : Scaled s) :
    (∃ n,∀ run : List TxResult,n≤run.length → (∀ r∈run,Good r) →
      (finalState rf24UpdateRssi s run).rssi=4) ↔ 28 ≤ s.quality := by
  have hband : ∀ q : ℤ,levelOf q=4 ↔ 28 ≤ q := by
    intro q
    rw [levelOf]
    repeat' split
    all_goals omega
  constructor
  · rintro ⟨n,h⟩
    have hgood : ∀ r∈List.replicate (n+1) (⟨true,0⟩ : TxResult),Good r := by
      intro r hr
      rw [List.eq_of_mem_replicate hr]
      decide
    have hfull := h _ (by simp only [List.length_replicate]; omega) hgood
    rw [rssi_run s (by simp only [List.replicate_succ]; exact List.cons_ne_nil _ _),hband] at hfull
    exact (full_band_run hs hgood).mp hfull
  · intro hq
    refine ⟨1,fun run hlength hgood => ?_⟩
    rw [rssi_run s (List.length_pos_iff.mp hlength),hband]
    exact (full_band_run hs hgood).mpr hq

/-- Good transmissions lift an average to 25, one step each. -/
theorem quality_climbs (hs : Scaled s) {run : List TxResult} (hrun : ∀ r∈run,Good r) :
    min 25 (s.quality+run.length) ≤ (finalState rf24UpdateRssi s run).quality := by
  induction run generalizing s with
  | nil => exact (min_le_right _ _).trans (by simp [finalState])
  | cons r run ih =>
    obtain ⟨hr,hrun⟩ := List.forall_mem_cons.mp hrun
    have hrest := ih (hs.update r) hrun
    have hstep := updateQuality_good hr hs.lower
    rw [rf24UpdateRssi_eq] at hrest
    dsimp only at hrest
    change _≤(finalState rf24UpdateRssi (rf24UpdateRssi s r) run).quality
    rw [rf24UpdateRssi_eq,List.length_cons]
    push_cast
    omega

/-- From below the full band, twenty good transmissions bring the display to
the third level, and no later one to the fourth. -/
theorem settles_below_full (hs : Scaled s) (hq : s.quality < 28) {run : List TxResult}
    (hlength : 20≤run.length) (hrun : ∀ r∈run,Good r) :
    (finalState rf24UpdateRssi s run).rssi=3 := by
  have hlower := hs.lower
  have hclimbs := quality_climbs hs hrun
  have hside : ¬28 ≤ (finalState rf24UpdateRssi s run).quality := by
    rw [full_band_run hs hrun]
    omega
  rw [rssi_run s (List.length_pos_iff.mp (by omega)),levelOf,if_neg hside,if_pos (by omega)]

/-- Two failures bring every average and the display to zero. -/
theorem empty_after_two (hs : Scaled s) {run : List TxResult} (hlength : 2≤run.length)
    (hrun : ∀ r∈run,Failed r) : (finalState rf24UpdateRssi s run).rssi=0 := by
  have hzero : ∀ t : Link,t.quality=0 → ∀ rest : List TxResult,(∀ r∈rest,Failed r) →
      (finalState rf24UpdateRssi t rest).quality=0 := by
    intro t ht rest hrest
    refine (throughout_of_invariant (I := fun t : Link => t.quality=0)
      (fun t r ht hr => ?_) ht
      (alongRun_forall.mpr hrest)).last
    rw [rf24UpdateRssi_eq,updateQuality_failed hr (le_of_eq ht.symm)]
    dsimp only
    omega
  obtain ⟨r1,r2,rest,rfl⟩ : ∃ r1 r2 rest,run=r1::r2::rest := by
    match run,hlength with
    | r1::r2::rest,_ => exact ⟨r1,r2,rest,rfl⟩
  obtain ⟨hr1,hr2,hrest⟩ := by simpa only [List.forall_mem_cons] using hrun
  have hupper := hs.upper
  have hfirst := updateQuality_failed hr1 hs.lower
  have hsecond := updateQuality_failed hr2 (hs.update r1).lower
  rw [rf24UpdateRssi_eq] at hsecond
  dsimp only at hsecond
  have hq : (rf24UpdateRssi (rf24UpdateRssi s r1) r2).quality=0 := by
    rw [rf24UpdateRssi_eq,rf24UpdateRssi_eq]
    dsimp only
    omega
  rw [rssi_run s (List.cons_ne_nil _ _),show finalState rf24UpdateRssi s (r1::r2::rest)=
    finalState rf24UpdateRssi (rf24UpdateRssi (rf24UpdateRssi s r1) r2) rest from rfl,
    hzero _ hq rest hrest]
  rfl

/-- The level never falls along good transmissions. -/
theorem rising_of_scaled (hs : Scaled s) {run : List TxResult} (hrun : ∀ r∈run,Good r) :
    (shown s run).Pairwise (· ≤ ·) :=
  pairwise_observed (alongRun_of_invariant (I := Scaled)
    (fun _ r hs hr => ⟨hs.update r,rssi_le_good hs hr⟩) hs (alongRun_forall.mpr hrun))

/-- The level never rises along failures exactly if the first one does not
raise it. -/
theorem falling_iff (hs : Scaled s) :
    (∀ run : List TxResult,(∀ r∈run,Failed r) → (shown s run).Pairwise (· ≥ ·)) ↔
      (s.quality=32 → 2 ≤ s.rssi) := by
  constructor
  · intro h
    have hfailed : Failed ⟨false,0⟩ := rfl
    have hfirst := h [⟨false,0⟩] (by simpa only [List.forall_mem_singleton] using hfailed)
    exact (rssi_ge_failed_iff hs hfailed).mp
      ((List.pairwise_cons.mp hfirst).1 _ (List.mem_singleton.mpr rfl))
  · intro hraised run hrun
    refine pairwise_observed (alongRun_of_invariant
      (I := fun t : Link => Scaled t ∧ (t.quality=32 → 2≤t.rssi)) (fun t r ht hr => ?_) ⟨hs,hraised⟩
      (alongRun_forall.mpr hrun))
    refine ⟨⟨ht.1.update r,fun hreset => ?_⟩,(rssi_ge_failed_iff ht.1 hr).mpr ht.2⟩
    have hupper := ht.1.upper
    rw [rf24UpdateRssi_eq,updateQuality_failed hr ht.1.lower] at hreset
    dsimp only at hreset
    omega

/-- From the state after any run of transmissions and resets, the display
recovers and its level changes one way exactly if the average is in the full
band and, where it was just reset, the display is not below the second level. -/
theorem recovers_iff (es : List Event) :
    Recovers (finalState next boot es) ↔ 28 ≤ (finalState next boot es).quality ∧
      ((finalState next boot es).quality=32 → 2 ≤ (finalState next boot es).rssi) := by
  have hs := scaled_run es
  constructor
  · intro h
    exact ⟨(full_iff hs).mp h.full,(falling_iff hs).mp h.falling⟩
  · rintro ⟨hfull,hfalling⟩
    exact ⟨(full_iff hs).mpr hfull,⟨2,fun _ => empty_after_two hs⟩,fun _ => rising_of_scaled hs,
      (falling_iff hs).mpr hfalling⟩

/-- After one failed transmission the display does not recover. -/
theorem one_failure_sticks :
    ¬∀ es : List Event,Recovers (finalState next boot es) := by
  intro h
  have hs := scaled_run [.sent ⟨false,0⟩]
  have hfull := (full_iff hs).mp (h [.sent ⟨false,0⟩]).full
  revert hfull
  decide

end Runs

end ZephyrApp.LinkQuality

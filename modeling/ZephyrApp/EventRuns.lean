import Mathlib

/-!
# Runs of an event-driven component

A component is a state with a next-state function over its events. A run is
a list of events taken from a start state. Conditions on a step are collected
along a run, properties of a state throughout it, and the invariant rules
carry what one step preserves to every state that the run reaches.
-/

namespace ZephyrApp.EventRuns

variable {σ ε ω : Type*}

/-- The state after a list of events. -/
def finalState (next : σ → ε → σ) (s : σ) (es : List ε) : σ := es.foldl next s

/-- The outputs of the events of a run, in order. -/
def outputs (next : σ → ε → σ) (out : σ → ε → ω) : σ → List ε → List ω
  | _,[] => []
  | s,e::es => out s e::outputs next out (next s e) es

/-- A condition on state and event holds at every step of the run. -/
def AlongRun (next : σ → ε → σ) (C : σ → ε → Prop) : σ → List ε → Prop
  | _,[] => True
  | s,e::es => C s e ∧ AlongRun next C (next s e) es

instance decidableAlongRun (next : σ → ε → σ) (C : σ → ε → Prop) [∀ s e,Decidable (C s e)] :
    (s : σ) → (es : List ε) → Decidable (AlongRun next C s es)
  | _,[] => isTrue trivial
  | s,e::es =>
    have := decidableAlongRun next C (next s e) es
    inferInstanceAs (Decidable (C s e ∧ AlongRun next C (next s e) es))

/-- A property holds in every state of the run, the last one included. -/
def Throughout (next : σ → ε → σ) (P : σ → Prop) : σ → List ε → Prop
  | s,[] => P s
  | s,e::es => P s ∧ Throughout next P (next s e) es

section Rules

variable {next : σ → ε → σ} {out : σ → ε → ω} {C D : σ → ε → Prop} {I P : σ → Prop}

/-- Every state of a run is the final state of one of its prefixes. -/
theorem throughout_iff (s : σ) (es : List ε) :
    Throughout next P s es ↔ ∀ pre,pre<+:es → P (finalState next s pre) := by
  induction es generalizing s with
  | nil => simp only [Throughout,List.prefix_nil,forall_eq,finalState,List.foldl_nil]
  | cons e es ih =>
    rw [Throughout,ih]
    constructor
    · rintro ⟨h0,h⟩ pre hpre
      cases pre with
      | nil => exact h0
      | cons p pre =>
        obtain ⟨rfl,hp⟩ := List.cons_prefix_cons.mp hpre
        exact h pre hp
    · intro h
      refine ⟨h [] List.nil_prefix,fun pre hp => ?_⟩
      exact h (e::pre) (List.cons_prefix_cons.mpr ⟨rfl,hp⟩)

/-- What holds throughout a run holds in its last state. -/
theorem Throughout.last {s : σ} {es : List ε} (h : Throughout next P s es) :
    P (finalState next s es) := (throughout_iff s es).mp h es (List.prefix_refl es)

/-- An invariant kept by every step that meets the condition holds in every
state of a run whose steps all meet it. -/
theorem throughout_of_invariant (hstep : ∀ s e,I s → C s e → I (next s e)) {s : σ} {es : List ε}
    (h0 : I s) (hC : AlongRun next C s es) : Throughout next I s es := by
  induction es generalizing s with
  | nil => exact h0
  | cons e es ih => exact ⟨h0,ih (hstep s e h0 hC.1) hC.2⟩

/-- An invariant that every step keeps holds in the last state of every run. -/
theorem finalState_preserves (hstep : ∀ s e,I s → I (next s e)) {s : σ} (h0 : I s)
    (es : List ε) : I (finalState next s es) := by
  induction es generalizing s with
  | nil => exact h0
  | cons e es ih => exact ih (hstep s e h0)

/-- Two components that stay related over each event are related after a run. -/
theorem finalState_simulation {τ : Type*} {next' : τ → ε → τ} {R : σ → τ → Prop}
    (hstep : ∀ s t e,R s t → R (next s e) (next' t e)) {s : σ} {t : τ} (h0 : R s t)
    (es : List ε) : R (finalState next s es) (finalState next' t es) := by
  induction es generalizing s t with
  | nil => exact h0
  | cons e es ih => exact ih (hstep s t e h0)

/-- A component that stays related to another one, which takes an event for some of its
events, is related to it after a run. -/
theorem finalState_driven {τ δ : Type*} {next' : τ → δ → τ} {given : σ → ε → Option δ}
    {R : σ → τ → Prop} {A : ε → Prop}
    (hstep : ∀ s t e,R s t → A e → R (next s e) ((given s e).elim t (next' t))) {s : σ} {t : τ}
    (h0 : R s t) {es : List ε} (hA : ∀ e∈es,A e) :
    R (finalState next s es) (finalState next' t ((outputs next given s es).filterMap id)) := by
  induction es generalizing s t with
  | nil => exact h0
  | cons e es ih =>
    have hnext := hstep s t e h0 (hA e List.mem_cons_self)
    have hrest := ih hnext fun e' he' => hA e' (List.mem_cons_of_mem e he')
    rw [outputs]
    cases hgiven : given s e with
    | none =>
      rw [hgiven] at hrest
      exact hrest
    | some d =>
      rw [hgiven] at hrest
      exact hrest

/-- Two components that stay related over each event and put out the same give
the same outputs over a run and are related after it. -/
theorem outputs_simulation {τ : Type*} {next' : τ → ε → τ} {out' : τ → ε → ω}
    {R : σ → τ → Prop}
    (hstep : ∀ s t e,R s t → out s e=out' t e ∧ R (next s e) (next' t e)) {s : σ} {t : τ}
    (h0 : R s t) (es : List ε) :
    outputs next out s es=outputs next' out' t es ∧
      R (finalState next s es) (finalState next' t es) := by
  induction es generalizing s t with
  | nil => exact ⟨rfl,h0⟩
  | cons e es ih =>
    obtain ⟨hout,hR⟩ := hstep s t e h0
    obtain ⟨houts,hlast⟩ := ih hR
    rw [outputs,outputs,hout,houts]
    exact ⟨rfl,hlast⟩

/-- A weaker property holds throughout the same run. -/
theorem Throughout.mono (h : ∀ s,I s → P s) {s : σ} {es : List ε}
    (hI : Throughout next I s es) : Throughout next P s es :=
  (throughout_iff s es).mpr fun pre hpre => h _ ((throughout_iff s es).mp hI pre hpre)

/-- Under an invariant that a condition preserves, the condition along a run
gives at every step whatever it gives at one step. -/
theorem alongRun_of_invariant (hstep : ∀ s e,I s → C s e → I (next s e) ∧ D s e) {s : σ}
    {es : List ε} (h0 : I s) (hC : AlongRun next C s es) : AlongRun next D s es := by
  induction es generalizing s with
  | nil => trivial
  | cons e es ih =>
    obtain ⟨hI,hD⟩ := hstep s e h0 hC.1
    exact ⟨hD,ih hI hC.2⟩

/-- What an invariant of all steps gives at one step holds at every step of
every run. -/
theorem alongRun_of_kept (hstep : ∀ s e,I s → I (next s e)) (hD : ∀ s e,I s → D s e) {s : σ}
    (h0 : I s) (es : List ε) : AlongRun next D s es := by
  induction es generalizing s with
  | nil => trivial
  | cons e es ih => exact ⟨hD s e h0,ih (hstep s e h0)⟩

/-- A value that every event sets or leaves alone is, after a run, the one that
was set last. -/
theorem observed_last {α : Type*} {obs : σ → α} {given : ε → Option α}
    (hstep : ∀ s e,I s → I (next s e)) (hobs : ∀ s e,I s → obs (next s e)=(given e).getD (obs s))
    {s : σ} (h0 : I s) (es : List ε) :
    obs (finalState next s es)=(es.filterMap given).getLast?.getD (obs s) := by
  induction es generalizing s with
  | nil => rfl
  | cons e es ih =>
    have hrest := ih (hstep s e h0)
    rw [hobs s e h0] at hrest
    cases hgiven : given e with
    | none =>
      rw [hgiven] at hrest
      rw [List.filterMap_cons_none hgiven]
      exact hrest
    | some a =>
      rw [hgiven] at hrest
      rw [List.filterMap_cons_some hgiven,List.getLast?_cons]
      exact hrest

/-- A component that stays related to a value, which some events replace by what they put
out, is after a run related to the one that was put out last. -/
theorem related_last_output {α : Type*} {given : σ → ε → Option α} {A : ε → Prop}
    {R : σ → α → Prop} (hstep : ∀ s e a,R s a → A e → R (next s e) ((given s e).getD a)) {s : σ}
    {a : α} (h0 : R s a) {es : List ε} (hA : ∀ e∈es,A e) :
    R (finalState next s es) (((outputs next given s es).filterMap id).getLast?.getD a) := by
  induction es generalizing s a with
  | nil => exact h0
  | cons e es ih =>
    have hrest := ih (hstep s e a h0 (hA e List.mem_cons_self))
      fun e' he' => hA e' (List.mem_cons_of_mem e he')
    change R (finalState next (next s e) es) _
    rw [outputs]
    cases hgiven : given s e with
    | none =>
      rw [hgiven] at hrest
      rw [List.filterMap_cons_none rfl]
      exact hrest
    | some b =>
      rw [hgiven] at hrest
      have hcons : ∀ bs : List (Option α),(some b::bs).filterMap id=b::bs.filterMap id :=
        fun _ => rfl
      rw [hcons,List.getLast?_cons]
      exact hrest

/-- A value that events set, depending on the state, is after a run the one that was set
last. -/
theorem observed_last_output {α : Type*} {obs : σ → α} {given : σ → ε → Option α} {A : ε → Prop}
    (hstep : ∀ s e,I s → A e → I (next s e))
    (hobs : ∀ s e,I s → A e → obs (next s e)=(given s e).getD (obs s)) {s : σ} (h0 : I s)
    {es : List ε} (hA : ∀ e∈es,A e) :
    I (finalState next s es) ∧
      obs (finalState next s es)=((outputs next given s es).filterMap id).getLast?.getD (obs s) :=
  related_last_output (R := fun s a => I s ∧ obs s=a) (fun s e _ h he =>
    ⟨hstep s e h.1 he,(hobs s e h.1 he).trans (congrArg _ h.2)⟩) ⟨h0,rfl⟩ hA

/-- Outputs that match their events one by one match them over a run. -/
theorem forall₂_outputs {α β : Type*} {R : α → β → Prop} {asked : ε → List α}
    {given : σ → ε → List β} (h : ∀ s e,List.Forall₂ R (asked e) (given s e)) (s : σ)
    (es : List ε) : List.Forall₂ R (es.flatMap asked) (outputs next given s es).flatten := by
  induction es generalizing s with
  | nil => exact List.Forall₂.nil
  | cons e es ih =>
    rw [List.flatMap_cons,outputs,List.flatten_cons]
    exact List.rel_append (h s e) (ih (next s e))

/-- If every step relates an observed value to its successor, and the relation
is transitive, then any earlier value of a run is related to any later one. -/
theorem pairwise_observed {α : Type*} {R : α → α → Prop} [Trans R R R] {obs : σ → α} {s : σ}
    {es : List ε} (h : AlongRun next (fun s e => R (obs s) (obs (next s e))) s es) :
    (obs s::outputs next (fun s e => obs (next s e)) s es).Pairwise R := by
  rw [←List.isChain_iff_pairwise]
  induction es generalizing s with
  | nil => exact List.isChain_singleton _
  | cons e es ih => exact List.isChain_cons_cons.mpr ⟨h.1,ih h.2⟩

/-- A condition along a run holds at each of its steps. -/
theorem AlongRun.at_step {s : σ} {pre post : List ε} {e : ε}
    (h : AlongRun next C s (pre++e::post)) : C (finalState next s pre) e := by
  induction pre generalizing s with
  | nil => exact h.1
  | cons p pre ih => exact ih h.2

/-- A run that fails a condition has a first step that fails it. -/
theorem exists_first_failure {s : σ} {es : List ε} (h : ¬AlongRun next C s es) :
    ∃ pre e post,es=pre++e::post ∧ AlongRun next C s pre ∧ ¬C (finalState next s pre) e := by
  induction es generalizing s with
  | nil => exact absurd trivial h
  | cons e es ih =>
    by_cases hc : C s e
    · obtain ⟨pre,e',post,rfl,hpre,hfail⟩ := ih fun hrest => h ⟨hc,hrest⟩
      exact ⟨e::pre,e',post,rfl,⟨hc,hpre⟩,hfail⟩
    · exact ⟨[],e,es,rfl,trivial,hc⟩

/-- Two conditions hold along a run exactly if both hold at each step. -/
theorem alongRun_and {s : σ} {es : List ε} :
    AlongRun next (fun s e => C s e ∧ D s e) s es ↔ AlongRun next C s es ∧ AlongRun next D s es := by
  induction es generalizing s with
  | nil => simp only [AlongRun,and_self]
  | cons e es ih =>
    simp only [AlongRun,ih]
    tauto

/-- All outputs have a property exactly if the output of every step has it. -/
theorem forall_outputs_iff {Q : ω → Prop} {s : σ} {es : List ε} :
    (∀ o∈outputs next out s es,Q o) ↔ AlongRun next (fun s e => Q (out s e)) s es := by
  induction es generalizing s with
  | nil => exact ⟨fun _ => trivial,fun _ _ h => absurd h List.not_mem_nil⟩
  | cons e es ih => rw [outputs,List.forall_mem_cons,AlongRun,ih]

/-- Where an invariant decides what every step puts out, the outputs of a run are
told from its events. -/
theorem outputs_of_invariant {g : ε → ω} (hstep : ∀ s e,I s → I (next s e))
    (hout : ∀ s e,I s → out s e=g e) {s : σ} (h0 : I s) (es : List ε) :
    outputs next out s es=es.map g := by
  induction es generalizing s with
  | nil => rfl
  | cons e es ih => rw [outputs,List.map_cons,hout s e h0,ih (hstep s e h0)]

/-- A condition on the events alone holds along a run exactly if all its
events meet it. -/
theorem alongRun_forall {C : ε → Prop} {s : σ} {es : List ε} :
    AlongRun next (fun _ e => C e) s es ↔ ∀ e∈es,C e := by
  induction es generalizing s with
  | nil => simp only [AlongRun,List.not_mem_nil,false_imp_iff,implies_true]
  | cons e es ih => rw [AlongRun,ih,List.forall_mem_cons]

/-- Two step conditions that are equivalent under an invariant, which they keep,
hold along the same runs. -/
theorem alongRun_congr_of_kept (hstep : ∀ s e,I s → D s e → I (next s e))
    (hCD : ∀ s e,I s → (C s e ↔ D s e)) {s : σ} (h0 : I s) (es : List ε) :
    AlongRun next C s es ↔ AlongRun next D s es := by
  constructor
  · exact alongRun_of_invariant (fun s e hI hc =>
      ⟨hstep s e hI ((hCD s e hI).mp hc),(hCD s e hI).mp hc⟩) h0
  · exact alongRun_of_invariant (fun s e hI hd => ⟨hstep s e hI hd,(hCD s e hI).mpr hd⟩) h0

/-- Two step conditions that are equivalent under an invariant of all steps
hold along the same runs. -/
theorem alongRun_congr (hstep : ∀ s e,I s → I (next s e)) (hCD : ∀ s e,I s → (C s e ↔ D s e))
    {s : σ} (h0 : I s) (es : List ε) : AlongRun next C s es ↔ AlongRun next D s es :=
  alongRun_congr_of_kept (fun s e hI _ => hstep s e hI) hCD h0 es

/-- If a step keeps a property exactly when it meets a condition, a run keeps
it throughout exactly when all its steps meet the condition. -/
theorem throughout_iff_alongRun (hstep : ∀ s e,P s → (P (next s e) ↔ C s e)) {s : σ} (h0 : P s)
    (es : List ε) : Throughout next P s es ↔ AlongRun next C s es := by
  induction es generalizing s with
  | nil => exact ⟨fun _ => trivial,fun _ => h0⟩
  | cons e es ih =>
    have head : ∀ t,Throughout next P t es → P t := fun t ht =>
      (throughout_iff t es).mp ht [] List.nil_prefix
    constructor
    · rintro ⟨-,h⟩
      have hn := head _ h
      exact ⟨(hstep s e h0).mp hn,(ih hn).mp h⟩
    · rintro ⟨hc,h⟩
      have hn := (hstep s e h0).mpr hc
      exact ⟨h0,(ih hn).mpr h⟩

/-- A property that an invariant gives holds throughout a run exactly when all
its steps meet a condition, if the condition keeps the invariant and a step
against it leads to a state without the property. -/
theorem throughout_iff_of_invariant (hstep : ∀ s e,I s → C s e → I (next s e))
    (hgives : ∀ s,I s → P s) (hbreaks : ∀ s e,I s → ¬C s e → ¬P (next s e)) {s : σ} (h0 : I s)
    (es : List ε) : Throughout next P s es ↔ AlongRun next C s es := by
  induction es generalizing s with
  | nil => exact ⟨fun _ => trivial,fun _ => hgives s h0⟩
  | cons e es ih =>
    constructor
    · rintro ⟨-,h⟩
      have hc : C s e := by
        by_contra hnot
        exact hbreaks s e h0 hnot ((throughout_iff _ es).mp h [] List.nil_prefix)
      exact ⟨hc,(ih (hstep s e h0 hc)).mp h⟩
    · rintro ⟨hc,h⟩
      exact ⟨hgives s h0,(ih (hstep s e h0 hc)).mpr h⟩

/-- The same for runs whose steps all meet an assumption on the environment. -/
theorem throughout_iff_of_assumed {A : σ → ε → Prop}
    (hstep : ∀ s e,I s → A s e → C s e → I (next s e)) (hgives : ∀ s,I s → P s)
    (hbreaks : ∀ s e,I s → A s e → ¬C s e → ¬P (next s e)) {s : σ} (h0 : I s) {es : List ε}
    (hA : AlongRun next A s es) : Throughout next P s es ↔ AlongRun next C s es := by
  induction es generalizing s with
  | nil => exact ⟨fun _ => trivial,fun _ => hgives s h0⟩
  | cons e es ih =>
    obtain ⟨ha,hrest⟩ := hA
    constructor
    · rintro ⟨-,h⟩
      have hc : C s e := by
        by_contra hnot
        exact hbreaks s e h0 ha hnot ((throughout_iff _ es).mp h [] List.nil_prefix)
      exact ⟨hc,(ih (hstep s e h0 ha hc) hrest).mp h⟩
    · rintro ⟨hc,h⟩
      exact ⟨hgives s h0,(ih (hstep s e h0 ha hc) hrest).mpr h⟩

end Rules

section Deletion

variable {next : σ → ε → σ} {out : σ → ε → List ω} {D : σ → ε → Prop} [∀ s e,Decidable (D s e)]

/-- The events of a run without those that meet a condition on the state they
are taken in. -/
def withoutEvents (next : σ → ε → σ) (D : σ → ε → Prop) [∀ s e,Decidable (D s e)] :
    σ → List ε → List ε
  | _,[] => []
  | s,e::es =>
    if D s e then withoutEvents next D (next s e) es else e::withoutEvents next D (next s e) es

/-- Events that leave the state where it is up to a relation and give no
output can be deleted, if related states answer all other events alike: the
outputs are the same and the last states are related. -/
theorem outputs_withoutEvents {R : σ → σ → Prop}
    (hdeleted : ∀ s t e,R s t → D s e → R (next s e) t ∧ out s e=[])
    (hkept : ∀ s t e,R s t → ¬D s e → R (next s e) (next t e) ∧ out s e=out t e)
    {s t : σ} (h : R s t) (es : List ε) :
    R (finalState next s es) (finalState next t (withoutEvents next D s es)) ∧
      (outputs next out s es).flatten=
        (outputs next out t (withoutEvents next D s es)).flatten := by
  induction es generalizing s t with
  | nil => exact ⟨h,rfl⟩
  | cons e es ih =>
    rw [withoutEvents]
    split
    · rename_i hD
      obtain ⟨hR,hout⟩ := hdeleted s t e h hD
      have hrest := ih hR
      rw [outputs,hout,List.flatten_cons,List.nil_append]
      exact hrest
    · rename_i hD
      obtain ⟨hR,hout⟩ := hkept s t e h hD
      have hrest := ih hR
      rw [outputs,outputs,List.flatten_cons,List.flatten_cons,hout,hrest.2]
      exact ⟨hrest.1,rfl⟩

end Deletion

end ZephyrApp.EventRuns

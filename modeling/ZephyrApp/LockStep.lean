import Mathlib

/-!
# Two programs in lock step

A host and a device joined by two queues. The host sends frames and waits for
replies, the device answers every frame with any number of replies, and the
two take their steps in any order. A list of turns, each a frame with the reply
that the host waits for after it, is kept by both programs on their own; then
no interleaving loses a reply, mistakes one for another, or stops early.
-/

namespace ZephyrApp.LockStep

variable {η δ φ ρ : Type*}

/-- What the host does next. -/
inductive Move (η φ ρ : Type*) where
  /-- Send a frame. -/
  | send (frame : φ) (next : η)
  /-- Wait for a reply. -/
  | receive (next : ρ → η)
  /-- Nothing more. -/
  | done

/-- The two programs. -/
structure Parties (η δ φ ρ : Type*) where
  /-- The next move of the host. -/
  host : η → Move η φ ρ
  /-- What the device makes of a frame, and its replies. -/
  device : δ → φ → δ×List ρ

/-- The two programs with the queues between them. -/
structure Link (η δ φ ρ : Type*) where
  /-- The host. -/
  host : η
  /-- The frames sent and not yet taken by the device. -/
  toDevice : List φ
  /-- The device. -/
  device : δ
  /-- The replies sent and not yet taken by the host. -/
  toHost : List ρ
  /-- The replies that the host has taken so far. -/
  received : List ρ

/-- Both programs at their start, with empty queues. -/
def Link.start (h : η) (d : δ) : Link η δ φ ρ := ⟨h,[],d,[],[]⟩

/-- One step of either program. -/
inductive Step (P : Parties η δ φ ρ) : Link η δ φ ρ → Link η δ φ ρ → Prop
  /-- The host sends a frame. -/
  | send {h h' : η} {q : List φ} {d : δ} {p got : List ρ} {f : φ} (move : P.host h=.send f h') :
      Step P ⟨h,q,d,p,got⟩ ⟨h',q++[f],d,p,got⟩
  /-- The host takes a reply. -/
  | receive {h : η} {q : List φ} {d : δ} {p got : List ρ} {r : ρ} {next : ρ → η}
      (move : P.host h=.receive next) : Step P ⟨h,q,d,r::p,got⟩ ⟨next r,q,d,p,got++[r]⟩
  /-- The device takes a frame and answers it. -/
  | process {h : η} {q : List φ} {d : δ} {p got : List ρ} {f : φ} :
      Step P ⟨h,f::q,d,p,got⟩ ⟨h,q,(P.device d f).1,p++(P.device d f).2,got⟩

/-- A number of steps. -/
inductive Steps (P : Parties η δ φ ρ) : ℕ → Link η δ φ ρ → Link η δ φ ρ → Prop
  /-- No step. -/
  | refl (s : Link η δ φ ρ) : Steps P 0 s s
  /-- One more step. -/
  | tail {n : ℕ} {s t u : Link η δ φ ρ} (steps : Steps P n s t) (step : Step P t u) :
      Steps P (n+1) s u

/-- No step is possible and the host waits for a reply. -/
structure Stalled (P : Parties η δ φ ρ) (s : Link η δ φ ρ) : Prop where
  /-- The host waits. -/
  waits : ∃ next,P.host s.host=.receive next
  /-- The device has taken all frames. -/
  idle : s.toDevice=[]
  /-- There is no reply to take. -/
  silent : s.toHost=[]

/-- From one state to another, the host sends the frames of some turns, waits
after those with a reply, and goes on as that reply asks. -/
inductive Follows (host : η → Move η φ ρ) : η → List (φ×Option ρ) → η → Prop
  /-- No turn is left. -/
  | nil (h : η) : Follows host h [] h
  /-- A frame after which the host does not wait. -/
  | silent {h h' e : η} {f : φ} {rest : List (φ×Option ρ)} (move : host h=.send f h')
      (tail : Follows host h' rest e) : Follows host h ((f,none)::rest) e
  /-- A frame after which the host waits for a reply. -/
  | awaited {h h' e : η} {f : φ} {r : ρ} {next : ρ → η} {rest : List (φ×Option ρ)}
      (move : host h=.send f h') (wait : host h'=.receive next)
      (tail : Follows host (next r) rest e) : Follows host h ((f,some r)::rest) e

/-- From one state to another, the device answers the frames of some turns with
exactly their replies. -/
inductive Answers (device : δ → φ → δ×List ρ) : δ → List (φ×Option ρ) → δ → Prop
  /-- No turn is left. -/
  | nil (d : δ) : Answers device d [] d
  /-- A frame is answered. -/
  | cons {d e : δ} {f : φ} {r : Option ρ} {rest : List (φ×Option ρ)}
      (replies : (device d f).2=r.toList) (tail : Answers device (device d f).1 rest e) :
      Answers device d ((f,r)::rest) e

/-- The replies of some turns. -/
def replies (turns : List (φ×Option ρ)) : List ρ := turns.filterMap Prod.snd

/-- After some frames without a reply, at most a number of frames are sent
before the host waits. -/
def Within (limit : ℕ) : ℕ → List (φ×Option ρ) → Prop
  | _,[] => True
  | k,turn::rest => k < limit ∧ Within limit (if turn.2.isSome then 0 else k+1) rest

/-- What is known of a state: how many frames and replies may be under way,
which replies have come, and where the programs stand when neither can go on. -/
structure Locked (P : Parties η δ φ ρ) (limit : ℕ) (turns : List (φ×Option ρ)) (hostEnd : η)
    (deviceEnd : δ) (s : Link η δ φ ρ) : Prop where
  /-- The frames under way are within the limit. -/
  outstanding : s.toDevice.length≤limit
  /-- At most one reply is under way. -/
  unread : s.toHost.length≤1
  /-- The replies, taken and under way, are those expected. -/
  expected : s.received++s.toHost<+:replies turns
  /-- The programs only stop at their end, with nothing under way. -/
  finished : (∀ t,¬Step P s t) → s=⟨hostEnd,[],deviceEnd,[],replies turns⟩

/-- The host can come from one state to another, whatever replies it gets. -/
inductive Reaches (host : η → Move η φ ρ) (h : η) : η → Prop
  /-- It is there. -/
  | refl : Reaches host h h
  /-- It sends one more frame. -/
  | send {m e : η} {f : φ} (reach : Reaches host h m) (move : host m=.send f e) :
      Reaches host h e
  /-- It gets one more reply. -/
  | receive {m : η} {next : ρ → η} (r : ρ) (reach : Reaches host h m)
      (move : host m=.receive next) : Reaches host h (next r)

/-- From a state on, the host sends no frame any more. -/
def Quits (host : η → Move η φ ρ) (h : η) : Prop :=
  ∀ e,Reaches host h e → ∀ f e',host e≠.send f e'

section Turns

variable {host : η → Move η φ ρ} {device : δ → φ → δ×List ρ}

/-- The host follows turns one part after the other. -/
theorem Follows.append {h m e : η} {xs ys : List (φ×Option ρ)} (hx : Follows host h xs m)
    (hy : Follows host m ys e) : Follows host h (xs++ys) e := by
  induction hx with
  | nil h => exact hy
  | silent move tail ih => exact .silent move (ih hy)
  | awaited move wait tail ih => exact .awaited move wait (ih hy)

/-- The device answers turns one part after the other. -/
theorem Answers.append {d m e : δ} {xs ys : List (φ×Option ρ)} (hx : Answers device d xs m)
    (hy : Answers device m ys e) : Answers device d (xs++ys) e := by
  induction hx with
  | nil d => exact hy
  | cons replies tail ih => exact .cons replies (ih hy)

/-- A host that is done quits. -/
theorem quits_of_done {h : η} (hdone : host h=.done) : Quits host h := by
  have hstay : ∀ e,Reaches host h e → e=h := by
    intro e hreach
    induction hreach with
    | refl => rfl
    | send reach move ih =>
      rw [ih,hdone] at move
      cases move
    | receive r reach move ih =>
      rw [ih,hdone] at move
      cases move
  intro e hreach f e' hsend
  rw [hstay e hreach,hdone] at hsend
  cases hsend

end Turns

section Runs

variable {P : Parties η δ φ ρ} {limit : ℕ} {turns : List (φ×Option ρ)} {hostEnd : η}
variable {deviceEnd : δ}

/-- Where the two programs stand in their turns, with a bound on the steps that
are left. -/
inductive InStep (P : Parties η δ φ ρ) (limit : ℕ) (turns : List (φ×Option ρ)) (hostEnd : η)
    (deviceEnd : δ) : ℕ → Link η δ φ ρ → Prop
  /-- The host is between two turns, and the frames under way have no reply. -/
  | sending {h : η} {d : δ} {out rest : List (φ×Option ρ)} {got : List ρ} {k : ℕ}
      (quiet : ∀ turn∈out,turn.2=none) (follows : Follows P.host h rest hostEnd)
      (answers : Answers P.device d (out++rest) deviceEnd) (count : out.length≤k)
      (bound : k≤limit) (within : Within limit k rest) (split : got++replies rest=replies turns) :
      InStep P limit turns hostEnd deviceEnd (3*rest.length+out.length)
        ⟨h,out.map Prod.fst,d,[],got⟩
  /-- The host waits, and the frame to be answered is under way behind others. -/
  | waiting {h : η} {d : δ} {out rest : List (φ×Option ρ)} {got : List ρ} {f : φ} {r : ρ}
      {next : ρ → η} (wait : P.host h=.receive next) (quiet : ∀ turn∈out,turn.2=none)
      (follows : Follows P.host (next r) rest hostEnd)
      (answers : Answers P.device d (out++(f,some r)::rest) deviceEnd) (count : out.length < limit)
      (within : Within limit 0 rest) (split : got++r::replies rest=replies turns) :
      InStep P limit turns hostEnd deviceEnd (3*rest.length+out.length+2)
        ⟨h,out.map Prod.fst++[f],d,[],got⟩
  /-- The host waits, and the reply is under way. -/
  | answered {h : η} {d : δ} {rest : List (φ×Option ρ)} {got : List ρ} {r : ρ} {next : ρ → η}
      (wait : P.host h=.receive next) (follows : Follows P.host (next r) rest hostEnd)
      (answers : Answers P.device d rest deviceEnd) (within : Within limit 0 rest)
      (split : got++r::replies rest=replies turns) :
      InStep P limit turns hostEnd deviceEnd (3*rest.length+1) ⟨h,[],d,[r],got⟩

/-- A step from between two turns. -/
theorem InStep.step_sending {h : η} {d : δ} {out rest : List (φ×Option ρ)} {got : List ρ} {k : ℕ}
    {t : Link η δ φ ρ} (quiet : ∀ turn∈out,turn.2=none) (follows : Follows P.host h rest hostEnd)
    (answers : Answers P.device d (out++rest) deviceEnd) (count : out.length≤k) (bound : k≤limit)
    (within : Within limit k rest) (split : got++replies rest=replies turns)
    (hend : P.host hostEnd=.done) (hstep : Step P ⟨h,out.map Prod.fst,d,[],got⟩ t) :
    ∃ m < 3*rest.length+out.length,InStep P limit turns hostEnd deviceEnd m t := by
  generalize hq : out.map Prod.fst=queue at hstep
  cases hstep with
  | @send _ h' _ _ _ _ f move =>
    subst hq
    cases follows with
    | nil => cases hend.symm.trans move
    | @silent _ _ _ f' rest' move' tail =>
      obtain ⟨rfl,rfl⟩ := Move.send.inj (move.symm.trans move')
      have hout : ∀ turn∈out++[(f,none)],turn.2=none := by
        intro turn hturn
        rcases List.mem_append.mp hturn with hold | hnew
        · exact quiet turn hold
        · rw [List.mem_singleton.mp hnew]
      have hanswers : Answers P.device d ((out++[(f,none)])++rest') deviceEnd := by
        rw [List.append_assoc]
        exact answers
      have hcount : (out++[(f,(none : Option ρ))]).length≤k+1 := by
        rw [List.length_append,List.length_singleton]
        exact Nat.succ_le_succ count
      have hnext : InStep P limit turns hostEnd deviceEnd _ _ :=
        .sending hout tail hanswers hcount within.1 within.2 split
      rw [List.map_append] at hnext
      refine ⟨_,?_,hnext⟩
      rw [List.length_append,List.length_singleton,List.length_cons]
      omega
    | @awaited _ _ _ f' r next rest' move' wait tail =>
      obtain ⟨rfl,rfl⟩ := Move.send.inj (move.symm.trans move')
      refine ⟨_,?_,.waiting wait quiet tail answers (Nat.lt_of_le_of_lt count within.1) within.2 split⟩
      rw [List.length_cons]
      omega
  | process =>
    cases out with
    | nil => cases hq
    | cons turn out =>
      cases hq
      cases answers with
      | @cons _ _ f r _ hreplies tail =>
        have hnone : r=none := quiet _ List.mem_cons_self
        subst hnone
        rw [hreplies]
        rw [List.length_cons] at count
        refine ⟨_,?_,.sending (fun turn hturn => quiet turn (List.mem_cons_of_mem _ hturn)) follows
          tail (Nat.le_of_succ_le count) bound within split⟩
        rw [List.length_cons]
        omega

/-- A step while the frame to be answered is under way. -/
theorem InStep.step_waiting {h : η} {d : δ} {out rest : List (φ×Option ρ)} {got : List ρ} {f : φ}
    {r : ρ} {next : ρ → η} {t : Link η δ φ ρ} (wait : P.host h=.receive next)
    (quiet : ∀ turn∈out,turn.2=none) (follows : Follows P.host (next r) rest hostEnd)
    (answers : Answers P.device d (out++(f,some r)::rest) deviceEnd) (count : out.length < limit)
    (within : Within limit 0 rest) (split : got++r::replies rest=replies turns)
    (hstep : Step P ⟨h,out.map Prod.fst++[f],d,[],got⟩ t) :
    ∃ m < 3*rest.length+out.length+2,InStep P limit turns hostEnd deviceEnd m t := by
  generalize hq : out.map Prod.fst++[f]=queue at hstep
  cases hstep with
  | send move => cases wait.symm.trans move
  | process =>
    cases out with
    | nil =>
      cases hq
      cases answers with
      | cons hreplies tail =>
        rw [hreplies]
        exact ⟨_,by rw [List.length_nil]; omega,.answered wait follows tail within split⟩
    | cons turn out =>
      cases hq
      cases answers with
      | @cons _ _ f' r' _ hreplies tail =>
        have hnone : r'=none := quiet _ List.mem_cons_self
        subst hnone
        rw [hreplies]
        rw [List.length_cons] at count
        refine ⟨_,?_,.waiting wait (fun turn hturn => quiet turn (List.mem_cons_of_mem _ hturn))
          follows tail (Nat.lt_of_succ_lt count) within split⟩
        rw [List.length_cons]
        omega

/-- A step while the reply is under way. -/
theorem InStep.step_answered {h : η} {d : δ} {rest : List (φ×Option ρ)} {got : List ρ} {r : ρ}
    {next : ρ → η} {t : Link η δ φ ρ} (wait : P.host h=.receive next)
    (follows : Follows P.host (next r) rest hostEnd) (answers : Answers P.device d rest deviceEnd)
    (within : Within limit 0 rest) (split : got++r::replies rest=replies turns)
    (hstep : Step P ⟨h,[],d,[r],got⟩ t) :
    ∃ m < 3*rest.length+1,InStep P limit turns hostEnd deviceEnd m t := by
  cases hstep with
  | send move => cases wait.symm.trans move
  | @receive _ _ _ _ _ _ next' move =>
    obtain rfl := Move.receive.inj (wait.symm.trans move)
    have hsplit : got++[r]++replies rest=replies turns := by
      rw [List.append_assoc]
      exact split
    have hquiet : ∀ turn∈([] : List (φ×Option ρ)),turn.2=none :=
      fun turn hturn => absurd hturn List.not_mem_nil
    exact ⟨3*rest.length+0,by omega,
      .sending hquiet follows answers (le_refl 0) (Nat.zero_le limit) within hsplit⟩

/-- Every step keeps the two programs in step, and uses up one of those left. -/
theorem InStep.step {n : ℕ} {s t : Link η δ φ ρ} (hend : P.host hostEnd=.done)
    (h : InStep P limit turns hostEnd deviceEnd n s) (hstep : Step P s t) :
    ∃ m < n,InStep P limit turns hostEnd deviceEnd m t := by
  cases h with
  | sending quiet follows answers count bound within split =>
    exact step_sending quiet follows answers count bound within split hend hstep
  | waiting wait quiet follows answers count within split =>
    exact step_waiting wait quiet follows answers count within split hstep
  | answered wait follows answers within split =>
    exact step_answered wait follows answers within split hstep

/-- What is known of a state in step. -/
theorem InStep.locked {n : ℕ} {s : Link η δ φ ρ}
    (h : InStep P limit turns hostEnd deviceEnd n s) :
    Locked P limit turns hostEnd deviceEnd s := by
  cases h with
  | @sending h d out rest got k quiet follows answers count bound within split =>
    refine ⟨?_,Nat.zero_le 1,⟨replies rest,?_⟩,fun hstop => ?_⟩
    · rw [List.length_map]
      exact count.trans bound
    · rw [List.append_nil]
      exact split
    · cases out with
      | nil =>
        cases follows with
        | nil =>
          cases answers
          rw [←split]
          exact congrArg (Link.mk _ _ _ _) (List.append_nil got).symm
        | silent move tail => exact absurd (.send move) (hstop _)
        | awaited move wait tail => exact absurd (.send move) (hstop _)
      | cons turn out => exact absurd .process (hstop _)
  | @waiting h d out rest got f r next wait quiet follows answers count within split =>
    refine ⟨?_,Nat.zero_le 1,⟨r::replies rest,?_⟩,fun hstop => ?_⟩
    · rw [List.length_append,List.length_map,List.length_singleton]
      exact count
    · rw [List.append_nil]
      exact split
    · cases out with
      | nil => exact absurd .process (hstop _)
      | cons turn out => exact absurd .process (hstop _)
  | @answered h d rest got r next wait follows answers within split =>
    refine ⟨Nat.zero_le limit,le_refl 1,⟨replies rest,?_⟩,fun hstop => ?_⟩
    · rw [List.append_assoc]
      exact split
    · exact absurd (.receive wait) (hstop _)

/-- If both programs keep the turns from their start, every interleaving is
finite and locked to them. -/
theorem locked_of_steps {h : η} {d : δ} (hend : P.host hostEnd=.done)
    (hfollows : Follows P.host h turns hostEnd) (hanswers : Answers P.device d turns deviceEnd)
    (hwithin : Within limit 0 turns) {n : ℕ} {s : Link η δ φ ρ}
    (hsteps : Steps P n (.start h d) s) :
    n≤3*turns.length ∧ Locked P limit turns hostEnd deviceEnd s := by
  have hstart : InStep P limit turns hostEnd deviceEnd (3*turns.length+0) (.start h d) :=
    .sending (fun turn hturn => absurd hturn List.not_mem_nil) hfollows hanswers (le_refl 0)
      (Nat.zero_le limit) hwithin rfl
  have hrun : ∃ m,m+n≤3*turns.length ∧ InStep P limit turns hostEnd deviceEnd m s := by
    generalize Link.start h d=first at hsteps hstart
    induction hsteps with
    | refl s => exact ⟨_,le_refl _,hstart⟩
    | tail steps step ih =>
      obtain ⟨m,hm,hin⟩ := ih hstart
      obtain ⟨k,hk,hnext⟩ := hin.step hend step
      exact ⟨k,by omega,hnext⟩
  obtain ⟨m,hm,hin⟩ := hrun
  exact ⟨by omega,hin.locked⟩

/-- A stalled state has no step. -/
theorem Stalled.stuck {s : Link η δ φ ρ} (h : Stalled P s) (t : Link η δ φ ρ) : ¬Step P s t := by
  obtain ⟨⟨next,hwait⟩,hidle,hsilent⟩ := h
  intro hstep
  cases hstep with
  | send move => cases hwait.symm.trans move
  | receive move => cases hsilent
  | process => cases hidle

/-- Programs locked to their turns do not stall. -/
theorem Locked.not_stalled {s : Link η δ φ ρ} (hend : P.host hostEnd=.done)
    (h : Locked P limit turns hostEnd deviceEnd s) : ¬Stalled P s := by
  intro hstalled
  obtain ⟨next,hwait⟩ := hstalled.waits
  rw [h.finished hstalled.stuck] at hwait
  cases hend.symm.trans hwait

/-- Runs follow one after the other. -/
theorem Steps.trans {m n : ℕ} {s t u : Link η δ φ ρ} (hs : Steps P m s t) (ht : Steps P n t u) :
    Steps P (m+n) s u := by
  induction ht with
  | refl t => exact hs
  | tail steps step ih => exact .tail (ih hs) step

/-- A frame is sent and answered at once. -/
theorem steps_of_frame {h h' : η} {d : δ} {f : φ} (move : P.host h=.send f h') (got : List ρ) :
    Steps P 2 ⟨h,[],d,[],got⟩ ⟨h',[],(P.device d f).1,(P.device d f).2,got⟩ := by
  have hsend : Step P ⟨h,[],d,[],got⟩ ⟨h',[f],d,[],got⟩ := .send move
  have hprocess : Step P ⟨h',[f],d,[],got⟩ ⟨h',[],(P.device d f).1,(P.device d f).2,got⟩ := .process
  exact .tail (.tail (.refl _) hsend) hprocess

/-- Turns that both programs keep are run through. -/
theorem steps_of_turns {h h' : η} {d d' : δ} {turns : List (φ×Option ρ)}
    (hfollows : Follows P.host h turns h') (hanswers : Answers P.device d turns d') (got : List ρ) :
    ∃ n,Steps P n ⟨h,[],d,[],got⟩ ⟨h',[],d',[],got++replies turns⟩ := by
  induction hfollows generalizing d got with
  | nil h =>
    cases hanswers
    have hnil : got++replies ([] : List (φ×Option ρ))=got := List.append_nil got
    rw [hnil]
    exact ⟨0,.refl _⟩
  | silent move tail ih =>
    cases hanswers with
    | cons hreplies hrest =>
      obtain ⟨n,hn⟩ := ih hrest got
      have hframe := steps_of_frame (d := d) move got
      rw [hreplies] at hframe
      exact ⟨_,hframe.trans hn⟩
  | @awaited h h' e f r next rest move wait tail ih =>
    cases hanswers with
    | cons hreplies hrest =>
      obtain ⟨n,hn⟩ := ih hrest (got++[r])
      have hframe := steps_of_frame (d := d) move got
      rw [hreplies] at hframe
      rw [List.append_assoc] at hn
      exact ⟨_,(hframe.tail (.receive wait)).trans hn⟩

/-- If the device is silent after a frame where the host waits, a run stalls
there. -/
theorem stalls {h h' h'' : η} {d d' : δ} {pre : List (φ×Option ρ)} {f : φ} {next : ρ → η}
    (hfollows : Follows P.host h pre h') (hanswers : Answers P.device d pre d')
    (move : P.host h'=.send f h'') (wait : P.host h''=.receive next)
    (silent : (P.device d' f).2=[]) : ∃ n s,Steps P n (.start h d) s ∧ Stalled P s := by
  obtain ⟨n,hn⟩ := steps_of_turns hfollows hanswers []
  have hframe := steps_of_frame (d := d') move ([]++replies pre)
  rw [silent] at hframe
  exact ⟨_,_,hn.trans hframe,⟨next,wait⟩,rfl,rfl⟩

end Runs

end ZephyrApp.LockStep

import Mathlib

/-!
# Scanning a stream in chunks

A scanner collects what it reads until a judgement of all it holds ends the
piece. Read element by element, the judgement sees every prefix; read in
chunks, only the prefixes at the chunks' ends. The two agree exactly if no
chunk goes on behind the end of a piece.
-/

namespace ZephyrApp.ChunkScanner

variable {α κ : Type*}

/-- What is being collected, and the pieces that have ended, each with its
judgement. -/
structure Scan (α κ : Type*) where
  /-- The elements since the last piece. -/
  waiting : List α
  /-- The pieces in order. -/
  ended : List (κ×List α)
deriving DecidableEq

/-- Nothing is read. -/
def Scan.start : Scan α κ := ⟨[],[]⟩

/-- Judge the data held. -/
def settle (judge : List α → Option κ) (s : Scan α κ) (data : List α) : Scan α κ :=
  match judge data with
  | none => ⟨data,s.ended⟩
  | some k => ⟨[],s.ended++[(k,data)]⟩

/-- Read a chunk, then judge. -/
def takeChunk (judge : List α → Option κ) (s : Scan α κ) (chunk : List α) : Scan α κ :=
  settle judge s (s.waiting++chunk)

/-- Read element by element. -/
def scan (judge : List α → Option κ) (s : Scan α κ) (stream : List α) : Scan α κ :=
  stream.foldl (fun s a => takeChunk judge s [a]) s

/-- No piece ends inside the chunk, its last element aside. -/
def Uncut (judge : List α → Option κ) (waiting chunk : List α) : Prop :=
  ∀ k,waiting.length < k → k < (waiting++chunk).length → judge ((waiting++chunk).take k)=none

section Rules

variable {judge : List α → Option κ} {s : Scan α κ}

/-- A scan of two streams is one scan after the other. -/
theorem scan_append (a b : List α) : scan judge s (a++b)=scan judge (scan judge s a) b :=
  List.foldl_append

/-- A scan ends pieces and never takes one back. -/
theorem ended_prefix (s : Scan α κ) (stream : List α) :
    s.ended<+:(scan judge s stream).ended := by
  induction stream generalizing s with
  | nil => exact List.prefix_refl _
  | cons a stream ih =>
    have hstep : s.ended<+:(takeChunk judge s [a]).ended := by
      rw [takeChunk,settle]
      split
      · exact List.prefix_refl _
      · exact List.prefix_append _ _
    exact hstep.trans (ih _)

/-- What is held after a judgement does not end a piece. -/
theorem judge_settle (hnil : judge []=none) (data : List α) :
    judge (settle judge s data).waiting=none := by
  cases hjudge : judge data with
  | none => rw [settle,hjudge]; exact hjudge
  | some k => rw [settle,hjudge]; exact hnil

/-- What a scan holds does not end a piece. -/
theorem judge_scan (hnil : judge []=none) (hs : judge s.waiting=none) (stream : List α) :
    judge (scan judge s stream).waiting=none := by
  induction stream generalizing s with
  | nil => exact hs
  | cons a stream ih => exact ih (judge_settle hnil _)

/-- As long as no piece ends, the scan collects. -/
theorem scan_waits {chunk : List α} (h : ∀ k,s.waiting.length < k →
    k≤(s.waiting++chunk).length → judge ((s.waiting++chunk).take k)=none) :
    scan judge s chunk=⟨s.waiting++chunk,s.ended⟩ := by
  induction chunk generalizing s with
  | nil => rw [List.append_nil]; rfl
  | cons a chunk ih =>
    have hcut : ∀ k,(s.waiting++a::chunk).take k=(s.waiting++[a]++chunk).take k := by
      intro k
      rw [List.append_assoc,List.singleton_append]
    have hfirst : judge (s.waiting++[a])=none := by
      have hk := h (s.waiting++[a]).length (by simp) (by simp)
      rwa [hcut,List.take_left] at hk
    have hstep : takeChunk judge s [a]=⟨s.waiting++[a],s.ended⟩ := by
      rw [takeChunk,settle,hfirst]
    change scan judge (takeChunk judge s [a]) chunk=_
    rw [hstep,ih fun k hlow hhigh => ?_]
    · rw [List.append_assoc,List.singleton_append]
    · rw [←hcut]
      dsimp only at hlow hhigh
      rw [List.append_assoc,List.singleton_append] at hhigh
      rw [List.length_append] at hlow
      exact h k (by omega) hhigh

/-- If no piece ends before the last element, the scan judges once, at the end. -/
theorem scan_uncut {chunk : List α} (hchunk : chunk≠[]) (h : Uncut judge s.waiting chunk) :
    scan judge s chunk=takeChunk judge s chunk := by
  obtain ⟨front,a,rfl⟩ := (List.eq_nil_or_concat chunk).resolve_left hchunk
  rw [List.concat_eq_append] at h ⊢
  have hfront : scan judge s front=⟨s.waiting++front,s.ended⟩ := by
    refine scan_waits fun k hlow hhigh => ?_
    have hk := h k hlow (by simp only [List.length_append,List.length_singleton] at hhigh ⊢; omega)
    rwa [←List.append_assoc,List.take_append_of_le_length hhigh] at hk
  rw [scan_append,hfront,takeChunk,←List.append_assoc]
  rfl

/-- If a piece ends inside the chunk, the scan ends one that is shorter than
what the chunk is judged with. -/
theorem scan_cut {chunk : List α} (h : ¬Uncut judge s.waiting chunk) :
    ∃ piece : κ×List α,piece.2.length < (s.waiting++chunk).length ∧
      s.ended++[piece]<+:(scan judge s chunk).ended := by
  classical
  have hex : ∃ k,s.waiting.length < k ∧ k < (s.waiting++chunk).length ∧
      judge ((s.waiting++chunk).take k)≠none := by
    unfold Uncut at h
    push Not at h
    exact h
  -- the first such end: the scan collects up to it, and the judgement ends the piece
  obtain ⟨hlow,hhigh,hjudge⟩ := Nat.find_spec hex
  have hmin : ∀ k,k < Nat.find hex → s.waiting.length < k →
      judge ((s.waiting++chunk).take k)=none := by
    intro k hk hw
    by_contra hnot
    exact Nat.find_min hex hk ⟨hw,by omega,hnot⟩
  generalize Nat.find hex=k at hlow hhigh hjudge hmin
  obtain ⟨judgement,hsome⟩ := Option.ne_none_iff_exists'.mp hjudge
  have hsplit : (s.waiting++chunk).take k=s.waiting++chunk.take (k-s.waiting.length) := by
    rw [List.take_append,List.take_of_length_le (by omega)]
  have hpart : chunk.take (k-s.waiting.length)≠[] := by
    intro hnil
    rw [List.length_append] at hhigh
    have hlength := congrArg List.length hnil
    rw [List.length_take,List.length_nil] at hlength
    omega
  have huncut : Uncut judge s.waiting (chunk.take (k-s.waiting.length)) := by
    intro j hjlow hjhigh
    rw [←hsplit,List.length_take] at hjhigh
    rw [←hsplit,List.take_take,min_eq_left (by omega)]
    exact hmin j (by omega) hjlow
  have hended : (scan judge s (chunk.take (k-s.waiting.length))).ended=
      s.ended++[(judgement,(s.waiting++chunk).take k)] := by
    rw [scan_uncut hpart huncut,takeChunk,←hsplit,settle,hsome]
  refine ⟨(judgement,(s.waiting++chunk).take k),?_,?_⟩
  · dsimp only
    rw [List.length_take]
    omega
  · rw [←hended]
    have hrest : (scan judge s (chunk.take (k-s.waiting.length))).ended<+:
        (scan judge (scan judge s (chunk.take (k-s.waiting.length)))
          (chunk.drop (k-s.waiting.length))).ended := ended_prefix _ _
    rwa [←scan_append,List.take_append_drop] at hrest

/-- Reading a chunk is reading its elements exactly if no piece ends inside. -/
theorem takeChunk_eq_scan_iff (hs : judge s.waiting=none) (chunk : List α) :
    takeChunk judge s chunk=scan judge s chunk ↔ Uncut judge s.waiting chunk := by
  constructor
  · intro heq
    by_contra hcut
    obtain ⟨piece,hlength,hpiece⟩ := scan_cut hcut
    rw [←heq,takeChunk,settle] at hpiece
    split at hpiece
    · have hle := hpiece.length_le
      rw [List.length_append,List.length_singleton] at hle
      dsimp only at hle
      omega
    · have hsame := hpiece.eq_of_length (by simp only [List.length_append,List.length_singleton])
      have hpair := List.singleton_inj.mp (List.append_cancel_left hsame)
      rw [hpair] at hlength
      exact absurd hlength (lt_irrefl _)
  · intro huncut
    by_cases hchunk : chunk=[]
    · subst hchunk
      rw [takeChunk,List.append_nil,settle,hs]
      rfl
    · exact (scan_uncut hchunk huncut).symm

/-- A stream made of whole pieces, none of which has a piece for a proper
prefix, is scanned into these pieces. -/
theorem scan_pieces (ended : List (κ×List α)) {pieces : List (κ×List α)}
    (h : ∀ p∈pieces,p.2≠[] ∧ judge p.2=some p.1 ∧ Uncut judge [] p.2) :
    scan judge ⟨[],ended⟩ (pieces.map Prod.snd).flatten=⟨[],ended++pieces⟩ := by
  induction pieces generalizing ended with
  | nil => rw [List.append_nil]; rfl
  | cons p pieces ih =>
    obtain ⟨⟨hne,hjudge,huncut⟩,hrest⟩ := List.forall_mem_cons.mp h
    rw [List.map_cons,List.flatten_cons,scan_append,scan_uncut (s := ⟨[],ended⟩) hne huncut,
      takeChunk,List.nil_append,settle,hjudge]
    dsimp only
    rw [ih _ hrest,List.append_assoc,List.singleton_append]

end Rules

end ZephyrApp.ChunkScanner

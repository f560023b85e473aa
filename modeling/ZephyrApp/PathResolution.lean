import Mathlib

/-!
# Path names and their resolution

A path is a list of symbols with a separator. Its names are the pieces between
separators that are not empty; a single dot names the directory itself and two
dots its parent. Resolution from the root stays at the root where a path leads
above it, and the lowest depth that a path reaches says whether it does.
-/

namespace ZephyrApp.PathResolution

variable {α : Type*} [DecidableEq α] (sep dot : α)

/-- The names of a path, in order. -/
def components (path : List α) : List (List α) := (path.splitOn sep).filter (·≠[])

/-- The names below the root after one more name, innermost first. -/
def resolveStep (stack : List (List α)) (name : List α) : List (List α) :=
  if name=[dot] then stack else if name=[dot,dot] then stack.tail else name::stack

/-- The names of the directory or file that a path from the root leads to. -/
def resolve (names : List (List α)) : List (List α) := (names.foldl (resolveStep dot) []).reverse

/-- The absolute path of some names. -/
def render (names : List (List α)) : List α :=
  if names=[] then [sep] else names.flatMap (sep::·)

/-- A name that stands for itself. -/
def Proper (name : List α) : Prop := name≠[] ∧ name≠[dot] ∧ name≠[dot,dot]

instance (name : List α) : Decidable (Proper dot name) :=
  inferInstanceAs (Decidable (name≠[] ∧ name≠[dot] ∧ name≠[dot,dot]))

/-- A path that starts with a separator, has no empty, dot or dot-dot piece,
and ends in a separator only if it is the root. -/
def Canonical (path : List α) : Prop :=
  path=[sep] ∨ ∃ rest,path=sep::rest ∧ ∀ name∈rest.splitOn sep,Proper dot name

/-- The depth after one more name. -/
def move (depth : ℤ) (name : List α) : ℤ :=
  if name=[dot] then depth else if name=[dot,dot] then depth-1 else depth+1

/-- The lowest depth on the way along some names. -/
def lowest (depth : ℤ) : List (List α) → ℤ
  | [] => depth
  | name::names => min depth (lowest (move dot depth name) names)

variable {sep dot}

/-- The names of two paths joined by a separator. -/
theorem components_append_cons (xs ys : List α) :
    components sep (xs++sep::ys)=components sep xs++components sep ys := by
  simp only [components,List.splitOn]
  rw [List.splitOnP_append_cons xs ys (by simp),List.filter_append]

/-- The empty path has no names. -/
@[simp] theorem components_nil : components sep []=[] := by
  simp [components]

/-- A separator in front of a path is ignored. -/
theorem components_cons (ys : List α) : components sep (sep::ys)=components sep ys := by
  have h : components sep ([]++sep::ys)=components sep []++components sep ys :=
    components_append_cons [] ys
  rwa [List.nil_append,components_nil,List.nil_append] at h

/-- Without a separator the path is one piece. -/
theorem splitOn_of_notMem {name : List α} (h : sep∉name) : name.splitOn sep=[name] := by
  rw [List.splitOn,List.splitOnP_eq_singleton]
  intro x hx
  simp only [beq_eq_false_iff_ne,ne_eq]
  rintro rfl
  exact h hx

/-- A piece without a separator is one name, unless it is empty. -/
theorem components_of_notMem {name : List α} (h : sep∉name) :
    components sep name=if name=[] then [] else [name] := by
  rw [components,splitOn_of_notMem h]
  split <;> simp_all

/-- Separators in front of a path are ignored. -/
theorem components_dropWhile (path : List α) :
    components sep (path.dropWhile (·=sep))=components sep path := by
  induction path with
  | nil => rfl
  | cons x xs ih =>
    by_cases hx : x=sep
    · rw [List.dropWhile_cons_of_pos (by simpa using hx),ih,hx,components_cons]
    · rw [List.dropWhile_cons_of_neg (by simpa using hx)]

/-- A name in front of a separator is the first name. -/
theorem components_name_cons {name : List α} (hne : name≠[]) (hsep : sep∉name) (path : List α) :
    components sep (name++sep::path)=name::components sep (path.dropWhile (·=sep)) := by
  rw [components_append_cons,components_of_notMem hsep,if_neg hne,components_dropWhile]
  rfl

/-- No piece of a path holds the separator. -/
theorem sep_notMem_splitOn (path : List α) : ∀ name∈path.splitOn sep,sep∉name := by
  induction path with
  | nil => simp [List.splitOn]
  | cons x xs ih =>
    rw [List.splitOn,List.splitOnP_cons_eq_if_modifyHead,←List.splitOn]
    split
    · intro name hname
      rcases List.mem_cons.mp hname with rfl | hname
      · exact List.not_mem_nil
      · exact ih name hname
    · next hx =>
      cases hsplit : xs.splitOn sep with
      | nil => simp
      | cons y ys =>
        rw [hsplit] at ih
        intro name hname
        rcases List.mem_cons.mp hname with rfl | hname
        · have hy := ih y List.mem_cons_self
          simp only [beq_iff_eq] at hx
          exact List.not_mem_cons_of_ne_of_not_mem (Ne.symm hx) hy
        · exact ih name (List.mem_cons_of_mem y hname)

/-- Names are not empty and hold no separator. -/
theorem of_mem_components {path name : List α} (h : name∈components sep path) :
    sep∉name ∧ name≠[] := by
  rw [components,List.mem_filter] at h
  exact ⟨sep_notMem_splitOn path name h.1,by simpa using h.2⟩

/-- The pieces of names behind separators are the names. -/
theorem splitOn_flatMap {name : List α} {names : List (List α)}
    (h : ∀ n∈name::names,sep∉n) :
    (name++names.flatMap (sep::·)).splitOn sep=name::names := by
  induction names generalizing name with
  | nil => simp [splitOn_of_notMem (h name List.mem_cons_self)]
  | cons n names ih =>
    have htail := ih fun m hm => h m (List.mem_cons_of_mem name hm)
    rw [List.flatMap_cons,List.cons_append,List.splitOn,
      List.splitOnP_append_cons _ _ (by simp)]
    rw [List.splitOn] at htail
    rw [htail,←List.splitOn,splitOn_of_notMem (h name List.mem_cons_self)]
    rfl

/-- The path of proper names is canonical. -/
theorem canonical_render {names : List (List α)} (hsep : ∀ n∈names,sep∉n)
    (hproper : ∀ n∈names,Proper dot n) : Canonical sep dot (render sep names) := by
  cases names with
  | nil => exact Or.inl (by simp [render])
  | cons n names =>
    refine Or.inr ⟨n++names.flatMap (sep::·),by simp [render],?_⟩
    rw [splitOn_flatMap hsep]
    exact hproper

/-- A canonical path starts with a separator. -/
theorem Canonical.head {path : List α} (h : Canonical sep dot path) : path.head?=some sep := by
  rcases h with rfl | ⟨rest,rfl,-⟩ <;> rfl

variable (dot) in
/-- Resolution leaves proper names without separators. -/
theorem proper_foldl {names stack : List (List α)} (hs : ∀ n∈stack,sep∉n ∧ Proper dot n)
    (hn : ∀ n∈names,sep∉n ∧ n≠[]) :
    ∀ n∈names.foldl (resolveStep dot) stack,sep∉n ∧ Proper dot n := by
  induction names generalizing stack with
  | nil => exact hs
  | cons name names ih =>
    rw [List.foldl_cons]
    refine ih ?_ fun n hm => hn n (List.mem_cons_of_mem name hm)
    have hname := hn name List.mem_cons_self
    intro n hm
    rw [resolveStep] at hm
    split at hm
    · exact hs n hm
    · split at hm
      · exact hs n (List.mem_of_mem_tail hm)
      · next h1 h2 =>
        rcases List.mem_cons.mp hm with rfl | hm
        · exact ⟨hname.1,hname.2,h1,h2⟩
        · exact hs n hm

variable (dot) in
/-- The lowest depth is not above the start. -/
theorem lowest_le (depth : ℤ) (names : List (List α)) : lowest dot depth names≤depth := by
  cases names with
  | nil => exact le_rfl
  | cons name names => exact min_le_left _ _

variable (dot) in
/-- The path that names resolve to is canonical. -/
theorem canonical_resolve {names : List (List α)} (hn : ∀ n∈names,sep∉n ∧ n≠[]) :
    Canonical sep dot (render sep (resolve dot names)) := by
  have hproper := proper_foldl dot (List.forall_mem_nil _) hn
  apply canonical_render
  · exact fun n hm => (hproper n (List.mem_reverse.mp hm)).1
  · exact fun n hm => (hproper n (List.mem_reverse.mp hm)).2

end ZephyrApp.PathResolution

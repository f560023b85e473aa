import Mathlib

/-!
# Ledger of descriptors

The system hands out descriptors and takes them back. The ledger keeps the
descriptors that are open, every descriptor that was handed out, and those
that were given back a second time. An owner accounts for the ledger if its
references are the open descriptors, each once, and nothing was given back
twice.
-/

namespace ZephyrApp.DescriptorLedger

variable {δ : Type*}

/-- What the system knows about the descriptors of an owner. -/
structure Ledger (δ : Type*) where
  /-- Descriptors that are open. -/
  live : List δ
  /-- All descriptors that were handed out. -/
  issued : List δ
  /-- Descriptors that were given back while they were not open. -/
  twice : List δ
deriving DecidableEq

/-- Nothing was handed out yet. -/
def Ledger.empty : Ledger δ := ⟨[],[],[]⟩

/-- A descriptor is handed out. -/
def Ledger.opened (L : Ledger δ) (d : δ) : Ledger δ := ⟨d::L.live,d::L.issued,L.twice⟩

/-- The references of an owner are the open descriptors, each once, and no
descriptor was given back twice. -/
structure Accounts (L : Ledger δ) (refs : List δ) : Prop where
  /-- No descriptor is open twice. -/
  nodup : L.live.Nodup
  /-- Open and referenced descriptors are the same. -/
  perm : L.live.Perm refs
  /-- Each descriptor is given back at most once. -/
  once : L.twice=[]

section Rules

variable {L : Ledger δ} {refs refs' : List δ} {d : δ}

/-- The order of the references does not matter. -/
theorem Accounts.reorder (h : Accounts L refs) (hperm : refs.Perm refs') : Accounts L refs' :=
  ⟨h.nodup,h.perm.trans hperm,h.once⟩

/-- A new descriptor that is stored in a reference is accounted for. -/
theorem Accounts.opened (h : Accounts L refs) (hfresh : d∉L.live) :
    Accounts (L.opened d) (d::refs) :=
  ⟨List.nodup_cons.mpr ⟨hfresh,h.nodup⟩,h.perm.cons d,h.once⟩

/-- An open descriptor without a reference is not accounted for. -/
theorem not_accounts_of_lost (hlive : d∈L.live) (hlost : d∉refs) : ¬Accounts L refs :=
  fun h => hlost (h.perm.mem_iff.mp hlive)

end Rules

variable [DecidableEq δ]

instance (L : Ledger δ) (refs : List δ) : Decidable (Accounts L refs) :=
  decidable_of_iff (L.live.Nodup ∧ L.live.Perm refs ∧ L.twice=[])
    ⟨fun h => ⟨h.1,h.2.1,h.2.2⟩,fun h => ⟨h.nodup,h.perm,h.once⟩⟩

/-- A descriptor is given back; one that was never handed out belongs to
another owner and is left to it. -/
def Ledger.closed (L : Ledger δ) (d : δ) : Ledger δ :=
  if d∈L.live then {L with live:=L.live.erase d}
  else if d∈L.issued then {L with twice:=d::L.twice}
  else L

section Closing

variable {L : Ledger δ} {refs : List δ} {d : δ}

/-- A referenced descriptor that is given back and forgotten is accounted for. -/
theorem Accounts.closed (h : Accounts L (d::refs)) : Accounts (L.closed d) refs := by
  have hlive : d∈L.live := h.perm.mem_iff.mpr List.mem_cons_self
  rw [Ledger.closed,if_pos hlive]
  refine ⟨h.nodup.erase d,?_,h.once⟩
  have herase := h.perm.erase d
  rwa [List.erase_cons_head] at herase

/-- A descriptor that is handed out and given back at once leaves the
references as they were. -/
theorem Accounts.opened_closed (h : Accounts L refs) (hfresh : d∉L.live) :
    Accounts ((L.opened d).closed d) refs := (h.opened hfresh).closed

/-- Giving back a foreign descriptor changes nothing. -/
theorem Ledger.closed_foreign (hlive : d∉L.live) (hissued : d∉L.issued) : L.closed d=L := by
  rw [Ledger.closed,if_neg hlive,if_neg hissued]

/-- Another descriptor stays open when one is given back. -/
theorem Ledger.mem_closed {e : δ} (he : e∈L.live) (hne : e≠d) : e∈(L.closed d).live := by
  rw [Ledger.closed]
  split
  · exact (List.mem_erase_of_ne hne).mpr he
  · split
    · exact he
    · exact he

/-- What is open after a descriptor was given back was open before. -/
theorem Ledger.closed_live_subset (L : Ledger δ) (d : δ) : (L.closed d).live⊆L.live := by
  rw [Ledger.closed]
  split
  · exact List.erase_subset
  · split
    · exact List.Subset.refl _
    · exact List.Subset.refl _

/-- Giving a descriptor back does not change what was handed out. -/
@[simp] theorem Ledger.closed_issued (L : Ledger δ) (d : δ) : (L.closed d).issued=L.issued := by
  rw [Ledger.closed]
  split
  · rfl
  · split
    · rfl
    · rfl

end Closing

end ZephyrApp.DescriptorLedger

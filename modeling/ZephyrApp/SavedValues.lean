import Mathlib

/-!
# Values saved under names

Some fields of a state are saved under names of their own in a store with one
value for each name, and are read back from it after a restart in any order.
While every field either has its saved value or was never saved and has its
standard value, reading back on top of the standard values is the identity.
-/

namespace ZephyrApp.SavedValues

variable {α β φ π : Type*}

/-- The saved values by their names. -/
abbrev Store (α β : Type*) := AList fun _ : α => β

/-- A name with the value saved under it. -/
abbrev Entry (α β : Type*) := Sigma fun _ : α => β

section Saving

variable [DecidableEq α]

/-- Save the values of some fields under their names. -/
def saveAll (name : φ → α) (value : φ → β) (fields : List φ) (store : Store α β) : Store α β :=
  fields.foldl (fun s f => s.insert (name f) (value f)) store

/-- Remove the values under some names. -/
def deleteAll (names : List α) (store : Store α β) : Store α β :=
  names.foldl (fun s n => s.erase n) store

variable {name : φ → α} {value value' standard : φ → β} {fields : List φ} {stale names : List α}
  {store : Store α β}

/-- A saved field is found under its name, and the others are as before. -/
theorem lookup_saveAll [DecidableEq φ] (hname : Function.Injective name) (f : φ) :
    (saveAll name value fields store).lookup (name f)=
      if f∈fields then some (value f) else store.lookup (name f) := by
  induction fields generalizing store with
  | nil => rfl
  | cons g fields ih =>
    rw [saveAll,List.foldl_cons,←saveAll,ih]
    by_cases hmem : f∈fields
    · rw [if_pos hmem,if_pos (List.mem_cons_of_mem g hmem)]
    · rw [if_neg hmem]
      by_cases hfg : f=g
      · rw [hfg,AList.lookup_insert,if_pos List.mem_cons_self]
      · rw [AList.lookup_insert_ne fun h => hfg (hname h),
          if_neg fun h => (List.mem_cons.mp h).elim hfg hmem]

/-- No other names appear. -/
theorem mem_saveAll {n : α} (h : n∈saveAll name value fields store) :
    n∈store ∨ ∃ f,n=name f := by
  induction fields generalizing store with
  | nil => exact Or.inl h
  | cons g fields ih =>
    rcases ih h with h | h
    · exact ((AList.mem_insert store).mp h).symm.imp_right fun h => ⟨g,h⟩
    · exact Or.inr h

/-- A removed name is gone. -/
theorem mem_deleteAll {n : α} : n∈deleteAll names store ↔ n∈store ∧ n∉names := by
  induction names generalizing store with
  | nil => exact ⟨fun h => ⟨h,List.not_mem_nil⟩,And.left⟩
  | cons m names ih =>
    rw [deleteAll,List.foldl_cons,←deleteAll,ih,AList.mem_erase,List.mem_cons,not_or]
    tauto

/-- The other names keep their values. -/
theorem lookup_deleteAll {n : α} (h : n∉names) :
    (deleteAll names store).lookup n=store.lookup n := by
  induction names generalizing store with
  | nil => rfl
  | cons m names ih =>
    rw [List.mem_cons,not_or] at h
    rw [deleteAll,List.foldl_cons,←deleteAll,ih h.2,AList.lookup_erase_ne h.1]

/-- Every name is that of a field or a stale one, and every field has its saved
value or, without one, its standard value. -/
structure Synced (name : φ → α) (stale : List α) (standard value : φ → β)
    (store : Store α β) : Prop where
  /-- There are no other names. -/
  known : ∀ n∈store,n∈stale ∨ ∃ f,n=name f
  /-- The value of a field is the one a restart finds. -/
  saved : ∀ f,store.lookup (name f)=some (value f) ∨
    store.lookup (name f)=none ∧ value f=standard f

/-- Nothing is saved and every field has its standard value. -/
theorem synced_empty : Synced name stale standard standard (∅ : Store α β) where
  known n h := absurd h (AList.notMem_empty n)
  saved f := Or.inr ⟨AList.lookup_empty (name f),rfl⟩

/-- Fields may change when all that did are saved. -/
theorem Synced.save (h : Synced name stale standard value store)
    (hname : Function.Injective name) (hkept : ∀ f,f∉fields → value' f=value f) :
    Synced name stale standard value' (saveAll name value' fields store) where
  known n hn := (mem_saveAll hn).elim (h.known n) Or.inr
  saved f := by
    classical
    rw [lookup_saveAll hname]
    by_cases hmem : f∈fields
    · rw [if_pos hmem]
      exact Or.inl rfl
    · rw [if_neg hmem,hkept f hmem]
      exact h.saved f

/-- The stale names may be removed. -/
theorem Synced.deleteStale (h : Synced name stale standard value store)
    (hstale : ∀ f,name f∉stale) : Synced name [] standard value (deleteAll stale store) where
  known n hn := by
    obtain ⟨hmem,hfresh⟩ := mem_deleteAll.mp hn
    exact Or.inr ((h.known n hmem).resolve_left hfresh)
  saved f := by
    rw [lookup_deleteAll (hstale f)]
    exact h.saved f

/-- Removing the stale names keeps the invariant. -/
theorem Synced.weaken (h : Synced name [] standard value store) :
    Synced name stale standard value store where
  known n hn := Or.inr ((h.known n hn).resolve_left List.not_mem_nil)
  saved := h.saved

end Saving

section Loading

variable [DecidableEq φ] (name : φ → α) (Fits : φ → β → Prop) (obs : π → φ → β)
  (load : π → Entry α β → π)

/-- An entry of a field is read into that field and into nothing else. -/
def ReadsBack : Prop :=
  ∀ p f v,Fits f v → obs (load p ⟨name f,v⟩)=Function.update (obs p) f v

variable {name Fits obs load} {standard value : φ → β} {store : Store α β}

/-- Reading entries with the values of their fields gives these fields their
values. -/
theorem obs_foldl_load (hload : ReadsBack name Fits obs load) (hname : Function.Injective name)
    (hfits : ∀ f,Fits f (value f)) {entries : List (Entry α β)}
    (h : ∀ entry∈entries,∃ f,entry=⟨name f,value f⟩) (p : π) (f : φ) :
    obs (entries.foldl load p) f=value f ∨
      (⟨name f,value f⟩ : Entry α β)∉entries ∧ obs (entries.foldl load p) f=obs p f := by
  induction entries generalizing p with
  | nil => exact Or.inr ⟨List.not_mem_nil,rfl⟩
  | cons entry entries ih =>
    obtain ⟨g,rfl⟩ := h entry List.mem_cons_self
    rw [List.foldl_cons]
    rcases ih (fun entry hentry => h entry (List.mem_cons_of_mem _ hentry))
      (load p ⟨name g,value g⟩) with hread | ⟨hnot,hsame⟩
    · exact Or.inl hread
    · rw [hsame,hload p g (value g) (hfits g)]
      by_cases hfg : f=g
      · rw [hfg,Function.update_self]
        exact Or.inl rfl
      · rw [Function.update_of_ne hfg]
        have hne : (⟨name f,value f⟩ : Entry α β)≠⟨name g,value g⟩ :=
          fun heq => hfg (hname (congrArg Sigma.fst heq))
        exact Or.inr ⟨fun hin => (List.mem_cons.mp hin).elim hne hnot,rfl⟩

/-- Reading everything back, in any order, on top of the standard values gives
every field the value it had. -/
theorem obs_reload [DecidableEq α] (hload : ReadsBack name Fits obs load)
    (hname : Function.Injective name) (hfits : ∀ f,Fits f (value f))
    (h : Synced name [] standard value store)
    {entries : List (Entry α β)} (hperm : entries.Perm store.entries) {p : π}
    (hp : obs p=standard) : obs (entries.foldl load p)=value := by
  have hentries : ∀ entry∈entries,∃ f,entry=⟨name f,value f⟩ := by
    rintro ⟨n,v⟩ hentry
    have hlookup := AList.mem_lookup_iff.mpr (hperm.mem_iff.mp hentry)
    obtain ⟨f,rfl⟩ := (h.known n (AList.lookup_isSome.mp
      (Option.isSome_of_mem hlookup))).resolve_left List.not_mem_nil
    rcases h.saved f with hsaved | ⟨hnone,-⟩
    · exact ⟨f,by rw [Option.some.inj (hlookup.symm.trans hsaved)]⟩
    · exact absurd (hlookup.symm.trans hnone) (Option.some_ne_none v)
  funext f
  rcases obs_foldl_load hload hname hfits hentries p f with hread | ⟨hnot,hsame⟩
  · exact hread
  · rcases h.saved f with hsaved | ⟨-,hstandard⟩
    · exact absurd (hperm.mem_iff.mpr (AList.mem_lookup_iff.mp hsaved)) hnot
    · rw [hsame,hp,hstandard]

end Loading

end ZephyrApp.SavedValues

import ZephyrApp.MachineBytes

/-!
# Writing an image to a flash slot

The interface of a device that streams an image into a flash slot: open the
area, erase it, start an image, write it piece by piece, flush it and request
the upgrade. Every operation may fail. The laws say what the successful ones
promise, in terms of an image stream over an erased slot; about a failed
operation nothing is known. A slot in memory, with or without a script of
faults, is a model of them.
-/

namespace ZephyrApp.FlashSlots

open MachineBytes

/-- The operations of an image slot over the states of a device. Each reports
whether it succeeded. -/
structure FlashImage (δ : Type) where
  /-- The number of bytes of the slot. -/
  slotSize : ℕ
  /-- The bytes the slot holds. -/
  slot : δ → List Byte
  /-- Open the flash area of the slot. -/
  areaOpen : δ → Bool×δ
  /-- Erase the whole slot. -/
  areaErase : δ → Bool×δ
  /-- Start a new image. -/
  imgInit : δ → Bool×δ
  /-- Append bytes to the image. -/
  imgWrite : δ → List Byte → Bool×δ
  /-- Write out what is still buffered and close the image. -/
  imgFlush : δ → Bool×δ
  /-- Mark the image for the next boot. -/
  bootRequest : δ → Word → Bool×δ
  /-- Restart the system. -/
  reboot : δ → δ
  /-- An image of these bytes has been started over an erased slot and is still
  open. -/
  Streamed : δ → List Byte → Prop

namespace FlashImage

variable {δ : Type}

/-- The bytes of an erased slot beyond an image. -/
def padded (F : FlashImage δ) (image : List Byte) : List Byte :=
  image++List.replicate (F.slotSize-image.length) 0xFF

/-- What the successful operations promise. -/
structure Lawful (F : FlashImage δ) : Prop where
  /-- A slot is smaller than the address space. -/
  slotSize_lt : F.slotSize<2^32
  /-- Erasing leaves the slot erased. -/
  erase_ok : ∀ d,(F.areaErase d).1=true →
    F.slot (F.areaErase d).2=List.replicate F.slotSize 0xFF
  /-- Starting an image over an erased slot starts an empty stream. -/
  init_ok : ∀ d,F.slot d=List.replicate F.slotSize 0xFF → (F.imgInit d).1=true →
    F.Streamed (F.imgInit d).2 []
  /-- Writing appends to the stream. -/
  write_ok : ∀ d image bytes,F.Streamed d image → (F.imgWrite d bytes).1=true →
    F.Streamed (F.imgWrite d bytes).2 (image++bytes)
  /-- A stream never exceeds the slot. -/
  streamed_le : ∀ d image,F.Streamed d image → image.length≤F.slotSize
  /-- Flushing leaves the stream at the start of the erased slot. -/
  flush_ok : ∀ d image,F.Streamed d image → (F.imgFlush d).1=true →
    F.slot (F.imgFlush d).2=F.padded image

/-- On a faultless device every operation succeeds, except that a stream is
refused bytes for which the slot has no room. -/
structure Faultless (F : FlashImage δ) : Prop where
  /-- Opening succeeds. -/
  open_ok : ∀ d,(F.areaOpen d).1=true
  /-- Erasing succeeds. -/
  erase_ok : ∀ d,(F.areaErase d).1=true
  /-- Starting an image succeeds. -/
  init_ok : ∀ d,(F.imgInit d).1=true
  /-- Writing succeeds as long as the slot has room. -/
  write_ok : ∀ d image bytes,F.Streamed d image → image.length+bytes.length≤F.slotSize →
    (F.imgWrite d bytes).1=true
  /-- Flushing succeeds. -/
  flush_ok : ∀ d,(F.imgFlush d).1=true

end FlashImage

section Script

variable {δ : Type}

/-- Attempt an operation: the next entry of a fault script decides whether it
is carried out or fails without effect; past its end all are carried out. -/
def attempt (op : δ → Bool×δ) (d : δ×List Bool) : Bool×(δ×List Bool) :=
  if d.2.headD true then ((op d.1).1,((op d.1).2,d.2.tail)) else (false,(d.1,d.2.tail))

/-- A successful attempt is a successful operation. -/
theorem attempt_ok {op : δ → Bool×δ} {d : δ×List Bool} (h : (attempt op d).1=true) :
    (op d.1).1=true ∧ (attempt op d).2.1=(op d.1).2 := by
  unfold attempt at h ⊢
  split at h
  · rename_i hhead
    rw [if_pos hhead]
    exact ⟨h,rfl⟩
  · exact absurd h Bool.false_ne_true

/-- A device whose operations fail as a script says. -/
def FlashImage.scripted (F : FlashImage δ) : FlashImage (δ×List Bool) where
  slotSize := F.slotSize
  slot d := F.slot d.1
  areaOpen := attempt F.areaOpen
  areaErase := attempt F.areaErase
  imgInit := attempt F.imgInit
  imgWrite d bytes := attempt (fun d => F.imgWrite d bytes) d
  imgFlush := attempt F.imgFlush
  bootRequest d permanent := attempt (fun d => F.bootRequest d permanent) d
  reboot d := (F.reboot d.1,d.2)
  Streamed d image := F.Streamed d.1 image

/-- Scripted faults do not break the laws. -/
theorem FlashImage.Lawful.scripted {F : FlashImage δ} (hF : F.Lawful) : F.scripted.Lawful := by
  refine ⟨hF.slotSize_lt,fun d h => ?_,fun d hd h => ?_,fun d image bytes hs h => ?_,
    fun d image hs => hF.streamed_le d.1 image hs,fun d image hs h => ?_⟩
  · obtain ⟨hok,hstate⟩ := attempt_ok h
    change F.slot (attempt F.areaErase d).2.1=_
    rw [hstate]
    exact hF.erase_ok d.1 hok
  · obtain ⟨hok,hstate⟩ := attempt_ok h
    change F.Streamed (attempt F.imgInit d).2.1 []
    rw [hstate]
    exact hF.init_ok d.1 hd hok
  · obtain ⟨hok,hstate⟩ := attempt_ok h
    change F.Streamed (attempt (fun d => F.imgWrite d bytes) d).2.1 (image++bytes)
    rw [hstate]
    exact hF.write_ok d.1 image bytes hs hok
  · obtain ⟨hok,hstate⟩ := attempt_ok h
    change F.slot (attempt F.imgFlush d).2.1=_
    rw [hstate]
    exact hF.flush_ok d.1 image hs hok

end Script

section Memory

/-- A slot in memory. -/
structure RamFlash where
  /-- The bytes of the slot. -/
  bytes : List Byte
  /-- The open image. -/
  image : Option (List Byte)

/-- Programming can only clear bits. -/
def program (bytes image : List Byte) : List Byte :=
  List.zipWith (· &&& ·) image bytes++bytes.drop image.length

/-- A slot of `n` bytes in memory that never fails. -/
def ramFlash (n : ℕ) : FlashImage RamFlash where
  slotSize := n
  slot d := d.bytes
  areaOpen d := (true,d)
  areaErase d := (true,{d with bytes := List.replicate n 0xFF})
  imgInit d := (true,{d with image := some []})
  imgWrite d bytes :=
    match d.image with
    | none => (false,d)
    | some image =>
      if image.length+bytes.length≤n then (true,{d with image := some (image++bytes)})
      else (false,d)
  imgFlush d := (true,⟨program d.bytes (d.image.getD []),none⟩)
  bootRequest d _ := (true,d)
  reboot d := {d with image := none}
  Streamed d image :=
    d.bytes=List.replicate n 0xFF ∧ d.image=some image ∧ image.length≤n

/-- Programming an erased slot puts the image at its start. -/
theorem program_erased {n : ℕ} (image : List Byte) (h : image.length≤n) :
    program (List.replicate n 0xFF) image=image++List.replicate (n-image.length) 0xFF := by
  have hzip : List.zipWith (· &&& ·) image (List.replicate n (0xFF : Byte))=image := by
    induction image generalizing n with
    | nil => rfl
    | cons b image ih =>
      rw [List.length_cons] at h
      obtain ⟨m,rfl⟩ : ∃ m,n=m+1 := ⟨n-1,by omega⟩
      have hb : b &&& 0xFF#8=b := BitVec.and_allOnes
      rw [List.replicate_succ,List.zipWith_cons_cons,ih (by omega)]
      exact congrArg (· :: image) hb
  rw [program,hzip,List.drop_replicate]

/-- The slot in memory obeys the laws. -/
theorem ramFlash_lawful {n : ℕ} (hn : n<2^32) : (ramFlash n).Lawful := by
  refine ⟨hn,fun d _ => rfl,fun d hd _ => ⟨hd,rfl,Nat.zero_le n⟩,fun d image bytes hs h => ?_,
    fun d image hs => hs.2.2,fun d image hs _ => ?_⟩
  · obtain ⟨hbytes,himage,-⟩ := hs
    dsimp only [ramFlash] at h ⊢
    rw [himage] at h ⊢
    dsimp only at h ⊢
    split at h
    · rename_i hr
      rw [if_pos hr]
      refine ⟨hbytes,rfl,?_⟩
      rw [List.length_append]
      exact hr
    · exact absurd h Bool.false_ne_true
  · obtain ⟨hbytes,himage,hle⟩ := hs
    change program d.bytes (d.image.getD [])=_
    rw [hbytes,himage]
    exact program_erased image hle

/-- The slot in memory never fails. -/
theorem ramFlash_faultless (n : ℕ) : (ramFlash n).Faultless := by
  refine ⟨fun d => rfl,fun d => rfl,fun d => rfl,fun d image bytes hs h => ?_,fun d => rfl⟩
  obtain ⟨-,himage,-⟩ := hs
  have hroom : image.length+bytes.length≤n := h
  dsimp only [ramFlash]
  rw [himage]
  dsimp only
  rw [if_pos hroom]

end Memory

end ZephyrApp.FlashSlots

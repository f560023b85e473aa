import ZephyrApp.FlashSlots

/-!
# Reading an image back

An image slot whose image context counts the bytes that have reached the flash
and whose area can be read. Two groups of laws are added to those of the plain
slot. The counting laws hold whether or not the slot was erased; the read-back
laws say that a flushed image is found in the area. A slot in memory behind a
write buffer obeys all of them.
-/

namespace ZephyrApp.FlashReadback

open MachineBytes FlashSlots

/-- An image slot with a count of its bytes and with reads. -/
structure ReadableImage (δ : Type) extends FlashImage δ where
  /-- The number of image bytes that have reached the flash. -/
  bytesWritten : δ → ℕ
  /-- Read some bytes of the area from an offset on. -/
  areaRead : δ → ℕ → ℕ → Option (List Byte)×δ
  /-- Forget the image context without touching the area. -/
  clear : δ → δ
  /-- An image is open to which this many bytes have been accepted. -/
  Holding : δ → ℕ → Prop
  /-- The image context is all zero. -/
  Blank : δ → Prop

namespace ReadableImage

variable {δ : Type}

/-- What the successful operations promise about the number of bytes. -/
structure Counted (F : ReadableImage δ) : Prop where
  /-- A slot is smaller than the address space. -/
  slotSize_lt : F.slotSize<2^32
  /-- A new image has no bytes. -/
  init_ok : ∀ d,(F.imgInit d).1=true → F.Holding (F.imgInit d).2 0
  /-- Erasing the area keeps the image context. -/
  erase_ok : ∀ d n,F.Holding d n → (F.areaErase d).1=true → F.Holding (F.areaErase d).2 n
  /-- Writing adds to the image. -/
  write_ok : ∀ d n bytes,F.Holding d n → (F.imgWrite d bytes).1=true →
    F.Holding (F.imgWrite d bytes).2 (n+bytes.length)
  /-- An image never exceeds the slot. -/
  holding_le : ∀ d n,F.Holding d n → n≤F.slotSize
  /-- Flushing brings all bytes to the flash. -/
  flush_ok : ∀ d n,F.Holding d n → (F.imgFlush d).1=true →
    F.Holding (F.imgFlush d).2 n ∧ F.bytesWritten (F.imgFlush d).2=n
  /-- Marking the image for the next boot keeps the image context. -/
  boot_ok : ∀ d n permanent,F.Holding d n → F.Holding (F.bootRequest d permanent).2 n

/-- What reading back promises. -/
structure ReadsBack (F : ReadableImage δ) : Prop where
  /-- Flushing brings all bytes of a stream to the flash. -/
  flush_ok : ∀ d image,F.Streamed d image → (F.imgFlush d).1=true →
    F.bytesWritten (F.imgFlush d).2=image.length
  /-- Opening the area changes neither the slot nor the count. -/
  open_slot : ∀ d,F.slot (F.areaOpen d).2=F.slot d ∧
    F.bytesWritten (F.areaOpen d).2=F.bytesWritten d
  /-- A read returns what the slot holds and does not change it. -/
  read_ok : ∀ d off len bytes,(F.areaRead d off len).1=some bytes →
    bytes=((F.slot d).drop off).take len
  /-- A read does not change the slot. -/
  read_slot : ∀ d off len,F.slot (F.areaRead d off len).2=F.slot d
  /-- A read inside the slot succeeds. -/
  read_some : ∀ d off len,off+len≤F.slotSize → ((F.areaRead d off len).1).isSome=true

/-- What an image context of zeros does. -/
structure Clears (F : ReadableImage δ) : Prop where
  /-- A device starts with a blank context after it is cleared. -/
  clear_blank : ∀ d,F.Blank (F.clear d)
  /-- A blank context has no room for any byte, and it leaves the slot alone. -/
  blank_write : ∀ d bytes,F.Blank d → bytes≠[] → (F.imgWrite d bytes).1=false ∧
    F.slot (F.imgWrite d bytes).2=F.slot d ∧ F.Blank (F.imgWrite d bytes).2

end ReadableImage

section Memory

/-- A slot in memory behind a write buffer as large as the image. -/
structure BufferedFlash where
  /-- The bytes of the slot. -/
  bytes : List Byte
  /-- The bytes accepted for the image, none in a blank context. -/
  image : Option (List Byte)
  /-- How many of them have been flushed. -/
  count : ℕ

/-- A slot of `n` bytes in memory behind a write buffer. It never fails. -/
def bufferedFlash (n : ℕ) : ReadableImage BufferedFlash where
  slotSize := n
  slot d := d.bytes
  areaOpen d := (true,d)
  areaErase d := (true,{d with bytes := List.replicate n 0xFF})
  imgInit d := (true,{d with image := some [],count := 0})
  imgWrite d bytes :=
    match d.image with
    | none => (bytes.isEmpty,d)
    | some image =>
      if image.length+bytes.length≤n then (true,{d with image := some (image++bytes)})
      else (false,d)
  imgFlush d :=
    match d.image with
    | none => (true,d)
    | some image => (true,{d with bytes := program d.bytes image,count := image.length})
  bootRequest d _ := (true,d)
  reboot d := {d with image := none,count := 0}
  Streamed d image :=
    d.bytes=List.replicate n 0xFF ∧ d.image=some image ∧ image.length≤n
  bytesWritten d := d.count
  areaRead d off len := (if off+len≤n then some ((d.bytes.drop off).take len) else none,d)
  clear d := {d with image := none,count := 0}
  Holding d k := ∃ image,d.image=some image ∧ image.length=k ∧ k≤n
  Blank d := d.image=none

variable {n : ℕ}

/-- Writing to an open image appends to it when there is room. -/
theorem bufferedFlash_write {d : BufferedFlash} {image bytes : List Byte}
    (hi : d.image=some image) (hle : image.length+bytes.length≤n) :
    (bufferedFlash n).imgWrite d bytes=(true,{d with image := some (image++bytes)}) := by
  simp only [bufferedFlash,hi,if_pos hle]

/-- A successful write to an open image had room. -/
theorem bufferedFlash_room {d : BufferedFlash} {image bytes : List Byte}
    (hi : d.image=some image) (h : ((bufferedFlash n).imgWrite d bytes).1=true) :
    image.length+bytes.length≤n := by
  by_contra hle
  simp only [bufferedFlash,hi,if_neg hle,Bool.false_eq_true] at h

/-- Flushing an open image programs it. -/
theorem bufferedFlash_flush {d : BufferedFlash} {image : List Byte} (hi : d.image=some image) :
    (bufferedFlash n).imgFlush d=
      (true,{d with bytes := program d.bytes image,count := image.length}) := by
  simp only [bufferedFlash,hi]

/-- The buffered slot obeys the laws of a slot. -/
theorem bufferedFlash_lawful (hn : n<2^32) : (bufferedFlash n).Lawful := by
  refine ⟨hn,fun d _ => rfl,fun d hd _ => ⟨hd,rfl,Nat.zero_le n⟩,?_,fun d image hs => hs.2.2,?_⟩
  · rintro d image bytes ⟨hb,hi,-⟩ h
    have hle := bufferedFlash_room hi h
    rw [bufferedFlash_write hi hle]
    exact ⟨hb,rfl,by rw [List.length_append]; exact hle⟩
  · rintro d image ⟨hb,hi,hle⟩ -
    rw [bufferedFlash_flush hi]
    change program d.bytes image=_
    rw [hb]
    exact program_erased image hle

/-- The buffered slot never fails. -/
theorem bufferedFlash_faultless (n : ℕ) : (bufferedFlash n).Faultless := by
  refine ⟨fun d => rfl,fun d => rfl,fun d => rfl,?_,fun d => ?_⟩
  · rintro d image bytes ⟨-,hi,-⟩ h
    have hle : image.length+bytes.length≤n := h
    rw [bufferedFlash_write hi hle]
  · cases hi : d.image with
    | none => simp only [bufferedFlash,hi]
    | some image => rw [bufferedFlash_flush hi]

/-- The buffered slot counts its bytes. -/
theorem bufferedFlash_counted (hn : n<2^32) : (bufferedFlash n).Counted := by
  refine ⟨hn,fun d _ => ⟨[],rfl,rfl,Nat.zero_le n⟩,fun d k h _ => h,?_,?_,?_,
    fun d k _ h => h⟩
  · rintro d k bytes ⟨image,hi,rfl,hk⟩ h
    have hle := bufferedFlash_room hi h
    rw [bufferedFlash_write hi hle]
    exact ⟨_,rfl,List.length_append,hle⟩
  · rintro d k ⟨image,-,-,hk⟩
    exact hk
  · rintro d k ⟨image,hi,hlen,hk⟩ -
    rw [bufferedFlash_flush hi]
    exact ⟨⟨image,hi,hlen,hk⟩,hlen⟩

/-- The buffered slot is read back. -/
theorem bufferedFlash_readsBack (n : ℕ) : (bufferedFlash n).ReadsBack := by
  refine ⟨?_,fun d => ⟨rfl,rfl⟩,?_,fun d off len => rfl,?_⟩
  · rintro d image ⟨-,hi,-⟩ -
    rw [bufferedFlash_flush hi]
    rfl
  · intro d off len bytes h
    simp only [bufferedFlash] at h ⊢
    split at h
    · exact (Option.some.inj h).symm
    · cases h
  · intro d off len h
    have hle : off+len≤n := h
    simp only [bufferedFlash,if_pos hle,Option.isSome_some]

/-- A blank context of the buffered slot accepts nothing. -/
theorem bufferedFlash_clears (n : ℕ) : (bufferedFlash n).Clears := by
  refine ⟨fun d => rfl,fun d bytes hd hbytes => ?_⟩
  have hi : d.image=none := hd
  simp only [bufferedFlash,hi,List.isEmpty_eq_false_iff]
  exact ⟨hbytes,trivial,trivial⟩

end Memory

end ZephyrApp.FlashReadback

import ZephyrApp.MachineBytes

/-!
# Text in buffers of bytes

A C string is what a buffer holds before its first zero byte. Text is looked
for inside other text, and is stored in a buffer with a zero byte behind it.
-/

namespace ZephyrApp.CStrings

open MachineBytes

/-- The text of a C string: what comes before the first zero byte. -/
def cString (bytes : List Byte) : List Byte := bytes.takeWhile fun b => decide (b≠0)

/-- `strstr`: where a text first occurs in another one. -/
def strstr (needle : List Byte) : List Byte → Option ℕ
  | [] => if needle=[] then some 0 else none
  | b::text =>
    if needle.isPrefixOf (b::text)=true then some 0
    else (strstr needle text).map (·+1)

variable {needle text : List Byte}

/-- A text occurs inside another one. -/
theorem strstr_le {p : ℕ} (h : strstr needle text=some p) : p+needle.length≤text.length := by
  induction text generalizing p with
  | nil =>
    rw [strstr] at h
    split at h
    · rename_i hnil
      obtain rfl := Option.some.inj h
      rw [hnil]
      exact le_refl _
    · cases h
  | cons b text ih =>
    rw [strstr] at h
    split at h
    · rename_i hpre
      obtain rfl := Option.some.inj h
      have hle := (List.isPrefixOf_iff_prefix.mp hpre).length_le
      omega
    · obtain ⟨q,hq,rfl⟩ := Option.map_eq_some_iff.mp h
      have hle := ih hq
      rw [List.length_cons]
      omega

/-- The first occurrence does not depend on what comes behind the text. -/
theorem strstr_append {p : ℕ} (h : strstr needle text=some p) (tail : List Byte) :
    strstr needle (text++tail)=some p := by
  induction text generalizing p with
  | nil =>
    rw [strstr] at h
    split at h
    · rename_i hnil
      obtain rfl := Option.some.inj h
      subst hnil
      cases tail <;> rfl
    · cases h
  | cons b text ih =>
    rw [strstr] at h
    rw [List.cons_append,strstr]
    split at h
    · rename_i hpre
      have hlong : needle<+:b::(text++tail) :=
        (List.isPrefixOf_iff_prefix.mp hpre).trans (List.prefix_append (b::text) tail)
      rw [if_pos (List.isPrefixOf_iff_prefix.mpr hlong)]
      exact h
    · rename_i hpre
      obtain ⟨q,hq,rfl⟩ := Option.map_eq_some_iff.mp h
      have hle := strstr_le hq
      have hnot : ¬needle.isPrefixOf (b::(text++tail))=true := by
        rw [List.isPrefixOf_iff_prefix] at hpre ⊢
        intro hlong
        refine hpre ?_
        rw [←List.cons_append] at hlong
        exact List.prefix_of_prefix_length_le hlong (List.prefix_append _ _)
          (by rw [List.length_cons]; omega)
      rw [if_neg hnot,ih hq,Option.map_some]

/-- A text that occurs is found. -/
theorem strstr_isSome (before : List Byte) (needle after : List Byte) :
    (strstr needle (before++needle++after)).isSome=true := by
  induction before with
  | nil =>
    rw [List.nil_append]
    cases hcat : needle++after with
    | nil =>
      rw [(List.append_eq_nil_iff.mp hcat).1]
      rfl
    | cons b text =>
      have hpre : needle.isPrefixOf (b::text)=true := by
        rw [←hcat]
        exact List.isPrefixOf_iff_prefix.mpr (List.prefix_append _ _)
      rw [strstr,if_pos hpre]
      rfl
  | cons b before ih =>
    rw [List.cons_append,List.cons_append,strstr]
    split
    · rfl
    · rw [Option.isSome_map]
      exact ih

/-- A text without zero bytes is read to its end. -/
theorem cString_append (h : ∀ b∈text,b≠0) (tail : List Byte) :
    cString (text++tail)=text++cString tail :=
  List.takeWhile_append_of_pos fun b hb => decide_eq_true (h b hb)

/-- A buffer with a text and a zero byte at its front. -/
def putString (buf text : List Byte) : List Byte := text++0::buf.drop (text.length+1)

/-- A text stored in a buffer is read back. -/
theorem cString_putString (h : ∀ b∈text,b≠0) (buf : List Byte) :
    cString (putString buf text)=text := by
  rw [putString,cString_append h,cString,List.takeWhile_cons_of_neg (by decide),List.append_nil]

end ZephyrApp.CStrings

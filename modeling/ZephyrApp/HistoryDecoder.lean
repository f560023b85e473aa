import ZephyrApp.HistorySamples
import ZephyrApp.MachineBytes

/-!
# Decoding a history file on a host

The history file is the memory of packed records, one behind the other. The
host's script unpacks sixteen bytes at a time and writes a line for each record.
A digital record leaves the tail of the union undefined; the script does not
look there.
-/

namespace ZephyrApp.HistoryDecoder

open MachineBytes HistorySamples

section Device

/-- A record of one of the two types that are written. -/
structure HisRecord where
  /-- The record. -/
  data : HisData
  /-- Its type. -/
  typed : data.sample.type=diType ∨ data.sample.type=aiType

/-- The memory of the packed `struct his_data`, which is what `write` stores:
type, time, and the union with the enable bits before the values. -/
def HisRecord.bytes (r : HisRecord) : List Byte :=
  sysPutLe16 r.data.sample.type++(sysPutLe32 r.data.timestamps++
    (sysPutLe16 r.data.sample.enStatus++
      (List.ofFn r.data.sample.value).flatMap sysPutLe16))

/-- Less than a record, at the end of a file. -/
abbrev PartialRecord := {bytes : List Byte // bytes.length < 16}

/-- The content of a history file. -/
def fileBytes (records : List HisRecord) (rest : PartialRecord) : List Byte :=
  records.flatMap HisRecord.bytes++rest.val

end Device

section Script

/-- The text of `v/100.0`, the shortest one that is read back as this number. -/
def hundredths (v : ℕ) : String :=
  (v/100).repr++"."++(v/10%10).repr++if v%10=0 then "" else (v%10).repr

/-- What `struct.unpack` gives. -/
structure Unpacked where
  /-- `_type`. -/
  type : Half
  /-- `timestamp`. -/
  timestamp : Word
  /-- `enable`. -/
  enable : Half
  /-- `data`. -/
  data : Fin 4 → Half

/-- `struct.unpack('=HI5H', data)` on a little-endian host. -/
def structUnpack (data : List Byte) : Unpacked :=
  ⟨sysGetLe16 data 0,sysGetLe32 data 2,sysGetLe16 data 6,fun i => sysGetLe16 data (8+2*i)⟩

-- `time.strftime` of `time.localtime` in the script's format
variable (strftime : Word → String)

/-- The line of a digital record. -/
def diLine (u : Unpacked) : String :=
  (List.finRange 16).foldl (fun out (i : Fin 16) =>
    out++if u.enable.getLsbD i then if (u.data 0).getLsbD i then ",ON" else ",OFF" else ",")
    (u.timestamp.toNat.repr++","++strftime u.timestamp++",DI")++"\n"

/-- The line of an analogue record. -/
def aiLine (u : Unpacked) : String :=
  (List.finRange 4).foldl (fun out i =>
    out++","++hundredths (u.data i).toNat++if i.val < 2 then "mA" else "V")
    (u.timestamp.toNat.repr++","++strftime u.timestamp++",AI")++"\n"

/-- `out_str` after the tests on the type; a record of another type leaves the
line of the one before. -/
def lineOf (outStr : String) (u : Unpacked) : String :=
  if u.type=1 then diLine strftime u
  else if u.type=2 then aiLine strftime u
  else outStr

/-- The loop of the script: the lines it writes. -/
def parserLoop (outStr : String) (input : List Byte) : List String :=
  if (input.take 16).length < 16 then []
  else
    let outStr := lineOf strftime outStr (structUnpack (input.take 16))
    outStr::parserLoop outStr (input.drop 16)
termination_by input.length
decreasing_by
  rename_i h
  rw [List.length_take] at h
  rw [List.length_drop]
  omega

/-- The line with the names of the columns. -/
def headerLine : String :=
  (List.finRange 16).foldl (fun out i => out++",channel"++(i.val+1).repr) "timestamp,time,type"++
    "\n"

/-- `parser_raw.py`: the lines of its output. -/
def parserRaw (input : List Byte) : List String :=
  headerLine::parserLoop strftime headerLine input

end Script

section Table

/-- A line of a table with a first cell. -/
def csvLine (first : String) (cells : List String) : String :=
  cells.foldl (fun line cell => line++","++cell) first++"\n"

/-- The cell of a digital channel: blank, or whether it was on. -/
def diCell (r : HisRecord) (i : Fin 16) : String :=
  if r.data.sample.enStatus.getLsbD i then
    if (r.data.sample.value 0).getLsbD i then "ON" else "OFF"
  else ""

/-- The cell of an analogue channel: its value in hundredths, with the unit. -/
def aiCell (r : HisRecord) (i : Fin 4) : String :=
  hundredths (r.data.sample.value i).toNat++if i.val < 2 then "mA" else "V"

/-- The row of a record: its time, and type and channels. -/
def row (strftime : Word → String) (r : HisRecord) : String :=
  csvLine r.data.timestamps.toNat.repr (strftime r.data.timestamps::
    if r.data.sample.type=diType then "DI"::(List.finRange 16).map (diCell r)
    else "AI"::(List.finRange 4).map (aiCell r))

/-- The row with the names of the columns. -/
def headerRow : String :=
  csvLine "timestamp" ("time"::"type"::(List.finRange 16).map fun i => "channel"++(i.val+1).repr)

end Table

section Records

/-- A half word stored in a row of them is read back from its place. -/
theorem sysGetLe16_flatMap {l : List Half} {before : List Byte} {at_ : ℕ}
    (hat : before.length=at_) {i : ℕ} (hi : i < l.length) :
    sysGetLe16 (before++l.flatMap sysPutLe16) (at_+2*i)=l[i] := by
  induction l generalizing before at_ i with
  | nil => exact absurd hi (Nat.not_lt_zero _)
  | cons h l ih =>
    rw [List.flatMap_cons,←List.append_assoc]
    cases i with
    | zero => exact sysGetLe16_sysPutLe16 h hat _
    | succ i =>
      have hlength : (before++sysPutLe16 h).length=at_+2 := by
        rw [List.length_append,hat,sysPutLe16_length]
      rw [List.length_cons] at hi
      rw [show at_+2*(i+1)=at_+2+2*i by omega,ih hlength (by omega),List.getElem_cons_succ]

/-- A record has sixteen bytes. -/
theorem bytes_length (r : HisRecord) : r.bytes.length=16 := by
  simp only [HisRecord.bytes,List.length_append,List.length_flatMap,sysPutLe16_length,
    sysPutLe32_length,List.ofFn_succ,List.ofFn_zero]
  rfl

/-- The script unpacks what the device has packed. -/
theorem structUnpack_bytes (r : HisRecord) :
    structUnpack r.bytes=
      ⟨r.data.sample.type,r.data.timestamps,r.data.sample.enStatus,r.data.sample.value⟩ := by
  have htype : sysGetLe16 r.bytes 0=r.data.sample.type :=
    sysGetLe16_sysPutLe16 _ (show ([] : List Byte).length=0 from rfl) _
  have htime : sysGetLe32 r.bytes 2=r.data.timestamps := by
    rw [HisRecord.bytes,←List.append_assoc]
    exact sysGetLe32_sysPutLe32 _ (sysPutLe16_length _) _
  have hfront : r.bytes=sysPutLe16 r.data.sample.type++sysPutLe32 r.data.timestamps++
      sysPutLe16 r.data.sample.enStatus++(List.ofFn r.data.sample.value).flatMap sysPutLe16 := by
    simp only [HisRecord.bytes,List.append_assoc]
  have henable : sysGetLe16 r.bytes 6=r.data.sample.enStatus := by
    rw [hfront]
    refine sysGetLe16_sysPutLe16 _ ?_ _
    rw [List.length_append,sysPutLe16_length,sysPutLe32_length]
  have hdata : ∀ i : Fin 4,sysGetLe16 r.bytes (8+2*i)=r.data.sample.value i := by
    intro i
    have hlength : (sysPutLe16 r.data.sample.type++sysPutLe32 r.data.timestamps++
        sysPutLe16 r.data.sample.enStatus).length=8 := by
      simp only [List.length_append,sysPutLe16_length,sysPutLe32_length]
    rw [hfront,sysGetLe16_flatMap hlength (by rw [List.length_ofFn]; exact i.isLt),List.getElem_ofFn]
  rw [structUnpack,htype,htime,henable,funext hdata]

/-- The tests on a digital channel append its cell. -/
theorem append_diCell (r : HisRecord) (out : String) (i : Fin 16) :
    (out++if r.data.sample.enStatus.getLsbD i then
        if (r.data.sample.value 0).getLsbD i then ",ON" else ",OFF" else ",")=
      out++","++diCell r i := by
  rw [diCell,String.append_assoc]
  congr 1
  split
  · split <;> rfl
  · rfl

/-- The script's line for a record is its row, whatever line came before. -/
theorem lineOf_bytes (strftime : Word → String) (outStr : String) (r : HisRecord) :
    lineOf strftime outStr (structUnpack r.bytes)=row strftime r := by
  rw [structUnpack_bytes,lineOf,row,csvLine]
  dsimp only
  by_cases hdi : r.data.sample.type=diType
  · have hhead : ∀ text : String,text++",DI"=text++","++"DI" := fun text =>
      (@String.append_assoc text "," "DI").symm
    rw [if_pos hdi,if_pos (show r.data.sample.type=1 from hdi),diLine]
    simp only [append_diCell,hhead,List.foldl_cons,List.foldl_map]
  · have hai : r.data.sample.type=aiType := r.typed.resolve_left hdi
    have hhead : ∀ text : String,text++",AI"=text++","++"AI" := fun text =>
      (@String.append_assoc text "," "AI").symm
    rw [if_neg hdi,if_neg (show r.data.sample.type≠1 from hdi),
      if_pos (show r.data.sample.type=2 from hai),aiLine]
    simp only [hhead,List.foldl_cons,List.foldl_map,aiCell,String.append_assoc]

/-- The lines of whole records are their rows; less than a record gives none. -/
theorem parserLoop_fileBytes (strftime : Word → String) (outStr : String)
    (records : List HisRecord) (rest : PartialRecord) :
    parserLoop strftime outStr (fileBytes records rest)=records.map (row strftime) := by
  induction records generalizing outStr with
  | nil =>
    have hrest := rest.property
    rw [parserLoop,fileBytes,List.flatMap_nil,List.nil_append,
      if_pos (by rw [List.length_take]; omega)]
    rfl
  | cons r records ih =>
    have hsplit : fileBytes (r::records) rest=r.bytes++fileBytes records rest := by
      rw [fileBytes,List.flatMap_cons,List.append_assoc]
      rfl
    have htake : (fileBytes (r::records) rest).take 16=r.bytes := by
      rw [hsplit,←bytes_length r,List.take_left]
    have hdrop : (fileBytes (r::records) rest).drop 16=fileBytes records rest := by
      rw [hsplit,←bytes_length r,List.drop_left]
    rw [parserLoop,htake,hdrop,if_neg (by rw [bytes_length]; exact lt_irrefl 16),lineOf_bytes]
    dsimp only
    rw [ih,List.map_cons]

end Records

section Texts

/-- The characters of a text of hundredths. -/
theorem toList_hundredths (v : ℕ) :
    (hundredths v).toList=Nat.toDigits 10 (v/100)++ '.' :: (v/10%10).digitChar::
      if v%10=0 then [] else [(v%10).digitChar] := by
  have hrepr : ∀ d,d < 10 → d.repr.toList=[d.digitChar] := fun d hd => by
    rw [Nat.toList_repr,Nat.toDigits_of_lt_base hd]
  rw [hundredths,String.toList_append,String.toList_append,String.toList_append,Nat.toList_repr,
    hrepr _ (Nat.mod_lt _ (by omega)),apply_ite String.toList,hrepr _ (Nat.mod_lt _ (by omega))]
  simp

/-- A digit is read back from its character. -/
theorem digitChar_inj {m n : ℕ} (hm : m < 10) (hn : n < 10) (h : m.digitChar=n.digitChar) :
    m=n := by
  rw [←Nat.toNat_digitChar_sub_48_of_lt_ten hm,h,Nat.toNat_digitChar_sub_48_of_lt_ten hn]

/-- The text of a value determines it. -/
theorem hundredths_injective : Function.Injective hundredths := by
  intro v w h
  have hlist := congrArg String.toList h
  rw [toList_hundredths,toList_hundredths] at hlist
  -- the digits before the point
  have hwhole : ∀ (u : ℕ) (tail : List Char),
      (Nat.toDigits 10 u++ '.' :: tail).takeWhile Char.isDigit=Nat.toDigits 10 u := by
    intro u tail
    rw [List.takeWhile_append_of_pos fun c hc =>
      Nat.isDigit_of_mem_toDigits (by omega) (by omega) hc]
    simp
  have hdigits := congrArg (List.takeWhile Char.isDigit) hlist
  rw [hwhole,hwhole] at hdigits
  have hhundreds : v/100=w/100 := by
    have hvalue := congrArg (Nat.ofDigitChars 10 · 0) hdigits
    rwa [Nat.ofDigitChars_toDigits (by omega) (by omega),
      Nat.ofDigitChars_toDigits (by omega) (by omega)] at hvalue
  -- the one or two behind it
  rw [hdigits] at hlist
  obtain ⟨-,htail⟩ := List.cons.inj (List.append_cancel_left hlist)
  obtain ⟨htens,hones⟩ := List.cons.inj htail
  have htens' := digitChar_inj (Nat.mod_lt _ (by omega)) (Nat.mod_lt _ (by omega)) htens
  have hones' : v%10=w%10 := by
    split at hones
    · split at hones
      · omega
      · nomatch hones
    · split at hones
      · nomatch hones
      · exact digitChar_inj (Nat.mod_lt _ (by omega)) (Nat.mod_lt _ (by omega))
          (List.singleton_inj.mp hones)
  omega

end Texts

/-- The script's output for any records and any part of a further one is the
names of the columns and the row of each record, in order; and the text of a
value determines the value. -/
theorem parserRaw_rows (strftime : Word → String) (records : List HisRecord)
    (rest : PartialRecord) :
    parserRaw strftime (fileBytes records rest)=headerRow::records.map (row strftime) ∧
      Function.Injective hundredths := by
  refine ⟨?_,hundredths_injective⟩
  have hheader : headerLine=headerRow := by decide +kernel
  rw [parserRaw,parserLoop_fileBytes,hheader]

end ZephyrApp.HistoryDecoder

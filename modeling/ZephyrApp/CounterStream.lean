import ZephyrApp.MachineBytes

/-!
# Counter-mode keystreams

A block function turns each counter value into a block of keystream bytes.
Byte `i` of the stream started at a counter is byte `i%B` of block `i/B`, and
a text is masked by XOR with the stream. The counters one text consumes form
a run of consecutive values, modulo the counter's width.
-/

namespace ZephyrApp.CounterStream

variable {c w : ℕ}

/-- XOR byte `i` of the data with element `i` of the stream. -/
def maskBytes (stream : ℕ → BitVec w) (data : List (BitVec w)) : List (BitVec w) :=
  data.mapIdx fun i b => b ^^^ stream i

/-- Masking keeps the length of the data. -/
@[simp] theorem maskBytes_length (stream : ℕ → BitVec w) (data : List (BitVec w)) :
    (maskBytes stream data).length=data.length := by
  simp only [maskBytes,List.length_mapIdx]

/-- Each masked element is its own XOR with the stream. -/
theorem maskBytes_getElem? (stream : ℕ → BitVec w) (data : List (BitVec w)) (i : ℕ) :
    (maskBytes stream data)[i]?=data[i]?.map (· ^^^ stream i) := by
  simp only [maskBytes,List.getElem?_mapIdx]

/-- Masking twice with one stream restores the data. -/
theorem maskBytes_maskBytes (stream : ℕ → BitVec w) (data : List (BitVec w)) :
    maskBytes stream (maskBytes stream data)=data := by
  apply List.ext_getElem?
  intro i
  rw [maskBytes_getElem?,maskBytes_getElem?,Option.map_map]
  cases data[i]? with
  | none => rfl
  | some b =>
    change some ((b ^^^ stream i) ^^^ stream i)=some b
    rw [BitVec.xor_assoc,BitVec.xor_self,BitVec.xor_zero]

/-- A text masked with one stream and unmasked with another is restored
exactly when the two streams agree over its length. -/
theorem maskBytes_restored_iff (s t : ℕ → BitVec w) (data : List (BitVec w)) :
    maskBytes t (maskBytes s data)=data ↔ ∀ i<data.length,t i=s i := by
  constructor
  · intro h i hi
    have he := congrArg (·[i]?) h
    simp only [maskBytes_getElem?,List.getElem?_eq_getElem hi,Option.map_some,
      Option.some.injEq,BitVec.xor_assoc] at he
    have hz : s i ^^^ t i=0#w := by
      have hx := congrArg (data[i] ^^^ ·) he
      simpa only [←BitVec.xor_assoc,BitVec.xor_self,BitVec.zero_xor] using hx
    exact (BitVec.xor_eq_zero_iff.mp hz).symm
  · intro h
    apply List.ext_getElem?
    intro i
    rw [maskBytes_getElem?,maskBytes_getElem?,Option.map_map]
    by_cases hi : i<data.length
    · rw [List.getElem?_eq_getElem hi]
      change some ((data[i] ^^^ s i) ^^^ t i)=some data[i]
      rw [h i hi,BitVec.xor_assoc,BitVec.xor_self,BitVec.xor_zero]
    · rw [List.getElem?_eq_none (by omega)]
      rfl

/-- Byte `i` of the stream started at a counter, in blocks of `B` bytes. -/
def streamByte (block : BitVec c → List (BitVec w)) (B : ℕ) (ctr : BitVec c) (i : ℕ) : BitVec w :=
  (block (ctr+BitVec.ofNat c (i/B))).getD (i%B) 0

/-- The first block of a stream is the block of its own counter. -/
theorem streamByte_of_lt (block : BitVec c → List (BitVec w)) {B i : ℕ} (ctr : BitVec c)
    (hi : i<B) : streamByte block B ctr i=(block ctr).getD i 0 := by
  rw [streamByte,Nat.div_eq_of_lt hi,Nat.mod_eq_of_lt hi,BitVec.add_zero]

/-- Past the first block, the stream is the one of the next counter. -/
theorem streamByte_add (block : BitVec c → List (BitVec w)) {B : ℕ} (hB : 0<B) (ctr : BitVec c)
    (i : ℕ) : streamByte block B ctr (B+i)=streamByte block B (ctr+1) i := by
  have hc : ctr+BitVec.ofNat c (i/B+1)=ctr+1+BitVec.ofNat c (i/B) := by
    rw [Nat.add_comm,BitVec.ofNat_add,BitVec.add_assoc]
    rfl
  rw [streamByte,streamByte,Nat.add_mod_left,Nat.add_comm B,Nat.add_div_right _ hB,hc]

/-- Streams of two counters that agree over a whole block have equal blocks. -/
theorem block_eq_of_streamByte {block : BitVec c → List (BitVec w)} {B : ℕ}
    (hlen : ∀ ctr,(block ctr).length=B) {a b : BitVec c}
    (h : ∀ i<B,streamByte block B a i=streamByte block B b i) : block a=block b := by
  apply List.ext_getElem (by rw [hlen,hlen])
  intro i ha hb
  have hi : i<B := by rwa [hlen] at ha
  have he := h i hi
  rw [streamByte_of_lt block a hi,streamByte_of_lt block b hi] at he
  simpa only [List.getD_eq_getElem _ _ ha,List.getD_eq_getElem _ _ hb] using he

/-- The blocks needed to mask a text of the given length. -/
def blockCount (B len : ℕ) : ℕ := (len+(B-1))/B

/-- Consecutive counter values, starting at a given one. -/
def counterRun (ctr : BitVec c) (n : ℕ) : List (BitVec c) :=
  (List.range n).map fun i => ctr+BitVec.ofNat c i

/-- A longer run is its first counter and the run of the next one. -/
theorem counterRun_succ (ctr : BitVec c) (n : ℕ) :
    counterRun ctr (n+1)=ctr::counterRun (ctr+1) n := by
  simp only [counterRun,List.range_succ_eq_map,List.map_cons,List.map_map,BitVec.add_zero]
  congr 1
  apply List.map_congr_left
  intro i _
  change ctr+BitVec.ofNat c (i+1)=ctr+1+BitVec.ofNat c i
  rw [Nat.add_comm,BitVec.ofNat_add,BitVec.add_assoc]
  rfl

/-- A run is joined to the run that starts where it ends. -/
theorem counterRun_append (ctr : BitVec c) (m n : ℕ) :
    counterRun ctr m++counterRun (ctr+BitVec.ofNat c m) n=counterRun ctr (m+n) := by
  simp only [counterRun,List.range_add,List.map_append,List.map_map]
  congr 1
  apply List.map_congr_left
  intro i _
  simp only [Function.comp_apply,BitVec.add_assoc,BitVec.ofNat_add]

/-- The counters of a run, one for each offset below its length. -/
theorem mem_counterRun {x ctr : BitVec c} {n : ℕ} :
    x∈counterRun ctr n ↔ ∃ i<n,ctr+BitVec.ofNat c i=x := by
  simp only [counterRun,List.mem_map,List.mem_range]

/-- A counter written as an index plus an offset is the index advanced. -/
theorem mem_counterRun_ofNat {x : BitVec c} {k n : ℕ} :
    x∈counterRun (BitVec.ofNat c k) n ↔ ∃ i<n,BitVec.ofNat c (k+i)=x := by
  simp only [mem_counterRun,BitVec.ofNat_add]

/-- A run no longer than the counter space repeats no counter. -/
theorem counterRun_nodup (ctr : BitVec c) {n : ℕ} (hn : n≤2^c) : (counterRun ctr n).Nodup := by
  refine List.Nodup.map_on ?_ List.nodup_range
  intro i hi j hj h
  rw [List.mem_range] at hi hj
  have hv := congrArg BitVec.toNat (add_left_cancel h)
  rw [BitVec.toNat_ofNat,BitVec.toNat_ofNat,Nat.mod_eq_of_lt (hi.trans_le hn),
    Nat.mod_eq_of_lt (hj.trans_le hn)] at hv
  exact hv

/-- Runs of indices that do not meet below the counter space are disjoint. -/
theorem counterRun_disjoint {j k m n : ℕ} (hjk : j+m≤k) (hk : k+n≤2^c) :
    (counterRun (BitVec.ofNat c j) m).Disjoint (counterRun (BitVec.ofNat c k) n) := by
  intro x hx hy
  obtain ⟨i,hi,rfl⟩ := mem_counterRun_ofNat.mp hx
  obtain ⟨l,hl,he⟩ := mem_counterRun_ofNat.mp hy
  have hv := congrArg BitVec.toNat he
  rw [BitVec.toNat_ofNat,BitVec.toNat_ofNat,Nat.mod_eq_of_lt (by omega),
    Nat.mod_eq_of_lt (by omega)] at hv
  omega

end ZephyrApp.CounterStream

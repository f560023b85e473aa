import ZephyrApp.Nrf24Link

/-!
# Which counters a keystream block is used for

Sealing advances the stored counter by one for each frame while the mask of a
frame runs over one counter for every eight bytes. Consecutive frames overlap
as soon as one that is not the last exceeds a block. Across the link, the
counters restart with every key setting and the key depends on the address
alone, so that two sealing sessions on one address share their counters.
-/

namespace ZephyrApp.Nrf24Crypt

open MachineBytes CounterStream EventRuns

section OneSender

/-- The counters fed to the block function, frame by frame. -/
def sealFed (s : CryptState) (messages : List TxMessage) : List (List Word) :=
  outputs sealNext (fun s m => (sealMessage s m).fed) s messages

/-- The blocks encrypted for a sequence of messages. -/
def totalBlocks (messages : List TxMessage) : ℕ :=
  (messages.map fun m => blockCount 8 m.plaintext.length).sum

/-- No counter is fed twice, and no two frames share a keystream block. -/
structure KeystreamUnique (s : CryptState) (messages : List TxMessage) : Prop where
  /-- All counters of all frames are distinct. -/
  counters : (sealFed s messages).flatten.Nodup
  /-- Blocks of different frames differ. -/
  blocks : (sealFed s messages).Pairwise fun f g =>
    ∀ a∈f,∀ b∈g,keystreamBlock s.cryptKey a≠keystreamBlock s.cryptKey b

/-- The counters of a run are those of its first frame and of the rest, which
starts one counter later. -/
theorem sealFed_cons (s : CryptState) (m : TxMessage) (messages : List TxMessage) :
    sealFed s (m::messages)=counterRun s.txCounter (blockCount 8 m.plaintext.length)::
      sealFed {s with txCounter := s.txCounter+1} messages := by
  have h := sealMessage_spec s m
  change (sealMessage s m).fed::sealFed (sealMessage s m).state messages=_
  rw [h.2.1,h.2.2]

/-- A legal message needs at least one block, and one block suffices exactly
for eight bytes. -/
theorem blockCount_message (m : TxMessage) :
    1≤blockCount 8 m.plaintext.length ∧
      (blockCount 8 m.plaintext.length=1 ↔ m.plaintext.length≤8) := by
  have h2 := m.two_le
  unfold blockCount
  omega

/-- While only the last frame exceeds a block, the fed counters are one run. -/
theorem sealFed_flatten (s : CryptState) (messages : List TxMessage)
    (h : ∀ m∈messages.dropLast,m.plaintext.length≤8) :
    (sealFed s messages).flatten=counterRun s.txCounter (totalBlocks messages) := by
  induction messages generalizing s with
  | nil => rfl
  | cons m messages ih =>
    rw [sealFed_cons,List.flatten_cons]
    cases messages with
    | nil =>
      change _++[]=counterRun _ (_+0)
      rw [List.append_nil,Nat.add_zero]
    | cons n messages =>
      rw [List.dropLast_cons_cons] at h
      have hm := (blockCount_message m).2.mpr (h m List.mem_cons_self)
      have hrest := ih {s with txCounter := s.txCounter+1} fun x hx =>
        h x (List.mem_cons_of_mem _ hx)
      have htotal : totalBlocks (m::n::messages)=1+totalBlocks (n::messages) := by
        change blockCount 8 m.plaintext.length+_=_
        rw [hm]
        rfl
      rw [hrest,hm,htotal]
      exact counterRun_append s.txCounter 1 _

/-- If no counter repeats, every frame but the last fits a block. -/
theorem le_eight_of_nodup (s : CryptState) (messages : List TxMessage)
    (h : (sealFed s messages).flatten.Nodup) : ∀ m∈messages.dropLast,m.plaintext.length≤8 := by
  induction messages generalizing s with
  | nil => exact fun m hm => absurd hm List.not_mem_nil
  | cons m messages ih =>
    rw [sealFed_cons,List.flatten_cons,List.nodup_append'] at h
    cases messages with
    | nil => exact fun m hm => absurd hm List.not_mem_nil
    | cons n messages =>
      have hrest := ih _ h.2.1
      have hm : m.plaintext.length≤8 := by
        by_contra hlong
        have hb := blockCount_message m
        have hn := blockCount_message n
        have hnext : s.txCounter+1∈counterRun s.txCounter (blockCount 8 m.plaintext.length) :=
          mem_counterRun.mpr ⟨1,by omega,rfl⟩
        have hfirst : s.txCounter+1∈counterRun (s.txCounter+1)
            (blockCount 8 n.plaintext.length) :=
          mem_counterRun.mpr ⟨0,by omega,BitVec.add_zero _⟩
        refine h.2.2 hnext ?_
        rw [sealFed_cons,List.flatten_cons]
        exact List.mem_append_left _ hfirst
      intro x hx
      rw [List.dropLast_cons_cons] at hx
      rcases List.mem_cons.mp hx with rfl | hx
      · exact hm
      · exact hrest x hx

/-- After the key is set and with fewer than `2^32` blocks in total, one
sender's counters are all distinct exactly when every frame but the last has
at most eight bytes. -/
theorem keystreamUnique_iff (s : CryptState) (addr : Rf24Addr) (messages : List TxMessage)
    (h : totalBlocks messages<2^32) :
    KeystreamUnique (nrf24CryptSetKey s addr) messages ↔
      ∀ m∈messages.dropLast,m.plaintext.length≤8 := by
  constructor
  · intro hu
    exact le_eight_of_nodup _ messages hu.counters
  · intro hshort
    have hnodup : (sealFed (nrf24CryptSetKey s addr) messages).flatten.Nodup := by
      rw [sealFed_flatten _ messages hshort]
      exact counterRun_nodup _ (by omega)
    refine ⟨hnodup,(List.nodup_flatten.mp hnodup).2.imp ?_⟩
    intro f g hfg a ha b hb he
    have hab := keystreamBlock_injective _ he
    exact hfg ha (hab ▸ hb)

/-- Two short frames and a long last one use five distinct counters. -/
theorem keystreamUnique_iff_short :
    let short : TxMessage := ⟨List.replicate 6 0,0,[],by decide,by decide⟩
    let long : TxMessage := ⟨List.replicate 20 0,0,[],by decide,by decide⟩
    KeystreamUnique (nrf24CryptSetKey .boot fun _ => 0xE7) [short,short,long] :=
  (keystreamUnique_iff .boot (fun _ => 0xE7) _ (by decide)).mpr (by decide)

/-- A nine-byte frame shares its second counter with the next frame. -/
theorem keystreamUnique_fails :
    let m : TxMessage := ⟨List.replicate 9 0,0,[],by decide,by decide⟩
    totalBlocks [m,m]<2^32 ∧ ¬KeystreamUnique (nrf24CryptSetKey .boot fun _ => 0xE7) [m,m] := by
  intro m
  refine ⟨by decide,fun h => ?_⟩
  have hm := le_eight_of_nodup _ _ h.counters m List.mem_cons_self
  exact absurd hm (by decide)

end OneSender

section TwoEndpoints

/-- The two ends of the link. -/
inductive Endpoint where
  /-- The gateway application. -/
  | gateway
  /-- The handler application. -/
  | handler
  deriving DecidableEq

/-- What happens to the cipher module of an endpoint. -/
inductive LinkEvent where
  /-- The endpoint boots with all statics zero. -/
  | restart (e : Endpoint)
  /-- The endpoint sets the key of an address. -/
  | setKey (e : Endpoint) (addr : Rf24Addr)
  /-- The endpoint seals a message. -/
  | sealMsg (e : Endpoint) (m : TxMessage)

/-- The key and the counters that one frame was encrypted with. -/
structure SealUse where
  /-- The key in force. -/
  key : CryptKey
  /-- The counters fed to the block function. -/
  counters : List Word

/-- The cipher statics of both endpoints and all frames sealed so far. -/
structure LinkState where
  /-- The statics of each endpoint. -/
  statics : Endpoint → CryptState
  /-- The frames sealed so far, whichever endpoint sealed them. -/
  uses : List SealUse

/-- Both endpoints right after boot. -/
def linkStart : LinkState := ⟨fun _ => .boot,[]⟩

/-- One event at one endpoint. -/
def linkStep (s : LinkState) : LinkEvent → LinkState
  | .restart e => {s with statics := Function.update s.statics e .boot}
  | .setKey e addr =>
    {s with statics := Function.update s.statics e (nrf24CryptSetKey (s.statics e) addr)}
  | .sealMsg e m =>
    let report := sealMessage (s.statics e) m
    ⟨Function.update s.statics e report.state,
      s.uses++[⟨(s.statics e).cryptKey,report.fed⟩]⟩

/-- No key and counter pair encrypts two different frames of the run. -/
def NoPairReuse (events : List LinkEvent) : Prop :=
  (finalState linkStep linkStart events).uses.Pairwise fun u v =>
    u.key=v.key → u.counters.Disjoint v.counters

/-- Where a frame comes from: the session it was sealed in and its place there. -/
structure Origin where
  /-- The endpoint that sealed it. -/
  endpoint : Endpoint
  /-- How often the endpoint had booted or set a key before. -/
  session : ℕ
  /-- The address of the session, all zero before a key is set. -/
  addr : Rf24Addr
  /-- The number of frames sealed before in the session. -/
  ordinal : ℕ
  /-- The plaintext length. -/
  length : ℕ

/-- The current session of an endpoint. -/
structure Session where
  /-- How often the endpoint has booted or set a key. -/
  number : ℕ
  /-- The address of the session. -/
  addr : Rf24Addr
  /-- The number of frames sealed in it. -/
  sealed : ℕ

/-- The sessions and the origins of all frames of a run. -/
structure Ledger where
  /-- The current session of each endpoint. -/
  sessions : Endpoint → Session
  /-- The origins of all frames, in the order of sealing. -/
  log : List Origin

/-- No frame yet, both endpoints in their boot session. -/
def ledgerStart : Ledger := ⟨fun _ => ⟨0,fun _ => 0,0⟩,[]⟩

/-- Start the next session of an endpoint on an address. -/
def Ledger.newSession (l : Ledger) (e : Endpoint) (addr : Rf24Addr) : Ledger :=
  {l with sessions := Function.update l.sessions e ⟨(l.sessions e).number+1,addr,0⟩}

/-- Enter one frame of an endpoint's current session. -/
def Ledger.enter (l : Ledger) (e : Endpoint) (length : ℕ) : Ledger :=
  let now := l.sessions e
  ⟨Function.update l.sessions e {now with sealed := now.sealed+1},
    l.log++[⟨e,now.number,now.addr,now.sealed,length⟩]⟩

/-- Keep the ledger over one event. -/
def ledgerStep (l : Ledger) : LinkEvent → Ledger
  | .restart e => l.newSession e fun _ => 0
  | .setKey e addr => l.newSession e addr
  | .sealMsg e m => l.enter e m.plaintext.length

/-- Frames on one address come from a single session, where each but the last
has at most eight bytes and none reaches the end of the counter space. -/
def SessionsApart (events : List LinkEvent) : Prop :=
  (finalState ledgerStep ledgerStart events).log.Pairwise fun u v =>
    u.addr=v.addr → (u.endpoint=v.endpoint ∧ u.session=v.session) ∧ u.length≤8 ∧
      v.ordinal+blockCount 8 v.length≤2^32

/-- The key and counters a frame of this origin is encrypted with. -/
def Origin.use (o : Origin) : SealUse :=
  ⟨deriveKey o.addr,counterRun (BitVec.ofNat 32 o.ordinal) (blockCount 8 o.length)⟩

/-- The statics and the frames are those that the ledger stands for. -/
structure Recorded (s : LinkState) (l : Ledger) : Prop where
  /-- Each endpoint has its session's key and counter. -/
  statics : ∀ e,(s.statics e).cryptKey=deriveKey (l.sessions e).addr ∧
    (s.statics e).txCounter=BitVec.ofNat 32 (l.sessions e).sealed
  /-- Each frame was encrypted as its origin says. -/
  uses : s.uses=l.log.map Origin.use

/-- A change at one endpoint keeps the statics recorded. -/
theorem Recorded.update {s : LinkState} {l : Ledger} (h : Recorded s l) (e : Endpoint)
    {c : CryptState} {n : Session} (hkey : c.cryptKey=deriveKey n.addr)
    (hctr : c.txCounter=BitVec.ofNat 32 n.sealed) (f : Endpoint) :
    (Function.update s.statics e c f).cryptKey=
        deriveKey (Function.update l.sessions e n f).addr ∧
      (Function.update s.statics e c f).txCounter=
        BitVec.ofNat 32 (Function.update l.sessions e n f).sealed := by
  by_cases hf : f=e
  · subst hf
    rw [Function.update_self,Function.update_self]
    exact ⟨hkey,hctr⟩
  · rw [Function.update_of_ne hf,Function.update_of_ne hf]
    exact h.statics f

/-- One event keeps code and ledger in step. -/
theorem recorded_step (s : LinkState) (l : Ledger) (event : LinkEvent) (h : Recorded s l) :
    Recorded (linkStep s event) (ledgerStep l event) := by
  cases event with
  | restart e => exact ⟨h.update e deriveKey_zero.symm rfl,h.uses⟩
  | setKey e addr => exact ⟨h.update e rfl rfl,h.uses⟩
  | sealMsg e m =>
    have hseal := sealMessage_spec (s.statics e) m
    have he := h.statics e
    constructor
    · refine h.update e ?_ ?_
      · rw [hseal.2.1]
        exact he.1
      · rw [hseal.2.1]
        change (s.statics e).txCounter+1=BitVec.ofNat 32 ((l.sessions e).sealed+1)
        rw [he.2,BitVec.ofNat_add]
        rfl
    · change s.uses++[_]=(l.log++[_]).map Origin.use
      rw [List.map_append,h.uses,List.map_singleton,Origin.use,hseal.2.2,he.1,he.2]

/-- Along every run the frames are encrypted as the ledger says. -/
theorem recorded_run (events : List LinkEvent) :
    Recorded (finalState linkStep linkStart events)
      (finalState ledgerStep ledgerStart events) :=
  finalState_simulation recorded_step ⟨fun _ => ⟨deriveKey_zero.symm,rfl⟩,rfl⟩ events

/-- Two frames sealed in one session of one endpoint. -/
def Origin.SameSession (u v : Origin) : Prop := u.endpoint=v.endpoint ∧ u.session=v.session

/-- What holds of the ledger of every run. -/
structure Ledger.Ordered (l : Ledger) : Prop where
  /-- No frame comes from a future session or place. -/
  past : ∀ o∈l.log,o.session≤(l.sessions o.endpoint).number ∧
    (o.session=(l.sessions o.endpoint).number →
      o.addr=(l.sessions o.endpoint).addr ∧ o.ordinal<(l.sessions o.endpoint).sealed)
  /-- The frames of the current session fill all places before the next one. -/
  full : ∀ e,∀ k<(l.sessions e).sealed,∃ u∈l.log,
    u.endpoint=e ∧ u.session=(l.sessions e).number ∧ u.ordinal=k
  /-- Every frame has predecessors in its session on its address. -/
  closed : ∀ o∈l.log,∀ k<o.ordinal,∃ u∈l.log,u.SameSession o ∧ u.addr=o.addr ∧ u.ordinal=k
  /-- Later frames of a session have later places. -/
  sorted : l.log.Pairwise fun u v => u.SameSession v → u.ordinal<v.ordinal
  /-- Every frame has at least one block. -/
  block : ∀ o∈l.log,1≤blockCount 8 o.length

/-- A new session keeps the ledger ordered. -/
theorem Ledger.Ordered.newSession {l : Ledger} (h : l.Ordered) (e : Endpoint) (addr : Rf24Addr) :
    (l.newSession e addr).Ordered := by
  have hlog : (l.newSession e addr).log=l.log := rfl
  refine ⟨fun o ho => ?_,fun f k hk => ?_,h.closed,h.sorted,h.block⟩
  · have hp := h.past o ho
    unfold Ledger.newSession
    dsimp only
    by_cases he : o.endpoint=e
    · rw [he] at hp ⊢
      rw [Function.update_self]
      dsimp only
      refine ⟨by omega,fun hs => ?_⟩
      omega
    · rw [Function.update_of_ne he]
      exact hp
  · by_cases hf : f=e
    · subst hf
      unfold Ledger.newSession at hk
      dsimp only at hk
      rw [Function.update_self] at hk
      exact absurd hk (Nat.not_lt_zero k)
    · have hs : (l.newSession e addr).sessions f=l.sessions f := Function.update_of_ne hf _ _
      rw [hs] at hk ⊢
      exact h.full f k hk

/-- Entering a frame keeps the ledger ordered. -/
theorem Ledger.Ordered.enter {l : Ledger} (h : l.Ordered) (e : Endpoint) {length : ℕ}
    (hb : 1≤blockCount 8 length) : (l.enter e length).Ordered := by
  set new : Origin := ⟨e,(l.sessions e).number,(l.sessions e).addr,(l.sessions e).sealed,length⟩
    with hnew
  have hlog : (l.enter e length).log=l.log++[new] := rfl
  have hself : (l.enter e length).sessions e=
      {l.sessions e with sealed := (l.sessions e).sealed+1} := Function.update_self _ _ _
  have hother : ∀ f,f≠e → (l.enter e length).sessions f=l.sessions f := fun f hf =>
    Function.update_of_ne hf _ _
  refine ⟨fun o ho => ?_,fun f k hk => ?_,fun o ho k hk => ?_,?_,fun o ho => ?_⟩
  · rw [hlog,List.mem_append,List.mem_singleton] at ho
    rcases ho with ho | rfl
    · have hp := h.past o ho
      by_cases he : o.endpoint=e
      · rw [he] at hp ⊢
        rw [hself]
        dsimp only
        refine ⟨hp.1,fun hs => ⟨(hp.2 hs).1,?_⟩⟩
        have hlt := (hp.2 hs).2
        omega
      · rw [hother _ he]
        exact hp
    · change _≤((l.enter e length).sessions e).number ∧ _
      rw [hself]
      exact ⟨le_refl _,fun _ => ⟨rfl,Nat.lt_succ_self _⟩⟩
  · rw [hlog]
    by_cases hf : f=e
    · subst hf
      rw [hself] at hk ⊢
      by_cases hlast : k=(l.sessions f).sealed
      · exact ⟨new,List.mem_append_right _ List.mem_cons_self,rfl,rfl,hlast.symm⟩
      · dsimp only at hk
        obtain ⟨u,hu,hrest⟩ := h.full f k (by omega)
        exact ⟨u,List.mem_append_left _ hu,hrest⟩
    · rw [hother f hf] at hk ⊢
      obtain ⟨u,hu,hrest⟩ := h.full f k hk
      exact ⟨u,List.mem_append_left _ hu,hrest⟩
  · rw [hlog,List.mem_append,List.mem_singleton] at ho
    rw [hlog]
    rcases ho with ho | rfl
    · obtain ⟨u,hu,hrest⟩ := h.closed o ho k hk
      exact ⟨u,List.mem_append_left _ hu,hrest⟩
    · obtain ⟨u,hu,hue,hus,huk⟩ := h.full e k hk
      have hp := h.past u hu
      rw [hue] at hp
      exact ⟨u,List.mem_append_left _ hu,⟨hue,hus⟩,(hp.2 hus).1,huk⟩
  · rw [hlog,List.pairwise_append]
    refine ⟨h.sorted,List.pairwise_singleton _ _,fun u hu v hv hs => ?_⟩
    rw [List.mem_singleton] at hv
    subst hv
    have hue : u.endpoint=e := hs.1
    have hp := h.past u hu
    rw [hue] at hp
    exact (hp.2 hs.2).2
  · rw [hlog,List.mem_append,List.mem_singleton] at ho
    rcases ho with ho | rfl
    · exact h.block o ho
    · exact hb

/-- The ledger of every run is ordered. -/
theorem ledger_ordered (events : List LinkEvent) :
    (finalState ledgerStep ledgerStart events).Ordered := by
  have hstart : ledgerStart.Ordered :=
    ⟨fun o ho => absurd ho List.not_mem_nil,fun e k hk => absurd hk (Nat.not_lt_zero k),
      fun o ho => absurd ho List.not_mem_nil,List.Pairwise.nil,
      fun o ho => absurd ho List.not_mem_nil⟩
  refine finalState_preserves (fun l event hl => ?_) hstart events
  cases event with
  | restart e => exact hl.newSession e _
  | setKey e addr => exact hl.newSession e addr
  | sealMsg e m => exact hl.enter e (blockCount_message m).1

/-- Any earlier place of a frame's session is taken by a frame on its address. -/
theorem Ledger.Ordered.exists_place {l : Ledger} (h : l.Ordered) {o : Origin} (ho : o∈l.log)
    {k : ℕ} (hk : k≤o.ordinal) : ∃ u∈l.log,u.SameSession o ∧ u.addr=o.addr ∧ u.ordinal=k := by
  by_cases hlast : k=o.ordinal
  · exact ⟨o,ho,⟨rfl,rfl⟩,rfl,hlast.symm⟩
  · exact h.closed o ho k (by omega)

/-- The first counter of a frame is fed to the block function. -/
theorem Origin.first_mem {o : Origin} (h : 1≤blockCount 8 o.length) :
    BitVec.ofNat 32 o.ordinal∈o.use.counters := mem_counterRun_ofNat.mpr ⟨0,by omega,rfl⟩

/-- No two entries on one address share a counter. -/
def Ledger.NoClash (l : Ledger) : Prop :=
  ∀ u∈l.log,∀ v∈l.log,u≠v → u.addr=v.addr → ∀ x∈u.use.counters,x∉v.use.counters

/-- Entries that share no key and counter pair with a later one share none at all. -/
theorem Ledger.noClash_of_pairwise {l : Ledger} (hdis : l.log.Pairwise fun u v =>
    u.use.key=v.use.key → u.use.counters.Disjoint v.use.counters) : l.NoClash := by
  intro u hu v hv hne haddr x hx
  have hsymm : Std.Symm fun u v : Origin =>
      u.use.key=v.use.key → u.use.counters.Disjoint v.use.counters :=
    ⟨fun u v huv hkey => (huv hkey.symm).symm⟩
  have huv := hdis.forall hu hv hne (congrArg deriveKey haddr)
  exact fun hxv => huv hx hxv

/-- Two sessions on one address would share the first counter. -/
theorem Ledger.Ordered.sameSession {l : Ledger} (h : l.Ordered) (hclash : l.NoClash)
    {u v : Origin} (hu : u∈l.log) (hv : v∈l.log) (haddr : u.addr=v.addr) : u.SameSession v := by
  by_contra hother
  obtain ⟨u0,hu0,hsu,hau,hou⟩ := h.exists_place hu (Nat.zero_le _)
  obtain ⟨v0,hv0,hsv,hav,hov⟩ := h.exists_place hv (Nat.zero_le _)
  have hne : u0≠v0 := by
    rintro rfl
    exact hother ⟨hsu.1.symm.trans hsv.1,hsu.2.symm.trans hsv.2⟩
  have hfirst := Origin.first_mem (h.block u0 hu0)
  refine hclash u0 hu0 v0 hv0 hne (by rw [hau,hav,haddr]) _ hfirst ?_
  rw [hou,←hov]
  exact Origin.first_mem (h.block v0 hv0)

/-- A frame of two blocks would share its second counter with the frame after it. -/
theorem Ledger.Ordered.length_le {l : Ledger} (h : l.Ordered) (hclash : l.NoClash)
    {u v : Origin} (hu : u∈l.log) (hv : v∈l.log) (haddr : u.addr=v.addr)
    (hlt : u.ordinal < v.ordinal) : u.length≤8 := by
  by_contra hlong
  obtain ⟨w,hw,hsw,haw,how⟩ := h.exists_place hv (Nat.succ_le_of_lt hlt)
  have hne : u≠w := by
    rintro rfl
    omega
  have hcount : 1<blockCount 8 u.length := by
    unfold blockCount
    omega
  have hsecond : BitVec.ofNat 32 w.ordinal∈u.use.counters :=
    mem_counterRun_ofNat.mpr ⟨1,hcount,by rw [how]⟩
  exact hclash u hu w hw hne (by rw [haw,haddr]) _ hsecond (Origin.first_mem (h.block w hw))

/-- A frame past the end of the counters would start over with one already used. -/
theorem Ledger.Ordered.ordinal_le {l : Ledger} (h : l.Ordered) (hclash : l.NoClash) {v : Origin}
    (hv : v∈l.log) (hpos : 0 < v.ordinal) : v.ordinal+blockCount 8 v.length≤2^32 := by
  by_contra hend
  -- the first counter past the end of the space is one already used
  set t := max v.ordinal (2^32) with ht
  have htb : v.ordinal≤t ∧ 2^32≤t ∧ (t=v.ordinal ∨ t=2^32) := by omega
  obtain ⟨w,hw,hsw,haw,how⟩ := h.exists_place hv (by omega : t-2^32≤v.ordinal)
  have hne : v≠w := by
    rintro rfl
    omega
  have hwrap : BitVec.ofNat 32 w.ordinal∈v.use.counters := by
    have hvb := h.block v hv
    refine mem_counterRun_ofNat.mpr ⟨t-v.ordinal,by omega,?_⟩
    apply BitVec.eq_of_toNat_eq
    rw [BitVec.toNat_ofNat,BitVec.toNat_ofNat]
    omega
  exact hclash v hv w hw hne haw.symm _ hwrap (Origin.first_mem (h.block w hw))

/-- For an ordered ledger, the frames share no key and counter pair exactly
when frames on one address come from one session and do not overlap there. -/
theorem Ledger.Ordered.apart_iff {l : Ledger} (h : l.Ordered) :
    (l.log.map Origin.use).Pairwise (fun u v => u.key=v.key → u.counters.Disjoint v.counters) ↔
      l.log.Pairwise fun u v => u.addr=v.addr →
        (u.endpoint=v.endpoint ∧ u.session=v.session) ∧ u.length≤8 ∧
          v.ordinal+blockCount 8 v.length≤2^32 := by
  rw [List.pairwise_map]
  constructor
  · intro hdis
    have hclash := Ledger.noClash_of_pairwise hdis
    refine (hdis.and h.sorted).imp_of_mem fun {u v} hu hv huv haddr => ?_
    have hsame := h.sameSession hclash hu hv haddr
    have hlt := huv.2 hsame
    exact ⟨hsame,h.length_le hclash hu hv haddr hlt,h.ordinal_le hclash hv (by omega)⟩
  · intro hapart
    refine (hapart.and h.sorted).imp fun {u v} huv hkey => ?_
    obtain ⟨hsame,hshort,hend⟩ := huv.1 (deriveKey_injective hkey)
    have hlt := huv.2 hsame
    have hcount : blockCount 8 u.length≤1 := by
      unfold blockCount
      omega
    exact counterRun_disjoint (by omega) hend

/-- Over every run of both endpoints, no key and counter pair is reused
exactly when the sealing sessions of each address are apart. -/
theorem noPairReuse_iff (events : List LinkEvent) : NoPairReuse events ↔ SessionsApart events := by
  rw [NoPairReuse,(recorded_run events).uses]
  exact (ledger_ordered events).apart_iff

/-- Gateway and handler set one address, and the first frame of each uses
counter zero of the same key. -/
theorem noPairReuse_fails :
    let addr : Rf24Addr := fun _ => 0xE7
    let m : TxMessage := ⟨[0x01#8,0x01#8,0xAA#8],0,[],by decide,by decide⟩
    let n : TxMessage := ⟨[0x01#8,0x02#8,0xBB#8],0,[],by decide,by decide⟩
    ¬NoPairReuse [.setKey .gateway addr,.setKey .handler addr,.sealMsg .gateway m,
      .sealMsg .handler n] := by
  intro addr m n h
  have hpair := (List.pairwise_cons.mp h).1 _ List.mem_cons_self rfl
  exact hpair (by decide : (0 : Word)∈_) (by decide)

end TwoEndpoints

end ZephyrApp.Nrf24Crypt

import ZephyrApp.EventRuns
import ZephyrApp.DescriptorLedger

/-!
# Connections of the Modbus TCP server

One thread serves the listening socket and the sockets of `mb_clients`. A
round of its loop notes whether a slot is held, waits in `select`, and then
either serves a new connection or the requests of the held slots. The clock
and the link state are read anew at every slot; the link state is changed by
another thread, so every reading has a value of its own.
-/

namespace ZephyrApp.ModbusTcp

open EventRuns DescriptorLedger

/-- `struct modbus_client`. -/
structure ModbusClient where
  /-- The socket, zero in a free slot. -/
  fd : ℤ
  /-- Uptime of the connection or of its last request in milliseconds. -/
  time : ℕ
deriving DecidableEq

/-- `MAX_CLIENTS`. -/
abbrev maxClients : ℕ := 3

/-- The order in which the loops visit the slots. -/
def slotOrder : List (Fin maxClients) := [0,1,2]

/-- The slots and the sockets that `accept` handed out. -/
structure Server where
  /-- `mb_clients`. -/
  mbClients : Fin maxClients → ModbusClient
  /-- The ledger of accepted sockets. -/
  ledger : Ledger ℤ

/-- What the check of one slot reads in an accept pass. -/
structure Reading where
  /-- `k_uptime_get`. -/
  now : ℕ
  /-- `link_down`. -/
  linkDown : Bool

/-- What `recv` gives for a readable slot in a request pass. -/
inductive Received
  /-- The first `recv` returns zero. -/
  | closed
  /-- The first `recv` returns data or an error; the second one may fail. -/
  | request (now : ℕ) (dataError : Bool)

/-- A round of the loop of `tcp_poll`. -/
inductive Round
  /-- `select` fails or times out, or `accept` fails. -/
  | idle
  /-- A connection is accepted, with the readings of the checks and the uptime
  that an installed connection is stamped with. -/
  | connect (client : ℤ) (reading : Fin maxClients → Reading) (stamp : ℕ)
  /-- Some slots are readable. -/
  | serve (received : Fin maxClients → Option Received)

/-- A slot that holds a socket. -/
def Held (s : Server) (i : Fin maxClients) : Prop := 0<(s.mbClients i).fd

instance (s : Server) (i : Fin maxClients) : Decidable (Held s i) :=
  inferInstanceAs (Decidable (0<(s.mbClients i).fd))

/-- A slot is closed and cleared. -/
def closeSlot (s : Server) (i : Fin maxClients) : Server :=
  ⟨Function.update s.mbClients i ⟨0,0⟩,s.ledger.closed (s.mbClients i).fd⟩

/-- The check of the accept pass that terminates a slot. -/
def Terminates (c : ModbusClient) (r : Reading) : Prop :=
  c.time≠0 ∧ c.time+30000<r.now ∨ r.linkDown=true

instance (c : ModbusClient) (r : Reading) : Decidable (Terminates c r) :=
  inferInstanceAs (Decidable (_ ∨ _))

/-- The first loop of the accept pass with the flag `had_connect`. -/
def evict (reading : Fin maxClients → Reading) :
    List (Fin maxClients) → Server × Bool → Server × Bool
  | [],t => t
  | i::is,(s,hadConnect) =>
    if Terminates (s.mbClients i) (reading i) then evict reading is (closeSlot s i,false)
    else evict reading is (s,hadConnect)

/-- The second loop of the accept pass: the first free slot takes the client,
which is closed if there is none. -/
def install (client : ℤ) (stamp : ℕ) : List (Fin maxClients) → Server → Server
  | [],s => {s with ledger:=s.ledger.closed client}
  | i::is,s =>
    if (s.mbClients i).fd=0 then {s with mbClients:=Function.update s.mbClients i ⟨client,stamp⟩}
    else install client stamp is s

/-- The request pass: a slot that was closed by the peer is cleared, a request
renews the time, and a failure of the second `recv` leaves the loop. -/
def serve (received : Fin maxClients → Option Received) :
    List (Fin maxClients) → Server → Server
  | [],s => s
  | i::is,s =>
    if Held s i then
      match received i with
      | none => serve received is s
      | some .closed => serve received is (closeSlot s i)
      | some (.request now dataError) =>
        let t : Server :=
          {s with mbClients:=Function.update s.mbClients i ⟨(s.mbClients i).fd,now⟩}
        if dataError then t else serve received is t
    else serve received is s

/-- `had_connect` before the `select`. -/
def hadConnect (s : Server) : Bool := slotOrder.any fun i => decide (Held s i)

/-- A round of `tcp_poll`. -/
def tcpPoll (s : Server) : Round → Server
  | .idle => s
  | .connect client reading stamp =>
    let t := evict reading slotOrder ({s with ledger:=s.ledger.opened client},hadConnect s)
    if t.2 then {t.1 with ledger:=t.1.ledger.closed client}
    else install client stamp slotOrder t.1
  | .serve received => serve received slotOrder s

/-- The server after boot. -/
def boot : Server := ⟨fun _ => ⟨0,0⟩,Ledger.empty⟩

/-- The sockets in the slots. -/
def sockets (s : Server) : List ℤ :=
  (slotOrder.filter fun i => decide (Held s i)).map fun i => (s.mbClients i).fd

/-- At most one slot holds a socket, a slot without a socket has time zero, and
every accepted socket is held in one slot or was closed once. -/
structure SingleClient (s : Server) : Prop where
  /-- Two slots that hold a socket are the same. -/
  single : ∀ i j,Held s i → Held s j → i=j
  /-- A slot without a socket is cleared. -/
  cleared : ∀ i,¬Held s i → s.mbClients i=⟨0,0⟩
  /-- The open sockets are those in the slots, and none was closed twice. -/
  accounts : Accounts s.ledger (sockets s)

/-- `accept` returns a positive descriptor that is not open. -/
def Accepts (s : Server) : Round → Prop
  | .connect client _ _ => 0<client ∧ client∉s.ledger.live
  | _ => True

/-- In an accept pass that keeps the client of the first slot, no later slot
sees the link down. -/
def LinkSteady (s : Server) : Round → Prop
  | .connect _ reading _ =>
    Held s 0 → ¬Terminates (s.mbClients 0) (reading 0) →
      (reading 1).linkDown=false ∧ (reading 2).linkDown=false
  | _ => True

/-- A held client whose last request is at most thirty seconds old keeps its
slot in an accept pass while the link is up. -/
def Undisplaced (s : Server) : Round → Prop
  | .connect client reading stamp =>
    ∀ i,Held s i → (reading i).now≤(s.mbClients i).time+30000 → (reading i).linkDown=false →
      (tcpPoll s (.connect client reading stamp)).mbClients i=s.mbClients i
  | _ => True

/-- Only the first slot is ever held: the others are cleared, so is the first
one if it is free, and zero is no descriptor that was handed out. -/
structure Front (s : Server) : Prop where
  /-- The second slot is free. -/
  second : s.mbClients 1=⟨0,0⟩
  /-- The third slot is free. -/
  third : s.mbClients 2=⟨0,0⟩
  /-- The first slot is held or cleared. -/
  cleared : ¬Held s 0 → s.mbClients 0=⟨0,0⟩
  /-- The open sockets are those in the slots. -/
  accounts : Accounts s.ledger (sockets s)
  /-- Accepted descriptors are positive. -/
  positive : ∀ d∈s.ledger.issued,0<d

/-- A cleared slot holds no socket. -/
theorem not_held_of_cleared {s : Server} {i : Fin maxClients} (h : s.mbClients i=⟨0,0⟩) :
    ¬Held s i := by
  rw [Held,h]
  exact lt_irrefl 0

/-- With the last two slots free, the sockets are those of the first slot. -/
theorem sockets_of_free {s : Server} (h1 : s.mbClients 1=⟨0,0⟩) (h2 : s.mbClients 2=⟨0,0⟩) :
    sockets s=if Held s 0 then [(s.mbClients 0).fd] else [] := by
  have n1 := not_held_of_cleared h1
  have n2 := not_held_of_cleared h2
  by_cases h0 : Held s 0
  · simp only [sockets,slotOrder,List.filter_cons,List.filter_nil,h0,n1,n2,decide_true,decide_false,
      if_true,Bool.false_eq_true,if_false,List.map_cons,List.map_nil]
  · simp only [sockets,slotOrder,List.filter_cons,List.filter_nil,h0,n1,n2,decide_false,
      Bool.false_eq_true,if_false,List.map_nil]

/-- Every socket in a slot is positive. -/
theorem sockets_positive (s : Server) : ∀ d∈sockets s,0<d := by
  intro d hd
  obtain ⟨i,hi,rfl⟩ := List.mem_map.mp hd
  exact of_decide_eq_true (List.mem_filter.mp hi).2

/-- With the other slots free the server has a single client. -/
theorem Front.singleClient {s : Server} (h : Front s) : SingleClient s := by
  have held : ∀ i,Held s i → i=0 := by
    intro i hi
    fin_cases i
    · rfl
    · exact absurd hi (not_held_of_cleared h.second)
    · exact absurd hi (not_held_of_cleared h.third)
  refine ⟨fun i j hi hj => (held i hi).trans (held j hj).symm,?_,h.accounts⟩
  intro i hi
  fin_cases i
  · exact h.cleared hi
  · exact h.second
  · exact h.third

/-- Closing a free slot gives back the descriptor zero, which is foreign. -/
theorem closeSlot_free {s : Server} {i : Fin maxClients} (hi : s.mbClients i=⟨0,0⟩)
    (hlive : 0∉s.ledger.live) (hissued : 0∉s.ledger.issued) : closeSlot s i=s := by
  have hfd : (s.mbClients i).fd=0 := by rw [hi]
  have hupdate : Function.update s.mbClients i ⟨0,0⟩=s.mbClients := by
    rw [←hi]
    exact Function.update_eq_self i s.mbClients
  rw [closeSlot,hfd,Ledger.closed_foreign hlive hissued,hupdate]

/-- The checks of free slots change no slot; the flag is lost if one of them
sees the link down. -/
theorem evict_free (reading : Fin maxClients → Reading) (is : List (Fin maxClients)) (s : Server)
    (had : Bool) (hfree : ∀ i∈is,s.mbClients i=⟨0,0⟩) (hlive : 0∉s.ledger.live)
    (hissued : 0∉s.ledger.issued) :
    evict reading is (s,had)=(s,had && is.all fun i => !(reading i).linkDown) := by
  induction is generalizing had with
  | nil => rw [evict,List.all_nil,Bool.and_true]
  | cons i is ih =>
    have hi := hfree i List.mem_cons_self
    have hrest : ∀ j∈is,s.mbClients j=⟨0,0⟩ := fun j hj => hfree j (List.mem_cons_of_mem _ hj)
    have hcheck : Terminates (s.mbClients i) (reading i) ↔ (reading i).linkDown=true := by
      rw [Terminates,hi]
      exact ⟨fun h => h.resolve_left fun h0 => h0.1 rfl,Or.inr⟩
    rw [evict]
    cases hdown : (reading i).linkDown with
    | false =>
      rw [if_neg (fun h => by rw [hcheck,hdown] at h; cases h),ih had hrest]
      simp only [List.all_cons,hdown,Bool.not_false,Bool.true_and]
    | true =>
      rw [if_pos (hcheck.mpr hdown),closeSlot_free hi hlive hissued,ih false hrest]
      simp only [List.all_cons,hdown,Bool.not_true,Bool.false_and,Bool.and_false]

/-- The request loop passes over slots that hold no socket. -/
theorem serve_free (received : Fin maxClients → Option Received) (is : List (Fin maxClients))
    (s : Server) (hfree : ∀ i∈is,¬Held s i) : serve received is s=s := by
  induction is with
  | nil => rfl
  | cons i is ih =>
    rw [serve,if_neg (hfree i List.mem_cons_self)]
    exact ih fun j hj => hfree j (List.mem_cons_of_mem _ hj)

/-- Zero is neither open nor handed out. -/
theorem Front.zero_foreign {s : Server} (h : Front s) :
    0∉s.ledger.live ∧ 0∉s.ledger.issued := by
  constructor
  · intro hmem
    exact lt_irrefl 0 (sockets_positive s 0 (h.accounts.perm.mem_iff.mp hmem))
  · intro hmem
    exact lt_irrefl 0 (h.positive 0 hmem)

/-- The front invariant for a change of the first slot. -/
theorem front_of_update {s : Server} (h : Front s) (c : ModbusClient) (L : Ledger ℤ)
    (hcleared : ¬0<c.fd → c=⟨0,0⟩) (haccounts : Accounts L (if 0<c.fd then [c.fd] else []))
    (hpositive : ∀ d∈L.issued,0<d) : Front ⟨Function.update s.mbClients 0 c,L⟩ := by
  have h1 : Function.update s.mbClients 0 c 1=⟨0,0⟩ :=
    (Function.update_of_ne (by decide : (1 : Fin maxClients)≠0) c s.mbClients).trans h.second
  have h2 : Function.update s.mbClients 0 c 2=⟨0,0⟩ :=
    (Function.update_of_ne (by decide : (2 : Fin maxClients)≠0) c s.mbClients).trans h.third
  have h0 : Function.update s.mbClients 0 c 0=c := Function.update_self 0 c s.mbClients
  refine ⟨h1,h2,?_,?_,hpositive⟩
  · intro hnot
    simp only [Held,h0] at hnot ⊢
    exact hcleared hnot
  · rw [sockets_of_free (s:=⟨Function.update s.mbClients 0 c,L⟩) h1 h2]
    simp only [Held,h0]
    exact haccounts

/-- A free server accounts for nothing, a held one for the first slot. -/
theorem Front.accounts_first {s : Server} (h : Front s) :
    Accounts s.ledger (if Held s 0 then [(s.mbClients 0).fd] else []) := by
  have hacc := h.accounts
  rwa [sockets_of_free h.second h.third] at hacc

/-- The request pass keeps the front invariant. -/
theorem front_serve {s : Server} (h : Front s) (received : Fin maxClients → Option Received) :
    Front (serve received slotOrder s) := by
  have later : ∀ t : Server,t.mbClients 1=⟨0,0⟩ → t.mbClients 2=⟨0,0⟩ →
      serve received [1,2] t=t := by
    intro t h1 h2
    apply serve_free
    intro i hi
    rcases List.mem_cons.mp hi with rfl | hi
    · exact not_held_of_cleared h1
    · rw [List.mem_singleton.mp hi]
      exact not_held_of_cleared h2
  rw [slotOrder,serve]
  split
  · rename_i hheld
    have hacc := h.accounts_first
    rw [if_pos hheld] at hacc
    cases received 0 with
    | none =>
      simp only [later s h.second h.third]
      exact h
    | some r =>
      cases r with
      | closed =>
        have hfront : Front (closeSlot s 0) := by
          refine front_of_update h ⟨0,0⟩ _ (fun _ => rfl) ?_ ?_
          · rw [if_neg (lt_irrefl 0)]
            exact hacc.closed
          · rw [Ledger.closed_issued]
            exact h.positive
        simp only [later _ hfront.second hfront.third]
        exact hfront
      | request now dataError =>
        have hfront : Front ⟨Function.update s.mbClients 0 ⟨(s.mbClients 0).fd,now⟩,s.ledger⟩ := by
          refine front_of_update h ⟨(s.mbClients 0).fd,now⟩ _ (fun hnot => absurd hheld hnot) ?_
            h.positive
          rw [if_pos (show 0<(s.mbClients 0).fd from hheld)]
          exact hacc
        cases dataError with
        | true => exact hfront
        | false =>
          simp only [Bool.false_eq_true,if_false,later _ hfront.second hfront.third]
          exact hfront
  · rw [later s h.second h.third]
    exact h

/-- Before the `select` the flag says whether the first slot is held. -/
theorem Front.hadConnect {s : Server} (h : Front s) : hadConnect s=decide (Held s 0) := by
  simp only [ModbusTcp.hadConnect,slotOrder,List.any_cons,List.any_nil,
    not_held_of_cleared h.second,not_held_of_cleared h.third,decide_false,Bool.or_false]

/-- The checks of an accept pass with the last two slots free. -/
theorem evict_slotOrder (reading : Fin maxClients → Reading) {s : Server} (had : Bool)
    (h1 : s.mbClients 1=⟨0,0⟩) (h2 : s.mbClients 2=⟨0,0⟩) (hlive : 0∉s.ledger.live)
    (hissued : 0∉s.ledger.issued) :
    evict reading slotOrder (s,had)=
      if Terminates (s.mbClients 0) (reading 0) then (closeSlot s 0,false)
      else (s,had && !(reading 1).linkDown && !(reading 2).linkDown) := by
  have later : ∀ (t : Server) (f : Bool),t.mbClients 1=⟨0,0⟩ → t.mbClients 2=⟨0,0⟩ →
      0∉t.ledger.live → 0∉t.ledger.issued →
      evict reading [1,2] (t,f)=(t,f && !(reading 1).linkDown && !(reading 2).linkDown) := by
    intro t f t1 t2 tlive tissued
    have hfree : ∀ i∈([1,2] : List (Fin maxClients)),t.mbClients i=⟨0,0⟩ := by
      intro i hi
      rcases List.mem_cons.mp hi with rfl | hi
      · exact t1
      · rw [List.mem_singleton.mp hi]
        exact t2
    rw [evict_free reading _ t f hfree tlive tissued]
    simp only [List.all_cons,List.all_nil,Bool.and_true,Bool.and_assoc]
  rw [slotOrder,evict]
  split
  · have c1 : (closeSlot s 0).mbClients 1=⟨0,0⟩ :=
      (Function.update_of_ne (by decide : (1 : Fin maxClients)≠0) (⟨0,0⟩ : ModbusClient)
        s.mbClients).trans h1
    have c2 : (closeSlot s 0).mbClients 2=⟨0,0⟩ :=
      (Function.update_of_ne (by decide : (2 : Fin maxClients)≠0) (⟨0,0⟩ : ModbusClient)
        s.mbClients).trans h2
    have clive : 0∉(closeSlot s 0).ledger.live :=
      fun h => hlive (Ledger.closed_live_subset _ _ h)
    have cissued : 0∉(closeSlot s 0).ledger.issued := by
      rw [closeSlot,Ledger.closed_issued]
      exact hissued
    rw [later _ _ c1 c2 clive cissued]
    simp only [Bool.false_and]
  · exact later s had h1 h2 hlive hissued

section Connect

variable {s : Server} {client : ℤ} (reading : Fin maxClients → Reading) (stamp : ℕ)

/-- An accept pass of a server whose last two slots are free. -/
theorem tcpPoll_connect (h : Front s) (hpos : 0<client) :
    tcpPoll s (.connect client reading stamp)=
      let opened : Server := {s with ledger:=s.ledger.opened client}
      if Terminates (s.mbClients 0) (reading 0) then
        install client stamp slotOrder (closeSlot opened 0)
      else if Held s 0 ∧ (reading 1).linkDown=false ∧ (reading 2).linkDown=false then
        {s with ledger:=(s.ledger.opened client).closed client}
      else install client stamp slotOrder opened := by
  obtain ⟨hlive,hissued⟩ := h.zero_foreign
  have holive : 0∉(s.ledger.opened client).live := by
    intro hmem
    rcases List.mem_cons.mp hmem with heq | hmem
    · exact hpos.ne heq
    · exact hlive hmem
  have hoissued : 0∉(s.ledger.opened client).issued := by
    intro hmem
    rcases List.mem_cons.mp hmem with heq | hmem
    · exact hpos.ne heq
    · exact hissued hmem
  have hevict := evict_slotOrder reading (s:={s with ledger:=s.ledger.opened client})
    (decide (Held s 0)) h.second h.third holive hoissued
  simp only [tcpPoll,h.hadConnect,hevict]
  by_cases hterm : Terminates (s.mbClients 0) (reading 0)
  · simp only [if_pos hterm,Bool.false_eq_true,if_false]
  · simp only [if_neg hterm]
    by_cases hkeep : Held s 0 ∧ (reading 1).linkDown=false ∧ (reading 2).linkDown=false
    · obtain ⟨h0,h1,h2⟩ := hkeep
      simp only [h0,h1,h2,decide_true,Bool.not_false,Bool.and_true,if_true,and_self]
    · rw [if_neg hkeep,if_neg]
      simp only [Bool.and_eq_true,decide_eq_true_eq,Bool.not_eq_true']
      exact fun hall => hkeep ⟨hall.1.1,hall.1.2,hall.2⟩

/-- Installing a client in the free first slot. -/
theorem install_first {t : Server} (h0 : (t.mbClients 0).fd=0) :
    install client stamp slotOrder t=
      {t with mbClients:=Function.update t.mbClients 0 ⟨client,stamp⟩} := by
  rw [slotOrder,install,if_pos h0]

/-- An accept pass in which the link is steady keeps the front invariant. -/
theorem front_connect (h : Front s) (hpos : 0<client) (hfresh : client∉s.ledger.live)
    (hsteady : LinkSteady s (.connect client reading stamp)) :
    Front (tcpPoll s (.connect client reading stamp)) := by
  have hacc := h.accounts_first
  have hissued : ∀ d∈(s.ledger.opened client).issued,0<d := by
    intro d hd
    rcases List.mem_cons.mp hd with rfl | hd
    · exact hpos
    · exact h.positive d hd
  have installed : ∀ L,Accounts L [client] → (∀ d∈L.issued,0<d) →
      Front ⟨Function.update s.mbClients 0 ⟨client,stamp⟩,L⟩ := by
    intro L hL hpositive
    refine front_of_update h ⟨client,stamp⟩ L (fun hnot => absurd hpos hnot) ?_ hpositive
    rw [if_pos hpos]
    exact hL
  rw [tcpPoll_connect reading stamp h hpos]
  dsimp only
  split
  · have hclosed : ((closeSlot {s with ledger:=s.ledger.opened client} 0).mbClients 0).fd=0 := by
      simp only [closeSlot,Function.update_self]
    rw [install_first stamp hclosed]
    simp only [closeSlot,Function.update_idem]
    refine installed _ ?_ ?_
    · by_cases hheld : Held s 0
      · rw [if_pos hheld] at hacc
        exact ((hacc.opened hfresh).reorder (List.Perm.swap _ _ _)).closed
      · rw [if_neg hheld] at hacc
        have hfd : (s.mbClients 0).fd=0 := by rw [h.cleared hheld]
        have hopened := hacc.opened hfresh
        have hzero : (0 : ℤ)∉(s.ledger.opened client).live := by
          rw [hopened.perm.mem_iff,List.mem_singleton]
          exact hpos.ne
        rw [hfd,Ledger.closed_foreign hzero (fun hz => lt_irrefl 0 (hissued 0 hz))]
        exact hopened
    · rw [Ledger.closed_issued]
      exact hissued
  · rename_i hkept
    by_cases hheld : Held s 0
    · rw [if_pos ⟨hheld,hsteady hheld hkept⟩]
      refine ⟨h.second,h.third,h.cleared,?_,?_⟩
      · exact h.accounts.opened_closed hfresh
      · rw [Ledger.closed_issued]
        exact hissued
    · rw [if_neg (fun hall => hheld hall.1)]
      have hfd : (s.mbClients 0).fd=0 := by rw [h.cleared hheld]
      rw [install_first (t:={s with ledger:=s.ledger.opened client}) stamp hfd]
      rw [if_neg hheld] at hacc
      exact installed _ (hacc.opened hfresh) hissued

/-- An accept pass in which a later slot sees the link down while the first
client is kept installs a second client. -/
theorem not_singleClient_connect (h : Front s) (hpos : 0<client)
    (hsteady : ¬LinkSteady s (.connect client reading stamp)) :
    ¬SingleClient (tcpPoll s (.connect client reading stamp)) := by
  simp only [LinkSteady,Classical.not_imp] at hsteady
  obtain ⟨hheld,hkept,hdown⟩ := hsteady
  have hne : (s.mbClients 0).fd≠0 := ne_of_gt hheld
  have hfree : (s.mbClients 1).fd=0 := by rw [h.second]
  rw [tcpPoll_connect reading stamp h hpos]
  dsimp only
  rw [if_neg hkept,if_neg (fun hall => hdown hall.2),slotOrder,install,if_neg hne,install,
    if_pos hfree]
  intro hsingle
  have h0 : Held ⟨Function.update s.mbClients 1 ⟨client,stamp⟩,s.ledger.opened client⟩ 0 := by
    simp only [Held,Function.update_of_ne (by decide : (0 : Fin maxClients)≠1)]
    exact hheld
  have h1 : Held ⟨Function.update s.mbClients 1 ⟨client,stamp⟩,s.ledger.opened client⟩ 1 := by
    simp only [Held,Function.update_self]
    exact hpos
  exact absurd (hsingle.single 0 1 h0 h1) (by decide)

end Connect

/-- A round keeps the front invariant if the link is steady in it. -/
theorem front_tcpPoll (s : Server) (e : Round) (h : Front s) (ha : Accepts s e)
    (hc : LinkSteady s e) : Front (tcpPoll s e) := by
  cases e with
  | idle => exact h
  | connect client reading stamp => exact front_connect reading stamp h ha.1 ha.2 hc
  | serve received => exact front_serve h received

/-- A round in which the link is not steady leaves two clients. -/
theorem not_singleClient_tcpPoll (s : Server) (e : Round) (h : Front s) (ha : Accepts s e)
    (hc : ¬LinkSteady s e) : ¬SingleClient (tcpPoll s e) := by
  cases e with
  | idle => exact absurd trivial hc
  | connect client reading stamp => exact not_singleClient_connect reading stamp h ha.1 hc
  | serve received => exact absurd trivial hc

/-- The server starts with all slots free. -/
theorem front_boot : Front boot :=
  ⟨rfl,rfl,fun _ => rfl,⟨List.nodup_nil,List.Perm.refl _,rfl⟩,fun _ h => absurd h List.not_mem_nil⟩

/-- The checks leave a slot that passes its own. -/
theorem evict_kept (reading : Fin maxClients → Reading) (is : List (Fin maxClients)) (s : Server)
    (had : Bool) {i : Fin maxClients} (hkept : ¬Terminates (s.mbClients i) (reading i)) :
    (evict reading is (s,had)).1.mbClients i=s.mbClients i := by
  induction is generalizing s had with
  | nil => rfl
  | cons j is ih =>
    rw [evict]
    split
    · rename_i hterm
      have hne : i≠j := fun he => hkept (he▸hterm)
      have hsame : (closeSlot s j).mbClients i=s.mbClients i :=
        Function.update_of_ne hne _ s.mbClients
      rw [ih (closeSlot s j) false (by rw [hsame]; exact hkept),hsame]
    · exact ih s had hkept

/-- A new client is only installed in a free slot. -/
theorem install_kept (client : ℤ) (stamp : ℕ) (is : List (Fin maxClients)) (s : Server)
    {i : Fin maxClients} (hheld : Held s i) :
    (install client stamp is s).mbClients i=s.mbClients i := by
  induction is with
  | nil => rfl
  | cons j is ih =>
    rw [install]
    split
    · rename_i hfree
      have hne : i≠j := fun he => ne_of_gt hheld (he▸hfree)
      exact Function.update_of_ne hne _ s.mbClients
    · exact ih

/-- No accept pass displaces an active client while the link is up. -/
theorem undisplaced (s : Server) (e : Round) : Undisplaced s e := by
  cases e with
  | idle => trivial
  | serve received => trivial
  | connect client reading stamp =>
    intro i hheld hrecent hup
    have hkept : ¬Terminates (s.mbClients i) (reading i) := by
      rintro (⟨-,hlate⟩ | hdown)
      · omega
      · rw [hup] at hdown
        cases hdown
    have hevict := evict_kept reading slotOrder {s with ledger:=s.ledger.opened client}
      (hadConnect s) (i:=i) hkept
    rw [tcpPoll]
    split
    · exact hevict
    · rw [install_kept]
      · exact hevict
      · rw [Held,hevict]
        exact hheld

/-- With descriptors as `accept` hands them out, the server has a single client
in every state of a run, and no accept pass displaces an active client, exactly
if the link is steady in every accept pass that keeps a client. -/
theorem single_client_iff (es : List Round) (hacc : AlongRun tcpPoll Accepts boot es) :
    (Throughout tcpPoll SingleClient boot es ∧ AlongRun tcpPoll Undisplaced boot es) ↔
      AlongRun tcpPoll LinkSteady boot es := by
  have hiff := throughout_iff_of_assumed front_tcpPoll (fun _ h => h.singleClient)
    not_singleClient_tcpPoll front_boot hacc
  have hundisplaced : AlongRun tcpPoll Undisplaced boot es :=
    alongRun_of_kept (I:=fun _ => True) (fun _ _ _ => trivial) (fun s e _ => undisplaced s e)
      trivial es
  exact ⟨fun h => hiff.mp h.1,fun h => ⟨hiff.mpr h,hundisplaced⟩⟩

/-- The link is up during the first check of a pass at uptime `now` and down
during the checks of the other slots. -/
def fallingLink (now : ℕ) : Fin maxClients → Reading := fun i => ⟨now,decide (i≠0)⟩

/-- The link stays as it is during a pass. -/
def steadyLink (now : ℕ) (linkDown : Bool) : Fin maxClients → Reading := fun _ => ⟨now,linkDown⟩

/-- A link that fails between the checks of the first and the second slot lets
a second client in beside the first. -/
theorem falling_link_admits_second_client :
    ¬∀ es,AlongRun tcpPoll Accepts boot es →
      Throughout tcpPoll SingleClient boot es ∧ AlongRun tcpPoll Undisplaced boot es := by
  intro h
  have hrun := (h [.connect 5 (steadyLink 1 false) 1,.connect 6 (fallingLink 2) 2]
    ⟨⟨by decide,by decide⟩,⟨by decide,by decide⟩,trivial⟩).1
  have hlast := hrun.last
  exact absurd (hlast.single 0 1 (by decide) (by decide)) (by decide)

/-- A client is accepted, a second one refused, the first one served, and then
displaced after more than thirty seconds. -/
theorem single_client_example :
    let es : List Round := [.connect 5 (steadyLink 1 false) 1,.connect 6 (steadyLink 2 false) 2,
      .serve (fun _ => some (.request 3 false)),.connect 7 (steadyLink 30004 false) 30004]
    Throughout tcpPoll SingleClient boot es ∧ AlongRun tcpPoll Undisplaced boot es := by
  intro es
  have hacc : AlongRun tcpPoll Accepts boot es :=
    ⟨⟨by decide,by decide⟩,⟨by decide,by decide⟩,trivial,⟨by decide,by decide⟩,trivial⟩
  exact (single_client_iff es hacc).mpr
    ⟨fun _ _ => ⟨rfl,rfl⟩,fun _ _ => ⟨rfl,rfl⟩,trivial,fun _ _ => ⟨rfl,rfl⟩,trivial⟩

/-- A pass in which the link does not change. -/
def LinkConstant (_ : Server) : Round → Prop
  | .connect _ reading _ => ∀ i,(reading i).linkDown=(reading 0).linkDown
  | _ => True

/-- If the link only changes between the passes, the server has a single client
in every state of every run. -/
theorem single_client_of_constant_link (es : List Round)
    (hacc : AlongRun tcpPoll Accepts boot es) (hlink : AlongRun tcpPoll LinkConstant boot es) :
    Throughout tcpPoll SingleClient boot es := by
  have steady : ∀ s e,LinkConstant s e → LinkSteady s e := by
    intro s e hc
    cases e with
    | idle => trivial
    | serve received => trivial
    | connect client reading stamp =>
      intro _ hkept
      have hup : (reading 0).linkDown=false := by
        rw [←Bool.not_eq_true]
        exact fun hdown => hkept (Or.inr hdown)
      exact ⟨(hc 1).trans hup,(hc 2).trans hup⟩
  have hboth := alongRun_and.mpr ⟨hacc,hlink⟩
  exact (throughout_of_invariant
    (fun s e h hc => front_tcpPoll s e h hc.1 (steady s e hc.2)) front_boot hboth).mono
    fun _ h => h.singleClient

end ZephyrApp.ModbusTcp

import ZephyrApp.ScannerPath
import ZephyrApp.UdpConfigPort

/-!
# The bridge between handler and host

Frames of the handler go over the radio to the gateway, which forwards its
state and heartbeat to the host; datagrams of the host go the other way to the
scanner parser. The link keeps the order and loses nothing. Each direction is
a queue of frames, sealed under counters that follow the one accepted last.
-/

namespace ZephyrApp.Bridge

open MachineBytes CounterStream SequenceWindow EventRuns Nrf24Crypt Rf24Send ScannerPath CanFrames
open UdpConfigPort (SockAddr)

/-- `HANDLER_STATE`, the id of the handler's state. -/
def handlerState : Half := 0x1E3

/-- `COBID_HEATBEAT`, the id of the heartbeat. -/
def cobidHeatbeat : Half := 0x763

/-- One of the ids that the gateway forwards to the host. -/
def IsForwarded (id : Half) : Prop := id=handlerState ∨ id=cobidHeatbeat

instance (id : Half) : Decidable (IsForwarded id) :=
  inferInstanceAs (Decidable (id=handlerState ∨ id=cobidHeatbeat))

/-- `rf24_data_send` with a transmission that succeeds: the frame, none when the
call is refused. -/
def rf24DataSend (crypt ready : Bool) (s : CryptState) (stack : StackBuf) (canId : Half)
    (data : List Byte) : Option (List Byte)×CryptState :=
  buildFrame crypt ready s stack canId data

/-- `gw_rf24_send`, the gateway's counterpart. -/
def gwRf24Send (crypt ready : Bool) (s : CryptState) (stack : StackBuf) (canId : Half)
    (data : List Byte) : Option (List Byte)×CryptState :=
  buildFrame crypt ready s stack canId data

section Gateway

/-- What the gateway's receive thread does with one frame. -/
inductive GatewayOutcome where
  /-- The frame has no room for an id. -/
  | tooShort
  /-- Opening rejects the frame. -/
  | rejected
  /-- The payload goes to the link tests. -/
  | test (payload : List Byte)
  /-- The id is ignored. -/
  | ignored (id : Half)
  /-- The message goes to `gw_udp_send`. -/
  | udpSend (message : List Byte)

/-- Sort a message of the given length at the front of the receive buffer. -/
def gatewayDispatch (buf : List Byte) (len : ℕ) : GatewayOutcome :=
  let canId := sysGetBe16 buf 0
  if canId=testFrame then .test ((buf.drop 2).take (len-2))
  else if canId≠handlerState ∧ canId≠cobidHeatbeat then .ignored canId
  else .udpSend (buf.take len)

/-- One pass of the gateway's receive thread over a received frame. -/
def gatewayRxThread (crypt : Bool) (s : CryptState) (frame : RxFrame) :
    GatewayOutcome×CryptState :=
  if frame.bytes.length<2 then (.tooShort,s)
  else if crypt then
    let report := openFrame s frame
    if report.ret=0 then (.rejected,report.state)
    else (gatewayDispatch report.buf report.ret,report.state)
  else (gatewayDispatch (frame.bytes++frame.tail) frame.bytes.length,s)

/-- What `gw_udp_send` looks at. -/
structure DataPort where
  /-- `data_sock`. -/
  dataSock : ℤ
  /-- `gw_net_link_up`. -/
  linkUp : Bool
  /-- `host_ip` as an address, none when it is not one. -/
  hostIp : Option Word
  /-- `host_port`. -/
  hostPort : Half

/-- `gw_udp_send`: the datagram that leaves, if any. -/
def gwUdpSend (port : DataPort) (data : List Byte) : Option (List Byte×SockAddr) :=
  if port.dataSock<0 ∨ data.length=0 then none
  else if port.linkUp=false then none
  else
    match port.hostIp with
    | none => none
    | some ip => some (data,⟨port.hostPort,ip⟩)

/-- The message that an outcome hands to `gw_udp_send`, if any. -/
def GatewayOutcome.toUdp : GatewayOutcome → List (List Byte)
  | .udpSend message => [message]
  | _ => []

end Gateway

/-- The id and payload with which a received frame comes to the handler's
scanner parser. -/
def scannerArrival (crypt : Bool) (s : CryptState) (frame : RxFrame) :
    List (Half×List Byte) :=
  match receivedMessage crypt s frame with
  | none => []
  | some m => if IsScanner (sysGetBe16 m 0) then [(sysGetBe16 m 0,m.drop 2)] else []

/-- The bridge: both endpoints with the frames between them. -/
structure BridgeState where
  /-- The handler's cipher statics. -/
  handler : CryptState
  /-- The gateway's cipher statics. -/
  gateway : CryptState
  /-- The frames on their way to the gateway, the oldest first. -/
  up : List (List Byte)
  /-- The frames on their way to the handler, the oldest first. -/
  down : List (List Byte)
  /-- The messages that `rf24_data_send` has accepted, in order. -/
  acceptedUp : List (Half×List Byte)
  /-- The messages that `gw_rf24_send` has accepted, in order. -/
  acceptedDown : List (Half×List Byte)
  /-- What has been handed to `gw_udp_send`, in order. -/
  udp : List (List Byte)
  /-- The datagrams that have left for the host, in order. -/
  datagrams : List (List Byte×SockAddr)
  /-- What has come to the scanner parser, in order. -/
  scanner : List (Half×List Byte)

/-- What happens at the bridge. -/
inductive BridgeEvent where
  /-- A thread of the handler calls `rf24_data_send`. -/
  | handlerSend (ready : Bool) (stack : StackBuf) (canId : Half) (data : List Byte)
  /-- The oldest frame reaches the gateway's receive thread. -/
  | gatewayReceive (port : DataPort) (tail : List Byte)
  /-- A datagram reaches the gateway's data thread. -/
  | datagram (ready : Bool) (stack : StackBuf) (bytes : List Byte)
  /-- Another thread of the gateway calls `gw_rf24_send`. -/
  | gatewaySend (ready : Bool) (stack : StackBuf) (canId : Half) (data : List Byte)
  /-- The oldest frame reaches the handler's receive thread. -/
  | handlerReceive (tail : List Byte)

/-- The handler after a call of `rf24_data_send` for a message. -/
def BridgeState.sendUp (s : BridgeState) (m : Half×List Byte) : Option (List Byte)×CryptState →
    BridgeState
  | (none,handler) => {s with handler := handler}
  | (some frame,handler) =>
    {s with
      handler := handler
      up := s.up++[frame]
      acceptedUp := s.acceptedUp++[m]}

/-- The gateway after a call of `gw_rf24_send` for a message. -/
def BridgeState.sendDown (s : BridgeState) (m : Half×List Byte) : Option (List Byte)×CryptState →
    BridgeState
  | (none,gateway) => {s with gateway := gateway}
  | (some frame,gateway) =>
    {s with
      gateway := gateway
      down := s.down++[frame]
      acceptedDown := s.acceptedDown++[m]}

/-- The gateway's receive thread takes the oldest frame. -/
def BridgeState.receiveUp (crypt : Bool) (s : BridgeState) (port : DataPort) (tail : List Byte) :
    BridgeState :=
  match s.up with
  | [] => s
  | bytes::up =>
    let pass := gatewayRxThread crypt s.gateway ⟨bytes,tail⟩
    {s with
      gateway := pass.2
      up := up
      udp := s.udp++pass.1.toUdp
      datagrams := s.datagrams++pass.1.toUdp.filterMap (gwUdpSend port)}

/-- The handler's receive thread takes the oldest frame. -/
def BridgeState.receiveDown (crypt : Bool) (s : BridgeState) (tail : List Byte) : BridgeState :=
  match s.down with
  | [] => s
  | bytes::down =>
    {s with
      handler := (rf24RxThread crypt s.handler ⟨bytes,tail⟩).2
      down := down
      scanner := s.scanner++scannerArrival crypt s.handler ⟨bytes,tail⟩}

/-- One event. -/
def bridgeNext (crypt : Bool) (s : BridgeState) : BridgeEvent → BridgeState
  | .handlerSend ready stack canId data =>
    s.sendUp (canId,data) (rf24DataSend crypt ready s.handler stack canId data)
  | .gatewayReceive port tail => s.receiveUp crypt port tail
  | .datagram ready stack bytes =>
    s.sendDown (sysGetBe16 bytes 0,bytes.drop 2) (udpDataRxThread crypt ready s.gateway stack bytes)
  | .gatewaySend ready stack canId data =>
    s.sendDown (canId,data) (gwRf24Send crypt ready s.gateway stack canId data)
  | .handlerReceive tail => s.receiveDown crypt tail

/-- Nothing is on its way or has been accepted, and with encryption each end is
in step with the other. -/
structure BridgeState.Start (crypt : Bool) (s : BridgeState) : Prop where
  /-- Nothing is on its way. -/
  empty : s.up=[] ∧ s.down=[]
  /-- Nothing has been accepted. -/
  fresh : s.acceptedUp=[] ∧ s.acceptedDown=[]
  /-- Nothing has arrived. -/
  silent : s.udp=[] ∧ s.datagrams=[] ∧ s.scanner=[]
  /-- The ends are keyed alike and in sync. -/
  inStep : crypt=true → InStep s.handler s.gateway ∧ InStep s.gateway s.handler

section Lane

variable {crypt : Bool}

/-- The frames of messages that are sealed one after the other. -/
def sealedFrom (key : CryptKey) : ℕ → List (Half×List Byte) → List (List Byte)
  | _,[] => []
  | k,m::ms => sealedFrame key (BitVec.ofNat 32 k) (callPlaintext m.1 m.2)::sealedFrom key (k+1) ms

/-- The frames on their way from a sender to a receiver are those of the
messages, and the receiver is about to accept them. -/
structure Carries (crypt : Bool) (sender receiver : CryptState) (frames : List (List Byte))
    (messages : List (Half×List Byte)) : Prop where
  /-- The payloads have a length that is accepted. -/
  fits : ∀ m∈messages,m.2.length≤payloadLimit crypt
  /-- With encryption the frames are sealed from the counter that comes next. -/
  encrypted : crypt=true → ∃ k last,sender.txCounter=BitVec.ofNat 32 (k+messages.length) ∧
    Tracks sender.cryptKey receiver last ∧ InWindow (fun i => i%2^32<256) 32 last k ∧
      frames=sealedFrom sender.cryptKey k messages
  /-- Without encryption they are the messages. -/
  plain : crypt=false → frames=messages.map fun m => callPlaintext m.1 m.2

/-- What the receiving side of an endpoint looks at. -/
def SameReceiver (s t : CryptState) : Prop :=
  t.cryptKey=s.cryptKey ∧ t.rxInitialized=s.rxInitialized ∧ t.rxCounter=s.rxCounter

/-- What the sending side of an endpoint looks at. -/
def SameSender (s t : CryptState) : Prop := t.cryptKey=s.cryptKey ∧ t.txCounter=s.txCounter

variable {sender receiver : CryptState} {frames : List (List Byte)}
  {messages : List (Half×List Byte)}

/-- A queue depends on the sending side of its sender and the receiving side of
its receiver only. -/
theorem Carries.congr (h : Carries crypt sender receiver frames messages)
    {sender' receiver' : CryptState} (hsender : SameSender sender sender')
    (hreceiver : SameReceiver receiver receiver') :
    Carries crypt sender' receiver' frames messages := by
  refine ⟨h.fits,fun hc => ?_,h.plain⟩
  obtain ⟨k,last,hctr,htracks,hwin,hframes⟩ := h.encrypted hc
  rw [←hsender.1] at htracks hframes
  refine ⟨k,last,hsender.2.trans hctr,?_,hwin,hframes⟩
  refine ⟨hreceiver.1.trans htracks.1,?_⟩
  have hrest := htracks.2
  cases last with
  | none => exact hreceiver.2.1.trans hrest
  | some j => exact ⟨hreceiver.2.1.trans hrest.1,hreceiver.2.2.trans hrest.2⟩

/-- Ends in step have an empty queue between them. -/
theorem carries_nil (h : crypt=true → InStep sender receiver) :
    Carries crypt sender receiver [] [] := by
  refine ⟨fun m hm => absurd hm List.not_mem_nil,fun hc => ?_,fun _ => rfl⟩
  obtain ⟨k,last,hctr,htracks,hwin⟩ := h hc
  exact ⟨k,last,hctr,htracks,hwin,rfl⟩

/-- One more message is sealed under the counter after the others. -/
theorem sealedFrom_append (key : CryptKey) (k : ℕ) (ms : List (Half×List Byte))
    (m : Half×List Byte) :
    sealedFrom key k (ms++[m])=
      sealedFrom key k ms++
        [sealedFrame key (BitVec.ofNat 32 (k+ms.length)) (callPlaintext m.1 m.2)] := by
  induction ms generalizing k with
  | nil => rfl
  | cons a ms ih =>
    rw [List.cons_append,sealedFrom,ih,sealedFrom,List.length_cons,List.cons_append]
    have hk : k+1+ms.length=k+(ms.length+1) := by omega
    rw [hk]

/-- There is a frame for each message. -/
@[simp] theorem sealedFrom_length (key : CryptKey) (k : ℕ) (ms : List (Half×List Byte)) :
    (sealedFrom key k ms).length=ms.length := by
  induction ms generalizing k with
  | nil => rfl
  | cons m ms ih => rw [sealedFrom,List.length_cons,List.length_cons,ih]

/-- A call that is not accepted leaves the statics. -/
theorem buildFrame_refused {crypt ready : Bool} (s : CryptState) (stack : StackBuf) (canId : Half)
    {data : List Byte} (h : ¬(ready=true ∧ data.length≤payloadLimit crypt)) :
    buildFrame crypt ready s stack canId data=(none,s) := by
  refine buildFrame_rejects crypt ready s stack canId ?_
  cases ready with
  | true => exact Or.inr (Nat.lt_of_not_le fun hfit => h ⟨rfl,hfit⟩)
  | false => exact Or.inl rfl

/-- A call is accepted when the radio is ready and the payload fits. -/
theorem buildFrame_isSome_iff (crypt ready : Bool) (s : CryptState) (stack : StackBuf)
    (canId : Half) (data : List Byte) :
    (buildFrame crypt ready s stack canId data).1.isSome=true ↔
      ready=true ∧ data.length≤payloadLimit crypt := by
  by_cases hok : ready=true ∧ data.length≤payloadLimit crypt
  · refine iff_of_true ?_ hok
    rw [hok.1]
    cases crypt with
    | true => rw [buildFrame_crypt s stack canId hok.2]; rfl
    | false => rw [buildFrame_plain s stack canId hok.2]; rfl
  · rw [buildFrame_refused s stack canId hok]
    exact iff_of_false Bool.false_ne_true hok

/-- Building a frame leaves the receiving side of an endpoint. -/
theorem buildFrame_sameReceiver (crypt ready : Bool) (s : CryptState) (stack : StackBuf)
    (canId : Half) (data : List Byte) :
    SameReceiver s (buildFrame crypt ready s stack canId data).2 := by
  by_cases hok : ready=true ∧ data.length≤payloadLimit crypt
  · rw [hok.1]
    cases crypt with
    | true =>
      rw [buildFrame_crypt s stack canId hok.2]
      exact ⟨rfl,rfl,rfl⟩
    | false =>
      rw [buildFrame_plain s stack canId hok.2]
      exact ⟨rfl,rfl,rfl⟩
  · rw [buildFrame_refused s stack canId hok]
    exact ⟨rfl,rfl,rfl⟩

/-- A message that fits goes to the end of the queue. -/
theorem Carries.send (h : Carries crypt sender receiver frames messages) (stack : StackBuf)
    (canId : Half) {data : List Byte} (hfit : data.length≤payloadLimit crypt) :
    ∃ frame,(buildFrame crypt true sender stack canId data).1=some frame ∧
      Carries crypt (buildFrame crypt true sender stack canId data).2 receiver (frames++[frame])
        (messages++[(canId,data)]) := by
  have hfits : ∀ m∈messages++[(canId,data)],m.2.length≤payloadLimit crypt := by
    intro m hm
    rcases List.mem_append.mp hm with hold | hnew
    · exact h.fits m hold
    · rw [List.mem_singleton.mp hnew]
      exact hfit
  cases crypt with
  | true =>
    obtain ⟨k,last,hctr,htracks,hwin,hframes⟩ := h.encrypted rfl
    rw [buildFrame_crypt sender stack canId hfit]
    refine ⟨_,rfl,hfits,fun _ => ⟨k,last,?_,htracks,hwin,?_⟩,fun hc => absurd hc (by decide)⟩
    · have hnext : BitVec.ofNat 32 (k+messages.length)+1=BitVec.ofNat 32 (k+messages.length+1) :=
        (BitVec.ofNat_add _ 1).symm
      dsimp only
      rw [hctr,hnext,List.length_append,List.length_singleton,Nat.add_assoc]
    · dsimp only
      rw [sealedFrom_append,hframes,hctr]
  | false =>
    rw [buildFrame_plain sender stack canId hfit]
    refine ⟨_,rfl,hfits,fun hc => absurd hc (by decide),fun _ => ?_⟩
    rw [h.plain rfl,List.map_append,List.map_singleton]

/-- Receiving a frame leaves the sending side of an endpoint. -/
theorem rf24RxThread_sameSender (crypt : Bool) (s : CryptState) (frame : RxFrame) :
    SameSender s (rf24RxThread crypt s frame).2 := by
  have hopen : SameSender s (openFrame s frame).state := by
    unfold openFrame nrf24CryptOpen
    split
    · exact ⟨rfl,rfl⟩
    · split <;> exact ⟨rfl,rfl⟩
  unfold rf24RxThread
  dsimp only
  split
  · exact ⟨rfl,rfl⟩
  · split
    · split <;> exact hopen
    · exact ⟨rfl,rfl⟩

/-- The receive threads of both ends leave the same statics. -/
theorem gatewayRxThread_state (crypt : Bool) (s : CryptState) (frame : RxFrame) :
    (gatewayRxThread crypt s frame).2=(rf24RxThread crypt s frame).2 := by
  unfold gatewayRxThread rf24RxThread
  dsimp only
  split
  · rfl
  · split
    · split <;> rfl
    · rfl

/-- The first frame of the queue is received as the first message, and the rest
of the queue stays. -/
theorem Carries.receive {frame : List Byte}
    (h : Carries crypt sender receiver (frame::frames) messages) (tail : List Byte) :
    ∃ m rest,messages=m::rest ∧
      receivedMessage crypt receiver ⟨frame,tail⟩=some (callPlaintext m.1 m.2) ∧
      Carries crypt sender (rf24RxThread crypt receiver ⟨frame,tail⟩).2 frames rest := by
  cases messages with
  | nil =>
    cases crypt with
    | true =>
      obtain ⟨k,last,-,-,-,hframes⟩ := h.encrypted rfl
      exact absurd hframes (List.cons_ne_nil _ _)
    | false => exact absurd (h.plain rfl) (List.cons_ne_nil _ _)
  | cons m rest =>
    have hfit := h.fits m List.mem_cons_self
    have hrest : ∀ m'∈rest,m'.2.length≤payloadLimit crypt :=
      fun m' hm' => h.fits m' (List.mem_cons_of_mem m hm')
    refine ⟨m,rest,rfl,?_⟩
    cases crypt with
    | true =>
      obtain ⟨k,last,hctr,htracks,hwin,hframes⟩ := h.encrypted rfl
      rw [sealedFrom,List.cons.injEq] at hframes
      obtain ⟨rfl,hqueue⟩ := hframes
      obtain ⟨hmessage,hnext⟩ := received_sealed htracks hwin m.1 hfit tail
      have hcount : k+(m::rest).length=k+1+rest.length := by
        rw [List.length_cons]
        omega
      rw [hcount] at hctr
      exact ⟨hmessage,hrest,fun _ => ⟨k+1,some k,hctr,hnext,⟨by omega,by omega⟩,hqueue⟩,
        fun hc => absurd hc (by decide)⟩
    | false =>
      have hframes := h.plain rfl
      rw [List.map_cons,List.cons.injEq] at hframes
      obtain ⟨rfl,hqueue⟩ := hframes
      exact ⟨received_plain receiver m.1 m.2 tail,hrest,fun hc => absurd hc (by decide),
        fun _ => hqueue⟩

/-- The queue is as long as the list of its messages. -/
theorem Carries.length (h : Carries crypt sender receiver frames messages) :
    messages.length=frames.length := by
  cases crypt with
  | true =>
    obtain ⟨k,-,-,-,-,hframes⟩ := h.encrypted rfl
    rw [hframes,sealedFrom_length]
  | false => rw [h.plain rfl,List.length_map]

/-- The accepted messages are the ones done, of which something holds, and the
ones whose frames are on their way. -/
def Delivers (crypt : Bool) (sender receiver : CryptState) (frames : List (List Byte))
    (accepted : List (Half×List Byte)) (P : List (Half×List Byte) → Prop) : Prop :=
  ∃ done pending,accepted=done++pending ∧ Carries crypt sender receiver frames pending ∧ P done

variable {accepted : List (Half×List Byte)} {P : List (Half×List Byte) → Prop}

/-- What has been accepted and delivered depends on the same sides of the ends. -/
theorem Delivers.congr (h : Delivers crypt sender receiver frames accepted P)
    {sender' receiver' : CryptState} (hsender : SameSender sender sender')
    (hreceiver : SameReceiver receiver receiver') :
    Delivers crypt sender' receiver' frames accepted P := by
  obtain ⟨done,pending,haccepted,hcarries,hdone⟩ := h
  exact ⟨done,pending,haccepted,hcarries.congr hsender hreceiver,hdone⟩

/-- An accepted call adds its frame to the queue. -/
theorem Delivers.send (h : Delivers crypt sender receiver frames accepted P) {ready : Bool}
    {stack : StackBuf} {canId : Half} {data frame : List Byte} {sender' : CryptState}
    (hcall : buildFrame crypt ready sender stack canId data=(some frame,sender')) :
    Delivers crypt sender' receiver (frames++[frame]) (accepted++[(canId,data)]) P := by
  obtain ⟨done,pending,haccepted,hcarries,hdone⟩ := h
  have hok := (buildFrame_isSome_iff crypt ready sender stack canId data).mp (by rw [hcall]; rfl)
  rw [hok.1] at hcall
  obtain ⟨frame',hframe,hnext⟩ := hcarries.send stack canId hok.2
  rw [hcall,Option.some.injEq] at hframe
  rw [hcall,←hframe] at hnext
  exact ⟨done,pending++[(canId,data)],by rw [haccepted,List.append_assoc],hnext,hdone⟩

/-- A refused call changes nothing. -/
theorem Delivers.refuse (h : Delivers crypt sender receiver frames accepted P) {ready : Bool}
    {stack : StackBuf} {canId : Half} {data : List Byte} {sender' : CryptState}
    (hcall : buildFrame crypt ready sender stack canId data=(none,sender')) :
    Delivers crypt sender' receiver frames accepted P := by
  have hnot : ¬(ready=true ∧ data.length≤payloadLimit crypt) := by
    rw [←buildFrame_isSome_iff crypt ready sender stack canId data,hcall]
    exact Bool.false_ne_true
  rw [buildFrame_refused sender stack canId hnot,Prod.mk.injEq] at hcall
  rw [←hcall.2]
  exact h

/-- The oldest frame is received as the next message. -/
theorem Delivers.receive {frame : List Byte}
    (h : Delivers crypt sender receiver (frame::frames) accepted P) (tail : List Byte)
    {P' : List (Half×List Byte) → Prop}
    (hdone : ∀ done m,P done →
      receivedMessage crypt receiver ⟨frame,tail⟩=some (callPlaintext m.1 m.2) → P' (done++[m])) :
    Delivers crypt sender (rf24RxThread crypt receiver ⟨frame,tail⟩).2 frames accepted P' := by
  obtain ⟨done,pending,haccepted,hcarries,hP⟩ := h
  obtain ⟨m,rest,hpending,hmessage,hnext⟩ := hcarries.receive tail
  refine ⟨done++[m],rest,?_,hnext,hdone done m hP hmessage⟩
  rw [haccepted,hpending,List.append_assoc]
  rfl

/-- The oldest frame carries the oldest message that has not been delivered. -/
theorem Delivers.oldest {frame : List Byte}
    (h : Delivers crypt sender receiver (frame::frames) accepted P) (tail : List Byte) :
    ∃ done m pending,accepted=done++m::pending ∧ pending.length=frames.length ∧
      receivedMessage crypt receiver ⟨frame,tail⟩=some (callPlaintext m.1 m.2) := by
  obtain ⟨done,pending,haccepted,hcarries,-⟩ := h
  obtain ⟨m,rest,hpending,hmessage,hnext⟩ := hcarries.receive tail
  exact ⟨done,m,rest,by rw [haccepted,hpending],hnext.length,hmessage⟩

end Lane

section Arrival

variable {crypt : Bool} {s : CryptState} {frame : RxFrame}

/-- Both receive threads sort a message of at least two bytes that stands at
the front of the buffer. -/
theorem receive_sorts {m : List Byte} (h : receivedMessage crypt s frame=some m) :
    ∃ buf len,2≤len ∧ buf.take len=m ∧ m.length=len ∧
      (gatewayRxThread crypt s frame).1=gatewayDispatch buf len ∧
        (rf24RxThread crypt s frame).1=dispatchRx buf len := by
  unfold receivedMessage at h
  unfold gatewayRxThread rf24RxThread
  by_cases hshort : frame.bytes.length<2
  · rw [if_pos hshort] at h
    exact absurd h (by simp)
  · rw [if_neg hshort] at h ⊢
    rw [if_neg hshort]
    cases crypt with
    | true =>
      rw [if_pos rfl,OpenReport.plaintext] at h
      by_cases hret : (openFrame s frame).ret=0
      · rw [if_pos hret] at h
        exact absurd h (by simp)
      · rw [if_neg hret,Option.some.injEq] at h
        obtain ⟨hlen,hfill⟩ := openFrame_plaintext hret
        rw [h] at hfill
        dsimp only
        rw [if_pos rfl,if_pos rfl,if_neg hret,if_neg hret]
        exact ⟨_,_,hlen,h,hfill,rfl,rfl⟩
    | false =>
      rw [if_neg (by decide),Option.some.injEq] at h
      rw [if_neg (by decide),if_neg (by decide)]
      exact ⟨_,_,Nat.le_of_not_lt hshort,List.take_left.trans h,congrArg List.length h.symm,rfl,rfl⟩

/-- The gateway hands exactly the messages with a forwarded id on, as they are. -/
theorem gatewayRxThread_toUdp {m : List Byte} (h : receivedMessage crypt s frame=some m) :
    (gatewayRxThread crypt s frame).1.toUdp=if IsForwarded (sysGetBe16 m 0) then [m] else [] := by
  obtain ⟨buf,len,hlen,htake,-,hgateway,-⟩ := receive_sorts h
  have hid : sysGetBe16 m 0=sysGetBe16 buf 0 := by rw [←htake,sysGetBe16_take buf hlen]
  rw [hgateway,gatewayDispatch,hid]
  by_cases hforward : IsForwarded (sysGetBe16 buf 0)
  · have htest : sysGetBe16 buf 0≠testFrame := by
      rcases hforward with hid | hid <;> rw [hid] <;> decide
    have hnot : ¬(sysGetBe16 buf 0≠handlerState ∧ sysGetBe16 buf 0≠cobidHeatbeat) :=
      fun hx => hforward.elim hx.1 hx.2
    rw [if_neg htest,if_neg hnot,if_pos hforward,htake]
    rfl
  · have hout : sysGetBe16 buf 0≠handlerState ∧ sysGetBe16 buf 0≠cobidHeatbeat :=
      not_or.mp hforward
    rw [if_neg hforward,if_pos hout]
    split <;> rfl

/-- A message that arrives at the scanner parser is copied with its id and its
payload. -/
theorem rf24RxThread_arrival {canId : Half} {data : List Byte}
    (h : scannerArrival crypt s frame=[(canId,data)]) :
    (rf24RxThread crypt s frame).1=
      .scanner ⟨canId.setWidth 32,canBytesToDlc data.length,copyToData data,copyToData_length data⟩
        data.length := by
  unfold scannerArrival at h
  cases hmessage : receivedMessage crypt s frame with
  | none =>
    rw [hmessage] at h
    exact absurd h (List.cons_ne_nil _ _).symm
  | some m =>
    obtain ⟨buf,len,hlen,htake,hfill,-,hhandler⟩ := receive_sorts hmessage
    have hid : sysGetBe16 m 0=sysGetBe16 buf 0 := by rw [←htake,sysGetBe16_take buf hlen]
    rw [hmessage] at h
    dsimp only at h
    by_cases hs : IsScanner (sysGetBe16 m 0)
    · rw [if_pos hs,List.singleton_inj,Prod.mk.injEq] at h
      obtain ⟨rfl,rfl⟩ := h
      have htest : sysGetBe16 m 0≠testFrame := by
        rcases hs with hs | hs | hs <;> rw [hs] <;> decide
      have hpayload : (buf.drop 2).take (len-2)=m.drop 2 := by rw [←htake,List.drop_take]
      have hcount : (m.drop 2).length=len-2 := by rw [List.length_drop,hfill]
      rw [hhandler,dispatchRx,←hid,if_neg htest,if_neg (not_not.mpr hs)]
      simp only [hpayload,hcount]
    · rw [if_neg hs] at h
      exact absurd h (List.cons_ne_nil _ _).symm

/-- What arrives of a message that a call has built. -/
theorem scannerArrival_callPlaintext {canId : Half} {data : List Byte}
    (h : receivedMessage crypt s frame=some (callPlaintext canId data)) :
    scannerArrival crypt s frame=if IsScanner canId then [(canId,data)] else [] := by
  have hid : sysGetBe16 (callPlaintext canId data) 0=canId := sysGetBe16_sysPutBe16 canId data
  unfold scannerArrival
  rw [h]
  dsimp only
  rw [hid]
  rfl

/-- The gateway sends datagrams of its messages only, unaltered. -/
theorem gwUdpSend_bytes (port : DataPort) (data : List Byte) :
    ∀ d∈gwUdpSend port data,d.1=data := by
  intro d hd
  unfold gwUdpSend at hd
  split at hd
  · exact absurd hd (Option.not_mem_none d)
  · split at hd
    · exact absurd hd (Option.not_mem_none d)
    · cases hip : port.hostIp with
      | none =>
        rw [hip] at hd
        exact absurd hd (Option.not_mem_none d)
      | some ip =>
        rw [hip,Option.mem_some_iff] at hd
        rw [←hd]

/-- The datagrams of some messages are among these, in order. -/
theorem gwUdpSend_sublist (port : DataPort) (messages : List (List Byte)) :
    ((messages.filterMap (gwUdpSend port)).map Prod.fst).Sublist messages := by
  induction messages with
  | nil => exact List.nil_sublist _
  | cons m ms ih =>
    cases hsent : gwUdpSend port m with
    | none =>
      rw [List.filterMap_cons_none hsent]
      exact ih.cons m
    | some d =>
      rw [List.filterMap_cons_some hsent,List.map_cons,gwUdpSend_bytes port m d hsent]
      exact ih.cons_cons m

end Arrival

section Acceptance

/-- A sending function accepts payloads of at most the given length, while the
radio is ready, and a refused one leaves no frame and keeps the statics. -/
def AcceptsUpTo (limit : ℕ)
    (send : Bool → CryptState → StackBuf → List Byte → Option (List Byte)×CryptState) : Prop :=
  ∀ ready s stack data,
    ((send ready s stack data).1.isSome=true ↔ ready=true ∧ data.length≤limit) ∧
      ((send ready s stack data).1=none → send ready s stack data=(none,s))

/-- The largest payload is 29 bytes with encryption and 30 bytes without. -/
theorem payloadLimit_eq (crypt : Bool) : payloadLimit crypt=if crypt then 29 else 30 := by
  cases crypt <;> rfl

/-- The common part of the sending functions accepts exactly these payloads. -/
theorem buildFrame_accepts (crypt : Bool) (canId : Half) :
    AcceptsUpTo (payloadLimit crypt)
      fun ready s stack data => buildFrame crypt ready s stack canId data := by
  intro ready s stack data
  have hiff := buildFrame_isSome_iff crypt ready s stack canId data
  refine ⟨hiff,fun hnone => buildFrame_refused s stack canId fun hok => ?_⟩
  have hsome := hiff.mpr hok
  rw [hnone] at hsome
  exact Bool.false_ne_true hsome

/-- The data thread sends a datagram with a scanner id like a call for its id
and payload, however long it is. -/
theorem udpDataRxThread_eq (crypt ready : Bool) (s : CryptState) (stack : StackBuf)
    {bytes : List Byte} (hlong : 2≤bytes.length) (hid : IsScanner (sysGetBe16 bytes 0)) :
    udpDataRxThread crypt ready s stack bytes=
      buildFrame crypt ready s stack (sysGetBe16 bytes 0) (bytes.drop 2) := by
  have htake : sysGetBe16 (bytes.take 512) 0=sysGetBe16 bytes 0 :=
    sysGetBe16_take bytes (by decide)
  have hlen : 2≤(bytes.take 512).length := by
    rw [List.length_take]
    omega
  unfold udpDataRxThread
  dsimp only
  rw [if_pos hlen,htake,if_pos hid]
  by_cases hwhole : bytes.length≤512
  · rw [List.take_of_length_le hwhole]
  · -- The buffer cuts the datagram, but what is left is still far too long.
    have hlimit : payloadLimit crypt≤30 := by
      cases crypt <;> decide
    have hcut : payloadLimit crypt<((bytes.take 512).drop 2).length := by
      rw [List.length_drop,List.length_take]
      omega
    have hall : payloadLimit crypt<(bytes.drop 2).length := by
      rw [List.length_drop]
      omega
    rw [buildFrame_rejects crypt ready s stack _ (Or.inr hcut),
      buildFrame_rejects crypt ready s stack _ (Or.inr hall)]

/-- Any other datagram is dropped. -/
theorem udpDataRxThread_dropped (crypt ready : Bool) (s : CryptState) (stack : StackBuf)
    {bytes : List Byte} (h : ¬(2≤bytes.length ∧ IsScanner (sysGetBe16 bytes 0))) :
    udpDataRxThread crypt ready s stack bytes=(none,s) := by
  unfold udpDataRxThread
  dsimp only
  by_cases hlen : 2≤(bytes.take 512).length
  · rw [List.length_take] at hlen
    have htake : sysGetBe16 (bytes.take 512) 0=sysGetBe16 bytes 0 :=
      sysGetBe16_take bytes (by decide)
    rw [htake,if_neg fun hid => h ⟨by omega,hid⟩,ite_self]
  · rw [if_neg hlen]

/-- The data thread accepts the same payloads, for a datagram with a scanner id. -/
theorem udpDataRxThread_accepts (crypt : Bool) {canId : Half} (hid : IsScanner canId) :
    AcceptsUpTo (payloadLimit crypt)
      fun ready s stack data => udpDataRxThread crypt ready s stack (sysPutBe16 canId++data) := by
  intro ready s stack data
  have hget : sysGetBe16 (sysPutBe16 canId++data) 0=canId := sysGetBe16_sysPutBe16 canId data
  have hlong : 2≤(sysPutBe16 canId++data).length := by
    rw [List.length_append,sysPutBe16_length]
    omega
  have heq := udpDataRxThread_eq crypt ready s stack hlong (hget.symm ▸ hid)
  rw [hget] at heq
  beta_reduce
  rw [heq]
  exact buildFrame_accepts crypt canId ready s stack data

end Acceptance

section Runs

/-- What the bridge promises of a state: both directions hand on what they have
accepted, in order, up to what is still on its way. -/
structure BridgeState.Transparent (s : BridgeState) : Prop where
  /-- `gw_udp_send` gets the forwarded messages as id and payload. -/
  up : ∃ done pending,s.acceptedUp=done++pending ∧ pending.length=s.up.length ∧
    s.udp=(done.filter fun m => IsForwarded m.1).map fun m => sysPutBe16 m.1++m.2
  /-- The host gets datagrams of these messages only, in order. -/
  host : (s.datagrams.map Prod.fst).Sublist s.udp
  /-- The scanner parser gets the scanner messages. -/
  down : ∃ done pending,s.acceptedDown=done++pending ∧ pending.length=s.down.length ∧
    s.scanner=done.filter fun m => IsScanner m.1

/-- The receive threads of a state take the oldest frame and hand its message on:
the oldest one that was accepted and has not been delivered. -/
structure BridgeState.Delivering (crypt : Bool) (s : BridgeState) : Prop where
  /-- The gateway's thread hands a forwarded message to `gw_udp_send`, as id and payload. -/
  up : ∀ port tail frame rest,s.up=frame::rest → ∃ done m pending,
    s.acceptedUp=done++m::pending ∧ pending.length=rest.length ∧
      (bridgeNext crypt s (.gatewayReceive port tail)).up=rest ∧
      (bridgeNext crypt s (.gatewayReceive port tail)).acceptedUp=s.acceptedUp ∧
      (bridgeNext crypt s (.gatewayReceive port tail)).udp=
        s.udp++(if IsForwarded m.1 then [sysPutBe16 m.1++m.2] else []) ∧
      (bridgeNext crypt s (.gatewayReceive port tail)).datagrams=
        s.datagrams++(if IsForwarded m.1 then
          (gwUdpSend port (sysPutBe16 m.1++m.2)).toList else [])
  /-- The handler's thread copies a scanner message with its id and payload. -/
  down : ∀ tail frame rest,s.down=frame::rest → ∃ done m pending,
    s.acceptedDown=done++m::pending ∧ pending.length=rest.length ∧
      (bridgeNext crypt s (.handlerReceive tail)).down=rest ∧
      (bridgeNext crypt s (.handlerReceive tail)).acceptedDown=s.acceptedDown ∧
      (bridgeNext crypt s (.handlerReceive tail)).scanner=
        s.scanner++(if IsScanner m.1 then [m] else []) ∧
      (IsScanner m.1 → (rf24RxThread crypt s.handler ⟨frame,tail⟩).1=
        .scanner ⟨m.1.setWidth 32,canBytesToDlc m.2.length,copyToData m.2,copyToData_length m.2⟩
          m.2.length)

/-- What a run of the bridge keeps. -/
structure BridgeState.Kept (crypt : Bool) (s : BridgeState) : Prop where
  /-- The messages to the gateway. -/
  up : Delivers crypt s.handler s.gateway s.up s.acceptedUp fun done =>
    s.udp=(done.filter fun m => IsForwarded m.1).map fun m => callPlaintext m.1 m.2
  /-- The datagrams to the host. -/
  host : (s.datagrams.map Prod.fst).Sublist s.udp
  /-- The messages to the handler. -/
  down : Delivers crypt s.gateway s.handler s.down s.acceptedDown fun done =>
    s.scanner=done.filter fun m => IsScanner m.1

variable {crypt : Bool} {s : BridgeState}

/-- A bridge at its start has delivered everything. -/
theorem BridgeState.Start.kept (h : s.Start crypt) : s.Kept crypt := by
  refine ⟨⟨[],[],h.fresh.1,?_,h.silent.1⟩,?_,[],[],h.fresh.2,?_,h.silent.2.2⟩
  · rw [h.empty.1]
    exact carries_nil fun hc => (h.inStep hc).1
  · rw [h.silent.2.1]
    exact List.nil_sublist _
  · rw [h.empty.2]
    exact carries_nil fun hc => (h.inStep hc).2

/-- A state that a run keeps is transparent. -/
theorem BridgeState.Kept.transparent (h : s.Kept crypt) : s.Transparent := by
  obtain ⟨doneUp,pendingUp,hup,hcarriesUp,hudp⟩ := h.up
  obtain ⟨doneDown,pendingDown,hdown,hcarriesDown,hscanner⟩ := h.down
  exact ⟨⟨doneUp,pendingUp,hup,hcarriesUp.length,hudp⟩,h.host,
    doneDown,pendingDown,hdown,hcarriesDown.length,hscanner⟩

/-- At most one result comes of one element. -/
theorem filterMap_singleton {α β : Type} (f : α → Option β) (a : α) :
    [a].filterMap f=(f a).toList := by
  cases hf : f a with
  | none => rw [List.filterMap_cons_none hf]; rfl
  | some b => rw [List.filterMap_cons_some hf]; rfl

/-- In a state that a run keeps the receive threads deliver. -/
theorem BridgeState.Kept.delivering (h : s.Kept crypt) : s.Delivering crypt := by
  constructor
  · intro port tail frame rest hqueue
    have hup := h.up
    rw [hqueue] at hup
    obtain ⟨done,m,pending,haccepted,hlength,hmessage⟩ := hup.oldest tail
    have hid : sysGetBe16 (callPlaintext m.1 m.2) 0=m.1 := sysGetBe16_sysPutBe16 m.1 m.2
    have hudp := gatewayRxThread_toUdp hmessage
    rw [hid] at hudp
    refine ⟨done,m,pending,haccepted,hlength,?_⟩
    simp only [bridgeNext,BridgeState.receiveUp,hqueue,hudp]
    refine ⟨trivial,trivial,rfl,?_⟩
    by_cases hforward : IsForwarded m.1
    · rw [if_pos hforward,if_pos hforward]
      exact congrArg (s.datagrams++·) (filterMap_singleton (gwUdpSend port) _)
    · rw [if_neg hforward,if_neg hforward,List.filterMap_nil]
  · intro tail frame rest hqueue
    have hdown := h.down
    rw [hqueue] at hdown
    obtain ⟨done,m,pending,haccepted,hlength,hmessage⟩ := hdown.oldest tail
    have harrival := scannerArrival_callPlaintext hmessage
    refine ⟨done,m,pending,haccepted,hlength,?_⟩
    simp only [bridgeNext,BridgeState.receiveDown,hqueue,harrival,true_and]
    refine fun hs => ?_
    rw [if_pos hs] at harrival
    exact rf24RxThread_arrival harrival

/-- A call on the handler, accepted or not. -/
theorem BridgeState.Kept.sendUp (h : s.Kept crypt) (ready : Bool) (stack : StackBuf)
    (canId : Half) (data : List Byte) :
    (s.sendUp (canId,data) (buildFrame crypt ready s.handler stack canId data)).Kept crypt := by
  have hreceiver := buildFrame_sameReceiver crypt ready s.handler stack canId data
  cases hcall : buildFrame crypt ready s.handler stack canId data with
  | mk sent handler =>
    rw [hcall] at hreceiver
    cases sent with
    | none => exact ⟨h.up.refuse hcall,h.host,h.down.congr ⟨rfl,rfl⟩ hreceiver⟩
    | some frame => exact ⟨h.up.send hcall,h.host,h.down.congr ⟨rfl,rfl⟩ hreceiver⟩

/-- A call on the gateway, accepted or not. -/
theorem BridgeState.Kept.sendDown (h : s.Kept crypt) (ready : Bool) (stack : StackBuf)
    (canId : Half) (data : List Byte) :
    (s.sendDown (canId,data) (buildFrame crypt ready s.gateway stack canId data)).Kept crypt := by
  have hreceiver := buildFrame_sameReceiver crypt ready s.gateway stack canId data
  cases hcall : buildFrame crypt ready s.gateway stack canId data with
  | mk sent gateway =>
    rw [hcall] at hreceiver
    cases sent with
    | none => exact ⟨h.up.congr ⟨rfl,rfl⟩ hreceiver,h.host,h.down.refuse hcall⟩
    | some frame => exact ⟨h.up.congr ⟨rfl,rfl⟩ hreceiver,h.host,h.down.send hcall⟩

/-- The gateway's receive thread keeps it. -/
theorem BridgeState.Kept.receiveUp (h : s.Kept crypt) (port : DataPort) (tail : List Byte) :
    (s.receiveUp crypt port tail).Kept crypt := by
  unfold BridgeState.receiveUp
  cases hqueue : s.up with
  | nil => exact h
  | cons bytes up =>
    have hup := h.up
    rw [hqueue] at hup
    have hstate := gatewayRxThread_state crypt s.gateway ⟨bytes,tail⟩
    have hsender := rf24RxThread_sameSender crypt s.gateway ⟨bytes,tail⟩
    refine ⟨?_,?_,?_⟩
    · dsimp only
      rw [hstate]
      refine hup.receive tail fun done m hudp hmessage => ?_
      have hid : sysGetBe16 (callPlaintext m.1 m.2) 0=m.1 := sysGetBe16_sysPutBe16 m.1 m.2
      rw [gatewayRxThread_toUdp hmessage,hudp,hid,List.filter_append,List.map_append]
      by_cases hforward : IsForwarded m.1
      · rw [if_pos hforward,List.filter_singleton,decide_eq_true hforward]
        rfl
      · rw [if_neg hforward,List.filter_singleton,decide_eq_false hforward]
        rfl
    · dsimp only
      rw [List.map_append]
      exact h.host.append (gwUdpSend_sublist port _)
    · dsimp only
      rw [hstate]
      exact h.down.congr hsender ⟨rfl,rfl,rfl⟩

/-- The handler's receive thread keeps it. -/
theorem BridgeState.Kept.receiveDown (h : s.Kept crypt) (tail : List Byte) :
    (s.receiveDown crypt tail).Kept crypt := by
  unfold BridgeState.receiveDown
  cases hqueue : s.down with
  | nil => exact h
  | cons bytes down =>
    have hdown := h.down
    rw [hqueue] at hdown
    have hsender := rf24RxThread_sameSender crypt s.handler ⟨bytes,tail⟩
    refine ⟨h.up.congr hsender ⟨rfl,rfl,rfl⟩,h.host,?_⟩
    refine hdown.receive tail fun done m hscanner hmessage => ?_
    dsimp only
    rw [scannerArrival_callPlaintext hmessage,hscanner,List.filter_append]
    by_cases hs : IsScanner m.1
    · rw [if_pos hs,List.filter_singleton,decide_eq_true hs]
      rfl
    · rw [if_neg hs,List.filter_singleton,decide_eq_false hs]
      rfl

/-- Every event keeps it. -/
theorem BridgeState.Kept.step (s : BridgeState) (e : BridgeEvent) (h : s.Kept crypt) :
    (bridgeNext crypt s e).Kept crypt := by
  cases e with
  | handlerSend ready stack canId data => exact h.sendUp ready stack canId data
  | gatewayReceive port tail => exact h.receiveUp port tail
  | datagram ready stack bytes =>
    change (s.sendDown _ (udpDataRxThread crypt ready s.gateway stack bytes)).Kept crypt
    by_cases hpass : 2≤bytes.length ∧ IsScanner (sysGetBe16 bytes 0)
    · rw [udpDataRxThread_eq crypt ready s.gateway stack hpass.1 hpass.2]
      exact h.sendDown ready stack _ _
    · rw [udpDataRxThread_dropped crypt ready s.gateway stack hpass]
      exact h
  | gatewaySend ready stack canId data => exact h.sendDown ready stack canId data
  | handlerReceive tail => exact h.receiveDown tail

/-- Transparent bridge. From a state in which nothing is on its way and the ends
are in step, every run hands the accepted messages on in both directions, as id
and payload and in order, and in the state it leads to a receive thread that finds
a frame delivers the oldest message. What arrives at the scanner parser is copied
with its id and payload. The payloads accepted on every path are those of at most
29 bytes with encryption and 30 bytes without; a refused one leaves no frame and
no change of the counters. -/
theorem bridge_transparent (h : s.Start crypt) (es : List BridgeEvent) :
    (finalState (bridgeNext crypt) s es).Transparent ∧
      (finalState (bridgeNext crypt) s es).Delivering crypt ∧
      (∀ (t : CryptState) (frame : RxFrame) (canId : Half) (data : List Byte),
        scannerArrival crypt t frame=[(canId,data)] →
          (rf24RxThread crypt t frame).1=
            .scanner ⟨canId.setWidth 32,canBytesToDlc data.length,copyToData data,
              copyToData_length data⟩ data.length) ∧
        ∀ canId : Half,
          AcceptsUpTo (if crypt then 29 else 30)
              (fun ready t stack data => rf24DataSend crypt ready t stack canId data) ∧
            AcceptsUpTo (if crypt then 29 else 30)
              (fun ready t stack data => gwRf24Send crypt ready t stack canId data) ∧
              (IsScanner canId → AcceptsUpTo (if crypt then 29 else 30) fun ready t stack data =>
                udpDataRxThread crypt ready t stack (sysPutBe16 canId++data)) := by
  have hkept := finalState_preserves (@BridgeState.Kept.step crypt) h.kept es
  rw [←payloadLimit_eq]
  exact ⟨hkept.transparent,hkept.delivering,fun t frame canId data => rf24RxThread_arrival,
    fun canId => ⟨buildFrame_accepts crypt canId,buildFrame_accepts crypt canId,
      udpDataRxThread_accepts crypt⟩⟩

/-- A bridge whose ends have just set the same key. -/
def BridgeState.keyed (addr : Rf24Addr) : BridgeState :=
  ⟨nrf24CryptSetKey .boot addr,nrf24CryptSetKey .boot addr,[],[],[],[],[],[],[]⟩

/-- A heartbeat of the handler comes to the host's port, and two datagrams of the
host come to the scanner parser, the second one behind a frame that it ignores. -/
theorem bridge_transparent_both_ways :
    ∃ es,(finalState (bridgeNext true) (.keyed fun _ => 0xE7) es).Delivering true ∧
      (finalState (bridgeNext true) (.keyed fun _ => 0xE7) es).udp=[[0x07#8,0x63#8,5#8]] ∧
      (finalState (bridgeNext true) (.keyed fun _ => 0xE7) es).down=[] ∧
      (finalState (bridgeNext true) (.keyed fun _ => 0xE7) es).scanner=
        [(overbreakLaser,[1#8,2#8]),(coordXy,[])] :=
  ⟨[.handlerSend true zeroStack cobidHeatbeat [5#8],
      .datagram true zeroStack (sysPutBe16 overbreakLaser++[1#8,2#8]),
      .gatewayReceive ⟨1,true,some 0,0⟩ [],.handlerReceive [],
      .gatewaySend true zeroStack 0x123 [9#8],.datagram true zeroStack (sysPutBe16 coordXy),
      .handlerReceive [],.handlerReceive []],
    (bridge_transparent ⟨⟨rfl,rfl⟩,⟨rfl,rfl⟩,⟨rfl,rfl,rfl⟩,fun _ =>
      ⟨inStep_setKey _,inStep_setKey _⟩⟩ _).2.1,by decide +kernel⟩

end Runs

end ZephyrApp.Bridge

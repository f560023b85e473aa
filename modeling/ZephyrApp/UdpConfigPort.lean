import ZephyrApp.EventRuns
import ZephyrApp.UdpFwUpgrade

/-!
# The configuration port

One thread receives the datagrams of the configuration port into a static
buffer and records their sender for the replies. Commands from outside the
local subnet are dropped unless they are allowed there. Upgrade commands are
handled by the library, the others by every callback that the application has
registered. Replies go to the sender, or to everybody across subnets.
-/

namespace ZephyrApp.UdpConfigPort

open EventRuns MachineBytes FlashReadback UdpFwUpgrade
open CanFwUpgrade (FwConfig FlashCall)

/-- The size of the receive buffer. -/
def rxBufSize : ℕ := 512

/-- The size of the buffer that a reply is built in. -/
def replyBufSize : ℕ := 64

/-- `INADDR_BROADCAST`. -/
def inaddrBroadcast : Word := BitVec.allOnes 32

/-- `struct sockaddr_in` of a sender or receiver. -/
structure SockAddr where
  /-- `sin_port`. -/
  port : Half
  /-- `sin_addr`. -/
  addr : Word
deriving DecidableEq

/-- What the default network interface reports. -/
structure NetIface where
  /-- `net_if_ipv4_get_global_addr`, none before an address is assigned. -/
  globalAddr : Option Word
  /-- `net_if_ipv4_get_netmask_by_addr` of that address. -/
  netmask : Word

/-- A slot of `handlers`: a callback with the pointer passed on to it. -/
structure Handler (κ : Type) where
  /-- `cb`. -/
  cb : κ
  /-- `user_data`. -/
  userData : Word

/-- A call of `udp_fw_reply` by a callback. -/
structure AppReply (α : Type) where
  /-- The environment at the call. -/
  env : α
  /-- The command byte. -/
  cmd : Byte
  /-- The bytes after it. -/
  data : List Byte

/-- What a callback does. Its answer decides a log line only. -/
structure AppCall (α : Type) where
  /-- The environment afterwards. -/
  env : α
  /-- The replies it makes, in order. -/
  replies : List (AppReply α)

/-- The code around the library: the application with its callbacks, and the
network stack, acting on an environment. -/
structure Application (κ α : Type) where
  /-- The default interface, none without one. -/
  iface : α → Option NetIface
  /-- What a callback does with a command and its payload. -/
  call : Handler κ → α → Byte → List Byte → AppCall α
  /-- The environment after a restart. -/
  restart : α → α
  /-- The slots of `handlers` that the initialisation fills. -/
  bootHandlers : List (Option (Handler κ))
  /-- The commands that the initialisation allows across subnets. -/
  bootAllowed : List Byte

/-- The build's constants. -/
structure PortConfig where
  /-- The constants of the upgrade commands. -/
  fw : FwConfig
  /-- `CONFIG_UDP_FW_CONFIG_PORT`. -/
  configPort : Half
  /-- `CONFIG_UDP_FW_UPGRADE_MAX_BCAST_CMDS`. -/
  maxBcastCmds : ℕ

/-- What the thread does that can be seen outside. -/
inductive PortEffect (κ : Type) where
  /-- A datagram is sent from the configuration socket. -/
  | reply (bytes : List Byte) (dst : SockAddr)
  /-- The flash layer is called, with the outcome. -/
  | flash (call : FlashCall) (ok : Bool)
  /-- `boot_request_upgrade` is called, with the outcome. -/
  | bootRequest (permanent : Word) (ok : Bool)
  /-- The system restarts. -/
  | reboot
  /-- A callback is called with a command and its payload. -/
  | handler (h : Handler κ) (cmd : Byte) (data : List Byte)

/-- The statics of the library with the device and the environment. -/
structure PortState (δ κ α : Type) where
  /-- The statics of the upgrade commands and the flash device. -/
  upgrade : UdpState δ
  /-- The environment of the library. -/
  env : α
  /-- `handlers`. -/
  handlers : List (Option (Handler κ))
  /-- The first `bcast_allowed_cnt` bytes of `bcast_allowed_cmds`. -/
  allowed : List Byte
  /-- `config_sock`. -/
  configSock : ℤ
  /-- `config_remote_addr`. -/
  configRemoteAddr : SockAddr
  /-- The static receive buffer. -/
  buf : List Byte

/-- What happens to the library. -/
inductive PortEvent (κ α : Type) where
  /-- A datagram is received. -/
  | datagram (src : SockAddr) (bytes : List Byte)
  /-- `recvfrom` fails. -/
  | recvFailed
  /-- Other code acts on the environment, as by assigning another address. -/
  | environment (act : α → α)
  /-- `udp_fw_set_app_handler`. -/
  | setAppHandler (h : Handler κ)
  /-- `udp_fw_remove_handler`. -/
  | removeHandler (cb : κ)
  /-- `udp_fw_allow_broadcast_cmd`. -/
  | allowBroadcastCmd (cmd : Byte)

/-- `is_same_subnet`. -/
def isSameSubnet (iface : Option NetIface) (senderIp : Word) : Bool :=
  match iface with
  | none => true
  | some i =>
    match i.globalAddr with
    | none => true
    | some localAddr => decide (senderIp &&& i.netmask=localAddr &&& i.netmask)

/-- `bcast_cmd_allowed`. -/
def bcastCmdAllowed (allowed : List Byte) (cmd : Byte) : Bool := allowed.any fun c => decide (c=cmd)

/-- The payload of a reply: left out when it does not fit, its length being
passed in a byte. -/
def replyBytes (cmd : Byte) (data : List Byte) : List Byte :=
  let len := data.length%256
  cmd::if 0<len ∧ len≤replyBufSize-1 then data.take len else []

/-- `recvfrom` into the buffer: a datagram that does not fit is cut. -/
def recvInto (buf bytes : List Byte) : List Byte :=
  bytes.take rxBufSize++buf.drop (bytes.take rxBufSize).length

section Port

variable {δ κ α : Type} [DecidableEq κ] (F : ReadableImage δ) (cfg : PortConfig)
  (A : Application κ α)

/-- `udp_fw_reply`: to the sender in the same subnet, else to everybody. -/
def udpFwReply (sock : ℤ) (remote : SockAddr) (env : α) (cmd : Byte) (data : List Byte) :
    List (PortEffect κ) :=
  if sock<0 then []
  else if isSameSubnet (A.iface env) remote.addr=true then [.reply (replyBytes cmd data) remote]
  else [.reply (replyBytes cmd data) ⟨cfg.configPort+1,inaddrBroadcast⟩]

/-- An action of the upgrade commands as seen outside. -/
def actionEffects (sock : ℤ) (remote : SockAddr) (env : α) : UdpAction → List (PortEffect κ)
  | .reply cmd data => udpFwReply cfg A sock remote env cmd data
  | .flash call ok => [.flash call ok]
  | .bootRequest permanent ok => [.bootRequest permanent ok]
  | .reboot => [.reboot]

/-- The loop over the registered callbacks. -/
def callHandlers (sock : ℤ) (remote : SockAddr) (cmd : Byte) (data : List Byte) :
    List (Option (Handler κ)) → α → α×List (PortEffect κ)
  | [],env => (env,[])
  | none::hs,env => callHandlers sock remote cmd data hs env
  | some h::hs,env =>
    let called := A.call h env cmd data
    let rest := callHandlers sock remote cmd data hs called.env
    (rest.1,.handler h cmd data::called.replies.flatMap (fun r =>
      udpFwReply cfg A sock remote r.env r.cmd r.data)++rest.2)

/-- The library after a restart. -/
def PortState.boot (upgrade : UdpState δ) (env : α) (sock : ℤ) : PortState δ κ α :=
  ⟨upgrade,env,A.bootHandlers,A.bootAllowed,sock,⟨0,0⟩,List.replicate rxBufSize 0⟩

/-- The command in the buffer is handled by the library or by the callbacks. -/
def handleCommand (s : PortState δ κ α) (cmd : Byte) (data : List Byte) :
    PortState δ κ α×List (PortEffect κ) :=
  let report := handleFwCmd F cfg.fw s.upgrade ⟨cmd,data⟩
  if report.handled=true then
    let effects := report.actions.flatMap
      (actionEffects cfg A s.configSock s.configRemoteAddr s.env)
    if UdpAction.reboot∈report.actions then
      (.boot A report.state (A.restart s.env) s.configSock,effects)
    else ({s with upgrade := report.state},effects)
  else
    let called := callHandlers cfg A s.configSock s.configRemoteAddr cmd data s.handlers s.env
    ({s with env := called.1},called.2)

/-- One pass of the loop of `udp_fw_rx_thread` over a datagram. -/
def udpFwRxThread (s : PortState δ κ α) (src : SockAddr) (bytes : List Byte) :
    PortState δ κ α×List (PortEffect κ) :=
  let buf := recvInto s.buf bytes
  let received := (bytes.take rxBufSize).length
  if received=0 then ({s with buf := buf},[])
  else
    let s := {s with
      buf := buf
      configRemoteAddr := src}
    let cmd := buf.getD 0 0
    let data := (buf.drop 1).take (received-1)
    if isSameSubnet (A.iface s.env) src.addr=false ∧ bcastCmdAllowed s.allowed cmd=false then
      (s,[])
    else handleCommand F cfg A s cmd data

/-- `udp_fw_set_app_handler`: the first free slot is taken, if there is one. -/
def setAppHandler (h : Handler κ) : List (Option (Handler κ)) → List (Option (Handler κ))
  | [] => []
  | none::hs => some h::hs
  | some h'::hs => some h'::setAppHandler h hs

/-- `udp_fw_remove_handler`: the first slot of the callback is freed. -/
def removeHandler (cb : κ) : List (Option (Handler κ)) → List (Option (Handler κ))
  | [] => []
  | none::hs => none::removeHandler cb hs
  | some h::hs => if h.cb=cb then none::hs else some h::removeHandler cb hs

/-- `udp_fw_allow_broadcast_cmd`. -/
def allowBroadcastCmd (allowed : List Byte) (cmd : Byte) : List Byte :=
  if bcastCmdAllowed allowed cmd=true then allowed
  else if allowed.length<cfg.maxBcastCmds then allowed++[cmd]
  else allowed

/-- One event, with what is seen of it outside. -/
def portEvent (s : PortState δ κ α) : PortEvent κ α → PortState δ κ α×List (PortEffect κ)
  | .datagram src bytes => udpFwRxThread F cfg A s src bytes
  | .recvFailed => (s,[])
  | .environment act => ({s with env := act s.env},[])
  | .setAppHandler h => ({s with handlers := setAppHandler h s.handlers},[])
  | .removeHandler cb => ({s with handlers := removeHandler cb s.handlers},[])
  | .allowBroadcastCmd cmd => ({s with allowed := allowBroadcastCmd cfg s.allowed cmd},[])

/-- The library after an event. -/
def portNext (s : PortState δ κ α) (e : PortEvent κ α) : PortState δ κ α :=
  (portEvent F cfg A s e).1

/-- What is seen of an event outside. -/
def portEffects (s : PortState δ κ α) (e : PortEvent κ α) : List (PortEffect κ) :=
  (portEvent F cfg A s e).2

/-- Everything seen outside over a run, in order. -/
def runEffects (s : PortState δ κ α) (es : List (PortEvent κ α)) : List (PortEffect κ) :=
  (outputs (portNext F cfg A) (portEffects F cfg A) s es).flatten

end Port

/-- An address outside the subnet of the address that the interface has. -/
def OutsideSubnet (iface : Option NetIface) (addr : Word) : Prop :=
  ∃ i∈iface,∃ localAddr∈i.globalAddr,addr &&& i.netmask≠localAddr &&& i.netmask

/-- Exactly the addresses outside the subnet are told apart. -/
theorem isSameSubnet_false_iff (iface : Option NetIface) (addr : Word) :
    isSameSubnet iface addr=false ↔ OutsideSubnet iface addr := by
  cases iface with
  | none => simp only [isSameSubnet,OutsideSubnet,Option.not_mem_none,false_and,exists_false,
      Bool.true_eq_false]
  | some i =>
    simp only [isSameSubnet,OutsideSubnet,Option.mem_some_iff,exists_eq_left']
    cases i.globalAddr with
    | none => simp only [Option.not_mem_none,false_and,exists_false,Bool.true_eq_false]
    | some localAddr =>
      simp only [Option.mem_some_iff,exists_eq_left',decide_eq_false_iff_not,ne_eq]

/-- A command is allowed across subnets exactly when it is in the list. -/
theorem bcastCmdAllowed_iff (allowed : List Byte) (cmd : Byte) :
    bcastCmdAllowed allowed cmd=true ↔ cmd∈allowed := by
  simp only [bcastCmdAllowed,List.any_eq_true,decide_eq_true_eq,exists_eq_right]

instance (iface : Option NetIface) (addr : Word) : Decidable (OutsideSubnet iface addr) :=
  decidable_of_iff _ (isSameSubnet_false_iff iface addr)

section Isolation

variable {δ κ α : Type} (F : ReadableImage δ) (cfg : PortConfig)
  (A : Application κ α)

/-- A datagram from outside the local subnet whose command byte is not in the
allowlist. -/
def Forbidden (s : PortState δ κ α) : PortEvent κ α → Prop
  | .datagram src bytes =>
    OutsideSubnet (A.iface s.env) src.addr ∧ ∃ cmd∈bytes.head?,cmd∉s.allowed
  | _ => False

instance (s : PortState δ κ α) : (e : PortEvent κ α) → Decidable (Forbidden A s e)
  | .datagram src bytes => inferInstanceAs (Decidable (OutsideSubnet _ src.addr ∧
      ∃ cmd∈bytes.head?,cmd∉s.allowed))
  | .recvFailed => instDecidableFalse
  | .environment _ => instDecidableFalse
  | .setAppHandler _ => instDecidableFalse
  | .removeHandler _ => instDecidableFalse
  | .allowBroadcastCmd _ => instDecidableFalse

/-- Two states that differ at most in the receive buffer and in the recorded
sender. -/
structure SameButReceived (s t : PortState δ κ α) : Prop where
  /-- The upgrade state agrees. -/
  upgrade : s.upgrade=t.upgrade
  /-- The environment agrees. -/
  env : s.env=t.env
  /-- The callbacks agree. -/
  handlers : s.handlers=t.handlers
  /-- The allowlist agrees. -/
  allowed : s.allowed=t.allowed
  /-- The socket agrees. -/
  configSock : s.configSock=t.configSock

/-- A state agrees with itself. -/
theorem SameButReceived.refl (s : PortState δ κ α) : SameButReceived s s :=
  ⟨rfl,rfl,rfl,rfl,rfl⟩

/-- After a datagram the buffer begins with it, whatever it held before. -/
theorem recvInto_cons (buf : List Byte) (cmd : Byte) (rest : List Byte) :
    recvInto buf (cmd::rest)=
      cmd::(rest.take (rxBufSize-1)++buf.drop ((rest.take (rxBufSize-1)).length+1)) := rfl

/-- What a pass of the loop does with a datagram, none of it read from what the
buffer held or from the sender recorded before. -/
theorem udpFwRxThread_cons (s : PortState δ κ α) (src : SockAddr) (cmd : Byte)
    (rest : List Byte) :
    udpFwRxThread F cfg A s src (cmd::rest)=
      let t := {s with
        buf := recvInto s.buf (cmd::rest)
        configRemoteAddr := src}
      if OutsideSubnet (A.iface s.env) src.addr ∧ cmd∉s.allowed then (t,[])
      else handleCommand F cfg A t cmd (rest.take (rxBufSize-1)) := by
  have hlen : ((cmd::rest).take rxBufSize).length=(rest.take (rxBufSize-1)).length+1 := rfl
  have hpayload : ((recvInto s.buf (cmd::rest)).drop 1).take
      (((cmd::rest).take rxBufSize).length-1)=rest.take (rxBufSize-1) := by
    rw [recvInto_cons,hlen,List.drop_one,List.tail_cons,Nat.add_sub_cancel,List.take_left]
  have hcmd : (recvInto s.buf (cmd::rest)).getD 0 0=cmd := rfl
  have hfilter : (isSameSubnet (A.iface s.env) src.addr=false ∧
      bcastCmdAllowed s.allowed cmd=false) ↔
      (OutsideSubnet (A.iface s.env) src.addr ∧ cmd∉s.allowed) := by
    rw [isSameSubnet_false_iff,←bcastCmdAllowed_iff,Bool.not_eq_true]
  have hne : ((cmd::rest).take rxBufSize).length≠0 := Nat.succ_ne_zero _
  simp only [udpFwRxThread,hne,if_false,hpayload,hcmd,hfilter]

/-- A command is handled alike by states that agree up to the buffer and have
the same sender recorded. -/
theorem handleCommand_same {s t : PortState δ κ α} (h : SameButReceived s t)
    (hremote : s.configRemoteAddr=t.configRemoteAddr) (cmd : Byte) (data : List Byte) :
    SameButReceived (handleCommand F cfg A s cmd data).1 (handleCommand F cfg A t cmd data).1 ∧
      (handleCommand F cfg A s cmd data).2=(handleCommand F cfg A t cmd data).2 := by
  simp only [handleCommand,h.upgrade,h.env,h.handlers,h.configSock,hremote]
  split
  · split
    · exact ⟨.refl _,rfl⟩
    · exact ⟨⟨rfl,rfl,rfl,h.allowed,rfl⟩,rfl⟩
  · exact ⟨⟨rfl,rfl,rfl,h.allowed,rfl⟩,rfl⟩

variable [DecidableEq κ]

/-- A forbidden datagram leaves its traces in the buffer and the recorded
sender only, and nothing is seen of it. -/
theorem portEvent_forbidden {s t : PortState δ κ α} (h : SameButReceived s t)
    {e : PortEvent κ α} (he : Forbidden A s e) :
    SameButReceived (portNext F cfg A s e) t ∧ portEffects F cfg A s e=[] := by
  cases e with
  | datagram src bytes =>
    obtain ⟨hsrc,cmd,hcmd,hnot⟩ := he
    cases bytes with
    | nil => exact absurd hcmd (Option.not_mem_none cmd)
    | cons c rest =>
      cases hcmd
      simp only [portNext,portEffects,portEvent,udpFwRxThread_cons,hsrc,hnot,not_false_eq_true,
        and_self,if_true]
      exact ⟨⟨h.upgrade,h.env,h.handlers,h.allowed,h.configSock⟩,trivial⟩
  | recvFailed => exact he.elim
  | environment act => exact he.elim
  | setAppHandler hd => exact he.elim
  | removeHandler cb => exact he.elim
  | allowBroadcastCmd cmd => exact he.elim

/-- Every event is answered alike by states that agree up to the buffer and the
recorded sender. -/
theorem portEvent_same {s t : PortState δ κ α} (h : SameButReceived s t) (e : PortEvent κ α) :
    SameButReceived (portNext F cfg A s e) (portNext F cfg A t e) ∧
      portEffects F cfg A s e=portEffects F cfg A t e := by
  cases e with
  | datagram src bytes =>
    cases bytes with
    | nil => exact ⟨⟨h.upgrade,h.env,h.handlers,h.allowed,h.configSock⟩,rfl⟩
    | cons cmd rest =>
      have ht : SameButReceived
          {s with
            buf := recvInto s.buf (cmd::rest)
            configRemoteAddr := src}
          {t with
            buf := recvInto t.buf (cmd::rest)
            configRemoteAddr := src} :=
        ⟨h.upgrade,h.env,h.handlers,h.allowed,h.configSock⟩
      simp only [portNext,portEffects,portEvent,udpFwRxThread_cons,h.env,h.allowed]
      split
      · exact ⟨⟨h.upgrade,rfl,h.handlers,rfl,h.configSock⟩,rfl⟩
      · have hsame := handleCommand_same F cfg A ht rfl cmd (rest.take (rxBufSize-1))
        simpa only [h.env,h.allowed] using hsame
  | recvFailed => exact ⟨h,rfl⟩
  | environment act =>
    exact ⟨⟨h.upgrade,congrArg act h.env,h.handlers,h.allowed,h.configSock⟩,rfl⟩
  | setAppHandler hd =>
    exact ⟨⟨h.upgrade,h.env,congrArg (setAppHandler hd) h.handlers,h.allowed,h.configSock⟩,rfl⟩
  | removeHandler cb =>
    exact ⟨⟨h.upgrade,h.env,congrArg (removeHandler cb) h.handlers,h.allowed,h.configSock⟩,rfl⟩
  | allowBroadcastCmd cmd =>
    exact ⟨⟨h.upgrade,h.env,h.handlers,congrArg (allowBroadcastCmd cfg · cmd) h.allowed,
      h.configSock⟩,rfl⟩

/-- Deleting the forbidden datagrams from a run changes nothing that is seen of
it, neither the replies with their destinations, nor the flash operations, nor
the calls of the callbacks, and leaves the same upgrade state and environment. -/
theorem forbidden_datagrams_without_trace (s : PortState δ κ α) (es : List (PortEvent κ α)) :
    runEffects F cfg A s (withoutEvents (portNext F cfg A) (Forbidden A) s es)=
      runEffects F cfg A s es ∧
    (finalState (portNext F cfg A) s
        (withoutEvents (portNext F cfg A) (Forbidden A) s es)).upgrade=
      (finalState (portNext F cfg A) s es).upgrade ∧
    (finalState (portNext F cfg A) s (withoutEvents (portNext F cfg A) (Forbidden A) s es)).env=
      (finalState (portNext F cfg A) s es).env := by
  obtain ⟨hsame,hout⟩ := outputs_withoutEvents (R := SameButReceived) (D := Forbidden A)
    (fun s t e h he => portEvent_forbidden F cfg A h he)
    (fun s t e h _ => portEvent_same F cfg A h e) (SameButReceived.refl s) es
  exact ⟨hout.symm,hsame.upgrade.symm,hsame.env.symm⟩

end Isolation

end ZephyrApp.UdpConfigPort

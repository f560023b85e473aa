import ZephyrApp.EventRuns
import ZephyrApp.SavedValues
import ZephyrApp.CStrings
import ZephyrApp.InetText
import ZephyrApp.ModbusSettings

/-!
# Network configuration of the gateway

Six parameters are set by commands of the configuration port and by the saved
settings. A command that sets some of them saves them at once. After a restart
the main thread gives all of them their defaults and then reads the settings
back. The radio, the interface and the log lines are left out.
-/

namespace ZephyrApp.GatewayConfig

open MachineBytes EventRuns SavedValues CStrings InetText ModbusSettings

section Parameters

/-- `RF24_ADDR_LEN`. -/
abbrev rf24AddrLen : ℕ := 5

/-- The configured part of `gw_params`. -/
structure GwParams where
  /-- The radio address. -/
  rf24Addr : List Byte
  /-- The buffer with the text of the static address. -/
  ipAddr : List Byte
  /-- The port of the data socket. -/
  dataPort : Half
  /-- The address comes from a server. -/
  useDhcp : Byte
  /-- The buffer with the text of the address that data is sent to. -/
  hostIp : List Byte
  /-- The port that data is sent to. -/
  hostPort : Half
deriving DecidableEq

/-- The parameters that are saved. -/
inductive Param
  /-- `gw/rf24_addr`. -/
  | rf24Addr
  /-- `gw/ip_addr`. -/
  | ipAddr
  /-- `gw/data_port`. -/
  | dataPort
  /-- `gw/use_dhcp`. -/
  | useDhcp
  /-- `gw/host_ip`. -/
  | hostIp
  /-- `gw/host_port`. -/
  | hostPort
deriving DecidableEq

/-- The name that a parameter is saved under. -/
def Param.key : Param → List Char
  | .rf24Addr => "gw/rf24_addr".toList
  | .ipAddr => "gw/ip_addr".toList
  | .dataPort => "gw/data_port".toList
  | .useDhcp => "gw/use_dhcp".toList
  | .hostIp => "gw/host_ip".toList
  | .hostPort => "gw/host_port".toList

/-- A port in memory, the low byte first. -/
def portBytes (port : Half) : List Byte := (sysPutBe16 port).reverse

/-- The bytes that are saved for a parameter. -/
def GwParams.value (p : GwParams) : Param → List Byte
  | .rf24Addr => p.rf24Addr
  | .ipAddr => cString p.ipAddr
  | .dataPort => portBytes p.dataPort
  | .useDhcp => [p.useDhcp]
  | .hostIp => cString p.hostIp
  | .hostPort => portBytes p.hostPort

/-- The parameter that `gw_persist_set` reads a name into, none for `-ENOENT`. -/
def setParam (name : List Char) : Option Param :=
  match settingsNameNext name with
  | (nameLen,none) =>
    if strncmpEq name "rf24_addr".toList nameLen then some .rf24Addr
    else if strncmpEq name "ip_addr".toList nameLen then some .ipAddr
    else if strncmpEq name "data_port".toList nameLen then some .dataPort
    else if strncmpEq name "use_dhcp".toList nameLen then some .useDhcp
    else if strncmpEq name "host_ip".toList nameLen then some .hostIp
    else if strncmpEq name "host_port".toList nameLen then some .hostPort
    else none
  | _ => none

/-- Read a saved value of a parameter when its length is right. Text gets a new
end. -/
def readParam (p : GwParams) (value : List Byte) : Param → GwParams
  | .rf24Addr => if value.length=rf24AddrLen then {p with rf24Addr := value} else p
  | .ipAddr =>
    if value.length < inetAddrstrlen then {p with ipAddr := putString p.ipAddr value} else p
  | .dataPort => if value.length=sizeofU16 then {p with dataPort := sysGetLe16 value 0} else p
  | .useDhcp => if value.length=1 then {p with useDhcp := value.getD 0 0} else p
  | .hostIp =>
    if value.length < inetAddrstrlen then {p with hostIp := putString p.hostIp value} else p
  | .hostPort => if value.length=sizeofU16 then {p with hostPort := sysGetLe16 value 0} else p

/-- `gw_persist_set`, none for `-ENOENT`. -/
def gwPersistSet (name : List Char) (value : List Byte) (p : GwParams) : Option GwParams :=
  (setParam name).map (readParam p value)

/-- The settings subsystem calls the handler of a saved name with its rest. -/
def loadOne (p : GwParams) (saved : Entry (List Char) (List Byte)) : GwParams :=
  match settingsNameSteq saved.1 "gw".toList with
  | some (some key) => (gwPersistSet key saved.2 p).getD p
  | _ => p

/-- Every saved name is read into its parameter. -/
theorem setParam_key (f : Param) :
    (settingsNameSteq f.key "gw".toList).map (·.map setParam)=some (some (some f)) := by
  cases f <;> decide

/-- Names are distinct. -/
theorem key_injective : Function.Injective Param.key := by
  intro f g
  cases f <;> cases g <;> decide

/-- A port that was saved is read back. -/
theorem sysGetLe16_portBytes (port : Half) : sysGetLe16 (portBytes port) 0=port :=
  sysGetBe16_sysPutBe16 port []

/-- What the program keeps of each saved value. -/
def Fits : Param → List Byte → Prop
  | .rf24Addr,v => v.length=rf24AddrLen
  | .ipAddr,v | .hostIp,v => v≠[] ∧ v.length < inetAddrstrlen ∧ ∀ b∈v,b≠0
  | .dataPort,v | .hostPort,v => ∃ port,v=portBytes port
  | .useDhcp,v => ∃ b,v=[b]

/-- A saved name with its value is read into its parameter. -/
theorem loadOne_key (p : GwParams) (f : Param) (v : List Byte) :
    loadOne p ⟨f.key,v⟩=readParam p v f := by
  have hkey := setParam_key f
  simp only [loadOne]
  rcases hname : settingsNameSteq f.key "gw".toList with _ | _ | key
  · rw [hname] at hkey
    cases hkey
  · rw [hname] at hkey
    cases hkey
  · rw [hname] at hkey
    have hset : setParam key=some f := Option.some.inj (Option.some.inj hkey)
    simp only [gwPersistSet,hset,Option.map_some,Option.getD_some]

/-- A fitting value is read into its parameter and into nothing else. -/
theorem value_readParam (p : GwParams) {f : Param} {v : List Byte} (h : Fits f v) :
    (readParam p v f).value=Function.update p.value f v := by
  funext g
  cases f with
  | rf24Addr =>
    rw [readParam,if_pos (show v.length=rf24AddrLen from h)]
    cases g <;> rfl
  | ipAddr =>
    rw [readParam,if_pos h.2.1]
    cases g
    case ipAddr => exact cString_putString h.2.2 p.ipAddr
    all_goals rfl
  | dataPort =>
    obtain ⟨port,rfl⟩ := h
    rw [readParam,if_pos (by rfl),sysGetLe16_portBytes]
    cases g <;> rfl
  | useDhcp =>
    obtain ⟨b,rfl⟩ := h
    rw [readParam,if_pos (by rfl)]
    cases g <;> rfl
  | hostIp =>
    rw [readParam,if_pos h.2.1]
    cases g
    case hostIp => exact cString_putString h.2.2 p.hostIp
    all_goals rfl
  | hostPort =>
    obtain ⟨port,rfl⟩ := h
    rw [readParam,if_pos (by rfl),sysGetLe16_portBytes]
    cases g <;> rfl

/-- Every parameter is read back by its name. -/
theorem readsBack_loadOne : ReadsBack Param.key Fits GwParams.value loadOne := by
  intro p f v hfits
  rw [loadOne_key]
  exact value_readParam p hfits

end Parameters

section Commands

variable (I : Inet)

/-- The gateway: the parameters and the saved settings. -/
structure Gateway where
  /-- The parameters in memory. -/
  params : GwParams
  /-- The settings in flash. -/
  store : Store (List Char) (List Byte)

/-- `settings_save_one` for some parameters, each under its name. Saving nothing
would delete the name. -/
def settingsSave (p : GwParams) (fields : List Param)
    (store : Store (List Char) (List Byte)) : Store (List Char) (List Byte) :=
  fields.foldl (fun s f =>
    if p.value f=[] then s.erase f.key else s.insert f.key (p.value f)) store

/-- `persist_save_rf24_config`. -/
def persistSaveRf24Config (g : Gateway) : Gateway :=
  {g with store := settingsSave g.params [.rf24Addr] g.store}

/-- `persist_save_network_config`. -/
def persistSaveNetworkConfig (g : Gateway) : Gateway :=
  {g with store :=
    settingsSave g.params [.ipAddr,.dataPort,.useDhcp,.hostIp,.hostPort] g.store}

/-- `UDP_CMD_SET_IP`. -/
def udpCmdSetIp : Byte := 0x10
/-- `UDP_CMD_GET_NET`. -/
def udpCmdGetNet : Byte := 0x11
/-- `UDP_CMD_SET_RF24`. -/
def udpCmdSetRf24 : Byte := 0x12
/-- `UDP_CMD_GET_RF24`. -/
def udpCmdGetRf24 : Byte := 0x13
/-- `UDP_CMD_SET_HOST`. -/
def udpCmdSetHost : Byte := 0x14
/-- `UDP_CMD_DISCOVER`. -/
def udpCmdDiscover : Byte := 0x15

/-- `CONFIG_UDP_FW_CONFIG_PORT`. -/
def udpFwConfigPort : Half := 8600

/-- `ip_is_valid`: not the zero address, broadcast, loopback, multicast or a
reserved one. -/
def ipIsValid (addr : Word) : Bool :=
  let b0 := addr.extractLsb' 24 8
  addr≠0 ∧ addr≠0xFFFFFFFF ∧ b0≠127 ∧ b0.toNat < 224

/-- The bytes of the address in a text buffer, zeros when it has none. -/
def textAddr (buf : List Byte) : List Byte :=
  match I.pton (cString buf) with
  | some addr => sysPutBe32 addr
  | none => [0,0,0,0]

/-- `pack_host`. -/
def packHost (p : GwParams) : List Byte := textAddr I p.hostIp++sysPutBe16 p.hostPort

/-- What `app_cmd_handler` does with a command. -/
structure Handled where
  /-- The gateway afterwards. -/
  gateway : Gateway
  /-- The reply it sends. -/
  reply : Option (List Byte)
  /-- Its answer: the command is known. -/
  known : Bool

/-- `app_cmd_handler`. The live address of the interface is none without one. -/
def appCmdHandler (g : Gateway) (cmd : Byte) (data : List Byte) (live : Option Word) : Handled :=
  if cmd=udpCmdSetIp then
    if 4≤data.length ∧ g.params.useDhcp=0 then
      let addr := sysGetBe32 data 0
      if ipIsValid addr then
        ⟨persistSaveNetworkConfig
          {g with params := {g.params with ipAddr := putString g.params.ipAddr (I.ntop addr)}},
          some [1],true⟩
      else ⟨g,some [0],true⟩
    else ⟨g,some [0],true⟩
  else if cmd=udpCmdGetNet then
    ⟨g,some (sysPutBe16 g.params.dataPort++textAddr I g.params.hostIp++
      sysPutBe16 g.params.hostPort),true⟩
  else if cmd=udpCmdSetRf24 then
    if rf24AddrLen≤data.length then
      let g' := persistSaveRf24Config
        {g with params := {g.params with rf24Addr := data.take rf24AddrLen}}
      ⟨g',some g'.params.rf24Addr,true⟩
    else ⟨g,none,true⟩
  else if cmd=udpCmdGetRf24 then ⟨g,some g.params.rf24Addr,true⟩
  else if cmd=udpCmdSetHost then
    if 6≤data.length then
      let g' := persistSaveNetworkConfig {g with params := {g.params with
        hostIp := putString g.params.hostIp (I.ntop (sysGetBe32 data 0))
        hostPort := sysGetBe16 data 4}}
      ⟨g',some (packHost I g'.params),true⟩
    else ⟨g,none,true⟩
  else if cmd=udpCmdDiscover then
    ⟨g,some ((live.elim (textAddr I g.params.ipAddr) sysPutBe32)++
      sysPutBe16 udpFwConfigPort),true⟩
  else ⟨g,none,false⟩

end Commands

section Boot

/-- Store at most some bytes of a text in a buffer, and zeros up to that many. -/
def strncpy (buf text : List Byte) (n : ℕ) : List Byte :=
  text.take n++List.replicate (n-text.length) 0++buf.drop n

/-- The bytes of a text. -/
def ascii (text : String) : List Byte := text.toList.map fun c => BitVec.ofNat 8 c.toNat

/-- `GATEWAY_DEFAULT_IP`. -/
def gatewayDefaultIp : List Byte := ascii "192.168.11.100"
/-- `GATEWAY_DATA_PORT_DEFAULT`. -/
def gatewayDataPortDefault : Half := 9600
/-- `GW_USE_DHCP_DEFAULT`. -/
def gwUseDhcpDefault : Byte := 0
/-- `GATEWAY_HOST_DEFAULT_IP`. -/
def gatewayHostDefaultIp : List Byte := ascii "192.168.11.150"
/-- `GATEWAY_HOST_PORT_DEFAULT`. -/
def gatewayHostPortDefault : Half := 9602

/-- The parameters after a reset: all bytes are zero. -/
def zeroed : GwParams :=
  ⟨List.replicate rf24AddrLen 0,List.replicate inetAddrstrlen 0,0,0,
    List.replicate inetAddrstrlen 0,0⟩

/-- The start of `main`: the defaults. -/
def defaults : GwParams where
  rf24Addr := List.replicate rf24AddrLen 0
  ipAddr := strncpy zeroed.ipAddr gatewayDefaultIp (inetAddrstrlen-1)
  dataPort := gatewayDataPortDefault
  useDhcp := gwUseDhcpDefault
  hostIp := strncpy zeroed.hostIp gatewayHostDefaultIp (inetAddrstrlen-1)
  hostPort := gatewayHostPortDefault

/-- The names that `settings_backend_init` deletes. -/
def staleKeys : List (List Char) :=
  ["gw/netmask".toList,"gw/gateway".toList,"gw/rf24_channel".toList]

/-- The order in which `settings_load` comes to the saved names. -/
structure LoadOrder where
  /-- The entries of a store in that order. -/
  arrange : List (Entry (List Char) (List Byte)) → List (Entry (List Char) (List Byte))
  /-- Every entry comes once. -/
  perm : ∀ entries,(arrange entries).Perm entries

/-- A restart: `settings_backend_init`, the defaults and `settings_load`. -/
def reboot (store : Store (List Char) (List Byte)) (order : LoadOrder) : Gateway :=
  let store := deleteAll staleKeys store
  ⟨(order.arrange store.entries).foldl loadOne defaults,store⟩

end Boot

section Runs

variable (I : Inet)

/-- What happens to the gateway. -/
inductive Event
  /-- A command of the configuration port; the interface has a live address or
  none. -/
  | command (cmd : Byte) (data : List Byte) (live : Option Word)
  /-- A restart. -/
  | reboot (order : LoadOrder)

/-- One event. -/
def next (g : Gateway) : Event → Gateway
  | .command cmd data live => (appCmdHandler I g cmd data live).gateway
  | .reboot order => reboot g.store order

/-- The parameters that a command names. -/
def named (cmd : Byte) : List Param :=
  if cmd=udpCmdSetIp then [.ipAddr]
  else if cmd=udpCmdSetRf24 then [.rf24Addr]
  else if cmd=udpCmdSetHost then [.hostIp,.hostPort]
  else []

/-- `SET_HOST` echoes its six bytes, a rejected `SET_IP` changes nothing, a
command keeps the parameters it does not name, and a restart keeps all. -/
def StepRight (g : Gateway) : Event → Prop
  | .command cmd data live =>
    let handled := appCmdHandler I g cmd data live
    (cmd=udpCmdSetHost → 6≤data.length → handled.reply=some (data.take 6)) ∧
      (cmd=udpCmdSetIp → handled.reply=some [0] → handled.gateway=g) ∧
      ∀ f,f∉named cmd → handled.gateway.params.value f=g.params.value f
  | .reboot order => (reboot g.store order).params.value=g.params.value

/-- The host and its port that an event sets. -/
def hostGiven : Event → Option (List Byte)
  | .command cmd data _ => if cmd=udpCmdSetHost ∧ 6≤data.length then some (data.take 6) else none
  | .reboot _ => none

/-- The radio address that an event sets. -/
def rf24Given : Event → Option (List Byte)
  | .command cmd data _ =>
    if cmd=udpCmdSetRf24 ∧ rf24AddrLen≤data.length then some (data.take rf24AddrLen) else none
  | .reboot _ => none

/-- The static address that an event sets while the address does not come from
a server. -/
def ipGiven (useDhcp : Byte) : Event → Option (List Byte)
  | .command cmd data _ =>
    if cmd=udpCmdSetIp ∧ (4≤data.length ∧ useDhcp=0) ∧ ipIsValid (sysGetBe32 data 0)=true then
      some (data.take 4)
    else none
  | .reboot _ => none

/-- The parameters fit and are the ones that a restart finds. -/
structure InSync (g : Gateway) : Prop where
  /-- Every parameter is saved or has its default. -/
  synced : Synced Param.key staleKeys defaults.value g.params.value g.store
  /-- Every parameter is of its kind. -/
  fits : ∀ f,Fits f (g.params.value f)

variable {I} {g : Gateway}

/-- A value that fits is not empty. -/
theorem Fits.ne_nil {f : Param} {v : List Byte} (h : Fits f v) : v≠[] := by
  cases f with
  | rf24Addr =>
    rintro rfl
    cases h
  | ipAddr | hostIp => exact h.1
  | dataPort | hostPort =>
    obtain ⟨port,rfl⟩ := h
    exact List.cons_ne_nil _ _
  | useDhcp =>
    obtain ⟨b,rfl⟩ := h
    exact List.cons_ne_nil b []

/-- Parameters that fit are saved under their names. -/
theorem settingsSave_eq {p : GwParams} (h : ∀ f,Fits f (p.value f)) (fields : List Param)
    (store : Store (List Char) (List Byte)) :
    settingsSave p fields store=saveAll Param.key p.value fields store := by
  have hsave : (fun (s : Store (List Char) (List Byte)) f =>
      if p.value f=[] then s.erase f.key else s.insert f.key (p.value f))=
      fun s f => s.insert f.key (p.value f) := by
    funext s f
    rw [if_neg (h f).ne_nil]
  rw [settingsSave,hsave,saveAll]

/-- A gateway stays in sync when all that changed fits and is saved. -/
theorem InSync.save (h : InSync g) {p : GwParams} {fields : List Param}
    (hkept : ∀ f,f∉fields → p.value f=g.params.value f) (hfits : ∀ f∈fields,Fits f (p.value f)) :
    InSync ⟨p,settingsSave p fields g.store⟩ := by
  have hall : ∀ f,Fits f (p.value f) := by
    intro f
    by_cases hf : f∈fields
    · exact hfits f hf
    · rw [hkept f hf]
      exact h.fits f
  refine ⟨?_,hall⟩
  simp only [settingsSave_eq hall]
  exact h.synced.save key_injective hkept

/-- A restart brings every parameter back. -/
theorem reboot_value (h : InSync g) (order : LoadOrder) :
    (reboot g.store order).params.value=g.params.value :=
  obs_reload readsBack_loadOne key_injective h.fits
    (h.synced.deleteStale fun f => by cases f <;> decide) (order.perm _) rfl

/-- A gateway is in sync after a restart. -/
theorem InSync.reboot (h : InSync g) (order : LoadOrder) : InSync (reboot g.store order) := by
  refine ⟨?_,?_⟩
  · rw [reboot_value h order]
    exact (h.synced.deleteStale fun f => by cases f <;> decide).weaken
  · rw [reboot_value h order]
    exact h.fits

/-- The text of an address is read back from the buffer. -/
theorem cString_ntop (hI : I.Lawful) (buf : List Byte) (addr : Word) :
    cString (putString buf (I.ntop addr))=I.ntop addr :=
  cString_putString (hI.plain addr) buf

/-- A stored address is read back as its bytes. -/
theorem textAddr_ntop (hI : I.Lawful) (buf : List Byte) (addr : Word) :
    textAddr I (putString buf (I.ntop addr))=sysPutBe32 addr := by
  rw [textAddr,cString_ntop hI,hI.pton_ntop]

/-- The text of an address fits. -/
theorem fits_ntop (hI : I.Lawful) (addr : Word) :
    I.ntop addr≠[] ∧ (I.ntop addr).length < inetAddrstrlen ∧ ∀ b∈I.ntop addr,b≠0 :=
  ⟨List.length_pos_iff.mp (hI.pos addr),hI.fits addr,hI.plain addr⟩

/-- A gateway that saved a change of its network parameters is in sync. -/
theorem InSync.network (h : InSync g) {p : GwParams}
    (hrf24 : p.rf24Addr=g.params.rf24Addr) (hfits : ∀ f,f≠.rf24Addr → Fits f (p.value f)) :
    InSync (persistSaveNetworkConfig {g with params := p}) := by
  refine h.save (fun f hf => ?_) fun f hf => hfits f fun hrf => ?_
  · cases f
    case rf24Addr => exact hrf24
    all_goals exact absurd hf (by decide)
  · rw [hrf] at hf
    exact absurd hf (by decide)

/-- The bytes of an address at the front of a payload. -/
theorem sysPutBe32_front {data : List Byte} (h : 4≤data.length) :
    sysPutBe32 (sysGetBe32 data 0)=data.take 4 := by
  match data with
  | b0::b1::b2::b3::rest => exact sysPutBe32_append b0 b1 b2 b3

/-- The bytes of an address and a port at the front of a payload. -/
theorem sysPutBe16_front {data : List Byte} (h : 6≤data.length) :
    sysPutBe32 (sysGetBe32 data 0)++sysPutBe16 (sysGetBe16 data 4)=data.take 6 := by
  match data with
  | b0::b1::b2::b3::b4::b5::rest =>
    exact congrArg₂ (· ++ ·) (sysPutBe32_append b0 b1 b2 b3) (sysPutBe16_append b4 b5)

/-- The parameters with another static address. -/
def GwParams.setIp (p : GwParams) (I : Inet) (addr : Word) : GwParams :=
  {p with ipAddr := putString p.ipAddr (I.ntop addr)}

/-- The parameters with another radio address. -/
def GwParams.setRf24 (p : GwParams) (addr : List Byte) : GwParams := {p with rf24Addr := addr}

/-- The parameters with another host. -/
def GwParams.setHost (p : GwParams) (I : Inet) (addr : Word) (port : Half) : GwParams :=
  {p with
    hostIp := putString p.hostIp (I.ntop addr)
    hostPort := port}

variable {cmd : Byte} {data : List Byte} {live : Option Word}

/-- `SET_IP` is accepted for a valid address that does not come from a server. -/
theorem handler_setIp : appCmdHandler I g udpCmdSetIp data live=
    if (4≤data.length ∧ g.params.useDhcp=0) ∧ ipIsValid (sysGetBe32 data 0)=true then
      ⟨persistSaveNetworkConfig {g with params := g.params.setIp I (sysGetBe32 data 0)},
        some [1],true⟩
    else ⟨g,some [0],true⟩ := by
  rw [appCmdHandler,if_pos rfl]
  by_cases hopen : 4≤data.length ∧ g.params.useDhcp=0
  · rw [if_pos hopen]
    by_cases hvalid : ipIsValid (sysGetBe32 data 0)=true
    · rw [if_pos hvalid,if_pos ⟨hopen,hvalid⟩]
      rfl
    · rw [if_neg hvalid,if_neg fun h => hvalid h.2]
  · rw [if_neg hopen,if_neg fun h => hopen h.1]

/-- `SET_RF24` is accepted with a whole address. -/
theorem handler_setRf24 : appCmdHandler I g udpCmdSetRf24 data live=
    if rf24AddrLen≤data.length then
      ⟨persistSaveRf24Config {g with params := g.params.setRf24 (data.take rf24AddrLen)},
        some (data.take rf24AddrLen),true⟩
    else ⟨g,none,true⟩ := by
  rw [appCmdHandler,if_neg (by decide),if_neg (by decide),if_pos rfl]
  rfl

/-- `SET_HOST` is accepted with an address and a port. -/
theorem handler_setHost : appCmdHandler I g udpCmdSetHost data live=
    if 6≤data.length then
      let p := g.params.setHost I (sysGetBe32 data 0) (sysGetBe16 data 4)
      ⟨persistSaveNetworkConfig {g with params := p},some (packHost I p),true⟩
    else ⟨g,none,true⟩ := by
  rw [appCmdHandler,if_neg (by decide),if_neg (by decide),if_neg (by decide),if_neg (by decide),
    if_pos rfl]
  rfl

/-- The other commands change nothing. -/
theorem handler_other (h : named cmd=[]) : (appCmdHandler I g cmd data live).gateway=g := by
  have hcmd : cmd≠udpCmdSetIp ∧ cmd≠udpCmdSetRf24 ∧ cmd≠udpCmdSetHost := by
    refine ⟨?_,?_,?_⟩ <;>
      · rintro rfl
        exact absurd h (by decide)
  rw [appCmdHandler,if_neg hcmd.1]
  split
  · rfl
  rw [if_neg hcmd.2.1]
  split
  · rfl
  rw [if_neg hcmd.2.2]
  split <;> rfl

/-- Every command names an address or a host, or nothing. -/
theorem named_cases (cmd : Byte) :
    cmd=udpCmdSetIp ∨ cmd=udpCmdSetRf24 ∨ cmd=udpCmdSetHost ∨ named cmd=[] := by
  unfold named
  split_ifs <;> tauto

/-- Every event keeps the gateway in sync. -/
theorem InSync.next (hI : I.Lawful) (h : InSync g) (e : Event) : InSync (next I g e) := by
  cases e with
  | reboot order => exact h.reboot order
  | command cmd data live =>
    simp only [GatewayConfig.next]
    rcases named_cases cmd with rfl | rfl | rfl | hother
    · rw [handler_setIp]
      split
      · refine h.network rfl fun f hf => ?_
        cases f
        case ipAddr =>
          rw [GwParams.value,GwParams.setIp,cString_ntop hI]
          exact fits_ntop hI _
        all_goals exact h.fits _
      · exact h
    · rw [handler_setRf24]
      split
      · rename_i hlen
        refine h.save (fun f hf => ?_) fun f hf => ?_
        · cases f
          case rf24Addr => exact absurd List.mem_cons_self hf
          all_goals rfl
        · rw [List.mem_singleton.mp hf]
          exact List.length_take_of_le hlen
      · exact h
    · rw [handler_setHost]
      split
      · refine h.network rfl fun f hf => ?_
        cases f
        case hostIp =>
          rw [GwParams.value,GwParams.setHost,cString_ntop hI]
          exact fits_ntop hI _
        case hostPort => exact ⟨_,rfl⟩
        all_goals exact h.fits _
      · exact h
    · rw [handler_other hother]
      exact h

/-- The host after `SET_HOST` is what the command gave. -/
theorem packHost_setHost (hI : I.Lawful) (p : GwParams) (hlen : 6≤data.length) :
    packHost I (p.setHost I (sysGetBe32 data 0) (sysGetBe16 data 4))=data.take 6 := by
  rw [packHost,GwParams.setHost,textAddr_ntop hI]
  exact sysPutBe16_front hlen

/-- Every event does to the parameters what it should. -/
theorem InSync.stepRight (hI : I.Lawful) (h : InSync g) (e : Event) : StepRight I g e := by
  cases e with
  | reboot order => exact reboot_value h order
  | command cmd data live =>
    rcases named_cases cmd with rfl | rfl | rfl | hother
    · refine ⟨fun hcmd => absurd hcmd (by decide),fun _ hreply => ?_,fun f hf => ?_⟩
      · rw [handler_setIp] at hreply ⊢
        split at hreply
        · have hbyte : some [(1 : Byte)]=some [0] := hreply
          exact absurd hbyte (by decide)
        · rename_i hnot
          rw [if_neg hnot]
      · rw [handler_setIp]
        split
        · cases f
          case ipAddr => exact absurd List.mem_cons_self hf
          all_goals rfl
        · rfl
    · refine ⟨fun hcmd => absurd hcmd (by decide),fun hcmd => absurd hcmd (by decide),
        fun f hf => ?_⟩
      rw [handler_setRf24]
      split
      · cases f
        case rf24Addr => exact absurd List.mem_cons_self hf
        all_goals rfl
      · rfl
    · refine ⟨fun _ hlen => ?_,fun hcmd => absurd hcmd (by decide),fun f hf => ?_⟩
      · rw [handler_setHost,if_pos hlen]
        exact congrArg some (packHost_setHost hI g.params hlen)
      · rw [handler_setHost]
        split
        · cases f
          case hostIp => exact absurd List.mem_cons_self hf
          case hostPort => exact absurd (List.mem_cons_of_mem _ List.mem_cons_self) hf
          all_goals rfl
        · rfl
    · refine ⟨fun hcmd => ?_,fun _ _ => handler_other hother,fun f _ => ?_⟩
      · rw [hcmd] at hother
        exact absurd hother (by decide)
      · rw [handler_other hother]

variable {p q : GwParams}

/-- Parameters that are saved alike have the same ports. -/
theorem ports_congr (h : p.value=q.value) : p.dataPort=q.dataPort ∧ p.hostPort=q.hostPort := by
  have hdata := congrArg (sysGetLe16 · 0) (congrFun h .dataPort)
  have hhost := congrArg (sysGetLe16 · 0) (congrFun h .hostPort)
  simp only [GwParams.value,sysGetLe16_portBytes] at hdata hhost
  exact ⟨hdata,hhost⟩

/-- Parameters that are saved alike have the same host. -/
theorem packHost_congr (h : p.value=q.value) : packHost I p=packHost I q := by
  have htext : cString p.hostIp=cString q.hostIp := congrFun h .hostIp
  rw [packHost,packHost,textAddr,textAddr,htext,(ports_congr h).2]

/-- Parameters that are saved alike have the same static address. -/
theorem textAddr_congr (h : p.value=q.value) : textAddr I p.ipAddr=textAddr I q.ipAddr := by
  have htext : cString p.ipAddr=cString q.ipAddr := congrFun h .ipAddr
  rw [textAddr,textAddr,htext]

/-- Parameters that are saved alike get their address the same way. -/
theorem useDhcp_congr (h : p.value=q.value) : p.useDhcp=q.useDhcp :=
  (List.cons.inj (congrFun h .useDhcp)).1

/-- An event sets the host it gives and keeps it otherwise. -/
theorem packHost_next (hI : I.Lawful) (h : InSync g) (e : Event) :
    packHost I (next I g e).params=(hostGiven e).getD (packHost I g.params) := by
  cases e with
  | reboot order => exact packHost_congr (reboot_value h order)
  | command cmd data live =>
    by_cases hgiven : cmd=udpCmdSetHost ∧ 6≤data.length
    · obtain ⟨rfl,hlen⟩ := hgiven
      simp only [next,hostGiven,handler_setHost,hlen,and_self,if_true,Option.getD_some]
      exact packHost_setHost hI g.params hlen
    · rw [hostGiven,if_neg hgiven,Option.getD_none,next]
      rcases named_cases cmd with rfl | rfl | rfl | hother
      · rw [handler_setIp]
        split <;> rfl
      · rw [handler_setRf24]
        split <;> rfl
      · rw [handler_setHost,if_neg fun hlen => hgiven ⟨rfl,hlen⟩]
      · rw [handler_other hother]

/-- An event sets the radio address it gives and keeps it otherwise. -/
theorem rf24Addr_next (h : InSync g) (e : Event) :
    (next I g e).params.rf24Addr=(rf24Given e).getD g.params.rf24Addr := by
  cases e with
  | reboot order => exact congrFun (reboot_value h order) .rf24Addr
  | command cmd data live =>
    by_cases hgiven : cmd=udpCmdSetRf24 ∧ rf24AddrLen≤data.length
    · obtain ⟨rfl,hlen⟩ := hgiven
      simp only [next,rf24Given,handler_setRf24,hlen,and_self,if_true,Option.getD_some]
      rfl
    · rw [rf24Given,if_neg hgiven,Option.getD_none,next]
      rcases named_cases cmd with rfl | rfl | rfl | hother
      · rw [handler_setIp]
        split <;> rfl
      · rw [handler_setRf24,if_neg fun hlen => hgiven ⟨rfl,hlen⟩]
      · rw [handler_setHost]
        split <;> rfl
      · rw [handler_other hother]

/-- An event sets the static address it gives and keeps it otherwise. -/
theorem ipAddr_next (hI : I.Lawful) (h : InSync g) (e : Event) :
    textAddr I (next I g e).params.ipAddr=
      (ipGiven g.params.useDhcp e).getD (textAddr I g.params.ipAddr) := by
  cases e with
  | reboot order => exact textAddr_congr (reboot_value h order)
  | command cmd data live =>
    by_cases hgiven : cmd=udpCmdSetIp ∧ (4≤data.length ∧ g.params.useDhcp=0) ∧
        ipIsValid (sysGetBe32 data 0)=true
    · rw [ipGiven,if_pos hgiven,Option.getD_some,next]
      obtain ⟨rfl,haccept⟩ := hgiven
      rw [handler_setIp,if_pos haccept]
      exact (textAddr_ntop hI _ _).trans (sysPutBe32_front haccept.1.1)
    · rw [ipGiven,if_neg hgiven,Option.getD_none,next]
      rcases named_cases cmd with rfl | rfl | rfl | hother
      · rw [handler_setIp,if_neg fun haccept => hgiven ⟨rfl,haccept⟩]
      · rw [handler_setRf24]
        split <;> rfl
      · rw [handler_setHost]
        split <;> rfl
      · rw [handler_other hother]

/-- No event changes the data port or where the address comes from. -/
theorem fixed_next (h : InSync g) (e : Event) :
    (next I g e).params.dataPort=g.params.dataPort ∧
      (next I g e).params.useDhcp=g.params.useDhcp := by
  cases e with
  | reboot order =>
    exact ⟨(ports_congr (reboot_value h order)).1,useDhcp_congr (reboot_value h order)⟩
  | command cmd data live =>
    simp only [next]
    rcases named_cases cmd with rfl | rfl | rfl | hother
    · rw [handler_setIp]
      split <;> exact ⟨rfl,rfl⟩
    · rw [handler_setRf24]
      split <;> exact ⟨rfl,rfl⟩
    · rw [handler_setHost]
      split <;> exact ⟨rfl,rfl⟩
    · rw [handler_other hother]
      exact ⟨rfl,rfl⟩

/-- In sync, with a given data port and source of the address. -/
structure Running (dataPort : Half) (useDhcp : Byte) (g : Gateway) : Prop where
  /-- The gateway is in sync. -/
  sync : InSync g
  /-- The data port. -/
  dataPort : g.params.dataPort=dataPort
  /-- Where the address comes from. -/
  useDhcp : g.params.useDhcp=useDhcp

/-- Every event keeps a gateway running. -/
theorem Running.next (hI : I.Lawful) {port : Half} {dhcp : Byte} (h : Running port dhcp g)
    (e : Event) : Running port dhcp (next I g e) where
  sync := h.sync.next hI e
  dataPort := (fixed_next h.sync e).1.trans h.dataPort
  useDhcp := (fixed_next h.sync e).2.trans h.useDhcp

/-- In every run of commands and restarts `SET_HOST` echoes its bytes, a
rejected `SET_IP` changes nothing, nothing changes a parameter that it does not
name, and afterwards the queries return what was last accepted. -/
theorem config_round_trip (hI : I.Lawful) (h : InSync g) (es : List Event) :
    AlongRun (next I) (StepRight I) g es ∧
      ∀ data live,
        (appCmdHandler I (finalState (next I) g es) udpCmdGetNet data live).reply=
            some (sysPutBe16 g.params.dataPort++
              (es.filterMap hostGiven).getLast?.getD (packHost I g.params)) ∧
          (appCmdHandler I (finalState (next I) g es) udpCmdGetRf24 data live).reply=
            some ((es.filterMap rf24Given).getLast?.getD g.params.rf24Addr) ∧
          (appCmdHandler I (finalState (next I) g es) udpCmdDiscover data none).reply=
            some ((es.filterMap (ipGiven g.params.useDhcp)).getLast?.getD
              (textAddr I g.params.ipAddr)++sysPutBe16 udpFwConfigPort) := by
  have h0 : Running g.params.dataPort g.params.useDhcp g := ⟨h,rfl,rfl⟩
  have hstep : ∀ s e,Running g.params.dataPort g.params.useDhcp s →
      Running g.params.dataPort g.params.useDhcp (next I s e) := fun s e hs => hs.next hI e
  have hhost := @observed_last _ _ _ _ _ (fun s => packHost I s.params) hostGiven hstep
    (fun s e hs => packHost_next hI hs.sync e) g h0 es
  have hrf24 := @observed_last _ _ _ _ _ (fun s => s.params.rf24Addr) rf24Given hstep
    (fun s e hs => rf24Addr_next hs.sync e) g h0 es
  have hip := @observed_last _ _ _ _ _ (fun s => textAddr I s.params.ipAddr)
    (ipGiven g.params.useDhcp) hstep (fun s e hs => hs.useDhcp▸ipAddr_next hI hs.sync e) g h0 es
  have hport := (finalState_preserves hstep h0 es).dataPort
  refine ⟨alongRun_of_kept hstep (fun s e hs => hs.sync.stepRight hI e) h0 es,
    fun data live => ⟨?_,?_,?_⟩⟩
  · rw [←hhost,←hport]
    rfl
  · rw [←hrf24]
    rfl
  · rw [←hip]
    rfl

/-- A gateway without any saved settings. -/
def factory : Gateway := ⟨defaults,∅⟩

/-- A gateway without any saved settings is in sync. -/
theorem inSync_factory : InSync factory where
  synced := synced_empty
  fits f := by
    cases f with
    | rf24Addr => rfl
    | ipAddr | hostIp => exact ⟨by decide,by decide,by decide⟩
    | dataPort | hostPort => exact ⟨_,rfl⟩
    | useDhcp => exact ⟨_,rfl⟩

/-- A new host, a refused loopback address, a restart that reads the settings
backwards and a new radio address. -/
def sampleRun : List Event :=
  [.command udpCmdSetHost [10,0,0,7,0x23,0x28] none,.command udpCmdSetIp [127,0,0,1] none,
    .reboot ⟨List.reverse,fun entries => List.reverse_perm entries⟩,
    .command udpCmdSetRf24 [1,2,3,4,5] none]

/-- The queries after the sample run return the new host and radio address. -/
theorem config_round_trip_sample :
    (appCmdHandler dottedQuad (finalState (next dottedQuad) factory sampleRun) udpCmdGetNet []
        none).reply=some [0x25,0x80,10,0,0,7,0x23,0x28] ∧
      (appCmdHandler dottedQuad (finalState (next dottedQuad) factory sampleRun) udpCmdGetRf24 []
        none).reply=some [1,2,3,4,5] := by
  have h := (config_round_trip dottedQuad_lawful inSync_factory sampleRun).2 [] none
  exact ⟨h.1.trans (by decide),h.2.1.trans (by decide)⟩

end Runs

end ZephyrApp.GatewayConfig

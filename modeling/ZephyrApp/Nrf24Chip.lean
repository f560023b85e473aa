import ZephyrApp.MachineBytes

/-!
# The nRF24L01+ chip and its driver's register procedures

The chip as the driver sees it over SPI: registers, the three flags of the
status register, the two payload FIFOs. A procedure of the driver that runs
under its lock is the list of accesses it makes, in order: the programming of
all registers and the change of the mode are given so, with the runtime
configuration they start from.
-/

namespace ZephyrApp.Nrf24Chip

open MachineBytes

/-- `BIT`. -/
def bit (n : ℕ) : Byte := 1#8 <<< n

/-- `NRF24_MAX_PAYLOAD`. -/
def nrf24MaxPayload : ℕ := 32

section Registers

/-- `L01REG_CONFIG`. -/
def regConfig : Byte := 0x00

/-- `L01REG_ENAA`. -/
def regEnaa : Byte := 0x01

/-- `L01REG_EN_RXADDR`. -/
def regEnRxaddr : Byte := 0x02

/-- `L01REG_SETUP_AW`. -/
def regSetupAw : Byte := 0x03

/-- `L01REG_SETUP_RETR`. -/
def regSetupRetr : Byte := 0x04

/-- `L01REG_RF_CH`. -/
def regRfCh : Byte := 0x05

/-- `L01REG_RF_SETUP`. -/
def regRfSetup : Byte := 0x06

/-- `L01REG_STATUS`. -/
def regStatus : Byte := 0x07

/-- `L01REG_OBSERVE_TX`. -/
def regObserveTx : Byte := 0x08

/-- `L01REG_RX_ADDR_P0`. -/
def regRxAddrP0 : Byte := 0x0A

/-- `L01REG_TX_ADDR`. -/
def regTxAddr : Byte := 0x10

/-- `L01REG_RX_PW_P0`. -/
def regRxPwP0 : Byte := 0x11

/-- `L01REG_DYNPD`. -/
def regDynpd : Byte := 0x1C

/-- `L01REG_FEATURE`. -/
def regFeature : Byte := 0x1D

/-- `EN_CRC`, a bit of `CONFIG`. -/
def enCrc : ℕ := 3

/-- `CRCO`, a bit of `CONFIG`. -/
def crco : ℕ := 2

/-- `PWR_UP`, a bit of `CONFIG`. -/
def pwrUp : ℕ := 1

/-- `PRIM_RX`, a bit of `CONFIG`. -/
def primRx : ℕ := 0

/-- `RX_DR`, a bit of `STATUS`. -/
def rxDrBit : ℕ := 6

/-- `TX_DS`, a bit of `STATUS`. -/
def txDsBit : ℕ := 5

/-- `MAX_RT`, a bit of `STATUS`. -/
def maxRtBit : ℕ := 4

/-- `IRQ_ALL`. -/
def irqAll : Byte := bit rxDrBit ||| bit txDsBit ||| bit maxRtBit

/-- The single-byte registers after a power-on reset. -/
def resetReg (r : Byte) : Byte :=
  match r.toNat with
  | 0x00 => 0x08
  | 0x01 => 0x3F
  | 0x02 => 0x03
  | 0x03 => 0x03
  | 0x04 => 0x03
  | 0x05 => 0x02
  | 0x06 => 0x0E
  | _ => 0

end Registers

/-- A payload in the TX FIFO, with the number of the call that wrote it. -/
structure TxPayload where
  /-- The number of the call. -/
  call : ℕ
  /-- The bytes of the payload. -/
  bytes : List Byte
deriving DecidableEq

/-- The chip. -/
structure Chip where
  /-- The single-byte registers other than `STATUS`. -/
  reg : Byte → Byte
  /-- The address registers. -/
  addr : Byte → List Byte
  /-- `RX_DR`. -/
  rxDr : Bool
  /-- `TX_DS`. -/
  txDs : Bool
  /-- `MAX_RT`. -/
  maxRt : Bool
  /-- The RX FIFO, the oldest payload first. -/
  rxFifo : List (List Byte)
  /-- The TX FIFO, the oldest payload first. -/
  txFifo : List TxPayload

/-- The chip after a power-on reset. -/
def Chip.reset : Chip :=
  ⟨resetReg,fun _ => List.replicate 5 0xE7,false,false,false,[],[]⟩

/-- The depth of either FIFO. -/
def fifoDepth : ℕ := 3

/-- The value of `STATUS`: the flags, the pipe of the next payload and
`TX_FULL`. -/
def Chip.status (c : Chip) : Byte :=
  (if c.rxDr then bit rxDrBit else 0) ||| (if c.txDs then bit txDsBit else 0) |||
    (if c.maxRt then bit maxRtBit else 0) ||| (if c.rxFifo=[] then 0x0E else 0) |||
    (if fifoDepth≤c.txFifo.length then 1 else 0)

/-- Write a register; a flag of `STATUS` is cleared by writing a one. -/
def Chip.writeReg (c : Chip) (r v : Byte) : Chip :=
  if r=regStatus then
    {c with
      rxDr := c.rxDr && !v.getLsbD rxDrBit
      txDs := c.txDs && !v.getLsbD txDsBit
      maxRt := c.maxRt && !v.getLsbD maxRtBit}
  else {c with reg := Function.update c.reg r v}

/-- `NRF24_MODE_*`. -/
inductive Nrf24Mode where
  /-- `NRF24_MODE_PTX`. -/
  | ptx
  /-- `NRF24_MODE_PRX`. -/
  | prx
  /-- `NRF24_MODE_STANDBY`. -/
  | standby
  /-- `NRF24_MODE_POWER_DOWN`. -/
  | powerDown
deriving DecidableEq

/-- The driver's device: the chip with its supply and enable lines, and the
software's view of the mode. -/
structure Radio where
  /-- The chip. -/
  chip : Chip
  /-- Whether the chip is supplied with power. -/
  supplied : Bool
  /-- The level of the line CE. -/
  ce : Bool
  /-- `mode` of `struct nrf24_data`. -/
  mode : Nrf24Mode
  /-- `ready` of `struct nrf24_data`. -/
  ready : Bool

/-- The bits of `CONFIG` that a mode sets. -/
def modeBits : Nrf24Mode → Byte
  | .prx => bit pwrUp ||| bit primRx
  | .ptx => bit pwrUp
  | .standby => bit pwrUp
  | .powerDown => 0

/-- `CONFIG` with the two bits of a mode in the place of those it had. -/
def modeConfig (mode : Nrf24Mode) (config : Byte) : Byte :=
  (config &&& ~~~(bit pwrUp ||| bit primRx)) ||| modeBits mode

/-- An access that a procedure of the driver makes under its lock. -/
inductive DriverOp where
  /-- `reg_write_locked`. -/
  | writeReg (r v : Byte)
  /-- `reg_write_multi_locked`. -/
  | writeMulti (r : Byte) (bytes : List Byte)
  /-- The command `FLUSH_TX`. -/
  | flushTx
  /-- The command `FLUSH_RX`. -/
  | flushRx
  /-- Read `CONFIG` and write it back with the bits of a mode. -/
  | modeConfig (mode : Nrf24Mode)
  /-- `write_tx_payload_locked`. -/
  | writeTxPayload (p : TxPayload)
  /-- Set the line CE. -/
  | setCe (level : Bool)
  /-- Record the mode. -/
  | setMode (mode : Nrf24Mode)

/-- What an access does to a chip that is supplied. -/
def Chip.access (c : Chip) : DriverOp → Chip
  | .writeReg r v => c.writeReg r v
  | .writeMulti r bytes => {c with addr := Function.update c.addr r bytes}
  | .flushTx => {c with txFifo := []}
  | .flushRx => {c with rxFifo := []}
  | .modeConfig mode =>
    {c with reg := Function.update c.reg regConfig (modeConfig mode (c.reg regConfig))}
  | .writeTxPayload p =>
    if c.txFifo.length<fifoDepth then {c with txFifo := c.txFifo++[p]} else c
  | .setCe _ => c
  | .setMode _ => c

/-- One access: a chip without supply takes no commands. -/
def Radio.access (s : Radio) (op : DriverOp) : Radio :=
  match op with
  | .setCe level => {s with ce := level}
  | .setMode mode => {s with mode := mode}
  | op => if s.supplied then {s with chip := s.chip.access op} else s

/-- An access to a supplied radio is one to its chip. -/
theorem access_chip (r : Radio) (op : DriverOp) :
    (r.access op).chip=(if r.supplied then r.chip.access op else r.chip) ∧
      (r.access op).supplied=r.supplied := by
  cases op with
  | setCe level | setMode mode => exact ⟨(ite_self r.chip).symm,rfl⟩
  | writeReg _ _ | writeMulti _ _ | flushTx | flushRx | modeConfig _ | writeTxPayload _ =>
    dsimp only [Radio.access]
    split <;> exact ⟨rfl,rfl⟩

/-- The accesses of a procedure, in order. -/
def Radio.run (s : Radio) (ops : List DriverOp) : Radio := ops.foldl Radio.access s

section Configuration

/-- `enum nrf24_data_rate`. -/
inductive DataRate where
  /-- `NRF24_RATE_250K`. -/
  | rate250K
  /-- `NRF24_RATE_1M`. -/
  | rate1M
  /-- `NRF24_RATE_2M`. -/
  | rate2M
deriving DecidableEq

/-- `enum nrf24_tx_power`. -/
inductive TxPower where
  /-- `NRF24_PWR_18DBM`. -/
  | pwr18Dbm
  /-- `NRF24_PWR_12DBM`. -/
  | pwr12Dbm
  /-- `NRF24_PWR_6DBM`. -/
  | pwr6Dbm
  /-- `NRF24_PWR_0DBM`. -/
  | pwr0Dbm
deriving DecidableEq

/-- `enum nrf24_payload_mode`. -/
inductive PayloadMode where
  /-- `NRF24_PAYLOAD_DYNAMIC`. -/
  | dynamic
  /-- `NRF24_PAYLOAD_FIXED`. -/
  | fixed
deriving DecidableEq

/-- `enum nrf24_crc_mode`. -/
inductive CrcMode where
  /-- `NRF24_CRC_1_BYTE`. -/
  | oneByte
  /-- `NRF24_CRC_2_BYTE`. -/
  | twoByte
deriving DecidableEq

/-- `parse_data_rate`. -/
def parseDataRate (s : String) : DataRate :=
  if s="250k" then .rate250K else if s="2m" then .rate2M else .rate1M

/-- `parse_tx_power`. -/
def parseTxPower (s : String) : TxPower :=
  if s="-18dbm" then .pwr18Dbm
  else if s="-12dbm" then .pwr12Dbm
  else if s="-6dbm" then .pwr6Dbm
  else .pwr0Dbm

/-- `parse_payload_mode`. -/
def parsePayloadMode (s : String) : PayloadMode := if s="fixed" then .fixed else .dynamic

/-- `parse_crc_mode`. -/
def parseCrcMode (s : String) : CrcMode := if s="1-byte" then .oneByte else .twoByte

/-- `data_rate_to_str`. -/
def dataRateToStr : DataRate → String
  | .rate250K => "250k"
  | .rate2M => "2m"
  | .rate1M => "1m"

/-- `tx_power_to_str`. -/
def txPowerToStr : TxPower → String
  | .pwr18Dbm => "-18dbm"
  | .pwr12Dbm => "-12dbm"
  | .pwr6Dbm => "-6dbm"
  | .pwr0Dbm => "0dbm"

/-- `crc_mode_to_str`. -/
def crcModeToStr : CrcMode → String
  | .oneByte => "1-byte"
  | .twoByte => "2-byte"

/-- The names that the runtime configuration writes for its settings are read
back as the same settings. -/
theorem parse_toStr (r : DataRate) (p : TxPower) (c : CrcMode) :
    parseDataRate (dataRateToStr r)=r ∧ parseTxPower (txPowerToStr p)=p ∧
      parseCrcMode (crcModeToStr c)=c := by
  refine ⟨?_,?_,?_⟩
  · cases r <;> simp [dataRateToStr,parseDataRate]
  · cases p <;> simp [txPowerToStr,parseTxPower]
  · cases c <;> simp [crcModeToStr,parseCrcMode]

/-- `data_rate_bits`. -/
def dataRateBits : DataRate → Byte
  | .rate250K => bit 5
  | .rate2M => bit 3
  | .rate1M => 0

/-- `tx_power_bits`. -/
def txPowerBits : TxPower → Byte
  | .pwr18Dbm => 0x00 <<< 1
  | .pwr12Dbm => 0x01 <<< 1
  | .pwr6Dbm => 0x02 <<< 1
  | .pwr0Dbm => 0x03 <<< 1

/-- `addr_aw_bits`. -/
def addrAwBits (aw : ℕ) : Byte := if aw=3 then 0x01 else if aw=4 then 0x02 else 0x03

/-- `struct nrf24_config`, the part that programs the chip. -/
structure Nrf24Config where
  /-- Whether there is a line that switches the supply, `power.port`. -/
  hasPower : Bool
  /-- `channel`. -/
  channel : Byte
  /-- `data_rate`. -/
  dataRate : String
  /-- `tx_power`. -/
  txPower : String
  /-- `address_width`. -/
  addressWidth : ℕ
  /-- `payload_mode`. -/
  payloadMode : String
  /-- `rx_payload_width`. -/
  rxPayloadWidth : Byte
  /-- `crc_mode`. -/
  crcMode : String
  /-- `ard`. -/
  ard : Byte
  /-- `arc`. -/
  arc : Byte
  /-- `tx_addr`. -/
  txAddr : List Byte

/-- `struct nrf24_cfg`, the settings that can be changed at runtime. -/
structure Nrf24Cfg where
  /-- `channel`. -/
  channel : Byte
  /-- `data_rate`. -/
  dataRate : DataRate
  /-- `tx_power`. -/
  txPower : TxPower
  /-- `crc_mode`. -/
  crcMode : CrcMode
  /-- `address_width`. -/
  addressWidth : ℕ
  /-- `tx_addr`, none for a null pointer. -/
  txAddr : Option (List Byte)

/-- The value that `apply_config_with` leaves in `CONFIG`. -/
def configByte (cfg : Nrf24Config) (prim : Bool) : Byte :=
  bit enCrc ||| bit pwrUp |||
    (if parseCrcMode cfg.crcMode=.twoByte then bit crco else 0) |||
    (if prim then bit primRx else 0)

/-- The address width, five when the setting is none of the legal widths. -/
def effectiveWidth (cfg : Nrf24Config) : ℕ :=
  if 3≤cfg.addressWidth ∧ cfg.addressWidth≤5 then cfg.addressWidth else 5

/-- `apply_config_with`. -/
def applyConfigWith (cfg : Nrf24Config) (prim : Bool) : List DriverOp :=
  ([.writeReg regConfig 0,
    .writeReg regSetupAw (addrAwBits (effectiveWidth cfg)),
    .writeReg regSetupRetr (cfg.ard ||| (cfg.arc &&& 0x0F)),
    .writeReg regRfCh (cfg.channel &&& 0x7F),
    .writeReg regRfSetup
      (dataRateBits (parseDataRate cfg.dataRate) ||| txPowerBits (parseTxPower cfg.txPower)),
    .writeReg regEnaa (bit 0),
    .writeReg regEnRxaddr (bit 0),
    .writeReg regConfig (configByte cfg prim)] : List DriverOp)++
  (if parsePayloadMode cfg.payloadMode=.dynamic then
    [.writeReg regDynpd (bit 0),.writeReg regFeature (bit 2 ||| bit 1)]
  else
    [.writeReg regDynpd 0,.writeReg regFeature 0,
      .writeReg regRxPwP0 (cfg.rxPayloadWidth &&& 0x3F)] : List DriverOp)++
  [.writeMulti regTxAddr (cfg.txAddr.take (effectiveWidth cfg)),
    .writeMulti regRxAddrP0 (cfg.txAddr.take (effectiveWidth cfg)),
    .flushTx,.flushRx,.writeReg regStatus irqAll]

/-- The configuration that `nrf24_configure` applies. -/
def mergeCfg (cfg : Nrf24Config) : Option Nrf24Cfg → Nrf24Config
  | none => cfg
  | some c =>
    let width := if 3≤c.addressWidth ∧ c.addressWidth≤5 then c.addressWidth else cfg.addressWidth
    {cfg with
      channel := c.channel
      dataRate := dataRateToStr c.dataRate
      txPower := txPowerToStr c.txPower
      crcMode := crcModeToStr c.crcMode
      addressWidth := width
      txAddr :=
        match c.txAddr with
        | none => cfg.txAddr
        | some bytes => bytes.take width++cfg.txAddr.drop width}

/-- `set_mode_locked`. -/
def setModeLocked (mode : Nrf24Mode) : List DriverOp :=
  [.modeConfig mode,.setCe (decide (mode=.prx)),.setMode mode]

end Configuration

end ZephyrApp.Nrf24Chip

import ZephyrApp.AdcSamples
import ZephyrApp.BootSelection
import ZephyrApp.BootloaderRegion
import ZephyrApp.BootloaderStaging
import ZephyrApp.Bridge
import ZephyrApp.CanFwKeyhash
import ZephyrApp.CanFwSession
import ZephyrApp.DaqConfig
import ZephyrApp.DigitalOutputs
import ZephyrApp.Eeprom24C02
import ZephyrApp.FlashFsThreads
import ZephyrApp.FtpAuthorisation
import ZephyrApp.FtpBufferPool
import ZephyrApp.FtpChangeDir
import ZephyrApp.FtpListing
import ZephyrApp.FtpReceive
import ZephyrApp.FtpSegments
import ZephyrApp.FtpSlotSockets
import ZephyrApp.FtpStore
import ZephyrApp.GatewayConfig
import ZephyrApp.GatewayLed
import ZephyrApp.HandlerScreen
import ZephyrApp.HistoryDecoder
import ZephyrApp.HistoryFiles
import ZephyrApp.HistoryLock
import ZephyrApp.HttpUpload
import ZephyrApp.KeystreamReuse
import ZephyrApp.LaserCan
import ZephyrApp.LaserEncoder
import ZephyrApp.LaserSession
import ZephyrApp.LaserUart
import ZephyrApp.ModbusRequests
import ZephyrApp.ModbusTcp
import ZephyrApp.Nrf24Drain
import ZephyrApp.Nrf24Receive
import ZephyrApp.Nrf24Replay
import ZephyrApp.Nrf24Verdict
import ZephyrApp.Nrf24Window
import ZephyrApp.Rf24SendResult
import ZephyrApp.Rf24Shell
import ZephyrApp.UartParser
import ZephyrApp.UdpFwSession
import ZephyrApp.UdpFwStart
import ZephyrApp.UpgradeRefusal
import ZephyrApp.VersionFrames

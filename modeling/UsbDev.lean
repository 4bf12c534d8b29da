import UsbDev.Clocked
import UsbDev.Signals
import UsbDev.OutPe
import UsbDev.InPe
import UsbDev.SyncFifo
import UsbDev.PacketRam
import UsbDev.UsbIf
import UsbDev.Device
import UsbDev.Traffic
import UsbDev.BufferOwnership
import UsbDev.OutAbort
import UsbDev.SetupHandshake
import UsbDev.InDataPath
import UsbDev.InRetry
import UsbDev.OutDelivery
import UsbDev.Crc
import UsbDev.Deserializer
import UsbDev.Driver
import UsbDev.DriverReception
import UsbDev.FsTx
import UsbDev.TxBits
import UsbDev.TxEncode
import UsbDev.ReceiverWake
import UsbDev.IgnoredTokens
import UsbDev.OneTransmission
import UsbDev.Solicited
import UsbDev.SharedMemory
import UsbDev.SoftwareRaces
import UsbDev.RxReserve
import UsbDev.LinkState
import UsbDev.TickTimer
import UsbDev.LinkEvents
import UsbDev.RxReports
import UsbDev.RxTiming
import UsbDev.RxHistory
import UsbDev.RxDiff
import UsbDev.TokenTiming
import UsbDev.Turnaround
import UsbDev.Usbdev
import UsbDev.InCompletion
import UsbDev.EventCounter
import UsbDev.LinkHistory
import UsbDev.SyncFilter
import UsbDev.AonWake
import UsbDev.FrameNumber
import UsbDev.Monitor
import UsbDev.PacketRoundTrip
import UsbDev.DeviceResponse
import UsbDev.StartPulse
import UsbDev.DataToggles
import UsbDev.OutViews
import UsbDev.Interface
import UsbDev.MemoryPort
import UsbDev.ActiveLink
import UsbDev.SetupState
import UsbDev.ResponseTime
import UsbDev.EngineTwins
import UsbDev.LinkReset
import UsbDev.TwoClocks
import UsbDev.ReqAck
import UsbDev.RegCdc
import UsbDev.RegCdcArb
import UsbDev.Secded
import UsbDev.Tlul
import UsbDev.TlulAdapters
import UsbDev.RegTop
import UsbDev.BusResponses
import UsbDev.WakeControl
import UsbDev.Interrupts

import PicoFi.AddressClaim
import PicoFi.AddressExclusion
import PicoFi.ArpTransmit
import PicoFi.Base64
import PicoFi.BoundedText
import PicoFi.BridgeDecoder
import PicoFi.CandidateRate
import PicoFi.CommandRoundTrip
import PicoFi.ConfigShell
import PicoFi.ConfigText
import PicoFi.DhcpMigration
import PicoFi.DhcpOffer
import PicoFi.ForwardTcp
import PicoFi.FrameReaderSchedule
import PicoFi.FrameRoundTrip
import PicoFi.FrameWriters
import PicoFi.I2cDelivery
import PicoFi.I2cExchange
import PicoFi.I2cRouter
import PicoFi.I2cRouterRuns
import PicoFi.LanDiscovery
import PicoFi.LinkHandshake
import PicoFi.LinkedBridges
import PicoFi.MailboxRuns
import PicoFi.PacketArmor
import PicoFi.PacketGrammar
import PicoFi.PeerSelection
import PicoFi.PolicyTrace
import PicoFi.PrefixCode
import PicoFi.ProbeBackoff
import PicoFi.PythonReader
import PicoFi.QueueItems
import PicoFi.QueueWakeup
import PicoFi.Reconnections
import PicoFi.RunningMin
import PicoFi.SessionDelivery
import PicoFi.ShellLines
import PicoFi.SlotRequest
import PicoFi.SlotResponse
import PicoFi.SlotSoundness
import PicoFi.SlotTransfer
import PicoFi.SpiBackend
import PicoFi.SpiCapture
import PicoFi.SpiDelivery
import PicoFi.SpiExchange
import PicoFi.SpiHost
import PicoFi.SpiRetention
import PicoFi.SpiRouter
import PicoFi.SpiSession
import PicoFi.TextFrames
import PicoFi.UartCores
import PicoFi.UartLine
import PicoFi.UartLink
import PicoFi.UartResync
import PicoFi.UartRouter
import PicoFi.UartRouterRuns
import PicoFi.UartRouters
import PicoFi.UartValidator
import PicoFi.UsbBridge
import PicoFi.WiredPair

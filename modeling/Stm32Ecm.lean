import Stm32Ecm.Library.Run
import Stm32Ecm.Library.Memory
import Stm32Ecm.Library.Framing
import Stm32Ecm.Library.RefCount
import Stm32Ecm.Library.Chain
import Stm32Ecm.Library.DnsMessage
import Stm32Ecm.Library.LinkedList
import Stm32Ecm.Library.CString
import Stm32Ecm.Library.FirstFit
import Stm32Ecm.Usb.Hal
import Stm32Ecm.Usb.Driver
import Stm32Ecm.Usb.Firmware
import Stm32Ecm.Usb.Transmit
import Stm32Ecm.Usb.Boundary
import Stm32Ecm.Usb.Receive
import Stm32Ecm.Usb.Credit
import Stm32Ecm.Usb.Arrival
import Stm32Ecm.Usb.Drop
import Stm32Ecm.Usb.Core
import Stm32Ecm.Usb.Reconfigure
import Stm32Ecm.Usb.Busy
import Stm32Ecm.Usb.Completion
import Stm32Ecm.Usb.Progress
import Stm32Ecm.Usb.PacketMemory
import Stm32Ecm.Usb.Descriptors
import Stm32Ecm.Usb.Control
import Stm32Ecm.Usb.Request
import Stm32Ecm.Usb.Transfer
import Stm32Ecm.Usb.ControlRuns
import Stm32Ecm.Dhcp.Server
import Stm32Ecm.Dhcp.Lease
import Stm32Ecm.Dhcp.History
import Stm32Ecm.Dhcp.Handshake
import Stm32Ecm.Dhcp.Options
import Stm32Ecm.Dhcp.RoundTrip
import Stm32Ecm.Dns.Server
import Stm32Ecm.Dns.Parser
import Stm32Ecm.Dns.Reply
import Stm32Ecm.Dns.Matching
import Stm32Ecm.Net.Pbuf
import Stm32Ecm.Net.Heap
import Stm32Ecm.Net.Client
import Stm32Ecm.Time.Timer
import Stm32Ecm.Time.Pass
import Stm32Ecm.Time.Traversal
import Stm32Ecm.Time.Sleep
import Stm32Ecm.Http.Cgi
import Stm32Ecm.Http.Ssi
import Stm32Ecm.Http.Expand
import Stm32Ecm.Http.Sending
import Stm32Ecm.Http.Connection

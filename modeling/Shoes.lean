import Shoes.Tuic.RoundTrip
import Shoes.Tuic.Connection
import Shoes.Hysteria2.Reassembly
import Shoes.Xudp.Reclaimed
import Shoes.Vless.PaddedWrites
import Shoes.Transport.MuxCoolStream
import Shoes.Kcptun.Pump
import Shoes.UdpStream.Writer
import Shoes.V2board.Recovery
import Shoes.V2board.UserRefresh
import Shoes.Reality.Camouflage
import Shoes.Transport.WriteHalf
import Shoes.Transport.SmuxBarriers
import Shoes.Transport.MuxCoolSession
import Shoes.Transport.SmuxDelivery
import Shoes.Transport.SmuxWindow
import Shoes.V2board.DeviceLimit
import Shoes.V2board.AliveReports
import Shoes.V2board.TrafficSnapshot
import Shoes.V2board.UserTables
import Shoes.Kcptun.FecRecovery
import Shoes.Outbound.DomainRules
import Shoes.Outbound.IpRules
import Shoes.Routing.Selector
import Shoes.Outbound.Dispatcher
import Shoes.Outbound.HotReload
import Shoes.Hysteria2.Gecko
import Shoes.AnyTls.ServerSession
import Shoes.Websocket.ControlFrames
import Shoes.Kcptun.BadDatagrams
import Shoes.V2board.XhttpUploads
import Shoes.Kcptun.Closing
import Shoes.Net.Texts
import Shoes.Vless.Addons
import Shoes.Xudp.Routed
import Shoes.Tcp.RateLimiter
import Shoes.Net.ResolverCache
import Shoes.Net.SlideStorage

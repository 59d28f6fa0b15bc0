import Obfs.Codec
import Obfs.Replies
import Obfs.Subscription
import Obfs.Tcp.Connection
import Obfs.Tcp.HandshakeIo
import Obfs.Tcp.LegacyFraming
import Obfs.Udp.Authentication
import Obfs.Udp.FloodDefence
import Obfs.Udp.PeerBudget
import Obfs.Udp.Eviction
import Obfs.Udp.Agreement
import Obfs.Udp.Nonces
import Obfs.Udp.Dispatch
import Obfs.Udp.ThirdMessage
import Obfs.Udp.Liveness
import Obfs.Udp.CookieExchange
import Obfs.Udp.ClientSchedule
import Obfs.Client.Correlation
import Obfs.Client.Junk
import Obfs.Client.Connect
import Obfs.Proxy.Negotiation
import Obfs.Proxy.HttpRequest
import Obfs.Tcp.EventDelivery
import Obfs.Udp.EventDelivery

import Obfs.Proxy.Socks5Wire

/-! Which answers of a SOCKS5 proxy the client takes for an agreement on a method,
and which of them are none. -/
namespace Obfs.Proxy
open Dialogue Framing

section
variable {C : Core} {auth : Option ProxyAuth} {x : Bytes}

end

end Obfs.Proxy

namespace Obfs.Symbolic
open Dialogue Framing Proxy

end Obfs.Symbolic

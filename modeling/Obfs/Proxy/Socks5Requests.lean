import Obfs.Proxy.Socks5Wire

/-! What the SOCKS5 client writes, whatever the proxy answers, and what a server
that follows RFC 1928 and RFC 1929 reads from it. -/
namespace Obfs.Proxy
open Dialogue Framing

inductive Socks5Message where
  | greeting
  | login
  | connect
  deriving DecidableEq

/-- What a server has understood of a message. -/
inductive Heard where
  | methods (offered : Bytes)
  | login (user pass : Bytes)
  | connect (dest : Dest)
  deriving DecidableEq

def hearGreeting : Dialogue UInt8 Unit Heard := do
  let hdr ← readExact 2
  if hdr.getD 0 0 ≠ 0x05 then fail ()
  else do
    let offered ← readExact (hdr.getD 1 0).toNat
    pure (.methods offered)

def hearLogin : Dialogue UInt8 Unit Heard := do
  let hdr ← readExact 2
  if hdr.getD 0 0 ≠ 0x01 then fail ()
  else do
    let user ← readExact (hdr.getD 1 0).toNat
    let plen ← readExact 1
    let pass ← readExact (plen.getD 0 0).toNat
    pure (.login user pass)

def hearHost (atyp : UInt8) : Dialogue UInt8 Unit Host :=
  if atyp = 0x01 then do
    let addr ← readExact 4
    pure (.v4 addr)
  else if atyp = 0x03 then do
    let len ← readExact 1
    let text ← readExact (len.getD 0 0).toNat
    pure (.name text)
  else if atyp = 0x04 then do
    let addr ← readExact 16
    pure (.v6 addr)
  else fail ()

def hearConnect : Dialogue UInt8 Unit Heard := do
  let hdr ← readExact 4
  if hdr.getD 0 0 ≠ 0x05 ∨ hdr.getD 1 0 ≠ 0x01 then fail ()
  else do
    let host ← hearHost (hdr.getD 3 0)
    let port ← readExact 2
    pure (.connect ⟨host, readPort port⟩)

def Socks5Message.hear : Socks5Message → Dialogue UInt8 Unit Heard
  | .greeting => hearGreeting
  | .login => hearLogin
  | .connect => hearConnect

structure Socks5Call where
  host : String
  port : UInt16
  auth : Option ProxyAuth

namespace Socks5Call
variable {C : Core} (c : Socks5Call)

def creds : ProxyAuth := c.auth.getD ⟨"", ""⟩

def said : Socks5Message → Bytes
  | .greeting => Proxy.greeting c.auth
  | .login => subNegotiation c.creds
  | .connect => connectRequest (utf8 c.host) c.port

def meant : Socks5Message → Heard
  | .greeting => .methods (methods c.auth)
  | .login => .login (utf8 c.creds.user) (utf8 c.creds.pass)
  | .connect => .connect ⟨.name (utf8 c.host), c.port⟩

theorem hear_connect (z : Bytes) (hh : (utf8 c.host).length ≤ 255) :
    Returns hearConnect (c.said .connect ++ z) [] (c.meant .connect) z := by
  have hx : c.said .connect ++ z = [0x05, 0x01, 0x00, 0x03] ++
      ([(utf8 c.host).length.toUInt8] ++ (utf8 c.host ++ (portBytes c.port ++ z))) := by
    simp [said, connectRequest]
  rw [hx]
  refine Returns.readExact rfl ?_
  refine returns_bind.mpr ⟨[], [], .name (utf8 c.host), portBytes c.port ++ z, rfl, ?_, ?_⟩
  · refine Returns.readExact rfl (Returns.readExact (toUInt8_toNat hh).symm ?_)
    exact returns_done.mpr ⟨rfl, rfl, rfl⟩
  · refine Returns.readExact rfl (returns_done.mpr ⟨?_, rfl, rfl⟩)
    rw [readPort_portBytes]
    rfl

def run : Stream C Unit := tunnelSocks5 c.host c.port c.auth

end Socks5Call

end Obfs.Proxy

namespace Obfs.Symbolic
open Dialogue Framing Proxy

def plainReply : List (Read UInt8 IoError 12) :=
  [.got ⟨[5, 0, 5, 0, 0, 1, 0, 0, 0, 0, 0, 0], by decide, by decide⟩, .eof]

end Obfs.Symbolic

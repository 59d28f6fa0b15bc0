import Obfs.Proxy.Address

/-! The SOCKS5 client of proxy/socks5.rs, a proxy that answers it as RFC 1928 and
RFC 1929 allow, and the two against each other. -/
namespace Obfs.Proxy
open Dialogue

def portBytes (port : UInt16) : Bytes := [(port >>> 8).toUInt8, (port &&& 0xFF).toUInt8]

def readPort : Bytes → UInt16
  | hi :: lo :: _ => UInt16.ofNat (hi.toNat * 256 + lo.toNat)
  | _ => 0

theorem readPort_portBytes (port : UInt16) : readPort (portBytes port) = port := by
  have hlt := port.toNat_lt
  have hhi : (port >>> 8).toUInt8.toNat = port.toNat / 256 := by
    simp [Nat.shiftRight_eq_div_pow]
    omega
  have hlo : (port &&& 0xFF).toUInt8.toNat = port.toNat % 256 := by
    have hmask : port.toNat &&& 255 = port.toNat % 256 := by
      simpa using Nat.and_two_pow_sub_one_eq_mod port.toNat 8
    rw [UInt16.toNat_toUInt8, UInt16.toNat_and]
    show (port.toNat &&& 255) % 256 = _
    rw [hmask, Nat.mod_mod]
  rw [portBytes, readPort, hhi, hlo, Nat.div_add_mod', UInt16.ofNat_toNat]

section
variable {C : Core}

/-- The methods offered: none always, user and password with credentials. -/
def methods (auth : Option ProxyAuth) : Bytes :=
  if auth.isSome then [0x00, 0x02] else [0x00]

def greeting (auth : Option ProxyAuth) : Bytes :=
  [0x05, (methods auth).length.toUInt8] ++ methods auth

def methodSelected (methodReply : Bytes) : Stream C UInt8 :=
  if methodReply.getD 0 0 ≠ 0x05 then fail (ioErr "SOCKS5: invalid greeting reply version")
  else if methodReply.getD 1 0 = 0xFF then
    fail (ioErr "SOCKS5: no acceptable authentication method")
  else pure (methodReply.getD 1 0)

def subNegotiation (creds : ProxyAuth) : Bytes :=
  [0x01, (utf8 creds.user).length.toUInt8] ++ utf8 creds.user ++
    [(utf8 creds.pass).length.toUInt8] ++ utf8 creds.pass

def admitted (authReply : Bytes) : Stream C Unit :=
  if authReply.getD 1 0 ≠ 0x00 then fail (ioErr "SOCKS5: authentication failed")
  else pure ()

def authenticate : Option ProxyAuth → Stream C Unit
  | none => fail (ioErr "SOCKS5: server requires auth but none provided")
  | some creds =>
    if (utf8 creds.user).length > 255 ∨ (utf8 creds.pass).length > 255 then
      fail (ioErr "SOCKS5: username or password too long")
    else do
      writeAll (subNegotiation creds)
      let authReply ← readExact 2
      admitted authReply

def connectRequest (host : Bytes) (port : UInt16) : Bytes :=
  [0x05, 0x01, 0x00, 0x03, host.length.toUInt8] ++ host ++ portBytes port

def replyText : UInt8 → String
  | 0x01 => "general SOCKS server failure"
  | 0x02 => "connection not allowed by ruleset"
  | 0x03 => "network unreachable"
  | 0x04 => "host unreachable"
  | 0x05 => "connection refused"
  | 0x06 => "TTL expired"
  | 0x07 => "command not supported"
  | 0x08 => "address type not supported"
  | _ => "unknown error"

/-- Read and discard the bound address and port of a reply. -/
def consumeBndAddr (atyp : UInt8) : Stream C Unit :=
  if atyp = 0x01 then do
    let _ ← readExact 6
  else if atyp = 0x03 then do
    let lenBuf ← readExact 1
    let _ ← readExact ((lenBuf.getD 0 0).toNat + 2)
  else if atyp = 0x04 then do
    let _ ← readExact 18
  else fail (ioErr "SOCKS5: unknown address type in reply")

def connected (replyHdr : Bytes) : Stream C Unit :=
  if replyHdr.getD 0 0 ≠ 0x05 then fail (ioErr "SOCKS5: invalid reply version")
  else if replyHdr.getD 1 0 ≠ 0x00 then
    fail (ioErr ("SOCKS5: CONNECT failed: " ++ replyText (replyHdr.getD 1 0)))
  else consumeBndAddr (replyHdr.getD 3 0)

def requestConnect (host : Bytes) (port : UInt16) : Stream C Unit :=
  if host.length > 255 then fail (ioErr "SOCKS5: target hostname too long")
  else do
    writeAll (connectRequest host port)
    let replyHdr ← readExact 4
    connected replyHdr

def tunnelSocks5 (targetHost : String) (targetPort : UInt16) (auth : Option ProxyAuth) :
    Stream C Unit := do
  writeAll (greeting auth)
  let methodReply ← readExact 2
  let selected ← methodSelected methodReply
  if selected = 0x02 then authenticate auth else pure ()
  requestConnect (utf8 targetHost) targetPort

end

inductive Bound where
  | v4 (addr : Arr 4) (port : UInt16)
  | name (text : Bytes) (short : text.length ≤ 255) (port : UInt16)
  | v6 (addr : Arr 16) (port : UInt16)

def Bound.bytes : Bound → Bytes
  | .v4 addr port => 0x01 :: addr.val ++ portBytes port
  | .name text _ port => 0x03 :: text.length.toUInt8 :: text ++ portBytes port
  | .v6 addr port => 0x04 :: addr.val ++ portBytes port

inductive Socks5Outcome where
  | opened (bnd : Bound)
  | refused (rep : UInt8) (failure : rep ≠ 0) (bnd : Bound)

/-- What an honest SOCKS5 proxy is free to choose: a method among those offered
or none, whom it admits, the status of a refusal, and how a request ends. -/
structure Socks5Proxy where
  method : Bytes → UInt8
  method_offered : ∀ offered, method offered ∈ offered ∨ method offered = 0xFF
  admits : Bytes → Bytes → Bool
  denial : UInt8
  denial_ne : denial ≠ 0
  outcome : Dest → Socks5Outcome

def greetingRead : Bytes → Bool
  | _ :: n :: ms => n.toNat ≤ ms.length
  | _ => false

def subNegotiationRead : Bytes → Bool
  | _ :: n :: rest =>
    match rest.drop n.toNat with
    | m :: pass => m.toNat ≤ pass.length
    | [] => false
  | _ => false

def requestRead : Bytes → Bool
  | _ :: _ :: _ :: atyp :: rest =>
    if atyp = 0x01 then 6 ≤ rest.length
    else if atyp = 0x03 then
      match rest with
      | n :: more => n.toNat + 2 ≤ more.length
      | [] => false
    else if atyp = 0x04 then 18 ≤ rest.length
    else true
  | _ => false

def credentials : Bytes → Bytes × Bytes
  | _ :: n :: rest => (rest.take n.toNat, (rest.drop n.toNat).drop 1)
  | _ => ([], [])

def requested : Bytes → Option Dest
  | ver :: cmd :: _ :: atyp :: rest =>
    if ver = 0x05 ∧ cmd = 0x01 then
      if atyp = 0x01 then some ⟨.v4 (rest.take 4), readPort (rest.drop 4)⟩
      else if atyp = 0x03 then
        match rest with
        | n :: more => some ⟨.name (more.take n.toNat), readPort (more.drop n.toNat)⟩
        | [] => none
      else if atyp = 0x04 then some ⟨.v6 (rest.take 16), readPort (rest.drop 16)⟩
      else none
    else none
  | _ => none

namespace Socks5Proxy
variable (srv : Socks5Proxy)

def awaitRequest : Party :=
  .recv requestRead fun req =>
    match requested req with
    | none => .hangup
    | some dest =>
      match srv.outcome dest with
      | .opened bnd => .accept dest ([0x05, 0x00, 0x00] ++ bnd.bytes)
      | .refused rep _ bnd => .send ([0x05, rep, 0x00] ++ bnd.bytes) .hangup

def awaitCredentials : Party :=
  .recv subNegotiationRead fun sub =>
    if srv.admits (credentials sub).1 (credentials sub).2 then
      .send [0x01, 0x00] srv.awaitRequest
    else .send [0x01, srv.denial] .hangup

def serve : Party :=
  .recv greetingRead fun hello =>
    if hello.head? = some 0x05 then
      .send [0x05, srv.method (hello.drop 2)]
        (if srv.method (hello.drop 2) = 0x00 then srv.awaitRequest
        else if srv.method (hello.drop 2) = 0x02 then srv.awaitCredentials
        else .hangup)
    else .hangup

end Socks5Proxy

theorem toUInt8_toNat {n : Nat} (h : n ≤ 255) : n.toUInt8.toNat = n := by
  rw [Nat.toUInt8, UInt8.toNat_ofNat']
  omega

theorem mem_methods {auth : Option ProxyAuth} {m : UInt8} (h : m ∈ methods auth) :
    m = 0x00 ∨ m = 0x02 := by
  unfold methods at h
  split at h
  · simpa using h
  · exact .inl (by simpa using h)

theorem cut_greeting (auth : Option ProxyAuth) :
    cut greetingRead [] (greeting auth) = some (greeting auth, []) := by
  cases auth with
  | none => rfl
  | some creds => rfl

theorem cut_connectRequest {host : Bytes} {port : UInt16} (hh : host.length ≤ 255) :
    cut requestRead [] (connectRequest host port) = some (connectRequest host port, []) := by
  refine cut_message [] ?_ ?_
  · simp [requestRead, connectRequest, toUInt8_toNat hh, portBytes]
  · intro a b hab hb
    have hlen : 0 < b.length := List.length_pos_iff.mpr hb
    match a, hab with
    | [], _ | [_], _ | [_, _], _ | [_, _, _], _ => rfl
    | [x0, x1, x2, x3], hab =>
      simp [connectRequest] at hab
      simp [requestRead, ← hab.2.2.2.1]
    | x0 :: x1 :: x2 :: x3 :: n :: more, hab =>
      simp only [connectRequest, List.cons_append, List.nil_append, List.cons.injEq] at hab
      obtain ⟨-, -, -, rfl, rfl, hmore⟩ := hab
      have := congrArg List.length hmore
      simp [portBytes] at this
      simp [requestRead, toUInt8_toNat hh]
      omega

theorem requested_connectRequest {host : Bytes} {port : UInt16} (hh : host.length ≤ 255) :
    requested (connectRequest host port) = some ⟨.name host, port⟩ := by
  simp [requested, connectRequest, toUInt8_toNat hh, readPort_portBytes]

theorem cut_subNegotiation {creds : ProxyAuth} (hu : (utf8 creds.user).length ≤ 255)
    (hp : (utf8 creds.pass).length ≤ 255) :
    cut subNegotiationRead [] (subNegotiation creds) = some (subNegotiation creds, []) := by
  refine cut_message [] ?_ ?_
  · simp [subNegotiationRead, subNegotiation, toUInt8_toNat hu, toUInt8_toNat hp]
  · intro a b hab hb
    have hlen : 0 < b.length := List.length_pos_iff.mpr hb
    match a, hab with
    | [], _ | [_], _ => rfl
    | x :: n :: rest, hab =>
      simp only [subNegotiation, List.cons_append, List.nil_append, List.append_assoc,
        List.cons.injEq] at hab
      obtain ⟨-, rfl, hrest⟩ := hab
      simp only [subNegotiationRead, List.nil_append, toUInt8_toNat hu]
      obtain ⟨c, hc, -⟩ | ⟨c, hc, hpass⟩ := List.append_eq_append_iff.mp hrest.symm
      · rw [List.drop_eq_nil_of_le (by simp [hc])]
      · rw [hc, List.drop_left]
        cases c with
        | nil => rfl
        | cons m pass =>
          obtain ⟨rfl, hpass⟩ := List.cons.inj hpass
          have := congrArg List.length hpass
          simp at this
          simp [toUInt8_toNat hp]
          omega

section
variable {C : Core} {want : Dest → Prop} {words : Bytes → Prop} {srv : Socks5Proxy}

theorem consumeBndAddr_takes (bnd : Bound) :
    ∃ atyp rest, bnd.bytes = atyp :: rest ∧
      Takes (consumeBndAddr atyp : Stream C Unit) rest (done ()) := by
  cases bnd with
  | v4 addr port =>
    refine ⟨0x01, addr.val ++ portBytes port, rfl, ?_⟩
    rw [← List.append_nil (addr.val ++ _)]
    exact .read (by simp [addr.property, portBytes]) (.refl _)
  | name text short port =>
    refine ⟨0x03, text.length.toUInt8 :: text ++ portBytes port, rfl, ?_⟩
    rw [← List.append_nil (text.length.toUInt8 :: text ++ _)]
    refine .read (x := [text.length.toUInt8]) rfl (.read ?_ (.refl _))
    simp [toUInt8_toNat short, portBytes]
  | v6 addr port =>
    refine ⟨0x04, addr.val ++ portBytes port, rfl, ?_⟩
    rw [← List.append_nil (addr.val ++ _)]
    exact .read (by simp [addr.property, portBytes]) (.refl _)

theorem settle_awaitRequest : settle srv.awaitRequest [] = ⟨srv.awaitRequest, [], []⟩ := rfl

theorem settle_serve : settle srv.serve [] = ⟨srv.serve, [], []⟩ := rfl

theorem requestConnect_meets {host : Bytes} {port : UInt16} (hw : want ⟨.name host, port⟩)
    (hs : words (connectRequest host port)) :
    Meets want words (requestConnect host port : Stream C Unit) srv.awaitRequest [] [] := by
  unfold requestConnect
  split
  · trivial
  · rename_i hh
    refine ⟨Peer.recv_ne_accept _ _, hs, ?_⟩
    rw [Socks5Proxy.awaitRequest, List.nil_append, settle,
      cut_connectRequest (Nat.le_of_not_lt hh)]
    simp only [requested_connectRequest (Nat.le_of_not_lt hh)]
    show Meets want words (read 4 fun hdr => (connected hdr : Stream C Unit)) _ _ _
    cases srv.outcome ⟨.name host, port⟩ with
    | opened bnd =>
      obtain ⟨atyp, rest, hb, ht⟩ := consumeBndAddr_takes (C := C) bnd
      have htake : Takes (read 4 fun hdr => (connected hdr : Stream C Unit))
          ([0x05, 0x00, 0x00, atyp] ++ rest) (done ()) := .read rfl ht
      refine Drains.meets ?_ hw (by simp)
      have hd := htake.drains (w := []) rfl
      simpa [settle, hb] using hd
    | refused rep failure bnd =>
      obtain ⟨atyp, rest, hb, -⟩ := consumeBndAddr_takes (C := C) bnd
      have hfail : connected [0x05, rep, 0x00, atyp] =
          (fail (ioErr ("SOCKS5: CONNECT failed: " ++ replyText rep)) : Stream C Unit) := by
        simp [connected, failure]
      have hm : Meets want words (read 4 fun hdr => (connected hdr : Stream C Unit)) .hangup []
          ([0x05, rep, 0x00, atyp] ++ rest) :=
        meets_read rfl Peer.hangup_ne_accept (by rw [hfail]; trivial)
      simpa [settle, hb] using hm

theorem authenticate_meets {auth : Option ProxyAuth} {host : Bytes} {port : UInt16}
    (hw : want ⟨.name host, port⟩) (hs : words (connectRequest host port))
    (hc : ∀ creds, auth = some creds → words (subNegotiation creds)) :
    Meets want words
      ((authenticate auth).bind fun _ => (requestConnect host port : Stream C Unit))
      srv.awaitCredentials [] [] := by
  cases auth with
  | none => trivial
  | some creds =>
    rw [authenticate]
    split
    · trivial
    · rename_i hlen
      refine ⟨Peer.recv_ne_accept _ _, hc creds rfl, ?_⟩
      rw [Socks5Proxy.awaitCredentials, List.nil_append, settle,
        cut_subNegotiation (by omega) (by omega)]
      show Meets want words (read 2 fun reply =>
        ((admitted reply : Stream C Unit).bind fun _ => requestConnect host port)) _ _ _
      by_cases ha : srv.admits (credentials (subNegotiation creds)).1
          (credentials (subNegotiation creds)).2
      · simp only [ha, if_true, settle, settle_awaitRequest]
        exact meets_read (y := [0x01, 0x00]) rfl (Peer.recv_ne_accept _ _)
          (requestConnect_meets hw hs)
      · have hfail : admitted [0x01, srv.denial] =
            (fail (ioErr "SOCKS5: authentication failed") : Stream C Unit) := by
          simp [admitted, srv.denial_ne]
        simp only [ha]
        exact meets_read (y := [0x01, srv.denial]) rfl Peer.hangup_ne_accept
          (by rw [hfail]; trivial)

def Socks5Words (auth : Option ProxyAuth) (host : Bytes) (port : UInt16) (bytes : Bytes) : Prop :=
  bytes = greeting auth ∨ (∃ creds, auth = some creds ∧ bytes = subNegotiation creds) ∨
    bytes = connectRequest host port

/- The program without its do notation. -/
theorem tunnelSocks5_eq (host : String) (port : UInt16) (auth : Option ProxyAuth) :
    (tunnelSocks5 host port auth : Stream C Unit) =
      (writeAll (greeting auth)).bind fun _ => (Dialogue.readExact 2).bind fun reply =>
        (methodSelected reply).bind fun m =>
          if m = 0x02 then (authenticate auth).bind fun _ => requestConnect (utf8 host) port
          else requestConnect (utf8 host) port := rfl

/-- The SOCKS5 client against an honest proxy: it ends just when the proxy has
opened what it was asked for, having read just the proxy's bytes. -/
theorem tunnelSocks5_fits {host : String} {port : UInt16} {auth : Option ProxyAuth}
    (hw : want ⟨.name (utf8 host), port⟩) :
    Fits want (Socks5Words auth (utf8 host) port) (tunnelSocks5 host port auth : Stream C Unit)
      srv.serve := by
  have hreq : Meets want (Socks5Words auth (utf8 host) port)
      (requestConnect (utf8 host) port : Stream C Unit) srv.awaitRequest [] [] :=
    requestConnect_meets hw (.inr (.inr rfl))
  have hauth : Meets want (Socks5Words auth (utf8 host) port)
      ((authenticate auth).bind fun _ => (requestConnect (utf8 host) port : Stream C Unit))
      srv.awaitCredentials [] [] :=
    authenticate_meets hw (.inr (.inr rfl)) fun creds hc => .inr (.inl ⟨creds, hc, rfl⟩)
  rw [Fits, settle_serve, tunnelSocks5_eq]
  refine ⟨Peer.recv_ne_accept _ _, .inl rfl, ?_⟩
  have hoffer : (greeting auth).drop 2 = methods auth := rfl
  have hver : (greeting auth).head? = some 0x05 := rfl
  rw [Socks5Proxy.serve, List.nil_append, settle, cut_greeting]
  simp only [hver, hoffer, if_true, settle]
  -- an honest proxy selects one of the two methods the client knows, or refuses
  obtain hm | hm | hm : srv.method (methods auth) = 0x00 ∨ srv.method (methods auth) = 0x02 ∨
      srv.method (methods auth) = 0xFF := by
    obtain hm | hm := srv.method_offered (methods auth)
    · obtain hm | hm := mem_methods hm
      · exact .inl hm
      · exact .inr (.inl hm)
    · exact .inr (.inr hm)
  · rw [hm]
    exact meets_read (y := [0x05, 0x00]) rfl (Peer.recv_ne_accept _ _) hreq
  · rw [hm]
    exact meets_read (y := [0x05, 0x02]) rfl (Peer.recv_ne_accept _ _) hauth
  · rw [hm]
    exact meets_read (y := [0x05, 0xFF]) rfl Peer.hangup_ne_accept trivial
end

end Obfs.Proxy

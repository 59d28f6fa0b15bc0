import Mathlib.Algebra.Group.Nat.Defs
import Obfs.Proxy.Dial
import Obfs.Proxy.Socks5Requests

/-! The target of ObfsTransport::connect through proxies: the socket address is
printed, split again at its last colon, and handed to the hops as text. -/
namespace Obfs
open Proxy Dialogue Framing

namespace SocketAddr

def port : SocketAddr → UInt16
  | .v4 _ _ _ _ port => port
  | .v6 _ _ _ _ _ _ _ _ port _ _ => port

def ipText : SocketAddr → String
  | .v4 a b c d _ => ipv4Text a b c d
  | .v6 s0 s1 s2 s3 s4 s5 s6 s7 _ _ _ => ipv6Text [s0, s1, s2, s3, s4, s5, s6, s7]

def isIpv4 : SocketAddr → Bool
  | .v4 .. => true
  | .v6 .. => false

/- What the Display form has in front of the port. -/
def hostText : SocketAddr → String
  | .v4 a b c d _ => ipv4Text a b c d
  | .v6 s0 s1 s2 s3 s4 s5 s6 s7 _ _ scopeId =>
    let ip := ipv6Text [s0, s1, s2, s3, s4, s5, s6, s7]
    if scopeId = 0 then "[" ++ ip ++ "]" else "[" ++ ip ++ "%" ++ decimal scopeId.toNat ++ "]"

theorem toText_eq (a : SocketAddr) : a.toText = hostPort a.hostText a.port := by
  have hclose : "]:" = "]" ++ ":" := rfl
  cases a with
  | v4 a b c d port => rfl
  | v6 s0 s1 s2 s3 s4 s5 s6 s7 port flowinfo scopeId =>
    simp only [toText, hostText, hostPort, SocketAddr.port]
    split
    · simp only [hclose, String.append_assoc]
    · simp only [hclose, String.append_assoc]

end SocketAddr

theorem length_decimal {n k : Nat} (hk : 0 < k) (h : n < 10 ^ k) : (decimal n).length ≤ k := by
  rw [← String.length_toList, decimal_toList]
  exact (Nat.length_toDigits_le_iff (by decide) hk).mpr h

theorem length_segmentsText (xs : List UInt16) : (segmentsText xs).length ≤ 5 * xs.length := by
  have hhex : ∀ x : UInt16, (lowerHex x.toNat).length ≤ 4 := by
    intro x
    rw [lowerHex, String.length_ofList]
    exact (Nat.length_toDigits_le_iff (by decide) (by decide)).mpr x.toNat_lt
  unfold segmentsText
  induction xs with
  | nil => simp
  | cons x xs ih =>
    have hx := hhex x
    cases xs with
    | nil =>
      rw [List.map_cons, List.map_nil, String.intercalate_singleton, List.length_singleton]
      omega
    | cons y ys =>
      rw [List.map_cons, List.map_cons, String.intercalate_cons_cons]
      rw [List.map_cons] at ih
      have hcolon : (":" : String).length = 1 := rfl
      simp only [String.length_append, List.length_cons] at ih ⊢
      omega

theorem length_ipv4Text (a b c d : UInt8) : (ipv4Text a b c d).length ≤ 15 := by
  have hbyte : ∀ x : UInt8, (decimal x.toNat).length ≤ 3 := by
    intro x
    have := x.toNat_lt
    exact length_decimal (by decide) (by omega)
  have ha := hbyte a
  have hb := hbyte b
  have hc := hbyte c
  have hd := hbyte d
  have hdot : ("." : String).length = 1 := rfl
  simp only [ipv4Text, String.length_append]
  omega

theorem length_ipv6Text (segments : List UInt16) (h : segments.length = 8) :
    (ipv6Text segments).length ≤ 42 := by
  unfold ipv6Text
  split
  · rename_i hi lo
    have h4 := length_ipv4Text (hi.toNat / 256).toUInt8 (hi.toNat % 256).toUInt8
      (lo.toNat / 256).toUInt8 (lo.toNat % 256).toUInt8
    have hmapped : ("::ffff:" : String).length = 7 := rfl
    rw [String.length_append]
    omega
  · simp only
    generalize zeroRun 0 0 0 0 0 segments = z
    split
    · have h1 := length_segmentsText (segments.take z.1)
      have h2 := length_segmentsText (segments.drop (z.1 + z.2))
      have hcolons : ("::" : String).length = 2 := rfl
      simp only [String.length_append, List.length_take, List.length_drop] at h1 h2 ⊢
      omega
    · have := length_segmentsText segments
      omega

theorem length_utf8_le (s : String) : (utf8 s).length ≤ 4 * s.length := by
  rw [utf8, ← String.length_toList]
  induction s.toList with
  | nil => rfl
  | cons c cs ih =>
    have hc := c.utf8Size_le_four
    rw [List.flatMap_cons, List.length_append, String.length_utf8EncodeChar, List.length_cons]
    omega

theorem length_hostText (a : SocketAddr) : (utf8 a.hostText).length ≤ 255 := by
  refine (length_utf8_le a.hostText).trans ?_
  cases a with
  | v4 a b c d port =>
    have := length_ipv4Text a b c d
    rw [SocketAddr.hostText]
    omega
  | v6 s0 s1 s2 s3 s4 s5 s6 s7 port flowinfo scopeId =>
    have hip := length_ipv6Text [s0, s1, s2, s3, s4, s5, s6, s7] rfl
    have hscope : (decimal scopeId.toNat).length ≤ 10 := by
      have := scopeId.toNat_lt
      exact length_decimal (by decide) (by omega)
    have hopen : ("[" : String).length = 1 := rfl
    have hclose : ("]" : String).length = 1 := rfl
    have hpercent : ("%" : String).length = 1 := rfl
    simp only [SocketAddr.hostText]
    split
    · simp only [String.length_append]
      omega
    · simp only [String.length_append]
      omega

theorem hostText_eq_ipText {a : SocketAddr} : a.hostText = a.ipText ↔ a.isIpv4 = true := by
  cases a with
  | v4 a b c d port => exact iff_of_true rfl rfl
  | v6 s0 s1 s2 s3 s4 s5 s6 s7 port flowinfo scopeId =>
    refine iff_of_false ?_ Bool.false_ne_true
    intro h
    have hlen := congrArg String.length h
    have hopen : ("[" : String).length = 1 := rfl
    simp only [SocketAddr.hostText, SocketAddr.ipText] at hlen
    split at hlen
    · simp only [String.length_append] at hlen
      omega
    · simp only [String.length_append] at hlen
      omega

theorem parseAddr_hostPort {C : Core} (host : String) (port : UInt16) :
    parseAddr (hostPort host port) = (.ok (host, port) : Except (ObfsError C) _) := by
  have hcolon : ':' ∉ (decimal port.toNat).toList := by
    intro hm
    exact absurd (toNat_of_isDigit (isDigit_decimal hm)).2 (by decide)
  have hlist : (hostPort host port).toList = host.toList ++ ':' :: (decimal port.toNat).toList := by
    simp [hostPort, String.toList_append]
  rw [parseAddr, hlist, Text.splitLast_append _ hcolon]
  simp only
  rw [parseU16_decimal port.toNat_lt]
  simp

namespace Client
variable {C : Core}

/-- ObfsTransport::connect with a proxy, up to the handshake. -/
def connectProxied (net : Network) (proxy : ProxyConfig) (addr : SocketAddr) :
    Except (ObfsError C) (DialState C) :=
  match parseAddr addr.toText with
  | .error e => .error e
  | .ok (host, port) => dial net proxy host port

theorem connectProxied_ok {net : Network} {proxy : ProxyConfig} {addr : SocketAddr}
    {s : DialState C} (h : connectProxied net proxy addr = .ok s) :
    ∃ first, s = .start (tunnels proxy.hops (addr.hostText, addr.port)) first := by
  rw [connectProxied, addr.toText_eq, parseAddr_hostPort] at h
  simp only [dial] at h
  split at h
  · cases h
  · rename_i first hf
    cases h
    exact ⟨first, rfl⟩

theorem tunnels_getLast {hops : List Hop} {last : Hop} (h : hops.getLast? = some last)
    (host : String) (port : UInt16) :
    (tunnels hops (host, port) : List (Stream C Unit)).getLast? = some (last.tunnel host port) := by
  rw [List.getLast?_eq_getElem?] at h
  rw [List.getLast?_eq_getElem?, tunnels, List.length_mapIdx, List.getElem?_mapIdx, h,
    Option.map_some]
  have hnone : hops[hops.length - 1 + 1]? = none := List.getElem?_eq_none_iff.mpr (by omega)
  rw [tunnelHop, nextAddr, hnone]
  rfl

/-- Once the last hop, a SOCKS5 proxy, has got the client to its request, the
last message is a request for the port of the socket address and for some text as
its host; this is the plain text of the IP address just when it is an IPv4 one. -/
theorem socks5_socket_addr_iff {net : Network} {proxy : ProxyConfig} (addr : SocketAddr)
    {last : Hop} (hlast : proxy.hops.getLast? = some last) (hkind : last.kind = .socks5)
    {s : DialState C} (hs : connectProxied net proxy addr = .ok s) :
    ∃ stages first t, s = .start stages first ∧ stages.getLast? = some t ∧
      ∀ (cap : Nat) (reads : List (Read UInt8 IoError cap)), drops reads = 0 →
        Proceeds last.auth (incoming reads) →
        ∃ w req host, (runOn t reads).written = w ++ [req] ∧
          Returns hearConnect req [] (.connect ⟨.name (utf8 host), addr.port⟩) [] ∧
          (host = addr.ipText ↔ addr.isIpv4 = true) := by
  obtain ⟨first, rfl⟩ := connectProxied_ok hs
  refine ⟨_, first, last.tunnel addr.hostText addr.port, rfl, tunnels_getLast hlast _ _, ?_⟩
  intro cap reads hd hp
  have htunnel : (last.tunnel addr.hostText addr.port : Stream C Unit) =
      tunnelSocks5 addr.hostText addr.port last.auth := by
    rw [Hop.tunnel, hkind]
  obtain ⟨w, hw⟩ := hp.request_written (C := C) (length_hostText addr) addr.port
  refine ⟨w, connectRequest (utf8 addr.hostText) addr.port, addr.hostText, ?_, ?_,
    hostText_eq_ipText⟩
  · rw [htunnel, (converse_eq _ _ _ reads hd).1, hw]
  · have hear := Socks5Call.hear_connect ⟨addr.hostText, addr.port, last.auth⟩ []
      (length_hostText addr)
    rwa [List.append_nil] at hear

end Client
end Obfs

namespace Obfs.Symbolic
open Dialogue Framing Proxy Client

def soloCfg : ProxyConfig := ⟨.socks5, "a:1", none, []⟩

/- The host of an IPv6 address keeps its brackets. -/
theorem bracketed_host_sent :
    connectProxied chainNet soloCfg (.v6 0x2001 0xdb8 0 0 0 0 0 1 443 0 0) =
      (.ok (.start [tunnelSocks5 "[2001:db8::1]" 443 none] strictProxy.serve) :
        Except (ObfsError core) (DialState core)) ∧
    (runOn (tunnelSocks5 "[2001:db8::1]" 443 none : Stream core Unit) plainReply).written =
      [greeting none, connectRequest (utf8 "[2001:db8::1]") 443] ∧
    (SocketAddr.v6 0x2001 0xdb8 0 0 0 0 0 1 443 0 0).ipText = "2001:db8::1" := by
  refine ⟨?_, rfl, by decide⟩
  rw [connectProxied, SocketAddr.toText_eq, parseAddr_hostPort]
  rfl

theorem socks5_socket_addr_iff_v4 :
    ∃ (s : DialState core) (stages : List (Stream core Unit)) (first : Party)
      (t : Stream core Unit) (w : List Bytes) (req : Bytes),
      connectProxied chainNet soloCfg (.v4 203 0 113 7 443) = .ok s ∧ s = .start stages first ∧
      stages.getLast? = some t ∧ drops plainReply = 0 ∧ (runOn t plainReply).written = w ++ [req] ∧
      Returns hearConnect req [] (.connect ⟨.name (utf8 "203.0.113.7"), 443⟩) [] := by
  have hs : connectProxied chainNet soloCfg (.v4 203 0 113 7 443) =
      (.ok (.start (tunnels soloCfg.hops ("203.0.113.7", 443)) strictProxy.serve) :
        Except (ObfsError core) (DialState core)) := by
    rw [connectProxied, SocketAddr.toText_eq, parseAddr_hostPort]
    rfl
  have hp : Proceeds none (incoming plainReply) :=
    ⟨0x00, [], _, .plain (by decide) (by decide), rfl⟩
  have hlast : soloCfg.hops.getLast? = some ⟨.socks5, "a:1", none⟩ := rfl
  obtain ⟨stages, first, t, hstart, ht, hrun⟩ :=
    socks5_socket_addr_iff (.v4 203 0 113 7 443) hlast rfl hs
  obtain ⟨w, req, host, hw, hreq, hiff⟩ := hrun _ plainReply rfl hp
  rw [hiff.mpr rfl] at hreq
  exact ⟨_, stages, first, t, w, req, hs, hstart, ht, rfl, hw, hreq⟩

end Obfs.Symbolic

import Obfs.Proxy.Socks5
import Obfs.Symbolic

/-! The bytes of the SOCKS5 dialogue, whatever the proxy sends: how much of its
stream the client takes before it returns, and what a server reads from the
client's messages. -/
namespace Obfs.Proxy
open Dialogue Framing
variable {C : Core}

/-- A bound address and port as the address type lays them out. -/
inductive BndBytes : UInt8 → Bytes → Prop where
  | v4 {b : Bytes} (h : b.length = 4 + 2) : BndBytes 0x01 b
  | name {n : UInt8} {b : Bytes} (h : b.length = n.toNat + 2) : BndBytes 0x03 (n :: b)
  | v6 {b : Bytes} (h : b.length = 16 + 2) : BndBytes 0x04 b

def ShortCreds (creds : ProxyAuth) : Prop :=
  (utf8 creds.user).length ≤ 255 ∧ (utf8 creds.pass).length ≤ 255

/-- The proxy's answer to the credentials with which the client goes on: none is
awaited unless the selected method asks for them. -/
inductive LoggedIn (auth : Option ProxyAuth) : UInt8 → Bytes → Prop where
  | plain {m : UInt8} (hm : m ≠ 0x02) (ho : m ≠ 0xFF) : LoggedIn auth m []
  | login {creds : ProxyAuth} {v : UInt8} (hc : auth = some creds) (hs : ShortCreds creds) :
      LoggedIn auth 0x02 [v, 0x00]

def Proceeds (auth : Option ProxyAuth) (x : Bytes) : Prop :=
  ∃ m a z, LoggedIn auth m a ∧ x = [0x05, m] ++ a ++ z

def loginMessage (m : UInt8) (auth : Option ProxyAuth) : List Bytes :=
  if m = 0x02 then (auth.map subNegotiation).toList else []

section Parts
variable {x rest : Bytes} {w : List Bytes}

theorem authenticate_returns {auth : Option ProxyAuth} :
    Returns (authenticate auth : Stream C Unit) x w () rest ↔
      ∃ creds v, auth = some creds ∧ ShortCreds creds ∧ w = [subNegotiation creds] ∧
        x = [v, 0x00] ++ rest := by
  cases auth with
  | none =>
    refine iff_of_false returns_fail ?_
    rintro ⟨_, _, h, -⟩
    cases h
  | some creds =>
    rw [authenticate]
    split
    · rename_i h
      refine iff_of_false returns_fail ?_
      rintro ⟨_, _, hc, hs, -⟩
      cases hc
      obtain ⟨hu, hp⟩ := hs
      omega
    · rename_i hlen
      refine returns_writeAll.trans ⟨?_, ?_⟩
      · rintro ⟨w', rfl, hr⟩
        obtain ⟨reply, z, rfl, hl, hr⟩ := returns_readExact.mp hr
        obtain ⟨v, s, rfl⟩ := List.length_eq_two.mp hl
        unfold admitted at hr
        split at hr
        · exact absurd hr returns_fail
        · rename_i hs
          obtain ⟨-, rfl, rfl⟩ := returns_done.mp hr
          cases not_not.mp hs
          exact ⟨creds, v, rfl, ⟨by omega, by omega⟩, rfl, rfl⟩
      · rintro ⟨creds', v, hc, -, rfl, rfl⟩
        cases hc
        exact ⟨[], rfl, returns_readExact.mpr
          ⟨[v, 0x00], rest, rfl, rfl, returns_done.mpr ⟨rfl, rfl, rfl⟩⟩⟩

theorem methodSelected_returns {v s m : UInt8} :
    Returns (methodSelected [v, s] : Stream C UInt8) x w m rest ↔
      v = 0x05 ∧ s = m ∧ m ≠ 0xFF ∧ w = [] ∧ rest = x := by
  unfold methodSelected
  split
  · rename_i h
    exact iff_of_false returns_fail fun h' => h h'.1
  · rename_i h0
    split
    · rename_i h1
      refine iff_of_false returns_fail ?_
      rintro ⟨-, rfl, hm, -⟩
      exact hm h1
    · rename_i h1
      refine returns_done.trans ⟨?_, ?_⟩
      · rintro ⟨rfl, rfl, rfl⟩
        exact ⟨not_not.mp h0, rfl, h1, rfl, rfl⟩
      · rintro ⟨-, rfl, -, rfl, rfl⟩
        exact ⟨rfl, rfl, rfl⟩

def negotiate (auth : Option ProxyAuth) : Stream C Unit :=
  (writeAll (greeting auth)).bind fun _ => (Dialogue.readExact 2).bind fun reply =>
    (methodSelected reply).bind fun m => if m = 0x02 then authenticate auth else done ()

theorem tunnelSocks5_negotiate (host : String) (port : UInt16) (auth : Option ProxyAuth) :
    (tunnelSocks5 host port auth : Stream C Unit) =
      (negotiate auth).bind fun _ => requestConnect (utf8 host) port := by
  rw [tunnelSocks5_eq, negotiate]
  simp only [bind_assoc]
  congr! 6 with _ reply m
  split
  · rfl
  · rfl

theorem negotiate_returns {auth : Option ProxyAuth} :
    Returns (negotiate auth : Stream C Unit) x w () rest ↔
      ∃ m a, LoggedIn auth m a ∧ x = [0x05, m] ++ a ++ rest ∧
        w = [greeting auth] ++ loginMessage m auth := by
  rw [negotiate, returns_writeAll]
  constructor
  · rintro ⟨w1, rfl, h1⟩
    obtain ⟨reply, y, rfl, hl, h2⟩ := returns_readExact.mp h1
    obtain ⟨v, m, rfl⟩ := List.length_eq_two.mp hl
    obtain ⟨_, w2, m', z, rfl, hm, h3⟩ := returns_bind.mp h2
    obtain ⟨rfl, rfl, hff, rfl, rfl⟩ := methodSelected_returns.mp hm
    split at h3
    · rename_i hm2
      subst hm2
      obtain ⟨creds, v, rfl, hs, rfl, rfl⟩ := authenticate_returns.mp h3
      exact ⟨0x02, [v, 0x00], .login rfl hs, rfl, rfl⟩
    · rename_i hm2
      obtain ⟨-, rfl, rfl⟩ := returns_done.mp h3
      exact ⟨m, [], .plain hm2 hff, rfl, by rw [loginMessage, if_neg hm2]; rfl⟩
  · rintro ⟨m, a, ha, rfl, rfl⟩
    refine ⟨_, rfl, returns_readExact.mpr ⟨[0x05, m], a ++ rest, rfl, rfl, ?_⟩⟩
    cases ha with
    | plain hm2 hff =>
      refine returns_bind.mpr ⟨[], _, m, rest, rfl,
        methodSelected_returns.mpr ⟨rfl, rfl, hff, rfl, rfl⟩, ?_⟩
      rw [if_neg hm2, loginMessage, if_neg hm2]
      exact returns_done.mpr ⟨rfl, rfl, rfl⟩
    | @login creds v hc hs =>
      subst hc
      refine returns_bind.mpr ⟨[], _, 0x02, [v, 0x00] ++ rest, rfl,
        methodSelected_returns.mpr ⟨rfl, rfl, by decide, rfl, rfl⟩, ?_⟩
      rw [if_pos rfl]
      exact authenticate_returns.mpr ⟨creds, v, rfl, hs, rfl, rfl⟩

theorem consumeBndAddr_quiet (atyp : UInt8) (x : Bytes) :
    (feed (consumeBndAddr atyp : Stream C Unit) x).written = [] := by
  unfold consumeBndAddr
  split
  · exact feed_read_quiet (fun _ _ => rfl) x
  · split
    · exact feed_read_quiet (fun y z => feed_read_quiet (fun _ _ => rfl) z) x
    · split
      · exact feed_read_quiet (fun _ _ => rfl) x
      · rfl

theorem connected_quiet (hdr x : Bytes) :
    (feed (connected hdr : Stream C Unit) x).written = [] := by
  unfold connected
  split
  · rfl
  · split
    · rfl
    · exact consumeBndAddr_quiet _ x

theorem requestConnect_written (host : Bytes) (port : UInt16) (x : Bytes) :
    (feed (requestConnect host port : Stream C Unit) x).written =
      if host.length ≤ 255 then [connectRequest host port] else [] := by
  unfold requestConnect
  split
  · rename_i h
    rw [if_neg (Nat.not_le.mpr h)]
    rfl
  · rename_i h
    rw [if_pos (Nat.le_of_not_lt h)]
    exact congrArg (connectRequest host port :: ·)
      (feed_read_quiet (fun y z => connected_quiet y z) x)

theorem Proceeds.request_written {auth : Option ProxyAuth} (h : Proceeds auth x) {host : String}
    (hlen : (utf8 host).length ≤ 255) (port : UInt16) :
    ∃ w, (feed (tunnelSocks5 host port auth : Stream C Unit) x).written =
      w ++ [connectRequest (utf8 host) port] := by
  obtain ⟨m, a, z, ha, hx⟩ := h
  have hn : Returns (negotiate auth : Stream C Unit) x
      ([greeting auth] ++ loginMessage m auth) () z := negotiate_returns.mpr ⟨m, a, ha, hx, rfl⟩
  rw [tunnelSocks5_negotiate, feed_bind_written, hn]
  simp only [requestConnect_written, if_pos hlen]
  exact ⟨_, rfl⟩

end Parts

theorem BndBytes.unique {atyp : UInt8} {b b' z z' : Bytes} (hb : BndBytes atyp b)
    (hb' : BndBytes atyp b') (h : b ++ z = b' ++ z') : b = b' ∧ z = z' := by
  cases hb with
  | v4 hl =>
    cases hb' with
    | v4 hl' => exact List.append_inj h (hl.trans hl'.symm)
  | name hl =>
    cases hb' with
    | name hl' =>
      have hn := (List.cons.inj h).1
      subst hn
      exact List.append_inj h (congrArg (· + 1) (hl.trans hl'.symm))
  | v6 hl =>
    cases hb' with
    | v6 hl' => exact List.append_inj h (hl.trans hl'.symm)

end Obfs.Proxy

namespace Obfs.Symbolic
open Dialogue Framing Proxy

end Obfs.Symbolic

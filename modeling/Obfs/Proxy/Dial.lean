import Obfs.Proxy.HttpConnect
import Obfs.Proxy.Socks5
import Obfs.Symbolic

/-! Dialling through a chain of proxies (proxy/mod.rs), in a network of honest
proxies of either kind and a target that may do anything. -/
namespace Obfs.Proxy
open Dialogue Trace

inductive ProxyKind where
  | socks5
  | httpConnect
  deriving DecidableEq

structure Hop where
  kind : ProxyKind
  addr : String
  auth : Option ProxyAuth

structure ProxyConfig where
  kind : ProxyKind
  addr : String
  auth : Option ProxyAuth
  chain : List Hop

/-- The flat list of hops: the proxy itself, then its chain. -/
def ProxyConfig.hops (proxy : ProxyConfig) : List Hop :=
  ⟨proxy.kind, proxy.addr, proxy.auth⟩ :: proxy.chain

section
variable {C : Core}

/-- Where hop i is to connect to: the next hop, or the target. -/
def nextAddr (hops : List Hop) (target : String × UInt16) (i : Nat) :
    Except (ObfsError C) (String × UInt16) :=
  match hops[i + 1]? with
  | some hop => parseAddr hop.addr
  | none => .ok target

def Hop.tunnel (hop : Hop) (host : String) (port : UInt16) : Stream C Unit :=
  match hop.kind with
  | .socks5 => tunnelSocks5 host port hop.auth
  | .httpConnect => tunnelHttpConnect host port hop.auth

def tunnelHop (hops : List Hop) (target : String × UInt16) (i : Nat) (hop : Hop) :
    Stream C Unit := do
  let next ← ofExcept (nextAddr hops target i)
  hop.tunnel next.1 next.2

def tunnels (hops : List Hop) (target : String × UInt16) : List (Stream C Unit) :=
  hops.mapIdx (tunnelHop hops target)

end

/-- Who answers: at an address that is dialled directly, at a destination that hop
i opens on the way, and at the destination that the last hop opens. -/
structure Network where
  connect : String → Except IoError Party
  proxy : Nat → Dest → Party
  target : Dest → Peer UInt8 Empty

def Network.answers (net : Network) (hops : List Hop) (i : Nat) (dest : Dest) : Party :=
  if i + 1 < hops.length then net.proxy i dest else (net.target dest).plain

abbrev DialState (C : Core) := State UInt8 Dest (ObfsError C) Unit
abbrev DialEvent (C : Core) := Dialogue.Event (ObfsError C)
abbrev DialStep (C : Core) := Step (DialState C) (DialEvent C) (Wrote UInt8)

def dial {C : Core} (net : Network) (proxy : ProxyConfig) (targetHost : String)
    (targetPort : UInt16) : Except (ObfsError C) (DialState C) :=
  match net.connect proxy.addr with
  | .error e => .error (.io e)
  | .ok first => .ok (.start (tunnels proxy.hops (targetHost, targetPort)) first)

def dialNext {C : Core} (net : Network) (proxy : ProxyConfig) :
    DialState C → DialEvent C → Option (DialState C × List (Wrote UInt8)) :=
  next (net.answers proxy.hops)

inductive Honest : ProxyKind → Party → Prop where
  | socks5 (srv : Socks5Proxy) : Honest .socks5 srv.serve
  | httpConnect (srv : HttpProxy) : Honest .httpConnect srv.serve

def Wanted (C : Core) (hops : List Hop) (target : String × UInt16) (i : Nat) (dest : Dest) : Prop :=
  ∃ host port, nextAddr hops target i = (.ok (host, port) : Except (ObfsError C) _) ∧
    dest = ⟨.name (utf8 host), port⟩

/-- At the address of every hop an honest proxy of its kind answers. -/
structure HonestNetwork (C : Core) (net : Network) (proxy : ProxyConfig)
    (target : String × UInt16) : Prop where
  first : ∀ p, net.connect proxy.addr = .ok p → Honest proxy.kind p
  later : ∀ i dest hop, Wanted C proxy.hops target i dest → proxy.hops[i + 1]? = some hop →
    Honest hop.kind (net.proxy i dest)

def Hop.Words (hop : Hop) (host : String) (port : UInt16) (bytes : Bytes) : Prop :=
  match hop.kind with
  | .socks5 => Socks5Words hop.auth (utf8 host) port bytes
  | .httpConnect => bytes = utf8 (connectText host port hop.auth)

section
variable {C : Core} {hop : Hop} {host : String} {port : UInt16} {want : Dest → Prop} {p : Party}

theorem Honest.quiet {kind : ProxyKind} (h : Honest kind p) : Quiet p := by
  cases h with
  | socks5 srv => exact Peer.recv_ne_accept _ _
  | httpConnect srv => exact Peer.recv_ne_accept _ _

theorem Honest.fits (h : Honest hop.kind p) (hc : Clean host)
    (hw : want ⟨.name (utf8 host), port⟩) :
    Fits want (hop.Words host port) (hop.tunnel host port : Stream C Unit) p := by
  obtain ⟨kind, addr, auth⟩ := hop
  cases h with
  | socks5 srv => exact tunnelSocks5_fits hw
  | httpConnect srv => exact tunnelHttpConnect_fits hc hw

theorem clean_nextAddr {hops : List Hop} {target : String × UInt16} {i : Nat}
    (hclean : ∀ hop ∈ hops, Clean hop.addr) (ht : Clean target.1)
    (h : nextAddr hops target i = (.ok (host, port) : Except (ObfsError C) _)) : Clean host := by
  unfold nextAddr at h
  split at h
  · rename_i hop hh
    exact clean_parseAddr (hclean hop (List.mem_of_getElem? hh)) h
  · cases h
    exact ht

end

section
variable {C : Core} {net : Network} {proxy : ProxyConfig} {target : String × UInt16} {p : Party}

def Words (C : Core) (hops : List Hop) (target : String × UInt16) (i : Nat)
    (bytes : Bytes) : Prop :=
  ∃ hop host port, hops[i]? = some hop ∧
    nextAddr hops target i = (.ok (host, port) : Except (ObfsError C) _) ∧
    hop.Words host port bytes

theorem honest_partner (hn : HonestNetwork C net proxy target)
    (hp : net.connect proxy.addr = .ok p) {opened : List Dest} {hop : Hop}
    (hr : Route (Wanted C proxy.hops target) opened)
    (hh : proxy.hops[opened.length]? = some hop) :
    Honest hop.kind (partner p (net.answers proxy.hops) opened) := by
  obtain rfl | ⟨ds, d, rfl⟩ := List.eq_nil_or_concat' opened
  · cases hh
    exact hn.first p hp
  · rw [List.length_append, List.length_singleton] at hh
    have hlt := (List.getElem?_eq_some_iff.mp hh).1
    rw [partner_concat, Network.answers, if_pos hlt]
    exact hn.later _ _ hop (hr _ _ (by simp)) hh

theorem dial_plan (hclean : ∀ hop ∈ proxy.hops, Clean hop.addr) (ht : Clean target.1)
    (hn : HonestNetwork C net proxy target) (hp : net.connect proxy.addr = .ok p) :
    Plan (tunnels proxy.hops target : List (Stream C Unit)) p (net.answers proxy.hops)
      (Wanted C proxy.hops target) (Words C proxy.hops target) where
  fits := by
    intro opened t hr hs
    rw [tunnels, List.getElem?_mapIdx] at hs
    obtain ⟨hop, hh, rfl⟩ := Option.map_eq_some_iff.mp hs
    cases ha : (nextAddr proxy.hops target opened.length : Except (ObfsError C) _) with
    | error e =>
      rw [tunnelHop, ha]
      trivial
    | ok next =>
      obtain ⟨host, port⟩ := next
      have hfit : Fits (Wanted C proxy.hops target opened.length) (hop.Words host port)
          (hop.tunnel host port : Stream C Unit) _ :=
        (honest_partner hn hp hr hh).fits (clean_nextAddr hclean ht ha) ⟨host, port, ha, rfl⟩
      rw [tunnelHop, ha]
      exact hfit.mono fun m hm => ⟨hop, host, port, hh, ha, hm⟩
  quiet := by
    intro opened hr hl
    by_cases hlt : opened.length < proxy.hops.length
    · exact (honest_partner hn hp hr (List.getElem?_eq_getElem hlt)).quiet
    · obtain rfl | ⟨ds, d, rfl⟩ := List.eq_nil_or_concat' opened
      · exact absurd (by simp [ProxyConfig.hops]) hlt
      · rw [List.length_append, List.length_singleton] at hlt
        rw [partner_concat, Network.answers, if_neg hlt]
        exact settle_plain _ _

/-- The stream ends at the target: every hop but the last has opened the address
of the next one, the last has opened the target, no byte of the client is on its
way and what is on its way to the client is what the target has said unasked. -/
structure Reached (C : Core) (net : Network) (proxy : ProxyConfig) (host : String) (port : UInt16)
    (s : DialState C) : Prop where
  count : s.opened.length = proxy.hops.length
  hops : ∀ i hop, proxy.hops[i + 1]? = some hop → ∃ nextHost nextPort,
    parseAddr hop.addr = (.ok (nextHost, nextPort) : Except (ObfsError C) _) ∧
    s.opened[i]? = some ⟨.name (utf8 nextHost), nextPort⟩
  last : s.opened.getLast? = some ⟨.name (utf8 host), port⟩
  written : s.toFar = []
  spoken : Speaks (net.target ⟨.name (utf8 host), port⟩).plain s.toClient s.far

theorem reached_of_route {host : String} {port : UInt16} {s : DialState C}
    (hl : s.opened.length = proxy.hops.length)
    (hr : Route (Wanted C proxy.hops (host, port)) s.opened) (hx : s.toFar = [])
    (hy : Speaks (partner p (net.answers proxy.hops) s.opened) s.toClient s.far) :
    Reached C net proxy host port s := by
  obtain ho | ⟨ds, d, ho⟩ := List.eq_nil_or_concat' s.opened
  · rw [ho] at hl
    cases hl
  · have hlen : ds.length + 1 = proxy.hops.length := by
      rw [← hl, ho, List.length_append, List.length_singleton]
    obtain ⟨host', port', ha, rfl⟩ := hr ds.length d (by simp [ho])
    have hnone : proxy.hops[ds.length + 1]? = none := List.getElem?_eq_none_iff.mpr (by omega)
    rw [nextAddr, hnone] at ha
    cases ha
    refine ⟨hl, ?_, by simp [ho], hx, ?_⟩
    · intro i hop hh
      have hi := (List.getElem?_eq_some_iff.mp hh).1
      obtain ⟨d, hd⟩ : ∃ d, s.opened[i]? = some d :=
        ⟨_, List.getElem?_eq_getElem (by omega)⟩
      obtain ⟨nextHost, nextPort, ha, rfl⟩ := hr i d hd
      rw [nextAddr, hh] at ha
      exact ⟨nextHost, nextPort, ha, hd⟩
    · rw [ho, partner_concat, Network.answers, if_neg (by omega)] at hy
      exact hy

/-- Dialling through any chain of honest proxies. When it returns, the stream has
reached the target; all that is ever written belongs to the negotiation with the
hop that is then the far end; and when it has failed at a hop, nothing was written
for a later one. -/
theorem dial_through_chain {host : String} {port : UInt16}
    (hclean : ∀ hop ∈ proxy.hops, Clean hop.addr) (ht : Clean host)
    (hn : HonestNetwork C net proxy (host, port)) {s₀ s : DialState C}
    (hd : dial net proxy host port = .ok s₀) {h : List (DialStep C)}
    (hr : Run (dialNext net proxy) s₀ h s) :
    (s.client = .done () → Reached C net proxy host port s) ∧
      (∀ i t, At h i t → ∀ w ∈ t.out, w.hop = w.stage ∧
        ∃ m, Words C proxy.hops (host, port) w.stage m ∧ w.bytes <+: m) ∧
      (∀ e, s.client = .fail e → ∀ i t, At h i t → ∀ w ∈ t.out, w.stage ≤ s.stage) := by
  unfold dial at hd
  split at hd
  · cases hd
  · rename_i p hp
    cases hd
    obtain ⟨hi, hw⟩ := run_proper (dial_plan hclean ht hn hp) hr
    refine ⟨?_, ?_, ?_⟩
    · intro hc
      obtain ⟨hl, hroute, -, hx, hy⟩ := done_of_inv hi hc
      rw [tunnels, List.length_mapIdx] at hl
      exact reached_of_route hl hroute hx hy
    · intro i t hat w hmem
      exact (hw i t hat w hmem).2
    · intro e _ i t hat w hmem
      exact (hw i t hat w hmem).1

end

end Obfs.Proxy

namespace Obfs.Symbolic
open Dialogue Trace Proxy

/- A chain of a SOCKS5 proxy that asks for credentials and an HTTP proxy, to a
target that speaks first. -/
def strictProxy : Socks5Proxy where
  method offered := if 0x02 ∈ offered then 0x02 else 0xFF
  method_offered offered := by
    split
    · exact .inl ‹_›
    · exact .inr rfl
  admits user pass := user = utf8 "u" && pass = utf8 "pw"
  denial := 0x01
  denial_ne := by decide
  outcome _ := .opened (.v4 ⟨[127, 0, 0, 1], rfl⟩ 9)

theorem utf8_clean {s : String} (h : Clean s) {b : UInt8} (hb : b ∈ utf8 s) :
    b ≠ 32 ∧ b ≠ 13 ∧ b ≠ 10 := by
  refine ⟨?_, ?_, ?_⟩
  · rintro rfl
    exact notMem_utf8 h (by decide) hb
  · rintro rfl
    exact notMem_utf8 h (by decide) hb
  · rintro rfl
    exact notMem_utf8 h (by decide) hb

def established : HttpHead where
  version := utf8 "HTTP/1.1"
  status := 200
  reason := utf8 "OK"
  fields := []
  version_clean _ hb := utf8_clean (by decide) hb
  status_digits := by decide
  reason_clean _ hb := (utf8_clean (by decide) hb).2
  fields_clean _ hf := absurd hf List.not_mem_nil

def webProxy : HttpProxy where
  interim _ := []
  interim_status _ _ hh := absurd hh List.not_mem_nil
  outcome _ _ := .opened established (by decide)

def chainNet : Network where
  connect addr := if addr = "a:1" then .ok strictProxy.serve else .error { text := "refused" }
  proxy _ _ := webProxy.serve
  target _ := .send [7] .hangup

def chainCfg : ProxyConfig where
  kind := .socks5
  addr := "a:1"
  auth := some ⟨"u", "pw"⟩
  chain := [⟨.httpConnect, "b:2", none⟩]

def chainEvents : List (DialEvent core) :=
  [.client, .client, .far, .far, .client, .client, .far, .far, .client, .client, .far, .far,
    .client, .client, .client, .client, .far, .far, .far, .far] ++ List.replicate 19 .client

theorem chainNet_honest : HonestNetwork core chainNet chainCfg ("t", 80) where
  first p hp := by
    cases hp
    exact .socks5 strictProxy
  later i dest hop hw hh := by
    have hi : i + 1 < 2 := (List.getElem?_eq_some_iff.mp hh).1
    obtain rfl : i = 0 := by omega
    cases hh
    exact .httpConnect webProxy

def isDone {C : Core} (s : DialState C) : Bool :=
  match s.client with
  | .done _ => true
  | _ => false

theorem dial_through_chain_mixed :
    ∃ (s₀ s : DialState core) (h : List (DialStep core)),
      dial chainNet chainCfg "t" 80 = .ok s₀ ∧ Run (dialNext chainNet chainCfg) s₀ h s ∧
      s.client = .done () ∧ Reached core chainNet chainCfg "t" 80 s ∧
      s.opened = [⟨.name (utf8 "b"), 2⟩, ⟨.name (utf8 "t"), 80⟩] ∧ s.toClient = [7] := by
  obtain ⟨h, s, hr, -, hdone, hopened, hclient⟩ :
      ∃ (h : List (DialStep core)) (s : DialState core),
        Run (dialNext chainNet chainCfg)
          (.start (tunnels chainCfg.hops ("t", 80)) strictProxy.serve) h s ∧
        h.map Step.event = chainEvents ∧ isDone s = true ∧
        s.opened = [⟨.name (utf8 "b"), 2⟩, ⟨.name (utf8 "t"), 80⟩] ∧ s.toClient = [7] :=
    Run.of_exec (fun _ s => isDone s = true ∧
      s.opened = [⟨.name (utf8 "b"), 2⟩, ⟨.name (utf8 "t"), 80⟩] ∧ s.toClient = [7])
      (by decide +kernel)
  have hc : s.client = .done () := by
    unfold isDone at hdone
    split at hdone
    · assumption
    · cases hdone
  refine ⟨_, s, h, rfl, hr, hc, ?_, hopened, hclient⟩
  refine (dial_through_chain ?_ (by decide) chainNet_honest rfl hr).1 hc
  decide

end Obfs.Symbolic

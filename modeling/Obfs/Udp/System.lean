import Obfs.Udp.ClientSteps
import Obfs.Udp.Sessions
import Obfs.Lib.Projection
import Mathlib.Logic.Function.Basic

/-! One server and its clients. The network is in the events: a datagram that
a party receives has any content and any source address. -/
namespace Obfs.Udp
open Trace
variable (K : Crates) (ι : Type)

structure SystemCfg where
  server : ServerCfg K
  client : ι → ClientCfg

structure SystemState where
  server : ServerState K
  clients : ι → ClientState K

inductive SystemEvent where
  | server (e : ServerEvent K)
  | client (c : ι) (e : ClientEvent K)

inductive SystemEffect where
  | server (x : Effect K)
  | client (c : ι) (x : ClientEffect K)

abbrev SystemStep := Step (SystemState K ι) (SystemEvent K ι) (SystemEffect K ι)

variable {K ι} [DecidableEq ι] {cfg : SystemCfg K ι}

def SystemState.init (secret : K.CookieSecret)
    (sources : Nat → Broadcast.Channel (Event K.core)) : SystemState K ι :=
  ⟨.init secret sources, fun _ => .idle⟩

def systemNext (cfg : SystemCfg K ι) (s : SystemState K ι) :
    SystemEvent K ι → Option (SystemState K ι × List (SystemEffect K ι))
  | .server e => (serverNext cfg.server s.server e).map fun next =>
      ({ s with server := next.1 }, next.2.map .server)
  | .client c e => (clientNext (cfg.client c) (s.clients c) e).map fun next =>
      ({ s with clients := Function.update s.clients c next.1 }, next.2.map (.client c))

abbrev SystemRun (cfg : SystemCfg K ι) (s₀ : SystemState K ι) (h : List (SystemStep K ι))
    (s : SystemState K ι) : Prop := Run (systemNext cfg) s₀ h s

def SystemEffect.server? : SystemEffect K ι → Option (Effect K)
  | .server x => some x
  | _ => none

def SystemEffect.client? (c : ι) : SystemEffect K ι → Option (ClientEffect K)
  | .client c' x => if c' = c then some x else none
  | _ => none

def serverPart (t : SystemStep K ι) : Option (ServerStep K) :=
  match t.event with
  | .server e => some ⟨t.pre.server, e, t.out.filterMap SystemEffect.server?, t.post.server⟩
  | _ => none

def clientPart (c : ι) (t : SystemStep K ι) : Option (ClientStep K) :=
  match t.event with
  | .client c' e =>
    if c' = c then
      some ⟨t.pre.clients c, e, t.out.filterMap (SystemEffect.client? c), t.post.clients c⟩
    else none
  | _ => none

omit [DecidableEq ι] in
theorem server?_map (o : List (Effect K)) :
    (o.map SystemEffect.server).filterMap (SystemEffect.server? (ι := ι)) = o := by
  rw [List.filterMap_map]
  exact List.filterMap_some

theorem client?_map (c : ι) (o : List (ClientEffect K)) :
    (o.map (SystemEffect.client c)).filterMap (SystemEffect.client? c) = o := by
  rw [List.filterMap_map]
  have hf : SystemEffect.client? (K := K) c ∘ SystemEffect.client c = some := by
    funext x
    simp [SystemEffect.client?]
  rw [hf]
  exact List.filterMap_some

theorem systemNext_case {s s' : SystemState K ι} {e : SystemEvent K ι}
    {o : List (SystemEffect K ι)} (h : systemNext cfg s e = some (s', o)) :
    (∃ e' o', e = .server e' ∧ o = o'.map .server ∧ s'.clients = s.clients ∧
      serverNext cfg.server s.server e' = some (s'.server, o')) ∨
    ∃ c e' o', e = .client c e' ∧ o = o'.map (.client c) ∧ s'.server = s.server ∧
      (∀ c', c' ≠ c → s'.clients c' = s.clients c') ∧
      clientNext (cfg.client c) (s.clients c) e' = some (s'.clients c, o') := by
  cases e with
  | server e' =>
    obtain ⟨⟨s1, o1⟩, hn, he⟩ := Option.map_eq_some_iff.mp h
    cases he
    exact Or.inl ⟨e', o1, rfl, rfl, rfl, hn⟩
  | client c e' =>
    obtain ⟨⟨s1, o1⟩, hn, he⟩ := Option.map_eq_some_iff.mp h
    cases he
    refine Or.inr ⟨c, e', o1, rfl, rfl, rfl, ?_, ?_⟩
    · intro c' hc
      exact Function.update_of_ne hc _ _
    · simpa using hn

theorem server_projects :
    Projects (systemNext cfg) (serverNext cfg.server) SystemState.server serverPart := by
  intro s e s' o hn
  rcases systemNext_case hn with ⟨e', o', rfl, rfl, -, hs⟩ | ⟨c, e', o', rfl, rfl, hs, -⟩
  · refine Or.inr ⟨e', o', ?_, hs⟩
    simp only [serverPart, server?_map]
  · exact Or.inl ⟨rfl, hs⟩

theorem client_projects (c : ι) :
    Projects (systemNext cfg) (clientNext (cfg.client c)) (·.clients c) (clientPart c) := by
  intro s e s' o hn
  rcases systemNext_case hn with ⟨e', o', rfl, rfl, hs, -⟩ | ⟨c', e', o', rfl, rfl, -, hk, hs⟩
  · exact Or.inl ⟨rfl, congrFun hs c⟩
  · by_cases hc : c' = c
    · subst hc
      refine Or.inr ⟨e', o', ?_, hs⟩
      simp only [clientPart, client?_map, if_true]
    · exact Or.inl ⟨by simp [clientPart, hc], hk c fun he => hc he.symm⟩

omit [DecidableEq ι] in
theorem mem_of_serverPart {t : SystemStep K ι} {u : ServerStep K} (hu : serverPart t = some u)
    {x : Effect K} (hm : x ∈ u.out) : SystemEffect.server x ∈ t.out := by
  unfold serverPart at hu
  split at hu
  · cases hu
    obtain ⟨y, hy, hx⟩ := List.mem_filterMap.mp hm
    cases y with
    | server y =>
      cases hx
      exact hy
    | client c y => cases hx
  · cases hu

omit [DecidableEq ι] in
theorem serverPart_event {t : SystemStep K ι} {u : ServerStep K} (hu : serverPart t = some u) :
    t.event = .server u.event := by
  unfold serverPart at hu
  split at hu
  · rename_i e he
    cases hu
    exact he
  · cases hu

theorem mem_of_clientPart {c : ι} {t : SystemStep K ι} {u : ClientStep K}
    (hu : clientPart c t = some u) {x : ClientEffect K} (hm : x ∈ u.out) :
    SystemEffect.client c x ∈ t.out := by
  unfold clientPart at hu
  split at hu
  · split at hu
    · cases hu
      obtain ⟨y, hy, hx⟩ := List.mem_filterMap.mp hm
      cases y with
      | server y => cases hx
      | client c' y =>
        by_cases hc : c' = c
        · subst hc
          simp only [SystemEffect.client?, if_true, Option.some.injEq] at hx
          rw [← hx]
          exact hy
        · simp [SystemEffect.client?, hc] at hx
    · cases hu
  · cases hu

theorem clientPart_event {c : ι} {t : SystemStep K ι} {u : ClientStep K}
    (hu : clientPart c t = some u) : t.event = .client c u.event := by
  unfold clientPart at hu
  split at hu
  · rename_i c' e he
    split at hu
    · rename_i hc
      cases hu
      rw [he, hc]
    · cases hu
  · cases hu

variable {secret : K.CookieSecret} {sources : Nat → Broadcast.Channel (Event K.core)}
  {s₀ : SystemState K ι} {h : List (SystemStep K ι)} {s : SystemState K ι}

theorem serverPart_of_mem (hr : SystemRun cfg s₀ h s) {i : Nat} {t : SystemStep K ι}
    (ht : At h i t) {x : Effect K} (hm : SystemEffect.server x ∈ t.out) :
    ∃ u, serverPart t = some u ∧ x ∈ u.out ∧ u.pre = t.pre.server ∧ u.post = t.post.server ∧
      serverNext cfg.server u.pre u.event = some (u.post, u.out) := by
  have hout : ∃ u, serverPart t = some u ∧ x ∈ u.out := by
    rcases systemNext_case (hr.next_eq ht) with ⟨e', o', he, ho, -⟩ | ⟨c, e', o', -, ho, -⟩
    · rw [ho] at hm
      refine ⟨⟨t.pre.server, e', o', t.post.server⟩, ?_, by simpa using hm⟩
      simp only [serverPart, he, ho, server?_map]
    · rw [ho] at hm
      simp at hm
  obtain ⟨u, hu, hx⟩ := hout
  exact ⟨u, hu, hx, hr.component server_projects ht hu⟩

theorem clientPart_of_mem (hr : SystemRun cfg s₀ h s) {i : Nat} {t : SystemStep K ι}
    (ht : At h i t) {c : ι} {x : ClientEffect K} (hm : SystemEffect.client c x ∈ t.out) :
    ∃ u, clientPart c t = some u ∧ x ∈ u.out ∧ u.pre = t.pre.clients c ∧
      u.post = t.post.clients c ∧
      clientNext (cfg.client c) u.pre u.event = some (u.post, u.out) := by
  have hout : ∃ u, clientPart c t = some u ∧ x ∈ u.out := by
    rcases systemNext_case (hr.next_eq ht) with ⟨e', o', -, ho, -⟩ | ⟨c', e', o', he, ho, -⟩
    · rw [ho] at hm
      simp at hm
    · rw [ho] at hm
      obtain ⟨y, hy, hxy⟩ := List.mem_map.mp hm
      cases hxy
      refine ⟨⟨t.pre.clients c, e', o', t.post.clients c⟩, ?_, hy⟩
      simp only [clientPart, he, ho, client?_map, if_true]
  obtain ⟨u, hu, hx⟩ := hout
  exact ⟨u, hu, hx, hr.component (client_projects c) ht hu⟩

/-- Two effects of the server in one step belong to one step of the server. -/
theorem server_effects (hr : SystemRun cfg s₀ h s) {i : Nat} {t : SystemStep K ι} (ht : At h i t)
    {x y : Effect K} (hx : SystemEffect.server x ∈ t.out) (hy : SystemEffect.server y ∈ t.out) :
    ∃ u : ServerStep K, x ∈ u.out ∧ y ∈ u.out ∧
      serverNext cfg.server u.pre u.event = some (u.post, u.out) := by
  obtain ⟨u, hu, hxu, -, -, hn⟩ := serverPart_of_mem hr ht hx
  obtain ⟨v, hv, hyv, -⟩ := serverPart_of_mem hr ht hy
  cases Option.some.inj (hu.symm.trans hv)
  exact ⟨u, hxu, hyv, hn⟩

theorem client_effects (hr : SystemRun cfg s₀ h s) {i : Nat} {t : SystemStep K ι} (ht : At h i t)
    {c : ι} {x y : ClientEffect K} (hx : SystemEffect.client c x ∈ t.out)
    (hy : SystemEffect.client c y ∈ t.out) :
    ∃ u : ClientStep K, x ∈ u.out ∧ y ∈ u.out ∧
      clientNext (cfg.client c) u.pre u.event = some (u.post, u.out) := by
  obtain ⟨u, hu, hxu, -, -, hn⟩ := clientPart_of_mem hr ht hx
  obtain ⟨v, hv, hyv, -⟩ := clientPart_of_mem hr ht hy
  cases Option.some.inj (hu.symm.trans hv)
  exact ⟨u, hxu, hyv, hn⟩

theorem pending_written (hr : SystemRun cfg (.init secret sources) h s) {src : SocketAddr}
    {ph : PendingHandshake K} (hp : s.server.pending.lookup src = some ph) :
    ∃ q t wire, At h q t ∧ SystemEffect.server (.pend src ph.responder wire) ∈ t.out ∧
      ∀ j u, q < j → At h j u → u.pre.server.pending.lookup src = some ph ∧
        u.post.server.pending.lookup src = some ph ∧
        ∀ r w, SystemEffect.server (.pend src r w) ∉ u.out := by
  obtain ⟨q, t, u, ht, hu, ⟨r, wire, hm⟩, hpost, hafter⟩ :=
    hr.last_write_project server_projects (fun s => s.pending.lookup src)
      (fun t => ∃ r wire, Effect.pend src r wire ∈ t.out) rfl
      (fun _ _ _ _ hn => pending_slot hn src) hp
  have hn := (hr.component server_projects ht hu).2.2
  obtain ⟨inp, -, hl⟩ := pend_post hn hm
  cases Option.some.inj (hpost.symm.trans hl)
  refine ⟨q, t, wire, ht, mem_of_serverPart hu hm, ?_⟩
  intro j t' hj ht'
  obtain ⟨h1, h2, hw⟩ := hafter j t' hj ht'
  refine ⟨h1, h2, ?_⟩
  intro r w hrw
  obtain ⟨u', hu', hx, -⟩ := serverPart_of_mem hr ht' hrw
  exact hw u' hu' ⟨r, w, hx⟩

theorem peer_installed (hr : SystemRun cfg (.init secret sources) h s) {src : SocketAddr}
    {p : PeerState} (hp : s.server.peers.lookup src = some p) :
    ∃ j t key, At h j t ∧ SystemEffect.server (.install src p.session key) ∈ t.out ∧
      ∀ j' t', j < j' → At h j' t' → ∀ n k, SystemEffect.server (.install src n k) ∉ t'.out := by
  obtain ⟨j, t, u, ht, hu, ⟨n, key, hm⟩, hpost, hafter⟩ :=
    hr.last_write_project server_projects (fun s => s.peerSession src)
      (fun t => ∃ n key, Effect.install src n key ∈ t.out) rfl
      (fun _ _ _ _ hn => peer_slot hn src) (b := p.session) (by simp [ServerState.peerSession, hp])
  have hn := install_post (hr.component server_projects ht hu).2.2 hm
  cases Option.some.inj (hpost.symm.trans hn)
  refine ⟨j, t, key, ht, mem_of_serverPart hu hm, ?_⟩
  intro j' t' hj ht' n' k hk
  obtain ⟨u', hu', hx, -⟩ := serverPart_of_mem hr ht' hk
  exact (hafter j' t' hj ht').2.2 u' hu' ⟨n', k, hx⟩

theorem server_run (hr : SystemRun cfg (.init secret sources) h s) :
    ServerRun cfg.server (.init secret sources) (h.filterMap serverPart) s.server :=
  hr.project server_projects

theorem session_opened (hr : SystemRun cfg (.init secret sources) h s) {n : Nat}
    {ses : Session K} (hn : s.server.sessions[n]? = some ses) :
    ∃ j t u r ch, At h j t ∧ serverPart t = some u ∧ u.pre.pending.lookup ses.src = some r ∧
      AdmitsSession cfg.server u ses.src r.responder n ch ∧ ch.Evolves ses.channel := by
  have hsr := server_run hr
  obtain ⟨_, u, ph, ch, hu, hp, ha, hev⟩ := session_origin hsr hn
  obtain ⟨j, t, ht, hpt⟩ := at_project hu
  exact ⟨j, t, u, ph, ch, ht, hpt, hp, ha, hev⟩

theorem hs2_drawn (hr : SystemRun cfg (.init secret sources) h s) {c : ι} {seed : Key}
    (hs : (s.clients c).hs2Seed = some seed) :
    ∃ d t, At h d t ∧ SystemEffect.client c (.drew seed) ∈ t.out ∧
      ∀ j u, d < j → At h j u → (u.post.clients c).hs2Seed = some seed := by
  obtain ⟨d, t, u, ht, hu, ⟨seed', hm⟩, hpost, hafter⟩ :=
    hr.last_write_project (client_projects c) ClientState.hs2Seed
      (fun t => ∃ seed, ClientEffect.drew seed ∈ t.out) rfl (fun _ _ _ _ hn => hs2_slot hn) hs
  have he : seed' = seed := by
    rcases drew_inv (hr.component (client_projects c) ht hu).2.2 hm with h1 | h1
    · exact Option.some.inj (h1.symm.trans hpost)
    · rw [hpost] at h1
      cases h1
  subst he
  exact ⟨d, t, ht, mem_of_clientPart hu hm, fun j u hj hju => (hafter j u hj hju).2.1⟩

/-- The msg3 of the attempt that waits for the ready record: the client has
written no other one since. -/
theorem ready_written (hr : SystemRun cfg (.init secret sources) h s) {c : ι} {seed : Key}
    (hs : (s.clients c).readySeed = some seed) :
    ∃ i t hs msg3, At h i t ∧ SystemEffect.client c (.wroteMsg3 hs msg3 seed) ∈ t.out ∧
      ∀ j u, i < j → At h j u → ∀ hs' msg3' seed',
        SystemEffect.client c (.wroteMsg3 hs' msg3' seed') ∉ u.out := by
  obtain ⟨i, t, u, ht, hu, ⟨hs', msg3, seed', hm⟩, hpost, hafter⟩ :=
    hr.last_write_project (client_projects c) ClientState.readySeed
      (fun t => ∃ hs msg3 seed, ClientEffect.wroteMsg3 hs msg3 seed ∈ t.out) rfl
      (fun _ _ _ _ hn => ready_slot hn) hs
  obtain ⟨-, -, -, he, -⟩ := wroteMsg3_inv (hr.component (client_projects c) ht hu).2.2 hm
  cases he seed hpost
  refine ⟨i, t, hs', msg3, ht, mem_of_clientPart hu hm, ?_⟩
  intro j u' hj hu' hs'' msg3' seed' hm'
  obtain ⟨v, hv, hx, -⟩ := clientPart_of_mem hr hu' hm'
  exact (hafter j u' hj hu').2.2 v hv ⟨hs'', msg3', seed', hx⟩

theorem keyed_written (hr : SystemRun cfg (.init secret sources) h s) {c : ι} {seed : Key}
    {ch : DataChannel K} (hk : (s.clients c).keyed = some (seed, ch)) :
    (clientChannel K seed).Evolves ch ∧
      ∃ i t hs msg3, At h i t ∧ SystemEffect.client c (.wroteMsg3 hs msg3 seed) ∈ t.out := by
  obtain ⟨hev, _, u, hs, msg3, hu, hm⟩ := keyed_origin (hr.project (client_projects c)) hk
  obtain ⟨i, t, ht, hpt⟩ := at_project hu
  exact ⟨hev, i, t, hs, msg3, ht, mem_of_clientPart hpt hm⟩

theorem written_initiated (hr : SystemRun cfg (.init secret sources) h s) {i : Nat}
    {t : SystemStep K ι} (ht : At h i t) {c : ι} {hs : K.Handshake} {msg3 : Bytes} {seed : Key}
    (hm : SystemEffect.client c (.wroteMsg3 hs msg3 seed) ∈ t.out) :
    K.Initiated (cfg.client c).keypair.priv (cfg.client c).serverPub hs ∧
      ∃ hs', K.writeMessage hs seed.val = (.ok msg3, hs') := by
  obtain ⟨u, hu, hx, hpre, -, hn⟩ := clientPart_of_mem hr ht hm
  have hsound : u.pre.Sound (cfg.client c) := by
    rw [hpre]
    exact sound_run ((hr.step ht).1.project (client_projects c))
  exact ⟨wroteMsg3_initiated hsound hn hx, (wroteMsg3_inv hn hx).2.1⟩

end Obfs.Udp

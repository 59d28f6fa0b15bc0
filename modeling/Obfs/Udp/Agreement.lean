import Obfs.Symbolic.Laws

/-! Agreement with key confirmation: a client that returns a channel shares it
with a session of the server, and with the one its address points to. -/
namespace Obfs.Udp
open Trace
variable {K : Crates} {ι : Type} [DecidableEq ι] {cfg : SystemCfg K ι} {secret : K.CookieSecret}
  {sources : Nat → Broadcast.Channel (Event K.core)} {h : List (SystemStep K ι)}
  {s : SystemState K ι}

/-- The Hs3 datagrams of client c, and of no other client, come from address a. -/
def SoleClient (h : List (SystemStep K ι)) (c : ι) (a : SocketAddr) : Prop :=
  ∀ i j t u c' hs msg3 seed inp, At h i t →
    SystemEffect.client c' (.wroteMsg3 hs msg3 seed) ∈ t.out → At h j u →
    u.event = .server (.recv inp) → unshapeHs K inp.dgram = some (.hs3, msg3) →
      (inp.src = a ↔ c' = c)

theorem establishes_installs {cfg : ServerCfg K} {v : ServerStep K} {src : SocketAddr}
    {ph : PendingHandshake K} {msg3 : Bytes} {n : Nat} {seed key : Key}
    (hn : serverNext cfg v.pre v.event = some (v.post, v.out))
    (hp : v.pre.pending.lookup src = some ph)
    (he : Establishes cfg v src ph.responder msg3 n seed key) :
    Effect.install src n key ∈ v.out := by
  obtain ⟨inp, r', hev, rfl, hu, hr, hk, hg, rfl, -⟩ := he
  rw [hev] at hn
  have hs := ((serverNext_recv cfg).mp hn).1
  rw [serverNext_hs3 cfg hs hu hp (completeHandshakeMsg3_of_read hr hk) hg] at hn
  rw [← (Prod.mk.inj (Option.some.inj hn)).2]
  exact List.mem_cons_self

theorem Opened.installs {N : K.Noise} (hr : SystemRun cfg (.init secret sources) h s)
    {n j i : Nat} {c : ι} {src : SocketAddr} {seed : Key} (ho : Opened N cfg h n j i c src seed) :
    ∃ u key, At h j u ∧ SystemEffect.server (.install src n key) ∈ u.out ∧
      u.post.server.pending.lookup src = none := by
  obtain ⟨-, t, hs, msg3, u, v, ph, ht, hm, hu, hv, hp, hN, he⟩ := ho
  obtain ⟨-, hpost, hn⟩ := hr.component server_projects hu hv
  have hins := establishes_installs hn hp he
  obtain ⟨inp, _, hev, rfl, hhs3, -⟩ := he
  rw [hev] at hn
  refine ⟨u, _, hu, mem_of_serverPart hv hins, ?_⟩
  rw [← hpost]
  exact hs3_takes hn hhs3

theorem install_opened (N : K.Noise) (hr : SystemRun cfg (.init secret sources) h s)
    (hg : GenuineMsg3 h) {j n : Nat} {u : SystemStep K ι} {src : SocketAddr} {key : Key}
    (hu : At h j u) (hm : SystemEffect.server (.install src n key) ∈ u.out) :
    ∃ i c seed, Opened N cfg h n j i c src seed := by
  obtain ⟨v, hv, hx, -, -, hn⟩ := serverPart_of_mem hr hu hm
  obtain ⟨ph, ch, hp, ha, -⟩ := install_inv hn hx
  obtain ⟨i, c, seed, ho, -⟩ := admits_opened N hr hg hu hv hp ha
  exact ⟨i, c, seed, ho⟩

theorem Opened.pending {N : K.Noise} (hr : SystemRun cfg (.init secret sources) h s)
    (hf : FreshEphemerals h) (hm2 : GenuineMsg2 N h) {n j i : Nat} {c : ι} {src : SocketAddr}
    {seed : Key} (ho : Opened N cfg h n j i c src seed) :
    ∃ q ph, q < i ∧ ∀ m u, q < m → m < j → At h m u →
      u.post.server.pending.lookup src = some ph := by
  obtain ⟨-, t, hs, msg3, u, v, ph, ht, hm, hu, hv, hp, hN, -⟩ := ho
  rw [(hr.component server_projects hu hv).1] at hp
  -- the msg2 that the client read comes from the same responder
  have hans : N.transcript hs ∈
      (t.out.filterMap SystemEffect.msg3?).map fun m => N.transcript m.1 :=
    List.mem_map.mpr ⟨(hs, msg3), mem_msg3.mpr ⟨c, seed, hm⟩, rfl⟩
  obtain ⟨q', tq', hq', htq', hresp⟩ := hm2 i t ht _ hans
  obtain ⟨r', hr', hN'⟩ := List.mem_map.mp hresp
  obtain ⟨src', wire', hpend'⟩ := mem_responders.mp hr'
  obtain ⟨-, hafter⟩ := pending_since N hr hf htq' hpend' hu hp (hN'.trans hN)
  exact ⟨q', ph, hq', fun m u' hqm hmj hu' => (hafter m u' hqm hmj hu').1⟩

theorem returned_opened (N : K.Noise) (S : K.Sealing) (O : K.Opening)
    (hr : SystemRun cfg (.init secret sources) h s) (hh : Honest h)
    (hrec : GenuineRecords S O h) {k : Nat} {t : SystemStep K ι} (ht : At h k t) {c : ι}
    {seed : Key} {ch : DataChannel K} (hm : SystemEffect.client c (.returned seed ch) ∈ t.out) :
    ∃ n j i src, j < k ∧ Opened N cfg h n j i c src seed ∧
      (∀ m u, i < m → m < k → At h m u → ∀ hs msg3 seed',
        SystemEffect.client c (.wroteMsg3 hs msg3 seed') ∉ u.out) ∧
      (clientChannel K seed).Evolves ch := by
  obtain ⟨u, hu, hx, hpre, -, hn⟩ := clientPart_of_mem hr ht hm
  obtain ⟨data, from', w, attempt, resends, ch0, wire3, deadline, env, he, hst, hopen, rfl⟩ :=
    returned_inv hn hx
  rw [hpre] at hst
  have hkeyed : (t.pre.clients c).keyed = some (seed, ch0) := by rw [hst]; rfl
  have hready : (t.pre.clients c).readySeed = some seed := by rw [hst]; rfl
  obtain ⟨hev, -⟩ := keyed_written (hr.step ht).1 hkeyed
  obtain ⟨record, plaintext, hby, -⟩ := DataChannel.openDatagram_ok hopen
  have hopened : ((deriveRecordKeys K seed).2, record, plaintext) ∈ openedRecords O t := by
    rw [← keyed_opener O (hr.step ht).1 hkeyed]
    simp [openedRecords, reader, clientPart_event hu, he, hkeyed, hby]
  obtain ⟨l, tl, n, src, -, -, -, j, i, c', hlk, -, -, -, hjl, ho⟩ :=
    s2c_sealed N S O hr hh hrec ht (mem_gather_of_take (keyed_drawn (hr.step ht).1 hkeyed)) hopened
  -- the session belongs to the Hs3 that this attempt has written last
  obtain ⟨i', ti, hs, msg3, hti, hw, hafter⟩ := ready_written (hr.step ht).1 hready
  obtain ⟨hi'k, hti⟩ := hti.of_take
  obtain ⟨hij, t', hs', msg3', u', v, ph, ht', hm', rest⟩ := ho
  obtain ⟨rfl, rfl, rfl, rfl⟩ := written_unique hr hh.seeds ht' hti hm' hw
  refine ⟨n, j, i, src, by omega, ⟨hij, t', hs', msg3', u', v, ph, ht', hm', rest⟩, ?_,
    .opened data hev⟩
  intro m um him hmk hum
  exact hafter m um him (hum.take hmk)

theorem Opened.session {N : K.Noise} (S : K.Sealing) (O : K.Opening)
    (hr : SystemRun cfg (.init secret sources) h s) {n j i k : Nat} {c : ι} {src : SocketAddr}
    {seed : Key} (ho : Opened N cfg h n j i c src seed) {t : SystemStep K ι} (ht : At h k t)
    (hjk : j < k) :
    ∃ ses, t.post.server.sessions[n]? = some ses ∧
      S.key ses.channel.sealer = (deriveRecordKeys K seed).2 ∧
      O.key ses.channel.opener = (deriveRecordKeys K seed).1 := by
  obtain ⟨-, _, _, _, u, v, ph, -, -, hu, hv, -, -, inp, _, -, -, -, -, -, -, -, hses⟩ := ho
  rw [(hr.component server_projects hu hv).2.1] at hses
  have hlater := ((hr.take_succ ht).drop_succ (hu.take (by omega))).project server_projects
  obtain ⟨ses, hses', -, hev⟩ := session_kept hlater hses
  have hev' : (serverChannel K seed).Evolves ses.channel :=
    (DataChannel.Evolves.sealed .pong inp.rng .refl).trans hev
  refine ⟨ses, hses', ?_, ?_⟩
  · rw [hev'.sealer_key S]
    exact S.key_new _
  · rw [hev'.opener_key O]
    exact O.key_new _

/-- The peer at the client's address is the session of its latest Hs3: a later
one would need a responder that was pending when this one was installed. -/
theorem Opened.current {N : K.Noise} (hr : SystemRun cfg (.init secret sources) h s)
    (hh : Honest h) (hm2 : GenuineMsg2 N h) {c : ι} {a : SocketAddr} (hsole : SoleClient h c a)
    {n j i k : Nat} {seed : Key} (ho : Opened N cfg h n j i c a seed) (hjk : j < k)
    (hlast : ∀ m u, i < m → m < k → At h m u → ∀ hs msg3 seed',
      SystemEffect.client c (.wroteMsg3 hs msg3 seed') ∉ u.out)
    {t : SystemStep K ι} (ht : At h k t) {p : PeerState}
    (hp : t.pre.server.peers.lookup a = some p) : p.session = n := by
  obtain ⟨u, key, hu, hins, htaken⟩ := ho.installs hr
  obtain ⟨j', u', key', hu', hins', hafter⟩ := peer_installed (hr.step ht).1 hp
  obtain ⟨hj'k, hu'⟩ := hu'.of_take
  rcases Nat.lt_trichotomy j j' with hlt | rfl | hlt
  · exfalso
    obtain ⟨i', c', seed', ho'⟩ := install_opened N hr hh.msg3 hu' hins'
    obtain ⟨q, ph, hqi, hstay⟩ := ho'.pending hr hh.ephemerals hm2
    have hc : c' = c := by
      obtain ⟨-, t, hs, msg3, w, v, _, ht, hm, hw, hv, -, -, inp, _, hev, hsrc, hhs3, -⟩ := ho'
      exact (hsole i' j' t w c' hs msg3 seed' inp ht hm hw (by rw [serverPart_event hv, hev])
        hhs3).mp hsrc
    subst hc
    have hle : i' ≤ i := by
      by_contra hgt
      obtain ⟨hwindow, t, hs, msg3, _, _, _, ht, hm, -⟩ := ho'
      exact hlast i' t (by omega) (by omega) ht hs msg3 seed' hm
    have hij := ho.1
    rw [hstay j u (by omega) hlt hu] at htaken
    cases htaken
  · cases hu.unique hu'
    obtain ⟨v, hx, hx', hn⟩ := server_effects hr hu hins hins'
    exact Option.some.inj ((install_post hn hx').symm.trans (install_post hn hx))
  · exact absurd hins (hafter j u hlt (hu.take hjk) n key)

/-- Agreement with key confirmation. When the client returns the channel of an
attempt, the server has completed an Hs3 with the seed of this attempt, the
gate has accepted the client's key, the channel and the session's have the
same keys crosswise, and a peer at the client's address is this session. -/
theorem handshake_agreement (N : K.Noise) (S : K.Sealing) (O : K.Opening)
    (hr : SystemRun cfg (.init secret sources) h s) (hh : Honest h) (hm2 : GenuineMsg2 N h)
    (hrec : GenuineRecords S O h) {c : ι} {a : SocketAddr} (hsole : SoleClient h c a) {k : Nat}
    {t : SystemStep K ι} (ht : At h k t) {seed : Key} {ch : DataChannel K}
    (hm : SystemEffect.client c (.returned seed ch) ∈ t.out) :
    ∃ j u v r msg3 n ses, j < k ∧ At h j u ∧ serverPart u = some v ∧
      Establishes cfg.server v a r msg3 n seed (N.pubKey (cfg.client c).keypair.priv) ∧
      t.post.server.sessions[n]? = some ses ∧ S.key ch.sealer = O.key ses.channel.opener ∧
      O.key ch.opener = S.key ses.channel.sealer ∧
      ∀ p, t.post.server.peers.lookup a = some p → p.session = n := by
  obtain ⟨n, j, i, src, hjk, ho, hlast, hev⟩ := returned_opened N S O hr hh hrec ht hm
  obtain ⟨ses, hses, hs2c, hc2s⟩ := ho.session S O hr ht hjk
  obtain ⟨hij, ti, hs, msg3, u, v, ph, hti, hw, hu, hv, hp, hN, he⟩ := id ho
  have hsrc : src = a := by
    obtain ⟨inp, _, hev, rfl, hhs3, -⟩ := id he
    exact (hsole i j ti u c hs msg3 seed inp hti hw hu (by rw [serverPart_event hv, hev])
      hhs3).mpr rfl
  subst hsrc
  refine ⟨j, u, v, ph.responder, msg3, n, ses, hjk, hu, hv, he, hses, ?_, ?_, ?_⟩
  · rw [hev.sealer_key S, hc2s]
    exact S.key_new _
  · rw [hev.opener_key O, hs2c]
    exact O.key_new _
  · intro p hpeer
    have hsame : t.post.server = t.pre.server := by
      rcases systemNext_case (hr.next_eq ht) with ⟨_, _, -, hout, -⟩ | ⟨_, _, _, -, -, hsv, -⟩
      · rw [hout] at hm
        simp at hm
      · exact hsv
    rw [hsame] at hpeer
    exact ho.current hr hh hm2 hsole hjk hlast ht hpeer

end Obfs.Udp

namespace Obfs.Symbolic
open Udp Trace

theorem handshake_agreement_session :
    ∃ h s t ch, SystemRun systemCfg systemStart h s ∧ At h 4 t ∧
      SystemEffect.client () (.returned (keyOf 1) ch) ∈ t.out ∧
      ∃ n ses, t.post.server.sessions[n]? = some ses ∧
        ch.sealer.key = ses.channel.opener.key ∧ ch.opener.key = ses.channel.sealer.key ∧
        ∀ p, t.post.server.peers.lookup (addr 1) = some p → p.session = n := by
  obtain ⟨h, s, hr, hev, hh, hm2, hrec, -, hret, -⟩ := session_run
  have hsole : SoleClient h () (addr 1) := by
    intro i j t u c' hs msg3 seed inp _ _ hu he _
    exact ⟨fun _ => rfl, fun _ => session_src hev hu he⟩
  obtain ⟨t, ht, hrt⟩ := at_map hret (j := 4) rfl
  have hmem : keyOf 1 ∈ returns t := by simp [hrt]
  obtain ⟨x, hx, he⟩ := List.mem_filterMap.mp hmem
  split at he
  · rename_i seed ch
    cases he
    obtain ⟨_, _, _, _, _, n, ses, -, -, -, -, hses, h1, h2, hp⟩ :=
      handshake_agreement noise sealing opening hr hh hm2 hrec hsole ht hx
    exact ⟨h, s, t, ch, hr, ht, hx, n, ses, hses, h1, h2, hp⟩
  · cases he

end Obfs.Symbolic

import Obfs.Client.Subscriptions
import Obfs.Tcp.Events
import Obfs.Tcp.Requests

/-! Events over TCP streams, from a source of the service to a stream of a client,
in a whole run of the system. The network may do anything to the streams. -/
namespace Obfs.Tcp
open Broadcast Client TcpStream Trace
variable {K : StreamCrates} {ι : Type} [DecidableEq ι] {cfg : TcpCfg K ι}
  {sources : Nat → Channel (Event K.core)} {h : List (TcpStep cfg)} {s s' : TcpState cfg}
  {e : TcpEvent cfg} {o : List (TcpEffect K ι)}

section Sources
variable {service : Service K.core} {ep ep' : StreamEnd K} {conn conn' : ConnState K.core}
  {o : List (ConnEffect K.core)} {e : HandlerEvent K} {ops : List (StreamOp K)}

theorem StreamCase.sources_eq (hc : StreamCase service ep conn conn' o e ep' ops) :
    conn'.sources = conn.sources := by
  cases hc with
  | waits hr hc ho => rw [hc]
  | failed hr hn =>
    cases connNext_case hn
    rfl
  | received hr hi hn =>
    cases connNext_case hn with
    | ping hs | denied hs hv => exact sendFrame_sources _ _ _
    | unserved hs hv he => exact enqueue_sources _ _
    | request hs | subscribed hs hv he | inert hs hi => rfl
  | answered hr hi hn =>
    cases connNext_case hn with
    | ping hs | denied hs hv => exact sendFrame_sources _ _ _
    | unserved hs hv he => exact enqueue_sources _ _
    | request hs | subscribed hs hv he | inert hs hi => rfl
  | outbound hq hn =>
    cases connNext_case hn
    exact sendFrame_sources _ _ _
  | respond hp hn =>
    cases connNext_case hn
    exact sendFrame_sources _ _ _
  | forward hn =>
    cases connNext_case hn with
    | forwarded hf hp => exact enqueue_sources _ _
    | polled hf hp => rfl

end Sources

theorem conn_sources (hr : TcpRun (.init cfg sources) h s) {m : Nat} {key : Key}
    {ep : StreamEnd K} {conn : ConnState K.core}
    (hm : s.conns[m]? = some (.running key ep conn)) : conn.sources = s.sources := by
  refine hr.invariant (I := fun s => ∀ hd ∈ s.conns, ∀ key ep conn,
    hd = Handler.running key ep conn → conn.sources = s.sources)
    (by intro hd hmem; cases hmem) ?_ _ (List.mem_of_getElem? hm) key ep conn rfl
  intro s e s' o ih hn hd hmem key ep conn heq
  subst heq
  cases tcpNext_case hn with
  | accept hl =>
    rcases List.mem_append.mp hmem with hmem | hmem
    · exact ih _ hmem key ep conn rfl
    · cases List.mem_singleton.mp hmem
  | @handshake n e rng socket hd hm' hs =>
    rcases List.mem_or_eq_of_mem_set hmem with hmem | rfl
    · exact ih _ hmem key ep conn rfl
    · obtain ⟨-, rfl, -⟩ := handshakeNext_running hs
      rfl
  | @stream n e key' ep₁ ep₂ conn₁ conn₂ o hm' hs =>
    rcases List.mem_or_eq_of_mem_set hmem with hmem | heq
    · exact ih _ hmem key ep conn rfl
    · cases heq
      rw [(streamNext_case hs).sources_eq]
      exact ih _ (List.mem_of_getElem? hm') key ep₁ conn₁ rfl
  | emit | close =>
    obtain ⟨hd, hmem', heq⟩ := List.mem_map.mp hmem
    cases hd with
    | handshaking => cases heq
    | returned => cases heq
    | running key' ep' conn' =>
      cases heq
      have hsame := ih _ hmem' key ep conn' rfl
      funext j
      simp only [ConnState.updateSource, TcpState.updateSource, hsame]
  | _ => exact ih _ hmem key ep conn rfl

theorem eventOf_toVec (hrep : K.ReplyCodec) (env : Envelope K.core) (json : Bytes)
    (h : K.toVec env = .ok json) : (decoded K json).bind Envelope.event? = env.event? := by
  ext ev
  rw [Option.bind_eq_some_iff, event?_eq_some, ← hrep.event env json ev h]
  constructor
  · intro hx
    obtain ⟨env', hd, he⟩ := hx
    rw [event?_eq_some.mp he] at hd
    exact decoded_eq_some.mp hd
  · exact fun hd => ⟨_, decoded_eq_some.mpr hd, rfl⟩

def yieldedBy (c : ι) (n : Nat) (t : TcpStep cfg) : List (Event K.core) :=
  (transportOut c t).filterMap (TransportEffect.yielded? n)

theorem yielded_sublist (hr : TcpRun (.init cfg sources) h s) (c : ι) (n : Nat) :
    (gather (yieldedBy c n) h).Sublist
      ((gather (openedIn (.client c)) h).filterMap fun pt =>
        (decoded K pt).bind Envelope.event?) := by
  rw [← received_gather Envelope.event? hr c]
  have htr := clientTracks hr c
  cases hs : s.clients c with
  | idle =>
    rw [hs] at htr
    rw [show gather (yieldedBy c n) h = [] from yields_nothing htr n]
    exact List.nil_sublist _
  | failed err =>
    rw [hs] at htr
    rw [show gather (yieldedBy c n) h = [] from yields_nothing htr n]
    exact List.nil_sublist _
  | running tr =>
    rw [hs] at htr
    obtain ⟨link, g, hg, hout⟩ := htr
    exact yields_received_within hg hout n

theorem conn_received (hn : tcpNext s e = some (s', o)) (m : Nat) :
    (connOut m ⟨s, e, o, s'⟩).filterMap ConnEffect.received? =
      (openedIn (.conn m) ⟨s, e, o, s'⟩).filterMap (decoded K) := by
  rcases conn_case hn m with ⟨ho, ht⟩ | ⟨e', key, ep, ep', conn, conn', hm, -, hc⟩
  · rw [ho, (idle_turn ht).1]
    rfl
  · have hep : s.endOf (.conn m) = some ep := by
      show (s.conns[m]?).bind Handler.stream? = some ep
      rw [hm]
      rfl
    rw [(own_turn hep).1]
    exact hc.received_eq

omit [DecidableEq ι] in
theorem linkCase_plain {c : ι} {u : Transport (cfg.transport c)}
    {o : List (TransportEffect K.core)} {ops : List (LinkOp (cfg.transport c))}
    (hc : LinkCase u o ops) {pt : Bytes}
    (hpt : pt ∈ sealedBy (K := K) u.link (ops.map streamOp)) :
    ∃ env, K.toVec env = .ok pt ∧ (env = .pong ∨ ∃ origin, (origin, env) ∈ takenFrom o) := by
  have hsend {ep : StreamEnd K} {env : Envelope K.core} (out : K.Rng × Except IoError Unit)
      (hs : ep.sealed? env = some pt) : K.toVec env = .ok pt := by
    rcases send_cases ep env out with ⟨hs', -⟩ | ⟨pt', ct, hs', hv, -⟩
    · cases hs.symm.trans hs'
    · cases hs.symm.trans hs'
      exact hv
  cases hc with
  | none hr hk => cases hpt
  | unread hi hr hk => cases hpt
  | read hi hr hk => cases hpt
  | @answered reads out hi hr hk =>
    simp only [List.map_cons, List.map_nil, streamOp, sealedBy, StreamOp.sealed, List.nil_append,
      List.append_nil, Option.mem_toList] at hpt
    exact ⟨.pong, hsend out hpt, Or.inl rfl⟩
  | @took origin env out hr hk =>
    simp only [List.map_cons, List.map_nil, streamOp, sealedBy, StreamOp.sealed, List.append_nil,
      Option.mem_toList] at hpt
    refine ⟨env, hsend out hpt, Or.inr ⟨origin, ?_⟩⟩
    rw [hk]
    exact List.mem_singleton_self _

theorem sealed_plain (hn : tcpNext s e = some (s', o)) {c : ι} {pt : Bytes}
    (hpt : pt ∈ sealedIn (.client c) ⟨s, e, o, s'⟩) :
    ∃ env, K.toVec env = .ok pt ∧ (env = .pong ∨
      ∃ origin, TransportEffect.took origin env ∈ transportOut c ⟨s, e, o, s'⟩) := by
  rcases client_case hn c with ⟨ho, ht⟩ | ⟨e', u, u', hu, -, hnext, ht⟩
  · rw [(idle_turn ht).2] at hpt
    cases hpt
  · have hep : s.endOf (.client c) = some u.link := by
      show (s.clients c).stream? = some u.link
      rw [hu]
      rfl
    rw [(own_turn hep).2, ht] at hpt
    obtain ⟨env, hv, hp | ⟨origin, hk⟩⟩ := linkCase_plain (link_step hnext).1 hpt
    · exact ⟨env, hv, Or.inl hp⟩
    · exact ⟨env, hv, Or.inr ⟨origin, mem_takenFrom.mp hk⟩⟩

variable {Z : K.Cipher}

/-- The subscriptions that a connection receives are those of its client's
subscribe calls, with the client's capability. -/
theorem Conversing.subscribed (hsub : K.SubscribeCodec) (hr : TcpRun (.init cfg sources) h s)
    {c : ι} {m : Nat} (hc : Conversing Z h s c m) {topic : K.core.Topic}
    {filter : Option K.core.Json} {capability : Option K.core.Capability}
    (hrecv : ConnEffect.received (.subscribe topic filter capability) ∈ gather (connOut m) h) :
    capability = (cfg.client c).capability ∧
      ∃ tr, s.clients c = .running tr ∧ ∃ sub ∈ tr.subscriptions, sub.topic = topic := by
  -- the plaintext of the subscription, at the connection and at the client
  obtain ⟨i, t, ht, hx⟩ := mem_gather.mp hrecv
  have hmem : .subscribe topic filter capability ∈
      (openedIn (.conn m) t).filterMap (decoded K) := by
    rw [← conn_received (hr.next_eq ht) m]
    exact List.mem_filterMap.mpr ⟨_, hx, rfl⟩
  obtain ⟨pt, hpt, hd⟩ := List.mem_filterMap.mp hmem
  have hopened : pt ∈ gather (openedIn (.conn m)) h := mem_gather.mpr ⟨i, t, ht, hpt⟩
  obtain ⟨j, u, hu, hsealed⟩ := mem_gather.mp (hc.toServer.subset hopened)
  obtain ⟨env, hv, henv⟩ := sealed_plain (hr.next_eq hu) hsealed
  obtain ⟨filter', rfl⟩ := hsub env pt topic filter capability hv (decoded_eq_some.mp hd)
  obtain henv | ⟨origin, htook⟩ := henv
  · cases henv
  have htaken : TransportEffect.took origin (.subscribe topic filter' capability) ∈
      gather (transportOut c) h := mem_gather.mpr ⟨j, u, hu, htook⟩
  have htr := clientTracks hr c
  cases hs : s.clients c with
  | idle =>
    rw [hs] at htr
    rw [show gather (transportOut c) h = [] from htr] at htaken
    cases htaken
  | failed err =>
    rw [hs] at htr
    rw [show gather (transportOut c) h = [] from htr] at htaken
    cases htaken
  | running tr =>
    rw [hs] at htr
    obtain ⟨link, g, hg, hout⟩ := htr
    rw [hout] at htaken
    obtain ⟨l, y, hy, hyt⟩ := mem_gather.mp htaken
    obtain ⟨-, hcap, k, sub, -, hk, htopic⟩ := took_subscribe hg hy hyt
    exact ⟨hcap, tr, rfl, sub, List.mem_of_getElem? hk, htopic⟩

/-- An event reaches client c from forwarder i of connection m, which has it from
position n of its source. The connection has the client's key, the source is the
one that the service has for the topic, the service accepts the client's
capability for it, and the client has subscribed. -/
structure Delivers (cfg : TcpCfg K ι) (key : Key) (s : TcpState cfg) (c : ι) (m : Nat)
    (i n : Nat) (ev : Event K.core) : Prop where
  connection : ∃ ep conn f, s.conns[m]? = some (.running key ep conn) ∧
    conn.forwarders[i]? = some f ∧ f.topic = ev.topic ∧
    cfg.server.service.eventSource ev.topic = some f.source ∧
    (s.sources f.source).log[n]? = some ev
  authorised : ∃ subject,
    cfg.server.service.verifyTopic (cfg.client c).capability ev.topic = .ok subject
  subscribed : ∃ tr, s.clients c = .running tr ∧ ∃ sub ∈ tr.subscriptions, sub.topic = ev.topic

theorem conn_events {key : Key} {ep : StreamEnd K} {conn : ConnState K.core}
    (hr : TcpRun (.init cfg sources) h s) {m : Nat}
    (hm : s.conns[m]? = some (.running key ep conn)) :
    (((gather (connOut m) h).filterMap ConnEffect.encrypted?).filterMap
        Envelope.event?).Sublist ((gather (forwarding K.core).sent (connSteps m h)).map Prod.snd) ∧
      (gather (forwarding K.core).sent (connSteps m h)).Pairwise
        (fun x y => x.1.1 = y.1.1 → x.1.2 < y.1.2) ∧
      ∀ i n ev, ((i, n), ev) ∈ gather (forwarding K.core).sent (connSteps m h) →
        ∃ f filter capability subject,
        conn.forwarders[i]? = some f ∧ f.topic = ev.topic ∧
        (conn.sources f.source).log[n]? = some ev ∧
        cfg.server.service.eventSource f.topic = some f.source ∧
        ConnEffect.received (.subscribe f.topic filter capability) ∈ gather (connOut m) h ∧
        cfg.server.service.verifyTopic capability f.topic = .ok subject := by
  obtain ⟨sources₀, hg⟩ := (connSteps_run hr m).2 ep conn (running?_eq hm)
  rw [connOut_gather hr m]
  refine ⟨?_, ?_, ?_⟩
  · rw [← popped_run hg, ← filterMap_gather, ← filterMap_gather]
    exact (encrypted_run hg).1.trans (List.sublist_append_left _ _)
  · exact Forwarding.sent_sorted forwarding_case rfl hg
  · intro i n ev hx
    obtain ⟨-, f, hf, htopic, hlog⟩ := Forwarding.sent_gather forwarding_case hg hx
    obtain ⟨j, t, ht, -, hs, -⟩ := Forwarding.spawned_at forwarding_case rfl hg hf
    obtain ⟨filter, capability, subject, hrecv, hv, he⟩ := spawned_subscribed (hg.next_eq ht) hs
    exact ⟨f, filter, capability, subject, hf, htopic.symm, hlog, he,
      mem_gather.mpr ⟨j, t, ht, hrecv⟩, hv⟩

/-- The events that a stream of a client reads. They are some of what the forwarders
of the one connection with the client's key have sent on, each was emitted by the
source of its topic, and the service has authorised this client for the topic; and
of what one forwarder has sent, the stream reads nothing twice and nothing out of
order. -/
theorem stream_events_in_order (X : K.Xk Z) (hsub : K.SubscribeCodec) (hrep : K.ReplyCodec)
    (hr : TcpRun (.init cfg sources) h s) (hfresh : FreshEphemerals h) (hgen : Genuine Z h)
    (c : ι) (n : Nat) :
    ∃ (m : Nat) (sent : List ((Nat × Nat) × Event K.core)),
      gather (yieldedBy c n) h = sent.map Prod.snd ∧
      sent.Sublist (gather (forwarding K.core).sent (connSteps m h)) ∧
      sent.Pairwise (fun x y => x.1.1 = y.1.1 → x.1.2 < y.1.2) ∧
      ∀ i k ev, ((i, k), ev) ∈ sent →
        Delivers cfg (X.pubKey (cfg.client c).localPrivate) s c m i k ev := by
  have hyield := yielded_sublist hr c n
  by_cases hne : gather (openedIn (.client c)) h = []
  · rw [hne, List.filterMap_nil] at hyield
    exact ⟨0, [], List.sublist_nil.mp hyield, List.nil_sublist _, List.Pairwise.nil, nofun⟩
  obtain ⟨d, m, hp | hp, hc⟩ := conversing X hr hfresh hgen hne
  · cases hp
    obtain ⟨ep, conn, hm, -⟩ := hc.admitted X hr
    obtain ⟨hall, hsorted, hfrom⟩ := conn_events hr hm
    have htoClient := (hc.toClient.filterMap fun pt => (decoded K pt).bind Envelope.event?).sublist
    rw [encrypted_gather (eventOf_toVec hrep) hr m] at htoClient
    obtain ⟨sent, hsent, heq⟩ := List.sublist_map_iff.mp ((hyield.trans htoClient).trans hall)
    refine ⟨m, sent, heq, hsent, hsorted.sublist hsent, ?_⟩
    intro i k ev hx
    obtain ⟨f, filter, capability, subject, hf, htopic, hlog, he, hrecv, hv⟩ :=
      hfrom i k ev (hsent.subset hx)
    obtain ⟨hcap, hclient⟩ := hc.subscribed hsub hr hrecv
    rw [conn_sources hr hm] at hlog
    rw [htopic] at he hv hclient
    subst hcap
    exact ⟨⟨ep, conn, f, hm, hf, htopic, he, hlog⟩, ⟨subject, hv⟩, hclient⟩
  · cases hp

end Obfs.Tcp

namespace Obfs.Symbolic
open Tcp Client Trace

def eventJson (ev : Event core) : Bytes :=
  ([3, ev.topic, ev.payload] : Bytes) ++ counterBytes ev.seq.toNat

def twoEvents : List (TcpEvent keyedCfg) :=
  let a := lastMsg 5 6 false
  [.accept, connects 5 6 false, .conn 0 (atConn 5 6 false),
    .transport false (.subscribe (3 : UInt8)), .transport false (.attach 0),
    .transport false (.pump (.turn false none ((), .ok ()))),
    .conn 0 (.frame (arrived (keyedFrame a true 0 [4, 3, 0, 0, 1, 7])) ((), .ok ())),
    .emit 0 news, .emit 0 ⟨4, 1, 1⟩, .emit 0 sequel, .conn 0 (.forward 0), .conn 0 (.forward 0),
    .conn 0 (.forward 0), .conn 0 (.outbound ((), .ok ())), .conn 0 (.outbound ((), .ok ())),
    .transport false (.pump (.turn false (some (arrived (keyedFrame a false 0 (eventJson news) ++
      keyedFrame a false 1 (eventJson sequel)))) ((), .ok ()))),
    .transport false (.pump (.turn false (some []) ((), .ok ()))),
    .transport false (.poll 0), .transport false (.poll 0)]

theorem stream_events_in_order_two : ∃ h s m, ∃ sent : List ((Nat × Nat) × Event core),
    TcpRun keyedStart h s ∧
    gather (yieldedBy false 0) h = [news, sequel] ∧ sent.map Prod.snd = [news, sequel] ∧
    sent.Sublist (gather (forwarding core).sent (connSteps m h)) ∧
    sent.Pairwise (fun x y => x.1.1 = y.1.1 → x.1.2 < y.1.2) ∧
    ∀ i k ev, ((i, k), ev) ∈ sent → Delivers keyedCfg (staticOf false) s false m i k ev := by
  have hx : ∃ h s, TcpRun keyedStart h s ∧ h.map Step.event = twoEvents ∧
      FreshEphemerals h ∧ Genuine keyedCipher h ∧
      gather (yieldedBy false 0) h = [news, sequel] :=
    Run.of_exec (fun h _ => FreshEphemerals h ∧ Genuine keyedCipher h ∧
      gather (yieldedBy false 0) h = [news, sequel]) (by decide +kernel)
  obtain ⟨h, s, hr, -, hfresh, hgen, hyield⟩ := hx
  obtain ⟨m, sent, heq, hsent, hsorted, hfrom⟩ :=
    stream_events_in_order xk subscribeCodec replyCodec hr hfresh hgen false 0
  exact ⟨h, s, m, sent, hr, hyield, heq.symm.trans hyield, hsent, hsorted, hfrom⟩

end Obfs.Symbolic

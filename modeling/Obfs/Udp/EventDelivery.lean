import Obfs.Client.Subscriptions
import Obfs.Subscription
import Obfs.Udp.Events
import Obfs.Udp.Requests

/-! Events over datagrams, from a source of the service to a stream of a client:
what a stream reads was emitted by the service, on a topic that this client has
subscribed to with its own capability and that the service has authorised. -/
namespace Obfs.Udp
open Trace Client
variable {K : Crates}

section Server
variable {cfg : ServerCfg K} {s s' : ServerState K} {e : ServerEvent K} {o : List (Effect K)}

/-- The source that the service has for the event's topic has carried it. -/
def Emitted (cfg : ServerCfg K) (s : ServerState K) (ev : Event K.core) : Prop :=
  ∃ src, cfg.service.eventSource ev.topic = some src ∧ ev ∈ (s.sources src).log

/-- Forwarders read the sources that the service has named for their topics, and
only what these have carried waits for a sealer task. -/
structure Sourced (cfg : ServerCfg K) (s : ServerState K) : Prop where
  forwarder : ∀ f ∈ s.forwarders, cfg.service.eventSource f.topic = some f.source
  queued : ∀ (n : Nat) (ses : Session K), s.sessions[n]? = some ses →
    ∀ ev, Envelope.event ev ∈ ses.queue → Emitted cfg s ev

theorem Emitted.step {ev : Event K.core} (he : Emitted cfg s ev)
    (h : serverNext cfg s e = some (s', o)) : Emitted cfg s' ev := by
  obtain ⟨src, hsrc, hm⟩ := he
  exact ⟨src, hsrc, ((forwarding_case h).grows src).subset hm⟩

theorem forwarder_sourced (hf : ∀ f ∈ s.forwarders, cfg.service.eventSource f.topic = some f.source)
    (h : serverNext cfg s e = some (s', o)) :
    ∀ f ∈ s'.forwarders, cfg.service.eventSource f.topic = some f.source := by
  have hset {i : Nat} {f g : Forwarder K.core} {alive : Bool} {sent : Option (Event K.core)}
      (hi : s.forwarders[i]? = some f)
      (hp : f.poll (s.sources f.source) alive = some (g, sent)) :
      ∀ f' ∈ s.forwarders.set i g, cfg.service.eventSource f'.topic = some f'.source := by
    intro f' hm
    rcases List.mem_or_eq_of_mem_set hm with hm | rfl
    · exact hf f' hm
    · obtain ⟨-, hsource, htopic, -⟩ := Forwarder.poll_spec hp
      rw [hsource, htopic]
      exact hf f (List.mem_of_getElem? hi)
  cases serverNext_case cfg h with
  | @recv inp s' o hs hc =>
    cases hc with
    | subscribed hp hs ho hv he =>
      intro f hm
      rcases List.mem_append.mp hm with hm | hm
      · exact hf f hm
      · cases List.mem_singleton.mp hm
        exact he
    | _ => exact hf
  | forwarded hi hp => exact hset hi hp
  | polled hi hp => exact hset hi hp
  | _ => exact hf

theorem sourced_step (hs : Sourced cfg s) (h : serverNext cfg s e = some (s', o)) :
    Sourced cfg s' where
  forwarder := forwarder_sourced hs.forwarder h
  queued := by
    intro n ses' hn ev hm
    cases slot_case h n with
    | absent hn0 hn' => rw [hn'] at hn; cases hn
    | live hses hn' hc =>
      cases Option.some.inj (hn'.symm.trans hn)
      rcases hc.queued hm with hm | ⟨f, hf, -, -, htopic, hlog⟩
      · exact (hs.queued n _ hses ev hm).step h
      · refine Emitted.step ⟨f.source, ?_, hlog⟩ h
        rw [← htopic]
        exact hs.forwarder f hf
    | fresh hl he hp ha ho hn' =>
      cases Option.some.inj (hn'.symm.trans hn)
      cases hm

variable {secret : K.CookieSecret} {sources : Nat → Broadcast.Channel (Event K.core)}
  {h : List (ServerStep K)}

theorem sourced_run (hr : ServerRun cfg (.init secret sources) h s) : Sourced cfg s := by
  have h0 : Sourced cfg (ServerState.init secret sources) := by
    refine ⟨nofun, ?_⟩
    intro n ses hn
    simp at hn
  exact hr.invariant h0 fun _ _ _ _ hs hn => sourced_step hs hn

end Server

section System
variable {ι : Type} [DecidableEq ι] {cfg : SystemCfg K ι} {secret : K.CookieSecret}
  {sources : Nat → Broadcast.Channel (Event K.core)} {h : List (SystemStep K ι)}
  {s : SystemState K ι}

theorem received_event_authorised (N : K.Noise) (S : K.Sealing) (O : K.Opening)
    (hsub : K.SubscribeCodec) (hrep : K.ReplyCodec)
    (hr : SystemRun cfg (.init secret sources) h s) (hh : Honest h)
    (hrec : GenuineRecords S O h) {k : Nat} {v : SystemStep K ι} {c : ι} {ev : Event K.core}
    (hv : At h k v) (hm : SystemEffect.client c (.received (.event ev)) ∈ v.out) :
    Emitted cfg.server s.server ev ∧
      ∃ i t σ filter capability wire subject, At h i t ∧
        SystemEffect.client c (.sealed σ (.subscribe ev.topic filter capability) wire) ∈ t.out ∧
        cfg.server.service.verifyTopic capability ev.topic = .ok subject := by
  obtain ⟨l, -, t, n, dst, σ, env, wire, j₀, i₀, seed, ht, hs, ho, _, record, json, _, _, _,
    hrecord, hdec, -⟩ := received_sealed N S O hr hh hrec hv hm
  cases (hrep.event env json ev (recordOf_json hrecord)).mp hdec
  obtain ⟨w, -, hx, hpre, -, hn⟩ := serverPart_of_mem hr ht hs
  obtain ⟨ses, hses, hq⟩ := sealed_event_queued hn hx
  rw [hpre] at hses
  have hsr := server_run (hr.step ht).1
  constructor
  · -- the sources only grow after the event was sealed
    have hem := (sourced_run hsr).queued n ses hses ev hq
    rcases systemNext_case (hr.next_eq ht) with ⟨e', o', -, -, -, hn'⟩ | ⟨_, e', o', -, ho', -⟩
    · have hrest := (hr.drop_succ ht).project server_projects
      exact hrest.invariant (I := fun s => Emitted cfg.server s ev) (hem.step hn')
        fun _ _ _ _ he hn => he.step hn
    · rw [ho'] at hs
      simp at hs
  · obtain ⟨_, w', hw', filter, capability, subject, hrecv, hverify⟩ :=
      pushes_authorised hsr (Or.inr ⟨ses, ev, hses, hq, rfl⟩)
    obtain ⟨j, u, hu, hpu⟩ := at_project hw'
    obtain ⟨env', json', i, ⟨-, t', c', seed', ch, wire', j₁, i₁, src', ht', hs', -, ho', -⟩,
      hjson, hdec'⟩ :=
      received_sealOf N S O hr hh hrec hu.of_take.2 (mem_of_serverPart hpu hrecv)
    obtain ⟨filter', rfl⟩ := hsub env' json' ev.topic filter capability hjson hdec'
    -- the session that was subscribed is the session of the event
    obtain ⟨-, rfl⟩ := ho.of_session hr ho'
    obtain ⟨-, -, -, rfl, -⟩ := ho.unique hr hh ho'
    exact ⟨i, t', ch.sealer, filter', capability, wire', subject, ht', hs', hverify⟩

def poppedAt (n : Nat) (t : SystemStep K ι) : List (Event K.core) :=
  (serverPart t).elim [] (popped n)

/-- Step i takes from the queue of session n the event that forwarder x.1 has sent
on from position x.2 of its source. -/
def OriginOf (h : List (SystemStep K ι)) (i n : Nat) (x : Nat × Nat) (ev : Event K.core) : Prop :=
  (∃ t, At h i t ∧ ev ∈ poppedAt n t) ∧
    (gather ((forwarding K).sentOn n) (h.filterMap serverPart))[rank (poppedAt n) h i]? =
      some (x, ev)

omit [DecidableEq ι] in
theorem poppedAt_length (n : Nat) (t : SystemStep K ι) : (poppedAt n t).length ≤ 1 := by
  unfold poppedAt
  cases serverPart t with
  | none => exact Nat.zero_le _
  | some v => exact popped_length n v

theorem sealed_origin (hr : SystemRun cfg (.init secret sources) h s) {i : Nat}
    {t : SystemStep K ι} (ht : At h i t) {n : Nat} {dst : SocketAddr} {σ : K.RecordSealer}
    {ev : Event K.core} {wire : Bytes}
    (hm : SystemEffect.server (.sealed n dst σ (.event ev) wire) ∈ t.out) :
    ∃ x, OriginOf h i n x ev := by
  obtain ⟨v, hv, hx, -, -, hn⟩ := serverPart_of_mem hr ht hm
  have hpop : ev ∈ poppedAt n t := by
    rw [poppedAt, hv]
    exact mem_popped hn hx
  have hsr := server_run hr
  have hat := gather_rank (fun t _ => poppedAt_length n t) ht hpop
  have hlt := (List.getElem?_eq_some_iff.mp hat).1
  -- what was taken so far is the beginning of what was sent on
  have hsent : ((gather ((forwarding K).sentOn n) (h.filterMap serverPart)).map Prod.snd)[
      rank (poppedAt n) h i]? = some ev := by
    have hcomp : gather (popped n) (h.filterMap serverPart) = gather (poppedAt n) h :=
      gather_component serverPart (popped n)
    rw [← popped_run hsr n, hcomp, List.getElem?_append_left hlt]
    exact hat
  rw [List.getElem?_map] at hsent
  obtain ⟨⟨x, ev'⟩, hget, rfl⟩ := Option.map_eq_some_iff.mp hsent
  exact ⟨x, ⟨t, ht, hpop⟩, hget⟩

theorem OriginOf.forwarder (hr : SystemRun cfg (.init secret sources) h s) {i n : Nat}
    {x : Nat × Nat} {ev : Event K.core} (ho : OriginOf h i n x ev) :
    ∃ f, s.server.forwarders[x.1]? = some f ∧ f.tx = n ∧ ev.topic = f.topic ∧
      (s.server.sources f.source).log[x.2]? = some ev := by
  have hsr := server_run hr
  exact Forwarding.sentOn_gather forwarding_case hsr (List.mem_of_getElem? ho.2)

theorem OriginOf.unique (hr : SystemRun cfg (.init secret sources) h s) {i i' n n' : Nat}
    {x : Nat × Nat} {ev ev' : Event K.core} (ho : OriginOf h i n x ev)
    (ho' : OriginOf h i' n' x ev') : i = i' := by
  obtain ⟨f, hf, htx, -⟩ := ho.forwarder hr
  obtain ⟨f', hf', htx', -⟩ := ho'.forwarder hr
  cases hf.symm.trans hf'
  obtain rfl : n = n' := htx.symm.trans htx'
  obtain ⟨⟨t, ht, hpop⟩, hget⟩ := ho
  obtain ⟨⟨t', ht', hpop'⟩, hget'⟩ := ho'
  have hsr := server_run hr
  have hnodup : ((gather ((forwarding K).sentOn n) (h.filterMap serverPart)).map Prod.fst).Nodup :=
    (Forwarding.sent_nodup forwarding_case rfl hsr).sublist
      ((gather_sublist fun t => List.filter_sublist).map _)
  have hkey {m : Nat} {ev : Event K.core}
      (hm : (gather ((forwarding K).sentOn n) (h.filterMap serverPart))[m]? = some (x, ev)) :
      ((gather ((forwarding K).sentOn n) (h.filterMap serverPart)).map Prod.fst)[m]? = some x := by
    rw [List.getElem?_map, hm]
    rfl
  have hlt := (List.getElem?_eq_some_iff.mp (hkey hget)).1
  have hrank := (List.getElem?_inj hlt hnodup).mp ((hkey hget).trans (hkey hget').symm)
  exact rank_inj ht ht' hpop hpop' hrank

/-- Behind the event that client c receives in step j stands forwarder x.1 of the
client's session, which has it from position x.2 of its source. -/
def EventOf (N : K.Noise) (O : K.Opening) (cfg : SystemCfg K ι) (h : List (SystemStep K ι))
    (j : Nat) (c : ι) (x : Nat × Nat) (ev : Event K.core) : Prop :=
  ∃ i n j₀ i₀ dst seed, DeliveryOf N O cfg h j c (.event ev) i ∧
    Opened N cfg h n j₀ i₀ c dst seed ∧ OriginOf h i n x ev

theorem received_origin (N : K.Noise) (S : K.Sealing) (O : K.Opening) (hrep : K.ReplyCodec)
    (hr : SystemRun cfg (.init secret sources) h s) (hh : Honest h)
    (hrec : GenuineRecords S O h) {j : Nat} {v : SystemStep K ι} {c : ι} {ev : Event K.core}
    (hv : At h j v) (hm : SystemEffect.client c (.received (.event ev)) ∈ v.out) :
    ∃ x, EventOf N O cfg h j c x ev := by
  obtain ⟨i, hd⟩ := received_sealed N S O hr hh hrec hv hm
  obtain ⟨-, t, n, dst, σ, env, wire, j₀, i₀, seed, ht, hs, ho, _, record, json, _, _, _,
    hrecord, hdec, -⟩ := id hd
  cases (hrep.event env json ev (recordOf_json hrecord)).mp hdec
  obtain ⟨x, hx⟩ := sealed_origin hr ht hs
  exact ⟨x, i, n, j₀, i₀, dst, seed, hd, ho, hx⟩

theorem EventOf.unique {N : K.Noise} {O : K.Opening}
    (hr : SystemRun cfg (.init secret sources) h s) (hh : Honest h) {j j' : Nat} {c c' : ι}
    {x : Nat × Nat} {ev ev' : Event K.core} (he : EventOf N O cfg h j c x ev)
    (he' : EventOf N O cfg h j' c' x ev') : j = j' := by
  obtain ⟨i, n, _, _, _, _, hd, -, ho⟩ := he
  obtain ⟨i', n', _, _, _, _, hd', -, ho'⟩ := he'
  cases ho.unique hr ho'
  exact (hd.unique hr hh hd').1

theorem forwarder_client (N : K.Noise) (S : K.Sealing) (O : K.Opening) (hsub : K.SubscribeCodec)
    (hr : SystemRun cfg (.init secret sources) h s) (hh : Honest h)
    (hrec : GenuineRecords S O h) {i : Nat} {f : Forwarder K.core}
    (hf : s.server.forwarders[i]? = some f) :
    cfg.server.service.eventSource f.topic = some f.source ∧
      ∃ c j₀ i₀ src seed k t σ filter capability wire subject,
        Opened N cfg h f.tx j₀ i₀ c src seed ∧ At h k t ∧
        SystemEffect.client c (.sealed σ (.subscribe f.topic filter capability) wire) ∈ t.out ∧
        cfg.server.service.verifyTopic capability f.topic = .ok subject := by
  have hsr := server_run hr
  obtain ⟨j, v, hv, -, hs, -⟩ := Forwarding.spawned_at forwarding_case rfl hsr hf
  obtain ⟨filter, capability, subject, hrecv, hverify, hsource⟩ :=
    spawned_subscribed (hsr.next_eq hv) hs
  refine ⟨hsource, ?_⟩
  obtain ⟨k, u, hu, hpu⟩ := at_project hv
  obtain ⟨env, json, i', ⟨-, t, c, seed, ch, wire, j₀, i₀, src, ht, hsealed, -, ho, -⟩, hjson,
    hdec⟩ := received_sealOf N S O hr hh hrec hu (mem_of_serverPart hpu hrecv)
  obtain ⟨filter', rfl⟩ := hsub env json f.topic filter capability hjson hdec
  exact ⟨c, j₀, i₀, src, seed, i', t, ch.sealer, filter', capability, wire, subject, ho, ht,
    hsealed, hverify⟩

end System

section EndToEnd
variable {ι : Type} [DecidableEq ι] {cfg : EndCfg K ι} {secret : K.CookieSecret}
  {sources : Nat → Broadcast.Channel (Event K.core)} {h : List (EndStep cfg)} {s : EndState cfg}

theorem lowered_take (h : List (EndStep cfg)) (i : Nat) :
    lowered h = lowered (h.take i) ++ lowered (h.drop i) := by
  rw [lowered, lowered, lowered, ← List.flatMap_append, List.take_append_drop]

theorem subscribe_sealed (hr : EndRun (.init cfg secret sources) h s) {m : Nat}
    {u : SystemStep K ι} {c : ι} {σ : K.RecordSealer} {topic : K.core.Topic}
    {filter : Option K.core.Json} {capability : Option K.core.Capability} {wire : Bytes}
    (hu : At (lowered h) m u)
    (hx : SystemEffect.client c (.sealed σ (.subscribe topic filter capability) wire) ∈ u.out) :
    capability = cfg.capability c ∧
      ∃ seed tr, s.clients c = .running seed tr ∧ ∃ sub ∈ tr.subscriptions, sub.topic = topic := by
  obtain ⟨i, t, origin, ht, -, htook⟩ := sealed_taken hr hu hx (by simp)
  obtain ⟨seed, tr, link, g, hc, hg, hout⟩ := tracked hr ht htook
  have htaken : TransportEffect.took origin (.subscribe topic filter capability) ∈
      gather Step.out g := by
    rw [← hout]
    exact mem_gather.mpr ⟨i, t, ht, mem_transportOut.mpr htook⟩
  obtain ⟨l, y, hy, hyt⟩ := mem_gather.mp htaken
  obtain ⟨-, hcap, k, sub, -, hk, htopic⟩ := took_subscribe hg hy hyt
  exact ⟨hcap, seed, tr, hc, sub, List.mem_of_getElem? hk, htopic⟩

/-- An event that a stream of a datagram client reads was emitted by the source
that the service has for its topic; the service accepts the capability that this
client was given for the topic; and one of the client's subscribe calls has asked
for it. No other event reaches a stream, whatever the network delivers. -/
theorem stream_reads_authorised_events (N : K.Noise) (S : K.Sealing) (O : K.Opening)
    (hsub : K.SubscribeCodec) (hrep : K.ReplyCodec)
    (hr : EndRun (.init cfg secret sources) h s) (hh : Honest (lowered h))
    (hrec : GenuineRecords S O (lowered h)) {i n : Nat} {t : EndStep cfg} {c : ι}
    {ev : Event K.core} (ht : At h i t) (hy : EndEffect.transport c (.yielded n ev) ∈ t.out) :
    Emitted cfg.system.server t.pre.server ev ∧
      (∃ subject, cfg.system.server.service.verifyTopic (cfg.capability c) ev.topic =
        .ok subject) ∧
      ∃ seed tr, t.pre.clients c = .running seed tr ∧
        ∃ sub ∈ tr.subscriptions, sub.topic = ev.topic := by
  obtain ⟨hpre, hn⟩ := hr.step ht
  obtain ⟨seed, tr, tr', e, o, hc, hs, ho⟩ := transport_step hn hy
  have htr := tracks hpre c
  rw [hc] at htr
  obtain ⟨link, g, hg, hout⟩ := htr
  -- the run up to this step, and below it the run of the channels
  rw [lowered_take h i] at hh hrec
  have hrun := lowered_run hpre
  obtain ⟨j, w, hw, hrecv⟩ := yielded_received hg hs ho
  have hmem : TransportEffect.received (.event ev) ∈ gather (transportOut c) (h.take i) := by
    rw [hout]
    exact mem_gather.mpr ⟨j, w, hw, hrecv⟩
  obtain ⟨k, u, hu, hx⟩ := mem_gather.mp hmem
  obtain ⟨v, hv, hxv⟩ := low_received (hpre.next_eq hu) (mem_transportOut.mp hx)
  obtain ⟨hem, m, t', σ, filter, capability, wire, subject, ht', hsealed, hverify⟩ :=
    received_event_authorised N S O hsub hrep hrun hh.of_append hrec.of_append (hu.lowered hv) hxv
  obtain ⟨hcap, hclient⟩ := subscribe_sealed hpre ht' hsealed
  subst hcap
  exact ⟨hem, ⟨subject, hverify⟩, hclient⟩

theorem transportOut_case {s s' : EndState cfg} {e : EndEvent cfg} {o : List (EndEffect K ι)}
    (hn : endNext s e = some (s', o)) (c : ι) :
    transportOut c ⟨s, e, o, s'⟩ = [] ∨ ∃ u u' e',
      Client.next (p := cfg.transport c) u e' = some (u', transportOut c ⟨s, e, o, s'⟩) := by
  cases endNext_case hn with
  | server hs => exact Or.inl (by simp [transportOut, EndEffect.transport?])
  | handshake hc he hs => exact Or.inl (by simp [transportOut, EndEffect.transport?])
  | spawn hc => exact Or.inl rfl
  | @transport d e seed u u' o hc hs =>
    by_cases hd : d = c
    · subst hd
      refine Or.inr ⟨u, u', e, ?_⟩
      rw [transportOut, transport?_map]
      exact hs
    · refine Or.inl ?_
      rw [transportOut, List.filterMap_map]
      simp [EndEffect.transport?, Function.comp_def, hd]

def receivedEvents (c : ι) (t : EndStep cfg) : List (Event K.core) :=
  (receivedFrom (transportOut c t)).filterMap Envelope.event?

def yieldedBy (c : ι) (n : Nat) (t : EndStep cfg) : List (Event K.core) :=
  (transportOut c t).filterMap (TransportEffect.yielded? n)

theorem mem_receivedEvents {c : ι} {t : EndStep cfg} {ev : Event K.core}
    (hx : ev ∈ receivedEvents c t) : EndEffect.transport c (.received (.event ev)) ∈ t.out := by
  obtain ⟨env, henv, hev⟩ := List.mem_filterMap.mp hx
  rw [event?_eq_some.mp hev] at henv
  exact mem_transportOut.mp (mem_receivedFrom.mp henv)

theorem receivedEvents_length (hr : EndRun (.init cfg secret sources) h s) (c : ι) {i : Nat}
    {t : EndStep cfg} (ht : At h i t) : (receivedEvents c t).length ≤ 1 := by
  refine (List.length_filterMap_le _ _).trans ?_
  rcases transportOut_case (hr.next_eq ht) c with ho | ⟨u, u', e', hn⟩
  · rw [show transportOut c t = [] from ho]
    exact Nat.zero_le _
  · exact (link_step hn).1.length_received

theorem yielded_sublist (hr : EndRun (.init cfg secret sources) h s) (c : ι) (n : Nat) :
    (gather (yieldedBy c n) h).Sublist (gather (receivedEvents c) h) := by
  have htr := tracks hr c
  cases hs : s.clients c with
  | connecting cs =>
    rw [hs] at htr
    rw [show gather (yieldedBy c n) h = [] from yields_nothing htr n]
    exact List.nil_sublist _
  | running seed tr =>
    rw [hs] at htr
    obtain ⟨link, g, hg, hout⟩ := htr
    exact yields_received_within hg hout n

def serverSteps (h : List (EndStep cfg)) : List (ServerStep K) := (lowered h).filterMap serverPart

/-- An event reaches client c from forwarder i, which has sent it on from position k
of its source. The forwarder belongs to a session of the client, its source is the one
that the service has for the topic, the service accepts the client's capability for
it, and the client has subscribed. -/
structure Delivers (N : K.Noise) (h : List (EndStep cfg)) (s : EndState cfg) (c : ι) (i k : Nat)
    (ev : Event K.core) : Prop where
  forwarder : ∃ f, s.server.forwarders[i]? = some f ∧ f.topic = ev.topic ∧
    cfg.system.server.service.eventSource ev.topic = some f.source ∧
    (s.server.sources f.source).log[k]? = some ev ∧
    ((i, k), ev) ∈ gather ((forwarding K).sentOn f.tx) (serverSteps h) ∧
    ∃ j₀ i₀ src seed, Opened N cfg.system (lowered h) f.tx j₀ i₀ c src seed
  authorised : ∃ subject,
    cfg.system.server.service.verifyTopic (cfg.capability c) ev.topic = .ok subject
  subscribed : ∃ seed tr, s.clients c = .running seed tr ∧
    ∃ sub ∈ tr.subscriptions, sub.topic = ev.topic

theorem EventOf.delivers {N : K.Noise} (S : K.Sealing) {O : K.Opening} (hsub : K.SubscribeCodec)
    (hr : EndRun (.init cfg secret sources) h s) (hh : Honest (lowered h))
    (hrec : GenuineRecords S O (lowered h)) {j : Nat} {c : ι} {x : Nat × Nat} {ev : Event K.core}
    (he : EventOf N O cfg.system (lowered h) j c x ev) : Delivers N h s c x.1 x.2 ev := by
  have hlow := lowered_run hr
  obtain ⟨i, n, j₀, i₀, dst, seed, -, ho, horigin⟩ := he
  obtain ⟨f, hf, rfl, htopic, hlog⟩ := horigin.forwarder hlow
  obtain ⟨hsource, c', j₁, i₁, src, seed', k, t, σ, filter, capability, wire, subject, ho', ht,
    hsealed, hverify⟩ := forwarder_client N S O hsub hlow hh hrec hf
  -- the session of the forwarder is the session of the event
  obtain ⟨-, rfl⟩ := ho.of_session hlow ho'
  obtain ⟨-, -, -, rfl, -⟩ := ho.unique hlow hh ho'
  obtain ⟨hcap, hclient⟩ := subscribe_sealed hr ht hsealed
  subst hcap
  rw [← htopic] at hsource hverify hclient
  exact ⟨⟨f, hf, htopic.symm, hsource, hlog, List.mem_of_getElem? horigin.2, j₀, i₀, dst, seed,
    ho⟩, ⟨subject, hverify⟩, hclient⟩

/-- The events that a stream of a datagram client reads. Each was sent on by a
forwarder of a session of this client, was emitted by the source of its topic, and the
service has authorised the client for the topic; and however the network repeats or
reorders datagrams, what a forwarder has sent on once is read at most once. -/
theorem stream_events_once (N : K.Noise) (S : K.Sealing) (O : K.Opening)
    (hsub : K.SubscribeCodec) (hrep : K.ReplyCodec)
    (hr : EndRun (.init cfg secret sources) h s) (hh : Honest (lowered h))
    (hrec : GenuineRecords S O (lowered h)) (c : ι) (n : Nat) :
    ∃ sent : List ((Nat × Nat) × Event K.core),
      gather (yieldedBy c n) h = sent.map Prod.snd ∧ (sent.map Prod.fst).Nodup ∧
      sent.Subperm (gather (forwarding K).sent (serverSteps h)) ∧
      ∀ i k ev, ((i, k), ev) ∈ sent → Delivers N h s c i k ev := by
  have hlow := lowered_run hr
  -- every event that the client receives has an origin of its own
  obtain ⟨all, hall, hnodup, hfrom⟩ := gather_labelled (h := h) (f := receivedEvents c)
    (P := fun j x ev => ∃ u, At h j u ∧ 0 < (low u).length ∧
      EventOf N O cfg.system (lowered h) (offset low h j) c x ev)
    (by
      intro t ht
      obtain ⟨i, hi⟩ := List.mem_iff_getElem?.mp ht
      exact receivedEvents_length hr c hi)
    (by
      intro j u ev hu hev
      obtain ⟨v, hv, hm⟩ := low_received (hr.next_eq hu) (mem_receivedEvents hev)
      obtain ⟨x, hx⟩ := received_origin N S O hrep hlow hh hrec (hu.lowered hv) hm
      exact ⟨x, u, hu, hv.lt, hx⟩)
    (by
      intro j j' x ev ev' hj hj'
      obtain ⟨u, hu, hpos, he⟩ := hj
      obtain ⟨u', hu', hpos', he'⟩ := hj'
      exact (lowered_inj (k := 0) (l := 0) hu hu' hpos hpos' (he.unique hlow hh he')).1)
  have hyield := yielded_sublist hr c n
  rw [← hall] at hyield
  obtain ⟨sent, hsent, heq⟩ := List.sublist_map_iff.mp hyield
  have hnodup' : (sent.map Prod.fst).Nodup := hnodup.sublist (hsent.map _)
  have hdel (i k : Nat) (ev : Event K.core) (hx : ((i, k), ev) ∈ sent) :
      Delivers N h s c i k ev := by
    obtain ⟨j, u, -, -, w, -, -, he⟩ := hfrom (i, k) ev (hsent.subset hx)
    exact he.delivers S hsub hr hh hrec
  refine ⟨sent, heq, hnodup', List.subperm_of_subset hnodup'.of_map ?_, hdel⟩
  rintro ⟨⟨i, k⟩, ev⟩ hx
  obtain ⟨f, -, -, -, -, hon, -⟩ := (hdel i k ev hx).forwarder
  exact (gather_sublist fun _ => List.filter_sublist).subset hon

end EndToEnd

end Obfs.Udp

namespace Obfs.Symbolic
open Udp Client Trace

def subscriberCfg : EndCfg crates Unit :=
  ⟨systemCfg, idText, fun resp => idText (resp - 1), fun _ => some 7⟩

def subscribedStream : List (EndEvent subscriberCfg) :=
  [.handshake () (.call (wake 0)), .server (recv (hs1 5 none) (addr 1) (fromMillis 200) 6),
    .handshake () (.datagram (hs2 5 6) (addr 0) (wake 400)),
    .server (recv (hs3 5 6 clientKey (keyOf 1)) (addr 1) (fromMillis 600) 0),
    .handshake () (.datagram (data s2cKey 0 .pong) (addr 0) (wake 800)), .spawn (),
    .transport () (.subscribe (3 : UInt8)), .transport () (.attach 0),
    .transport () (.pump (.turn false none ((), .ok ()))),
    .server (recv (data (keyOf 1) 0 (.subscribe (3 : UInt8) none (some 7))) (addr 1)
      (fromMillis 1000) 0),
    .server (.emit 0 news), .server (.forward 0), .server (.sealer 0 ()),
    .transport () (.pump (.turn false (some (.ok (data s2cKey 1 (.event news)))) ((), .ok ()))),
    .transport () (.poll 0)]

def streamReads (t : EndStep subscriberCfg) : List (Nat × Event core) :=
  t.out.filterMap fun
    | .transport _ (.yielded n ev) => some (n, ev)
    | _ => none

theorem stream_reads_authorised_events_news :
    ∃ h s t seed tr sub,
      EndRun (.init subscriberCfg ⟨keyOf 0, none⟩ fun _ => ⟨16, [], false⟩) h s ∧ At h 14 t ∧
      EndEffect.transport () (.yielded 0 news) ∈ t.out ∧
      Emitted subscriberCfg.system.server t.pre.server news ∧
      t.pre.clients () = .running seed tr ∧ sub ∈ tr.subscriptions ∧
      sub.topic = (3 : UInt8) := by
  have hx : ∃ h s, EndRun (.init subscriberCfg ⟨keyOf 0, none⟩ fun _ => ⟨16, [], false⟩) h s ∧
      h.map Step.event = subscribedStream ∧ Honest (lowered h) ∧
      GenuineRecords sealing opening (lowered h) ∧
      h.map streamReads = List.replicate 14 [] ++ [[(0, news)]] :=
    Run.of_exec (fun h _ => Honest (lowered h) ∧ GenuineRecords sealing opening (lowered h) ∧
      h.map streamReads = List.replicate 14 [] ++ [[(0, news)]]) (by decide +kernel)
  obtain ⟨h, s, hr, -, hh, hrec, hreads⟩ := hx
  obtain ⟨t, ht, hat⟩ := at_map hreads (j := 14) rfl
  have hmem : (0, news) ∈ streamReads t := by
    rw [hat]
    exact List.mem_singleton_self _
  obtain ⟨x, hx, he⟩ := List.mem_filterMap.mp hmem
  split at he
  · cases he
    obtain ⟨hem, -, seed, tr, hc, sub, hsub, htopic⟩ :=
      stream_reads_authorised_events noise sealing opening subscribeCodec replyCodec hr hh hrec ht
        hx
    exact ⟨h, s, t, seed, tr, sub, hr, ht, hx, hem, hc, hsub, htopic⟩
  · cases he

def delivered (n : Nat) (ev : Event core) : EndEvent subscriberCfg :=
  .transport () (.pump (.turn false (some (.ok (data s2cKey n (.event ev)))) ((), .ok ())))

/- Two events arrive the other way round, and one of them once more. -/
def reorderedStream : List (EndEvent subscriberCfg) :=
  subscribedStream.take 10 ++
  [.server (.emit 0 news), .server (.emit 0 sequel), .server (.forward 0), .server (.forward 0),
    .server (.sealer 0 ()), .server (.sealer 0 ()), delivered 2 sequel, delivered 1 news,
    delivered 2 sequel, .transport () (.poll 0), .transport () (.poll 0)]

theorem stream_events_once_reordered : ∃ h s, ∃ sent : List ((Nat × Nat) × Event core),
    EndRun (.init subscriberCfg ⟨keyOf 0, none⟩ fun _ => ⟨16, [], false⟩) h s ∧
    h.map Step.event = reorderedStream ∧ sent.map Prod.snd = [sequel, news] ∧
    (sent.map Prod.fst).Nodup ∧ sent.Subperm (gather (forwarding crates).sent (serverSteps h)) ∧
    ∀ i k ev, ((i, k), ev) ∈ sent → Delivers noise h s () i k ev := by
  have hx : ∃ h s, EndRun (.init subscriberCfg ⟨keyOf 0, none⟩ fun _ => ⟨16, [], false⟩) h s ∧
      h.map Step.event = reorderedStream ∧ Honest (lowered h) ∧
      GenuineRecords sealing opening (lowered h) ∧
      gather (yieldedBy () 0) h = [sequel, news] :=
    Run.of_exec (fun h _ => Honest (lowered h) ∧ GenuineRecords sealing opening (lowered h) ∧
      gather (yieldedBy () 0) h = [sequel, news]) (by decide +kernel)
  obtain ⟨h, s, hr, hev, hh, hrec, hyield⟩ := hx
  obtain ⟨sent, heq, hnodup, hperm, hfrom⟩ := stream_events_once noise sealing opening
    subscribeCodec replyCodec hr hh hrec () 0
  exact ⟨h, s, sent, hr, hev, heq.symm.trans hyield, hnodup, hperm, hfrom⟩

end Obfs.Symbolic

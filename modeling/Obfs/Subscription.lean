import Obfs.Tcp.Connection
import Obfs.Udp.Sessions
import Obfs.Symbolic

/-! Subscription authorisation on both transports: an event is encrypted for a
session only on a topic that the session has subscribed to with the service's
consent, and a denied subscription is answered and changes nothing else. -/
namespace Obfs
open Trace

namespace Udp
variable {K : Crates} {cfg : ServerCfg K}

/-- Step t receives, on session n, a subscription to the topic that the service
authorises. -/
def Authorises (cfg : ServerCfg K) (t : ServerStep K) (n : Nat) (topic : K.core.Topic) : Prop :=
  ∃ filter capability subject, Effect.received n (.subscribe topic filter capability) ∈ t.out ∧
    cfg.service.verifyTopic capability topic = .ok subject

def Authorised (cfg : ServerCfg K) (h : List (ServerStep K)) (n : Nat) (topic : K.core.Topic) :
    Prop :=
  ∃ i t, At h i t ∧ Authorises cfg t n topic

/-- Session n pushes the topic: a live forwarder or an event that waits for the
sealer has it. -/
def Pushes (s : ServerState K) (n : Nat) (topic : K.core.Topic) : Prop :=
  (∃ f ∈ s.forwarders, f.live = true ∧ f.tx = n ∧ f.topic = topic) ∨
    ∃ ses ev, s.sessions[n]? = some ses ∧ Envelope.event ev ∈ ses.queue ∧ ev.topic = topic

/-- An event that waits for the sealer was waiting before, or a live forwarder
of its topic has just sent it from its source. -/
theorem SessionCase.queued {s : ServerState K} {n : Nat} {ses ses' : Session K}
    {e : ServerEvent K} {fx : List (Effect K)} (hc : SessionCase cfg s n ses e fx ses')
    {ev : Event K.core} (hm : Envelope.event ev ∈ ses'.queue) :
    Envelope.event ev ∈ ses.queue ∨
      ∃ f ∈ s.forwarders, f.live = true ∧ f.tx = n ∧ f.topic = ev.topic ∧
        ev ∈ (s.sources f.source).log := by
  have hpush {ses : Session K} {env : Envelope K.core} (hm : .event ev ∈ (ses.push env).queue) :
      .event ev ∈ ses.queue ∨ .event ev = env := by
    rcases ses.push_queue env with he | he
    · exact Or.inl (he ▸ hm)
    · rw [he, List.mem_append, List.mem_singleton] at hm
      exact hm
  cases hc with
  | denied hp hn ho hv =>
    rcases hpush hm with hm | hm
    · exact Or.inl hm
    · cases hm
  | @popped rng env rest he hq =>
    rw [hq]
    exact Or.inl (List.mem_cons_of_mem _ hm)
  | @forwarded i f f' ev' hf hp hn =>
    rcases hpush hm with hm | hm
    · exact Or.inl hm
    · cases hm
      obtain ⟨hlive, -, -, -, hsent⟩ := Forwarder.poll_spec hp
      obtain ⟨htopic, hlog, -⟩ := hsent ev rfl
      exact Or.inr ⟨f, List.mem_of_getElem? hf, hlive, hn, htopic.symm,
        List.mem_of_getElem? hlog⟩
  | _ => exact Or.inl hm

theorem SessionCase.sealed_event {s : ServerState K} {n : Nat} {ses ses' : Session K}
    {e : ServerEvent K} {fx : List (Effect K)} (hc : SessionCase cfg s n ses e fx ses')
    {m : Nat} {dst : SocketAddr} {σ : K.RecordSealer} {ev : Event K.core} {wire : Bytes}
    (hm : Effect.sealed m dst σ (.event ev) wire ∈ fx) : Envelope.event ev ∈ ses.queue := by
  cases hc with
  | @popped rng env rest he hq =>
    obtain ⟨_, -, he⟩ := mem_sealEffects.mp hm
    cases he
    rw [hq]
    exact List.mem_cons_self
  | _ => simp [mem_sealEffects] at hm

theorem sealed_event_queued {s s' : ServerState K} {e : ServerEvent K} {o : List (Effect K)}
    (h : serverNext cfg s e = some (s', o)) {n : Nat} {dst : SocketAddr} {σ : K.RecordSealer}
    {ev : Event K.core} {wire : Bytes} (hm : Effect.sealed n dst σ (.event ev) wire ∈ o) :
    ∃ ses : Session K, s.sessions[n]? = some ses ∧ Envelope.event ev ∈ ses.queue := by
  rw [← mem_effectsOn_sealed] at hm
  cases slot_case h n with
  | absent hn0 hn' ho => rw [ho] at hm; cases hm
  | live hs hn' hc => exact ⟨_, hs, hc.sealed_event hm⟩
  | fresh hl he hp ha ho hn' =>
    rw [ho, mem_sealEffects] at hm
    obtain ⟨_, -, he⟩ := hm
    cases he

theorem pushes_step {s s' : ServerState K} {e : ServerEvent K} {o : List (Effect K)}
    (h : serverNext cfg s e = some (s', o)) {n : Nat} {topic : K.core.Topic}
    (hp : Pushes s' n topic) :
    Pushes s n topic ∨ Authorises cfg ⟨s, e, o, s'⟩ n topic := by
  rcases hp with ⟨f, hf, hl, rfl, rfl⟩ | ⟨ses', ev, hs', hm, rfl⟩
  · rcases forwarder_step h hf hl with ⟨f0, hf0, hl0, htopic, htx⟩ | hgrant
    · exact Or.inl (Or.inl ⟨f0, hf0, hl0, htx, htopic⟩)
    · exact Or.inr hgrant
  · left
    cases slot_case h n with
    | absent hn0 hn' => rw [hn'] at hs'; cases hs'
    | live hs hn' hc =>
      cases Option.some.inj (hn'.symm.trans hs')
      rcases hc.queued hm with hm | ⟨f, hf, hl, htx, htopic, -⟩
      · exact Or.inr ⟨_, ev, hs, hm, rfl⟩
      · exact Or.inl ⟨f, hf, hl, htx, htopic⟩
    | fresh hl he hp ha ho hn' =>
      cases Option.some.inj (hn'.symm.trans hs')
      cases hm

variable {secret : K.CookieSecret} {sources : Nat → Broadcast.Channel (Event K.core)}
  {h : List (ServerStep K)} {s : ServerState K}

theorem pushes_authorised (hr : ServerRun cfg (.init secret sources) h s) {n : Nat}
    {topic : K.core.Topic} (hp : Pushes s n topic) : Authorised cfg h n topic := by
  refine hr.granted (fun s r => Pushes s r.1 r.2) (fun t r => Authorises cfg t r.1 r.2) ?_ ?_
    (r := (n, topic)) hp
  · rintro r (⟨f, hf, -⟩ | ⟨ses, ev, hs, -⟩)
    · cases hf
    · simp at hs
  · intro s e s' o r hn hp
    exact pushes_step hn hp

theorem sealed_event_authorised (hr : ServerRun cfg (.init secret sources) h s) {i : Nat}
    {t : ServerStep K} (ht : At h i t) {n : Nat} {dst : SocketAddr} {σ : K.RecordSealer}
    {ev : Event K.core} {wire : Bytes}
    (hm : Effect.sealed n dst σ (.event ev) wire ∈ t.out) :
    Authorised cfg (h.take i) n ev.topic := by
  obtain ⟨hpre, hn⟩ := hr.step ht
  obtain ⟨ses, hs, hq⟩ := sealed_event_queued hn hm
  exact pushes_authorised hpre (Or.inr ⟨ses, ev, hs, hq, rfl⟩)

theorem denied_step {s s' : ServerState K} {e : ServerEvent K} {o : List (Effect K)}
    (h : serverNext cfg s e = some (s', o)) {n : Nat} {topic : K.core.Topic}
    {filter : Option K.core.Json} {capability : Option K.core.Capability} {err : CoreError K.core}
    (hm : Effect.received n (.subscribe topic filter capability) ∈ o)
    (hv : cfg.service.verifyTopic capability topic = .error err) :
    s'.forwarders = s.forwarders ∧
      (∀ m dst σ env wire, Effect.sealed m dst σ env wire ∉ o) ∧
      ∀ (m : Nat) (ses ses' : Session K), s.sessions[m]? = some ses →
        s'.sessions[m]? = some ses' →
        ses'.queue = ses.queue ∨
          ses'.queue = ses.queue ++ [.subscribeError topic (denyDiagnostic err)] := by
  have hmod {k : Nat} {f : Session K → Session K} (hs' : s'.sessions = s.sessions.modify k f)
      (hf : ∀ ses, (f ses).queue = ses.queue ∨
        (f ses).queue = ses.queue ++ [.subscribeError topic (denyDiagnostic err)])
      (m : Nat) (ses ses' : Session K) (hm : s.sessions[m]? = some ses)
      (hm' : s'.sessions[m]? = some ses') :
      ses'.queue = ses.queue ∨
        ses'.queue = ses.queue ++ [.subscribeError topic (denyDiagnostic err)] := by
    rw [hs', List.getElem?_modify, hm] at hm'
    by_cases hk : k = m
    · simp only [hk, if_true, Option.map_eq_map, Option.map_some, Option.some.injEq] at hm'
      rw [← hm']
      exact hf ses
    · simp only [hk, if_false, Option.map_eq_map, Option.map_some, Option.some.injEq] at hm'
      exact Or.inl (by rw [← hm'])
  cases serverNext_case cfg h with
  | @recv inp s' o hs hc =>
    cases hc with
    | @denied p ses topic' filter' capability' err' hp hs ho hv' =>
      simp only [List.mem_singleton, Effect.received.injEq, Envelope.subscribe.injEq] at hm
      obtain ⟨-, rfl, rfl, rfl⟩ := hm
      rw [hv'] at hv
      cases hv
      refine ⟨rfl, by simp, hmod (k := p.session) (f := fun x => Session.push
        { x with channel := (ses.channel.openDatagram inp.dgram).2 }
        (.subscribeError topic (denyDiagnostic err))) ?_ ?_⟩
      · simp only [cleanup_sessions, ServerState.enqueue_sessions, afterOpen_sessions,
          List.modify_modify_eq]
        rfl
      · intro x
        exact Session.push_queue _ _
    | @inert p ses env hp hs ho =>
      exact ⟨rfl, by simp, hmod (afterOpen_sessions s inp p ses) fun _ => Or.inl rfl⟩
    | @unserved p ses topic' filter' capability' subject hp hs ho hv' he
    | @subscribed p ses topic' filter' capability' subject src hp hs ho hv' he =>
      simp at hm
      obtain ⟨-, rfl, rfl, rfl⟩ := hm
      rw [hv'] at hv
      cases hv
    | swept ho => rcases ho with rfl | ⟨wire, rfl⟩ <;> simp at hm
    | _ => simp [mem_sealEffects] at hm
  | respond hv hs => simp [mem_sealEffects] at hm
  | sealed hs he hq => simp [mem_sealEffects] at hm
  | _ => simp at hm

end Udp

namespace Tcp
variable {C : Core} {service : Service C}

def Authorises (service : Service C) (t : ConnStep C) (topic : C.Topic) : Prop :=
  ∃ filter capability subject, ConnEffect.received (.subscribe topic filter capability) ∈ t.out ∧
    service.verifyTopic capability topic = .ok subject

def Authorised (service : Service C) (h : List (ConnStep C)) (topic : C.Topic) : Prop :=
  ∃ i t, At h i t ∧ Authorises service t topic

def Pushes (s : ConnState C) (topic : C.Topic) : Prop :=
  (∃ f ∈ s.forwarders, f.live = true ∧ f.topic = topic) ∨
    ∃ ev, Envelope.event ev ∈ s.queue ∧ ev.topic = topic

theorem forwarder_step {s s' : ConnState C} {e : ConnEvent C} {o : List (ConnEffect C)}
    (h : connNext service s e = some (s', o)) {f' : Forwarder C} (hf : f' ∈ s'.forwarders)
    (hl : f'.live = true) :
    (∃ f ∈ s.forwarders, f.live = true ∧ f.topic = f'.topic) ∨
      ∃ filter capability subject,
        ConnEffect.received (.subscribe f'.topic filter capability) ∈ o ∧
        service.verifyTopic capability f'.topic = .ok subject := by
  have hset {i : Nat} {f g : Forwarder C} {sent : Option (Event C)}
      (hi : s.forwarders[i]? = some f)
      (hp : f.poll (s.sources f.source) s.alive = some (g, sent))
      (hm : f' ∈ s.forwarders.set i g) :
      ∃ f ∈ s.forwarders, f.live = true ∧ f.topic = f'.topic := by
    rcases List.mem_or_eq_of_mem_set hm with hm | rfl
    · exact ⟨f', hm, hl, rfl⟩
    · obtain ⟨hlive, -, htopic, -⟩ := Forwarder.poll_spec hp
      exact ⟨f, List.mem_of_getElem? hi, hlive, htopic.symm⟩
  cases connNext_case h with
  | ping hs | denied hs hv | outbound hs hq | respond hs =>
    rw [sendFrame_forwarders] at hf
    exact Or.inl ⟨f', hf, hl, rfl⟩
  | unserved hs hv he =>
    rw [enqueue_forwarders] at hf
    exact Or.inl ⟨f', hf, hl, rfl⟩
  | @subscribed topic filter capability subject src sent hs hv he =>
    rcases List.mem_append.mp hf with hm | hm
    · exact Or.inl ⟨f', hm, hl, rfl⟩
    · rw [List.mem_singleton] at hm
      subst hm
      exact Or.inr ⟨filter, capability, subject, by simp [Forwarder.spawn], hv⟩
  | forwarded hi hp =>
    rw [enqueue_forwarders] at hf
    exact Or.inl (hset hi hp hf)
  | polled hi hp => exact Or.inl (hset hi hp hf)
  | _ => exact Or.inl ⟨f', hf, hl, rfl⟩

theorem queued_step {s s' : ConnState C} {e : ConnEvent C} {o : List (ConnEffect C)}
    (h : connNext service s e = some (s', o)) {ev : Event C}
    (hm : Envelope.event ev ∈ s'.queue) :
    Envelope.event ev ∈ s.queue ∨ ∃ f ∈ s.forwarders, f.live = true ∧ f.topic = ev.topic := by
  cases connNext_case h with
  | ping hs | denied hs hv | respond hs =>
    rw [sendFrame_queue] at hm
    exact Or.inl hm
  | @outbound env rest sent hs hq =>
    rw [sendFrame_queue] at hm
    rw [hq]
    exact Or.inl (List.mem_cons_of_mem _ hm)
  | unserved hs hv he =>
    rcases mem_enqueue hm with hm | hm
    · exact Or.inl hm
    · cases hm
  | @forwarded i f f' ev' hf hp =>
    rcases mem_enqueue hm with hm | hm
    · exact Or.inl hm
    · cases hm
      obtain ⟨hlive, -, -, -, hsent⟩ := Forwarder.poll_spec hp
      exact Or.inr ⟨f, List.mem_of_getElem? hf, hlive, (hsent ev rfl).1.symm⟩
  | _ => exact Or.inl hm

theorem encrypted_event {s s' : ConnState C} {e : ConnEvent C} {o : List (ConnEffect C)}
    (h : connNext service s e = some (s', o)) {ev : Event C}
    (hm : ConnEffect.encrypted (.event ev) ∈ o) : Envelope.event ev ∈ s.queue := by
  cases connNext_case h with
  | ping hs | denied hs hv =>
    rcases List.mem_cons.mp hm with hm | hm
    · cases hm
    · cases mem_sendFrame hm
  | respond hs => cases mem_sendFrame hm
  | @outbound env rest sent hs hq =>
    cases mem_sendFrame hm
    rw [hq]
    exact List.mem_cons_self
  | _ => simp at hm

theorem pushes_authorised {sources : Nat → Broadcast.Channel (Event C)} {h : List (ConnStep C)}
    {s : ConnState C} (hr : ConnRun service (.init sources) h s) {topic : C.Topic}
    (hp : Pushes s topic) : Authorised service h topic := by
  refine hr.granted Pushes (Authorises service) ?_ ?_ hp
  · rintro topic (⟨f, hf, -⟩ | ⟨ev, hm, -⟩)
    · cases hf
    · cases hm
  · rintro s e s' o topic hn (⟨f, hf, hl, rfl⟩ | ⟨ev, hm, rfl⟩)
    · rcases forwarder_step hn hf hl with hf | hgrant
      · exact Or.inl (Or.inl hf)
      · exact Or.inr hgrant
    · rcases queued_step hn hm with hm | hf
      · exact Or.inl (Or.inr ⟨ev, hm, rfl⟩)
      · exact Or.inl (Or.inl hf)

theorem denied_step {s s' : ConnState C} {e : ConnEvent C} {o : List (ConnEffect C)}
    (h : connNext service s e = some (s', o)) {topic : C.Topic} {filter : Option C.Json}
    {capability : Option C.Capability} {err : CoreError C}
    (hm : ConnEffect.received (.subscribe topic filter capability) ∈ o)
    (hv : service.verifyTopic capability topic = .error err) :
    s'.forwarders = s.forwarders ∧ s'.queue = s.queue ∧
      ∀ env, ConnEffect.encrypted env ∈ o → env = .subscribeError topic (denyDiagnostic err) := by
  cases connNext_case h with
  | @denied topic' filter' capability' err' sent hs hv' =>
    rcases List.mem_cons.mp hm with hm | hm
    · cases hm
      rw [hv'] at hv
      cases hv
      refine ⟨sendFrame_forwarders _ _ _, sendFrame_queue _ _ _, ?_⟩
      intro env henv
      rcases List.mem_cons.mp henv with henv | henv
      · cases henv
      · cases mem_sendFrame henv
        rfl
    · cases mem_sendFrame hm
  | unserved hs hv' he | subscribed hs hv' he =>
    simp at hm
    obtain ⟨rfl, rfl, rfl⟩ := hm
    rw [hv'] at hv
    cases hv
  | inert hs => exact ⟨rfl, rfl, by simp⟩
  | ping hs =>
    rcases List.mem_cons.mp hm with hm | hm
    · cases hm
    · cases mem_sendFrame hm
  | outbound hs hq => cases mem_sendFrame hm
  | respond hs => cases mem_sendFrame hm
  | _ => simp at hm

end Tcp

/-- On both transports every event that is encrypted for a session has a topic
that an earlier, authorised subscription of the session named, and a denied
subscription spawns no forwarder and leaves nothing but its refusal. -/
theorem subscription_authorised {K : Crates} {cfg : Udp.ServerCfg K} {secret : K.CookieSecret}
    {sources : Nat → Broadcast.Channel (Event K.core)} {h : List (Udp.ServerStep K)}
    {s : Udp.ServerState K} {C : Core} {service : Service C}
    {sources' : Nat → Broadcast.Channel (Event C)} {g : List (Tcp.ConnStep C)} {c : Tcp.ConnState C}
    (hu : Udp.ServerRun cfg (.init secret sources) h s)
    (ht : Tcp.ConnRun service (.init sources') g c) :
    (∀ i t n dst σ ev wire, At h i t → Udp.Effect.sealed n dst σ (.event ev) wire ∈ t.out →
      Udp.Authorised cfg (h.take i) n ev.topic) ∧
    (∀ i t n topic filter capability err, At h i t →
      Udp.Effect.received n (.subscribe topic filter capability) ∈ t.out →
      cfg.service.verifyTopic capability topic = .error err →
      t.post.forwarders = t.pre.forwarders ∧
        (∀ m dst σ env wire, Udp.Effect.sealed m dst σ env wire ∉ t.out) ∧
        ∀ (m : Nat) (ses ses' : Udp.Session K), t.pre.sessions[m]? = some ses →
          t.post.sessions[m]? = some ses' → ses'.queue = ses.queue ∨
            ses'.queue = ses.queue ++ [.subscribeError topic (denyDiagnostic err)]) ∧
    (∀ i t ev, At g i t → Tcp.ConnEffect.encrypted (.event ev) ∈ t.out →
      Tcp.Authorised service (g.take i) ev.topic) ∧
    (∀ i t topic filter capability err, At g i t →
      Tcp.ConnEffect.received (.subscribe topic filter capability) ∈ t.out →
      service.verifyTopic capability topic = .error err →
      t.post.forwarders = t.pre.forwarders ∧ t.post.queue = t.pre.queue ∧
        ∀ env, Tcp.ConnEffect.encrypted env ∈ t.out →
          env = .subscribeError topic (denyDiagnostic err)) := by
  refine ⟨?_, ?_, ?_, ?_⟩
  · intro i t n dst σ ev wire hti hm
    exact Udp.sealed_event_authorised hu hti hm
  · intro i t n topic filter capability err hti hm hv
    exact Udp.denied_step (hu.next_eq hti) hm hv
  · intro i t ev hti hm
    obtain ⟨hpre, hn⟩ := ht.step hti
    exact Tcp.pushes_authorised hpre (Or.inr ⟨ev, Tcp.encrypted_event hn hm, rfl⟩)
  · intro i t topic filter capability err hti hm hv
    exact Tcp.denied_step (ht.next_eq hti) hm hv

namespace Symbolic

def subscribedSession : List (Udp.ServerEvent crates) :=
  subscriber (some 7) ++ [.emit 0 news, .forward 0, .sealer 0 ()]

def subscribedConn : List (Tcp.ConnEvent core) :=
  [.frame (.subscribe 3 none none) .ok, .frame (.subscribe 3 none (some 7)) .ok, .emit 0 news,
    .forward 0, .outbound .ok]

def sealedTopics (t : Udp.ServerStep crates) : List UInt8 :=
  t.out.filterMap fun
    | .sealed 0 _ _ (.event ev) _ => some ev.topic
    | _ => none

def encryptedTopics (t : Tcp.ConnStep core) : List UInt8 :=
  t.out.filterMap fun x => (x.encrypted?.bind Envelope.event?).map Event.topic

theorem subscription_authorised_event :
    ∃ h s g c, Udp.ServerRun cfg start h s ∧
      Tcp.ConnRun service (.init fun _ => ⟨16, [], false⟩) g c ∧
      Udp.Authorised cfg (h.take 5) 0 3 ∧ Tcp.Authorised service (g.take 4) 3 := by
  have hx : ∃ h s, Udp.ServerRun cfg start h s ∧ h.map Step.event = subscribedSession ∧
      h.map sealedTopics = [[], [], [], [], [], [3]] :=
    Run.of_exec (fun h _ => h.map sealedTopics = [[], [], [], [], [], [3]]) (by decide +kernel)
  have hy : ∃ g c, Tcp.ConnRun service (.init fun _ => ⟨16, [], false⟩) g c ∧
      g.map Step.event = subscribedConn ∧ g.map encryptedTopics = [[], [], [], [], [3]] :=
    Run.of_exec (fun g _ => g.map encryptedTopics = [[], [], [], [], [3]]) (by decide +kernel)
  obtain ⟨h, s, hr, -, htopics⟩ := hx
  obtain ⟨g, c, hr', -, htopics'⟩ := hy
  obtain ⟨t, ht, hm⟩ := at_map htopics (j := 5) rfl
  obtain ⟨u, hu, hm'⟩ := at_map htopics' (j := 4) rfl
  obtain ⟨x, hx, he⟩ := List.mem_filterMap.mp (hm ▸ List.mem_singleton_self 3)
  obtain ⟨y, hy, he'⟩ := List.mem_filterMap.mp (hm' ▸ List.mem_singleton_self 3)
  obtain ⟨h1, -, h3, -⟩ := subscription_authorised hr hr'
  refine ⟨h, s, g, c, hr, hr', ?_, ?_⟩
  · split at he
    · rw [← Option.some.inj he]
      exact h1 5 t 0 _ _ _ _ ht hx
    · cases he
  · obtain ⟨ev, hev, htopic⟩ := Option.map_eq_some_iff.mp he'
    obtain ⟨env, henv, hev⟩ := Option.bind_eq_some_iff.mp hev
    cases y with
    | encrypted env' =>
      cases henv
      cases env with
      | event ev' =>
        cases hev
        rw [← htopic]
        exact h3 4 u _ hu hy
      | _ => cases hev
    | _ => cases henv

end Symbolic
end Obfs

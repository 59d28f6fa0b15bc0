import Obfs.Udp.Server

/-! What one step of the server can do. `RecvCase` lists the ways a datagram
is handled; every later fact about the receive loop is read off from it. -/
namespace Obfs.Udp
open Broadcast Trace
variable {K : Crates} (cfg : ServerCfg K)

/- The state in which an envelope of peer p is dispatched: the peer seen now,
   the channel as opening the datagram leaves it. -/
def afterOpen (s : ServerState K) (inp : Inbound K) (p : PeerState) (ses : Session K) :
    ServerState K :=
  (s.touch inp.src p inp.now).setChannel p.session (ses.channel.openDatagram inp.dgram).2

inductive RecvCase (s : ServerState K) (inp : Inbound K) :
    ServerState K → List (Effect K) → Prop where
  | ignored : RecvCase s inp s []
  | swept {out : List (Effect K)} (ho : out = [] ∨ ∃ wire, out = [.sendTo inp.src wire]) :
      RecvCase s inp (cleanup inp.now s) out
  | pended {body : Bytes} {r : K.Handshake} {wire : Bytes} {addr : SocketAddr}
      (hu : unshapeHs K inp.dgram = some (.hs1, body)) (hl : s.peers.len < MAX_PEERS)
      (hr : processHs1 K body inp.src cfg.serverPriv s.cookieSecret (effGate s inp) inp.entropy
        inp.rng = .ok (some (.partialHandshake r wire addr)))
      (hc : s.pending.len < MAX_PENDING ∨ inp.src ∈ s.pending) :
      RecvCase s inp (cleanup inp.now (withPending s inp r))
        [.pend inp.src r wire, .sendTo inp.src wire]
  | rejected {body : Bytes} {ph : PendingHandshake K} {e : ObfsError K.core}
      (hu : unshapeHs K inp.dgram = some (.hs3, body)) (hp : s.pending.lookup inp.src = some ph)
      (hr : (completeHandshakeMsg3 K ph.responder body).1 = .error e) :
      RecvCase s inp (cleanup inp.now (dropPending s inp.src)) []
  | refused {body : Bytes} {ph : PendingHandshake K} {ch : DataChannel K} {key : Key} {e : String}
      (hu : unshapeHs K inp.dgram = some (.hs3, body)) (hp : s.pending.lookup inp.src = some ph)
      (hr : (completeHandshakeMsg3 K ph.responder body).1 = .ok (ch, key))
      (hg : cfg.gate key = .error e) :
      RecvCase s inp (dropPending s inp.src) []
  | installed {body : Bytes} {ph : PendingHandshake K} {ch : DataChannel K} {key : Key}
      (hu : unshapeHs K inp.dgram = some (.hs3, body)) (hp : s.pending.lookup inp.src = some ph)
      (hr : (completeHandshakeMsg3 K ph.responder body).1 = .ok (ch, key))
      (hg : cfg.gate key = .ok ()) :
      RecvCase s inp
        (cleanup inp.now (sealOn (withPeer (dropPending s inp.src) inp ch) s.sessions.length
          inp.src ch .pong inp.rng).1)
        (.install inp.src s.sessions.length key ::
          (sealOn (withPeer (dropPending s inp.src) inp ch) s.sessions.length
            inp.src ch .pong inp.rng).2)
  | dangling {p : PeerState} (hp : s.peers.lookup inp.src = some p)
      (hs : s.sessions[p.session]? = none) :
      RecvCase s inp (s.touch inp.src p inp.now) []
  | unopened {p : PeerState} {ses : Session K} (hp : s.peers.lookup inp.src = some p)
      (hs : s.sessions[p.session]? = some ses)
      (ho : ∀ env, (ses.channel.openDatagram inp.dgram).1 ≠ .ok (some env)) :
      RecvCase s inp (afterOpen s inp p ses) []
  | ping {p : PeerState} {ses : Session K} (hp : s.peers.lookup inp.src = some p)
      (hs : s.sessions[p.session]? = some ses)
      (ho : (ses.channel.openDatagram inp.dgram).1 = .ok (some .ping)) :
      RecvCase s inp
        (cleanup inp.now (sealOn (afterOpen s inp p ses) p.session inp.src
          (ses.channel.openDatagram inp.dgram).2 .pong inp.rng).1)
        (.received p.session .ping :: (sealOn (afterOpen s inp p ses) p.session inp.src
          (ses.channel.openDatagram inp.dgram).2 .pong inp.rng).2)
  | request {p : PeerState} {ses : Session K} {req : K.core.Request}
      (hp : s.peers.lookup inp.src = some p) (hs : s.sessions[p.session]? = some ses)
      (ho : (ses.channel.openDatagram inp.dgram).1 = .ok (some (.request req))) :
      RecvCase s inp
        { afterOpen s inp p ses with serving := some ⟨inp.src, p.session, req⟩ }
        [.received p.session (.request req), .handle p.session req]
  | denied {p : PeerState} {ses : Session K} {topic : K.core.Topic} {filter : Option K.core.Json}
      {capability : Option K.core.Capability} {err : CoreError K.core}
      (hp : s.peers.lookup inp.src = some p) (hs : s.sessions[p.session]? = some ses)
      (ho : (ses.channel.openDatagram inp.dgram).1 =
        .ok (some (.subscribe topic filter capability)))
      (hv : cfg.service.verifyTopic capability topic = .error err) :
      RecvCase s inp
        (cleanup inp.now ((afterOpen s inp p ses).enqueue p.session
          (.subscribeError topic (denyDiagnostic err))))
        [.received p.session (.subscribe topic filter capability)]
  | unserved {p : PeerState} {ses : Session K} {topic : K.core.Topic}
      {filter : Option K.core.Json} {capability : Option K.core.Capability}
      {subject : K.core.Subject}
      (hp : s.peers.lookup inp.src = some p) (hs : s.sessions[p.session]? = some ses)
      (ho : (ses.channel.openDatagram inp.dgram).1 =
        .ok (some (.subscribe topic filter capability)))
      (hv : cfg.service.verifyTopic capability topic = .ok subject)
      (he : cfg.service.eventSource topic = none) :
      RecvCase s inp (cleanup inp.now (afterOpen s inp p ses))
        [.received p.session (.subscribe topic filter capability), .eventSource p.session topic]
  | subscribed {p : PeerState} {ses : Session K} {topic : K.core.Topic}
      {filter : Option K.core.Json} {capability : Option K.core.Capability}
      {subject : K.core.Subject} {src : Nat}
      (hp : s.peers.lookup inp.src = some p) (hs : s.sessions[p.session]? = some ses)
      (ho : (ses.channel.openDatagram inp.dgram).1 =
        .ok (some (.subscribe topic filter capability)))
      (hv : cfg.service.verifyTopic capability topic = .ok subject)
      (he : cfg.service.eventSource topic = some src) :
      RecvCase s inp
        (cleanup inp.now { afterOpen s inp p ses with
          forwarders := s.forwarders ++ [.spawn src (s.sources src) topic p.session] })
        [.received p.session (.subscribe topic filter capability), .eventSource p.session topic]
  | inert {p : PeerState} {ses : Session K} {env : Envelope K.core}
      (hp : s.peers.lookup inp.src = some p) (hs : s.sessions[p.session]? = some ses)
      (ho : (ses.channel.openDatagram inp.dgram).1 = .ok (some env)) (hi : env.inert = true) :
      RecvCase s inp (cleanup inp.now (afterOpen s inp p ses)) [.received p.session env]

def Flow.finish (now : Instant) : Flow K → ServerState K × List (Effect K)
  | .done s out => (s, out)
  | .next s out => (cleanup now s, out)

theorem handleHs1_case {s : ServerState K} {inp : Inbound K} {body : Bytes}
    (hu : unshapeHs K inp.dgram = some (.hs1, body)) :
    RecvCase cfg s inp ((handleHs1 cfg s inp body).finish inp.now).1
      ((handleHs1 cfg s inp body).finish inp.now).2 := by
  unfold handleHs1
  split
  · exact .ignored
  · rename_i hl
    split
    · exact .swept (Or.inr ⟨_, rfl⟩)
    · rename_i r wire addr hr
      split
      · exact .ignored
      · rename_i hc
        refine .pended hu (by omega) hr ?_
        by_cases hm : inp.src ∈ s.pending
        · exact Or.inr hm
        · refine Or.inl ?_
          by_contra hn
          exact hc ⟨by omega, hm⟩
    · exact .swept (Or.inl rfl)

theorem handleHs3_case {s : ServerState K} {inp : Inbound K} {body : Bytes}
    (hu : unshapeHs K inp.dgram = some (.hs3, body)) :
    RecvCase cfg s inp ((handleHs3 cfg s inp body).finish inp.now).1
      ((handleHs3 cfg s inp body).finish inp.now).2 := by
  unfold handleHs3
  split
  · exact .ignored
  · rename_i ph hp
    simp only
    split
    · rename_i e hr
      exact .rejected hu hp hr
    · rename_i ch key hr
      split
      · rename_i e hg
        exact .refused hu hp hr hg
      · rename_i hg
        exact .installed hu hp hr hg

theorem dispatch_case {s : ServerState K} {inp : Inbound K} {p : PeerState} {ses : Session K}
    {env : Envelope K.core} (hp : s.peers.lookup inp.src = some p)
    (hs : s.sessions[p.session]? = some ses)
    (ho : (ses.channel.openDatagram inp.dgram).1 = .ok (some env)) :
    let flow := (dispatch cfg (afterOpen s inp p ses) inp p.session
      (ses.channel.openDatagram inp.dgram).2 env).cons (.received p.session env)
    RecvCase cfg s inp (flow.finish inp.now).1 (flow.finish inp.now).2 := by
  cases env with
  | request req => exact .request hp hs ho
  | response resp => exact .inert hp hs ho rfl
  | event ev => exact .inert hp hs ho rfl
  | subscribe topic filter capability =>
    simp only [dispatch, handleSubscribe]
    split
    · rename_i err hv
      exact .denied hp hs ho hv
    · rename_i subject hv
      split
      · rename_i he
        exact .unserved hp hs ho hv he
      · rename_i src he
        exact .subscribed hp hs ho hv he
  | unsubscribe topic => exact .inert hp hs ho rfl
  | subscribeError topic error => exact .inert hp hs ho rfl
  | ping => exact .ping hp hs ho
  | pong => exact .inert hp hs ho rfl

theorem handleData_case {s : ServerState K} {inp : Inbound K} :
    RecvCase cfg s inp ((handleData cfg s inp).finish inp.now).1
      ((handleData cfg s inp).finish inp.now).2 := by
  unfold handleData
  split
  · exact .ignored
  · rename_i p hp
    simp only [ServerState.touch_sessions]
    split
    · rename_i hs
      exact .dangling hp hs
    · rename_i ses hs
      split
      · rename_i env ho
        exact dispatch_case cfg hp hs ho
      · rename_i ho
        exact .unopened hp hs ho

theorem handleDgram_eq {s : ServerState K} {inp : Inbound K} {ty : DgramType} {body : Bytes}
    (hu : unshapeHs K inp.dgram = some (ty, body)) :
    handleDgram cfg s inp = Flow.finish inp.now (match ty with
      | .hs1 => handleHs1 cfg s inp body
      | .hs3 => handleHs3 cfg s inp body
      | .data => handleData cfg s inp
      | _ => .next s []) := by
  unfold unshapeHs at hu
  split at hu
  · cases hu
  · rename_i inner hi
    rw [handleDgram, hi]
    simp only [hu]
    cases ty <;> rfl

theorem handleDgram_none {s : ServerState K} {inp : Inbound K}
    (hu : unshapeHs K inp.dgram = none) : handleDgram cfg s inp = (s, []) := by
  cases hi : K.shapeIn inp.dgram with
  | none => simp only [handleDgram, hi]
  | some inner =>
    have hd : decodeInner inner = none := by simpa only [unshapeHs, hi] using hu
    simp only [handleDgram, hi, hd]

theorem handleDgram_case (s : ServerState K) (inp : Inbound K) :
    RecvCase cfg s inp (handleDgram cfg s inp).1 (handleDgram cfg s inp).2 := by
  cases hu : unshapeHs K inp.dgram with
  | none =>
    rw [handleDgram_none cfg hu]
    exact .ignored
  | some d =>
    obtain ⟨ty, body⟩ := d
    rw [handleDgram_eq cfg hu]
    cases ty with
    | hs1 => exact handleHs1_case cfg hu
    | hs2 => exact .swept (Or.inl rfl)
    | hs3 => exact handleHs3_case cfg hu
    | cookie => exact .swept (Or.inl rfl)
    | data => exact handleData_case cfg

theorem serverNext_recv {s s' : ServerState K} {inp : Inbound K} {o : List (Effect K)} :
    serverNext cfg s (.recv inp) = some (s', o) ↔
      s.serving = none ∧ handleDgram cfg s inp = (s', o) := by
  simp only [serverNext]
  cases s.serving <;> simp

/-- An Hs1 that the responder accepts, with a verifying cookie if the server
challenges it. -/
def AcceptableHs1 (cfg : ServerCfg K) (s : ServerState K) (inp : Inbound K) : Prop :=
  ∃ body msg1 supplied r wire, unshapeHs K inp.dgram = some (.hs1, body) ∧
    decodeMsg1Framed body = some (msg1, supplied) ∧
    respondMsg1 K msg1 inp.src cfg.serverPriv inp.entropy inp.rng =
      .ok (some (.partialHandshake r wire inp.src)) ∧
    ((effGate s inp).underLoad = true →
      cookieOk K s.cookieSecret (srcBytes inp.src) supplied = true)

theorem acceptableHs1_iff {cfg : ServerCfg K} {s : ServerState K} {inp : Inbound K} :
    AcceptableHs1 cfg s inp ↔ ∃ body r wire addr, unshapeHs K inp.dgram = some (.hs1, body) ∧
      processHs1 K body inp.src cfg.serverPriv s.cookieSecret (effGate s inp) inp.entropy inp.rng =
        .ok (some (.partialHandshake r wire addr)) := by
  constructor
  · rintro ⟨body, msg1, supplied, r, wire, hu, hd, hresp, hc⟩
    refine ⟨body, r, wire, inp.src, hu, ?_⟩
    rw [processHs1, hd]
    simp only
    rw [if_neg]
    · exact hresp
    · intro hch
      rw [Bool.and_eq_true, Bool.not_eq_true'] at hch
      rw [hc hch.1] at hch
      cases hch.2
  · rintro ⟨body, r, wire, addr, hu, hproc⟩
    obtain ⟨rfl, msg1, supplied, msg2, hs0, hs1, p, hd, hc, h0, h1, h2, hwire⟩ :=
      processHs1_partial hproc
    refine ⟨body, msg1, supplied, r, wire, hu, hd, ?_, hc⟩
    rw [hwire]
    simp only [respondMsg1, h0, h1, h2]

theorem serverNext_hs1 {s : ServerState K} {inp : Inbound K} {body : Bytes} {r : K.Handshake}
    {wire : Bytes} {addr : SocketAddr} (hs : s.serving = none)
    (hu : unshapeHs K inp.dgram = some (.hs1, body)) (hl : s.peers.len < MAX_PEERS)
    (hr : processHs1 K body inp.src cfg.serverPriv s.cookieSecret (effGate s inp) inp.entropy
      inp.rng = .ok (some (.partialHandshake r wire addr)))
    (hc : s.pending.len < MAX_PENDING ∨ inp.src ∈ s.pending) :
    serverNext cfg s (.recv inp) = some (cleanup inp.now (withPending s inp r),
      [.pend inp.src r wire, .sendTo inp.src wire]) := by
  refine (serverNext_recv cfg).mpr ⟨hs, ?_⟩
  have h1 : ¬ s.peers.len ≥ MAX_PEERS := by omega
  have h2 : ¬ (s.pending.len ≥ MAX_PENDING ∧ inp.src ∉ s.pending) := by
    rintro ⟨hge, hn⟩
    rcases hc with hlt | hin
    · omega
    · exact hn hin
  rw [handleDgram_eq cfg hu]
  simp only [handleHs1, h1, if_false, hr, h2]
  rfl

/-- At a full peer map an Hs1 does nothing, not even the cleanup. -/
theorem serverNext_hs1_full {s : ServerState K} {inp : Inbound K} {body : Bytes}
    (hs : s.serving = none) (hu : unshapeHs K inp.dgram = some (.hs1, body))
    (hl : MAX_PEERS ≤ s.peers.len) : serverNext cfg s (.recv inp) = some (s, []) := by
  refine (serverNext_recv cfg).mpr ⟨hs, ?_⟩
  rw [handleDgram_eq cfg hu]
  simp only [handleHs1, ge_iff_le, hl, if_true]
  rfl

theorem serverNext_hs3 {s : ServerState K} {inp : Inbound K} {body : Bytes}
    {ph : PendingHandshake K} {ch : DataChannel K} {key : Key} (hs : s.serving = none)
    (hu : unshapeHs K inp.dgram = some (.hs3, body)) (hp : s.pending.lookup inp.src = some ph)
    (hr : (completeHandshakeMsg3 K ph.responder body).1 = .ok (ch, key))
    (hg : cfg.gate key = .ok ()) :
    serverNext cfg s (.recv inp) = some
      (cleanup inp.now (sealOn (withPeer (dropPending s inp.src) inp ch) s.sessions.length inp.src
        ch .pong inp.rng).1,
        .install inp.src s.sessions.length key ::
          (sealOn (withPeer (dropPending s inp.src) inp ch) s.sessions.length inp.src ch .pong
            inp.rng).2) := by
  refine (serverNext_recv cfg).mpr ⟨hs, ?_⟩
  rw [handleDgram_eq cfg hu]
  simp only [handleHs3, hp, hr, hg]
  rfl

theorem mem_sealEffects {n : Nat} {dst : SocketAddr} {ch : DataChannel K} {env : Envelope K.core}
    {rng : K.Rng} {x : Effect K} :
    x ∈ sealEffects n dst ch env rng ↔
      ∃ wire, (ch.sealEnvelope env rng).1 = .ok wire ∧ x = .sealed n dst ch.sealer env wire := by
  unfold sealEffects
  cases h : (ch.sealEnvelope env rng).1 with
  | error e => simp
  | ok wire => simp

@[simp] theorem sealOn_fst (s : ServerState K) (n : Nat) (dst : SocketAddr) (ch : DataChannel K)
    (env : Envelope K.core) (rng : K.Rng) :
    (sealOn s n dst ch env rng).1 = s.setChannel n (ch.sealEnvelope env rng).2 := rfl

@[simp] theorem sealOn_snd (s : ServerState K) (n : Nat) (dst : SocketAddr) (ch : DataChannel K)
    (env : Envelope K.core) (rng : K.Rng) :
    (sealOn s n dst ch env rng).2 = sealEffects n dst ch env rng := rfl

@[simp] theorem afterOpen_peers (s : ServerState K) (inp : Inbound K) (p : PeerState)
    (ses : Session K) : (afterOpen s inp p ses).peers =
      s.peers.insert inp.src { p with lastSeen := inp.now } := rfl

@[simp] theorem afterOpen_sessions (s : ServerState K) (inp : Inbound K) (p : PeerState)
    (ses : Session K) : (afterOpen s inp p ses).sessions =
      s.sessions.modify p.session fun x =>
        { x with channel := (ses.channel.openDatagram inp.dgram).2 } := rfl

inductive StepCase (s : ServerState K) :
    ServerEvent K → ServerState K → List (Effect K) → Prop where
  | recv {inp : Inbound K} {s' : ServerState K} {o : List (Effect K)} (hs : s.serving = none)
      (hc : RecvCase cfg s inp s' o) : StepCase s (.recv inp) s' o
  | respond {now : Instant} {rng : K.Rng} {sv : Serving K} {ses : Session K}
      (hv : s.serving = some sv) (hs : s.sessions[sv.session]? = some ses) :
      StepCase s (.respond now rng)
        (cleanup now (sealOn { s with serving := none } sv.session sv.src ses.channel
          (.response (cfg.service.handle sv.req)) rng).1)
        (sealOn { s with serving := none } sv.session sv.src ses.channel
          (.response (cfg.service.handle sv.req)) rng).2
  | sealed {n : Nat} {rng : K.Rng} {ses : Session K} {env : Envelope K.core}
      {rest : List (Envelope K.core)} (hs : s.sessions[n]? = some ses) (he : ses.ended = false)
      (hq : ses.queue = env :: rest) :
      StepCase s (.sealer n rng) (sealOn (s.setQueue n rest) n ses.src ses.channel env rng).1
        (sealOn (s.setQueue n rest) n ses.src ses.channel env rng).2
  | ended {n : Nat} {rng : K.Rng} {ses : Session K} (hs : s.sessions[n]? = some ses)
      (hq : ses.queue = []) (hh : s.holdsTx n = false) :
      StepCase s (.sealer n rng) (s.endSealer n) []
  | forwarded {i : Nat} {f f' : Forwarder K.core} {ev : Event K.core}
      (hf : s.forwarders[i]? = some f)
      (hp : f.poll (s.sources f.source) (s.alive f.tx) = some (f', some ev)) :
      StepCase s (.forward i)
        (ServerState.enqueue { s with forwarders := s.forwarders.set i f' } f.tx (.event ev)) []
  | polled {i : Nat} {f f' : Forwarder K.core} (hf : s.forwarders[i]? = some f)
      (hp : f.poll (s.sources f.source) (s.alive f.tx) = some (f', none)) :
      StepCase s (.forward i) { s with forwarders := s.forwarders.set i f' } []
  | emit {source : Nat} {ev : Event K.core} :
      StepCase s (.emit source ev) (s.updateSource source (·.send ev)) []
  | close {source : Nat} :
      StepCase s (.close source) (s.updateSource source Channel.close) []
  | rotate {seed : Key} :
      StepCase s (.rotate seed) { s with cookieSecret := K.rotateCookie s.cookieSecret seed } []

theorem serverNext_case {s s' : ServerState K} {e : ServerEvent K} {o : List (Effect K)}
    (h : serverNext cfg s e = some (s', o)) : StepCase cfg s e s' o := by
  cases e with
  | recv inp =>
    obtain ⟨hs, he⟩ := (serverNext_recv cfg).mp h
    have hc := handleDgram_case cfg s inp
    rw [he] at hc
    exact .recv hs hc
  | respond now rng =>
    simp only [serverNext, finishServing] at h
    split at h
    · cases h
    · rename_i sv hv
      split at h
      · cases h
      · rename_i ses hs
        cases h
        exact .respond hv hs
  | sealer n rng =>
    simp only [serverNext, runSealer] at h
    split at h
    · cases h
    · rename_i ses hs
      split at h
      · cases h
      · rename_i he
        split at h
        · rename_i env rest hq
          cases h
          exact .sealed hs (by simpa using he) hq
        · rename_i hq
          split at h
          · cases h
          · rename_i hh
            cases h
            exact .ended hs hq (by simpa using hh)
  | forward i =>
    simp only [serverNext, runForwarder] at h
    split at h
    · cases h
    · rename_i f hf
      split at h
      · cases h
      · rename_i f' sent hp
        split at h
        · cases h
          exact .forwarded hf hp
        · cases h
          exact .polled hf hp
  | emit source ev => cases h; exact .emit
  | close source => cases h; exact .close
  | rotate seed => cases h; exact .rotate

theorem RecvCase.pending_eq {s s' : ServerState K} {inp : Inbound K} {o : List (Effect K)}
    (hc : RecvCase cfg s inp s' o) :
    (∃ r wire, Effect.pend inp.src r wire ∈ o ∧
      s'.pending = (s.pending.insert inp.src ⟨r, inp.now⟩).retain (pendingFresh inp.now)) ∨
    ∃ m, (m = s.pending ∨ m = s.pending.erase inp.src) ∧
      (s'.pending = m ∨ s'.pending = m.retain (pendingFresh inp.now)) := by
  cases hc with
  | ignored => exact Or.inr ⟨_, Or.inl rfl, Or.inl rfl⟩
  | swept ho => exact Or.inr ⟨_, Or.inl rfl, Or.inr rfl⟩
  | @pended body r wire addr hu hl hr hc => exact Or.inl ⟨r, wire, by simp, rfl⟩
  | rejected hu hp hr => exact Or.inr ⟨_, Or.inr rfl, Or.inr rfl⟩
  | refused hu hp hr hg => exact Or.inr ⟨_, Or.inr rfl, Or.inl rfl⟩
  | installed hu hp hr hg => exact Or.inr ⟨_, Or.inr rfl, Or.inr rfl⟩
  | dangling hp hs => exact Or.inr ⟨_, Or.inl rfl, Or.inl rfl⟩
  | unopened hp hs ho => exact Or.inr ⟨_, Or.inl rfl, Or.inl rfl⟩
  | ping hp hs ho => exact Or.inr ⟨_, Or.inl rfl, Or.inr rfl⟩
  | request hp hs ho => exact Or.inr ⟨_, Or.inl rfl, Or.inl rfl⟩
  | denied hp hs ho hv => exact Or.inr ⟨_, Or.inl rfl, Or.inr rfl⟩
  | unserved hp hs ho hv he => exact Or.inr ⟨_, Or.inl rfl, Or.inr rfl⟩
  | subscribed hp hs ho hv he => exact Or.inr ⟨_, Or.inl rfl, Or.inr rfl⟩
  | inert hp hs ho => exact Or.inr ⟨_, Or.inl rfl, Or.inr rfl⟩

theorem RecvCase.peers_eq {s s' : ServerState K} {inp : Inbound K} {o : List (Effect K)}
    (hc : RecvCase cfg s inp s' o) :
    ∃ m, (m = s.peers ∨
        (∃ key, Effect.install inp.src s.sessions.length key ∈ o ∧
          m = s.peers.insert inp.src ⟨s.sessions.length, inp.now⟩) ∨
        (∃ p, s.peers.lookup inp.src = some p ∧
          m = s.peers.insert inp.src { p with lastSeen := inp.now })) ∧
      (s'.peers = m ∨ s'.peers = m.retain (peerActive inp.now)) := by
  cases hc with
  | ignored => exact ⟨_, Or.inl rfl, Or.inl rfl⟩
  | swept ho => exact ⟨_, Or.inl rfl, Or.inr rfl⟩
  | pended hu hl hr hc => exact ⟨_, Or.inl rfl, Or.inr rfl⟩
  | rejected hu hp hr => exact ⟨_, Or.inl rfl, Or.inr rfl⟩
  | refused hu hp hr hg => exact ⟨_, Or.inl rfl, Or.inl rfl⟩
  | @installed body ph ch key hu hp hr hg =>
    exact ⟨_, Or.inr (Or.inl ⟨key, by simp, rfl⟩), Or.inr rfl⟩
  | dangling hp hs => exact ⟨_, Or.inr (Or.inr ⟨_, hp, rfl⟩), Or.inl rfl⟩
  | unopened hp hs ho => exact ⟨_, Or.inr (Or.inr ⟨_, hp, rfl⟩), Or.inl rfl⟩
  | ping hp hs ho => exact ⟨_, Or.inr (Or.inr ⟨_, hp, rfl⟩), Or.inr rfl⟩
  | request hp hs ho => exact ⟨_, Or.inr (Or.inr ⟨_, hp, rfl⟩), Or.inl rfl⟩
  | denied hp hs ho hv => exact ⟨_, Or.inr (Or.inr ⟨_, hp, rfl⟩), Or.inr rfl⟩
  | unserved hp hs ho hv he => exact ⟨_, Or.inr (Or.inr ⟨_, hp, rfl⟩), Or.inr rfl⟩
  | subscribed hp hs ho hv he => exact ⟨_, Or.inr (Or.inr ⟨_, hp, rfl⟩), Or.inr rfl⟩
  | inert hp hs ho => exact ⟨_, Or.inr (Or.inr ⟨_, hp, rfl⟩), Or.inr rfl⟩

end Obfs.Udp

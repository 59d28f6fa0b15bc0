import Obfs.Udp.Handshake
import Obfs.Forwarder
import Obfs.Lib.Table
import Obfs.Lib.Trace
import Mathlib.Tactic.Simps.Basic

/-! The UDP server: the receive loop with its two maps, the per-peer sealer
tasks and the event forwarders. A step runs one task from one await to the
next. The receive loop rests between datagrams and inside svc.handle(req);
the clock is read once per step. -/
namespace Obfs.Udp
open Broadcast

def MAX_PEERS : Nat := 1024
def MAX_PENDING : Nat := 2048
def PENDING_SOFT_LIMIT : Nat := 256
def PEER_IDLE_TIMEOUT : Nat := fromSecs 120
def PENDING_TIMEOUT : Nat := fromSecs 5

variable (K : Crates)

structure PendingHandshake where
  responder : K.Handshake
  createdAt : Instant

/- The Arc of the channel and the sender of the outbound queue of a peer are
   the index of the session that its handshake created. -/
structure PeerState where
  session : Nat
  lastSeen : Instant

structure Session where
  src : SocketAddr
  channel : DataChannel K
  queue : List (Envelope K.core)
  ended : Bool

/- Send on the outbound channel of a session; without a receiver it is lost. -/
def Session.push {K : Crates} (ses : Session K) (env : Envelope K.core) : Session K :=
  if ses.ended then ses else { ses with queue := ses.queue ++ [env] }

/- The receive loop while it awaits the service's answer to a request. -/
structure Serving where
  src : SocketAddr
  session : Nat
  req : K.core.Request

structure ServerCfg where
  serverPriv : Key
  service : Service K.core
  gate : TransportGate

structure ServerState where
  cookieSecret : K.CookieSecret
  pending : AList fun _ : SocketAddr => PendingHandshake K
  peers : AList fun _ : SocketAddr => PeerState
  sessions : List (Session K)
  forwarders : List (Forwarder K.core)
  sources : Nat → Channel (Event K.core)
  serving : Option (Serving K)

structure Inbound where
  dgram : Bytes
  src : SocketAddr
  now : Instant
  load : LoadGate
  entropy : K.Entropy
  rng : K.Rng

inductive ServerEvent where
  | recv (inp : Inbound K)
  | respond (now : Instant) (rng : K.Rng)
  | sealer (n : Nat) (rng : K.Rng)
  | forward (i : Nat)
  | emit (source : Nat) (ev : Event K.core)
  | close (source : Nat)
  | rotate (seed : Key)

/-- What a step does besides changing the state: plain datagrams, insertions
into the two maps, envelopes opened and sealed on a session, and calls of the
service. A sealed envelope is handed to the socket or the send loop. -/
inductive Effect where
  | sendTo (dst : SocketAddr) (wire : Bytes)
  | pend (src : SocketAddr) (responder : K.Handshake) (msg2 : Bytes)
  | install (src : SocketAddr) (n : Nat) (clientStatic : Key)
  | received (n : Nat) (env : Envelope K.core)
  | sealed (n : Nat) (dst : SocketAddr) (sealer : K.RecordSealer) (env : Envelope K.core)
      (wire : Bytes)
  | handle (n : Nat) (req : K.core.Request)
  | eventSource (n : Nat) (topic : K.core.Topic)

/- How an arm of the handler ends: it returns (or suspends), or it falls
   through to the cleanup behind the match. -/
inductive Flow where
  | done (s : ServerState K) (out : List (Effect K))
  | next (s : ServerState K) (out : List (Effect K))

variable {K} (cfg : ServerCfg K)

@[simps] def ServerState.init (secret : K.CookieSecret) (sources : Nat → Channel (Event K.core)) :
    ServerState K :=
  ⟨secret, ∅, ∅, [], [], sources, none⟩

@[simps] def ServerState.setChannel (s : ServerState K) (n : Nat) (ch : DataChannel K) :
    ServerState K :=
  { s with sessions := s.sessions.modify n fun ses => { ses with channel := ch } }

@[simps] def ServerState.touch (s : ServerState K) (src : SocketAddr) (peer : PeerState)
    (now : Instant) : ServerState K :=
  { s with peers := s.peers.insert src { peer with lastSeen := now } }

@[simps] def ServerState.enqueue (s : ServerState K) (n : Nat) (env : Envelope K.core) :
    ServerState K :=
  { s with sessions := s.sessions.modify n (·.push env) }

@[simps] def ServerState.setQueue (s : ServerState K) (n : Nat) (queue : List (Envelope K.core)) :
    ServerState K :=
  { s with sessions := s.sessions.modify n fun ses => { ses with queue := queue } }

@[simps] def ServerState.endSealer (s : ServerState K) (n : Nat) : ServerState K :=
  { s with sessions := s.sessions.modify n fun ses => { ses with ended := true } }

def pendingFresh (now : Instant) (_ : SocketAddr) (ph : PendingHandshake K) : Bool :=
  durationSince now ph.createdAt < PENDING_TIMEOUT

def peerActive (now : Instant) (_ : SocketAddr) (p : PeerState) : Bool :=
  durationSince now p.lastSeen < PEER_IDLE_TIMEOUT

@[simps] def cleanup (now : Instant) (s : ServerState K) : ServerState K :=
  { s with
    pending := s.pending.retain (pendingFresh now)
    peers := s.peers.retain (peerActive now) }

def sealEffects (n : Nat) (dst : SocketAddr) (ch : DataChannel K) (env : Envelope K.core)
    (rng : K.Rng) : List (Effect K) :=
  match (ch.sealEnvelope env rng).1 with
  | .ok wire => [.sealed n dst ch.sealer env wire]
  | .error _ => []

def sealOn (s : ServerState K) (n : Nat) (dst : SocketAddr) (ch : DataChannel K)
    (env : Envelope K.core) (rng : K.Rng) : ServerState K × List (Effect K) :=
  (s.setChannel n (ch.sealEnvelope env rng).2, sealEffects n dst ch env rng)

/- The load gate the handler passes on: the operator's signal, or a pending
   map at its soft limit. -/
def effGate (s : ServerState K) (inp : Inbound K) : LoadGate :=
  let effectiveUnderLoad := inp.load.underLoad || decide (s.pending.len ≥ PENDING_SOFT_LIMIT)
  if effectiveUnderLoad then alwaysUnderLoad else alwaysOpen

@[simps] def withPending (s : ServerState K) (inp : Inbound K) (r : K.Handshake) : ServerState K :=
  { s with pending := s.pending.insert inp.src ⟨r, inp.now⟩ }

def handleHs1 (s : ServerState K) (inp : Inbound K) (body : Bytes) : Flow K :=
  if s.peers.len ≥ MAX_PEERS then .done s []
  else
    match processHs1 K body inp.src cfg.serverPriv s.cookieSecret (effGate s inp) inp.entropy
        inp.rng with
    | .ok (some (.cookieReply wire)) => .next s [.sendTo inp.src wire]
    | .ok (some (.partialHandshake responder msg2 _)) =>
      if s.pending.len ≥ MAX_PENDING ∧ inp.src ∉ s.pending then .done s []
      else
        .next (withPending s inp responder)
          [.pend inp.src responder msg2, .sendTo inp.src msg2]
    | _ => .next s []

@[simps] def dropPending (s : ServerState K) (src : SocketAddr) : ServerState K :=
  { s with pending := s.pending.erase src }

@[simps] def withPeer (s : ServerState K) (inp : Inbound K) (ch : DataChannel K) : ServerState K :=
  { s with
    sessions := s.sessions ++ [⟨inp.src, ch, [], false⟩]
    peers := s.peers.insert inp.src ⟨s.sessions.length, inp.now⟩ }

/- The completed handshake. The ready record is sealed first, on a channel
   that no other task knows yet. -/
def installPeer (s : ServerState K) (inp : Inbound K) (ch : DataChannel K) (clientStatic : Key) :
    Flow K :=
  let n := s.sessions.length
  let ready := sealOn (withPeer s inp ch) n inp.src ch .pong inp.rng
  .next ready.1 (.install inp.src n clientStatic :: ready.2)

def handleHs3 (s : ServerState K) (inp : Inbound K) (body : Bytes) : Flow K :=
  match s.pending.lookup inp.src with
  | none => .done s []
  | some ph =>
    let s := dropPending s inp.src
    match (completeHandshakeMsg3 K ph.responder body).1 with
    | .error _ => .next s []
    | .ok (channel, clientStatic) =>
      match cfg.gate clientStatic with
      | .error _ => .done s []
      | .ok () => installPeer s inp channel clientStatic

def handleSubscribe (s : ServerState K) (n : Nat) (topic : K.core.Topic)
    (capability : Option K.core.Capability) : Flow K :=
  match cfg.service.verifyTopic capability topic with
  | .error err => .next (s.enqueue n (.subscribeError topic (denyDiagnostic err))) []
  | .ok _ =>
    match cfg.service.eventSource topic with
    | none => .next s [.eventSource n topic]
    | some src =>
      .next { s with forwarders := s.forwarders ++ [.spawn src (s.sources src) topic n] }
        [.eventSource n topic]

def dispatch (s : ServerState K) (inp : Inbound K) (n : Nat) (ch : DataChannel K)
    (env : Envelope K.core) : Flow K :=
  match env with
  | .ping =>
    let pong := sealOn s n inp.src ch .pong inp.rng
    .next pong.1 pong.2
  | .request req => .done { s with serving := some ⟨inp.src, n, req⟩ } [.handle n req]
  | .subscribe topic _ capability => handleSubscribe cfg s n topic capability
  | .unsubscribe _ => .next s []
  | _ => .next s []

def Flow.cons (e : Effect K) : Flow K → Flow K
  | .done s out => .done s (e :: out)
  | .next s out => .next s (e :: out)

def handleData (s : ServerState K) (inp : Inbound K) : Flow K :=
  match s.peers.lookup inp.src with
  | none => .done s []
  | some peer =>
    let s := s.touch inp.src peer inp.now
    match s.sessions[peer.session]? with
    | none => .done s []
    | some ses =>
      let opened := ses.channel.openDatagram inp.dgram
      let s := s.setChannel peer.session opened.2
      match opened.1 with
      | .ok (some env) =>
        (dispatch cfg s inp peer.session opened.2 env).cons
          (.received peer.session env)
      | _ => .done s []

def handleDgram (s : ServerState K) (inp : Inbound K) : ServerState K × List (Effect K) :=
  match K.shapeIn inp.dgram with
  | none => (s, [])
  | some inner =>
    match decodeInner inner with
    | none => (s, [])
    | some (ty, body) =>
      let flow : Flow K := match ty with
        | .hs1 => handleHs1 cfg s inp body
        | .hs3 => handleHs3 cfg s inp body
        | .data => handleData cfg s inp
        | _ => .next s []
      match flow with
      | .done s out => (s, out)
      | .next s out => (cleanup inp.now s, out)

/- A session's outbound sender is held by the peer entry, by every forwarder
   of the session, and by the receive loop while it serves a request. -/
def ServerState.holdsTx (s : ServerState K) (n : Nat) : Bool :=
  s.peers.entries.any (fun e => e.2.session == n) ||
    s.forwarders.any (fun f => f.live && f.tx == n) ||
    s.serving.any fun sv => sv.session == n

/- The service has answered: seal the response and run the cleanup. -/
def finishServing (s : ServerState K) (now : Instant) (rng : K.Rng) :
    Option (ServerState K × List (Effect K)) :=
  match s.serving with
  | none => none
  | some sv =>
    match s.sessions[sv.session]? with
    | none => none
    | some ses =>
      let s := { s with serving := none }
      let resp := sealOn s sv.session sv.src ses.channel
        (.response (cfg.service.handle sv.req)) rng
      some (cleanup now resp.1, resp.2)

/- One turn of a sealer task. It ends once its queue is empty and no sender of
   it is left. -/
def runSealer (s : ServerState K) (n : Nat) (rng : K.Rng) :
    Option (ServerState K × List (Effect K)) :=
  match s.sessions[n]? with
  | none => none
  | some ses =>
    if ses.ended then none
    else
      match ses.queue with
      | env :: rest =>
        some (sealOn (s.setQueue n rest) n ses.src ses.channel env rng)
      | [] =>
        if s.holdsTx n then none
        else some (s.endSealer n, [])

def ServerState.alive (s : ServerState K) (n : Nat) : Bool :=
  (s.sessions[n]?).any fun ses => !ses.ended

def runForwarder (s : ServerState K) (i : Nat) : Option (ServerState K × List (Effect K)) :=
  match s.forwarders[i]? with
  | none => none
  | some f =>
    match f.poll (s.sources f.source) (s.alive f.tx) with
    | none => none
    | some (f', sent) =>
      let s := { s with forwarders := s.forwarders.set i f' }
      match sent with
      | some ev => some (s.enqueue f.tx (.event ev), [])
      | none => some (s, [])

@[simps] def ServerState.updateSource (s : ServerState K) (i : Nat)
    (f : Channel (Event K.core) → Channel (Event K.core)) : ServerState K :=
  { s with sources := fun j => if j = i then f (s.sources j) else s.sources j }

def serverNext (s : ServerState K) : ServerEvent K → Option (ServerState K × List (Effect K))
  | .recv inp => if s.serving.isSome then none else some (handleDgram cfg s inp)
  | .respond now rng => finishServing cfg s now rng
  | .sealer n rng => runSealer s n rng
  | .forward i => runForwarder s i
  | .emit source ev => some (s.updateSource source (·.send ev), [])
  | .close source => some (s.updateSource source Channel.close, [])
  | .rotate seed => some ({ s with cookieSecret := K.rotateCookie s.cookieSecret seed }, [])

end Obfs.Udp

import Obfs.Tcp.HandshakeIo
import Obfs.Tcp.StreamEnd

/-! The stream transport end to end: serve_obfs with its accept loop and one
handle_connection task for every accepted stream, and clients that connect and
then run their pump and their calls. The network is not part of it: what a read
returns and how a write ends is given with every step. -/
namespace Obfs.Tcp
open Broadcast Client TcpStream Trace
variable (K : StreamCrates) (ι : Type)

structure ServeCfg where
  serverPrivate : Key
  service : Service K.core
  gate : TransportGate

structure DialCfg where
  localPrivate : Key
  serverPublic : Key
  capability : Option K.core.Capability

structure TcpCfg where
  server : ServeCfg K
  client : ι → DialCfg K
  requestId : K.core.Request → String
  responseId : K.core.Response → String

variable {K ι}

abbrev TcpCfg.transport (cfg : TcpCfg K ι) (c : ι) : Params K.core :=
  streamTransport cfg.requestId cfg.responseId (cfg.client c).capability

variable (K) in
/-- A handle_connection task: in its handshake, returned before the pump, or
with the client's key and the pump and forwarders of the connection. -/
inductive Handler where
  | handshaking
  | returned
  | running (key : Key) (ep : StreamEnd K) (conn : ConnState K.core)

variable (K) in
/-- What happens to a handler. `out` decides how the sends of the step end. -/
inductive HandlerEvent where
  | handshake (e : K.Entropy) (rng : K.Rng) (socket : Socket)
  | frame (reads : List StreamRead) (out : K.Rng × Except IoError Unit)
  | outbound (out : K.Rng × Except IoError Unit)
  | respond (out : K.Rng × Except IoError Unit)
  | forward (i : Nat)

section Handler
variable (cfg : ServeCfg K) (sources : Nat → Channel (Event K.core))

/- The gate. Without a key the connection is refused. -/
def passGate : K.Session × Option Key × Bytes → Handler K
  | (session, some key, leftover) =>
    match cfg.gate key with
    | .ok () => .running key ⟨session, leftover, false⟩ (.init sources)
    | .error _ => .returned
  | (_, none, _) => .returned

def handshakeNext (e : K.Entropy) (rng : K.Rng) (socket : Socket) : Option (Handler K) :=
  match serverHandshakeInPlace K cfg.serverPrivate e rng socket with
  | .ok triple _ => some (passGate cfg sources triple)
  | .error (.failed _) _ => some .returned
  | .error .dropped _ => none
  | .error .pending _ => none

variable (service : Service K.core) (ep : StreamEnd K) (conn : ConnState K.core)

def inlineReply {C : Core} (service : Service C) : Envelope C → Option (Envelope C)
  | .ping => some .pong
  | .subscribe topic _ capability =>
    match service.verifyTopic capability topic with
    | .error err => some (.subscribeError topic (denyDiagnostic err))
    | .ok _ => none
  | _ => none

def connStep (e : ConnEvent K.core) :
    Option ((StreamEnd K × ConnState K.core) × List (ConnEffect K.core)) :=
  (connNext service conn e).map fun next => ((ep, next.1), next.2)

/- The inbound arm of select!. A poll of recv_frame that does not end leaves the
pump where it is. -/
def frameNext (reads : List StreamRead) (out : K.Rng × Except IoError Unit) :
    Option ((StreamEnd K × ConnState K.core) × List (ConnEffect K.core)) :=
  match conn.pump with
  | .pumping =>
    match ep.recv reads with
    | (.returned (.ok env), ep) =>
      match inlineReply service env with
      | some reply => connStep service (ep.send reply out).2 conn (.frame env (ep.send reply out).1)
      | none => connStep service ep conn (.frame env .ok)
    | (.returned (.error e), ep) => connStep service ep conn (.frameError (frameErrorText e))
    | (.dropped, ep) => some ((ep, conn), [])
    | (.pending, ep) => some ((ep, conn), [])
  | _ => none

def outboundNext (out : K.Rng × Except IoError Unit) :
    Option ((StreamEnd K × ConnState K.core) × List (ConnEffect K.core)) :=
  match conn.queue with
  | env :: _ => connStep service (ep.send env out).2 conn (.outbound (ep.send env out).1)
  | [] => none

/- The rest of the inbound arm when svc.handle has returned. -/
def respondNext (out : K.Rng × Except IoError Unit) :
    Option ((StreamEnd K × ConnState K.core) × List (ConnEffect K.core)) :=
  match conn.pump with
  | .serving req =>
    let response := .response (service.handle req)
    connStep service (ep.send response out).2 conn (.respond (ep.send response out).1)
  | _ => none

def streamNext :
    HandlerEvent K → Option ((StreamEnd K × ConnState K.core) × List (ConnEffect K.core))
  | .handshake _ _ _ => none
  | .frame reads out => frameNext service ep conn reads out
  | .outbound out => outboundNext service ep conn out
  | .respond out => respondNext service ep conn out
  | .forward i => connStep service ep conn (.forward i)

def handlerNext (hd : Handler K) (e : HandlerEvent K) :
    Option (Handler K × List (ConnEffect K.core)) :=
  match hd, e with
  | .handshaking, .handshake e rng socket =>
    (handshakeNext cfg sources e rng socket).map fun hd => (hd, [])
  | .running key ep conn, e =>
    (streamNext cfg.service ep conn e).map fun next => (.running key next.1.1 next.1.2, next.2)
  | _, _ => none

/- The event sources are those of the service, for every connection. -/
def Handler.updateSource (i : Nat) (f : Channel (Event K.core) → Channel (Event K.core)) :
    Handler K → Handler K
  | .running key ep conn => .running key ep (conn.updateSource i f)
  | hd => hd

end Handler

section System
variable (cfg : TcpCfg K ι)

inductive ClientEnd (c : ι) where
  | idle
  | failed (e : ObfsError K.core)
  | running (transport : Transport (cfg.transport c))

structure TcpState where
  listening : Bool
  sources : Nat → Channel (Event K.core)
  conns : List (Handler K)
  clients : (c : ι) → ClientEnd cfg c

inductive TcpEvent where
  | accept
  | acceptError
  | stop
  | conn (m : Nat) (e : HandlerEvent K)
  | emit (source : Nat) (ev : Event K.core)
  | close (source : Nat)
  | connect (c : ι) (e : K.Entropy) (rng : Nat → K.Rng) (socket : Socket)
  | transport (c : ι) (e : TransportEvent (cfg.transport c))

variable (K ι) in
inductive TcpEffect where
  | conn (m : Nat) (x : ConnEffect K.core)
  | transport (c : ι) (x : TransportEffect K.core)

def TcpState.init (sources : Nat → Channel (Event K.core)) : TcpState cfg :=
  ⟨true, sources, [], fun _ => .idle⟩

variable {cfg} [DecidableEq ι]

def TcpState.set (s : TcpState cfg) (c : ι) (x : ClientEnd cfg c) : TcpState cfg :=
  { s with clients := Function.update s.clients c x }

def TcpState.updateSource (s : TcpState cfg) (i : Nat)
    (f : Channel (Event K.core) → Channel (Event K.core)) : TcpState cfg :=
  { s with
    sources := fun j => if j = i then f (s.sources j) else s.sources j
    conns := s.conns.map (Handler.updateSource i f) }

/- connect after the stream is there: the handshake, and a pump on what it leaves. -/
def connectNext (c : ι) (e : K.Entropy) (rng : Nat → K.Rng) (socket : Socket) :
    Option (ClientEnd cfg c) :=
  match clientHandshakeInPlace K (cfg.client c).localPrivate (cfg.client c).serverPublic e rng
    socket with
  | .ok (session, leftover) _ =>
    some (.running (Transport.init (cfg.transport c) (⟨session, leftover, false⟩ : StreamEnd K)))
  | .error (.failed e) _ => some (.failed e)
  | .error .dropped _ => none
  | .error .pending _ => none

/-- One step of the accept loop, of a connection, of an event source, or of a
client. Connections outlive the accept loop. -/
def tcpNext (s : TcpState cfg) : TcpEvent cfg → Option (TcpState cfg × List (TcpEffect K ι))
  | .accept =>
    if s.listening then some ({ s with conns := s.conns ++ [.handshaking] }, []) else none
  | .acceptError => if s.listening then some ({ s with listening := false }, []) else none
  | .stop => if s.listening then some ({ s with listening := false }, []) else none
  | .conn m e =>
    match s.conns[m]? with
    | none => none
    | some hd => (handlerNext cfg.server s.sources hd e).map fun next =>
        ({ s with conns := s.conns.set m next.1 }, next.2.map (.conn m))
  | .emit source ev => some (s.updateSource source (·.send ev), [])
  | .close source => some (s.updateSource source Channel.close, [])
  | .connect c e rng socket =>
    match s.clients c with
    | .idle => (connectNext c e rng socket).map fun x => (s.set c x, [])
    | _ => none
  | .transport c e =>
    match s.clients c with
    | .running t => (Client.next t e).map fun next =>
        (s.set c (.running next.1), next.2.map (.transport c))
    | _ => none

abbrev TcpStep (cfg : TcpCfg K ι) := Step (TcpState cfg) (TcpEvent cfg) (TcpEffect K ι)

abbrev TcpRun (s₀ : TcpState cfg) (h : List (TcpStep cfg)) (s : TcpState cfg) : Prop :=
  Run tcpNext s₀ h s

inductive TcpCase (s : TcpState cfg) : TcpEvent cfg → TcpState cfg → List (TcpEffect K ι) → Prop
  where
  | accept (hl : s.listening = true) :
      TcpCase s .accept { s with conns := s.conns ++ [.handshaking] } []
  | acceptError (hl : s.listening = true) :
      TcpCase s .acceptError { s with listening := false } []
  | stop (hl : s.listening = true) : TcpCase s .stop { s with listening := false } []
  | handshake {m : Nat} {e : K.Entropy} {rng : K.Rng} {socket : Socket} {hd : Handler K}
      (hm : s.conns[m]? = some .handshaking)
      (hn : handshakeNext cfg.server s.sources e rng socket = some hd) :
      TcpCase s (.conn m (.handshake e rng socket)) { s with conns := s.conns.set m hd } []
  | stream {m : Nat} {e : HandlerEvent K} {key : Key} {ep ep' : StreamEnd K}
      {conn conn' : ConnState K.core} {o : List (ConnEffect K.core)}
      (hm : s.conns[m]? = some (.running key ep conn))
      (hn : streamNext cfg.server.service ep conn e = some ((ep', conn'), o)) :
      TcpCase s (.conn m e) { s with conns := s.conns.set m (.running key ep' conn') }
        (o.map (.conn m))
  | emit {source : Nat} {ev : Event K.core} :
      TcpCase s (.emit source ev) (s.updateSource source (·.send ev)) []
  | close {source : Nat} : TcpCase s (.close source) (s.updateSource source Channel.close) []
  | connect {c : ι} {e : K.Entropy} {rng : Nat → K.Rng} {socket : Socket} {x : ClientEnd cfg c}
      (hc : s.clients c = .idle) (hn : connectNext c e rng socket = some x) :
      TcpCase s (.connect c e rng socket) (s.set c x) []
  | transport {c : ι} {e : TransportEvent (cfg.transport c)} {u u' : Transport (cfg.transport c)}
      {o : List (TransportEffect K.core)} (hc : s.clients c = .running u)
      (hn : Client.next u e = some (u', o)) :
      TcpCase s (.transport c e) (s.set c (.running u')) (o.map (.transport c))

theorem tcpNext_case {s s' : TcpState cfg} {e : TcpEvent cfg} {o : List (TcpEffect K ι)}
    (h : tcpNext s e = some (s', o)) : TcpCase s e s' o := by
  cases e with
  | accept =>
    simp only [tcpNext] at h
    split at h <;> cases h
    exact .accept ‹_›
  | acceptError =>
    simp only [tcpNext] at h
    split at h <;> cases h
    exact .acceptError ‹_›
  | stop =>
    simp only [tcpNext] at h
    split at h <;> cases h
    exact .stop ‹_›
  | conn m e =>
    simp only [tcpNext] at h
    split at h
    · cases h
    · rename_i hd hm
      obtain ⟨next, hn, heq⟩ := Option.map_eq_some_iff.mp h
      cases heq
      unfold handlerNext at hn
      split at hn
      · obtain ⟨hd', hs, heq⟩ := Option.map_eq_some_iff.mp hn
        cases heq
        exact .handshake hm hs
      · obtain ⟨⟨⟨ep', conn'⟩, o⟩, hs, heq⟩ := Option.map_eq_some_iff.mp hn
        cases heq
        exact .stream hm hs
      · cases hn
  | emit source ev => cases h; exact .emit
  | close source => cases h; exact .close
  | connect c e rng socket =>
    simp only [tcpNext] at h
    split at h
    · rename_i hc
      obtain ⟨x, hn, heq⟩ := Option.map_eq_some_iff.mp h
      cases heq
      exact .connect hc hn
    · cases h
  | transport c e =>
    simp only [tcpNext] at h
    split at h
    · rename_i u hc
      obtain ⟨next, hn, heq⟩ := Option.map_eq_some_iff.mp h
      cases heq
      exact .transport hc hn
    · cases h

@[simp] theorem set_clients_self (s : TcpState cfg) (c : ι) (x : ClientEnd cfg c) :
    (s.set c x).clients c = x := Function.update_self c x s.clients

theorem set_clients_ne (s : TcpState cfg) {c d : ι} (x : ClientEnd cfg c) (hd : d ≠ c) :
    (s.set c x).clients d = s.clients d := Function.update_of_ne hd x s.clients

end System
end Obfs.Tcp

import Obfs.Udp.Handshake

/-! The client's side: client_udp_handshake as a machine that rests at its
awaits, and the channel it returns. One event is one wake-up: the first call,
a received datagram, a receive error, or the expiry of the running timer. -/
namespace Obfs.Udp

def RETRANSMIT_INTERVAL : Nat := fromMillis 250
def MAX_HS_TRIES : Nat := 12
def MAX_HANDSHAKE_ATTEMPTS : Nat := 3
def READY_WAIT_TIMEOUT : Nat := fromMillis 2000
def RESEND_WAIT_TIMEOUT : Nat := fromMillis 500

structure StaticKeypair where
  priv : Key
  pub : Key

structure ClientCfg where
  serverAddr : SocketAddr
  serverPub : Key
  keypair : StaticKeypair

variable (K : Crates)

inductive ClientState where
  | idle
  | awaitHs2 (attempt tries : Nat) (seed : Key) (hs : K.Handshake) (msg1 : Bytes)
      (cookie : Option Cookie) (deadline : Instant)
  | awaitReady (attempt resends : Nat) (seed : Key) (channel : DataChannel K) (wire3 : Bytes)
      (deadline : Instant)
  | connected (seed : Key) (channel : DataChannel K)
  | failed (e : ObfsError K.core)

/-- What the environment gives to one wake-up: the clock, the draws that it
may use, and whether the socket takes a datagram. -/
structure Wake where
  now : Instant
  seed : Key
  entropy : K.Entropy
  rng : K.Rng
  sent : Except IoError Unit

inductive ClientEvent where
  | call (w : Wake K)
  | datagram (data : Bytes) (src : SocketAddr) (w : Wake K)
  | recvError (e : IoError) (w : Wake K)
  | timer (w : Wake K)
  | sealEnvelope (env : Envelope K.core) (rng : K.Rng)
  | openDatagram (data : Bytes)

/-- What a wake-up does: the draw of an attempt's seed, datagrams to the server,
the third handshake message with the handshake state and the seed that made
it, the return of the call, and sealed or opened envelopes of the returned
channel. -/
inductive ClientEffect where
  | drew (seed : Key)
  | sendTo (wire : Bytes)
  | wroteMsg3 (hs : K.Handshake) (msg3 : Bytes) (seed : Key)
  | returned (seed : Key) (channel : DataChannel K)
  | sealed (sealer : K.RecordSealer) (env : Envelope K.core) (wire : Bytes)
  | received (env : Envelope K.core)

variable {K} (cfg : ClientCfg)

def sendHs1 (w : Wake K) (attempt tries : Nat) (seed : Key) (hs : K.Handshake) (msg1 : Bytes)
    (cookie : Option Cookie) : ClientState K × List (ClientEffect K) :=
  match w.sent with
  | .error e => (.failed (.io e), [])
  | .ok () =>
    (.awaitHs2 attempt tries seed hs msg1 cookie (w.now + RETRANSMIT_INTERVAL),
      [.sendTo (shapeHs K .hs1 (encodeMsg1Framed msg1 cookie) w.rng)])

def initiateAttempt (attempt : Nat) (w : Wake K) : ClientState K × List (ClientEffect K) :=
  match K.initiator cfg.keypair.priv cfg.serverPub w.entropy with
  | .error e => (.failed (.handshakeFailed ("initiator: " ++ e.text)), [])
  | .ok hs =>
    match K.writeMessage hs [] with
    | (.error e, _) => (.failed (.handshakeFailed ("write msg1: " ++ e.text)), [])
    | (.ok msg1, hs) => sendHs1 w attempt 0 w.seed hs msg1 none

def beginAttempt (attempt : Nat) (w : Wake K) : ClientState K × List (ClientEffect K) :=
  if attempt < MAX_HANDSHAKE_ATTEMPTS then
    let next := initiateAttempt cfg attempt w
    (next.1, .drew w.seed :: next.2)
  else (.failed (.handshakeFailed "handshake exhausted all attempts"), [])

/- The next turn of the msg1 loop, or the next attempt when the turns are used. -/
def retryHs1 (w : Wake K) (attempt tries : Nat) (seed : Key) (hs : K.Handshake) (msg1 : Bytes)
    (cookie : Option Cookie) : ClientState K × List (ClientEffect K) :=
  if tries + 1 < MAX_HS_TRIES then sendHs1 w attempt (tries + 1) seed hs msg1 cookie
  else beginAttempt cfg (attempt + 1) w

def onHs2 (w : Wake K) (attempt : Nat) (seed : Key) (hs : K.Handshake) (msg2 : Bytes) :
    ClientState K × List (ClientEffect K) :=
  match K.readMessage hs msg2 with
  | (.error _, _) => beginAttempt cfg (attempt + 1) w
  | (.ok _, hs) =>
    match K.writeMessage hs seed.val with
    | (.error _, _) => beginAttempt cfg (attempt + 1) w
    | (.ok msg3, _) =>
      let wire3 := shapeHs K .hs3 msg3 w.rng
      match w.sent with
      | .error e => (.failed (.io e), [.wroteMsg3 hs msg3 seed])
      | .ok () =>
        let keys := deriveRecordKeys K seed
        let channel := DataChannel.new (K.newSealer keys.1) (K.newOpener keys.2)
        (.awaitReady attempt 0 seed channel wire3 (w.now + READY_WAIT_TIMEOUT),
          [.wroteMsg3 hs msg3 seed, .sendTo wire3])

/- The wait for the ready record failed: resend msg3 three times, then begin
   the next attempt. A failed resend is ignored. -/
def resendHs3 (w : Wake K) (attempt resends : Nat) (seed : Key) (channel : DataChannel K)
    (wire3 : Bytes) : ClientState K × List (ClientEffect K) :=
  if resends < 3 then
    (.awaitReady attempt (resends + 1) seed channel wire3 (w.now + RESEND_WAIT_TIMEOUT),
      match w.sent with
      | .ok () => [.sendTo wire3]
      | .error _ => [])
  else beginAttempt cfg (attempt + 1) w

def onDatagram (s : ClientState K) (data : Bytes) (w : Wake K) :
    ClientState K × List (ClientEffect K) :=
  match s with
  | .awaitHs2 attempt tries seed hs msg1 cookie _ =>
    match unshapeHs K data with
    | some (.hs2, body) => onHs2 cfg w attempt seed hs body
    | some (.cookie, body) =>
      match decodeCookie body with
      | some c => retryHs1 cfg w attempt tries seed hs msg1 (some c)
      | none => retryHs1 cfg w attempt tries seed hs msg1 cookie
    | _ => retryHs1 cfg w attempt tries seed hs msg1 cookie
  | .awaitReady attempt resends seed channel wire3 deadline =>
    match channel.openDatagram data with
    | (.ok (some _), channel) => (.connected seed channel, [.returned seed channel])
    | (_, channel) => (.awaitReady attempt resends seed channel wire3 deadline, [])
  | s => (s, [])

/-- One wake-up of the client. A datagram from another address leaves the wait
as it is; the timer fires at its deadline and not before. -/
def clientNext (s : ClientState K) : ClientEvent K → Option (ClientState K × List (ClientEffect K))
  | .call w =>
    match s with
    | .idle => some (beginAttempt cfg 0 w)
    | _ => none
  | .datagram data src w =>
    match s with
    | .awaitHs2 .. | .awaitReady .. =>
      if src = cfg.serverAddr then some (onDatagram cfg s data w) else some (s, [])
    | _ => none
  | .recvError e w =>
    match s with
    | .awaitHs2 .. => some (.failed (.io e), [])
    | .awaitReady attempt resends seed channel wire3 _ =>
      some (resendHs3 cfg w attempt resends seed channel wire3)
    | _ => none
  | .timer w =>
    match s with
    | .awaitHs2 attempt tries seed hs msg1 cookie deadline =>
      if deadline ≤ w.now then some (retryHs1 cfg w attempt tries seed hs msg1 cookie) else none
    | .awaitReady attempt resends seed channel wire3 deadline =>
      if deadline ≤ w.now then some (resendHs3 cfg w attempt resends seed channel wire3) else none
    | _ => none
  | .sealEnvelope env rng =>
    match s with
    | .connected seed channel =>
      match channel.sealEnvelope env rng with
      | (.ok wire, channel') => some (.connected seed channel', [.sealed channel.sealer env wire])
      | (.error _, channel') => some (.connected seed channel', [])
    | _ => none
  | .openDatagram data =>
    match s with
    | .connected seed channel =>
      match channel.openDatagram data with
      | (.ok (some env), channel') => some (.connected seed channel', [.received env])
      | (_, channel') => some (.connected seed channel', [])
    | _ => none

end Obfs.Udp

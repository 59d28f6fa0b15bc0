import Obfs.Udp.Server

/-! A symbolic instance of the dependencies, on which the model runs. Noise
messages spell out what the real ones bind: msg1 names the server and the
initiator's ephemeral, msg2 contains msg1 and the responder's ephemeral, msg3
contains msg2, the client's static key and the payload. A record spells out
its key and its counter. A private key is its own public key. At the end stand
one server and the datagrams its clients send. -/
namespace Obfs.Symbolic
open Udp

structure Hs where
  initiator : Bool
  static : Key
  remote : Option Key
  entropy : UInt8
  transcript : List Bytes

def readMessage (hs : Hs) (m : Bytes) : Except WireError Bytes × Hs :=
  let next := { hs with transcript := hs.transcript ++ [m] }
  match hs.initiator, hs.transcript with
  | false, [] =>
    if m.length = 34 ∧ m.take 33 = 1 :: hs.static.val then (.ok [], next)
    else (.error ⟨"decrypt"⟩, hs)
  | true, [m1] =>
    if m.length = m1.length + 2 ∧ m.take (m1.length + 1) = 2 :: m1 then (.ok [], next)
    else (.error ⟨"decrypt"⟩, hs)
  | false, [_, m2] =>
    if h : 32 ≤ (m.drop (m2.length + 1)).length ∧ m.take (m2.length + 1) = 3 :: m2 then
      (.ok (m.drop (m2.length + 33)),
        { next with remote := some (Arr.ofTake 32 (m.drop (m2.length + 1)) h.1) })
    else (.error ⟨"decrypt"⟩, hs)
  | _, _ => (.error ⟨"state"⟩, hs)

def writeMessage (hs : Hs) (payload : Bytes) : Except WireError Bytes × Hs :=
  match hs.initiator, hs.transcript, hs.remote with
  | true, [], some rs =>
    let m := 1 :: rs.val ++ [hs.entropy]
    (.ok m, { hs with transcript := [m] })
  | false, [m1], _ =>
    let m := 2 :: m1 ++ [hs.entropy]
    (.ok m, { hs with transcript := [m1, m] })
  | true, [m1, m2], _ =>
    let m := 3 :: m2 ++ hs.static.val ++ payload
    (.ok m, { hs with transcript := [m1, m2, m] })
  | _, _, _ => (.error ⟨"state"⟩, hs)

theorem readMessage_answer {r : Hs} {m1 m2 : Bytes} (hi : r.initiator = false)
    (ht : r.transcript = [m1, m2]) (static : Key) (payload : Bytes) :
    readMessage r (3 :: m2 ++ static.val ++ payload) = (.ok payload,
      { r with
        transcript := r.transcript ++ [3 :: m2 ++ static.val ++ payload]
        remote := some static }) := by
  have hdrop : (3 :: m2 ++ static.val ++ payload).drop (m2.length + 1) = static.val ++ payload := by
    simp
  have hpayload : (3 :: m2 ++ static.val ++ payload).drop (m2.length + 33) = payload := by
    rw [← List.drop_drop (i := 32) (j := m2.length + 1), hdrop]
    simp [static.property]
  have hlen : 32 ≤ ((3 :: m2 ++ static.val ++ payload).drop (m2.length + 1)).length := by
    rw [hdrop]
    simp [static.property]
  have hremote : Arr.ofTake 32 ((3 :: m2 ++ static.val ++ payload).drop (m2.length + 1)) hlen =
      static := by
    apply Subtype.ext
    simp [Arr.ofTake, static.property]
  simp only [readMessage, hi, ht]
  rw [dif_pos ⟨hlen, by simp⟩, hpayload, hremote]

structure Sealer where
  key : Key
  counter : Nat

structure Opener where
  key : Key
  seen : List Bytes

def counterBytes (n : Nat) : Bytes :=
  [n >>> 56, n >>> 48, n >>> 40, n >>> 32, n >>> 24, n >>> 16, n >>> 8, n].map Nat.toUInt8

def sealRecord (s : Sealer) (plaintext _aad : Bytes) : Except WireError Bytes × Sealer :=
  if s.counter < UInt64.size then
    (.ok (s.key.val ++ counterBytes s.counter ++ plaintext), { s with counter := s.counter + 1 })
  else (.error ⟨"counter exhausted"⟩, s)

def openRecord (o : Opener) (record _aad : Bytes) : Except WireError Bytes × Opener :=
  let counter := (record.drop 32).take 8
  if record.take 32 = o.key.val ∧ 40 ≤ record.length ∧ counter ∉ o.seen then
    (.ok (record.drop 40), { o with seen := counter :: o.seen })
  else (.error ⟨"open"⟩, o)

structure Secret where
  current : Key
  previous : Option Key

def mac (k : Key) (src : Bytes) : Cookie :=
  ⟨(k.val.take 16).map fun b => b + src.foldl (fun a b => a * 31 + b) 7, by
    simp [k.property]⟩

/- The c2s key of a seed is the seed; the s2c key flips one bit of it. -/
def deriveKey (seed : Key) (label : Bytes) : Key :=
  if label = s2cLabel then
    ⟨seed.val.modify 0 (· ^^^ 0x80), by simp [seed.property]⟩
  else seed

abbrev core : Core where
  Topic := UInt8
  Capability := UInt8
  Diagnostic := UInt8
  Subject := Unit
  Request := UInt8
  Response := UInt8
  Json := UInt8
  decTopic := inferInstance
  diagnosticError := fun code _ =>
    match code with
    | .forbidden => 0
    | .methodNotFound => 1

def optByte : Option UInt8 → Bytes
  | none => [0, 0]
  | some b => [1, b]

def byteOpt (tag b : UInt8) : Option UInt8 := if tag = 1 then some b else none

def toVec : Envelope core → Except SerdeError Bytes
  | .request req => .ok [1, req]
  | .response resp => .ok [2, resp]
  | .event ev => .ok (([3, ev.topic, ev.payload] : Bytes) ++ counterBytes ev.seq.toNat)
  | .subscribe topic filter capability =>
    .ok (([4, topic] : Bytes) ++ optByte filter ++ optByte capability)
  | .unsubscribe topic => .ok [5, topic]
  | .subscribeError topic error => .ok [6, topic, error]
  | .ping => .ok [7]
  | .pong => .ok [8]

def seqOf (bytes : Bytes) : UInt64 :=
  (bytes.foldl (fun a (b : UInt8) => a * 256 + b.toNat) 0).toUInt64

def decode : Nat → Bytes → Except SerdeError (Envelope core)
  | 1, [req] => .ok (.request req)
  | 2, [resp] => .ok (.response resp)
  | 3, topic :: payload :: seq => .ok (.event ⟨topic, seqOf seq, payload⟩)
  | 4, [topic, f, filter, c, capability] =>
    .ok (.subscribe topic (byteOpt f filter) (byteOpt c capability))
  | 5, [topic] => .ok (.unsubscribe topic)
  | 6, [topic, error] => .ok (.subscribeError topic error)
  | 7, [] => .ok .ping
  | 8, [] => .ok .pong
  | _, _ => .error ⟨"syntax"⟩

def fromSlice : Bytes → Except SerdeError (Envelope core)
  | [] => .error ⟨"eof"⟩
  | tag :: body => decode tag.toNat body

abbrev crates : Crates where
  core := core
  Handshake := Hs
  Entropy := UInt8
  initiator := fun priv serverPub e => .ok ⟨true, priv, some serverPub, e, []⟩
  responder := fun priv e => .ok ⟨false, priv, none, e, []⟩
  readMessage := readMessage
  writeMessage := writeMessage
  remoteStatic := Hs.remote
  RecordSealer := Sealer
  newSealer := fun key => ⟨key, 0⟩
  sealRecord := sealRecord
  RecordOpener := Opener
  newOpener := fun key => ⟨key, []⟩
  openRecord := openRecord
  CookieSecret := Secret
  newCookieSecret := fun seed => ⟨seed, none⟩
  makeCookie := fun s src => mac s.current src
  verifyCookie := fun s src c => c == mac s.current src || s.previous.any fun k => c == mac k src
  rotateCookie := fun s seed => ⟨seed, some s.current⟩
  Rng := Unit
  shapeOut := fun inner _ => inner
  shapeIn := some
  blake2sMac := deriveKey
  toVec := toVec
  fromSlice := fromSlice

theorem shapeRoundTrip : crates.ShapeRoundTrip := fun _ _ => rfl

def keyOf (b : UInt8) : Key := ⟨List.replicate 32 b, by simp⟩

def serverKey : Key := keyOf 0x11

def msg1 (e : UInt8) : Bytes := 1 :: serverKey.val ++ [e]
def msg2 (e e' : UInt8) : Bytes := 2 :: msg1 e ++ [e']

def msg3 (e e' : UInt8) (static seed : Key) : Bytes := 3 :: msg2 e e' ++ static.val ++ seed.val

def hs1 (e : UInt8) (cookie : Option Cookie) : Bytes :=
  shapeHs crates .hs1 (encodeMsg1Framed (msg1 e) cookie) ()

def hs3 (e e' : UInt8) (static seed : Key) : Bytes :=
  shapeHs crates .hs3 (msg3 e e' static seed) ()

/- The datagram of an envelope sealed under a key with a counter. -/
def data (key : Key) (counter : Nat) (env : Envelope core) : Bytes :=
  match ((DataChannel.new ⟨key, counter⟩ ⟨key, []⟩ : DataChannel crates).sealEnvelope env ()).1 with
  | .ok wire => wire
  | .error _ => []

def addr (n : Nat) : SocketAddr := .v4 10 0 (n / 256).toUInt8 (n % 256).toUInt8 4000

def answer (req : UInt8) : UInt8 := req + 1

def authorise (capability : Option UInt8) (_ : UInt8) : Except (CoreError core) Unit :=
  if capability = some 7 then .ok () else .error (.auth (9 : UInt8))

/- Topics below 100 share one event source; the others have none. -/
def sourceOf (topic : UInt8) : Option Nat := if topic < 100 then some 0 else none

def service : Service core := ⟨answer, authorise, sourceOf⟩

def cfg : ServerCfg crates := ⟨serverKey, service, allowAll⟩

def start : ServerState crates := .init ⟨keyOf 0, none⟩ fun _ => ⟨16, [], false⟩

def recv (dgram : Bytes) (src : SocketAddr) (now : Instant) (e : UInt8) : ServerEvent crates :=
  .recv ⟨dgram, src, now, alwaysOpen, e, ()⟩

/- A client connects; its subscription to topic 3 uses a capability. -/
def subscriber (capability : Option UInt8) : List (ServerEvent crates) :=
  [recv (hs1 5 none) (addr 1) 0 6,
    recv (hs3 5 6 (keyOf 0x22) (keyOf 1)) (addr 1) 1 0,
    recv (data (keyOf 1) 0 (.subscribe 3 none capability)) (addr 1) 2 0]

def news : Event core := ⟨3, 1, 9⟩

def sequel : Event core := ⟨3, 2, 8⟩

def smallSources (_ : Nat) : Broadcast.Channel (Event core) := ⟨2, [], false⟩

instance : DecidableEq (Event core) := fun a b =>
  decidable_of_iff (a.topic = b.topic ∧ a.seq = b.seq ∧ (a.payload : UInt8) = b.payload)
    (by cases a; cases b; simp)

end Obfs.Symbolic

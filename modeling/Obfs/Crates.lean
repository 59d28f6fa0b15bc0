import Obfs.Envelope

/-! What the crate takes from its dependencies: Noise handshakes, the record
layer, the cookie MAC and datagram shaping of vaiexia-wire, keyed BLAKE2s and
serde_json. Every function that mutates its receiver returns the new state.
Random draws are arguments: a handshake gets its ephemeral as `Entropy`, and a
shaped datagram the state of the generator that pads it. -/
namespace Obfs

structure Crates where
  core : Core
  Handshake : Type
  Entropy : Type
  initiator : Key → Key → Entropy → Except WireError Handshake
  responder : Key → Entropy → Except WireError Handshake
  readMessage : Handshake → Bytes → Except WireError Bytes × Handshake
  writeMessage : Handshake → Bytes → Except WireError Bytes × Handshake
  remoteStatic : Handshake → Option Key
  RecordSealer : Type
  newSealer : Key → RecordSealer
  sealRecord : RecordSealer → Bytes → Bytes → Except WireError Bytes × RecordSealer
  RecordOpener : Type
  newOpener : Key → RecordOpener
  openRecord : RecordOpener → Bytes → Bytes → Except WireError Bytes × RecordOpener
  CookieSecret : Type
  newCookieSecret : Key → CookieSecret
  makeCookie : CookieSecret → Bytes → Cookie
  verifyCookie : CookieSecret → Bytes → Cookie → Bool
  rotateCookie : CookieSecret → Key → CookieSecret
  Rng : Type
  shapeOut : Bytes → Rng → Bytes
  shapeIn : Bytes → Option Bytes
  blake2sMac : Key → Bytes → Key
  toVec : Envelope core → Except SerdeError Bytes
  fromSlice : Bytes → Except SerdeError (Envelope core)

namespace Crates
variable (K : Crates)

def ShapeRoundTrip : Prop :=
  ∀ inner rng, K.shapeIn (K.shapeOut inner rng) = some inner

def RequestCodec : Prop :=
  ∀ env json req, K.toVec env = .ok json → (K.fromSlice json = .ok (.request req) ↔
    env = .request req)

structure ReplyCodec : Prop where
  response : ∀ env json resp, K.toVec env = .ok json →
    (K.fromSlice json = .ok (.response resp) ↔ env = .response resp)
  event : ∀ env json ev, K.toVec env = .ok json →
    (K.fromSlice json = .ok (.event ev) ↔ env = .event ev)

/-- Decoding finds a subscription only in the encoding of one to the same topic
with the same capability. The filter may have changed: null reads as none. -/
def SubscribeCodec : Prop :=
  ∀ env json topic filter capability, K.toVec env = .ok json →
    K.fromSlice json = .ok (.subscribe topic filter capability) →
    ∃ filter', env = .subscribe topic filter' capability

def Initiated (priv serverPub : Key) (hs : K.Handshake) : Prop :=
  ∃ e hs0 hs1 msg1 msg2 p, K.initiator priv serverPub e = .ok hs0 ∧
    K.writeMessage hs0 [] = (.ok msg1, hs1) ∧ K.readMessage hs1 msg2 = (.ok p, hs)

/- A responder that has written msg2, with the draw of its ephemeral. -/
def Responded (priv : Key) (e : K.Entropy) (r : K.Handshake) : Prop :=
  ∃ hs0 hs1 msg1 msg2 p, K.responder priv e = .ok hs0 ∧ K.readMessage hs0 msg1 = (.ok p, hs1) ∧
    K.writeMessage hs1 [] = (.ok msg2, r)

/-- Ideal Noise XK. The transcript of a handshake is what both sides must agree
on: a responder accepts a msg3 exactly when the initiator that wrote it has the
responder's transcript, that is, when it answers the responder's own msg2. It
then learns the payload and the initiator's static key. Responders with
different ephemerals have different transcripts. -/
structure Noise where
  transcript : K.Handshake → List Bytes
  pubKey : Key → Key
  accept : ∀ {priv serverPub serverPriv e hs hs' r payload msg3},
    K.Initiated priv serverPub hs → K.Responded serverPriv e r →
    K.writeMessage hs payload = (.ok msg3, hs') → transcript hs = transcript r →
    ∃ r', K.readMessage r msg3 = (.ok payload, r') ∧ K.remoteStatic r' = some (pubKey priv)
  reject : ∀ {priv serverPub serverPriv e hs hs' r payload msg3},
    K.Initiated priv serverPub hs → K.Responded serverPriv e r →
    K.writeMessage hs payload = (.ok msg3, hs') → transcript hs ≠ transcript r →
    ∀ p r', K.readMessage r msg3 ≠ (.ok p, r')
  fresh : ∀ {serverPriv e e' r r'}, K.Responded serverPriv e r → K.Responded serverPriv e' r' →
    transcript r = transcript r' → e = e'

/-- Record sealers: the key never changes, and every sealed record advances the
counter by one. -/
structure Sealing where
  key : K.RecordSealer → Key
  counter : K.RecordSealer → Nat
  key_new : ∀ k, key (K.newSealer k) = k
  key_seal : ∀ σ pt aad, key (K.sealRecord σ pt aad).2 = key σ
  counter_ok : ∀ {σ pt aad record}, (K.sealRecord σ pt aad).1 = .ok record →
    counter (K.sealRecord σ pt aad).2 = counter σ + 1
  counter_error : ∀ {σ pt aad e}, (K.sealRecord σ pt aad).1 = .error e →
    counter σ ≤ counter (K.sealRecord σ pt aad).2

theorem Sealing.counter_le {K : Crates} (S : K.Sealing) (σ : K.RecordSealer) (pt aad : Bytes) :
    S.counter σ ≤ S.counter (K.sealRecord σ pt aad).2 := by
  cases h : (K.sealRecord σ pt aad).1 with
  | error e => exact S.counter_error h
  | ok record =>
    rw [S.counter_ok h]
    exact Nat.le_succ _

/-- Record openers: the key never changes, and a record that was opened once is
never opened again. -/
structure Opening where
  key : K.RecordOpener → Key
  seen : K.RecordOpener → Bytes → Prop
  key_new : ∀ k, key (K.newOpener k) = k
  key_open : ∀ o record aad, key (K.openRecord o record aad).2 = key o
  unseen : ∀ {o record aad pt}, (K.openRecord o record aad).1 = .ok pt → ¬ seen o record
  mark : ∀ {o record aad pt}, (K.openRecord o record aad).1 = .ok pt →
    seen (K.openRecord o record aad).2 record
  keep : ∀ {o r record aad}, seen o r → seen (K.openRecord o record aad).2 r

end Crates
end Obfs

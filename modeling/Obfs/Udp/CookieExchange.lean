import Obfs.Udp.ClientSteps
import Obfs.Udp.ServerSteps
import Obfs.Symbolic

/-! The cookie challenge between the two hosts: the server's reply, the client's
echo, and what the server makes of the echo when it arrives from the challenged
address and when it arrives from another one. -/
namespace Obfs

/-- The cookie MAC with its two secrets. A cookie verifies for a source exactly
when it is the one made for that source under the current or the previous
secret; a rotation keeps the current secret as the previous one. -/
structure Crates.CookieMac (K : Crates) where
  mac : Key → Bytes → Cookie
  current : K.CookieSecret → Key
  previous : K.CookieSecret → Option Key
  make_eq : ∀ s src, K.makeCookie s src = mac (current s) src
  verify_iff : ∀ s src c, K.verifyCookie s src c = true ↔
    ∃ k, (k = current s ∨ previous s = some k) ∧ c = mac k src
  rotate_previous : ∀ s seed, previous (K.rotateCookie s seed) = some (current s)

namespace Udp
open Trace
variable {K : Crates}

def RotatedOnce (K : Crates) (secret secret' : K.CookieSecret) : Prop :=
  secret' = secret ∨ ∃ seed, secret' = K.rotateCookie secret seed

/-- The cookie of one source under one secret is not that of another source
under a secret that verifies. -/
def Separates (M : K.CookieMac) (secret secret' : K.CookieSecret) (src src' : Bytes) : Prop :=
  src ≠ src' → ∀ k, k = M.current secret' ∨ M.previous secret' = some k →
    M.mac (M.current secret) src ≠ M.mac k src'

theorem srcBytes_ne {src src' : SocketAddr} (h : src'.toText ≠ src.toText) :
    srcBytes src ≠ srcBytes src' :=
  fun he => h (utf8_injective he).symm

theorem verify_made (M : K.CookieMac) {secret secret' : K.CookieSecret}
    (hrot : RotatedOnce K secret secret') (src : Bytes) :
    K.verifyCookie secret' src (K.makeCookie secret src) = true := by
  refine (M.verify_iff _ _ _).mpr ⟨M.current secret, ?_, M.make_eq secret src⟩
  obtain rfl | ⟨seed, rfl⟩ := hrot
  · exact Or.inl rfl
  · exact Or.inr (M.rotate_previous secret seed)

theorem verify_other (M : K.CookieMac) {secret secret' : K.CookieSecret} {src src' : Bytes}
    (hne : src ≠ src') (hsep : Separates M secret secret' src src') :
    K.verifyCookie secret' src' (K.makeCookie secret src) = false := by
  rw [← Bool.not_eq_true, M.verify_iff, M.make_eq]
  rintro ⟨k, hk, he⟩
  exact hsep hne k hk he

section Server
variable {body msg1 : Bytes} {src : SocketAddr} {priv : Key} {secret : K.CookieSecret}
  {gate : LoadGate} {entropy : K.Entropy} {rng : K.Rng}

theorem processHs1_cookieReply {w : Bytes}
    (h : processHs1 K body src priv secret gate entropy rng = .ok (some (.cookieReply w))) :
    w = shapeHs K .cookie (encodeCookie (K.makeCookie secret (srcBytes src))) rng := by
  unfold processHs1 at h
  split at h
  · cases h
  · simp only at h
    split at h
    · cases h
      rfl
    · unfold respondMsg1 at h
      split at h
      · cases h
      · split at h
        · cases h
        · split at h
          · cases h
          · cases h

theorem processHs1_verified {cookie : Cookie}
    (hd : decodeMsg1Framed body = some (msg1, some cookie))
    (hv : K.verifyCookie secret (srcBytes src) cookie = true) :
    processHs1 K body src priv secret gate entropy rng =
      respondMsg1 K msg1 src priv entropy rng := by
  simp [processHs1, hd, cookieOk, hv]

theorem processHs1_unverified {cookie : Cookie}
    (hd : decodeMsg1Framed body = some (msg1, some cookie))
    (hv : K.verifyCookie secret (srcBytes src) cookie = false) :
    processHs1 K body src priv secret alwaysUnderLoad entropy rng = .ok (some (.cookieReply
      (shapeHs K .cookie (encodeCookie (K.makeCookie secret (srcBytes src))) rng))) := by
  simp [processHs1, hd, cookieOk, hv, alwaysUnderLoad]

theorem respondMsg1_ne_cookieReply (w : Bytes) :
    respondMsg1 K msg1 src priv entropy rng ≠ .ok (some (.cookieReply w)) := by
  intro h
  unfold respondMsg1 at h
  split at h
  · cases h
  · split at h
    · cases h
    · split at h
      · cases h
      · cases h

end Server

/-- The challenge converges and binds the source. The client finds the cookie in
the reply; its Hs1 with the echoed cookie is not challenged again from the same
address, also after a rotation, and is answered with a responder when the
responder accepts the msg1; from an address with another text it is challenged
again. -/
theorem cookie_exchange (M : K.CookieMac) (hshape : K.ShapeRoundTrip) {src : SocketAddr}
    {body msg1 : Bytes} (hlen : msg1.length ≤ 65535) {priv : Key} {secret : K.CookieSecret}
    {entropy : K.Entropy} {rng : K.Rng} {w : Bytes}
    (hreply : processHs1 K body src priv secret alwaysUnderLoad entropy rng =
      .ok (some (.cookieReply w))) :
    ∃ reply cookie, unshapeHs K w = some (.cookie, reply) ∧ decodeCookie reply = some cookie ∧
      (∀ secret' entropy' rng', RotatedOnce K secret secret' →
        (∀ w', processHs1 K (encodeMsg1Framed msg1 (some cookie)) src priv secret' alwaysUnderLoad
          entropy' rng' ≠ .ok (some (.cookieReply w'))) ∧
        ∀ hs0 hs1 hs2 p msg2, K.responder priv entropy' = .ok hs0 →
          K.readMessage hs0 msg1 = (.ok p, hs1) → K.writeMessage hs1 [] = (.ok msg2, hs2) →
          processHs1 K (encodeMsg1Framed msg1 (some cookie)) src priv secret' alwaysUnderLoad
            entropy' rng' =
              .ok (some (.partialHandshake hs2 (shapeHs K .hs2 msg2 rng') src))) ∧
      ∀ src' secret' entropy' rng', src'.toText ≠ src.toText →
        Separates M secret secret' (srcBytes src) (srcBytes src') →
        ∃ w', processHs1 K (encodeMsg1Framed msg1 (some cookie)) src' priv secret' alwaysUnderLoad
          entropy' rng' = .ok (some (.cookieReply w')) := by
  have hw := processHs1_cookieReply hreply
  subst hw
  refine ⟨_, _, unshapeHs_shapeHs hshape .cookie _ rng, decodeCookie_encodeCookie _, ?_, ?_⟩
  · intro secret' entropy' rng' hrot
    have hd := decodeMsg1Framed_encodeMsg1Framed hlen (some (K.makeCookie secret (srcBytes src)))
    rw [processHs1_verified hd (verify_made M hrot (srcBytes src))]
    refine ⟨respondMsg1_ne_cookieReply, ?_⟩
    intro hs0 hs1 hs2 p msg2 h0 h1 h2
    simp only [respondMsg1, h0, h1, h2]
  · intro src' secret' entropy' rng' htext hsep
    have hd := decodeMsg1Framed_encodeMsg1Framed hlen (some (K.makeCookie secret (srcBytes src)))
    exact ⟨_, processHs1_unverified hd (verify_other M (srcBytes_ne htext) hsep)⟩

theorem client_echoes (hshape : K.ShapeRoundTrip) {cfg : ClientCfg} {attempt tries : Nat}
    {seed : Key} {hs : K.Handshake} {msg1 reply data : Bytes} {cookie : Option Cookie}
    {fresh : Cookie} {deadline : Instant} {w : Wake K} (htries : tries + 1 < MAX_HS_TRIES)
    (hsent : w.sent = .ok ()) (hu : unshapeHs K data = some (.cookie, reply))
    (hc : decodeCookie reply = some fresh) :
    ∃ wire, clientNext cfg (.awaitHs2 attempt tries seed hs msg1 cookie deadline)
        (.datagram data cfg.serverAddr w) =
      some (.awaitHs2 attempt (tries + 1) seed hs msg1 (some fresh) (w.now + RETRANSMIT_INTERVAL),
        [.sendTo wire]) ∧
      unshapeHs K wire = some (.hs1, encodeMsg1Framed msg1 (some fresh)) := by
  refine ⟨_, ?_, unshapeHs_shapeHs hshape .hs1 _ w.rng⟩
  simp only [clientNext, if_true, onDatagram, hu, hc, retryHs1, htries, sendHs1, hsent]

theorem echo_pends (M : K.CookieMac) {cfg : ServerCfg K} {s : ServerState K} {inp : Inbound K}
    {msg1 : Bytes} (hlen : msg1.length ≤ 65535) {secret : K.CookieSecret}
    (hrot : RotatedOnce K secret s.cookieSecret) (hs : s.serving = none)
    (hu : unshapeHs K inp.dgram =
      some (.hs1, encodeMsg1Framed msg1 (some (K.makeCookie secret (srcBytes inp.src)))))
    (hl : s.peers.len < MAX_PEERS) (hc : s.pending.len < MAX_PENDING ∨ inp.src ∈ s.pending)
    {hs0 hs1 hs2 : K.Handshake} {p msg2 : Bytes}
    (h0 : K.responder cfg.serverPriv inp.entropy = .ok hs0)
    (h1 : K.readMessage hs0 msg1 = (.ok p, hs1)) (h2 : K.writeMessage hs1 [] = (.ok msg2, hs2)) :
    serverNext cfg s (.recv inp) = some (cleanup inp.now (withPending s inp hs2),
      [.pend inp.src hs2 (shapeHs K .hs2 msg2 inp.rng),
        .sendTo inp.src (shapeHs K .hs2 msg2 inp.rng)]) := by
  have hd := decodeMsg1Framed_encodeMsg1Framed hlen (some (K.makeCookie secret (srcBytes inp.src)))
  have hproc : processHs1 K
      (encodeMsg1Framed msg1 (some (K.makeCookie secret (srcBytes inp.src)))) inp.src
      cfg.serverPriv s.cookieSecret (effGate s inp) inp.entropy inp.rng =
        .ok (some (.partialHandshake hs2 (shapeHs K .hs2 msg2 inp.rng) inp.src)) := by
    rw [processHs1_verified hd (verify_made M hrot (srcBytes inp.src))]
    simp only [respondMsg1, h0, h1, h2]
  exact serverNext_hs1 cfg hs hu hl hproc hc

end Udp
end Obfs

namespace Obfs.Symbolic
open Udp

def cookieMac : crates.CookieMac where
  mac := mac
  current := Secret.current
  previous := Secret.previous
  make_eq := fun _ _ => rfl
  verify_iff := by
    intro s src c
    cases hp : s.previous with
    | none => simp [hp]
    | some k => simp [hp]
  rotate_previous := fun _ _ => rfl

theorem cookie_exchange_rotated :
    ∃ w cookie r wire w', processHs1 crates (encodeMsg1Framed (msg1 5) none) (addr 1) serverKey
        ⟨keyOf 0, none⟩ alwaysUnderLoad (6 : UInt8) () = .ok (some (.cookieReply w)) ∧
      processHs1 crates (encodeMsg1Framed (msg1 5) (some cookie)) (addr 1) serverKey
        ⟨keyOf 7, some (keyOf 0)⟩ alwaysUnderLoad (6 : UInt8) () =
          .ok (some (.partialHandshake r wire (addr 1))) ∧
      processHs1 crates (encodeMsg1Framed (msg1 5) (some cookie)) (addr 2) serverKey
        ⟨keyOf 7, some (keyOf 0)⟩ alwaysUnderLoad (6 : UInt8) () =
          .ok (some (.cookieReply w')) := by
  have hlen : (msg1 5).length ≤ 65535 := by decide
  have hreply : processHs1 crates (encodeMsg1Framed (msg1 5) none) (addr 1) serverKey
      ⟨keyOf 0, none⟩ alwaysUnderLoad (6 : UInt8) () = .ok (some (.cookieReply
        (shapeHs crates .cookie (encodeCookie (mac (keyOf 0) (srcBytes (addr 1)))) ()))) := by
    simp [processHs1, decodeMsg1Framed_encodeMsg1Framed hlen, cookieOk, alwaysUnderLoad]
  obtain ⟨reply, cookie, -, -, hsame, hother⟩ :=
    cookie_exchange cookieMac shapeRoundTrip hlen hreply
  have hsep : Separates cookieMac ⟨keyOf 0, none⟩ ⟨keyOf 7, some (keyOf 0)⟩ (srcBytes (addr 1))
      (srcBytes (addr 2)) := by
    rintro - k (rfl | hk)
    · decide
    · cases hk
      decide
  obtain ⟨w', hw'⟩ := hother (addr 2) ⟨keyOf 7, some (keyOf 0)⟩ (6 : UInt8) () (by decide) hsep
  have hrot : RotatedOnce crates ⟨keyOf 0, none⟩ ⟨keyOf 7, some (keyOf 0)⟩ :=
    Or.inr ⟨keyOf 7, rfl⟩
  have hpartial := (hsame _ (6 : UInt8) () hrot).2 _ _ _ _ _ rfl rfl rfl
  exact ⟨_, cookie, _, _, w', hreply, hpartial, hw'⟩

end Obfs.Symbolic

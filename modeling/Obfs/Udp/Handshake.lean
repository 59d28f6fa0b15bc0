import Obfs.Udp.DataPlane

/-! The datagrams of the handshake and the server's two halves of it: the
answer to Hs1, possibly a cookie challenge, and the completion on Hs3. -/
namespace Obfs.Udp
variable (K : Crates)

def shapeHs (ty : DgramType) (msg : Bytes) (rng : K.Rng) : Bytes :=
  K.shapeOut (encodeInner ty msg) rng

def unshapeHs (datagram : Bytes) : Option (DgramType × Bytes) :=
  match K.shapeIn datagram with
  | none => none
  | some inner => decodeInner inner

def encodeCookie (cookie : Cookie) : Bytes := cookie.val

def decodeCookie (body : Bytes) : Option Cookie :=
  if h : 16 ≤ body.length then some (Arr.ofTake 16 body h) else none

def srcBytes (addr : SocketAddr) : Bytes := utf8 addr.toText

/-- Msg1 with its length as a big-endian u16 and an optional cookie. The cast
to u16 keeps the low sixteen bits of the length. -/
def encodeMsg1Framed (msg1 : Bytes) (cookie : Option Cookie) : Bytes :=
  let len := msg1.length % 65536
  [(len / 256).toUInt8, (len % 256).toUInt8] ++ msg1 ++
    match cookie with
    | some c => c.val
    | none => []

def decodeMsg1Framed : Bytes → Option (Bytes × Option Cookie)
  | b0 :: b1 :: rest =>
    let msg1Len := b0.toNat * 256 + b1.toNat
    if rest.length < msg1Len then none
    else
      let msg1 := rest.take msg1Len
      let remaining := rest.drop msg1Len
      if h : 16 ≤ remaining.length then some (msg1, some (Arr.ofTake 16 remaining h))
      else some (msg1, none)
  | _ => none

/-- The operator's load signal, read once per Hs1. -/
structure LoadGate where
  underLoad : Bool

def alwaysOpen : LoadGate := ⟨false⟩
def alwaysUnderLoad : LoadGate := ⟨true⟩

inductive AcceptResult where
  | cookieReply (wire : Bytes)
  | partialHandshake (responder : K.Handshake) (msg2 : Bytes) (clientAddr : SocketAddr)

def cookieOk (secret : K.CookieSecret) (src : Bytes) (supplied : Option Cookie) : Bool :=
  match supplied with
  | some c => K.verifyCookie secret src c
  | none => false

def respondMsg1 (msg1 : Bytes) (clientAddr : SocketAddr) (serverPrivate : Key)
    (entropy : K.Entropy) (rng : K.Rng) :
    Except (ObfsError K.core) (Option (AcceptResult K)) :=
  match K.responder serverPrivate entropy with
  | .error e => .error (.handshakeFailed ("responder: " ++ e.text))
  | .ok hs =>
    match K.readMessage hs msg1 with
    | (.error _, _) => .ok none
    | (.ok _, hs) =>
      match K.writeMessage hs [] with
      | (.error e, _) => .error (.handshakeFailed ("write msg2: " ++ e.text))
      | (.ok msg2, hs) =>
        .ok (some (.partialHandshake hs (shapeHs K .hs2 msg2 rng) clientAddr))

def processHs1 (body : Bytes) (clientAddr : SocketAddr) (serverPrivate : Key)
    (secret : K.CookieSecret) (loadGate : LoadGate) (entropy : K.Entropy) (rng : K.Rng) :
    Except (ObfsError K.core) (Option (AcceptResult K)) :=
  match decodeMsg1Framed body with
  | none => .ok none
  | some (msg1, supplied) =>
    let src := srcBytes clientAddr
    if loadGate.underLoad && !cookieOk K secret src supplied then
      let wire := shapeHs K .cookie (encodeCookie (K.makeCookie secret src)) rng
      .ok (some (.cookieReply wire))
    else respondMsg1 K msg1 clientAddr serverPrivate entropy rng

/-- The channel and the client's static key, or the reason of the refusal,
with the responder as reading the message leaves it. -/
def completeHandshakeMsg3 (responder : K.Handshake) (msg3Body : Bytes) :
    Except (ObfsError K.core) (DataChannel K × Key) × K.Handshake :=
  match K.readMessage responder msg3Body with
  | (.error e, responder) => (.error (.handshakeFailed ("read msg3: " ++ e.text)), responder)
  | (.ok payload, responder) =>
    if h : 32 ≤ payload.length then
      let seed := Arr.ofTake 32 payload h
      match K.remoteStatic responder with
      | none => (.error (.handshakeFailed "no remote static after msg3"), responder)
      | some clientStatic =>
        let keys := deriveRecordKeys K seed
        (.ok (DataChannel.new (K.newSealer keys.2) (K.newOpener keys.1), clientStatic), responder)
    else (.error (.handshakeFailed "msg3 payload too short for seed"), responder)

variable {K}

theorem unshapeHs_shapeHs (hK : K.ShapeRoundTrip) (ty : DgramType) (msg : Bytes) (rng : K.Rng) :
    unshapeHs K (shapeHs K ty msg rng) = some (ty, msg) := by
  rw [unshapeHs, shapeHs, hK]
  exact decodeInner_encodeInner ty msg

theorem decodeCookie_encodeCookie (c : Cookie) : decodeCookie (encodeCookie c) = some c := by
  have hlen : 16 ≤ c.val.length := Nat.le_of_eq c.property.symm
  simp only [decodeCookie, encodeCookie, hlen, dite_true, Arr.ofTake_val]

theorem lengthBytes_toNat {n : Nat} (h : n ≤ 65535) :
    (n % 65536 / 256).toUInt8.toNat * 256 + (n % 65536 % 256).toUInt8.toNat = n := by
  simp only [Nat.toUInt8, UInt8.toNat_ofNat']
  omega

/-- What follows an encoded msg1 does not matter, but without a cookie it must
be too short for one. -/
theorem decodeMsg1Framed_append {msg1 : Bytes} (h : msg1.length ≤ 65535)
    (cookie : Option Cookie) (t : Bytes) (ht : cookie = none → t.length < 16) :
    decodeMsg1Framed (encodeMsg1Framed msg1 cookie ++ t) = some (msg1, cookie) := by
  simp only [encodeMsg1Framed, List.cons_append, List.nil_append, List.append_assoc,
    decodeMsg1Framed, lengthBytes_toNat h, List.take_left, List.drop_left]
  rw [if_neg (by simp)]
  cases cookie with
  | none => exact dif_neg (Nat.not_le.mpr (ht rfl))
  | some c =>
    have hc : 16 ≤ (c.val ++ t).length := by simp [c.property]
    have hof : Arr.ofTake 16 (c.val ++ t) hc = c := Subtype.ext (List.take_left' c.property)
    refine (dif_pos hc).trans ?_
    rw [hof]

theorem decodeMsg1Framed_encodeMsg1Framed {msg1 : Bytes} (h : msg1.length ≤ 65535)
    (cookie : Option Cookie) :
    decodeMsg1Framed (encodeMsg1Framed msg1 cookie) = some (msg1, cookie) := by
  have hd := decodeMsg1Framed_append h cookie [] fun _ => by decide
  rwa [List.append_nil] at hd

theorem processHs1_partial {body : Bytes} {addr clientAddr : SocketAddr} {priv : Key}
    {secret : K.CookieSecret} {gate : LoadGate} {entropy : K.Entropy} {rng : K.Rng}
    {r : K.Handshake} {wire : Bytes}
    (h : processHs1 K body addr priv secret gate entropy rng =
      .ok (some (.partialHandshake r wire clientAddr))) :
    clientAddr = addr ∧ ∃ msg1 supplied msg2 hs0 hs1 p,
      decodeMsg1Framed body = some (msg1, supplied) ∧
      (gate.underLoad = true → cookieOk K secret (srcBytes addr) supplied = true) ∧
      K.responder priv entropy = .ok hs0 ∧ K.readMessage hs0 msg1 = (.ok p, hs1) ∧
      K.writeMessage hs1 [] = (.ok msg2, r) ∧ wire = shapeHs K .hs2 msg2 rng := by
  unfold processHs1 at h
  split at h
  · cases h
  · rename_i msg1 supplied hd
    simp only at h
    split at h
    · cases h
    · rename_i hc
      unfold respondMsg1 at h
      split at h
      · cases h
      · rename_i hs0 h0
        split at h
        · cases h
        · rename_i p hs1 h1
          split at h
          · cases h
          · rename_i msg2 hs2 h2
            cases h
            refine ⟨rfl, msg1, supplied, msg2, hs0, hs1, p, hd, ?_, h0, h1, h2, rfl⟩
            intro hu
            simpa [hu] using hc

theorem processHs1_challenged {body : Bytes} {addr : SocketAddr} {priv : Key}
    {secret : K.CookieSecret} {gate : LoadGate} {entropy : K.Entropy} {rng : K.Rng}
    (hg : gate.underLoad = true)
    (hc : ∀ msg1 supplied, decodeMsg1Framed body = some (msg1, supplied) →
      cookieOk K secret (srcBytes addr) supplied = false)
    (r : K.Handshake) (wire : Bytes) (clientAddr : SocketAddr) :
    processHs1 K body addr priv secret gate entropy rng ≠
      .ok (some (.partialHandshake r wire clientAddr)) := by
  intro h
  obtain ⟨-, msg1, supplied, _, _, _, _, hd, hv, -⟩ := processHs1_partial h
  have hn := hc msg1 supplied hd
  rw [hv hg] at hn
  cases hn

theorem completeHandshakeMsg3_ok {r : K.Handshake} {body : Bytes} {ch : DataChannel K} {key : Key}
    (h : (completeHandshakeMsg3 K r body).1 = .ok (ch, key)) :
    ∃ payload r' seed, K.readMessage r body = (.ok payload, r') ∧
      payload.take 32 = seed.val ∧ K.remoteStatic r' = some key ∧
      ch = DataChannel.new (K.newSealer (deriveRecordKeys K seed).2)
        (K.newOpener (deriveRecordKeys K seed).1) := by
  unfold completeHandshakeMsg3 at h
  split at h
  · cases h
  · rename_i payload r' hr
    split at h
    · rename_i hl
      simp only at h
      split at h
      · cases h
      · rename_i k hk
        cases h
        exact ⟨payload, r', Arr.ofTake 32 payload hl, hr, rfl, hk, rfl⟩
    · cases h

theorem completeHandshakeMsg3_of_read {r r' : K.Handshake} {body : Bytes} {seed key : Key}
    (hr : K.readMessage r body = (.ok seed.val, r')) (hk : K.remoteStatic r' = some key) :
    (completeHandshakeMsg3 K r body).1 =
      .ok (DataChannel.new (K.newSealer (deriveRecordKeys K seed).2)
        (K.newOpener (deriveRecordKeys K seed).1), key) := by
  have hlen : 32 ≤ seed.val.length := Nat.le_of_eq seed.property.symm
  simp only [completeHandshakeMsg3, hr, hlen, dite_true, hk, Arr.ofTake_val]

structure Hs1Body (body msg1 : Bytes) (cookie : Option Cookie) (t : Bytes) : Prop where
  length_le : msg1.length ≤ 65535
  body_eq : body = encodeMsg1Framed msg1 cookie ++ t
  short : cookie = none → t.length < 16

theorem Hs1Body.decode {body msg1 t : Bytes} {cookie : Option Cookie}
    (h : Hs1Body body msg1 cookie t) : decodeMsg1Framed body = some (msg1, cookie) := by
  rw [h.body_eq]
  exact decodeMsg1Framed_append h.length_le cookie t h.short

theorem lengthBytes_eq (b0 b1 : UInt8) :
    ((b0.toNat * 256 + b1.toNat) % 65536 / 256).toUInt8 = b0 ∧
      ((b0.toNat * 256 + b1.toNat) % 65536 % 256).toUInt8 = b1 := by
  have h0 := b0.toNat_lt
  have h1 := b1.toNat_lt
  constructor
  · apply UInt8.toNat_inj.mp
    rw [Nat.toUInt8, UInt8.toNat_ofNat']
    omega
  · apply UInt8.toNat_inj.mp
    rw [Nat.toUInt8, UInt8.toNat_ofNat']
    omega

theorem hs1Body_of_decode {body msg1 : Bytes} {cookie : Option Cookie}
    (h : decodeMsg1Framed body = some (msg1, cookie)) : ∃ t, Hs1Body body msg1 cookie t := by
  match body, h with
  | b0 :: b1 :: rest, h =>
    simp only [decodeMsg1Framed] at h
    split at h
    · cases h
    · rename_i hlen
      have h0 := b0.toNat_lt
      have h1 := b1.toNat_lt
      have hmsg : (rest.take (b0.toNat * 256 + b1.toNat)).length = b0.toNat * 256 + b1.toNat :=
        List.length_take_of_le (Nat.le_of_not_lt hlen)
      obtain ⟨e0, e1⟩ := lengthBytes_eq b0 b1
      split at h
      · rename_i hc
        cases h
        refine ⟨(rest.drop (b0.toNat * 256 + b1.toNat)).drop 16, by omega, ?_, ?_⟩
        swap
        · intro hnone
          cases hnone
        simp only [encodeMsg1Framed, hmsg, e0, e1, Arr.ofTake, List.append_assoc,
          List.take_append_drop]
        rfl
      · rename_i hc
        cases h
        refine ⟨rest.drop (b0.toNat * 256 + b1.toNat), by omega, ?_, fun _ => by omega⟩
        simp only [encodeMsg1Framed, hmsg, e0, e1, List.append_assoc, List.nil_append,
          List.take_append_drop]
        rfl

/- The range i..j of a slice; none is the panic of a range that is not in it. -/
def slice (b : Bytes) (i j : Nat) : Option Bytes :=
  if i ≤ j ∧ j ≤ b.length then some ((b.take j).drop i) else none

def copyFromSlice (n : Nat) (b : Bytes) : Option (Arr n) :=
  if h : b.length = n then some ⟨b, h⟩ else none

/-- The decoder as it is written, with its indices and ranges; none is a panic. -/
def decodeMsg1Indexed (body : Bytes) : Option (Option (Bytes × Option Cookie)) :=
  if body.length < 2 then some none
  else do
    let b0 ← body[0]?
    let b1 ← body[1]?
    let msg1Len := b0.toNat * 256 + b1.toNat
    let rest ← slice body 2 body.length
    if rest.length < msg1Len then some none
    else do
      let msg1 ← slice rest 0 msg1Len
      let remaining ← slice rest msg1Len rest.length
      if 16 ≤ remaining.length then do
        let c ← slice remaining 0 16
        let c ← copyFromSlice 16 c
        some (some (msg1, some c))
      else some (some (msg1, none))

theorem slice_take {b : Bytes} {n : Nat} (h : n ≤ b.length) : slice b 0 n = some (b.take n) :=
  if_pos ⟨Nat.zero_le n, h⟩

theorem slice_drop {b : Bytes} {n : Nat} (h : n ≤ b.length) :
    slice b n b.length = some (b.drop n) := by
  rw [slice, if_pos ⟨h, Nat.le_refl _⟩, List.take_length]

theorem decodeMsg1Indexed_eq (body : Bytes) :
    decodeMsg1Indexed body = some (decodeMsg1Framed body) := by
  match body with
  | [] | [_] => rfl
  | b0 :: b1 :: rest =>
    have hrest : slice (b0 :: b1 :: rest) 2 (b0 :: b1 :: rest).length = some rest :=
      slice_drop (by simp)
    rw [decodeMsg1Indexed, if_neg (by simp)]
    simp only [List.getElem?_cons_zero, List.getElem?_cons_succ, Option.bind_eq_bind,
      Option.bind_some, hrest, decodeMsg1Framed]
    split
    · rfl
    · rename_i hlen
      rw [slice_take (Nat.le_of_not_lt hlen), slice_drop (Nat.le_of_not_lt hlen)]
      simp only [Option.bind_some]
      split
      · rename_i hc
        have hcopy : copyFromSlice 16 ((rest.drop (b0.toNat * 256 + b1.toNat)).take 16) =
            some (Arr.ofTake 16 _ hc) := dif_pos (List.length_take_of_le hc)
        rw [slice_take hc, Option.bind_some, hcopy]
        rfl
      · rfl

/-- The grammar of an Hs1 body: what is decoded is what was encoded in front of
some bytes, of which there are less than a cookie has if none was found. So the
decoder undoes the encoder, a body is read in one way only, and no body makes an
index go out of range. -/
theorem hs1_body_grammar (body : Bytes) :
    (∀ msg1 cookie, decodeMsg1Framed body = some (msg1, cookie) ↔
      msg1.length ≤ 65535 ∧ ∃ t, body = encodeMsg1Framed msg1 cookie ++ t ∧
        (cookie = none → t.length < 16)) ∧
    (∀ msg1 cookie, msg1.length ≤ 65535 →
      decodeMsg1Framed (encodeMsg1Framed msg1 cookie) = some (msg1, cookie)) ∧
    (∀ msg1 cookie t msg1' cookie' t', Hs1Body body msg1 cookie t →
      Hs1Body body msg1' cookie' t' → msg1' = msg1 ∧ cookie' = cookie ∧ t' = t) ∧
    decodeMsg1Indexed body = some (decodeMsg1Framed body) := by
  refine ⟨?_, ?_, ?_, decodeMsg1Indexed_eq body⟩
  · intro msg1 cookie
    constructor
    · intro h
      obtain ⟨t, hlen, hbody, ht⟩ := hs1Body_of_decode h
      exact ⟨hlen, t, hbody, ht⟩
    · rintro ⟨hlen, t, hbody, ht⟩
      exact Hs1Body.decode ⟨hlen, hbody, ht⟩
  · intro msg1 cookie hlen
    exact decodeMsg1Framed_encodeMsg1Framed hlen cookie
  · intro msg1 cookie t msg1' cookie' t' h h'
    have heq := h'.decode.symm.trans h.decode
    cases heq
    exact ⟨rfl, rfl, List.append_cancel_left (h'.body_eq.symm.trans h.body_eq)⟩

/- Fifteen bytes behind msg1 are no cookie. -/
theorem hs1_body_grammar_fifteen :
    Hs1Body ([0, 1, 7] ++ List.replicate 15 9) [7] none (List.replicate 15 9) ∧
    decodeMsg1Framed ([0, 1, 7] ++ List.replicate 15 9) = some ([7], none) := by
  have h : Hs1Body ([0, 1, 7] ++ List.replicate 15 9) [7] none (List.replicate 15 9) :=
    ⟨by decide, rfl, fun _ => by decide⟩
  exact ⟨h, ((hs1_body_grammar _).1 [7] none).mpr ⟨by decide, _, h.body_eq, h.short⟩⟩

end Obfs.Udp

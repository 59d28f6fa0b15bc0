import Obfs.Symbolic.Stream

/-! The Noise-XK handshake over a TCP stream, and the bytes it leaves to the pump:
what a side has read beyond the last message it needed is the start of the pump's
buffer. -/
namespace Obfs
open Framing

namespace TcpStream

inductive Halt (C : Core) where
  | failed (e : ObfsError C)
  | dropped
  | pending

/-- One end of a stream: how its reads will end, how its writes will end, and
what it has written. -/
structure Socket where
  reads : List StreamRead
  writes : Nat → Except IoError Unit
  written : Bytes

def Socket.open (reads : List StreamRead) (written : Bytes) : Socket :=
  ⟨reads, fun _ => .ok (), written⟩

abbrev Io (C : Core) := EStateM (Halt C) Socket

section
variable {C : Core}

def writeAll (bytes : Bytes) : Io C Unit := fun s =>
  let after := { s with writes := fun n => s.writes (n + 1) }
  match s.writes 0 with
  | .ok () => .ok () { after with written := s.written ++ bytes }
  | .error e => .error (.failed (.io e)) after

def flush : Io C Unit := writeAll []

/- The ? operator on a result of vaiexia-wire. -/
def wire {α : Type} : Except WireError α → Io C α
  | .ok a => pure a
  | .error e => throw (.failed (.wire e))

def message {α β : Type} : Except WireError α × β → Io C (α × β)
  | (.ok a, b) => pure (a, b)
  | (.error e, _) => throw (.failed (.wire e))

def skip (n : Nat) : Io C Unit := fun s =>
  match readExact n [] s.reads with
  | (.full _, reads) => .ok () { s with reads := reads }
  | (.eof, reads) => .error (.failed .closed) { s with reads := reads }
  | (.failed e, reads) =>
    .error (.failed (if e.kind = .unexpectedEof then .closed else .io e)) { s with reads := reads }
  | (.dropped, reads) => .error .dropped { s with reads := reads }
  | (.pending, reads) => .error .pending { s with reads := reads }

end

variable (K : StreamCrates)

def sendRaw (bytes : Bytes) (rng : K.Rng) : Io K.core Unit := do
  let framed ← wire (K.frameOut bytes rng)
  writeAll framed

def awaitRaw (buf : Bytes) : Io K.core (Bytes × Bytes) := fun s =>
  match recvRaw K buf s.reads with
  | (.returned (.ok bytes), buf, reads) => .ok (bytes, buf) { s with reads := reads }
  | (.returned (.error e), _, reads) => .error (.failed e) { s with reads := reads }
  | (.dropped, _, reads) => .error .dropped { s with reads := reads }
  | (.pending, _, reads) => .error .pending { s with reads := reads }

/- Preamble junk: the client always sends it, the server skips it. -/
def sendPreamble (rng : K.Rng) : Io K.core Unit :=
  let preamble := K.preamble rng
  if preamble = [] then pure ()
  else do
    writeAll preamble
    flush

def skipPreamble : Io K.core Unit := if K.preambleSkip > 0 then skip K.preambleSkip else pure ()

/- client_handshake_in_place up to msg1. -/
def clientMsg1 (localPrivate remotePublic : Key) (e : K.Entropy) (rng : Nat → K.Rng) :
    Io K.core K.Handshake := do
  let hs ← wire (K.initiator localPrivate remotePublic e)
  sendPreamble K (rng 0)
  let (m1, hs) ← message (K.writeMessage hs [])
  sendRaw K m1 (rng 1)
  return hs

/- client_handshake_in_place from msg2 on. -/
def clientMsg3 (hs : K.Handshake) (rng : Nat → K.Rng) : Io K.core (K.Session × Bytes) := do
  let (m2, buf) ← awaitRaw K []
  let (_, hs) ← message (K.readMessage hs m2)
  let (m3, hs) ← message (K.writeMessage hs [])
  sendRaw K m3 (rng 2)
  let session ← wire (K.intoSession hs)
  return (session, buf)

/-- The session, and the bytes read beyond msg2. -/
def clientHandshakeInPlace (localPrivate remotePublic : Key) (e : K.Entropy) (rng : Nat → K.Rng) :
    Io K.core (K.Session × Bytes) := do
  let hs ← clientMsg1 K localPrivate remotePublic e rng
  clientMsg3 K hs rng

/- server_handshake_in_place up to msg2. -/
def serverMsg2 (localPrivate : Key) (e : K.Entropy) (rng : K.Rng) :
    Io K.core (K.Handshake × Bytes) := do
  let hs ← wire (K.responder localPrivate e)
  skipPreamble K
  let (m1, buf) ← awaitRaw K []
  let (_, hs) ← message (K.readMessage hs m1)
  let (m2, hs) ← message (K.writeMessage hs [])
  sendRaw K m2 rng
  return (hs, buf)

/- server_handshake_in_place from msg3 on. -/
def serverMsg3 (hs : K.Handshake) (buf : Bytes) : Io K.core (K.Session × Option Key × Bytes) := do
  let (m3, buf) ← awaitRaw K buf
  let (_, hs) ← message (K.readMessage hs m3)
  let session ← wire (K.intoSession hs)
  return (session, K.remoteStatic hs, buf)

/-- The session, the client's static key, and the bytes read beyond msg3. -/
def serverHandshakeInPlace (localPrivate : Key) (e : K.Entropy) (rng : K.Rng) :
    Io K.core (K.Session × Option Key × Bytes) := do
  let (hs, buf) ← serverMsg2 K localPrivate e rng
  serverMsg3 K hs buf

end TcpStream

namespace StreamCrates
variable (K : StreamCrates)

/-- Noise messages have at most 65535 bytes, and the profile can frame them. -/
def FramesMessages : Prop :=
  ∀ msg rng, msg.length ≤ 65535 → ∃ wire, K.frameOut msg rng = .ok wire

structure Exchange (S : K.InStep) (priv serverPub serverPriv clientPub : Key)
    (e e' : K.Entropy) where
  (i0 i1 i2 i3 r0 r1 r2 r3 : K.Handshake)
  (m1 m2 m3 p1 p2 p3 : Bytes)
  (client server : K.Session)
  initiator : K.initiator priv serverPub e = .ok i0
  responder : K.responder serverPriv e' = .ok r0
  write1 : K.writeMessage i0 [] = (.ok m1, i1)
  read1 : K.readMessage r0 m1 = (.ok p1, r1)
  write2 : K.writeMessage r1 [] = (.ok m2, r2)
  read2 : K.readMessage i1 m2 = (.ok p2, i2)
  write3 : K.writeMessage i2 [] = (.ok m3, i3)
  read3 : K.readMessage r2 m3 = (.ok p3, r3)
  remoteStatic : K.remoteStatic r3 = some clientPub
  clientSession : K.intoSession i3 = .ok client
  serverSession : K.intoSession r3 = .ok server
  toServer : S.Reads client server
  toClient : S.Reads server client
  short : m1.length ≤ 65535 ∧ m2.length ≤ 65535 ∧ m3.length ≤ 65535

structure HonestNoise (S : K.InStep) where
  pubKey : Key → Key
  exchange : ∀ priv serverPriv e e',
    K.Exchange S priv (pubKey serverPriv) serverPriv (pubKey priv) e e'

end StreamCrates

namespace TcpStream
section
variable {C : Core} {α β : Type}

def final : EStateM.Result (Halt C) Socket α → Socket
  | .ok _ s => s
  | .error _ s => s

theorem bind_ok {m : Io C α} {f : α → Io C β} {s s' : Socket} {a : α} (h : m s = .ok a s') :
    (m >>= f) s = f a s' := by
  show EStateM.bind m f s = f a s'
  rw [EStateM.bind, h]

def Grows (m : Io C α) : Prop := ∀ s, s.written <+: (final (m s)).written

def Silent (m : Io C α) : Prop := ∀ s, (final (m s)).written = s.written

theorem Silent.grows {m : Io C α} (h : Silent m) : Grows m := by
  intro s
  simp [h s]

theorem Grows.bind {m : Io C α} {f : α → Io C β} (hm : Grows m) (hf : ∀ a, Grows (f a)) :
    Grows (m >>= f) := by
  intro s
  have hs := hm s
  show s.written <+: (final (EStateM.bind m f s)).written
  unfold EStateM.bind
  cases h : m s with
  | ok a s' =>
    rw [h] at hs
    exact hs.trans (hf a s')
  | error e s' =>
    rw [h] at hs
    exact hs

theorem Silent.bind {m : Io C α} {f : α → Io C β} (hm : Silent m) (hf : ∀ a, Silent (f a)) :
    Silent (m >>= f) := by
  intro s
  have hs := hm s
  show (final (EStateM.bind m f s)).written = s.written
  unfold EStateM.bind
  cases h : m s with
  | ok a s' =>
    rw [h] at hs
    exact (hf a s').trans hs
  | error e s' =>
    rw [h] at hs
    exact hs

theorem silent_pure (a : α) : Silent (pure a : Io C α) := fun _ => rfl

theorem silent_wire (r : Except WireError α) : Silent (wire r : Io C α) := by
  cases r <;> exact fun _ => rfl

theorem silent_message (r : Except WireError α × β) : Silent (message r : Io C (α × β)) := by
  obtain ⟨_ | _, _⟩ := r <;> exact fun _ => rfl

theorem grows_writeAll (bytes : Bytes) : Grows (writeAll bytes : Io C Unit) := by
  intro s
  unfold writeAll
  cases s.writes 0 with
  | ok u => exact List.prefix_append _ _
  | error e => exact List.prefix_refl _

end

variable {K : StreamCrates}

theorem silent_awaitRaw (buf : Bytes) : Silent (awaitRaw K buf) := by
  intro s
  unfold awaitRaw
  split <;> rfl

theorem grows_sendRaw (bytes : Bytes) (rng : K.Rng) : Grows (sendRaw K bytes rng) :=
  (silent_wire _).grows.bind fun _ => grows_writeAll _

theorem grows_clientMsg3 (hs : K.Handshake) (rng : Nat → K.Rng) : Grows (clientMsg3 K hs rng) := by
  refine (silent_awaitRaw []).grows.bind fun _ => ?_
  refine (silent_message _).grows.bind fun _ => ?_
  refine (silent_message _).grows.bind fun _ => ?_
  refine (grows_sendRaw _ _).bind fun _ => ?_
  exact ((silent_wire _).bind fun _ => silent_pure _).grows

theorem silent_serverMsg3 (hs : K.Handshake) (buf : Bytes) : Silent (serverMsg3 K hs buf) := by
  refine (silent_awaitRaw buf).bind fun _ => ?_
  refine (silent_message _).bind fun _ => ?_
  exact (silent_wire _).bind fun _ => silent_pure _

/-! An undisturbed handshake, message by message. -/

section
variable {reads : List StreamRead} {w rest : Bytes}

theorem writeAll_ok (bytes : Bytes) :
    (writeAll bytes : Io K.core Unit) (.open reads w) = .ok () (.open reads (w ++ bytes)) := rfl

theorem flush_ok : (flush : Io K.core Unit) (.open reads w) = .ok () (.open reads w) := by
  rw [flush, writeAll_ok, List.append_nil]

theorem sendRaw_ok {bytes framed : Bytes} {rng : K.Rng} (hf : K.frameOut bytes rng = .ok framed) :
    sendRaw K bytes rng (.open reads w) = .ok () (.open reads (w ++ framed)) := by
  have hw : (wire (K.frameOut bytes rng) : Io K.core Bytes) (.open reads w) =
      .ok framed (.open reads w) := by
    rw [hf]
    rfl
  exact bind_ok hw

theorem awaitRaw_ok {m framed buf : Bytes} (hf : IsFrame K.frameIn m framed)
    (hl : Left buf reads (framed ++ rest) 0) :
    ∃ buf' reads', awaitRaw K buf (.open reads w) = .ok (m, buf') (.open reads' w) ∧
      Left buf' reads' rest 0 := by
  obtain ⟨buf', reads', ⟨ha, hl'⟩ | ⟨-, n, hn, -⟩⟩ := accumulate_frame hf buf reads hl
  · refine ⟨buf', reads', ?_, hl'⟩
    simp [awaitRaw, recvRaw, Socket.open, ha, recordOrError]
  · omega

theorem sendPreamble_ok (rng : K.Rng) :
    sendPreamble K rng (.open reads w) = .ok () (.open reads (w ++ K.preamble rng)) := by
  unfold sendPreamble
  by_cases hp : K.preamble rng = []
  · rw [hp, List.append_nil, if_pos rfl]
    rfl
  · rw [if_neg hp]
    exact (bind_ok (writeAll_ok _)).trans flush_ok

theorem skipPreamble_ok {q : Bytes} (hq : q.length = K.preambleSkip)
    (hl : Left [] reads (q ++ rest) 0) :
    ∃ reads', skipPreamble K (.open reads w) = .ok () (.open reads' w) ∧ Left [] reads' rest 0 := by
  unfold skipPreamble
  rw [← hq]
  by_cases hpos : q.length > 0
  · obtain ⟨reads', hr, hl'⟩ := readExact_full [] q reads hl
    refine ⟨reads', ?_, hl'⟩
    simp [hpos, skip, Socket.open, hr]
  · have hnil : q = [] := List.eq_nil_of_length_eq_zero (by omega)
    subst hnil
    exact ⟨reads, rfl, hl⟩

variable {S : K.InStep} {priv serverPub serverPriv clientPub : Key} {e e' : K.Entropy}
  (x : K.Exchange S priv serverPub serverPriv clientPub e e')

theorem wire_ok {α : Type} {r : Except WireError α} {a : α} {s : Socket} (h : r = .ok a) :
    (wire r : Io K.core α) s = .ok a s := by
  rw [h]
  rfl

theorem message_ok {α β : Type} {r : Except WireError α × β} {a : α} {b : β} {s : Socket}
    (h : r = (.ok a, b)) : (message r : Io K.core (α × β)) s = .ok (a, b) s := by
  rw [h]
  rfl

theorem clientMsg1_ok {f1 : Bytes} {rng : Nat → K.Rng} (h1 : K.frameOut x.m1 (rng 1) = .ok f1) :
    clientMsg1 K priv serverPub e rng (.open reads w) =
      .ok x.i1 (.open reads (w ++ K.preamble (rng 0) ++ f1)) := by
  refine (bind_ok (wire_ok x.initiator)).trans ?_
  refine (bind_ok (sendPreamble_ok _)).trans ?_
  refine (bind_ok (message_ok x.write1)).trans ?_
  exact bind_ok (sendRaw_ok h1)

theorem clientMsg3_ok {f2 f3 : Bytes} {rng : Nat → K.Rng} (h2 : IsFrame K.frameIn x.m2 f2)
    (h3 : K.frameOut x.m3 (rng 2) = .ok f3) (hl : Left [] reads (f2 ++ rest) 0) :
    ∃ buf reads', clientMsg3 K x.i1 rng (.open reads w) =
      .ok (x.client, buf) (.open reads' (w ++ f3)) ∧ Left buf reads' rest 0 := by
  obtain ⟨buf, reads', ha, hl'⟩ := awaitRaw_ok (w := w) h2 hl
  refine ⟨buf, reads', ?_, hl'⟩
  refine (bind_ok ha).trans ?_
  refine (bind_ok (message_ok x.read2)).trans ?_
  refine (bind_ok (message_ok x.write3)).trans ?_
  refine (bind_ok (sendRaw_ok h3)).trans ?_
  exact bind_ok (wire_ok x.clientSession)

theorem serverMsg2_ok {q f1 f2 : Bytes} {rng : K.Rng} (hq : q.length = K.preambleSkip)
    (h1 : IsFrame K.frameIn x.m1 f1) (h2 : K.frameOut x.m2 rng = .ok f2)
    (hl : Left [] reads (q ++ (f1 ++ rest)) 0) :
    ∃ buf reads', serverMsg2 K serverPriv e' rng (.open reads w) =
      .ok (x.r2, buf) (.open reads' (w ++ f2)) ∧ Left buf reads' rest 0 := by
  obtain ⟨reads1, hs, hl1⟩ := skipPreamble_ok (w := w) hq hl
  obtain ⟨buf, reads2, ha, hl2⟩ := awaitRaw_ok (w := w) h1 hl1
  refine ⟨buf, reads2, ?_, hl2⟩
  refine (bind_ok (wire_ok x.responder)).trans ?_
  refine (bind_ok hs).trans ?_
  refine (bind_ok ha).trans ?_
  refine (bind_ok (message_ok x.read1)).trans ?_
  refine (bind_ok (message_ok x.write2)).trans ?_
  exact bind_ok (sendRaw_ok h2)

theorem serverMsg3_ok {f3 buf : Bytes} (h3 : IsFrame K.frameIn x.m3 f3)
    (hl : Left buf reads (f3 ++ rest) 0) :
    ∃ buf' reads', serverMsg3 K x.r2 buf (.open reads w) =
      .ok (x.server, some clientPub, buf') (.open reads' w) ∧ Left buf' reads' rest 0 := by
  obtain ⟨buf', reads', ha, hl'⟩ := awaitRaw_ok (w := w) h3 hl
  refine ⟨buf', reads', ?_, hl'⟩
  refine (bind_ok ha).trans ?_
  refine (bind_ok (message_ok x.read3)).trans ?_
  refine (bind_ok (wire_ok x.serverSession)).trans ?_
  rw [← x.remoteStatic]
  rfl

end

variable (K) in
/-- A pump that starts with this session and buffer on the rest of the stream
receives these envelopes and then sees the stream closed, whichever calls it
drops and whatever it sends in between. -/
def Receives (session : K.Session) (buf : Bytes) (rest : List StreamRead)
    (envs : List (Envelope K.core)) : Prop :=
  ∀ reads turns, undropped reads = rest → drops reads + envs.length < turns.length →
    recvFrames K session buf reads turns = envs.map .ok ++ [.error .closed]

theorem receives_of_left (P : K.PrefixCorrect) (S : K.InStep) {a b : K.Session} (hab : S.Reads a b)
    {frames : List (Envelope K.core × Bytes)} (hw : Writes K a frames)
    (hj : K.Decodes (frames.map Prod.fst)) {buf : Bytes} {rest : List StreamRead}
    (hl : Left buf rest (wires frames) 0) : Receives K b buf rest (frames.map Prod.fst) := by
  rintro reads turns rfl hturns
  have hall : complete (wires frames).length frames = frames.map Prod.fst :=
    complete_of_length_le (Nat.le_refl _)
  have hleft : Left buf reads ((wires frames).take (wires frames).length) (drops reads) := by
    refine ⟨(ends_undropped reads).mp hl.ends, ?_, rfl⟩
    rw [List.take_length, ← hl.total_eq, incoming_undropped]
  rw [recvFrames_eq P S turns hab hw hj hleft (by rwa [hall]), hall,
    remnant_of_length_le (Nat.le_refl _)]
  rfl

/-- A client and a server that read each other's bytes, cut into reads in any
way, both complete the handshake; the server learns the client's key; and each
pump, started on what the handshake has left in the buffer and in the stream,
receives just the envelopes that the other side has sent since. -/
theorem handshake_leaves_stream_intact (P : K.PrefixCorrect) (F : K.FramesMessages)
    (S : K.InStep) (N : K.HonestNoise S)
    (hpre : ∀ rng, (K.preamble rng).length = K.preambleSkip) (priv serverPriv : Key)
    (e e' : K.Entropy) (rng : Nat → K.Rng) (rng' : K.Rng) {readsC readsS : List StreamRead}
    {framesC framesS : List (Envelope K.core × Bytes)}
    (hC : Left [] readsC
      ((final (serverHandshakeInPlace K serverPriv e' rng' (.open readsS []))).written ++
        wires framesS) 0)
    (hS : Left [] readsS
      ((final (clientHandshakeInPlace K priv (N.pubKey serverPriv) e rng
        (.open readsC []))).written ++ wires framesC) 0)
    (hwC : ∀ session buf s, clientHandshakeInPlace K priv (N.pubKey serverPriv) e rng
      (.open readsC []) = .ok (session, buf) s → Writes K session framesC)
    (hwS : ∀ session key buf s, serverHandshakeInPlace K serverPriv e' rng' (.open readsS []) =
      .ok (session, key, buf) s → Writes K session framesS)
    (hjC : K.Decodes (framesC.map Prod.fst)) (hjS : K.Decodes (framesS.map Prod.fst)) :
    ∃ client bufC sC server bufS sS,
      clientHandshakeInPlace K priv (N.pubKey serverPriv) e rng (.open readsC []) =
        .ok (client, bufC) sC ∧
      serverHandshakeInPlace K serverPriv e' rng' (.open readsS []) =
        .ok (server, some (N.pubKey priv), bufS) sS ∧
      Receives K client bufC sC.reads (framesS.map Prod.fst) ∧
      Receives K server bufS sS.reads (framesC.map Prod.fst) := by
  let x := N.exchange priv serverPriv e e'
  obtain ⟨f1, h1⟩ := F x.m1 (rng 1) x.short.1
  obtain ⟨f2, h2⟩ := F x.m2 rng' x.short.2.1
  obtain ⟨f3, h3⟩ := F x.m3 (rng 2) x.short.2.2
  have hmsg1 : clientMsg1 K priv (N.pubKey serverPriv) e rng (.open readsC []) =
      .ok x.i1 (.open readsC (K.preamble (rng 0) ++ f1)) := clientMsg1_ok x (w := []) h1
  -- the client has written preamble and msg1 before it reads anything
  have hclient : clientHandshakeInPlace K priv (N.pubKey serverPriv) e rng (.open readsC []) =
      clientMsg3 K x.i1 rng (.open readsC (K.preamble (rng 0) ++ f1)) := bind_ok hmsg1
  obtain ⟨more, hmore⟩ := grows_clientMsg3 x.i1 rng (.open readsC (K.preamble (rng 0) ++ f1))
  have hS1 : Left [] readsS (K.preamble (rng 0) ++ (f1 ++ (more ++ wires framesC))) 0 := by
    rw [hclient, ← hmore] at hS
    simpa [Socket.open] using hS
  -- so the server reads msg1 and writes msg2
  obtain ⟨buf2, reads2, hmsg2, hleft2⟩ :=
    serverMsg2_ok x (w := []) (hpre (rng 0)) (P.frame h1) h2 hS1
  have hserver : serverHandshakeInPlace K serverPriv e' rng' (.open readsS []) =
      serverMsg3 K x.r2 buf2 (.open reads2 f2) := bind_ok hmsg2
  have hC1 : Left [] readsC (f2 ++ wires framesS) 0 := by
    rw [hserver, silent_serverMsg3] at hC
    exact hC
  -- so the client reads msg2 and writes msg3, and ends
  obtain ⟨bufC, restC, hmsg3, hleftC⟩ :=
    clientMsg3_ok x (w := K.preamble (rng 0) ++ f1) (P.frame h2) h3 hC1
  have hf3 : more = f3 := by
    rw [hmsg3] at hmore
    exact List.append_cancel_left hmore
  rw [hf3] at hleft2
  -- so the server reads msg3 and ends
  obtain ⟨bufS, restS, hend, hleftS⟩ := serverMsg3_ok x (w := f2) (P.frame h3) hleft2
  have hokC := hclient.trans hmsg3
  have hokS := hserver.trans hend
  exact ⟨x.client, bufC, _, x.server, bufS, _, hokC, hokS,
    receives_of_left P S x.toClient (hwS _ _ _ _ hokS) hjS hleftC,
    receives_of_left P S x.toServer (hwC _ _ _ hokC) hjC hleftS⟩

end TcpStream
end Obfs

namespace Obfs.Symbolic
open Framing TcpStream

theorem framesMessages : streamCrates.FramesMessages := by
  intro msg rng hlen
  refine ⟨u32Bytes msg.length ++ msg, ?_⟩
  show frameOut msg = _
  rw [frameOut, if_pos (by omega)]

def honestNoise : streamCrates.HonestNoise inStep where
  pubKey := id
  exchange := fun priv serverPriv e e' =>
    let m1 : Bytes := 1 :: serverPriv.val ++ [e]
    let m2 : Bytes := 2 :: m1 ++ [e']
    let m3 : Bytes := 3 :: m2 ++ priv.val ++ []
    { i0 := ⟨true, priv, some serverPriv, e, []⟩
      i1 := ⟨true, priv, some serverPriv, e, [m1]⟩
      i2 := ⟨true, priv, some serverPriv, e, [m1, m2]⟩
      i3 := ⟨true, priv, some serverPriv, e, [m1, m2, m3]⟩
      r0 := ⟨false, serverPriv, none, e', []⟩
      r1 := ⟨false, serverPriv, none, e', [m1]⟩
      r2 := ⟨false, serverPriv, none, e', [m1, m2]⟩
      r3 := ⟨false, serverPriv, some priv, e', [m1, m2, m3]⟩
      m1, m2, m3
      p1 := []
      p2 := []
      p3 := []
      client := ⟨true, 0, 0⟩
      server := ⟨false, 0, 0⟩
      initiator := rfl
      responder := rfl
      write1 := rfl
      read1 := by simp [readMessage, m1, serverPriv.property]
      write2 := rfl
      read2 := by simp [readMessage, m2]
      write3 := rfl
      read3 := readMessage_answer (r := ⟨false, serverPriv, none, e', [m1, m2]⟩) rfl rfl priv []
      remoteStatic := rfl
      clientSession := rfl
      serverSession := rfl
      toServer := ⟨rfl, rfl⟩
      toClient := ⟨rfl, rfl⟩
      short := by
        simp [m1, m2, m3, priv.property, serverPriv.property] }

def framed (record : Bytes) : Bytes := u32Bytes record.length ++ record

/- The client's preamble, its messages and a Ping arrive in one read, and so do
the server's message and a Pong. -/
def atServer : List StreamRead :=
  [.got ⟨[0xA0, 0xA1, 0xA2] ++ framed (msg1 5) ++ framed (3 :: msg2 5 6 ++ (keyOf 0x22).val) ++
      framed [1, 0, 7], by decide, by decide⟩, .eof]

def atClient : List StreamRead :=
  [.got ⟨framed (msg2 5 6) ++ framed [2, 0, 8], by decide, by decide⟩, .eof]

abbrev clientEnd := clientHandshakeInPlace streamCrates (keyOf 0x22) serverKey 5 (fun _ => ())
  (.open atClient [])

abbrev serverEnd := serverHandshakeInPlace streamCrates serverKey 6 () (.open atServer [])

def sessionOf {α : Type} : EStateM.Result (Halt core) Socket (Session × α) → Option Session
  | .ok r _ => some r.1
  | .error _ _ => none

theorem handshake_leaves_stream_intact_coalesced :
    ∃ client bufC sC server bufS sS, clientEnd = .ok (client, bufC) sC ∧
      serverEnd = .ok (server, some (keyOf 0x22), bufS) sS ∧
      Receives streamCrates client bufC sC.reads [.pong] ∧
      Receives streamCrates server bufS sS.reads [.ping] := by
  have hclient : sessionOf clientEnd = some ⟨true, 0, 0⟩ := by decide +kernel
  have hserver : sessionOf serverEnd = some ⟨false, 0, 0⟩ := by decide +kernel
  have hping : sendFrame streamCrates ⟨true, 0, 0⟩ ⟨.ping, (), .ok ()⟩ =
      (.ok (), framed [1, 0, 7], ⟨true, 1, 0⟩) := rfl
  have hpong : sendFrame streamCrates ⟨false, 0, 0⟩ ⟨.pong, (), .ok ()⟩ =
      (.ok (), framed [2, 0, 8], ⟨false, 1, 0⟩) := rfl
  have hwC : ∀ session buf s, clientEnd = .ok (session, buf) s →
      Writes streamCrates session [(.ping, framed [1, 0, 7])] := by
    intro session buf s h
    rw [h] at hclient
    cases hclient
    exact .frame hping .done
  have hwS : ∀ session key buf s, serverEnd = .ok (session, key, buf) s →
      Writes streamCrates session [(.pong, framed [2, 0, 8])] := by
    intro session key buf s h
    rw [h] at hserver
    cases hserver
    exact .frame hpong .done
  exact handshake_leaves_stream_intact prefixCorrect framesMessages inStep honestNoise
    (fun _ => rfl) (keyOf 0x22) serverKey 5 6 (fun _ => ()) () ⟨by decide, by decide +kernel, rfl⟩
    ⟨by decide, by decide +kernel, rfl⟩ hwC hwS (decodes_cons rfl rfl decodes_nil)
    (decodes_cons rfl rfl decodes_nil)

end Obfs.Symbolic

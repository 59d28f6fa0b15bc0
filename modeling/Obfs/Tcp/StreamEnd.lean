import Obfs.Client.LinkOps
import Obfs.Client.Links
import Obfs.Tcp.Framing

/-! One end of a TCP stream after its handshake, as a pump has it: the session,
the read buffer, and the recv_frame call that select! polls. A call that waits
for bytes is polled again in the next turn, with what it has read so far in the
buffer; when another arm is taken it is dropped. -/
namespace Obfs.TcpStream
open Framing Client
variable (K : StreamCrates)

structure StreamEnd where
  session : K.Session
  buf : Bytes
  /-- Whether the present call is suspended in its read. -/
  waiting : Bool

variable {K}

def StreamEnd.loop (ep : StreamEnd K) (reads : List StreamRead) :
    Stop Bytes IoError × Bytes × List StreamRead :=
  if ep.waiting then awaitRead K.frameIn ep.buf reads else accumulate K.frameIn ep.buf reads

/-- One poll of recv_frame. -/
def StreamEnd.recv (ep : StreamEnd K) (reads : List StreamRead) :
    Call K.core (Envelope K.core) × StreamEnd K :=
  match ep.loop reads with
  | (stop, buf, _) =>
    match recordOrError buf stop with
    | .returned (.ok ciphertext) =>
      match K.decrypt ep.session ciphertext with
      | (.error e, session) => (.returned (.error (.wire e)), ⟨session, buf, false⟩)
      | (.ok plaintext, session) =>
        match K.fromSlice plaintext with
        | .error e => (.returned (.error (.serde e)), ⟨session, buf, false⟩)
        | .ok env => (.returned (.ok env), ⟨session, buf, false⟩)
    | .returned (.error e) => (.returned (.error e), ⟨ep.session, buf, false⟩)
    | .dropped => (.dropped, ⟨ep.session, buf, false⟩)
    | .pending => (.pending, ⟨ep.session, buf, true⟩)

def StreamEnd.opened? (ep : StreamEnd K) (reads : List StreamRead) : Option Bytes :=
  match (ep.loop reads).1 with
  | .record ciphertext =>
    match (K.decrypt ep.session ciphertext).1 with
    | .ok plaintext => some plaintext
    | .error _ => none
  | _ => none

/- The plaintext that send_frame encrypts; none if it fails before. -/
def StreamEnd.sealed? (ep : StreamEnd K) (env : Envelope K.core) : Option Bytes :=
  match K.toVec env with
  | .error _ => none
  | .ok plaintext =>
    match (K.encrypt ep.session plaintext).1 with
    | .ok _ => some plaintext
    | .error _ => none

def frameErrorText {C : Core} : ObfsError C → String
  | .closed => "connection closed"
  | .wire e => "wire error: " ++ e.text
  | .io e => "IO error: " ++ e.text
  | .serde e => "serialization error: " ++ e.text
  | _ => ""

/-- send_frame of a pump, which has dropped its recv_frame call before. -/
def StreamEnd.send (ep : StreamEnd K) (env : Envelope K.core) (out : K.Rng × Except IoError Unit) :
    Tcp.SendResult × StreamEnd K :=
  match sendFrame K ep.session ⟨env, out.1, out.2⟩ with
  | (.ok (), _, session) => (.ok, ⟨session, ep.buf, false⟩)
  | (.error e, _, session) =>
    match ep.sealed? env with
    | some _ => (.unwritten (frameErrorText e), ⟨session, ep.buf, false⟩)
    | none => (.unsealed (frameErrorText e), ⟨session, ep.buf, false⟩)

/-! A call that is polled in several turns is one call of recv_frame. -/

theorem recv_eq_recvFrame {ep : StreamEnd K} (hw : ep.waiting = false) (reads : List StreamRead) :
    (ep.recv reads).1 = (recvFrame K ep.session ep.buf reads).1 ∧
      (ep.recv reads).2.session = (recvFrame K ep.session ep.buf reads).2.1 ∧
      (ep.recv reads).2.buf = (recvFrame K ep.session ep.buf reads).2.2.1 := by
  have hloop : ep.loop reads = accumulate K.frameIn ep.buf reads := by
    rw [StreamEnd.loop, hw]
    rfl
  unfold StreamEnd.recv recvFrame
  rw [hloop]
  obtain ⟨stop, buf, left⟩ := accumulate K.frameIn ep.buf reads
  dsimp only
  cases recordOrError (C := K.core) buf stop with
  | returned r =>
    cases r with
    | error e => exact ⟨rfl, rfl, rfl⟩
    | ok ciphertext =>
      dsimp only
      cases K.decrypt ep.session ciphertext with
      | mk res session =>
        cases res with
        | error e => exact ⟨rfl, rfl, rfl⟩
        | ok plaintext =>
          dsimp only
          cases K.fromSlice plaintext <;> exact ⟨rfl, rfl, rfl⟩
  | dropped => exact ⟨rfl, rfl, rfl⟩
  | pending => exact ⟨rfl, rfl, rfl⟩

theorem recv_pending {ep ep' : StreamEnd K} {reads : List StreamRead}
    (h : ep.recv reads = (.pending, ep')) :
    ∃ buf left, ep.loop reads = (.pending, buf, left) ∧ ep' = ⟨ep.session, buf, true⟩ := by
  obtain ⟨stop, buf, left, hloop⟩ : ∃ stop buf left, ep.loop reads = (stop, buf, left) :=
    ⟨_, _, _, rfl⟩
  unfold StreamEnd.recv at h
  rw [hloop] at h
  dsimp only at h
  split at h
  · split at h
    · cases h
    · split at h <;> cases h
  · cases h
  · cases h
  · rename_i hr
    cases h
    cases stop with
    | pending => exact ⟨buf, left, hloop, rfl⟩
    | _ => cases hr

/-- Polling again is the same as polling once with all the reads. -/
theorem recv_resumed {ep ep' : StreamEnd K} {reads : List StreamRead}
    (h : ep.recv reads = (.pending, ep')) (more : List StreamRead) :
    ep'.recv more = ep.recv (reads ++ more) := by
  obtain ⟨buf, left, hloop, rfl⟩ := recv_pending h
  have hmore : ep.loop (reads ++ more) = awaitRead K.frameIn buf more := by
    unfold StreamEnd.loop at hloop ⊢
    split at hloop
    · rename_i hw
      rw [if_pos hw]
      exact awaitRead_resumed hloop
    · rename_i hw
      rw [if_neg hw]
      exact accumulate_resumed hloop
  unfold StreamEnd.recv
  rw [hmore]
  rfl

theorem recv_cases (ep : StreamEnd K) (reads : List StreamRead) :
    (ep.opened? reads = none ∧ (∀ env, (ep.recv reads).1 ≠ .returned (.ok env)) ∧
      ((ep.recv reads).2.session = ep.session ∨
        ∃ ct e, K.decrypt ep.session ct = (.error e, (ep.recv reads).2.session))) ∨
    ∃ ct pt, ep.opened? reads = some pt ∧
      K.decrypt ep.session ct = (.ok pt, (ep.recv reads).2.session) ∧
      ∀ env, (ep.recv reads).1 = .returned (.ok env) ↔ K.fromSlice pt = .ok env := by
  unfold StreamEnd.recv StreamEnd.opened?
  obtain ⟨stop, buf, left⟩ := ep.loop reads
  cases stop with
  | record ct =>
    dsimp only [recordOrError]
    cases hd : K.decrypt ep.session ct with
    | mk res session =>
      cases res with
      | error e => exact Or.inl ⟨rfl, nofun, Or.inr ⟨ct, e, hd⟩⟩
      | ok pt =>
        refine Or.inr ⟨ct, pt, rfl, ?_⟩
        dsimp only
        cases K.fromSlice pt with
        | error e => exact ⟨hd, fun env => ⟨nofun, nofun⟩⟩
        | ok env =>
          refine ⟨hd, fun env' => ?_⟩
          dsimp only
          constructor <;> intro he <;> cases he <;> rfl
  | invalid text => exact Or.inl ⟨rfl, nofun, Or.inl rfl⟩
  | eof => exact Or.inl ⟨rfl, nofun, Or.inl rfl⟩
  | failed e => exact Or.inl ⟨rfl, nofun, Or.inl rfl⟩
  | dropped => exact Or.inl ⟨rfl, nofun, Or.inl rfl⟩
  | pending => exact Or.inl ⟨rfl, nofun, Or.inl rfl⟩

theorem send_cases (ep : StreamEnd K) (env : Envelope K.core)
    (out : K.Rng × Except IoError Unit) :
    (ep.sealed? env = none ∧ (∃ text, (ep.send env out).1 = .unsealed text) ∧
      ((ep.send env out).2.session = ep.session ∨
        ∃ pt e, K.encrypt ep.session pt = (.error e, (ep.send env out).2.session))) ∨
    ∃ pt ct, ep.sealed? env = some pt ∧ K.toVec env = .ok pt ∧
      K.encrypt ep.session pt = (.ok ct, (ep.send env out).2.session) ∧
      ((ep.send env out).1 = .ok ∨ ∃ text, (ep.send env out).1 = .unwritten text) := by
  unfold StreamEnd.send StreamEnd.sealed? sendFrame
  dsimp only
  cases K.toVec env with
  | error e => exact Or.inl ⟨rfl, ⟨_, rfl⟩, Or.inl rfl⟩
  | ok pt =>
    dsimp only
    cases he : K.encrypt ep.session pt with
    | mk res session =>
      cases res with
      | error e => exact Or.inl ⟨rfl, ⟨_, rfl⟩, Or.inr ⟨pt, e, he⟩⟩
      | ok ct =>
        refine Or.inr ⟨pt, ct, rfl, rfl, ?_⟩
        dsimp only
        cases K.frameOut ct out.1 with
        | error e => exact ⟨he, Or.inr ⟨_, rfl⟩⟩
        | ok wire =>
          dsimp only
          cases out.2 with
          | error e => exact ⟨he, Or.inr ⟨_, rfl⟩⟩
          | ok u => exact ⟨he, Or.inl rfl⟩

variable (K) in
/-- The link of ObfsTransport, down to the bytes. A poll that does not end leaves
the pump in select!. -/
def streamLink : Link K.core where
  State := StreamEnd K
  In := List StreamRead
  Out := K.Rng × Except IoError Unit
  recv ep reads :=
    match ep.recv reads with
    | (.returned (.ok env), ep) => (.envelope env, ep)
    | (.returned (.error _), ep) => (.failed, ep)
    | (.dropped, ep) => (.nothing, ep)
    | (.pending, ep) => (.nothing, ep)
  send ep env out := (sendOk (ep.send env out).1, (ep.send env out).2)
  sendStops := true
  maxRetries := none

theorem streamLink_recv (ep : StreamEnd K) (reads : List StreamRead) :
    ((streamLink K).recv ep reads).2 = (ep.recv reads).2 := by
  unfold streamLink
  dsimp only
  split <;> rename_i hr <;> rw [hr]

theorem streamLink_envelope (ep : StreamEnd K) (reads : List StreamRead) (env : Envelope K.core) :
    ((streamLink K).recv ep reads).1 = .envelope env ↔
      (ep.recv reads).1 = .returned (.ok env) := by
  unfold streamLink
  dsimp only
  split <;> rename_i hr <;> rw [hr] <;> simp

def streamTransport (requestId : K.core.Request → String) (responseId : K.core.Response → String)
    (capability : Option K.core.Capability) : Params K.core :=
  ⟨streamLink K, requestId, responseId, capability⟩

section Ops

variable (K) in
inductive StreamOp where
  | recv (reads : List StreamRead)
  | send (env : Envelope K.core) (out : K.Rng × Except IoError Unit)

def StreamOp.run (ep : StreamEnd K) : StreamOp K → StreamEnd K
  | .recv reads => (ep.recv reads).2
  | .send env out => (ep.send env out).2

def StreamOp.sealed (ep : StreamEnd K) : StreamOp K → List Bytes
  | .recv _ => []
  | .send env _ => (ep.sealed? env).toList

def StreamOp.opened (ep : StreamEnd K) : StreamOp K → List Bytes
  | .recv reads => (ep.opened? reads).toList
  | .send _ _ => []

def runOps (ep : StreamEnd K) (ops : List (StreamOp K)) : StreamEnd K := ops.foldl StreamOp.run ep

def sealedBy (ep : StreamEnd K) : List (StreamOp K) → List Bytes
  | [] => []
  | op :: ops => op.sealed ep ++ sealedBy (op.run ep) ops

def openedBy (ep : StreamEnd K) : List (StreamOp K) → List Bytes
  | [] => []
  | op :: ops => op.opened ep ++ openedBy (op.run ep) ops

/-- The operations of one turn of a pump: it sends, or it reads and may answer
what it has read. -/
inductive Turn : List (StreamOp K) → Prop where
  | none : Turn []
  | send (env : Envelope K.core) (out : K.Rng × Except IoError Unit) : Turn [.send env out]
  | recv (reads : List StreamRead) : Turn [.recv reads]
  | answer (reads : List StreamRead) (env : Envelope K.core) (out : K.Rng × Except IoError Unit) :
      Turn [.recv reads, .send env out]

theorem Turn.one {ops : List (StreamOp K)} (ht : Turn ops) (ep : StreamEnd K) :
    (sealedBy ep ops).length ≤ 1 ∧ (openedBy ep ops).length ≤ 1 := by
  have htoList {x : Option Bytes} : x.toList.length ≤ 1 := by cases x <;> simp
  cases ht <;> simp [sealedBy, openedBy, StreamOp.sealed, StreamOp.opened, htoList]

end Ops

end Obfs.TcpStream

namespace Obfs.StreamCrates

/-- The session of Noise. Both ends have a common secret, from which each direction
gets a key: the initiator encrypts with one, the responder with the other. The
nonce of a direction counts its messages, from zero, and a message that fails
does not count. -/
structure Cipher (K : StreamCrates) where
  secret : K.Session → Bytes
  initiator : K.Session → Bool
  sent : K.Session → Nat
  opened : K.Session → Nat
  fresh : ∀ {hs ses}, K.intoSession hs = .ok ses → sent ses = 0 ∧ opened ses = 0
  encrypt_same : ∀ ses pt, secret (K.encrypt ses pt).2 = secret ses ∧
    initiator (K.encrypt ses pt).2 = initiator ses ∧ opened (K.encrypt ses pt).2 = opened ses
  encrypt_ok : ∀ {ses pt ct ses'}, K.encrypt ses pt = (.ok ct, ses') → sent ses' = sent ses + 1
  encrypt_error : ∀ {ses pt e ses'}, K.encrypt ses pt = (.error e, ses') → sent ses' = sent ses
  decrypt_same : ∀ ses ct, secret (K.decrypt ses ct).2 = secret ses ∧
    initiator (K.decrypt ses ct).2 = initiator ses ∧ sent (K.decrypt ses ct).2 = sent ses
  decrypt_ok : ∀ {ses pt ct ses'}, K.decrypt ses ct = (.ok pt, ses') → opened ses' = opened ses + 1
  decrypt_error : ∀ {ses ct e ses'}, K.decrypt ses ct = (.error e, ses') → opened ses' = opened ses

namespace Cipher
open TcpStream
variable {K : StreamCrates} (Z : K.Cipher)

/- A key is named by the secret and the side that encrypts with it. -/
def sendKey (ses : K.Session) : Bytes × Bool := (Z.secret ses, Z.initiator ses)
def recvKey (ses : K.Session) : Bytes × Bool := (Z.secret ses, !Z.initiator ses)

def sendCell (ep : StreamEnd K) : (Bytes × Bool) × Nat := (Z.sendKey ep.session, Z.sent ep.session)
def recvCell (ep : StreamEnd K) : (Bytes × Bool) × Nat :=
  (Z.recvKey ep.session, Z.opened ep.session)

theorem run_cells (ep : StreamEnd K) (op : StreamOp K) :
    Z.sendCell (op.run ep) = (Z.sendKey ep.session, Z.sent ep.session + (op.sealed ep).length) ∧
      Z.recvCell (op.run ep) =
        (Z.recvKey ep.session, Z.opened ep.session + (op.opened ep).length) := by
  unfold sendCell recvCell sendKey recvKey
  cases op with
  | recv reads =>
    simp only [StreamOp.run, StreamOp.sealed, StreamOp.opened]
    rcases recv_cases ep reads with ⟨ho, -, hs | ⟨ct, e, hd⟩⟩ | ⟨ct, pt, ho, hd, -⟩
    · rw [ho, hs]
      exact ⟨rfl, rfl⟩
    · obtain ⟨hsecret, hside, hsent⟩ := Z.decrypt_same ep.session ct
      rw [hd] at hsecret hside hsent
      rw [ho, hsecret, hside, hsent, Z.decrypt_error hd]
      exact ⟨rfl, rfl⟩
    · obtain ⟨hsecret, hside, hsent⟩ := Z.decrypt_same ep.session ct
      rw [hd] at hsecret hside hsent
      rw [ho, hsecret, hside, hsent, Z.decrypt_ok hd]
      exact ⟨rfl, rfl⟩
  | send env out =>
    simp only [StreamOp.run, StreamOp.sealed, StreamOp.opened]
    rcases send_cases ep env out with ⟨ho, -, hs | ⟨pt, e, hd⟩⟩ | ⟨pt, ct, ho, -, hd, -⟩
    · rw [ho, hs]
      exact ⟨rfl, rfl⟩
    · obtain ⟨hsecret, hside, hopened⟩ := Z.encrypt_same ep.session pt
      rw [hd] at hsecret hside hopened
      rw [ho, hsecret, hside, hopened, Z.encrypt_error hd]
      exact ⟨rfl, rfl⟩
    · obtain ⟨hsecret, hside, hopened⟩ := Z.encrypt_same ep.session pt
      rw [hd] at hsecret hside hopened
      rw [ho, hsecret, hside, hopened, Z.encrypt_ok hd]
      exact ⟨rfl, rfl⟩

theorem runOps_cells (ep : StreamEnd K) (ops : List (StreamOp K)) :
    Z.sendCell (runOps ep ops) =
        (Z.sendKey ep.session, Z.sent ep.session + (sealedBy ep ops).length) ∧
      Z.recvCell (runOps ep ops) =
        (Z.recvKey ep.session, Z.opened ep.session + (openedBy ep ops).length) := by
  induction ops generalizing ep with
  | nil => exact ⟨rfl, rfl⟩
  | cons op ops ih =>
    obtain ⟨hs, hr⟩ := ih (op.run ep)
    obtain ⟨hs', hr'⟩ := Z.run_cells ep op
    simp only [sendCell, recvCell, Prod.mk.injEq] at hs' hr'
    have hrun : runOps ep (op :: ops) = runOps (op.run ep) ops := rfl
    rw [hrun, hs, hr, hs'.1, hs'.2, hr'.1, hr'.2, sealedBy, openedBy, List.length_append,
      List.length_append, Nat.add_assoc, Nat.add_assoc]
    exact ⟨rfl, rfl⟩

end Cipher

section Machines
variable (K : StreamCrates)

/-- The machine of a client that has written msg3, with the draw of its ephemeral. -/
def InitiatorDone (priv serverPub : Key) (e : K.Entropy) (hs : K.Handshake) : Prop :=
  ∃ hs0 hs1 hs2 msg1 msg2 msg3 p, K.initiator priv serverPub e = .ok hs0 ∧
    K.writeMessage hs0 [] = (.ok msg1, hs1) ∧ K.readMessage hs1 msg2 = (.ok p, hs2) ∧
    K.writeMessage hs2 [] = (.ok msg3, hs)

def ResponderDone (priv : Key) (e : K.Entropy) (hs : K.Handshake) : Prop :=
  ∃ r msg3 p, K.Responded priv e r ∧ K.readMessage r msg3 = (.ok p, hs)

/-- Noise XK. The secret of a session binds the ephemerals of both sides and the
static key of the initiator, which the responder learns. -/
structure Xk (Z : K.Cipher) where
  pubKey : Key → Key
  initiator : ∀ {priv pub e hs ses}, K.InitiatorDone priv pub e hs →
    K.intoSession hs = .ok ses → Z.initiator ses = true
  responder : ∀ {priv e hs ses}, K.ResponderDone priv e hs → K.intoSession hs = .ok ses →
    Z.initiator ses = false
  initiator_fresh : ∀ {priv pub e hs ses priv' pub' e' hs' ses'}, K.InitiatorDone priv pub e hs →
    K.InitiatorDone priv' pub' e' hs' → K.intoSession hs = .ok ses →
    K.intoSession hs' = .ok ses' → Z.secret ses = Z.secret ses' → e = e'
  responder_fresh : ∀ {priv e hs ses priv' e' hs' ses'}, K.ResponderDone priv e hs →
    K.ResponderDone priv' e' hs' → K.intoSession hs = .ok ses → K.intoSession hs' = .ok ses' →
    Z.secret ses = Z.secret ses' → e = e'
  remote : ∀ {priv pub e hs ses priv' e' hs' ses'}, K.InitiatorDone priv pub e hs →
    K.ResponderDone priv' e' hs' → K.intoSession hs = .ok ses → K.intoSession hs' = .ok ses' →
    Z.secret ses = Z.secret ses' → K.remoteStatic hs' = some (pubKey priv)

end Machines
end Obfs.StreamCrates

import Obfs.Crates
import Obfs.Lib.Framing

/-! The encrypted frames of the TCP transport: send_frame and recv_frame, and
the raw frames of the handshake. -/
namespace Obfs
open Framing

/-- What the TCP transport takes from vaiexia-wire besides: the session of a
finished handshake, and the framing and preamble of the mimicry profile. -/
structure StreamCrates extends Crates where
  Session : Type
  intoSession : Handshake → Except WireError Session
  encrypt : Session → Bytes → Except WireError Bytes × Session
  decrypt : Session → Bytes → Except WireError Bytes × Session
  frameOut : Bytes → Rng → Except WireError Bytes
  frameIn : Bytes → Parsed Bytes × Bytes
  preamble : Rng → Bytes
  preambleSkip : Nat

namespace StreamCrates
variable (K : StreamCrates)

/-- The profile takes back the frames it makes, waits for the rest of one that
is cut off, and does not touch an empty buffer. -/
structure PrefixCorrect : Prop where
  frame : ∀ {record rng wire}, K.frameOut record rng = .ok wire → IsFrame K.frameIn record wire
  idle : K.frameIn [] = (.needMore, [])

/-- Sessions in step: b has decrypted what a has encrypted so far, so that its
next decryption accepts what a encrypts next. The other direction of either
session has no part in this. -/
structure InStep where
  Reads : K.Session → K.Session → Prop
  deliver : ∀ {a a' b plaintext ciphertext}, Reads a b →
    K.encrypt a plaintext = (.ok ciphertext, a') →
    ∃ b', K.decrypt b ciphertext = (.ok plaintext, b') ∧ Reads a' b'
  encrypting : ∀ {a b} plaintext, Reads a b → Reads a (K.encrypt b plaintext).2
  decrypting : ∀ {a b} ciphertext, Reads a b → Reads (K.decrypt a ciphertext).2 b

def Decodes (envs : List (Envelope K.core)) : Prop :=
  ∀ env ∈ envs, ∀ json, K.toVec env = .ok json → K.fromSlice json = .ok env

end StreamCrates

namespace TcpStream
variable (K : StreamCrates)

abbrev StreamRead := Read UInt8 IoError 4096

/-- How a call that awaits the stream ends: it returns, or it is dropped at its
await or left there. -/
inductive Call (C : Core) (α : Type) where
  | returned (r : Except (ObfsError C) α)
  | dropped
  | pending

structure Outgoing where
  env : Envelope K.core
  rng : K.Rng
  written : Except IoError Unit

/- The result, what was handed to write_all, and the session. -/
def sendFrame (session : K.Session) (out : Outgoing K) :
    Except (ObfsError K.core) Unit × Bytes × K.Session :=
  match K.toVec out.env with
  | .error e => (.error (.serde e), [], session)
  | .ok plaintext =>
    match K.encrypt session plaintext with
    | (.error e, session) => (.error (.wire e), [], session)
    | (.ok ciphertext, session) =>
      match K.frameOut ciphertext out.rng with
      | .error e => (.error (.wire e), [], session)
      | .ok wire =>
        match out.written with
        | .error e => (.error (.io e), wire, session)
        | .ok () => (.ok (), wire, session)

def eofMidFrame : IoError := ⟨.unexpectedEof, "EOF mid-frame"⟩
def invalidFraming : IoError := ⟨.invalidData, "invalid framing"⟩

def recordOrError {C : Core} (buf : Bytes) : Stop Bytes IoError → Call C Bytes
  | .record bytes => .returned (.ok bytes)
  | .invalid _ => .returned (.error (.io invalidFraming))
  | .eof => .returned (.error (if buf.isEmpty then .closed else .io eofMidFrame))
  | .failed e => .returned (.error (.io e))
  | .dropped => .dropped
  | .pending => .pending

def recvRaw (buf : Bytes) (reads : List StreamRead) :
    Call K.core Bytes × Bytes × List StreamRead :=
  match accumulate K.frameIn buf reads with
  | (stop, buf, reads) => (recordOrError buf stop, buf, reads)

def recvFrame (session : K.Session) (buf : Bytes) (reads : List StreamRead) :
    Call K.core (Envelope K.core) × K.Session × Bytes × List StreamRead :=
  match accumulate K.frameIn buf reads with
  | (stop, buf, reads) =>
    match recordOrError buf stop with
    | .returned (.ok ciphertext) =>
      match K.decrypt session ciphertext with
      | (.error e, session) => (.returned (.error (.wire e)), session, buf, reads)
      | (.ok plaintext, session) =>
        match K.fromSlice plaintext with
        | .error e => (.returned (.error (.serde e)), session, buf, reads)
        | .ok env => (.returned (.ok env), session, buf, reads)
    | .returned (.error e) => (.returned (.error e), session, buf, reads)
    | .dropped => (.dropped, session, buf, reads)
    | .pending => (.pending, session, buf, reads)

def sendAll (session : K.Session) : List (Outgoing K) → K.Session
  | [] => session
  | out :: outs => sendAll (sendFrame K session out).2.2 outs

/-- What the successive recv_frame calls of a pump return. In each turn it calls
recv_frame once and then sends the envelopes of the turn: those for which the
call was dropped, or the answers to what it returned. An error ends the pump. -/
def recvFrames (session : K.Session) (buf : Bytes) (reads : List StreamRead) :
    List (List (Outgoing K)) → List (Except (ObfsError K.core) (Envelope K.core))
  | [] => []
  | outs :: turns =>
    match recvFrame K session buf reads with
    | (.returned (.ok env), session, buf, reads) =>
      .ok env :: recvFrames (sendAll K session outs) buf reads turns
    | (.returned (.error e), _, _, _) => [.error e]
    | (.dropped, session, buf, reads) => recvFrames (sendAll K session outs) buf reads turns
    | (.pending, _, _, _) => []

/-- The envelopes that successive send_frame calls have written, each with its
frame. In between the session may decrypt what its own peer sends. -/
inductive Writes : K.Session → List (Envelope K.core × Bytes) → Prop where
  | done {a : K.Session} : Writes a []
  | frame {a a' : K.Session} {out : Outgoing K} {wire : Bytes}
      {frames : List (Envelope K.core × Bytes)}
      (hs : sendFrame K a out = (.ok (), wire, a')) (hw : Writes a' frames) :
      Writes a ((out.env, wire) :: frames)
  | received {a : K.Session} {frames : List (Envelope K.core × Bytes)} (ciphertext : Bytes)
      (hw : Writes (K.decrypt a ciphertext).2 frames) : Writes a frames

variable {K}

theorem sendFrame_ok {a a' : K.Session} {out : Outgoing K} {wire : Bytes}
    (h : sendFrame K a out = (.ok (), wire, a')) :
    ∃ plaintext ciphertext, K.toVec out.env = .ok plaintext ∧
      K.encrypt a plaintext = (.ok ciphertext, a') ∧ K.frameOut ciphertext out.rng = .ok wire := by
  unfold sendFrame at h
  split at h
  · cases h
  rename_i plaintext hp
  split at h
  · cases h
  rename_i ciphertext session hc
  split at h
  · cases h
  rename_i w hf
  split at h <;> cases h
  exact ⟨plaintext, ciphertext, hp, hc, hf⟩

theorem sendFrame_session (b : K.Session) (out : Outgoing K) :
    (sendFrame K b out).2.2 = b ∨ ∃ pt, (sendFrame K b out).2.2 = (K.encrypt b pt).2 := by
  unfold sendFrame
  split
  · exact Or.inl rfl
  rename_i plaintext hp
  right
  refine ⟨plaintext, ?_⟩
  split
  · rename_i h
    rw [h]
  · rename_i h
    rw [h]
    split
    · rfl
    · split <;> rfl

theorem sendAll_inStep (S : K.InStep) {a b : K.Session} (h : S.Reads a b)
    (outs : List (Outgoing K)) : S.Reads a (sendAll K b outs) := by
  induction outs generalizing b with
  | nil => exact h
  | cons out outs ih =>
    apply ih
    obtain heq | ⟨pt, heq⟩ := sendFrame_session b out
    · rw [heq]
      exact h
    · rw [heq]
      exact S.encrypting pt h

theorem Writes.next (P : K.PrefixCorrect) (S : K.InStep) {a b : K.Session} (h : S.Reads a b)
    {env : Envelope K.core} {wire : Bytes} {frames : List (Envelope K.core × Bytes)}
    (hw : Writes K a ((env, wire) :: frames)) :
    ∃ plaintext ciphertext a' b', K.toVec env = .ok plaintext ∧
      IsFrame K.frameIn ciphertext wire ∧ K.decrypt b ciphertext = (.ok plaintext, b') ∧
      S.Reads a' b' ∧ Writes K a' frames := by
  generalize hfr : (env, wire) :: frames = all at hw
  induction hw with
  | done => cases hfr
  | @frame a a' out wire' frames' hs hw ih =>
    cases hfr
    obtain ⟨plaintext, ciphertext, hp, hc, hf⟩ := sendFrame_ok hs
    obtain ⟨b', hd, hb'⟩ := S.deliver h hc
    exact ⟨plaintext, ciphertext, a', b', hp, P.frame hf, hd, hb', hw⟩
  | received ciphertext hw ih => exact ih (S.decrypting ciphertext h) hfr

theorem recvFrame_record {b b' : K.Session} {env : Envelope K.core}
    {plaintext ciphertext buf buf' : Bytes} {reads reads' : List StreamRead}
    (ha : accumulate K.frameIn buf reads = (.record ciphertext, buf', reads'))
    (hd : K.decrypt b ciphertext = (.ok plaintext, b')) (hj : K.fromSlice plaintext = .ok env) :
    recvFrame K b buf reads = (.returned (.ok env), b', buf', reads') := by
  simp [recvFrame, ha, recordOrError, hd, hj]

theorem recvFrame_frame {b b' : K.Session} {env : Envelope K.core}
    {plaintext ciphertext wire rest buf : Bytes} {reads : List StreamRead} {n : Nat}
    (hf : IsFrame K.frameIn ciphertext wire) (hd : K.decrypt b ciphertext = (.ok plaintext, b'))
    (hj : K.fromSlice plaintext = .ok env) (h : Left buf reads (wire ++ rest) n) :
    ∃ buf' reads',
      (recvFrame K b buf reads = (.returned (.ok env), b', buf', reads') ∧
        Left buf' reads' rest n) ∨
      (recvFrame K b buf reads = (.dropped, b, buf', reads') ∧
        ∃ m, n = m + 1 ∧ Left buf' reads' (wire ++ rest) m) := by
  obtain ⟨buf', reads', ⟨ha, hl⟩ | ⟨ha, hl⟩⟩ := accumulate_frame hf buf reads h
  · exact ⟨buf', reads', Or.inl ⟨recvFrame_record ha hd hj, hl⟩⟩
  · refine ⟨buf', reads', Or.inr ⟨?_, hl⟩⟩
    simp [recvFrame, ha, recordOrError]

def endError {C : Core} (p : Bytes) : ObfsError C := if p = [] then .closed else .io eofMidFrame

theorem recvFrame_waits {b : K.Session} {p buf : Bytes} {reads : List StreamRead} {n : Nat}
    (hp : Waits K.frameIn p) (h : Left buf reads p n) :
    ∃ buf' reads',
      recvFrame K b buf reads = (.returned (.error (endError p)), b, p, reads') ∨
      (recvFrame K b buf reads = (.dropped, b, buf', reads') ∧
        ∃ m, n = m + 1 ∧ Left buf' reads' p m) := by
  obtain ⟨buf', reads', ha | ⟨ha, hl⟩⟩ := accumulate_waits hp buf reads h
  · refine ⟨buf', reads', Or.inl ?_⟩
    simp [recvFrame, ha, recordOrError, endError]
  · refine ⟨buf', reads', Or.inr ⟨?_, hl⟩⟩
    simp [recvFrame, ha, recordOrError]

/-- The run of a pump over what is left of the stream: the buffer and the unread
bytes together are the unread frames, cut off somewhere, and the session is in
step with their writer. -/
theorem recvFrames_eq (P : K.PrefixCorrect) (S : K.InStep) (turns : List (List (Outgoing K))) :
    ∀ {a b : K.Session} {frames : List (Envelope K.core × Bytes)} {cut n : Nat} {buf : Bytes}
      {reads : List StreamRead}, S.Reads a b → Writes K a frames →
      K.Decodes (frames.map Prod.fst) → Left buf reads ((wires frames).take cut) n →
      n + (complete cut frames).length < turns.length →
      recvFrames K b buf reads turns =
        (complete cut frames).map .ok ++ [.error (endError (remnant cut frames))] := by
  induction turns with
  | nil => intro a b frames cut n buf reads _ _ _ _ hlen; simp at hlen
  | cons outs turns ih =>
    intro a b frames cut n buf reads hab hw hj hl hlen
    simp only [List.length_cons] at hlen
    -- a dropped call leaves everything as it was, but for one turn and one drop
    have again : ∀ {buf' reads' m}, n = m + 1 →
        Left buf' reads' ((wires frames).take cut) m →
        recvFrame K b buf reads = (.dropped, b, buf', reads') →
        recvFrames K b buf reads (outs :: turns) =
          (complete cut frames).map .ok ++ [.error (endError (remnant cut frames))] := by
      intro buf' reads' m hn hl' hr
      rw [recvFrames, hr]
      exact ih (sendAll_inStep S hab outs) hw hj hl' (by omega)
    cases frames with
    | nil =>
      have hwait : Waits K.frameIn [] := by
        intro q hq
        rw [List.prefix_nil.mp hq]
        exact P.idle
      rw [wires_nil, List.take_nil] at hl again
      obtain ⟨buf', reads', hr | ⟨hr, m, hn, hl'⟩⟩ := recvFrame_waits (b := b) hwait hl
      · rw [recvFrames, hr]
        rfl
      · exact again hn hl' hr
    | cons f frames =>
      obtain ⟨env, wire⟩ := f
      obtain ⟨plaintext, ciphertext, a', b', hp, hf, hd, hab', hw'⟩ := hw.next P S hab
      have henv : K.fromSlice plaintext = .ok env := hj env (by simp) plaintext hp
      by_cases hcut : wire.length ≤ cut
      · rw [take_wires_of_le frames hcut] at hl again
        rw [complete, if_pos hcut] at hlen again ⊢
        rw [remnant, if_pos hcut] at again ⊢
        obtain ⟨buf', reads', ⟨hr, hl'⟩ | ⟨hr, m, hn, hl'⟩⟩ := recvFrame_frame hf hd henv hl
        · rw [recvFrames, hr]
          simp only [List.length_cons] at hlen
          simp only [List.map_cons, List.cons_append, List.cons.injEq, true_and]
          exact ih (sendAll_inStep S hab' outs) hw'
            (fun e he => hj e (List.mem_cons_of_mem _ he)) hl' (by omega)
        · exact again hn hl' hr
      · have hwait : Waits K.frameIn (wire.take cut) := by
          apply hf.waits (List.take_prefix cut wire)
          intro heq
          have := congrArg List.length heq
          simp only [List.length_take] at this
          omega
        rw [take_wires_of_lt frames hcut] at hl again
        rw [complete, if_neg hcut] at again ⊢
        rw [remnant, if_neg hcut] at again ⊢
        obtain ⟨buf', reads', hr | ⟨hr, m, hn, hl'⟩⟩ := recvFrame_waits (b := b) hwait hl
        · rw [recvFrames, hr]
          rfl
        · exact again hn hl' hr

end TcpStream
end Obfs

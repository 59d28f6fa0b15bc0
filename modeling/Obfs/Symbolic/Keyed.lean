import Obfs.Symbolic.Laws
import Obfs.Symbolic.Stream
import Obfs.Tcp.StreamEnd

/-! Symbolic sessions with keys. The secret of a session is the last message of
its handshake, which spells out both ephemerals and the static key of the
initiator, and every ciphertext begins with it. -/
namespace Obfs.Symbolic
open Framing

structure KeyedSession where
  secret : Bytes
  plain : Session

def KeyedSession.encrypt (s : KeyedSession) (plaintext : Bytes) :
    Except WireError Bytes × KeyedSession :=
  let (r, plain) := Symbolic.encrypt s.plain plaintext
  (r.map (s.secret ++ ·), { s with plain })

def KeyedSession.decrypt (s : KeyedSession) (ciphertext : Bytes) :
    Except WireError Bytes × KeyedSession :=
  if ciphertext.take s.secret.length = s.secret then
    let (r, plain) := Symbolic.decrypt s.plain (ciphertext.drop s.secret.length)
    (r, { s with plain })
  else (.error ⟨"decrypt"⟩, s)

def intoKeyedSession (hs : Hs) : Except WireError KeyedSession :=
  (intoSession hs).map fun plain => ⟨hs.transcript.getLastD [], plain⟩

abbrev keyedCrates : StreamCrates where
  toCrates := crates
  Session := KeyedSession
  intoSession := intoKeyedSession
  encrypt := KeyedSession.encrypt
  decrypt := KeyedSession.decrypt
  frameOut := fun record _ => frameOut record
  frameIn := frameIn
  preamble := fun _ => [0xA0, 0xA1, 0xA2]
  preambleSkip := 3

theorem intoKeyedSession_ok {hs : Hs} {ses : KeyedSession} (h : intoKeyedSession hs = .ok ses) :
    ses = ⟨hs.transcript.getLastD [], hs.initiator, 0, 0⟩ := by
  unfold intoKeyedSession intoSession at h
  split at h <;> cases h
  rfl

theorem decrypt_cases (s : Session) (ciphertext : Bytes) :
    (∃ e, decrypt s ciphertext = (.error e, s)) ∨
      ∃ pt, decrypt s ciphertext = (.ok pt, { s with opened := s.opened + 1 }) := by
  unfold decrypt
  split
  · exact Or.inr ⟨_, rfl⟩
  · exact Or.inl ⟨_, rfl⟩

theorem keyed_decrypt_cases (s : KeyedSession) (ciphertext : Bytes) :
    (∃ e, s.decrypt ciphertext = (.error e, s)) ∨ ∃ pt, s.decrypt ciphertext =
      (.ok pt, { s with plain := { s.plain with opened := s.plain.opened + 1 } }) := by
  unfold KeyedSession.decrypt
  split
  · rcases decrypt_cases s.plain (ciphertext.drop s.secret.length) with ⟨e, he⟩ | ⟨pt, hpt⟩
    · exact Or.inl ⟨e, by rw [he]⟩
    · exact Or.inr ⟨pt, by rw [hpt]⟩
  · exact Or.inl ⟨_, rfl⟩

def keyedCipher : keyedCrates.Cipher where
  secret := KeyedSession.secret
  initiator := fun s => s.plain.initiator
  sent := fun s => s.plain.sent
  opened := fun s => s.plain.opened
  fresh := by
    intro hs ses h
    cases intoKeyedSession_ok h
    exact ⟨rfl, rfl⟩
  encrypt_same := fun _ _ => ⟨rfl, rfl, rfl⟩
  encrypt_ok := by
    intro ses pt ct ses' h
    cases h
    rfl
  encrypt_error := by
    intro ses pt e ses' h
    cases h
  decrypt_same := by
    intro ses ct
    show KeyedSession.secret (ses.decrypt ct).2 = _ ∧ (ses.decrypt ct).2.plain.initiator = _ ∧
      (ses.decrypt ct).2.plain.sent = _
    rcases keyed_decrypt_cases ses ct with ⟨e, he⟩ | ⟨pt, hpt⟩
    · rw [he]
      exact ⟨rfl, rfl, rfl⟩
    · rw [hpt]
      exact ⟨rfl, rfl, rfl⟩
  decrypt_ok := by
    intro ses pt ct ses' h
    rcases keyed_decrypt_cases ses ct with ⟨e, he⟩ | ⟨pt, hpt⟩
    · cases he.symm.trans h
    · cases hpt.symm.trans h
      rfl
  decrypt_error := by
    intro ses ct e ses' h
    rcases keyed_decrypt_cases ses ct with ⟨e, he⟩ | ⟨pt, hpt⟩
    · cases he.symm.trans h
      rfl
    · cases hpt.symm.trans h

/-- The last message of an initiator names its ephemeral and its static key. -/
theorem initiatorDone_last {priv pub : Key} {e : UInt8} {hs : Hs}
    (h : keyedCrates.InitiatorDone priv pub e hs) :
    hs.initiator = true ∧ (hs.transcript.getLastD [])[35]? = some e ∧
      ((hs.transcript.getLastD []).drop 37).take 32 = priv.val := by
  obtain ⟨hs0, hs1, hs2, m1, m2, m3, p, hi, hw1, hr2, hw3⟩ := h
  cases hi
  cases hw1
  have hlen : List.length (1 :: pub.val ++ [e]) = 34 := by simp [pub.property]
  simp only [readMessage] at hr2
  split at hr2
  · rename_i hm
    cases hr2
    cases hw3
    rw [hlen] at hm
    obtain ⟨hm2, htake⟩ := hm
    refine ⟨rfl, ?_, ?_⟩
    · show (3 :: m2 ++ priv.val ++ [])[35]? = some e
      have he : m2[34]? = some e := by
        have hat : (m2.take 35)[34]? = some e := by
          rw [htake]
          simp [pub.property]
        rwa [List.getElem?_take_of_lt (by omega)] at hat
      rw [List.append_nil, List.cons_append, List.getElem?_cons_succ,
        List.getElem?_append_left (by omega), he]
    · show ((3 :: m2 ++ priv.val ++ []).drop 37).take 32 = priv.val
      simp [hm2, List.take_of_length_le (Nat.le_of_eq priv.property)]
  · cases hr2

theorem responderDone_last {priv : Key} {e : UInt8} {hs : Hs}
    (h : keyedCrates.ResponderDone priv e hs) :
    hs.initiator = false ∧ (hs.transcript.getLastD [])[36]? = some e ∧
      ∃ static, hs.remote = some static ∧
        static.val = ((hs.transcript.getLastD []).drop 37).take 32 := by
  obtain ⟨r, m3, p, hresp, hr⟩ := h
  obtain ⟨hi, m1, htr, hm1⟩ := responded_transcript hresp
  have hlen : List.length (2 :: m1 ++ [e]) = 36 := by simp [hm1]
  simp only [readMessage, hi, htr] at hr
  split at hr
  · rename_i hm
    cases hr
    rw [hlen] at hm
    refine ⟨rfl, ?_, _, rfl, ?_⟩
    · show m3[36]? = some e
      have hat : (m3.take 37)[36]? = some e := by
        rw [hm.2]
        simp [hm1]
      rwa [List.getElem?_take_of_lt (by omega)] at hat
    · show (m3.drop ((2 :: m1 ++ [e]).length + 1)).take 32 = (m3.drop 37).take 32
      rw [hlen]
  · cases hr

def xk : keyedCrates.Xk keyedCipher where
  pubKey := id
  initiator := by
    intro priv pub e hs ses hd hses
    cases intoKeyedSession_ok hses
    exact (initiatorDone_last hd).1
  responder := by
    intro priv e hs ses hd hses
    cases intoKeyedSession_ok hses
    exact (responderDone_last hd).1
  initiator_fresh := by
    intro priv pub e hs ses priv' pub' e' hs' ses' hd hd' hses hses' hsecret
    cases intoKeyedSession_ok hses
    cases intoKeyedSession_ok hses'
    have he := (initiatorDone_last hd).2.1
    rw [show hs.transcript.getLastD [] = hs'.transcript.getLastD [] from hsecret,
      (initiatorDone_last hd').2.1] at he
    exact (Option.some.inj he).symm
  responder_fresh := by
    intro priv e hs ses priv' e' hs' ses' hd hd' hses hses' hsecret
    cases intoKeyedSession_ok hses
    cases intoKeyedSession_ok hses'
    have he := (responderDone_last hd).2.1
    rw [show hs.transcript.getLastD [] = hs'.transcript.getLastD [] from hsecret,
      (responderDone_last hd').2.1] at he
    exact (Option.some.inj he).symm
  remote := by
    intro priv pub e hs ses priv' e' hs' ses' hd hd' hses hses' hsecret
    cases intoKeyedSession_ok hses
    cases intoKeyedSession_ok hses'
    obtain ⟨-, -, static, hremote, hstatic⟩ := responderDone_last hd'
    rw [← show hs.transcript.getLastD [] = hs'.transcript.getLastD [] from hsecret,
      (initiatorDone_last hd).2.2] at hstatic
    rw [show keyedCrates.remoteStatic hs' = hs'.remote from rfl, hremote, Subtype.ext hstatic]
    rfl

end Obfs.Symbolic

import Obfs.Symbolic
import Obfs.Tcp.Framing

/-! A symbolic instance of the TCP side of the dependencies: the Vanilla framing
[len u32 BE][record], a preamble of three bytes, and sessions whose ciphertext
spells out its sender and its place in the sequence. -/
namespace Obfs.Symbolic
open Framing

structure Session where
  initiator : Bool
  sent : Nat
  opened : Nat
  deriving DecidableEq

def side (initiator : Bool) : UInt8 := if initiator then 1 else 2

def encrypt (s : Session) (plaintext : Bytes) : Except WireError Bytes × Session :=
  (.ok (side s.initiator :: s.sent.toUInt8 :: plaintext), { s with sent := s.sent + 1 })

def decrypt (s : Session) (ciphertext : Bytes) : Except WireError Bytes × Session :=
  if ciphertext.take 2 = [side (!s.initiator), s.opened.toUInt8] then
    (.ok (ciphertext.drop 2), { s with opened := s.opened + 1 })
  else (.error ⟨"decrypt"⟩, s)

def intoSession (hs : Hs) : Except WireError Session :=
  if hs.transcript.length = 3 then .ok ⟨hs.initiator, 0, 0⟩ else .error ⟨"state"⟩

def u32Bytes (n : Nat) : Bytes := [n / 16777216, n / 65536, n / 256, n].map Nat.toUInt8

def frameOut (record : Bytes) : Except WireError Bytes :=
  if record.length < 4294967296 then .ok (u32Bytes record.length ++ record)
  else .error ⟨"record too large"⟩

def frameIn : Bytes → Parsed Bytes × Bytes
  | b0 :: b1 :: b2 :: b3 :: body =>
    let len := b0.toNat * 16777216 + b1.toNat * 65536 + b2.toNat * 256 + b3.toNat
    if len ≤ body.length then (.record (body.take len), body.drop len)
    else (.needMore, b0 :: b1 :: b2 :: b3 :: body)
  | buf => (.needMore, buf)

abbrev streamCrates : StreamCrates where
  toCrates := crates
  Session := Session
  intoSession := intoSession
  encrypt := encrypt
  decrypt := decrypt
  frameOut := fun record _ => frameOut record
  frameIn := frameIn
  preamble := fun _ => [0xA0, 0xA1, 0xA2]
  preambleSkip := 3

theorem frameIn_u32Bytes {n : Nat} (hn : n < 4294967296) (body : Bytes) :
    frameIn (u32Bytes n ++ body) = if n ≤ body.length then (.record (body.take n), body.drop n)
      else (.needMore, u32Bytes n ++ body) := by
  have hlen : (n / 16777216).toUInt8.toNat * 16777216 + (n / 65536).toUInt8.toNat * 65536 +
      (n / 256).toUInt8.toNat * 256 + n.toUInt8.toNat = n := by
    simp only [UInt8.toNat_ofNat']
    omega
  simp only [u32Bytes, List.map_cons, List.map_nil, List.cons_append, List.nil_append, frameIn,
    hlen]

theorem frameIn_short {buf : Bytes} (h : buf.length < 4) : frameIn buf = (.needMore, buf) := by
  match buf with
  | [] | [_] | [_, _] | [_, _, _] => rfl
  | _ :: _ :: _ :: _ :: _ =>
    simp only [List.length_cons] at h
    omega

theorem isFrame_frameOut {record wire : Bytes} (h : frameOut record = .ok wire) :
    IsFrame frameIn record wire := by
  unfold frameOut at h
  split at h
  · rename_i hlen
    cases h
    constructor
    · intro rest
      rw [List.append_assoc, frameIn_u32Bytes hlen]
      simp
    · intro p hp hne
      by_cases hshort : p.length < 4
      · exact frameIn_short hshort
      · -- the length field is complete, the body is not
        obtain ⟨body, rfl⟩ := List.prefix_of_prefix_length_le (List.prefix_append _ record) hp
          (Nat.le_of_not_lt hshort)
        rw [frameIn_u32Bytes hlen, if_neg]
        intro hle
        have hpre : body <+: record := (List.prefix_append_right_inj _).mp hp
        exact hne (by rw [hpre.eq_of_length_le hle])
  · cases h

theorem prefixCorrect : streamCrates.PrefixCorrect := ⟨isFrame_frameOut, rfl⟩

/-- The two ends of a session, in step from a to b. -/
def inStep : streamCrates.InStep where
  Reads := fun a b => b.initiator = !a.initiator ∧ b.opened = a.sent
  deliver := by
    rintro a a' b plaintext ciphertext ⟨hside, hseq⟩ he
    cases he
    refine ⟨{ b with opened := b.opened + 1 }, ?_, hside, ?_⟩
    · simp [decrypt, hside, hseq]
    · simp [hseq]
  encrypting := fun _ h => h
  decrypting := by
    intro a b ciphertext h
    simp only [decrypt]
    split <;> exact h

theorem decodes_nil : streamCrates.Decodes [] := by
  intro env henv
  cases henv

theorem decodes_cons {env : Envelope core} {envs : List (Envelope core)} {json : Bytes}
    (hto : toVec env = .ok json) (hfrom : fromSlice json = .ok env)
    (h : streamCrates.Decodes envs) : streamCrates.Decodes (env :: envs) := by
  intro x hx j hj
  cases hx with
  | head =>
    cases hto.symm.trans hj
    exact hfrom
  | tail _ hmem => exact h x hmem j hj

end Obfs.Symbolic

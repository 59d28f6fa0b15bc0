import Obfs.Crates

/-! Type-tagged datagrams, directional record keys, and the data channel that
seals and opens envelopes. -/
namespace Obfs.Udp

inductive DgramType where
  | hs1 | hs2 | hs3 | cookie | data
  deriving DecidableEq

def DgramType.fromByte (b : UInt8) : Option DgramType :=
  if b = 0x01 then some .hs1
  else if b = 0x02 then some .hs2
  else if b = 0x03 then some .hs3
  else if b = 0x04 then some .cookie
  else if b = 0x05 then some .data
  else none

def DgramType.asByte : DgramType → UInt8
  | .hs1 => 0x01
  | .hs2 => 0x02
  | .hs3 => 0x03
  | .cookie => 0x04
  | .data => 0x05

def encodeInner (ty : DgramType) (body : Bytes) : Bytes := ty.asByte :: body

def decodeInner : Bytes → Option (DgramType × Bytes)
  | [] => none
  | b :: body => (DgramType.fromByte b).map fun ty => (ty, body)

@[simp] theorem DgramType.fromByte_asByte (ty : DgramType) : fromByte ty.asByte = some ty := by
  cases ty <;> rfl

@[simp] theorem decodeInner_encodeInner (ty : DgramType) (body : Bytes) :
    decodeInner (encodeInner ty body) = some (ty, body) := by
  simp [encodeInner, decodeInner]

variable (K : Crates)

def c2sLabel : Bytes := utf8 "vaiexia-udp-c2s"
def s2cLabel : Bytes := utf8 "vaiexia-udp-s2c"

/-- The record keys of the two directions, client to server first. -/
def deriveRecordKeys (seed : Key) : Key × Key :=
  (K.blake2sMac seed c2sLabel, K.blake2sMac seed s2cLabel)

structure DataChannel where
  sealer : K.RecordSealer
  opener : K.RecordOpener

variable {K}

def DataChannel.new (sealer : K.RecordSealer) (opener : K.RecordOpener) : DataChannel K :=
  ⟨sealer, opener⟩

def DataChannel.sealEnvelope (ch : DataChannel K) (env : Envelope K.core) (rng : K.Rng) :
    Except (ObfsError K.core) Bytes × DataChannel K :=
  match K.toVec env with
  | .error e => (.error (.serde e), ch)
  | .ok json =>
    match K.sealRecord ch.sealer json [] with
    | (.error e, sealer) => (.error (.wire e), { ch with sealer := sealer })
    | (.ok record, sealer) =>
      (.ok (K.shapeOut (encodeInner .data record) rng), { ch with sealer := sealer })

def DataChannel.openDatagram (ch : DataChannel K) (datagram : Bytes) :
    Except (ObfsError K.core) (Option (Envelope K.core)) × DataChannel K :=
  match K.shapeIn datagram with
  | none => (.ok none, ch)
  | some inner =>
    match decodeInner inner with
    | none => (.ok none, ch)
    | some (ty, record) =>
      if ty ≠ .data then (.ok none, ch)
      else
        match K.openRecord ch.opener record [] with
        | (.error _, opener) => (.ok none, { ch with opener := opener })
        | (.ok plaintext, opener) =>
          match K.fromSlice plaintext with
          | .ok env => (.ok (some env), { ch with opener := opener })
          | .error _ => (.ok none, { ch with opener := opener })

inductive DataChannel.Evolves (ch : DataChannel K) : DataChannel K → Prop where
  | refl : Evolves ch ch
  | sealed {c : DataChannel K} (env : Envelope K.core) (rng : K.Rng) :
      Evolves ch c → Evolves ch (c.sealEnvelope env rng).2
  | opened {c : DataChannel K} (datagram : Bytes) :
      Evolves ch c → Evolves ch (c.openDatagram datagram).2

theorem DataChannel.Evolves.trans {a b c : DataChannel K} (h1 : a.Evolves b) (h2 : b.Evolves c) :
    a.Evolves c := by
  induction h2 with
  | refl => exact h1
  | sealed env rng _ ih => exact ih.sealed env rng
  | opened datagram _ ih => exact ih.opened datagram

@[simp] theorem DataChannel.openDatagram_sealer (ch : DataChannel K) (datagram : Bytes) :
    (ch.openDatagram datagram).2.sealer = ch.sealer := by
  unfold openDatagram
  repeat' split
  all_goals rfl

@[simp] theorem DataChannel.sealEnvelope_opener (ch : DataChannel K) (env : Envelope K.core)
    (rng : K.Rng) : (ch.sealEnvelope env rng).2.opener = ch.opener := by
  unfold sealEnvelope
  repeat' split
  all_goals rfl

/- The record that seals an envelope, with its plaintext. -/
def recordOf (σ : K.RecordSealer) (env : Envelope K.core) : Option (Bytes × Bytes) :=
  match K.toVec env with
  | .error _ => none
  | .ok json =>
    match (K.sealRecord σ json []).1 with
    | .error _ => none
    | .ok record => some (record, json)

theorem recordOf_json {σ : K.RecordSealer} {env : Envelope K.core} {record json : Bytes}
    (h : recordOf σ env = some (record, json)) : K.toVec env = .ok json := by
  unfold recordOf at h
  split at h
  · cases h
  · rename_i json' hj
    split at h
    · cases h
    · cases h
      exact hj

/- The record in a datagram, with the plaintext that an opener finds in it. -/
def openedBy (o : K.RecordOpener) (datagram : Bytes) : Option (Bytes × Bytes) :=
  match K.shapeIn datagram with
  | none => none
  | some inner =>
    match decodeInner inner with
    | some (.data, record) =>
      match (K.openRecord o record []).1 with
      | .error _ => none
      | .ok plaintext => some (record, plaintext)
    | _ => none

theorem DataChannel.openDatagram_ok {ch : DataChannel K} {datagram : Bytes}
    {env : Envelope K.core} (h : (ch.openDatagram datagram).1 = .ok (some env)) :
    ∃ record plaintext, openedBy ch.opener datagram = some (record, plaintext) ∧
      (K.openRecord ch.opener record []).1 = .ok plaintext ∧ K.fromSlice plaintext = .ok env ∧
      (ch.openDatagram datagram).2.opener = (K.openRecord ch.opener record []).2 := by
  unfold openDatagram at h ⊢
  split at h
  · cases h
  · rename_i inner hi
    split at h
    · cases h
    · rename_i ty record hd
      split at h
      · cases h
      · rename_i hty
        rw [not_not] at hty
        subst hty
        split at h
        · cases h
        · rename_i plaintext o' ho
          split at h
          · rename_i env' he
            cases h
            refine ⟨record, plaintext, ?_, by rw [ho], he, ?_⟩
            · simp only [openedBy, hi, hd, ho]
            · simp only [ne_eq, not_true_eq_false, if_false, ho]
          · cases h

theorem DataChannel.sealEnvelope_ok {ch : DataChannel K} {env : Envelope K.core} {rng : K.Rng}
    {wire : Bytes} (h : (ch.sealEnvelope env rng).1 = .ok wire) :
    ∃ record json, recordOf ch.sealer env = some (record, json) ∧ K.toVec env = .ok json ∧
      (K.sealRecord ch.sealer json []).1 = .ok record ∧
      (ch.sealEnvelope env rng).2.sealer = (K.sealRecord ch.sealer json []).2 := by
  unfold sealEnvelope at h ⊢
  split at h
  · cases h
  · rename_i json hj
    split at h
    · cases h
    · rename_i record σ hσ
      refine ⟨record, json, ?_, hj, by rw [hσ], ?_⟩
      · simp only [recordOf, hj, hσ]
      · simp only [hσ]

theorem DataChannel.sealEnvelope_sealer (ch : DataChannel K) (env : Envelope K.core)
    (rng : K.Rng) : (ch.sealEnvelope env rng).2.sealer = ch.sealer ∨
      ∃ json, (ch.sealEnvelope env rng).2.sealer = (K.sealRecord ch.sealer json []).2 := by
  unfold sealEnvelope
  split
  · exact Or.inl rfl
  · rename_i json hj
    refine Or.inr ⟨json, ?_⟩
    split <;> rename_i hσ <;> rw [hσ]

theorem DataChannel.openDatagram_opener (ch : DataChannel K) (datagram : Bytes) :
    (ch.openDatagram datagram).2.opener = ch.opener ∨
      ∃ record, (ch.openDatagram datagram).2.opener = (K.openRecord ch.opener record []).2 := by
  unfold openDatagram
  split
  · exact Or.inl rfl
  · split
    · exact Or.inl rfl
    · rename_i ty record hd
      split
      · exact Or.inl rfl
      · refine Or.inr ⟨record, ?_⟩
        split
        · rename_i ho
          rw [ho]
        · rename_i ho
          split <;> rw [ho]

theorem DataChannel.sealEnvelope_counter (S : K.Sealing) {ch : DataChannel K}
    {env : Envelope K.core} {rng : K.Rng} {wire : Bytes}
    (h : (ch.sealEnvelope env rng).1 = .ok wire) :
    S.counter (ch.sealEnvelope env rng).2.sealer = S.counter ch.sealer + 1 := by
  obtain ⟨record, json, -, -, hs, hσ⟩ := sealEnvelope_ok h
  rw [hσ]
  exact S.counter_ok hs

/-- Along its life a channel keeps its keys, its counter only grows, and its
opener forgets no record. -/
theorem DataChannel.Evolves.sealer_key (S : K.Sealing) {a b : DataChannel K} (h : a.Evolves b) :
    S.key b.sealer = S.key a.sealer := by
  induction h with
  | refl => rfl
  | @sealed c env rng _ ih =>
    rcases c.sealEnvelope_sealer env rng with he | ⟨json, he⟩
    · rw [he, ih]
    · rw [he, S.key_seal, ih]
  | opened datagram _ ih => rw [openDatagram_sealer, ih]

theorem DataChannel.Evolves.counter_le (S : K.Sealing) {a b : DataChannel K} (h : a.Evolves b) :
    S.counter a.sealer ≤ S.counter b.sealer := by
  induction h with
  | refl => exact Nat.le_refl _
  | @sealed c env rng _ ih =>
    rcases c.sealEnvelope_sealer env rng with he | ⟨json, he⟩
    · rw [he]
      exact ih
    · rw [he]
      exact Nat.le_trans ih (S.counter_le _ _ _)
  | opened datagram _ ih =>
    rw [openDatagram_sealer]
    exact ih

theorem DataChannel.Evolves.opener_key (O : K.Opening) {a b : DataChannel K} (h : a.Evolves b) :
    O.key b.opener = O.key a.opener := by
  induction h with
  | refl => rfl
  | sealed env rng _ ih => rw [sealEnvelope_opener, ih]
  | @opened c datagram _ ih =>
    rcases c.openDatagram_opener datagram with he | ⟨record, he⟩
    · rw [he, ih]
    · rw [he, O.key_open, ih]

theorem DataChannel.Evolves.seen (O : K.Opening) {a b : DataChannel K} (h : a.Evolves b)
    {record : Bytes} (hs : O.seen a.opener record) : O.seen b.opener record := by
  induction h with
  | refl => exact hs
  | sealed env rng _ ih =>
    rw [sealEnvelope_opener]
    exact ih
  | @opened c datagram _ ih =>
    rcases c.openDatagram_opener datagram with he | ⟨r, he⟩
    · rw [he]
      exact ih
    · rw [he]
      exact O.keep ih

end Obfs.Udp

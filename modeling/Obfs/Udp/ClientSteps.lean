import Obfs.Udp.HandshakeClient
import Obfs.Lib.Trace

/-! What one wake-up of the client can do, and what its states carry: an
initiator for the attempt, and a channel keyed by the attempt's seed. -/
namespace Obfs.Udp
open Trace
variable {K : Crates} (cfg : ClientCfg)

def clientChannel (K : Crates) (seed : Key) : DataChannel K :=
  .new (K.newSealer (deriveRecordKeys K seed).1) (K.newOpener (deriveRecordKeys K seed).2)

abbrev ClientStep (K : Crates) := Step (ClientState K) (ClientEvent K) (ClientEffect K)

abbrev ClientRun (cfg : ClientCfg) (h : List (ClientStep K)) (s : ClientState K) : Prop :=
  Run (clientNext cfg) .idle h s

/- A finished client neither fails nor begins again. -/
def ClientState.isConnected : ClientState K → Bool
  | .connected _ _ => true
  | _ => false

inductive ClientCase (s : ClientState K) :
    ClientEvent K → ClientState K → List (ClientEffect K) → Prop where
  | ignored {e : ClientEvent K} : ClientCase s e s []
  | failed {e : ClientEvent K} {err : ObfsError K.core} (hc : s.isConnected = false) :
      ClientCase s e (.failed err) []
  | unbegun {e : ClientEvent K} {err : ObfsError K.core} {seed : Key}
      (hc : s.isConnected = false) : ClientCase s e (.failed err) [.drew seed]
  | begun {e : ClientEvent K} {attempt : Nat} {seed : Key} {entropy : K.Entropy}
      {hs0 hs : K.Handshake} {msg1 wire : Bytes} {deadline : Instant}
      (hc : s.isConnected = false)
      (hi : K.initiator cfg.keypair.priv cfg.serverPub entropy = .ok hs0)
      (hw : K.writeMessage hs0 [] = (.ok msg1, hs)) :
      ClientCase s e (.awaitHs2 attempt 0 seed hs msg1 none deadline) [.drew seed, .sendTo wire]
  | resent {e : ClientEvent K} {attempt tries : Nat} {seed : Key} {hs : K.Handshake}
      {msg1 wire : Bytes} {cookie cookie' : Option Cookie} {deadline deadline' : Instant}
      (hst : s = .awaitHs2 attempt tries seed hs msg1 cookie deadline) :
      ClientCase s e (.awaitHs2 attempt (tries + 1) seed hs msg1 cookie' deadline') [.sendTo wire]
  | answered {data : Bytes} {src : SocketAddr} {w : Wake K} {attempt tries : Nat} {seed : Key}
      {hs hs' hs'' : K.Handshake} {msg1 msg2 msg3 p : Bytes} {cookie : Option Cookie}
      {deadline : Instant} (hst : s = .awaitHs2 attempt tries seed hs msg1 cookie deadline)
      (hu : unshapeHs K data = some (.hs2, msg2)) (hr : K.readMessage hs msg2 = (.ok p, hs'))
      (hw : K.writeMessage hs' seed.val = (.ok msg3, hs'')) :
      ClientCase s (.datagram data src w)
        (.awaitReady attempt 0 seed (clientChannel K seed) (shapeHs K .hs3 msg3 w.rng)
          (w.now + READY_WAIT_TIMEOUT))
        [.wroteMsg3 hs' msg3 seed, .sendTo (shapeHs K .hs3 msg3 w.rng)]
  | unsent {e : ClientEvent K} {attempt tries : Nat} {seed : Key}
      {hs hs' hs'' : K.Handshake} {msg1 msg2 msg3 p : Bytes} {cookie : Option Cookie}
      {deadline : Instant} {err : ObfsError K.core}
      (hst : s = .awaitHs2 attempt tries seed hs msg1 cookie deadline)
      (hr : K.readMessage hs msg2 = (.ok p, hs'))
      (hw : K.writeMessage hs' seed.val = (.ok msg3, hs'')) :
      ClientCase s e (.failed err) [.wroteMsg3 hs' msg3 seed]
  | resent3 {e : ClientEvent K} {attempt resends : Nat} {seed : Key} {channel : DataChannel K}
      {wire3 : Bytes} {deadline deadline' : Instant} {out : List (ClientEffect K)}
      (hst : s = .awaitReady attempt resends seed channel wire3 deadline)
      (ho : out = [] ∨ out = [.sendTo wire3]) :
      ClientCase s e (.awaitReady attempt (resends + 1) seed channel wire3 deadline') out
  | unready {data : Bytes} {src : SocketAddr} {w : Wake K} {attempt resends : Nat} {seed : Key}
      {channel : DataChannel K} {wire3 : Bytes} {deadline : Instant}
      (hst : s = .awaitReady attempt resends seed channel wire3 deadline) :
      ClientCase s (.datagram data src w)
        (.awaitReady attempt resends seed (channel.openDatagram data).2 wire3 deadline) []
  | ready {data : Bytes} {src : SocketAddr} {w : Wake K} {attempt resends : Nat} {seed : Key}
      {channel : DataChannel K} {wire3 : Bytes} {deadline : Instant} {env : Envelope K.core}
      (hst : s = .awaitReady attempt resends seed channel wire3 deadline)
      (ho : (channel.openDatagram data).1 = .ok (some env)) :
      ClientCase s (.datagram data src w) (.connected seed (channel.openDatagram data).2)
        [.returned seed (channel.openDatagram data).2]
  | sealed {env : Envelope K.core} {rng : K.Rng} {seed : Key} {channel : DataChannel K}
      {wire : Bytes} (hst : s = .connected seed channel)
      (hw : (channel.sealEnvelope env rng).1 = .ok wire) :
      ClientCase s (.sealEnvelope env rng) (.connected seed (channel.sealEnvelope env rng).2)
        [.sealed channel.sealer env wire]
  | unsealed {env : Envelope K.core} {rng : K.Rng} {seed : Key} {channel : DataChannel K}
      (hst : s = .connected seed channel) :
      ClientCase s (.sealEnvelope env rng) (.connected seed (channel.sealEnvelope env rng).2) []
  | opened {data : Bytes} {seed : Key} {channel : DataChannel K} {out : List (ClientEffect K)}
      (hst : s = .connected seed channel)
      (ho : out = [] ∨ ∃ env, out = [.received env]) :
      ClientCase s (.openDatagram data) (.connected seed (channel.openDatagram data).2) out

theorem beginAttempt_case {s : ClientState K} {e : ClientEvent K} (attempt : Nat) (w : Wake K)
    (hc : s.isConnected = false) :
    ClientCase cfg s e (beginAttempt cfg attempt w).1 (beginAttempt cfg attempt w).2 := by
  unfold beginAttempt
  split
  · simp only [initiateAttempt]
    split
    · exact .unbegun hc
    · rename_i hs0 hi
      split
      · exact .unbegun hc
      · rename_i msg1 hs hw
        unfold sendHs1
        split
        · exact .unbegun hc
        · exact .begun hc hi hw
  · exact .failed hc

theorem retryHs1_case {s : ClientState K} {e : ClientEvent K} (w : Wake K) {attempt tries : Nat}
    {seed : Key} {hs : K.Handshake} {msg1 : Bytes} {cookie : Option Cookie} {deadline : Instant}
    (hst : s = .awaitHs2 attempt tries seed hs msg1 cookie deadline) (cookie' : Option Cookie) :
    ClientCase cfg s e (retryHs1 cfg w attempt tries seed hs msg1 cookie').1
      (retryHs1 cfg w attempt tries seed hs msg1 cookie').2 := by
  unfold retryHs1
  split
  · unfold sendHs1
    split
    · exact .failed (by rw [hst]; rfl)
    · exact .resent hst
  · exact beginAttempt_case cfg _ w (by rw [hst]; rfl)

theorem onHs2_case {s : ClientState K} {data : Bytes} {src : SocketAddr} {w : Wake K}
    {attempt tries : Nat} {seed : Key} {hs : K.Handshake} {msg1 msg2 : Bytes}
    {cookie : Option Cookie} {deadline : Instant}
    (hst : s = .awaitHs2 attempt tries seed hs msg1 cookie deadline)
    (hu : unshapeHs K data = some (.hs2, msg2)) :
    ClientCase cfg s (.datagram data src w) (onHs2 cfg w attempt seed hs msg2).1
      (onHs2 cfg w attempt seed hs msg2).2 := by
  have hc : s.isConnected = false := by rw [hst]; rfl
  unfold onHs2
  split
  · exact beginAttempt_case cfg _ w hc
  · rename_i p hs' hr
    split
    · exact beginAttempt_case cfg _ w hc
    · rename_i msg3 hs'' hw
      simp only
      split
      · exact .unsent hst hr hw
      · exact .answered hst hu hr hw

theorem resendHs3_case {s : ClientState K} {e : ClientEvent K} (w : Wake K)
    {attempt resends : Nat} {seed : Key} {channel : DataChannel K} {wire3 : Bytes}
    {deadline : Instant} (hst : s = .awaitReady attempt resends seed channel wire3 deadline) :
    ClientCase cfg s e (resendHs3 cfg w attempt resends seed channel wire3).1
      (resendHs3 cfg w attempt resends seed channel wire3).2 := by
  unfold resendHs3
  split
  · refine .resent3 hst ?_
    split
    · exact Or.inr rfl
    · exact Or.inl rfl
  · exact beginAttempt_case cfg _ w (by rw [hst]; rfl)

theorem onDatagram_case (s : ClientState K) (data : Bytes) (src : SocketAddr) (w : Wake K) :
    ClientCase cfg s (.datagram data src w) (onDatagram cfg s data w).1
      (onDatagram cfg s data w).2 := by
  unfold onDatagram
  split
  · split
    · rename_i body hu
      exact onHs2_case cfg rfl hu
    · split
      · exact retryHs1_case cfg w rfl _
      · exact retryHs1_case cfg w rfl _
    · exact retryHs1_case cfg w rfl _
  · rename_i attempt resends seed channel wire3 deadline
    split
    · rename_i env channel' ho
      have h1 : (channel.openDatagram data).1 = .ok (some env) := by rw [ho]
      have h2 : (channel.openDatagram data).2 = channel' := by rw [ho]
      rw [← h2]
      exact .ready rfl h1
    · rename_i res channel' hn ho
      have h2 : (channel.openDatagram data).2 = channel' := by rw [ho]
      rw [← h2]
      exact .unready rfl
  · exact .ignored

theorem clientNext_case {s s' : ClientState K} {e : ClientEvent K} {o : List (ClientEffect K)}
    (h : clientNext cfg s e = some (s', o)) : ClientCase cfg s e s' o := by
  have hpair {p : ClientState K × List (ClientEffect K)} (hp : some p = some (s', o))
      (hc : ClientCase cfg s e p.1 p.2) : ClientCase cfg s e s' o := by
    rwa [Option.some.inj hp] at hc
  cases e with
  | call w =>
    simp only [clientNext] at h
    split at h
    · exact hpair h (beginAttempt_case cfg _ w rfl)
    · cases h
  | datagram data src w =>
    simp only [clientNext] at h
    split at h
    all_goals first
      | cases h
      | split at h
        · exact hpair h (onDatagram_case cfg _ data src w)
        · cases h
          exact .ignored
  | recvError err w =>
    simp only [clientNext] at h
    split at h
    · cases h
      exact .failed rfl
    · exact hpair h (resendHs3_case cfg w rfl)
    · cases h
  | timer w =>
    simp only [clientNext] at h
    split at h
    · split at h
      · exact hpair h (retryHs1_case cfg w rfl _)
      · cases h
    · split at h
      · exact hpair h (resendHs3_case cfg w rfl)
      · cases h
    · cases h
  | sealEnvelope env rng =>
    simp only [clientNext] at h
    split at h
    · rename_i seed channel
      split at h
      · rename_i wire channel' hw
        have h1 : (channel.sealEnvelope env rng).1 = .ok wire := by rw [hw]
        have h2 : (channel.sealEnvelope env rng).2 = channel' := by rw [hw]
        cases h
        rw [← h2]
        exact .sealed rfl h1
      · rename_i err channel' hw
        have h2 : (channel.sealEnvelope env rng).2 = channel' := by rw [hw]
        cases h
        rw [← h2]
        exact .unsealed rfl
    · cases h
  | openDatagram data =>
    simp only [clientNext] at h
    split at h
    · rename_i seed channel
      split at h
      · rename_i env channel' ho
        have h2 : (channel.openDatagram data).2 = channel' := by rw [ho]
        cases h
        rw [← h2]
        exact .opened rfl (Or.inr ⟨env, rfl⟩)
      · rename_i res channel' hn ho
        have h2 : (channel.openDatagram data).2 = channel' := by rw [ho]
        cases h
        rw [← h2]
        exact .opened rfl (Or.inl rfl)
    · cases h

def ClientState.hs2Seed : ClientState K → Option Key
  | .awaitHs2 _ _ seed _ _ _ _ => some seed
  | _ => none

def ClientState.readySeed : ClientState K → Option Key
  | .awaitReady _ _ seed _ _ _ => some seed
  | _ => none

/- The channel of the client with its seed, once msg3 is written. -/
def ClientState.keyed : ClientState K → Option (Key × DataChannel K)
  | .awaitReady _ _ seed channel _ _ => some (seed, channel)
  | .connected seed channel => some (seed, channel)
  | _ => none

variable {cfg} {s s' : ClientState K} {e : ClientEvent K} {o : List (ClientEffect K)}

theorem hs2_slot (h : clientNext cfg s e = some (s', o)) :
    (∃ seed, ClientEffect.drew seed ∈ o) ∨ s'.hs2Seed = s.hs2Seed ∨ s'.hs2Seed = none := by
  cases clientNext_case cfg h with
  | ignored => exact Or.inr (Or.inl rfl)
  | begun hc hi hw => exact Or.inl ⟨_, List.mem_cons_self⟩
  | resent hst => exact Or.inr (Or.inl (by rw [hst]; rfl))
  | _ => exact Or.inr (Or.inr rfl)

theorem drew_inv (h : clientNext cfg s e = some (s', o)) {seed : Key}
    (hm : ClientEffect.drew seed ∈ o) : s'.hs2Seed = some seed ∨ s'.hs2Seed = none := by
  cases clientNext_case cfg h with
  | begun hc hi hw =>
    simp only [List.mem_cons, ClientEffect.drew.injEq, reduceCtorEq, List.not_mem_nil,
      or_false] at hm
    exact Or.inl (by rw [hm]; rfl)
  | resent3 hst ho => rcases ho with rfl | rfl <;> simp at hm
  | opened hst ho => exact Or.inr rfl
  | unbegun hc => exact Or.inr rfl
  | _ => simp at hm

/-- Msg3 is written once per attempt: by the initiator that waited for msg2,
with the seed of the attempt as its payload. -/
theorem wroteMsg3_inv (h : clientNext cfg s e = some (s', o)) {hs : K.Handshake} {msg3 : Bytes}
    {seed : Key} (hm : ClientEffect.wroteMsg3 hs msg3 seed ∈ o) :
    (∃ attempt tries hs0 msg1 msg2 cookie deadline p,
      s = .awaitHs2 attempt tries seed hs0 msg1 cookie deadline ∧
      K.readMessage hs0 msg2 = (.ok p, hs)) ∧
    (∃ hs', K.writeMessage hs seed.val = (.ok msg3, hs')) ∧ s'.hs2Seed = none ∧
    (∀ seed', s'.readySeed = some seed' → seed' = seed) ∧
    ∀ hs' msg3' seed', ClientEffect.wroteMsg3 hs' msg3' seed' ∈ o →
      hs' = hs ∧ msg3' = msg3 ∧ seed' = seed := by
  cases clientNext_case cfg h with
  | answered hst hu hr hw =>
    simp only [List.mem_cons, ClientEffect.wroteMsg3.injEq, reduceCtorEq, List.not_mem_nil,
      or_false] at hm
    obtain ⟨rfl, rfl, rfl⟩ := hm
    refine ⟨⟨_, _, _, _, _, _, _, _, hst, hr⟩, ⟨_, hw⟩, rfl, ?_, ?_⟩
    · intro seed' hs
      exact (Option.some.inj hs).symm
    · intro hs' msg3' seed' hm'
      simpa using hm'
  | unsent hst hr hw =>
    simp only [List.mem_cons, ClientEffect.wroteMsg3.injEq, List.not_mem_nil, or_false] at hm
    obtain ⟨rfl, rfl, rfl⟩ := hm
    refine ⟨⟨_, _, _, _, _, _, _, _, hst, hr⟩, ⟨_, hw⟩, rfl, ?_, ?_⟩
    · intro seed' hs
      cases hs
    · intro hs' msg3' seed' hm'
      simpa using hm'
  | resent3 hst ho => rcases ho with rfl | rfl <;> simp at hm
  | opened hst ho => rcases ho with rfl | ⟨env, rfl⟩ <;> simp at hm
  | _ => simp at hm

theorem ready_slot (h : clientNext cfg s e = some (s', o)) :
    (∃ hs msg3 seed, ClientEffect.wroteMsg3 hs msg3 seed ∈ o) ∨
      s'.readySeed = s.readySeed ∨ s'.readySeed = none := by
  cases clientNext_case cfg h with
  | ignored => exact Or.inr (Or.inl rfl)
  | answered hst hu hr hw => exact Or.inl ⟨_, _, _, List.mem_cons_self⟩
  | resent3 hst ho => exact Or.inr (Or.inl (by rw [hst]; rfl))
  | unready hst => exact Or.inr (Or.inl (by rw [hst]; rfl))
  | _ => exact Or.inr (Or.inr rfl)

theorem keyed_step (h : clientNext cfg s e = some (s', o)) {seed : Key} {ch' : DataChannel K}
    (hk : s'.keyed = some (seed, ch')) :
    (∃ ch, s.keyed = some (seed, ch) ∧ ch.Evolves ch') ∨
      (ch' = clientChannel K seed ∧ ∃ hs msg3, ClientEffect.wroteMsg3 hs msg3 seed ∈ o) := by
  cases clientNext_case cfg h with
  | ignored => exact Or.inl ⟨ch', hk, .refl⟩
  | answered hst hu hr hw =>
    cases hk
    exact Or.inr ⟨rfl, _, _, List.mem_cons_self⟩
  | resent3 hst ho =>
    cases hk
    exact Or.inl ⟨_, by rw [hst]; rfl, .refl⟩
  | unready hst | ready hst ho | opened hst ho =>
    cases hk
    exact Or.inl ⟨_, by rw [hst]; rfl, .opened _ .refl⟩
  | sealed hst hw | unsealed hst =>
    cases hk
    exact Or.inl ⟨_, by rw [hst]; rfl, .sealed _ _ .refl⟩
  | _ => cases hk

theorem keyed_origin {h : List (ClientStep K)} (hr : ClientRun cfg h s) {seed : Key}
    {ch : DataChannel K} (hk : s.keyed = some (seed, ch)) :
    (clientChannel K seed).Evolves ch ∧
      ∃ i t hs msg3, At h i t ∧ ClientEffect.wroteMsg3 hs msg3 seed ∈ t.out := by
  induction hr generalizing ch with
  | nil => cases hk
  | @snoc h s s' e o hr hn ih =>
    rcases keyed_step hn hk with ⟨ch0, hk0, hev0⟩ | ⟨rfl, hs, msg3, hm⟩
    · obtain ⟨hev, i, t, hs, msg3, ht, hm⟩ := ih hk0
      exact ⟨hev.trans hev0, i, t, hs, msg3, ht.append _, hm⟩
    · exact ⟨.refl, h.length, _, hs, msg3, at_last _, hm⟩

theorem connected_step {seed : Key} {ch : DataChannel K}
    (h : clientNext cfg (.connected seed ch) e = some (s', o)) :
    ∃ ch', s' = .connected seed ch' ∧ ch.Evolves ch' := by
  cases clientNext_case cfg h with
  | ignored => exact ⟨ch, rfl, .refl⟩
  | sealed hst hw | unsealed hst =>
    cases hst
    exact ⟨_, rfl, .sealed _ _ .refl⟩
  | opened hst ho =>
    cases hst
    exact ⟨_, rfl, .opened _ .refl⟩
  | failed hc | unbegun hc | begun hc hi hw => cases hc
  | resent hst | answered hst | unsent hst | resent3 hst | unready hst | ready hst => cases hst

theorem clientSealed_inv (h : clientNext cfg s e = some (s', o)) {σ : K.RecordSealer}
    {env : Envelope K.core} {wire : Bytes} (hm : ClientEffect.sealed σ env wire ∈ o) :
    ∃ seed ch rng, s = .connected seed ch ∧ σ = ch.sealer ∧
      (ch.sealEnvelope env rng).1 = .ok wire ∧ s' = .connected seed (ch.sealEnvelope env rng).2 ∧
      o = [.sealed σ env wire] := by
  cases clientNext_case cfg h with
  | sealed hst hw =>
    rw [List.mem_singleton] at hm
    cases hm
    exact ⟨_, _, _, hst, rfl, hw, rfl, rfl⟩
  | resent3 hst ho => rcases ho with rfl | rfl <;> simp at hm
  | opened hst ho => rcases ho with rfl | ⟨env, rfl⟩ <;> simp at hm
  | _ => simp at hm

theorem returned_inv (h : clientNext cfg s e = some (s', o)) {seed : Key} {ch' : DataChannel K}
    (hm : ClientEffect.returned seed ch' ∈ o) :
    ∃ data src w attempt resends ch wire3 deadline env, e = .datagram data src w ∧
      s = .awaitReady attempt resends seed ch wire3 deadline ∧
      (ch.openDatagram data).1 = .ok (some env) ∧ ch' = (ch.openDatagram data).2 := by
  cases clientNext_case cfg h with
  | ready hst ho =>
    rw [List.mem_singleton] at hm
    cases hm
    exact ⟨_, _, _, _, _, _, _, _, _, rfl, hst, ho, rfl⟩
  | resent3 hst ho => rcases ho with rfl | rfl <;> simp at hm
  | opened hst ho => rcases ho with rfl | ⟨env, rfl⟩ <;> simp at hm
  | _ => simp at hm

def Initiating (cfg : ClientCfg) (hs : K.Handshake) : Prop :=
  ∃ entropy hs0 msg1, K.initiator cfg.keypair.priv cfg.serverPub entropy = .ok hs0 ∧
    K.writeMessage hs0 [] = (.ok msg1, hs)

def ClientState.Sound (cfg : ClientCfg) : ClientState K → Prop
  | .awaitHs2 _ _ _ hs _ _ _ => Initiating cfg hs
  | _ => True

theorem sound_step (hs : s.Sound cfg) (h : clientNext cfg s e = some (s', o)) : s'.Sound cfg := by
  cases clientNext_case cfg h with
  | ignored => exact hs
  | begun hc hi hw => exact ⟨_, _, _, hi, hw⟩
  | resent hst =>
    subst hst
    exact hs
  | _ => trivial

theorem sound_run {h : List (ClientStep K)} (hr : ClientRun cfg h s) : s.Sound cfg := by
  have h0 : (ClientState.idle : ClientState K).Sound cfg := trivial
  exact hr.invariant h0 fun _ _ _ _ => sound_step

theorem wroteMsg3_initiated (hs : s.Sound cfg) (h : clientNext cfg s e = some (s', o))
    {hs' : K.Handshake} {msg3 : Bytes} {seed : Key}
    (hm : ClientEffect.wroteMsg3 hs' msg3 seed ∈ o) :
    K.Initiated cfg.keypair.priv cfg.serverPub hs' := by
  obtain ⟨⟨_, _, hs0, _, msg2, _, _, p, rfl, hr⟩, -⟩ := wroteMsg3_inv h hm
  obtain ⟨entropy, hs00, msg1, hi, hw⟩ := hs
  exact ⟨entropy, hs00, hs0, msg1, msg2, p, hi, hw, hr⟩

end Obfs.Udp

import Obfs.Udp.Provenance
import Obfs.Symbolic

/-! The peer budget. The Hs1 arm tests MAX_PEERS, the Hs3 arm adds the peers:
when a run stays within the budget, and what a full peer map does to a new
source once all its sessions are abandoned. -/
namespace Obfs.Udp
open Trace
variable {K : Crates} {cfg : ServerCfg K}

/-- Step t completes the handshake of a source without a peer while the peers
that are not idle already use up the budget. -/
def OverflowsBudget (cfg : ServerCfg K) (t : ServerStep K) : Prop :=
  ∃ inp body ph ch key, t.event = .recv inp ∧ unshapeHs K inp.dgram = some (.hs3, body) ∧
    t.pre.pending.lookup inp.src = some ph ∧
    (completeHandshakeMsg3 K ph.responder body).1 = .ok (ch, key) ∧ cfg.gate key = .ok () ∧
    inp.src ∉ t.pre.peers ∧ MAX_PEERS ≤ (t.pre.peers.retain (peerActive inp.now)).len

theorem peerActive_now (now : Instant) (src : SocketAddr) (n : Nat) :
    peerActive now src ⟨n, now⟩ = true := by
  simp [peerActive, durationSince, PEER_IDLE_TIMEOUT, fromSecs]

theorem peers_len_le {s s' : ServerState K} {e : ServerEvent K} {o : List (Effect K)}
    (h : serverNext cfg s e = some (s', o)) (hn : ∀ src n key, Effect.install src n key ∉ o) :
    s'.peers.len ≤ s.peers.len := by
  cases serverNext_case cfg h with
  | @recv inp s' o hs hc =>
    obtain ⟨m, hm, he⟩ := hc.peers_eq
    have hlen : m.len ≤ s.peers.len := by
      rcases hm with rfl | ⟨key, hk, -⟩ | ⟨p, hp, rfl⟩
      · exact Nat.le_refl _
      · exact absurd hk (hn _ _ key)
      · have hin : inp.src ∈ s.peers := AList.lookup_isSome.mp (by simp [hp])
        rw [AList.len_insert_of_mem _ hin]
    rcases he with he | he
    · rw [he]
      exact hlen
    · rw [he]
      exact (AList.len_retain_le _ _).trans hlen
  | respond hv hs => exact AList.len_retain_le _ _
  | _ => exact Nat.le_refl _

theorem budget_step {s s' : ServerState K} {e : ServerEvent K} {o : List (Effect K)}
    (h : serverNext cfg s e = some (s', o)) (hb : s.peers.len ≤ MAX_PEERS)
    (hc : ¬ OverflowsBudget cfg ⟨s, e, o, s'⟩) : s'.peers.len ≤ MAX_PEERS := by
  by_cases hi : ∃ src n key, Effect.install src n key ∈ o
  · obtain ⟨src, n, key, hm⟩ := hi
    obtain ⟨ph, ch, hp, ha, -, inp, rfl, rfl, hs'⟩ := install_inv h hm
    obtain ⟨inp', body, _, _, key', he, -, hu, -, -, hr, hg, -⟩ := ha
    cases he
    rw [hs']
    by_cases hin : inp.src ∈ s.peers
    · have hle := AList.len_retain_le (peerActive inp.now) (s.peers.insert inp.src ⟨n, inp.now⟩)
      rw [AList.len_insert_of_mem _ hin] at hle
      omega
    · rw [AList.len_retain_insert hin (peerActive_now _ _ _)]
      by_contra hover
      have hfull : MAX_PEERS ≤ (s.peers.retain (peerActive inp.now)).len := by omega
      exact hc ⟨inp, body, ph, ch, key', rfl, hu, hp, hr, hg, hin, hfull⟩
  · refine (peers_len_le h ?_).trans hb
    intro src n key hm
    exact hi ⟨src, n, key, hm⟩

theorem overflow_step {s s' : ServerState K} {e : ServerEvent K} {o : List (Effect K)}
    (h : serverNext cfg s e = some (s', o)) (hc : OverflowsBudget cfg ⟨s, e, o, s'⟩) :
    MAX_PEERS < s'.peers.len := by
  obtain ⟨inp, body, ph, ch, key, rfl, hu, hp, hr, hg, hin, hfull⟩ := hc
  have hs := ((serverNext_recv cfg).mp h).1
  rw [serverNext_hs3 cfg hs hu hp hr hg] at h
  cases h
  have hlen := AList.len_retain_insert (p := peerActive inp.now) (v := ⟨s.sessions.length, inp.now⟩)
    hin (peerActive_now _ _ _)
  exact Nat.lt_of_le_of_lt hfull (by rw [← Nat.succ_le_iff]; exact Nat.le_of_eq hlen.symm)

theorem acceptable_pends {s s' : ServerState K} {inp : Inbound K} {o : List (Effect K)}
    (h : serverNext cfg s (.recv inp) = some (s', o)) (ha : AcceptableHs1 cfg s inp)
    (hl : s.peers.len < MAX_PEERS) (hp : s.pending.len < MAX_PENDING) :
    inp.src ∈ s'.pending ∧ s'.pending.len ≤ s.pending.len + 1 ∧ s'.peers.len ≤ s.peers.len := by
  obtain ⟨body, r, wire, addr, hu, hproc⟩ := acceptableHs1_iff.mp ha
  have hs := ((serverNext_recv cfg).mp h).1
  rw [serverNext_hs1 cfg hs hu hl hproc (Or.inl hp)] at h
  cases h
  refine ⟨?_, ?_, AList.len_retain_le _ _⟩
  · apply AList.lookup_isSome.mp
    simp [AList.lookup_retain, pendingFresh, durationSince, PENDING_TIMEOUT, fromSecs]
  · exact (AList.len_retain_le _ _).trans (AList.len_insert_le _ _ _)

/-- From an empty pending map, two acceptable Hs1 in a row leave a pending entry
exactly when the peer map is not full, however long its peers have been
idle: the Hs1 arm returns before the eviction. -/
theorem abandoned_sessions_iff {s s1 s2 : ServerState K} {inp1 inp2 : Inbound K}
    {o1 o2 : List (Effect K)} (hempty : s.pending.len = 0)
    (h1 : serverNext cfg s (.recv inp1) = some (s1, o1))
    (h2 : serverNext cfg s1 (.recv inp2) = some (s2, o2))
    (ha1 : AcceptableHs1 cfg s inp1) (ha2 : AcceptableHs1 cfg s1 inp2) :
    inp2.src ∈ s2.pending ↔ s.peers.len < MAX_PEERS := by
  constructor
  · intro hmem
    by_contra hfull
    have hs := ((serverNext_recv cfg).mp h1).1
    obtain ⟨_, _, _, _, _, hu1, -⟩ := ha1
    rw [serverNext_hs1_full cfg hs hu1 (by omega)] at h1
    cases h1
    obtain ⟨_, _, _, _, _, hu2, -⟩ := ha2
    rw [serverNext_hs1_full cfg hs hu2 (by omega)] at h2
    cases h2
    have hpos := List.length_pos_of_mem (AList.mem_keys.mp hmem)
    rw [← AList.len_eq_keys] at hpos
    omega
  · intro hl
    have hmax : 1 < MAX_PENDING := by decide
    obtain ⟨-, hlen, hpeers⟩ := acceptable_pends h1 ha1 hl (by omega)
    exact (acceptable_pends h2 ha2 (by omega) (by omega)).1

variable {secret : K.CookieSecret} {sources : Nat → Broadcast.Channel (Event K.core)}
  {h : List (ServerStep K)} {s : ServerState K}

/-- A run stays within the peer budget exactly when none of its steps
overflows it. -/
theorem peer_budget_iff (hr : ServerRun cfg (.init secret sources) h s) :
    (∀ i t, At h i t → t.post.peers.len ≤ MAX_PEERS) ↔
      ∀ i t, At h i t → ¬ OverflowsBudget cfg t := by
  constructor
  · intro hb i t ht hc
    have hover := overflow_step (hr.next_eq ht) hc
    have := hb i t ht
    omega
  · intro hc i t ht
    refine (hr.take_succ ht).invariant_of (I := fun s => s.peers.len ≤ MAX_PEERS)
      (C := fun u => ¬ OverflowsBudget cfg u) (Nat.zero_le _) ?_ ?_
    · intro s e s' o hb hc hn
      exact budget_step hn hb hc
    · intro j u hu
      exact hc j u hu.of_take.2

/-- Without a new pending entry neither the pending map nor both maps together
grow: a completed handshake moves its entry from one to the other. -/
theorem occupancy_le {s s' : ServerState K} {e : ServerEvent K} {o : List (Effect K)}
    (h : serverNext cfg s e = some (s', o)) (hn : ∀ src r wire, Effect.pend src r wire ∉ o) :
    s'.pending.len ≤ s.pending.len ∧
      s'.pending.len + s'.peers.len ≤ s.pending.len + s.peers.len := by
  -- what is left after the cleanup is at most what was there before it
  have hsweep (now : Instant) (s1 : ServerState K) (h1 : s1.pending.len ≤ s.pending.len)
      (h2 : s1.pending.len + s1.peers.len ≤ s.pending.len + s.peers.len) :
      (cleanup now s1).pending.len ≤ s.pending.len ∧
        (cleanup now s1).pending.len + (cleanup now s1).peers.len ≤
          s.pending.len + s.peers.len := by
    have hpend := AList.len_retain_le (pendingFresh now) s1.pending
    have hpeer := AList.len_retain_le (peerActive now) s1.peers
    rw [cleanup_pending, cleanup_peers]
    omega
  cases serverNext_case cfg h with
  | @recv inp s' o hs hc =>
    have herase := AList.len_erase_le s.pending inp.src
    have htouch {p : PeerState} (hp : s.peers.lookup inp.src = some p) (q : PeerState) :
        (s.peers.insert inp.src q).len = s.peers.len :=
      AList.len_insert_of_mem q (AList.lookup_isSome.mp (by simp [hp]))
    cases hc with
    | ignored => exact ⟨Nat.le_refl _, Nat.le_refl _⟩
    | swept => exact hsweep inp.now s (Nat.le_refl _) (Nat.le_refl _)
    | @pended body r wire addr => exact absurd List.mem_cons_self (hn inp.src r wire)
    | rejected => exact hsweep inp.now _ herase (Nat.add_le_add_right herase _)
    | refused => exact ⟨herase, Nat.add_le_add_right herase _⟩
    | @installed body ph ch key hu hp hr hg =>
      have hmem : inp.src ∈ s.pending := AList.lookup_isSome.mp (by simp [hp])
      have hmoved := AList.len_erase_of_mem hmem
      have hadded := AList.len_insert_le s.peers inp.src ⟨s.sessions.length, inp.now⟩
      refine hsweep inp.now _ herase ?_
      show (s.pending.erase inp.src).len +
        (s.peers.insert inp.src ⟨s.sessions.length, inp.now⟩).len ≤ _
      omega
    | dangling hp | unopened hp | request hp =>
      exact ⟨Nat.le_refl _, Nat.add_le_add_left (Nat.le_of_eq (htouch hp _)) _⟩
    | ping hp | denied hp | unserved hp | subscribed hp | inert hp =>
      exact hsweep inp.now _ (Nat.le_refl _)
        (Nat.add_le_add_left (Nat.le_of_eq (htouch hp _)) _)
  | respond => exact hsweep _ _ (Nat.le_refl _) (Nat.le_refl _)
  | _ => exact ⟨Nat.le_refl _, Nat.le_refl _⟩

theorem occupancy_pend {s s' : ServerState K} {e : ServerEvent K} {o : List (Effect K)}
    (h : serverNext cfg s e = some (s', o)) (hb : s.pending.len ≤ MAX_PENDING) {src : SocketAddr}
    {r : K.Handshake} {wire : Bytes} (hm : Effect.pend src r wire ∈ o) :
    s'.pending.len ≤ MAX_PENDING ∧ s'.peers.len < MAX_PEERS := by
  obtain ⟨-, hl, hc, inp, -, rfl, rfl⟩ := pend_inv h hm
  have hpend := AList.len_retain_le (pendingFresh inp.now) (s.pending.insert inp.src ⟨r, inp.now⟩)
  have hpeer := AList.len_retain_le (peerActive inp.now) s.peers
  have hadded : (s.pending.insert inp.src ⟨r, inp.now⟩).len ≤ MAX_PENDING := by
    obtain hlt | hin := hc
    · have := AList.len_insert_le s.pending inp.src ⟨r, inp.now⟩
      omega
    · rw [AList.len_insert_of_mem _ hin]
      exact hb
  exact ⟨hpend.trans hadded, Nat.lt_of_le_of_lt hpeer hl⟩

/-- The memory bound of the two maps. The peers alone may exceed their budget;
with the pending entries they do not exceed both limits together. -/
theorem memory_bound (hr : ServerRun cfg (.init secret sources) h s) :
    s.pending.len ≤ MAX_PENDING ∧ s.pending.len + s.peers.len ≤ MAX_PENDING + MAX_PEERS - 1 := by
  refine hr.invariant (I := fun s => s.pending.len ≤ MAX_PENDING ∧
    s.pending.len + s.peers.len ≤ MAX_PENDING + MAX_PEERS - 1) ⟨Nat.zero_le _, Nat.zero_le _⟩ ?_
  intro s e s' o hi hn
  by_cases hp : ∃ src r wire, Effect.pend src r wire ∈ o
  · obtain ⟨src, r, wire, hm⟩ := hp
    have hnew := occupancy_pend hn hi.1 hm
    omega
  · have hle := occupancy_le hn fun src r wire hm => hp ⟨src, r, wire, hm⟩
    omega

end Obfs.Udp

namespace Obfs.Symbolic
open Udp Trace

def responded : Hs := ⟨false, serverKey, none, 6, [msg1 5, msg2 5 6]⟩

def firstHs1 (src : SocketAddr) (now : Instant) : Inbound crates :=
  ⟨hs1 5 none, src, now, alwaysOpen, 6, ()⟩

def firstHs3 (src : SocketAddr) : Inbound crates :=
  ⟨hs3 5 6 (keyOf 0x22) (keyOf 1), src, 0, alwaysOpen, 0, ()⟩

theorem addr_injective {m n : Nat} (hm : m < 65536) (hn : n < 65536) (h : addr m = addr n) :
    m = n := by
  simp only [addr, SocketAddr.v4.injEq, true_and, and_true] at h
  have h1 := congrArg UInt8.toNat h.1
  have h2 := congrArg UInt8.toNat h.2
  simp only [Nat.toUInt8, UInt8.toNat_ofNat'] at h1 h2
  omega

theorem decode_first : decodeMsg1Framed (encodeMsg1Framed (msg1 5) none) = some (msg1 5, none) :=
  decodeMsg1Framed_encodeMsg1Framed (by decide +kernel) none

theorem read_first :
    readMessage ⟨false, serverKey, none, 6, []⟩ (msg1 5) =
      (.ok [], ⟨false, serverKey, none, 6, [msg1 5]⟩) := by
  have hm : (msg1 5).length = 34 ∧ (msg1 5).take 33 = 1 :: serverKey.val := by decide +kernel
  simp only [readMessage, hm, and_self, if_true]
  rfl

theorem respond_first (src : SocketAddr) :
    respondMsg1 crates (msg1 5) src serverKey (6 : UInt8) () =
      .ok (some (.partialHandshake responded (shapeHs crates .hs2 (msg2 5 6) ()) src)) := by
  simp only [respondMsg1, read_first]
  rfl

theorem processHs1_first (src : SocketAddr) (secret : Secret) :
    processHs1 crates (encodeMsg1Framed (msg1 5) none) src serverKey secret alwaysOpen (6 : UInt8)
      () = .ok (some (.partialHandshake responded (shapeHs crates .hs2 (msg2 5 6) ()) src)) := by
  rw [processHs1, decode_first]
  exact respond_first src

theorem complete_first :
    (completeHandshakeMsg3 crates responded (msg3 5 6 (keyOf 0x22) (keyOf 1))).1 =
      .ok (⟨⟨deriveKey (keyOf 1) s2cLabel, 0⟩, ⟨deriveKey (keyOf 1) c2sLabel, []⟩⟩, keyOf 0x22) :=
  rfl

theorem cleanup_zero (s : ServerState crates) : cleanup 0 s = s := by
  have h1 : s.pending.retain (pendingFresh 0) = s.pending := by
    apply AList.retain_eq_self
    intro k v
    simp [pendingFresh, durationSince, PENDING_TIMEOUT, fromSecs]
  have h2 : s.peers.retain (peerActive 0) = s.peers := by
    apply AList.retain_eq_self
    intro k v
    simp [peerActive, durationSince, PEER_IDLE_TIMEOUT, fromSecs]
  rw [cleanup, h1, h2]

theorem hs1_step_at {s : ServerState crates} (hs : s.serving = none)
    (hp : s.peers.len < MAX_PEERS) (hl : s.pending.len < PENDING_SOFT_LIMIT) (src : SocketAddr)
    (now : Instant) :
    ∃ o, serverNext cfg s (.recv (firstHs1 src now)) =
      some (cleanup now (withPending s (firstHs1 src now) responded), o) := by
  have hg : effGate s (firstHs1 src now) = alwaysOpen := by
    have hl' : ¬ s.pending.len ≥ PENDING_SOFT_LIMIT := by omega
    simp [effGate, firstHs1, alwaysOpen, hl']
  have hm : s.pending.len < MAX_PENDING := hl.trans (by decide)
  have hr := processHs1_first src s.cookieSecret
  rw [← hg] at hr
  exact ⟨_, serverNext_hs1 cfg hs rfl hp hr (Or.inl hm)⟩

theorem hs1_step {s : ServerState crates} (hs : s.serving = none) (hp : s.peers.len < MAX_PEERS)
    (hl : s.pending.len < PENDING_SOFT_LIMIT) (src : SocketAddr) :
    ∃ o, serverNext cfg s (.recv (firstHs1 src 0)) =
      some (withPending s (firstHs1 src 0) responded, o) := by
  obtain ⟨o, ho⟩ := hs1_step_at hs hp hl src 0
  rw [cleanup_zero] at ho
  exact ⟨o, ho⟩

theorem hs3_step {s : ServerState crates} (src : SocketAddr) (hs : s.serving = none)
    (hp : s.pending.lookup src = some ⟨responded, 0⟩) :
    ∃ s' o, serverNext cfg s (.recv (firstHs3 src)) = some (s', o) ∧ s'.serving = none ∧
      s'.pending = s.pending.erase src ∧
      s'.peers = s.peers.insert src ⟨s.sessions.length, 0⟩ := by
  have hn : serverNext cfg s (.recv (firstHs3 src)) = _ :=
    serverNext_hs3 cfg hs rfl hp complete_first rfl
  rw [show (firstHs3 src).now = 0 from rfl, cleanup_zero] at hn
  exact ⟨_, _, hn, hs, rfl, rfl⟩

structure Filled (n : Nat) (s : ServerState crates) : Prop where
  serving : s.serving = none
  pending : s.pending = ∅
  len : s.peers.len = n
  fresh : ∀ k, n ≤ k → k < 65536 → addr k ∉ s.peers
  seen : ∀ src p, s.peers.lookup src = some p → p.lastSeen = 0

theorem Filled.idle {n : Nat} {s : ServerState crates} (hf : Filled n s) (src : SocketAddr)
    (p : PeerState) (hp : s.peers.lookup src = some p) :
    PEER_IDLE_TIMEOUT ≤ durationSince PEER_IDLE_TIMEOUT p.lastSeen := by
  rw [hf.seen src p hp]
  exact Nat.le_refl _

theorem Filled.pending_lt {n : Nat} {s : ServerState crates} (hf : Filled n s) :
    s.pending.len < PENDING_SOFT_LIMIT := by
  rw [hf.pending]
  decide

theorem fill_step {n : Nat} {h : List (ServerStep crates)} {s : ServerState crates}
    (hr : ServerRun cfg start h s) (hf : Filled n s) (hn : n < MAX_PEERS)
    (hroom : ∀ i t, At h i t → t.pre.peers.len < MAX_PEERS) :
    ∃ h' s', ServerRun cfg start h' s' ∧ Filled (n + 1) s' ∧
      ∀ i t, At h' i t → t.pre.peers.len < MAX_PEERS := by
  have hlt : n < 65536 := hn.trans (by decide)
  have hlen : s.peers.len < MAX_PEERS := hf.len ▸ hn
  obtain ⟨o1, h1⟩ := hs1_step hf.serving hlen hf.pending_lt (addr n)
  obtain ⟨s', o2, h2, hs', hp', hpeers⟩ :=
    hs3_step (s := withPending s (firstHs1 (addr n) 0) responded) (addr n) hf.serving
      (by rw [withPending_pending]; exact AList.lookup_insert _)
  refine ⟨_, s', (hr.snoc h1).snoc h2, ⟨hs', ?_, ?_, ?_, ?_⟩, ?_⟩
  · rw [hp', withPending_pending, hf.pending]
    exact AList.ext (List.kerase_cons_eq rfl)
  · rw [hpeers]
    have hnot : addr n ∉ s.peers := hf.fresh n (Nat.le_refl _) hlt
    exact (AList.len_insert_of_notMem _ hnot).trans (congrArg (· + 1) hf.len)
  · intro k hk hk' hmem
    rw [hpeers] at hmem
    rcases (AList.mem_insert _).mp hmem with he | hmem
    · have := addr_injective hk' hlt he
      omega
    · exact hf.fresh k (by omega) hk' hmem
  · intro src p hp
    rw [hpeers] at hp
    by_cases hsrc : src = addr n
    · subst hsrc
      rw [AList.lookup_insert] at hp
      cases hp
      rfl
    · rw [AList.lookup_insert_ne hsrc] at hp
      exact hf.seen src p hp
  · intro i t ht
    rcases at_snoc.mp ht with ht | ⟨-, rfl⟩
    · rcases at_snoc.mp ht with ht | ⟨-, rfl⟩
      · exact hroom i t ht
      · exact hlen
    · exact hlen

theorem fill (n : Nat) (hn : n ≤ MAX_PEERS) :
    ∃ h s, ServerRun cfg start h s ∧ Filled n s ∧
      ∀ i t, At h i t → t.pre.peers.len < MAX_PEERS := by
  induction n with
  | zero =>
    refine ⟨[], start, .nil, ⟨rfl, rfl, rfl, ?_, ?_⟩, fun i t ht => by cases ht⟩
    · intro k _ _ hk
      exact AList.notMem_empty _ hk
    · intro src p hp
      simp [start] at hp
  | succ n ih =>
    obtain ⟨h, s, hr, hf, hroom⟩ := ih (by omega)
    exact fill_step hr hf (by omega) hroom

theorem acceptable_first (s : ServerState crates) (hl : s.pending.len < PENDING_SOFT_LIMIT)
    (src : SocketAddr) (now : Instant) : AcceptableHs1 cfg s (firstHs1 src now) := by
  refine ⟨_, _, _, _, _, rfl, decode_first, respond_first src, ?_⟩
  intro hg
  have hl' : ¬ s.pending.len ≥ PENDING_SOFT_LIMIT := by omega
  simp [effGate, firstHs1, alwaysOpen, hl'] at hg

/-- Two clients that begin while one place is free both finish. -/
theorem peer_budget_exceeded :
    ∃ h s, ServerRun cfg start h s ∧ MAX_PEERS < s.peers.len := by
  obtain ⟨h, s, hr, hf, -⟩ := fill 1023 (by decide)
  have hne : addr 1024 ≠ addr 1023 := by decide
  have hl : s.peers.len < MAX_PEERS := by
    rw [hf.len]
    decide
  obtain ⟨o1, h1⟩ := hs1_step hf.serving hl hf.pending_lt (addr 1023)
  obtain ⟨o2, h2⟩ := hs1_step (s := withPending s (firstHs1 (addr 1023) 0) responded) hf.serving hl
    (by rw [withPending_pending, hf.pending]; decide) (addr 1024)
  obtain ⟨s3, o3, h3, hs3, hp3, hpeers3⟩ := hs3_step
    (s := withPending (withPending s (firstHs1 (addr 1023) 0) responded)
      (firstHs1 (addr 1024) 0) responded) (addr 1023) hf.serving
    (by rw [withPending_pending, withPending_pending, hf.pending]; rfl)
  obtain ⟨s4, o4, h4, -, -, hpeers4⟩ := hs3_step (s := s3) (addr 1024) hs3
    (by rw [hp3, withPending_pending, withPending_pending, hf.pending]; rfl)
  refine ⟨_, s4, (((hr.snoc h1).snoc h2).snoc h3).snoc h4, ?_⟩
  have hn3 : addr 1023 ∉ s.peers := hf.fresh 1023 (by decide) (by decide)
  have hn4 : addr 1024 ∉ s3.peers := by
    rw [hpeers3]
    intro hmem
    rcases (AList.mem_insert _).mp hmem with he | hmem
    · exact hne he
    · exact hf.fresh 1024 (by decide) (by decide) hmem
  rw [hpeers4, AList.len_insert_of_notMem _ hn4, hpeers3, withPending_peers, withPending_peers,
    AList.len_insert_of_notMem _ hn3, hf.len]
  decide

theorem peer_budget_full :
    ∃ h s, ServerRun cfg start h s ∧ s.peers.len = MAX_PEERS ∧
      (∀ i t, At h i t → ¬ OverflowsBudget cfg t) ∧
      ∀ i t, At h i t → t.post.peers.len ≤ MAX_PEERS := by
  obtain ⟨h, s, hr, hf, hroom⟩ := fill MAX_PEERS (Nat.le_refl _)
  have hno : ∀ i t, At h i t → ¬ OverflowsBudget cfg t := by
    rintro i t ht ⟨inp, body, ph, ch, key, -, -, -, -, -, -, hfull⟩
    have hretain := AList.len_retain_le (peerActive inp.now) t.pre.peers
    have hplace := hroom i t ht
    omega
  exact ⟨h, s, hr, hf.len, hno, (peer_budget_iff hr).mpr hno⟩

theorem memory_bound_full :
    ∃ h s, ServerRun cfg start h s ∧ s.peers.len = 1024 ∧ s.pending.len ≤ 2048 ∧
      s.pending.len + s.peers.len ≤ 3071 := by
  obtain ⟨h, s, hr, hf, -⟩ := fill MAX_PEERS (Nat.le_refl _)
  exact ⟨h, s, hr, hf.len, memory_bound hr⟩

/-- The budget filled by sessions that have all been idle for the timeout: a
new client's Hs1 is ignored, time after time. -/
theorem abandoned_sessions_wedge :
    ∃ h s s1 o1 s2 o2, ServerRun cfg start h s ∧ s.pending.len = 0 ∧
      (∀ src p, s.peers.lookup src = some p →
        PEER_IDLE_TIMEOUT ≤ durationSince PEER_IDLE_TIMEOUT p.lastSeen) ∧
      addr 1024 ∉ s.peers ∧
      AcceptableHs1 cfg s (firstHs1 (addr 1024) PEER_IDLE_TIMEOUT) ∧
      serverNext cfg s (.recv (firstHs1 (addr 1024) PEER_IDLE_TIMEOUT)) = some (s1, o1) ∧
      AcceptableHs1 cfg s1 (firstHs1 (addr 1024) PEER_IDLE_TIMEOUT) ∧
      serverNext cfg s1 (.recv (firstHs1 (addr 1024) PEER_IDLE_TIMEOUT)) = some (s2, o2) ∧
      addr 1024 ∉ s2.pending := by
  obtain ⟨h, s, hr, hf, -⟩ := fill MAX_PEERS (Nat.le_refl _)
  have ha := acceptable_first s hf.pending_lt (addr 1024) PEER_IDLE_TIMEOUT
  have hstep : serverNext cfg s (.recv (firstHs1 (addr 1024) PEER_IDLE_TIMEOUT)) =
      some (s, []) := serverNext_hs1_full cfg hf.serving rfl (Nat.le_of_eq hf.len.symm)
  refine ⟨h, s, s, [], s, [], hr, by rw [hf.pending]; rfl, hf.idle,
    hf.fresh 1024 (by decide) (by decide), ha, hstep, ha, hstep, ?_⟩
  rw [hf.pending]
  exact AList.notMem_empty _

theorem abandoned_sessions_admitted :
    ∃ h s s1 o1 s2 o2, ServerRun cfg start h s ∧ s.pending.len = 0 ∧ s.peers.len = 1023 ∧
      (∀ src p, s.peers.lookup src = some p →
        PEER_IDLE_TIMEOUT ≤ durationSince PEER_IDLE_TIMEOUT p.lastSeen) ∧
      addr 1024 ∉ s.peers ∧
      AcceptableHs1 cfg s (firstHs1 (addr 1024) PEER_IDLE_TIMEOUT) ∧
      serverNext cfg s (.recv (firstHs1 (addr 1024) PEER_IDLE_TIMEOUT)) = some (s1, o1) ∧
      AcceptableHs1 cfg s1 (firstHs1 (addr 1024) PEER_IDLE_TIMEOUT) ∧
      serverNext cfg s1 (.recv (firstHs1 (addr 1024) PEER_IDLE_TIMEOUT)) = some (s2, o2) ∧
      addr 1024 ∈ s2.pending := by
  obtain ⟨h, s, hr, hf, -⟩ := fill 1023 (by decide)
  have hempty : s.pending.len = 0 := by
    rw [hf.pending]
    rfl
  have hroom : s.peers.len < MAX_PEERS := by
    rw [hf.len]
    decide
  have ha1 := acceptable_first s hf.pending_lt (addr 1024) PEER_IDLE_TIMEOUT
  obtain ⟨o1, h1⟩ := hs1_step_at hf.serving hroom hf.pending_lt (addr 1024) PEER_IDLE_TIMEOUT
  -- the first Hs1 is pending, and the idle peers are evicted
  obtain ⟨-, hlen1, hpeers1⟩ := acceptable_pends h1 ha1 hroom (hf.pending_lt.trans (by decide))
  have hsmall : s.pending.len + 1 < PENDING_SOFT_LIMIT := by
    rw [hempty]
    decide
  have hl1 := Nat.lt_of_le_of_lt hlen1 hsmall
  have ha2 := acceptable_first _ hl1 (addr 1024) PEER_IDLE_TIMEOUT
  have hserving1 : (cleanup PEER_IDLE_TIMEOUT (withPending s
      (firstHs1 (addr 1024) PEER_IDLE_TIMEOUT) responded)).serving = none := hf.serving
  obtain ⟨o2, h2⟩ := hs1_step_at hserving1 (Nat.lt_of_le_of_lt hpeers1 hroom) hl1 (addr 1024)
    PEER_IDLE_TIMEOUT
  refine ⟨h, s, _, o1, _, o2, hr, hempty, hf.len, hf.idle, hf.fresh 1024 (by decide) (by decide),
    ha1, h1, ha2, h2, ?_⟩
  exact (abandoned_sessions_iff hempty h1 h2 ha1 ha2).mpr hroom

end Obfs.Symbolic

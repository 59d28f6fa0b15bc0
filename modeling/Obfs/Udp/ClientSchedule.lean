import Obfs.Udp.ClientCall
import Obfs.Symbolic.Laws

/-! The turns of the msg1 loop, counted from the schedule alone, and what a
datagram does to the call that its comment calls ignored: it takes a turn. -/
namespace Obfs.Udp
open Timed
variable {K : Crates}

def waits (deadline t : Instant) : Nat :=
  (t - deadline + (RETRANSMIT_INTERVAL - 1)) / RETRANSMIT_INTERVAL

def fromServer (cfg : ClientCfg) : Received → Bool
  | .ok (_, src) => src = cfg.serverAddr
  | .error _ => false

/-- The turns from a first deadline up to t: one for each datagram from the
server, and one each time the interval passes. -/
def turns (cfg : ClientCfg) : Instant → List (Arrival Received) → Instant → Nat
  | deadline, [], t => waits deadline t
  | deadline, a :: as, t =>
    waits deadline a.time +
      if fromServer cfg a.input then 1 + turns cfg (a.time + RETRANSMIT_INTERVAL) as t
      else turns cfg (deadline + waits deadline a.time * RETRANSMIT_INTERVAL) as t

theorem waits_eq_zero {deadline t : Nat} (h : t ≤ deadline) : waits deadline t = 0 := by
  unfold waits RETRANSMIT_INTERVAL fromMillis
  omega

theorem waits_eq_succ {deadline t : Nat} (h : deadline < t) :
    waits deadline t = waits (deadline + RETRANSMIT_INTERVAL) t + 1 := by
  unfold waits RETRANSMIT_INTERVAL fromMillis
  omega

def Quiet (K : Crates) (cfg : ClientCfg) (a : Arrival Received) : Prop :=
  ∃ data src, a.input = .ok (data, src) ∧
    (src = cfg.serverAddr → ∀ body, unshapeHs K data ≠ some (.hs2, body))

/-- A datagram of the server that is malformed or neither an Hs2 nor a cookie. -/
def Irrelevant (K : Crates) (cfg : ClientCfg) (a : Arrival Received) : Prop :=
  ∃ data, a.input = .ok (data, cfg.serverAddr) ∧
    ∀ ty body, unshapeHs K data = some (ty, body) → ty ≠ .hs2 ∧ ty ≠ .cookie

/-- The second schedule has irrelevant datagrams inserted anywhere. -/
inductive Inserted (K : Crates) (cfg : ClientCfg) :
    List (Arrival Received) → List (Arrival Received) → Prop where
  | nil : Inserted K cfg [] []
  | keep {a : Arrival Received} {as bs : List (Arrival Received)} (h : Inserted K cfg as bs) :
      Inserted K cfg (a :: as) (a :: bs)
  | insert {a : Arrival Received} {as bs : List (Arrival Received)} (ha : Irrelevant K cfg a)
      (h : Inserted K cfg as bs) : Inserted K cfg as (a :: bs)

section
variable {cfg : ClientCfg} {draws : Draws K} {rng : Instant → K.Rng} {attempt : Nat} {seed : Key}
  {hs : K.Handshake} {msg1 : Bytes}

theorem Irrelevant.quiet {a : Arrival Received} (h : Irrelevant K cfg a) : Quiet K cfg a := by
  obtain ⟨data, ha, hty⟩ := h
  exact ⟨data, _, ha, fun _ body hu => (hty _ body hu).1 rfl⟩

theorem Inserted.quiet {as bs : List (Arrival Received)} (h : Inserted K cfg as bs)
    (hq : ∀ a ∈ as, Quiet K cfg a) : ∀ a ∈ bs, Quiet K cfg a := by
  induction h with
  | nil => exact hq
  | keep h ih =>
    obtain ⟨ha, hq⟩ := List.forall_mem_cons.mp hq
    exact List.forall_mem_cons.mpr ⟨ha, ih hq⟩
  | insert ha h ih => exact List.forall_mem_cons.mpr ⟨ha.quiet, ih hq⟩

/-- After n turns the attempt waits with this deadline, or its turns are used. -/
def Stands (attempt : Nat) (seed : Key) (hs : K.Handshake) (msg1 : Bytes) (n : Nat)
    (deadline : Instant) (s : ClientState K) : Prop :=
  if n < MAX_HS_TRIES then ∃ cookie, s = .awaitHs2 attempt n seed hs msg1 cookie deadline
  else s.From (attempt + 1)

theorem Stands.waiting {n : Nat} {deadline : Instant} {s : ClientState K}
    (h : Stands attempt seed hs msg1 n deadline s) (hn : n < MAX_HS_TRIES) :
    ∃ cookie, s = .awaitHs2 attempt n seed hs msg1 cookie deadline := by
  rwa [Stands, if_pos hn] at h

theorem Stands.past {n : Nat} {deadline : Instant} {s : ClientState K}
    (h : Stands attempt seed hs msg1 n deadline s) (hn : MAX_HS_TRIES ≤ n) :
    s.From (attempt + 1) := by
  rwa [Stands, if_neg (Nat.not_lt.mpr hn)] at h

theorem retryHs1_stands {n : Nat} (w : Wake K) (hw : w.sent = .ok ()) (cookie : Option Cookie) :
    Stands attempt seed hs msg1 (n + 1) (w.now + RETRANSMIT_INTERVAL)
      (retryHs1 cfg w attempt n seed hs msg1 cookie).1 := by
  unfold Stands retryHs1
  split
  · rw [sendHs1, hw]
    exact ⟨cookie, rfl⟩
  · exact beginAttempt_from w (Nat.le_refl _)

theorem Stands.of_from {n : Nat} (deadline : Instant) {s : ClientState K} (h : s.From (attempt + 1))
    (hn : MAX_HS_TRIES ≤ n) : Stands attempt seed hs msg1 n deadline s := by
  rwa [Stands, if_neg (Nat.not_lt.mpr hn)]

theorem pass_stands (cfg : ClientCfg) (draws : Draws K) (rng : Instant → K.Rng) {n : Nat}
    {deadline : Instant} {s : ClientState K}
    (h : Stands attempt seed hs msg1 n deadline s) (t : Instant) :
    Stands attempt seed hs msg1 (n + waits deadline t)
      (deadline + waits deadline t * RETRANSMIT_INTERVAL)
      ((clientMachine cfg draws rng).pass (some t) s) := by
  -- induction on the timers that fire; an attempt whose turns are used has left the wait
  generalize hk : waits deadline t = k
  induction k generalizing n deadline s with
  | zero =>
    by_cases hn : n < MAX_HS_TRIES
    · obtain ⟨cookie, rfl⟩ := h.waiting hn
      have hle : t ≤ deadline := by
        by_contra hlt
        rw [waits_eq_succ (Nat.lt_of_not_le hlt)] at hk
        exact absurd hk (Nat.succ_ne_zero _)
      have hdue : (clientMachine cfg draws rng).due (some t)
          (.awaitHs2 attempt n seed hs msg1 cookie deadline) = none := by
        simp [Machine.due, clientMachine, ClientState.deadline, hle]
      rw [Machine.pass_of_not_due hdue, Nat.zero_mul]
      exact h
    · have hfrom := h.past (Nat.le_of_not_lt hn)
      exact .of_from _ (pass_from draws rng _ hfrom) (Nat.le_of_not_lt hn)
  | succ k ih =>
    by_cases hn : n < MAX_HS_TRIES
    · obtain ⟨cookie, rfl⟩ := h.waiting hn
      have hlt : deadline < t := by
        by_contra hle
        rw [waits_eq_zero (Nat.le_of_not_lt hle)] at hk
        exact absurd hk (Nat.succ_ne_zero k).symm
      have hdue : (clientMachine cfg draws rng).due (some t)
          (.awaitHs2 attempt n seed hs msg1 cookie deadline) = some deadline := by
        simp [Machine.due, clientMachine, ClientState.deadline, hlt]
      have hstep : Stands attempt seed hs msg1 (n + 1) (deadline + RETRANSMIT_INTERVAL)
          ((clientMachine cfg draws rng).expire
            (.awaitHs2 attempt n seed hs msg1 cookie deadline) deadline) := by
        show Stands _ _ _ _ _ _ (ClientState.woken cfg _ (.timer _))
        rw [woken_timer_hs2 cfg (Nat.le_refl deadline)]
        exact retryHs1_stands (draws.wake rng _ deadline) rfl cookie
      have hrest := ih hstep (by rw [waits_eq_succ hlt] at hk; exact Nat.succ.inj hk)
      have hdl : deadline + RETRANSMIT_INTERVAL + k * RETRANSMIT_INTERVAL =
          deadline + (k + 1) * RETRANSMIT_INTERVAL := by
        rw [Nat.succ_mul, Nat.add_comm (k * _), Nat.add_assoc]
      rw [Machine.pass_of_due hdue, ← hdl, Nat.add_comm k 1, ← Nat.add_assoc]
      exact hrest
    · have hfrom := h.past (Nat.le_of_not_lt hn)
      exact .of_from _ (pass_from draws rng _ hfrom)
        (Nat.le_trans (Nat.le_of_not_lt hn) (Nat.le_add_right _ _))

theorem arrive_server {n : Nat} {deadline : Instant} {s : ClientState K}
    (h : Stands attempt seed hs msg1 n deadline s) {a : Arrival Received} (ha : Quiet K cfg a)
    (hsrc : fromServer cfg a.input = true) :
    Stands attempt seed hs msg1 (n + 1) (a.time + RETRANSMIT_INTERVAL)
      ((clientMachine cfg draws rng).arrive s a.time a.input) := by
  obtain ⟨data, src, hin, hty⟩ := ha
  rw [hin] at hsrc ⊢
  have hsrc : src = cfg.serverAddr := of_decide_eq_true hsrc
  by_cases hn : n < MAX_HS_TRIES
  · obtain ⟨cookie, rfl⟩ := h.waiting hn
    show Stands _ _ _ _ _ _ (ClientState.woken cfg _ (.datagram data src _))
    rw [ClientState.woken, clientNext, if_pos hsrc, Option.map_some, Option.getD_some, onDatagram]
    split
    · rename_i body hu
      exact absurd hu (hty hsrc body)
    · split
      · exact retryHs1_stands (draws.wake rng _ a.time) rfl _
      · exact retryHs1_stands (draws.wake rng _ a.time) rfl _
    · exact retryHs1_stands (draws.wake rng _ a.time) rfl _
  · have hfrom := h.past (Nat.le_of_not_lt hn)
    exact .of_from _ (arrive_from draws rng hfrom a.time (.ok (data, src)))
      (Nat.le_succ_of_le (Nat.le_of_not_lt hn))

theorem arrive_foreign {n : Nat} {deadline : Instant} {s : ClientState K}
    (h : Stands attempt seed hs msg1 n deadline s) {a : Arrival Received} (ha : Quiet K cfg a)
    (hsrc : fromServer cfg a.input ≠ true) :
    Stands attempt seed hs msg1 n deadline
      ((clientMachine cfg draws rng).arrive s a.time a.input) := by
  obtain ⟨data, src, hin, -⟩ := ha
  rw [hin] at hsrc ⊢
  have hsrc : src ≠ cfg.serverAddr := fun he => hsrc (decide_eq_true he)
  by_cases hn : n < MAX_HS_TRIES
  · obtain ⟨cookie, rfl⟩ := h.waiting hn
    show Stands _ _ _ _ _ _ (ClientState.woken cfg _ (.datagram data src _))
    rw [ClientState.woken, clientNext, if_neg hsrc]
    exact h
  · have hfrom := h.past (Nat.le_of_not_lt hn)
    exact .of_from _ (arrive_from draws rng hfrom a.time (.ok (data, src))) (Nat.le_of_not_lt hn)

theorem play_stands (draws : Draws K) (rng : Instant → K.Rng) {n : Nat} {deadline : Instant}
    {s : ClientState K}
    (h : Stands attempt seed hs msg1 n deadline s) {as : List (Arrival Received)}
    (has : ∀ a ∈ as, Quiet K cfg a) (t : Instant) :
    ∃ deadline', Stands attempt seed hs msg1 (n + turns cfg deadline as t) deadline'
      ((clientMachine cfg draws rng).pass (some t)
        ((clientMachine cfg draws rng).play s as)) := by
  induction as generalizing n deadline s with
  | nil => exact ⟨_, pass_stands cfg draws rng h t⟩
  | cons a as ih =>
    obtain ⟨ha, has⟩ := List.forall_mem_cons.mp has
    have hpass := pass_stands cfg draws rng h a.time
    rw [Machine.play_cons, turns]
    by_cases hsrc : fromServer cfg a.input = true
    · rw [if_pos hsrc, ← Nat.add_assoc, ← Nat.add_assoc]
      exact ih (arrive_server hpass ha hsrc) has
    · rw [if_neg hsrc, ← Nat.add_assoc]
      exact ih (arrive_foreign hpass ha hsrc) has

/- The call has failed, or k turns have been used since the first of attempt a. -/
def Worn (a k : Nat) (s : ClientState K) : Prop :=
  (∃ e, s = .failed e) ∨ ∃ attempt tries seed hs msg1 cookie deadline,
    s = .awaitHs2 attempt tries seed hs msg1 cookie deadline ∧ tries < MAX_HS_TRIES ∧
      (attempt = a ∨ attempt < MAX_HANDSHAKE_ATTEMPTS) ∧
      MAX_HS_TRIES * a + k ≤ MAX_HS_TRIES * attempt + tries

theorem retryHs1_worn {a k tries : Nat} (w : Wake K) (cookie : Option Cookie)
    (ht : tries < MAX_HS_TRIES) (ha : attempt = a ∨ attempt < MAX_HANDSHAKE_ATTEMPTS)
    (hk : MAX_HS_TRIES * a + k ≤ MAX_HS_TRIES * attempt + tries) :
    Worn a (k + 1) (retryHs1 cfg w attempt tries seed hs msg1 cookie).1 := by
  unfold retryHs1
  split
  · rename_i ht'
    unfold sendHs1
    split
    · exact .inl ⟨_, rfl⟩
    · exact .inr ⟨_, _, _, _, _, _, _, rfl, ht', ha, by omega⟩
  · unfold beginAttempt
    split
    · rename_i hlt
      simp only [initiateAttempt]
      split
      · exact .inl ⟨_, rfl⟩
      · split
        · exact .inl ⟨_, rfl⟩
        · unfold sendHs1
          split
          · exact .inl ⟨_, rfl⟩
          · refine .inr ⟨_, _, _, _, _, _, _, rfl, by decide, .inr hlt, ?_⟩
            rw [Nat.mul_succ]
            omega
    · exact .inl ⟨_, rfl⟩

theorem Worn.mono {a k j : Nat} {s : ClientState K} (h : Worn a k s) (hj : j ≤ k) : Worn a j s := by
  obtain h | ⟨attempt, tries, seed, hs, msg1, cookie, deadline, rfl, ht, ha, hk⟩ := h
  · exact .inl h
  · exact .inr ⟨_, _, _, _, _, _, _, rfl, ht, ha, by omega⟩

theorem pass_worn {a k : Nat} {s : ClientState K} (h : Worn a k s) (stop : Option Nat) :
    Worn a k ((clientMachine cfg draws rng).pass stop s) := by
  refine Machine.pass_induct h ?_
  intro s d h hd
  obtain ⟨e, rfl⟩ | ⟨attempt, tries, seed, hs, msg1, cookie, deadline, rfl, ht, ha, hk⟩ := h
  · cases hd
  · cases hd
    show Worn a k (ClientState.woken cfg _ (.timer _))
    rw [woken_timer_hs2 cfg (Nat.le_refl d)]
    exact (retryHs1_worn _ cookie ht ha hk).mono (Nat.le_succ k)

theorem arrive_worn {a k : Nat} {s : ClientState K} (h : Worn a k s) {x : Arrival Received}
    (hx : Irrelevant K cfg x) :
    Worn a (k + 1) ((clientMachine cfg draws rng).arrive s x.time x.input) := by
  obtain ⟨data, hin, hty⟩ := hx
  rw [hin]
  obtain ⟨e, rfl⟩ | ⟨attempt, tries, seed, hs, msg1, cookie, deadline, rfl, ht, ha, hk⟩ := h
  · exact .inl ⟨e, rfl⟩
  · show Worn a (k + 1) (ClientState.woken cfg _ (.datagram data cfg.serverAddr _))
    rw [ClientState.woken, clientNext, if_pos rfl, Option.map_some, Option.getD_some, onDatagram]
    split
    · rename_i body hu
      exact absurd rfl (hty _ body hu).1
    · rename_i body hu
      exact absurd rfl (hty _ body hu).2
    · exact retryHs1_worn _ cookie ht ha hk

theorem play_worn {a k : Nat} {s : ClientState K} (h : Worn a k s) {xs : List (Arrival Received)}
    (hxs : ∀ x ∈ xs, Irrelevant K cfg x) :
    Worn a (k + xs.length) ((clientMachine cfg draws rng).play s xs) := by
  induction xs generalizing k s with
  | nil => exact h
  | cons x xs ih =>
    obtain ⟨hx, hxs⟩ := List.forall_mem_cons.mp hxs
    rw [Machine.play_cons, List.length_cons, Nat.add_comm xs.length, ← Nat.add_assoc]
    exact ih (arrive_worn (pass_worn h _) hx) hxs

theorem Worn.failed {a : Nat} {s : ClientState K} (h : Worn a 36 s) : ∃ e, s = .failed e := by
  obtain h | ⟨attempt, tries, seed, hs, msg1, cookie, deadline, rfl, ht, ha, hk⟩ := h
  · exact h
  · unfold MAX_HS_TRIES MAX_HANDSHAKE_ATTEMPTS at *
    omega

theorem failed_finish {s : ClientState K} (h : ∃ e, s = .failed e)
    (as : List (Arrival Received)) :
    ∃ e, (clientMachine cfg draws rng).finish s as = .failed e := by
  have hexp : ∀ (s : ClientState K) (d : Nat), (∃ e, s = .failed e) →
      (clientMachine cfg draws rng).deadline s = some d →
        ∃ e, (clientMachine cfg draws rng).expire s d = .failed e := by
    rintro _ d ⟨e, rfl⟩ hd
    cases hd
  refine Machine.pass_induct (I := fun s : ClientState K => ∃ e, s = .failed e) ?_ hexp
  refine Machine.play_induct (I := fun s : ClientState K => ∃ e, s = .failed e) h hexp ?_ as
  rintro _ t x ⟨e, rfl⟩
  refine ⟨e, ?_⟩
  cases x with
  | error e => rfl
  | ok p => rfl

theorem arrive_hs2_alike (rng' : Instant → K.Rng) {n n' : Nat} {cookie cookie' : Option Cookie}
    {deadline deadline' now : Instant} {data msg2 : Bytes}
    (hu : unshapeHs K data = some (.hs2, msg2)) :
    ((clientMachine cfg draws rng).arrive (.awaitHs2 attempt n seed hs msg1 cookie deadline) now
        (.ok (data, cfg.serverAddr))).bare =
      ((clientMachine cfg draws rng').arrive
        (.awaitHs2 attempt n' seed hs msg1 cookie' deadline') now
        (.ok (data, cfg.serverAddr))).bare := by
  have harr (rng : Instant → K.Rng) (n : Nat) (cookie : Option Cookie) (deadline : Instant) :
      (clientMachine cfg draws rng).arrive (.awaitHs2 attempt n seed hs msg1 cookie deadline) now
          (.ok (data, cfg.serverAddr)) =
        (onHs2 cfg (draws.wake rng (.awaitHs2 attempt n seed hs msg1 cookie deadline) now)
          attempt seed hs msg2).1 := by
    show ClientState.woken cfg _ (.datagram data cfg.serverAddr _) = _
    rw [ClientState.woken, clientNext, if_pos rfl, Option.map_some, Option.getD_some, onDatagram,
      hu]
  rw [harr, harr]
  exact onHs2_rng (draws.wake rng' (.awaitHs2 attempt n' seed hs msg1 cookie' deadline') now)
    (rng now) attempt seed hs msg2

theorem bare_eq_hs2 {n : Nat} {cookie : Option Cookie} {deadline : Instant} {s : ClientState K}
    (h : ClientState.bare (.awaitHs2 attempt n seed hs msg1 cookie deadline) = s.bare) :
    s = .awaitHs2 attempt n seed hs msg1 cookie deadline := by
  cases s with
  | awaitReady => cases h
  | idle | connected | failed | awaitHs2 => exact h.symm

theorem bare_eq_connected {ch : DataChannel K} {s : ClientState K}
    (h : ClientState.bare (.connected seed ch) = s.bare) : s = .connected seed ch := by
  cases s with
  | awaitReady => cases h
  | idle | connected | failed | awaitHs2 => exact h.symm

theorem called_alike (start : Instant) (rng' : Instant → K.Rng) :
    (called cfg draws rng start).bare = (called cfg draws rng' start).bare :=
  congrArg ClientState.bare
    (beginAttempt_rng (draws.wake rng' .idle start) (rng start) 0)

end

/-- A call that returns a channel keeps its outcome and the attempt when
irrelevant datagrams are inserted before the Hs2 of an attempt, just when the
turns up to the Hs2 stay below the tries of an attempt; and thirty-six of them
end any call with an error. -/
theorem irrelevant_datagrams_iff {cfg : ClientCfg} {draws : Draws K} {rng rng' : Instant → K.Rng}
    {start : Instant} {S B B' T : List (Arrival Received)} {now : Instant} {data msg2 : Bytes}
    {attempt tries tries' : Nat} {seed seed' : Key} {hs : K.Handshake} {msg1 : Bytes}
    {cookie cookie' : Option Cookie} {deadline deadline' : Instant} {ch : DataChannel K}
    (hS : (clientMachine cfg draws rng).play (called cfg draws rng start) S =
      .awaitHs2 attempt tries seed hs msg1 cookie deadline)
    (hB : ∀ a ∈ B, Quiet K cfg a)
    (hwait : (clientMachine cfg draws rng).pass (some now)
        ((clientMachine cfg draws rng).play (called cfg draws rng start) (S ++ B)) =
      .awaitHs2 attempt tries' seed hs msg1 cookie' deadline')
    (hu : unshapeHs K data = some (.hs2, msg2))
    (hok : clientUdpHandshake cfg draws rng start
      (S ++ B ++ ⟨now, .ok (data, cfg.serverAddr)⟩ :: T) = .connected seed' ch)
    (hins : Inserted K cfg B B') :
    ((clientUdpHandshake cfg draws rng' start
        (S ++ B' ++ ⟨now, .ok (data, cfg.serverAddr)⟩ :: T) = .connected seed' ch ∧
      ∃ n c d, (clientMachine cfg draws rng').pass (some now)
        ((clientMachine cfg draws rng').play (called cfg draws rng' start) (S ++ B')) =
          .awaitHs2 attempt n seed hs msg1 c d) ↔
      tries + turns cfg deadline B' now < MAX_HS_TRIES) ∧
    ∀ J, (∀ a ∈ J, Irrelevant K cfg a) → 36 ≤ J.length → ∃ e,
      clientUdpHandshake cfg draws rng' start
        (S ++ J ++ B ++ ⟨now, .ok (data, cfg.serverAddr)⟩ :: T) = .failed e := by
  have htries : tries < MAX_HS_TRIES := by
    have hfrom : ((clientMachine cfg draws rng).play (called cfg draws rng start) S).From 0 :=
      play_from draws rng (beginAttempt_from _ (Nat.le_refl 0)) S
    rw [hS] at hfrom
    exact hfrom.2
  have hstand : Stands attempt seed hs msg1 tries deadline
      (.awaitHs2 attempt tries seed hs msg1 cookie deadline : ClientState K) := by
    rw [Stands, if_pos htries]
    exact ⟨cookie, rfl⟩
  -- up to the insertion the two calls are in the same state
  have hS' : (clientMachine cfg draws rng').play (called cfg draws rng' start) S =
      .awaitHs2 attempt tries seed hs msg1 cookie deadline := by
    refine bare_eq_hs2 ?_
    rw [← hS]
    exact (clientMachine_alike cfg draws rng rng').play S (called_alike start rng')
  obtain ⟨d', hturns⟩ := play_stands draws rng' hstand (hins.quiet hB) now
  refine ⟨⟨?_, ?_⟩, ?_⟩
  · rintro ⟨-, n, c, d, hX⟩
    by_contra hge
    have hfrom := hturns.past (Nat.le_of_not_lt hge)
    rw [← hS', ← Machine.play_append, hX] at hfrom
    exact absurd hfrom.1 (Nat.not_succ_le_self attempt)
  · intro hlt
    obtain ⟨c, hX⟩ := hturns.waiting hlt
    rw [← hS', ← Machine.play_append] at hX
    refine ⟨?_, _, c, d', hX⟩
    rw [clientUdpHandshake, Machine.finish_append, Machine.finish_cons, hwait] at hok
    rw [clientUdpHandshake, Machine.finish_append, Machine.finish_cons, hX]
    refine bare_eq_connected ?_
    rw [← hok]
    exact (clientMachine_alike cfg draws rng rng').finish T (arrive_hs2_alike rng' hu)
  · intro J hJ hlen
    have hworn : Worn attempt 0
        (.awaitHs2 attempt tries seed hs msg1 cookie deadline : ClientState K) :=
      .inr ⟨_, _, _, _, _, _, _, rfl, htries, .inl rfl, by omega⟩
    rw [clientUdpHandshake, List.append_assoc, List.append_assoc, Machine.finish_append, hS',
      Machine.finish_append]
    exact failed_finish ((play_worn hworn hJ).mono (by omega)).failed _

end Obfs.Udp

namespace Obfs.Symbolic
open Udp Timed

def callDraws : Draws crates := ⟨fun n => keyOf (n + 1).toUInt8, fun n => (n + 5).toUInt8⟩

def arrivalAt (ms : Nat) (dgram : Bytes) : Arrival Received := ⟨fromMillis ms, .ok (dgram, addr 0)⟩

def ready : Arrival Received := arrivalAt 200 (data s2cKey 0 .pong)

def stray : Arrival Received := arrivalAt 50 []

theorem stray_irrelevant : Irrelevant crates clientCfg stray :=
  ⟨[], rfl, fun _ _ h => by cases h⟩

/-- Twelve empty datagrams use up the attempt that the server answers. -/
theorem strays_end_call :
    (∀ a ∈ List.replicate 12 stray, Irrelevant crates clientCfg a) ∧
    (clientUdpHandshake clientCfg callDraws (fun _ => ()) 0
      [arrivalAt 100 (hs2 5 6), ready]).isConnected = true ∧
    ∃ e, clientUdpHandshake clientCfg callDraws (fun _ => ()) 0
      (List.replicate 12 stray ++ [arrivalAt 100 (hs2 5 6), ready]) = .failed e := by
  refine ⟨?_, by decide +kernel, ?_⟩
  · intro a ha
    rw [List.eq_of_mem_replicate ha]
    exact stray_irrelevant
  · have hlost : (clientUdpHandshake clientCfg callDraws (fun _ => ()) 0
        (List.replicate 12 stray ++ [arrivalAt 100 (hs2 5 6), ready])).isConnected = false := by
      decide +kernel
    obtain ⟨seed, ch, h⟩ | h := handshake_returns clientCfg callDraws (fun _ => ()) 0
      (List.replicate 12 stray ++ [arrivalAt 100 (hs2 5 6), ready])
    · rw [h] at hlost
      cases hlost
    · exact h

theorem irrelevant_datagrams_iff_one :
    ∃ seed ch,
      clientUdpHandshake clientCfg callDraws (fun _ => ()) 0 [arrivalAt 100 (hs2 5 6), ready] =
        .connected seed ch ∧
      clientUdpHandshake clientCfg callDraws (fun _ => ()) 0
        [stray, arrivalAt 100 (hs2 5 6), ready] = .connected seed ch := by
  have hconn : (clientUdpHandshake clientCfg callDraws (fun _ => ()) 0
      [arrivalAt 100 (hs2 5 6), ready]).isConnected = true := by decide +kernel
  obtain ⟨seed, ch, h⟩ | ⟨e, h⟩ := handshake_returns clientCfg callDraws (fun _ => ()) 0
    [arrivalAt 100 (hs2 5 6), ready]
  · refine ⟨seed, ch, h, ?_⟩
    obtain ⟨hs, msg1, d, hS, hwait, hlt⟩ : ∃ hs msg1 d,
        (clientMachine clientCfg callDraws fun _ => ()).play
          (called clientCfg callDraws (fun _ => ()) 0) [] =
            .awaitHs2 0 0 (keyOf 1) hs msg1 none d ∧
        (clientMachine clientCfg callDraws fun _ => ()).pass (some (fromMillis 100))
          ((clientMachine clientCfg callDraws fun _ => ()).play
            (called clientCfg callDraws (fun _ => ()) 0) ([] ++ [])) =
              .awaitHs2 0 0 (keyOf 1) hs msg1 none d ∧
        0 + turns clientCfg d [stray] (fromMillis 100) < MAX_HS_TRIES :=
      ⟨_, _, _, rfl, rfl, by decide⟩
    have hu : unshapeHs crates (hs2 5 6) = some (.hs2, msg2 5 6) := rfl
    have hok : clientUdpHandshake clientCfg callDraws (fun _ => ()) 0
        ([] ++ [] ++ ⟨fromMillis 100, .ok (hs2 5 6, clientCfg.serverAddr)⟩ :: [ready]) =
          .connected seed ch := h
    exact ((irrelevant_datagrams_iff hS (List.forall_mem_nil _) hwait hu hok
      (.insert stray_irrelevant .nil)).1.mpr hlt).1
  · rw [h] at hconn
    cases hconn

end Obfs.Symbolic

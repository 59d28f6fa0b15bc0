import Obfs.Lib.Timed
import Obfs.Udp.ClientSteps

/-! The call of client_udp_handshake against a schedule of what its socket
receives and when, with a socket that takes what is sent: it always returns, it
never goes back to an attempt, and what it draws for the padding of datagrams
makes no difference. -/
namespace Obfs.Udp
open Timed
variable {K : Crates}

/-- The draws of a call: the seed and the ephemeral key of each attempt. -/
structure Draws (K : Crates) where
  seed : Nat → Key
  entropy : Nat → K.Entropy

abbrev Received := Except IoError (Bytes × SocketAddr)

namespace ClientState

def nextAttempt : ClientState K → Nat
  | .awaitHs2 attempt .. => attempt + 1
  | .awaitReady attempt .. => attempt + 1
  | _ => 0

def deadline : ClientState K → Option Instant
  | .awaitHs2 _ _ _ _ _ _ deadline => some deadline
  | .awaitReady _ _ _ _ _ deadline => some deadline
  | _ => none

/- More than the timers that can still fire: of the attempt that runs, and of
those that can follow it. -/
def rank : ClientState K → Nat
  | .awaitHs2 attempt tries .. => 17 * (2 - attempt) + 5 + (12 - tries)
  | .awaitReady attempt resends .. => 17 * (2 - attempt) + 1 + (3 - resends)
  | _ => 0

def woken (cfg : ClientCfg) (s : ClientState K) (e : ClientEvent K) : ClientState K :=
  ((clientNext cfg s e).map Prod.fst).getD s

end ClientState

def Draws.wake (draws : Draws K) (rng : Instant → K.Rng) (s : ClientState K) (now : Instant) :
    Wake K :=
  ⟨now, draws.seed s.nextAttempt, draws.entropy s.nextAttempt, rng now, .ok ()⟩

section
variable (cfg : ClientCfg) (draws : Draws K) (rng : Instant → K.Rng)

theorem beginAttempt_rank (n : Nat) (w : Wake K) :
    (beginAttempt cfg n w).1.rank ≤ 17 * (3 - n) := by
  unfold beginAttempt
  split
  · rename_i hn
    simp only [initiateAttempt]
    split
    · exact Nat.zero_le _
    · split
      · exact Nat.zero_le _
      · unfold sendHs1
        split
        · exact Nat.zero_le _
        · unfold MAX_HANDSHAKE_ATTEMPTS at hn
          simp only [ClientState.rank]
          omega
  · exact Nat.zero_le _

theorem woken_timer_hs2 {w : Wake K} {attempt tries : Nat} {seed : Key} {hs : K.Handshake}
    {msg1 : Bytes} {cookie : Option Cookie} {deadline : Instant} (h : deadline ≤ w.now) :
    ClientState.woken cfg (.awaitHs2 attempt tries seed hs msg1 cookie deadline) (.timer w) =
      (retryHs1 cfg w attempt tries seed hs msg1 cookie).1 := by
  rw [ClientState.woken, clientNext, if_pos h]
  rfl

theorem woken_timer_ready {w : Wake K} {attempt resends : Nat} {seed : Key}
    {channel : DataChannel K} {wire3 : Bytes} {deadline : Instant} (h : deadline ≤ w.now) :
    ClientState.woken cfg (.awaitReady attempt resends seed channel wire3 deadline) (.timer w) =
      (resendHs3 cfg w attempt resends seed channel wire3).1 := by
  rw [ClientState.woken, clientNext, if_pos h]
  rfl

theorem rank_woken {s : ClientState K} {d : Instant} (hd : s.deadline = some d) :
    (s.woken cfg (.timer (draws.wake rng s d))).rank < s.rank := by
  cases s with
  | idle | connected | failed => cases hd
  | awaitHs2 attempt tries seed hs msg1 cookie deadline =>
    cases hd
    have hb := beginAttempt_rank cfg (attempt + 1)
      (draws.wake rng (.awaitHs2 attempt tries seed hs msg1 cookie d) d)
    rw [woken_timer_hs2 cfg (Nat.le_refl d), retryHs1]
    split
    · rename_i ht
      simp only [MAX_HS_TRIES] at ht
      simp only [sendHs1, Draws.wake, ClientState.rank]
      omega
    · refine Nat.lt_of_le_of_lt hb ?_
      simp only [ClientState.rank]
      omega
  | awaitReady attempt resends seed channel wire3 deadline =>
    cases hd
    have hb := beginAttempt_rank cfg (attempt + 1)
      (draws.wake rng (.awaitReady attempt resends seed channel wire3 d) d)
    rw [woken_timer_ready cfg (Nat.le_refl d), resendHs3]
    split
    · simp only [ClientState.rank]
      omega
    · refine Nat.lt_of_le_of_lt hb ?_
      simp only [ClientState.rank]
      omega

/-- The call as a machine that waits with a timer. -/
def clientMachine : Machine (ClientState K) Received where
  deadline := ClientState.deadline
  expire s d := s.woken cfg (.timer (draws.wake rng s d))
  arrive s now received :=
    match received with
    | .ok (data, src) => s.woken cfg (.datagram data src (draws.wake rng s now))
    | .error e => s.woken cfg (.recvError e (draws.wake rng s now))
  rank := ClientState.rank
  rank_expire _ _ hd := rank_woken cfg draws rng hd

def called (start : Instant) : ClientState K :=
  ClientState.woken cfg .idle (.call (draws.wake rng .idle start))

/-- How the call ends when it begins at start and its socket receives what the
schedule says. -/
def clientUdpHandshake (start : Instant) (schedule : List (Arrival Received)) : ClientState K :=
  (clientMachine cfg draws rng).finish (called cfg draws rng start) schedule

/- Neither the datagrams sent nor the kept Hs3 come into what the call does next. -/
def ClientState.bare : ClientState K → ClientState K
  | .awaitReady attempt resends seed channel _ deadline =>
    .awaitReady attempt resends seed channel [] deadline
  | s => s

section
variable {cfg} (w : Wake K) (r : K.Rng)

theorem sendHs1_rng (attempt tries : Nat) (seed : Key) (hs : K.Handshake) (msg1 : Bytes)
    (cookie : Option Cookie) :
    (sendHs1 { w with rng := r } attempt tries seed hs msg1 cookie).1 =
      (sendHs1 w attempt tries seed hs msg1 cookie).1 := by
  simp only [sendHs1]
  cases w.sent with
  | error e => rfl
  | ok u => rfl

theorem beginAttempt_rng (n : Nat) :
    (beginAttempt cfg n { w with rng := r }).1 = (beginAttempt cfg n w).1 := by
  unfold beginAttempt
  split
  · simp only [initiateAttempt]
    cases K.initiator cfg.keypair.priv cfg.serverPub w.entropy with
    | error e => rfl
    | ok hs =>
      simp only
      split
      · rfl
      · exact sendHs1_rng w r ..
  · rfl

theorem retryHs1_rng (attempt tries : Nat) (seed : Key) (hs : K.Handshake) (msg1 : Bytes)
    (cookie : Option Cookie) :
    (retryHs1 cfg { w with rng := r } attempt tries seed hs msg1 cookie).1 =
      (retryHs1 cfg w attempt tries seed hs msg1 cookie).1 := by
  unfold retryHs1
  split
  · exact sendHs1_rng w r ..
  · exact beginAttempt_rng w r _

theorem onHs2_rng (attempt : Nat) (seed : Key) (hs : K.Handshake) (msg2 : Bytes) :
    (onHs2 cfg { w with rng := r } attempt seed hs msg2).1.bare =
      (onHs2 cfg w attempt seed hs msg2).1.bare := by
  unfold onHs2
  split
  · rw [beginAttempt_rng]
  · split
    · rw [beginAttempt_rng]
    · simp only
      cases w.sent with
      | error e => rfl
      | ok u => rfl

theorem resendHs3_rng (attempt resends : Nat) (seed : Key) (channel : DataChannel K)
    (wire3 : Bytes) :
    (resendHs3 cfg { w with rng := r } attempt resends seed channel []).1.bare =
      (resendHs3 cfg w attempt resends seed channel wire3).1.bare := by
  unfold resendHs3
  split
  · rfl
  · rw [beginAttempt_rng]

theorem onDatagram_rng (s : ClientState K) (data : Bytes) :
    (onDatagram cfg s.bare data { w with rng := r }).1.bare =
      (onDatagram cfg s data w).1.bare := by
  cases s with
  | idle | connected | failed => rfl
  | awaitHs2 attempt tries seed hs msg1 cookie deadline =>
    show (onDatagram cfg (.awaitHs2 attempt tries seed hs msg1 cookie deadline) data _).1.bare = _
    rw [onDatagram, onDatagram]
    split
    · exact onHs2_rng w r ..
    · split
      · rw [retryHs1_rng]
      · rw [retryHs1_rng]
    · rw [retryHs1_rng]
  | awaitReady attempt resends seed channel wire3 deadline =>
    show (onDatagram cfg (.awaitReady attempt resends seed channel [] deadline) data _).1.bare = _
    rw [onDatagram, onDatagram]
    split
    · rfl
    · rfl

end

theorem woken_timer_rng (s : ClientState K) (w : Wake K) (r : K.Rng) :
    (s.bare.woken cfg (.timer { w with rng := r })).bare = (s.woken cfg (.timer w)).bare := by
  cases s with
  | idle | connected | failed => rfl
  | awaitHs2 attempt tries seed hs msg1 cookie deadline =>
    show (ClientState.woken cfg (.awaitHs2 attempt tries seed hs msg1 cookie deadline) _).bare = _
    rw [ClientState.woken, ClientState.woken, clientNext, clientNext]
    split
    · exact congrArg _ (retryHs1_rng w r ..)
    · rfl
  | awaitReady attempt resends seed channel wire3 deadline =>
    show (ClientState.woken cfg (.awaitReady attempt resends seed channel [] deadline) _).bare = _
    rw [ClientState.woken, ClientState.woken, clientNext, clientNext]
    split
    · exact resendHs3_rng w r ..
    · rfl

theorem woken_recvError_rng (s : ClientState K) (e : IoError) (w : Wake K) (r : K.Rng) :
    (s.bare.woken cfg (.recvError e { w with rng := r })).bare =
      (s.woken cfg (.recvError e w)).bare := by
  cases s with
  | idle | connected | failed | awaitHs2 => rfl
  | awaitReady attempt resends seed channel wire3 deadline => exact resendHs3_rng w r ..

theorem woken_datagram_rng (s : ClientState K) (data : Bytes) (src : SocketAddr) (w : Wake K)
    (r : K.Rng) :
    (s.bare.woken cfg (.datagram data src { w with rng := r })).bare =
      (s.woken cfg (.datagram data src w)).bare := by
  cases s with
  | idle | connected | failed => rfl
  | awaitHs2 attempt tries seed hs msg1 cookie deadline =>
    show (ClientState.woken cfg (.awaitHs2 attempt tries seed hs msg1 cookie deadline) _).bare = _
    rw [ClientState.woken, ClientState.woken, clientNext, clientNext]
    split
    · exact onDatagram_rng w r (.awaitHs2 attempt tries seed hs msg1 cookie deadline) data
    · rfl
  | awaitReady attempt resends seed channel wire3 deadline =>
    show (ClientState.woken cfg (.awaitReady attempt resends seed channel [] deadline) _).bare = _
    rw [ClientState.woken, ClientState.woken, clientNext, clientNext]
    split
    · exact onDatagram_rng w r (.awaitReady attempt resends seed channel wire3 deadline) data
    · rfl

theorem wake_bare (rng' : Instant → K.Rng) (s : ClientState K) (now : Instant) :
    draws.wake rng' s.bare now = { draws.wake rng s now with rng := rng' now } := by
  cases s with
  | idle | connected | failed | awaitHs2 | awaitReady => rfl

theorem deadline_bare (s : ClientState K) : s.bare.deadline = s.deadline := by
  cases s with
  | idle | connected | failed | awaitHs2 | awaitReady => rfl

theorem expire_bare (rng' : Instant → K.Rng) (s : ClientState K) (d : Instant) :
    ((clientMachine cfg draws rng').expire s.bare d).bare =
      ((clientMachine cfg draws rng).expire s d).bare := by
  show (s.bare.woken cfg (.timer (draws.wake rng' s.bare d))).bare = _
  rw [wake_bare draws rng rng']
  exact woken_timer_rng cfg s _ _

theorem arrive_bare (rng' : Instant → K.Rng) (s : ClientState K) (now : Instant) (x : Received) :
    ((clientMachine cfg draws rng').arrive s.bare now x).bare =
      ((clientMachine cfg draws rng).arrive s now x).bare := by
  cases x with
  | error e =>
    show (s.bare.woken cfg (.recvError e (draws.wake rng' s.bare now))).bare = _
    rw [wake_bare draws rng rng']
    exact woken_recvError_rng cfg s e _ _
  | ok p =>
    show (s.bare.woken cfg (.datagram p.1 p.2 (draws.wake rng' s.bare now))).bare = _
    rw [wake_bare draws rng rng']
    exact woken_datagram_rng cfg s p.1 p.2 _ _

theorem clientMachine_alike (rng' : Instant → K.Rng) :
    Machine.Alike (clientMachine cfg draws rng) (clientMachine cfg draws rng')
      fun s s' => s.bare = s'.bare where
  deadline s s' h := by
    show s.deadline = s'.deadline
    rw [← deadline_bare s, h, deadline_bare]
  expire s s' d h := by
    rw [← expire_bare cfg draws rng rng' s, h]
    exact expire_bare cfg draws rng' rng' s' d
  arrive s s' now x h := by
    rw [← arrive_bare cfg draws rng rng' s, h]
    exact arrive_bare cfg draws rng' rng' s' now x

end

def ClientState.From (first : Nat) : ClientState K → Prop
  | .idle => False
  | .awaitHs2 attempt tries .. => first ≤ attempt ∧ tries < MAX_HS_TRIES
  | .awaitReady attempt .. => first ≤ attempt
  | .connected .. => True
  | .failed _ => True

section
variable {cfg : ClientCfg} {first : Nat}

theorem beginAttempt_from {n : Nat} (w : Wake K) (h : first ≤ n) :
    (beginAttempt cfg n w).1.From first := by
  unfold beginAttempt
  split
  · simp only [initiateAttempt]
    split
    · trivial
    · split
      · trivial
      · unfold sendHs1
        split
        · trivial
        · exact ⟨h, by decide⟩
  · trivial

theorem retryHs1_from {n : Nat} (w : Wake K) (h : first ≤ n) (tries : Nat) (seed : Key)
    (hs : K.Handshake) (msg1 : Bytes) (cookie : Option Cookie) :
    (retryHs1 cfg w n tries seed hs msg1 cookie).1.From first := by
  unfold retryHs1
  split
  · rename_i ht
    unfold sendHs1
    split
    · trivial
    · exact ⟨h, ht⟩
  · exact beginAttempt_from w (Nat.le_succ_of_le h)

theorem onHs2_from {n : Nat} (w : Wake K) (h : first ≤ n) (seed : Key) (hs : K.Handshake)
    (msg2 : Bytes) : (onHs2 cfg w n seed hs msg2).1.From first := by
  unfold onHs2
  split
  · exact beginAttempt_from w (Nat.le_succ_of_le h)
  · split
    · exact beginAttempt_from w (Nat.le_succ_of_le h)
    · simp only
      split
      · trivial
      · exact h

theorem resendHs3_from {n : Nat} (w : Wake K) (h : first ≤ n) (resends : Nat) (seed : Key)
    (channel : DataChannel K) (wire3 : Bytes) :
    (resendHs3 cfg w n resends seed channel wire3).1.From first := by
  unfold resendHs3
  split
  · exact h
  · exact beginAttempt_from w (Nat.le_succ_of_le h)

theorem onDatagram_from {s : ClientState K} (h : s.From first) (data : Bytes) (w : Wake K) :
    (onDatagram cfg s data w).1.From first := by
  unfold onDatagram
  split
  · split
    · exact onHs2_from w h.1 ..
    · split
      · exact retryHs1_from w h.1 ..
      · exact retryHs1_from w h.1 ..
    · exact retryHs1_from w h.1 ..
  · split
    · trivial
    · exact h
  · exact h

theorem woken_from_of {s : ClientState K} {e : ClientEvent K} (h : s.From first)
    (hn : ∀ next, clientNext cfg s e = some next → next.1.From first) :
    (s.woken cfg e).From first := by
  unfold ClientState.woken
  cases hc : clientNext cfg s e with
  | none => exact h
  | some next => exact hn next hc

theorem expire_from (draws : Draws K) (rng : Instant → K.Rng) {s : ClientState K}
    (h : s.From first) (d : Instant) :
    ((clientMachine cfg draws rng).expire s d).From first := by
  refine woken_from_of h ?_
  intro next hn
  simp only [clientNext] at hn
  split at hn
  · split at hn
    · cases hn
      exact retryHs1_from _ h.1 ..
    · cases hn
  · split at hn
    · cases hn
      exact resendHs3_from _ h ..
    · cases hn
  · cases hn

theorem arrive_from (draws : Draws K) (rng : Instant → K.Rng) {s : ClientState K}
    (h : s.From first) (now : Instant) (x : Received) :
    ((clientMachine cfg draws rng).arrive s now x).From first := by
  cases x with
  | error e =>
    refine woken_from_of h ?_
    intro next hn
    simp only [clientNext] at hn
    split at hn
    · cases hn
      trivial
    · cases hn
      exact resendHs3_from _ h ..
    · cases hn
  | ok p =>
    refine woken_from_of h ?_
    intro next hn
    simp only [clientNext] at hn
    split at hn
    all_goals first
      | cases hn
      | split at hn
        · cases hn
          exact onDatagram_from h ..
        · cases hn
          exact h

theorem pass_from (draws : Draws K) (rng : Instant → K.Rng) (stop : Option Nat)
    {s : ClientState K} (h : s.From first) :
    ((clientMachine cfg draws rng).pass stop s).From first :=
  Machine.pass_induct h fun _ _ h _ => expire_from draws rng h _

theorem play_from (draws : Draws K) (rng : Instant → K.Rng) {s : ClientState K}
    (h : s.From first) (as : List (Arrival Received)) :
    ((clientMachine cfg draws rng).play s as).From first :=
  Machine.play_induct h (fun _ _ h _ => expire_from draws rng h _)
    (fun _ _ _ h => arrive_from draws rng h _ _) as

/-- Whatever the schedule, the call returns a channel or an error. -/
theorem handshake_returns (cfg : ClientCfg) (draws : Draws K) (rng : Instant → K.Rng)
    (start : Instant) (schedule : List (Arrival Received)) :
    (∃ seed ch, clientUdpHandshake cfg draws rng start schedule = .connected seed ch) ∨
      ∃ e, clientUdpHandshake cfg draws rng start schedule = .failed e := by
  have hfrom : (clientUdpHandshake cfg draws rng start schedule).From 0 :=
    pass_from draws rng none (play_from draws rng (beginAttempt_from _ (Nat.le_refl 0)) schedule)
  have hdue : (clientMachine cfg draws rng).due none
      (clientUdpHandshake cfg draws rng start schedule) = none := Machine.due_pass none _
  cases h : clientUdpHandshake cfg draws rng start schedule with
  | idle =>
    rw [h] at hfrom
    exact hfrom.elim
  | awaitHs2 | awaitReady =>
    rw [h] at hdue
    cases hdue
  | connected seed ch => exact .inl ⟨seed, ch, rfl⟩
  | failed e => exact .inr ⟨e, rfl⟩

end

end Obfs.Udp

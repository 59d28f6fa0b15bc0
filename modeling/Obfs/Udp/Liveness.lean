import Obfs.Udp.Provenance
import Obfs.Symbolic

/-! What keeps a peer alive. The handler notes the time of every Data datagram
from a peer's address before it opens the datagram, so the time that decides
about the eviction need not be that of an authentic one. -/
namespace Obfs.Udp
open Trace
variable {K : Crates} (cfg : ServerCfg K)

/- The effects that authenticate the datagram of a step: a handshake completed
   or a record opened. -/
def Effect.authentic : Effect K → Bool
  | .install _ _ _ => true
  | .received _ _ => true
  | _ => false

/-- The time of a step that installs the peer at src or opens a record from it. -/
def authenticTime (src : SocketAddr) (t : ServerStep K) : Option Instant :=
  match t.event with
  | .recv inp => if inp.src = src ∧ t.out.any Effect.authentic = true then some inp.now else none
  | _ => none

/-- The time when the peer at src was installed or last sent a record that the
server opened, whichever is later in the history. -/
def lastAuthentic (src : SocketAddr) (h : List (ServerStep K)) : Option Instant :=
  h.foldl (fun last t => (authenticTime src t).or last) none

theorem lastAuthentic_snoc (src : SocketAddr) (h : List (ServerStep K)) (t : ServerStep K) :
    lastAuthentic src (h ++ [t]) = (authenticTime src t).or (lastAuthentic src h) := by
  simp [lastAuthentic]

def SeenAuthentic (h : List (ServerStep K)) (s : ServerState K) : Prop :=
  ∀ src p, s.peers.lookup src = some p → lastAuthentic src h = some p.lastSeen

/-- Step t handles a Data datagram from the address of a peer, at another time
than the peer was last seen, that the peer's channel does not open. -/
def Unauthentic (t : ServerStep K) : Prop :=
  ∃ inp body p, t.event = .recv inp ∧ unshapeHs K inp.dgram = some (.data, body) ∧
    t.pre.peers.lookup inp.src = some p ∧ p.lastSeen ≠ inp.now ∧
    ∀ ses env, t.pre.sessions[p.session]? = some ses →
      (ses.channel.openDatagram inp.dgram).1 ≠ .ok (some env)

def arm (s : ServerState K) (inp : Inbound K) (body : Bytes) : DgramType → Flow K
  | .hs1 => handleHs1 cfg s inp body
  | .hs3 => handleHs3 cfg s inp body
  | .data => handleData cfg s inp
  | _ => .next s []

theorem handleDgram_arm {s : ServerState K} {inp : Inbound K} {ty : DgramType} {body : Bytes}
    (hu : unshapeHs K inp.dgram = some (ty, body)) :
    handleDgram cfg s inp = (arm cfg s inp body ty).finish inp.now := by
  rw [handleDgram_eq cfg hu]
  cases ty <;> rfl

/-- Step t reaches the cleanup behind the arms, at time now. -/
def RunsCleanup (t : ServerStep K) (now : Instant) : Prop :=
  (∃ rng, t.event = .respond now rng) ∨
    ∃ inp ty body s o, t.event = .recv inp ∧ inp.now = now ∧
      unshapeHs K inp.dgram = some (ty, body) ∧ arm cfg t.pre inp body ty = .next s o

variable {cfg}

theorem RunsCleanup.post {s s' : ServerState K} {e : ServerEvent K} {o : List (Effect K)}
    {now : Instant} (hc : RunsCleanup cfg ⟨s, e, o, s'⟩ now)
    (hn : serverNext cfg s e = some (s', o)) : ∃ s1, s' = cleanup now s1 := by
  obtain ⟨rng, rfl⟩ | ⟨inp, ty, body, s1, o1, rfl, rfl, hu, ha⟩ := hc
  · cases serverNext_case cfg hn with
    | respond hv hs => exact ⟨_, rfl⟩
  · have heq := ((serverNext_recv cfg).mp hn).2
    rw [handleDgram_arm cfg hu, ha] at heq
    exact ⟨s1, (Prod.mk.inj heq).1.symm⟩

section Arms
variable (cfg) {s : ServerState K} {inp : Inbound K}

/- The peers after an arm that takes them as m: all of them, or the active ones. -/
def Kept (now : Instant) (m m' : AList fun _ : SocketAddr => PeerState) : Prop :=
  m' = m ∨ m' = m.retain (peerActive now)

theorem Kept.lookup {now : Instant} {m m' : AList fun _ : SocketAddr => PeerState}
    (hk : Kept now m m') {src : SocketAddr} {p : PeerState} (hl : m'.lookup src = some p) :
    m.lookup src = some p := by
  obtain rfl | rfl := hk
  · exact hl
  · rw [AList.lookup_retain] at hl
    exact (Option.filter_eq_some_iff.mp hl).1

theorem handleHs1_peers (s : ServerState K) (inp : Inbound K) (body : Bytes) :
    Kept inp.now s.peers ((handleHs1 cfg s inp body).finish inp.now).1.peers ∧
      ((handleHs1 cfg s inp body).finish inp.now).2.any Effect.authentic = false := by
  unfold handleHs1
  split
  · exact ⟨Or.inl rfl, rfl⟩
  · split
    · exact ⟨Or.inr rfl, rfl⟩
    · split
      · exact ⟨Or.inl rfl, rfl⟩
      · exact ⟨Or.inr rfl, rfl⟩
    · exact ⟨Or.inr rfl, rfl⟩

theorem handleHs3_peers (s : ServerState K) (inp : Inbound K) (body : Bytes) :
    (Kept inp.now s.peers ((handleHs3 cfg s inp body).finish inp.now).1.peers ∧
      ((handleHs3 cfg s inp body).finish inp.now).2.any Effect.authentic = false) ∨
    Kept inp.now (s.peers.insert inp.src ⟨s.sessions.length, inp.now⟩)
        ((handleHs3 cfg s inp body).finish inp.now).1.peers ∧
      ((handleHs3 cfg s inp body).finish inp.now).2.any Effect.authentic = true := by
  unfold handleHs3
  split
  · exact Or.inl ⟨Or.inl rfl, rfl⟩
  · simp only
    split
    · exact Or.inl ⟨Or.inr rfl, rfl⟩
    · split
      · exact Or.inl ⟨Or.inl rfl, rfl⟩
      · exact Or.inr ⟨Or.inr rfl, rfl⟩

theorem dispatch_peers (s : ServerState K) (inp : Inbound K) (n : Nat) (ch : DataChannel K)
    (env : Envelope K.core) :
    Kept inp.now s.peers ((dispatch cfg s inp n ch env).finish inp.now).1.peers := by
  cases env with
  | request req => exact Or.inl rfl
  | subscribe topic filter capability =>
    simp only [dispatch, handleSubscribe]
    split
    · exact Or.inr rfl
    · split
      · exact Or.inr rfl
      · exact Or.inr rfl
  | _ => exact Or.inr rfl

theorem handleData_opened {p : PeerState} {ses : Session K} {env : Envelope K.core}
    (hp : s.peers.lookup inp.src = some p) (hs : s.sessions[p.session]? = some ses)
    (ho : (ses.channel.openDatagram inp.dgram).1 = .ok (some env)) :
    Kept inp.now (s.peers.insert inp.src { p with lastSeen := inp.now })
        ((handleData cfg s inp).finish inp.now).1.peers ∧
      ((handleData cfg s inp).finish inp.now).2.any Effect.authentic = true := by
  simp only [handleData, hp, ServerState.touch_sessions, hs, ho]
  have hk := dispatch_peers cfg (afterOpen s inp p ses) inp p.session
    (ses.channel.openDatagram inp.dgram).2 env
  cases hd : dispatch cfg (afterOpen s inp p ses) inp p.session
      (ses.channel.openDatagram inp.dgram).2 env with
  | done s' out | next s' out =>
    rw [hd] at hk
    rw [← afterOpen, hd]
    exact ⟨hk, rfl⟩

theorem handleData_unopened {p : PeerState} (hp : s.peers.lookup inp.src = some p)
    (ho : ∀ ses env, s.sessions[p.session]? = some ses →
      (ses.channel.openDatagram inp.dgram).1 ≠ .ok (some env)) :
    ((handleData cfg s inp).finish inp.now).1.peers =
        s.peers.insert inp.src { p with lastSeen := inp.now } ∧
      ((handleData cfg s inp).finish inp.now).2 = [] := by
  simp only [handleData, hp, ServerState.touch_sessions]
  split
  · exact ⟨rfl, rfl⟩
  · rename_i ses hs
    split
    · rename_i env he
      exact absurd he (ho ses env hs)
    · exact ⟨rfl, rfl⟩

theorem arm_peers (s : ServerState K) (inp : Inbound K) (body : Bytes) {ty : DgramType}
    (hty : ty ≠ .data) :
    (Kept inp.now s.peers ((arm cfg s inp body ty).finish inp.now).1.peers ∧
      ((arm cfg s inp body ty).finish inp.now).2.any Effect.authentic = false) ∨
    Kept inp.now (s.peers.insert inp.src ⟨s.sessions.length, inp.now⟩)
        ((arm cfg s inp body ty).finish inp.now).1.peers ∧
      ((arm cfg s inp body ty).finish inp.now).2.any Effect.authentic = true := by
  cases ty with
  | hs1 => exact Or.inl (handleHs1_peers cfg s inp body)
  | hs3 => exact handleHs3_peers cfg s inp body
  | data => exact absurd rfl hty
  | hs2 | cookie => exact Or.inl ⟨Or.inr rfl, rfl⟩

end Arms

/- What a step does to the peer at src. -/
section Step
variable {s s' : ServerState K} {e : ServerEvent K} {o : List (Effect K)} {src : SocketAddr}
  {p : PeerState}

theorem authenticTime_recv {inp : Inbound K} (hsrc : inp.src = src)
    (ha : o.any Effect.authentic = true) :
    authenticTime src ⟨s, .recv inp, o, s'⟩ = some inp.now := by
  simp [authenticTime, hsrc, ha]

theorem authenticTime_none {inp : Inbound K}
    (ha : inp.src ≠ src ∨ o.any Effect.authentic = false) :
    authenticTime src ⟨s, .recv inp, o, s'⟩ = none := by
  obtain hsrc | ha := ha
  · simp [authenticTime, hsrc]
  · simp [authenticTime, ha]

theorem seen_insert {inp : Inbound K} {q : PeerState}
    (hk : Kept inp.now (s.peers.insert inp.src q) s'.peers) (hq : q.lastSeen = inp.now)
    (ha : o.any Effect.authentic = true) (hl : s'.peers.lookup src = some p) :
    authenticTime src ⟨s, .recv inp, o, s'⟩ = some p.lastSeen ∨
      authenticTime src ⟨s, .recv inp, o, s'⟩ = none ∧ s.peers.lookup src = some p := by
  have hm := hk.lookup hl
  by_cases hsrc : src = inp.src
  · rw [hsrc, AList.lookup_insert] at hm
    cases hm
    refine Or.inl ?_
    rw [hq]
    exact authenticTime_recv hsrc.symm ha
  · rw [AList.lookup_insert_ne hsrc] at hm
    exact Or.inr ⟨authenticTime_none (Or.inl (Ne.symm hsrc)), hm⟩

theorem seen_data {inp : Inbound K} {body : Bytes}
    (hu : unshapeHs K inp.dgram = some (.data, body))
    (heq : (handleData cfg s inp).finish inp.now = (s', o)) (hl : s'.peers.lookup src = some p) :
    authenticTime src ⟨s, .recv inp, o, s'⟩ = some p.lastSeen ∨
      authenticTime src ⟨s, .recv inp, o, s'⟩ = none ∧
        (s.peers.lookup src = some p ∨ Unauthentic ⟨s, .recv inp, o, s'⟩) := by
  cases hp : s.peers.lookup inp.src with
  | none =>
    simp only [handleData, hp] at heq
    cases heq
    exact Or.inr ⟨authenticTime_none (Or.inr rfl), Or.inl hl⟩
  | some q =>
    by_cases hopen : ∃ ses env, s.sessions[q.session]? = some ses ∧
        (ses.channel.openDatagram inp.dgram).1 = .ok (some env)
    · obtain ⟨ses, env, hs, ho⟩ := hopen
      obtain ⟨hk, ha⟩ := handleData_opened cfg hp hs ho
      rw [heq] at hk ha
      exact (seen_insert hk rfl ha hl).imp_right fun h => ⟨h.1, Or.inl h.2⟩
    · have hun : ∀ ses env, s.sessions[q.session]? = some ses →
          (ses.channel.openDatagram inp.dgram).1 ≠ .ok (some env) :=
        fun ses env hs ho => hopen ⟨ses, env, hs, ho⟩
      obtain ⟨hpeers, hout⟩ := handleData_unopened cfg hp hun
      rw [heq] at hpeers hout
      cases hout
      refine Or.inr ⟨authenticTime_none (Or.inr rfl), ?_⟩
      by_cases hnow : q.lastSeen = inp.now
      · -- the time is the one noted before
        refine Or.inl ?_
        rw [hpeers, ← hnow] at hl
        by_cases hsrc : src = inp.src
        · rw [hsrc, AList.lookup_insert] at hl
          rw [hsrc, hp]
          exact hl
        · rw [AList.lookup_insert_ne hsrc] at hl
          exact hl
      · exact Or.inr ⟨inp, body, q, rfl, hu, hp, hnow, hun⟩

theorem seen_step (hn : serverNext cfg s e = some (s', o)) (hl : s'.peers.lookup src = some p) :
    authenticTime src ⟨s, e, o, s'⟩ = some p.lastSeen ∨
      authenticTime src ⟨s, e, o, s'⟩ = none ∧
        (s.peers.lookup src = some p ∨ Unauthentic ⟨s, e, o, s'⟩) := by
  cases e with
  | recv inp =>
    have heq := ((serverNext_recv cfg).mp hn).2
    cases hu : unshapeHs K inp.dgram with
    | none =>
      rw [handleDgram_none cfg hu] at heq
      cases heq
      exact Or.inr ⟨authenticTime_none (Or.inr rfl), Or.inl hl⟩
    | some d =>
      obtain ⟨ty, body⟩ := d
      rw [handleDgram_arm cfg hu] at heq
      by_cases hty : ty = .data
      · subst hty
        exact seen_data hu heq hl
      · have harm := arm_peers cfg s inp body hty
        rw [heq] at harm
        obtain ⟨hk, ha⟩ | ⟨hk, ha⟩ := harm
        · exact Or.inr ⟨authenticTime_none (Or.inr ha), Or.inl (hk.lookup hl)⟩
        · exact (seen_insert hk rfl ha hl).imp_right fun h => ⟨h.1, Or.inl h.2⟩
  | respond now rng =>
    cases serverNext_case cfg hn with
    | respond hv hs => exact Or.inr ⟨rfl, Or.inl (Kept.lookup (Or.inr rfl) hl)⟩
  | _ =>
    refine Or.inr ⟨rfl, Or.inl ?_⟩
    cases serverNext_case cfg hn <;> exact hl

/-- The unopened datagram moves the time of its peer, and that is all it does. -/
theorem unauthentic_seen (hn : serverNext cfg s e = some (s', o))
    (hu : Unauthentic ⟨s, e, o, s'⟩) :
    o = [] ∧ ∃ src p now, s.peers.lookup src = some p ∧ p.lastSeen ≠ now ∧
      s'.peers.lookup src = some { p with lastSeen := now } := by
  obtain ⟨inp, body, p, rfl, hdata, hp, hnow, hun⟩ := hu
  have heq := ((serverNext_recv cfg).mp hn).2
  rw [handleDgram_arm cfg hdata] at heq
  obtain ⟨hpeers, hout⟩ := handleData_unopened cfg hp hun
  rw [show handleData cfg s inp = arm cfg s inp body .data from rfl, heq] at hpeers hout
  refine ⟨hout, inp.src, p, inp.now, hp, hnow, ?_⟩
  rw [hpeers]
  exact AList.lookup_insert _

theorem authenticTime_silent : authenticTime src ⟨s, e, [], s'⟩ = none := by
  cases e with
  | recv inp => exact authenticTime_none (Or.inr rfl)
  | _ => rfl

end Step

section Run
variable {secret : K.CookieSecret} {sources : Nat → Broadcast.Channel (Event K.core)}
  {h : List (ServerStep K)} {s : ServerState K}

theorem SeenAuthentic.step {s' : ServerState K} {e : ServerEvent K} {o : List (Effect K)}
    (hs : SeenAuthentic h s) (hn : serverNext cfg s e = some (s', o))
    (hu : ¬ Unauthentic ⟨s, e, o, s'⟩) : SeenAuthentic (h ++ [⟨s, e, o, s'⟩]) s' := by
  intro src p hl
  rw [lastAuthentic_snoc]
  obtain ha | ⟨ha, hp | hbad⟩ := seen_step hn hl
  · rw [ha]
    rfl
  · rw [ha]
    exact hs src p hp
  · exact absurd hbad hu

theorem seen_run (hr : ServerRun cfg (.init secret sources) h s)
    (hu : ∀ i t, At h i t → ¬ Unauthentic t) : SeenAuthentic h s := by
  induction hr with
  | nil =>
    intro src p hl
    cases hl
  | @snoc h s s' e o hr hn ih =>
    have hs := ih fun i t ht => hu i t (ht.append _)
    exact hs.step hn (hu _ _ (at_last _))

/-- The time that decides about the eviction of a peer is that of an authentic
datagram, in every state of a run, and the cleanup leaves only peers that were
authentic within the idle timeout: exactly when no step of the run handles a
Data datagram from a peer's address that does not open. -/
theorem authentic_liveness_iff (hr : ServerRun cfg (.init secret sources) h s) :
    ((∀ i s', ServerRun cfg (.init secret sources) (h.take i) s' → SeenAuthentic (h.take i) s') ∧
      ∀ i t now, At h i t → RunsCleanup cfg t now → ∀ src p, t.post.peers.lookup src = some p →
        ∃ seen, lastAuthentic src (h.take (i + 1)) = some seen ∧
          durationSince now seen < PEER_IDLE_TIMEOUT) ↔
      ∀ i t, At h i t → ¬ Unauthentic t := by
  constructor
  · rintro ⟨hseen, -⟩ i t ht hu
    obtain ⟨hout, src, p, now, hp, hne, hp'⟩ := unauthentic_seen (hr.next_eq ht) hu
    have hnone : authenticTime src t = none := by
      obtain ⟨pre, e, out, post⟩ := t
      cases hout
      exact authenticTime_silent
    have h1 := hseen i t.pre (hr.step ht).1 src p hp
    have h2 := hseen (i + 1) t.post (hr.take_succ ht) src _ hp'
    rw [ht.take_succ, lastAuthentic_snoc, hnone, Option.none_or, h1] at h2
    exact hne (Option.some.inj h2)
  · intro hu
    have hseen : ∀ i s', ServerRun cfg (.init secret sources) (h.take i) s' →
        SeenAuthentic (h.take i) s' :=
      fun i s' hr' => seen_run hr' fun j u hju => hu j u hju.of_take.2
    refine ⟨hseen, ?_⟩
    intro i t now ht hc src p hl
    refine ⟨p.lastSeen, hseen (i + 1) t.post (hr.take_succ ht) src p hl, ?_⟩
    obtain ⟨s1, hpost⟩ := hc.post (hr.next_eq ht)
    rw [hpost, cleanup_peers, AList.lookup_retain] at hl
    exact of_decide_eq_true (Option.filter_eq_some_iff.mp hl).2

end Run

end Obfs.Udp

namespace Obfs.Symbolic
open Udp Trace

def junkData : Bytes := shapeHs crates .data [0] ()

/- A client connects within a second; one more datagram comes from its address
   after 100 seconds, and one of no use from elsewhere after 200 seconds. -/
def visited (dgram : Bytes) : List (ServerEvent crates) :=
  [recv (hs1 5 none) (addr 1) 0 6, recv (hs3 5 6 (keyOf 0x22) (keyOf 1)) (addr 1) (fromSecs 1) 0,
    recv dgram (addr 1) (fromSecs 100) 0,
    recv (shapeHs crates .hs2 [] ()) (addr 2) (fromSecs 200) 0]

def seenAt (src : SocketAddr) (t : ServerStep crates) : Option Instant :=
  (t.post.peers.lookup src).map (·.lastSeen)

/-- Junk keeps an abandoned peer. It is installed after one second and sends
nothing more; a junk datagram spoofed as its address after 100 seconds makes
the cleanup after 200 seconds leave it. -/
theorem junk_keeps_peer :
    ∃ h s t p, ServerRun cfg start h s ∧ At h 3 t ∧ RunsCleanup cfg t (fromSecs 200) ∧
      t.post.peers.lookup (addr 1) = some p ∧ p.lastSeen = fromSecs 100 ∧
      lastAuthentic (addr 1) (h.take 4) = some (fromSecs 1) ∧
      PEER_IDLE_TIMEOUT ≤ durationSince (fromSecs 200) (fromSecs 1) := by
  have hx : ∃ h s, ServerRun cfg start h s ∧ h.map Step.event = visited junkData ∧
      lastAuthentic (addr 1) (h.take 4) = some (fromSecs 1) ∧ h.map (seenAt (addr 1)) =
        [none, some (fromSecs 1), some (fromSecs 100), some (fromSecs 100)] :=
    Run.of_exec (fun h _ => lastAuthentic (addr 1) (h.take 4) = some (fromSecs 1) ∧
      h.map (seenAt (addr 1)) =
        [none, some (fromSecs 1), some (fromSecs 100), some (fromSecs 100)]) (by decide +kernel)
  obtain ⟨h, s, hr, hev, hlast, hseen⟩ := hx
  obtain ⟨t, ht, he⟩ := at_map hev (j := 3) rfl
  obtain ⟨t', ht', hs⟩ := at_map hseen (j := 3) rfl
  cases ht.unique ht'
  obtain ⟨p, hp, hp'⟩ := Option.map_eq_some_iff.mp hs
  exact ⟨h, s, t, p, hr, ht, Or.inr ⟨_, .hs2, [], t.pre, [], he, rfl, rfl, rfl⟩, hp, hp', hlast,
    by decide⟩

theorem authentic_liveness_ping :
    ∃ h s t p seen, ServerRun cfg start h s ∧ At h 3 t ∧ RunsCleanup cfg t (fromSecs 200) ∧
      t.post.peers.lookup (addr 1) = some p ∧ lastAuthentic (addr 1) (h.take 4) = some seen ∧
      durationSince (fromSecs 200) seen < PEER_IDLE_TIMEOUT := by
  have hx : ∃ h s, ServerRun cfg start h s ∧
      h.map Step.event = visited (data (keyOf 1) 0 .ping) ∧
      h.map (fun t => t.out.isEmpty) = [false, false, false, true] ∧ h.map (seenAt (addr 1)) =
        [none, some (fromSecs 1), some (fromSecs 100), some (fromSecs 100)] :=
    Run.of_exec (fun h _ => h.map (fun t => t.out.isEmpty) = [false, false, false, true] ∧
      h.map (seenAt (addr 1)) =
        [none, some (fromSecs 1), some (fromSecs 100), some (fromSecs 100)]) (by decide +kernel)
  obtain ⟨h, s, hr, hev, hout, hseen⟩ := hx
  obtain ⟨t, ht, he⟩ := at_map hev (j := 3) rfl
  obtain ⟨t', ht', hs⟩ := at_map hseen (j := 3) rfl
  cases ht.unique ht'
  obtain ⟨p, hp, -⟩ := Option.map_eq_some_iff.mp hs
  have hclean : RunsCleanup cfg t (fromSecs 200) :=
    Or.inr ⟨_, .hs2, [], t.pre, [], he, rfl, rfl, rfl⟩
  have hnone : ∀ i t, At h i t → ¬ Unauthentic t := by
    intro i u hu hbad
    -- only the last step has no effect, and its datagram is not of type Data
    have hsilent := (unauthentic_seen (hr.next_eq hu) hbad).1
    have hempty : [false, false, false, true][i]? = some true := by
      rw [← hout, List.getElem?_map, hu, Option.map_some, hsilent]
      rfl
    have hi : i = 3 := by
      match i, hempty with
      | 3, _ => rfl
    subst hi
    cases ht.unique hu
    obtain ⟨inp, body, q, hev', hdata, -⟩ := hbad
    cases he.symm.trans hev'
    cases hdata
  obtain ⟨-, hafter⟩ := (authentic_liveness_iff hr).mpr hnone
  obtain ⟨seen, h1, h2⟩ := hafter 3 t _ ht hclean (addr 1) p hp
  exact ⟨h, s, t, p, seen, hr, ht, hclean, hp, h1, h2⟩

end Obfs.Symbolic

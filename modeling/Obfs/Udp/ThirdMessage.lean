import Obfs.Udp.Retransmission

/-! The third handshake message on the server. An Hs3 takes the pending entry of
its source out of the map before its body is verified: what a rejected Hs3 does
to the handshake, and what becomes of a repeated one. -/
namespace Obfs.Udp
open Trace
variable {K : Crates}

/-- Step t handles an Hs3 from src that the pending responder rejects. -/
def RejectedHs3 (src : SocketAddr) (ph : PendingHandshake K) (t : ServerStep K) : Prop :=
  ∃ inp body e, t.event = .recv inp ∧ inp.src = src ∧ unshapeHs K inp.dgram = some (.hs3, body) ∧
    (completeHandshakeMsg3 K ph.responder body).1 = .error e

def Unrelated (src : SocketAddr) (t : ServerStep K) : Prop :=
  ∀ inp body, t.event = .recv inp → inp.src = src →
    unshapeHs K inp.dgram ≠ some (.hs1, body) ∧ unshapeHs K inp.dgram ≠ some (.hs3, body)

theorem Unrelated.not_displaces {cfg : ServerCfg K} {src : SocketAddr} {t : ServerStep K}
    (hu : Unrelated src t) (msg3 : Bytes) : ¬ Displaces cfg t src msg3 := by
  intro hd
  obtain ⟨inp, he, hsrc, ⟨⟨body, _, _, _, _, h1, -⟩, -⟩ | ⟨body, h3, -⟩⟩ := hd
  · exact (hu inp body he hsrc).1 h1
  · exact (hu inp body he hsrc).2 h3

theorem no_pend {cfg : ServerCfg K} {src : SocketAddr} {ph : PendingHandshake K}
    {t : ServerStep K} (hn : serverNext cfg t.pre t.event = some (t.post, t.out))
    (ht : RejectedHs3 src ph t ∨ Unrelated src t) (r : K.Handshake) (wire : Bytes) :
    Effect.pend src r wire ∉ t.out := by
  intro hm
  obtain ⟨⟨inp, body, addr, he, hsrc, h1, -⟩, -⟩ := pend_inv hn hm
  obtain ⟨inp', body', e, he', -, h3, -⟩ | hu := ht
  · cases he.symm.trans he'
    cases h1.symm.trans h3
  · exact (hu inp body he hsrc).1 h1

section Segment
variable {cfg : ServerCfg K} {s s' : ServerState K} {g : List (ServerStep K)} {src : SocketAddr}
  {ph : PendingHandshake K}

theorem pending_gone (hg : Run (serverNext cfg) s g s')
    (hseg : ∀ i t, At g i t → RejectedHs3 src ph t ∨ Unrelated src t)
    (hp : s.pending.lookup src = none) : s'.pending.lookup src = none := by
  refine hg.invariant_of (I := fun s => s.pending.lookup src = none)
    (C := fun t => RejectedHs3 src ph t ∨ Unrelated src t) hp ?_ hseg
  intro s e s' o hs hC hn
  obtain ⟨r, wire, hm⟩ | hkept | hnone := pending_slot hn src
  · exact absurd hm (no_pend (t := ⟨s, e, o, s'⟩) hn hC r wire)
  · exact hkept.trans hs
  · exact hnone

theorem pending_undisturbed (hg : Run (serverNext cfg) s g s') {now : Instant}
    (hseg : ∀ i t, At g i t → Unrelated src t)
    (hclock : ∀ i t now', At g i t → t.event.time = some now' → now' ≤ now)
    (htime : now < ph.createdAt + PENDING_TIMEOUT) (hp : s.pending.lookup src = some ph) :
    s'.pending.lookup src = some ph := by
  refine hg.invariant_of (I := fun s => s.pending.lookup src = some ph)
    (C := fun t => Unrelated src t ∧ ∀ now', t.event.time = some now' → now' ≤ now) hp ?_ ?_
  · rintro s e s' o hs ⟨hu, hle⟩ hn
    refine pending_kept hn [] hs ?_ (hu.not_displaces []) ?_
    · intro now' hnow
      exact pendingFresh_of_lt (Nat.lt_of_le_of_lt (hle now' hnow) htime)
    · intro inp he hsrc
      exact (hu inp [] he hsrc).2
  · intro i t ht
    exact ⟨hseg i t ht, fun now' => hclock i t now' ht⟩

/-- The server handles Hs3 datagrams from a source with a pending handshake that
its responder rejects, in any number and among steps that do not concern the
handshake. Then the genuine Hs3 arrives within the five seconds. It completes
the handshake exactly when there was no rejected one. -/
theorem genuine_hs3_iff (hg : Run (serverNext cfg) s g s')
    (hseg : ∀ i t, At g i t → RejectedHs3 src ph t ∨ Unrelated src t)
    (hp : s.pending.lookup src = some ph) {inp : Inbound K} {msg3 : Bytes} {ch : DataChannel K}
    {key : Key} {s'' : ServerState K} {o : List (Effect K)}
    (hn : serverNext cfg s' (.recv inp) = some (s'', o)) (hsrc : inp.src = src)
    (hu : unshapeHs K inp.dgram = some (.hs3, msg3))
    (hok : (completeHandshakeMsg3 K ph.responder msg3).1 = .ok (ch, key))
    (hgate : cfg.gate key = .ok ())
    (hclock : ∀ i t now, At g i t → t.event.time = some now → now ≤ inp.now)
    (htime : inp.now < ph.createdAt + PENDING_TIMEOUT) :
    (∃ n, Effect.install src n key ∈ o) ↔ ∀ i t, At g i t → ¬ RejectedHs3 src ph t := by
  subst hsrc
  constructor
  · rintro ⟨n, hins⟩ i t ht hbad
    -- the rejected Hs3 has taken the entry, and nothing brings it back
    have hgone : t.post.pending.lookup inp.src = none := by
      obtain ⟨inp', body, e, he, hsrc, h3, -⟩ := hbad
      have hnt := hg.next_eq ht
      rw [he] at hnt
      rw [← hsrc]
      exact hs3_takes hnt h3
    have hafter : ∀ j u, At (g.drop (i + 1)) j u →
        RejectedHs3 inp.src ph u ∨ Unrelated inp.src u := by
      intro j u hju
      rw [At, List.getElem?_drop] at hju
      exact hseg _ u hju
    have hnone : s'.pending.lookup inp.src = none :=
      pending_gone (hg.drop_succ ht) hafter hgone
    obtain ⟨ph', _, hp', -⟩ := install_inv hn hins
    rw [hnone] at hp'
    cases hp'
  · intro hnone
    have hstay : s'.pending.lookup inp.src = some ph := by
      refine pending_undisturbed hg ?_ hclock htime hp
      intro i t ht
      exact (hseg i t ht).resolve_left (hnone i t ht)
    have hserving := ((serverNext_recv cfg).mp hn).1
    rw [serverNext_hs3 cfg hserving hu hstay hok hgate] at hn
    cases hn
    exact ⟨_, List.mem_cons_self⟩

end Segment

theorem hs3_silent {cfg : ServerCfg K} {s s' : ServerState K} {inp : Inbound K}
    {o : List (Effect K)} {body : Bytes} (h : serverNext cfg s (.recv inp) = some (s', o))
    (hu : unshapeHs K inp.dgram = some (.hs3, body))
    (hrej : ∀ ph ch key, s.pending.lookup inp.src = some ph →
      (completeHandshakeMsg3 K ph.responder body).1 ≠ .ok (ch, key)) : o = [] := by
  have he := ((serverNext_recv cfg).mp h).2
  rw [handleDgram_eq cfg hu] at he
  have ho : o = ((handleHs3 cfg s inp body).finish inp.now).2 := by rw [he]
  rw [ho, handleHs3]
  split
  · rfl
  · rename_i ph hp
    simp only
    split
    · rfl
    · rename_i ch key hok
      exact absurd hok (hrej ph ch key hp)

variable {ι : Type} [DecidableEq ι] {cfg : SystemCfg K ι} {secret : K.CookieSecret}
  {sources : Nat → Broadcast.Channel (Event K.core)} {h : List (SystemStep K ι)}
  {s : SystemState K ι}

/-- Once the server has opened the session of a client's Hs3, it sends nothing
for any later Hs3 datagram with the same body, from whatever address: the
responder that accepted the first one is used up, and no other accepts it. -/
theorem repeated_hs3_silent (N : K.Noise) (hr : SystemRun cfg (.init secret sources) h s)
    (hfresh : FreshEphemerals h) {i j k n : Nat} {ti tj tk : SystemStep K ι} {c : ι}
    {hs : K.Handshake} {msg3 : Bytes} {seed : Key} {inp inp' : Inbound K} {src : SocketAddr}
    {key : Key} (hi : At h i ti)
    (hwrote : SystemEffect.client c (.wroteMsg3 hs msg3 seed) ∈ ti.out) (hj : At h j tj)
    (hrecv : tj.event = .server (.recv inp)) (hbody : unshapeHs K inp.dgram = some (.hs3, msg3))
    (hins : SystemEffect.server (.install src n key) ∈ tj.out) (hjk : j < k) (hk : At h k tk)
    (hrecv' : tk.event = .server (.recv inp'))
    (hbody' : unshapeHs K inp'.dgram = some (.hs3, msg3)) : tk.out = [] := by
  -- the first Hs3 found its own responder
  obtain ⟨v, hv, hx, hpre, -, hnv⟩ := serverPart_of_mem hr hj hins
  obtain ⟨ph, ch, hp, ha, -⟩ := install_inv hnv hx
  obtain ⟨inp1, body, payload, r', key', he, rfl, hu, hread, -⟩ := ha
  cases hrecv.symm.trans ((serverPart_event hv).trans (by rw [he]))
  cases hbody.symm.trans hu
  rw [hpre] at hp
  obtain ⟨_, hresp⟩ := pending_responded (hr.step hj).1 hp
  have hN := (read_answers N hr hi hwrote hresp hread).1
  obtain ⟨e', o', hev, ho, -, hn⟩ | ⟨_, _, _, hev, -⟩ := systemNext_case (hr.next_eq hk)
  · cases hrecv'.symm.trans hev
    rw [ho, hs3_silent hn hbody' ?_]
    · rfl
    · intro ph' ch' key' hp' hok
      obtain ⟨payload', r'', _, hread', -⟩ := completeHandshakeMsg3_ok hok
      obtain ⟨_, hresp'⟩ := pending_responded (hr.step hk).1 hp'
      have hN' := (read_answers N hr hi hwrote hresp' hread').1
      have := responder_used_once N hr hfresh hj hk hrecv hrecv' hbody hbody' hp hp'
        (hN.symm.trans hN')
      omega
  · cases hrecv'.symm.trans hev

end Obfs.Udp

namespace Obfs.Symbolic
open Udp Trace

def junkHs3 : Bytes := shapeHs crates .hs3 [0] ()

/-- One junk datagram destroys a handshake. The responder created for an Hs1
rejects the junk and accepts the client's msg3, the gate accepts everybody and
both arrive within two seconds; but the junk has taken the pending entry, and
the genuine Hs3 finds none. -/
theorem junk_hs3_destroys_handshake :
    ∃ h s ph s1 o1 s2 o2, ServerRun cfg start h s ∧ s.pending.lookup (addr 1) = some ph ∧
      ph.createdAt = 0 ∧ (∃ e, (completeHandshakeMsg3 crates ph.responder [0]).1 = .error e) ∧
      (∃ ch, (completeHandshakeMsg3 crates ph.responder (msg3 5 6 clientKey (keyOf 1))).1 =
        .ok (ch, clientKey)) ∧ cfg.gate clientKey = .ok () ∧
      serverNext cfg s (recv junkHs3 (addr 1) (fromSecs 1) 0) = some (s1, o1) ∧
      serverNext cfg s1 (recv (hs3 5 6 clientKey (keyOf 1)) (addr 1) (fromSecs 2) 0) =
        some (s2, o2) ∧ o2 = [] ∧ s2.peers.lookup (addr 1) = none :=
  ⟨_, _, _, _, _, _, _, Run.nil.snoc (e := recv (hs1 5 none) (addr 1) 0 6) rfl, rfl, rfl, ⟨_, rfl⟩,
    ⟨_, rfl⟩, rfl, rfl, rfl, rfl, rfl⟩

theorem genuine_hs3_iff_elsewhere :
    ∃ h s s1 o1 s2 o2, ServerRun cfg start h s ∧
      serverNext cfg s (recv junkHs3 (addr 2) (fromSecs 1) 0) = some (s1, o1) ∧
      serverNext cfg s1 (recv (hs3 5 6 clientKey (keyOf 1)) (addr 1) (fromSecs 2) 0) =
        some (s2, o2) ∧ ∃ n, Effect.install (addr 1) n clientKey ∈ o2 := by
  have hx : ∃ h s ph ch s1 o1 s2 o2, ServerRun cfg start h s ∧
      s.pending.lookup (addr 1) = some ph ∧ ph.createdAt = 0 ∧
      (completeHandshakeMsg3 crates ph.responder (msg3 5 6 clientKey (keyOf 1))).1 =
        .ok (ch, clientKey) ∧
      serverNext cfg s (recv junkHs3 (addr 2) (fromSecs 1) 0) = some (s1, o1) ∧
      serverNext cfg s1 (recv (hs3 5 6 clientKey (keyOf 1)) (addr 1) (fromSecs 2) 0) =
        some (s2, o2) :=
    ⟨_, _, _, _, _, _, _, _, Run.nil.snoc (e := recv (hs1 5 none) (addr 1) 0 6) rfl, rfl, rfl, rfl,
      rfl, rfl⟩
  obtain ⟨h, s, ph, ch, s1, o1, s2, o2, hr, hp, hcreated, hok, hn1, hn2⟩ := hx
  refine ⟨h, s, s1, o1, s2, o2, hr, hn1, hn2, ?_⟩
  have hother {i : Nat} {t : ServerStep crates} (inp : Inbound crates)
      (ht : At [⟨s, recv junkHs3 (addr 2) (fromSecs 1) 0, o1, s1⟩] i t)
      (he : t.event = .recv inp) : inp.src ≠ addr 1 := by
    rw [List.mem_singleton.mp ht.mem] at he
    cases he
    decide
  refine (genuine_hs3_iff (Run.nil.snoc hn1) ?_ hp hn2 rfl rfl hok rfl ?_ ?_).mpr ?_
  · intro i t ht
    exact Or.inr fun inp body he hsrc => absurd hsrc (hother inp ht he)
  · intro i t now ht hnow
    rw [List.mem_singleton.mp ht.mem] at hnow
    cases hnow
    decide
  · rw [hcreated]
    decide
  · rintro i t ht ⟨inp, body, e, he, hsrc, -⟩
    exact hother inp ht he hsrc

/- The ready record is lost: after two seconds the client sends its Hs3 again,
   and the copy reaches the server. -/
def readyLost : List (SystemEvent crates Unit) :=
  session.take 4 ++ [.client () (.timer (wake 2400)), toServer (hs3 5 6 clientKey (keyOf 1)) 2600 0]

structure Glance where
  installed : List (SocketAddr × Nat)
  wrote : List (List Bytes × Bytes)
  sent : List (SocketAddr × Bytes)
  deriving DecidableEq

def glance (t : SystemStep crates Unit) : Glance := ⟨installs t, answered t, sent t⟩

/- The run step by step: the server installs the peer and sends the ready
   record, the client resends its Hs3, the server sends nothing. -/
def readyLostGlance : List Glance :=
  let third := hs3 5 6 clientKey (keyOf 1)
  [⟨[], [], [(addr 0, hs1 5 none)]⟩, ⟨[], [], [(addr 1, hs2 5 6)]⟩,
    ⟨[], [([msg1 5, msg2 5 6], msg3 5 6 clientKey (keyOf 1))], [(addr 0, third)]⟩,
    ⟨[(addr 1, 0)], [], [(addr 1, data s2cKey 0 .pong)]⟩, ⟨[], [], [(addr 0, third)]⟩, ⟨[], [], []⟩]

/-- A lost ready record is not recovered: the copy of the Hs3 is answered with
nothing while the peer is there, and the client is still not connected. -/
theorem resent_hs3_unanswered : ∃ h s, SystemRun systemCfg systemStart h s ∧
    h.map Step.event = readyLost ∧ FreshEphemerals h ∧ h.map glance = readyLostGlance ∧
    (s.server.peers.lookup (addr 1)).isSome = true ∧ (s.clients ()).isConnected = false :=
  Run.of_exec (fun h s => FreshEphemerals h ∧ h.map glance = readyLostGlance ∧
    (s.server.peers.lookup (addr 1)).isSome = true ∧ (s.clients ()).isConnected = false)
    (by decide +kernel)

theorem repeated_hs3_silent_lost : ∃ h s tk, SystemRun systemCfg systemStart h s ∧ At h 5 tk ∧
    tk.event = toServer (hs3 5 6 clientKey (keyOf 1)) 2600 0 ∧ tk.out = [] := by
  have hx : ∃ h s, SystemRun systemCfg systemStart h s ∧ h.map Step.event = readyLost ∧
      FreshEphemerals h ∧ h.map glance = readyLostGlance :=
    Run.of_exec (fun h _ => FreshEphemerals h ∧ h.map glance = readyLostGlance) (by decide +kernel)
  obtain ⟨h, s, hr, hev, hfresh, hg⟩ := hx
  obtain ⟨tj, hj, hej⟩ := at_map hev (j := 3) rfl
  obtain ⟨tk, hk, hek⟩ := at_map hev (j := 5) rfl
  obtain ⟨ti, hi, hgi⟩ := at_map hg (j := 2) rfl
  obtain ⟨tj', hj', hgj⟩ := at_map hg (j := 3) rfl
  cases hj.unique hj'
  obtain ⟨hs, seed, hw, -⟩ := answered_written (Glance.mk.inj hgi).2.1
  have hins : (addr 1, 0) ∈ installs tj := by simp [(Glance.mk.inj hgj).1]
  obtain ⟨x, hx, he⟩ := List.mem_filterMap.mp hins
  split at he
  · cases he
    exact ⟨h, s, tk, hr, hk, hek,
      repeated_hs3_silent noise hr hfresh hi hw hj hej rfl hx (by decide) hk hek rfl⟩
  · cases he

end Obfs.Symbolic

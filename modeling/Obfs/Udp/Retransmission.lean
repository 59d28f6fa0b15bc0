import Obfs.Symbolic.Laws

/-! Retransmitted Hs1 datagrams and the handshake in progress. Each accepted
Hs1 overwrites the pending responder of its source: when an Hs3 that answers
the server's msg2 completes the handshake, and when it does not. -/
namespace Obfs.Udp
open Trace
variable {K : Crates}

def ServerEvent.time : ServerEvent K → Option Instant
  | .recv inp => some inp.now
  | .respond now _ => some now
  | _ => none

/-- Step t takes the pending responder of src from an Hs3 with body msg3: it
handles an acceptable Hs1 below the caps, or an Hs3 with another body. -/
def Displaces (cfg : ServerCfg K) (t : ServerStep K) (src : SocketAddr) (msg3 : Bytes) : Prop :=
  ∃ inp, t.event = .recv inp ∧ inp.src = src ∧
    ((AcceptableHs1 cfg t.pre inp ∧ t.pre.peers.len < MAX_PEERS ∧
        (t.pre.pending.len < MAX_PENDING ∨ src ∈ t.pre.pending)) ∨
      ∃ body, unshapeHs K inp.dgram = some (.hs3, body) ∧ body ≠ msg3)

theorem pendingFresh_of_lt {now : Instant} {src : SocketAddr} {ph : PendingHandshake K}
    (h : now < ph.createdAt + PENDING_TIMEOUT) : pendingFresh now src ph = true := by
  have hage : ∀ a b : Nat, a < b + PENDING_TIMEOUT → a - b < PENDING_TIMEOUT := by
    have hpos : 0 < PENDING_TIMEOUT := by decide
    omega
  exact decide_eq_true (hage now ph.createdAt h)

theorem pending_retained {m : AList fun _ : SocketAddr => PendingHandshake K} {src : SocketAddr}
    {ph : PendingHandshake K} {now : Instant} (hp : m.lookup src = some ph)
    (hf : pendingFresh now src ph = true) : (m.retain (pendingFresh now)).lookup src = some ph := by
  rw [AList.lookup_retain, hp, Option.filter_some, hf]
  rfl

theorem pending_kept {cfg : ServerCfg K} {s s' : ServerState K} {e : ServerEvent K}
    {o : List (Effect K)} (h : serverNext cfg s e = some (s', o)) {src : SocketAddr}
    {ph : PendingHandshake K} (msg3 : Bytes) (hp : s.pending.lookup src = some ph)
    (hf : ∀ now, e.time = some now → pendingFresh now src ph = true)
    (hd : ¬ Displaces cfg ⟨s, e, o, s'⟩ src msg3)
    (h3 : ∀ inp, e = .recv inp → inp.src = src → unshapeHs K inp.dgram ≠ some (.hs3, msg3)) :
    s'.pending.lookup src = some ph := by
  cases serverNext_case cfg h with
  | @recv inp s' o hs hc =>
    have hfresh := hf inp.now rfl
    -- an Hs3 from the source has its own body or displaces the responder
    have hother {body : Bytes} (hu : unshapeHs K inp.dgram = some (.hs3, body)) :
        (s.pending.erase inp.src).lookup src = some ph := by
      rw [AList.lookup_erase_ne]
      · exact hp
      · intro hsrc
        by_cases hb : body = msg3
        · exact h3 inp rfl hsrc.symm (hb ▸ hu)
        · exact hd ⟨inp, rfl, hsrc.symm, Or.inr ⟨body, hu, hb⟩⟩
    cases hc with
    | ignored => exact hp
    | swept ho => exact pending_retained hp hfresh
    | @pended body r wire addr hu hl hr hc =>
      have hne : src ≠ inp.src := by
        rintro rfl
        exact hd ⟨inp, rfl, rfl, Or.inl ⟨acceptableHs1_iff.mpr ⟨body, r, wire, addr, hu, hr⟩, hl,
          hc⟩⟩
      refine pending_retained ?_ hfresh
      simp only [withPending_pending]
      rw [AList.lookup_insert_ne hne]
      exact hp
    | rejected hu hp' hr => exact pending_retained (hother hu) hfresh
    | refused hu hp' hr hg => exact hother hu
    | installed hu hp' hr hg => exact pending_retained (hother hu) hfresh
    | dangling hp' hs => exact hp
    | unopened hp' hs ho => exact hp
    | ping hp' hs ho => exact pending_retained hp hfresh
    | request hp' hs ho => exact hp
    | denied hp' hs ho hv => exact pending_retained hp hfresh
    | unserved hp' hs ho hv he => exact pending_retained hp hfresh
    | subscribed hp' hs ho hv he => exact pending_retained hp hfresh
    | inert hp' hs ho => exact pending_retained hp hfresh
  | @respond now rng sv ses hv hs => exact pending_retained hp (hf now rfl)
  | _ => exact hp

theorem displaced {cfg : ServerCfg K} {s s' : ServerState K} {e : ServerEvent K}
    {o : List (Effect K)} (h : serverNext cfg s e = some (s', o)) {src : SocketAddr}
    {msg3 : Bytes} (hd : Displaces cfg ⟨s, e, o, s'⟩ src msg3) :
    (∃ r wire, Effect.pend src r wire ∈ o) ∨ s'.pending.lookup src = none := by
  obtain ⟨inp, rfl, rfl, ⟨ha, hl, hc⟩ | ⟨body, hu, -⟩⟩ := hd
  · obtain ⟨body, r, wire, addr, hu, hproc⟩ := acceptableHs1_iff.mp ha
    have hs := ((serverNext_recv cfg).mp h).1
    rw [serverNext_hs1 cfg hs hu hl hproc hc] at h
    cases h
    exact Or.inl ⟨r, wire, List.mem_cons_self⟩
  · exact Or.inr (hs3_takes h hu)

variable {ι : Type} [DecidableEq ι] {cfg : SystemCfg K ι} {secret : K.CookieSecret}
  {sources : Nat → Broadcast.Channel (Event K.core)} {h : List (SystemStep K ι)}
  {s : SystemState K ι}

def SystemEvent.time : SystemEvent K ι → Option Instant
  | .server e => e.time
  | _ => none

def MonotoneClock (h : List (SystemStep K ι)) : Prop :=
  (gather (fun t => t.event.time.toList) h).Pairwise (· ≤ ·)

instance (h : List (SystemStep K ι)) : Decidable (MonotoneClock h) :=
  inferInstanceAs (Decidable ((gather (fun t => t.event.time.toList) h).Pairwise (· ≤ ·)))

omit [DecidableEq ι] in
theorem MonotoneClock.le (hc : MonotoneClock h) {i j : Nat} (hij : i < j) {t u : SystemStep K ι}
    (ht : At h i t) (hu : At h j u) {now now' : Instant} (hnow : t.event.time = some now)
    (hnow' : u.event.time = some now') : now ≤ now' := by
  rw [MonotoneClock, hu.split, gather_append, List.pairwise_append] at hc
  refine hc.2.2 now ?_ now' ?_
  · exact mem_gather.mpr ⟨i, t, ht.take hij, by simp [hnow]⟩
  · exact mem_gather.mpr ⟨0, u, rfl, by simp [hnow']⟩

theorem pending_stays (hr : SystemRun cfg (.init secret sources) h s) {q j : Nat}
    {tq tj : SystemStep K ι} (hq : At h q tq) (hj : At h j tj) (hqj : q < j) {src : SocketAddr}
    {ph : PendingHandshake K} {msg3 : Bytes} (hp : tq.post.server.pending.lookup src = some ph)
    (hf : ∀ m u now, q < m → m < j → At h m u → u.event.time = some now →
      pendingFresh now src ph = true)
    (hd : ∀ m u v, q < m → m < j → At h m u → serverPart u = some v →
      ¬ Displaces cfg.server v src msg3)
    (h3 : ∀ m u inp, q < m → m < j → At h m u → u.event = .server (.recv inp) → inp.src = src →
      unshapeHs K inp.dgram ≠ some (.hs3, msg3)) :
    tj.pre.server.pending.lookup src = some ph := by
  have hseg : Run (systemNext cfg) tq.post ((h.take j).drop (q + 1)) tj.pre :=
    (hr.step hj).1.drop_succ (hq.take hqj)
  refine hseg.invariant_of (I := fun s => s.server.pending.lookup src = some ph)
    (C := fun u => ∃ m, q < m ∧ m < j ∧ At h m u) hp ?_ ?_
  · rintro s e s' o hs ⟨m, hqm, hmj, hm⟩ hn
    rcases systemNext_case hn with ⟨e', o', rfl, rfl, -, hn'⟩ | ⟨_, _, _, -, -, hsame, -⟩
    · refine pending_kept hn' msg3 hs (fun now ht => hf m _ now hqm hmj hm ht) ?_ ?_
      · exact hd m _ _ hqm hmj hm (by simp only [serverPart, server?_map])
      · intro inp he hsrc
        exact h3 m _ inp hqm hmj hm (by rw [he]) hsrc
    · rw [hsame]
      exact hs
  · intro i u hu
    rw [At, List.getElem?_drop] at hu
    have hu' := At.of_take hu
    exact ⟨q + 1 + i, by omega, hu'.1, hu'.2⟩

/-- When the Hs3 of a client first reaches the server within five seconds of
the creation of the responder whose msg2 it answers, and the gate accepts the
client's key, the server installs the peer exactly when no step in between
has displaced the responder. -/
theorem retransmission_iff (N : K.Noise) (hshape : K.ShapeRoundTrip)
    (hr : SystemRun cfg (.init secret sources) h s) (hfresh : FreshEphemerals h)
    (hclock : MonotoneClock h) {c : ι} {q i j : Nat} {tq ti tj : SystemStep K ι}
    {created inp : Inbound K} {r hs : K.Handshake} {msg2 msg3 : Bytes} {seed : Key} {rng : K.Rng}
    (hj : At h j tj) (hrecv : tj.event = .server (.recv inp)) (hq : At h q tq)
    (hcreated : tq.event = .server (.recv created))
    (hpend : SystemEffect.server (.pend inp.src r msg2) ∈ tq.out) (hqj : q < j) (hi : At h i ti)
    (hwrote : SystemEffect.client c (.wroteMsg3 hs msg3 seed) ∈ ti.out)
    (hN : N.transcript hs = N.transcript r) (hdgram : inp.dgram = shapeHs K .hs3 msg3 rng)
    (hfirst : ∀ m u inp', q < m → m < j → At h m u → u.event = .server (.recv inp') →
      inp'.src = inp.src → unshapeHs K inp'.dgram ≠ some (.hs3, msg3))
    (htime : inp.now < created.now + PENDING_TIMEOUT)
    (hgate : cfg.server.gate (N.pubKey (cfg.client c).keypair.priv) = .ok ()) :
    (∃ n key, SystemEffect.server (.install inp.src n key) ∈ tj.out) ↔
      ∀ m u v, q < m → m < j → At h m u → serverPart u = some v →
        ¬ Displaces cfg.server v inp.src msg3 := by
  have hu : unshapeHs K inp.dgram = some (.hs3, msg3) := by
    rw [hdgram]
    exact unshapeHs_shapeHs hshape .hs3 msg3 rng
  constructor
  · rintro ⟨n, key, hins⟩ m u v hqm hmj hm hv hd
    obtain ⟨w, hw, hx, hpre, -, hn⟩ := serverPart_of_mem hr hj hins
    obtain ⟨ph, ch, hp, ha, -⟩ := install_inv hn hx
    obtain ⟨inp', body, payload, r', key', he, -, hu', hread, -⟩ := ha
    cases hrecv.symm.trans ((serverPart_event hw).trans (by rw [he]))
    cases hu.symm.trans hu'
    rw [hpre] at hp
    obtain ⟨e, hresp⟩ := pending_responded (hr.step hj).1 hp
    -- the responder that accepts the Hs3 is the one created in step q
    obtain ⟨hN', -⟩ := read_answers N hr hi hwrote hresp hread
    obtain ⟨-, hafter⟩ := pending_since N hr hfresh hq hpend hj hp (hN.symm.trans hN')
    obtain ⟨hstay, hnopend⟩ := hafter m u hqm hmj hm
    obtain ⟨-, hpost, hnv⟩ := hr.component server_projects hm hv
    -- but a displacing step would have written or emptied its entry
    rcases displaced hnv hd with ⟨r1, w1, hpend1⟩ | hnone
    · exact hnopend r1 w1 (mem_of_serverPart hv hpend1)
    · rw [hpost, hstay] at hnone
      cases hnone
  · intro hd
    obtain ⟨hinit, hs', hwrite⟩ := written_initiated hr hi hwrote
    obtain ⟨_, -, -, -, hresp⟩ := pend_responded hr hq hpend
    obtain ⟨r', hread, hkey⟩ := N.accept hinit hresp hwrite hN
    obtain ⟨w, hw, hx, -, hpostq, hnq⟩ := serverPart_of_mem hr hq hpend
    obtain ⟨created', he, hl⟩ := pend_post hnq hx
    cases hcreated.symm.trans ((serverPart_event hw).trans (by rw [he]))
    rw [hpostq] at hl
    -- the entry of step q is still there when the Hs3 arrives
    have hp : tj.pre.server.pending.lookup inp.src = some ⟨r, created.now⟩ := by
      refine pending_stays hr hq hj hqj hl ?_ hd hfirst
      intro m u now hqm hmj hm hnow
      have hle := hclock.le hmj hm hj hnow (by rw [hrecv]; rfl)
      exact pendingFresh_of_lt (Nat.lt_of_le_of_lt hle htime)
    rcases systemNext_case (hr.next_eq hj) with ⟨e', o', hev, ho, -, hn⟩ | ⟨_, _, _, hev, -⟩
    · cases hrecv.symm.trans hev
      have hserving := ((serverNext_recv _).mp hn).1
      rw [serverNext_hs3 _ hserving hu hp (completeHandshakeMsg3_of_read hread hkey) hgate] at hn
      rw [ho, ← (Prod.mk.inj (Option.some.inj hn)).2]
      exact ⟨_, _, List.mem_map_of_mem List.mem_cons_self⟩
    · cases hrecv.symm.trans hev

end Obfs.Udp

namespace Obfs.Symbolic
open Udp Trace

def created (t : SystemStep crates Unit) : List (List Bytes) :=
  (responders t).map Hs.transcript

def answered (t : SystemStep crates Unit) : List (List Bytes × Bytes) :=
  (t.out.filterMap SystemEffect.msg3?).map fun m => (m.1.transcript, m.2)

theorem created_pend {h : List (SystemStep crates Unit)} {s : SystemState crates Unit}
    (hr : SystemRun systemCfg systemStart h s) {q : Nat} {t : SystemStep crates Unit}
    (ht : At h q t) {inp : Inbound crates} (he : t.event = .server (.recv inp))
    {ms : List Bytes} (hc : created t = [ms]) :
    ∃ r wire, SystemEffect.server (.pend inp.src r wire) ∈ t.out ∧ r.transcript = ms := by
  have hm : ms ∈ created t := by simp [hc]
  obtain ⟨r, hmem, rfl⟩ := List.mem_map.mp hm
  obtain ⟨src, wire, hp⟩ := mem_responders.mp hmem
  obtain ⟨inp', he', hsrc, -⟩ := pend_responded hr ht hp
  cases he.symm.trans he'
  exact ⟨r, wire, hsrc ▸ hp, rfl⟩

theorem answered_written {t : SystemStep crates Unit} {ms : List Bytes} {m3 : Bytes}
    (ha : answered t = [(ms, m3)]) :
    ∃ hs seed, SystemEffect.client () (.wroteMsg3 hs m3 seed) ∈ t.out ∧ hs.transcript = ms := by
  have hm : (ms, m3) ∈ answered t := by simp [ha]
  obtain ⟨⟨hs, m⟩, hmem, he⟩ := List.mem_map.mp hm
  cases he
  obtain ⟨c, seed, hw⟩ := mem_msg3.mp hmem
  exact ⟨hs, seed, hw, rfl⟩

structure Progress where
  created : List (List Bytes)
  answered : List (List Bytes × Bytes)
  deriving DecidableEq

def progress (t : SystemStep crates Unit) : Progress := ⟨created t, answered t⟩

/-- A retransmission breaks the handshake. The client answers the first Hs2,
which the server really sent, nothing is forged, the gate accepts everybody and
the Hs3 arrives 400 ms after the creation of its responder; but a late copy of
the client's own Hs1 has replaced the responder, and no peer is installed. -/
theorem retransmission_breaks_handshake :
    ∃ h s tq ti tj r hs wire seed, SystemRun systemCfg systemStart h s ∧
      Precedes sent received h ∧ FreshEphemerals h ∧ MonotoneClock h ∧
      At h 1 tq ∧ tq.event = toServer (hs1 5 none) 200 6 ∧
      SystemEffect.server (.pend (addr 1) r wire) ∈ tq.out ∧ At h 3 ti ∧
      SystemEffect.client () (.wroteMsg3 hs (msg3 5 6 clientKey (keyOf 1)) seed) ∈ ti.out ∧
      noise.transcript hs = noise.transcript r ∧ At h 5 tj ∧
      tj.event = toServer (hs3 5 6 clientKey (keyOf 1)) 600 0 ∧
      fromMillis 600 < fromMillis 200 + PENDING_TIMEOUT ∧
      cfg.gate (noise.pubKey clientKey) = .ok () ∧
      ∀ m u src n key, At h m u → SystemEffect.server (.install src n key) ∉ u.out := by
  have hx : ∃ h s, SystemRun systemCfg systemStart h s ∧ h.map Step.event = retransmitted ∧
      Precedes sent received h ∧ FreshEphemerals h ∧ MonotoneClock h ∧ gather installs h = [] ∧
      h.map progress = [⟨[], []⟩, ⟨[[msg1 5, msg2 5 6]], []⟩, ⟨[], []⟩,
        ⟨[], [([msg1 5, msg2 5 6], msg3 5 6 clientKey (keyOf 1))]⟩, ⟨[[msg1 5, msg2 5 7]], []⟩,
        ⟨[], []⟩] :=
    Run.of_exec (fun h _ => Precedes sent received h ∧ FreshEphemerals h ∧ MonotoneClock h ∧
      gather installs h = [] ∧
      h.map progress = [⟨[], []⟩, ⟨[[msg1 5, msg2 5 6]], []⟩, ⟨[], []⟩,
        ⟨[], [([msg1 5, msg2 5 6], msg3 5 6 clientKey (keyOf 1))]⟩, ⟨[[msg1 5, msg2 5 7]], []⟩,
        ⟨[], []⟩]) (by decide +kernel)
  obtain ⟨h, s, hr, hev, hsent, hfresh, hclock, hins, hprog⟩ := hx
  obtain ⟨tq, hq, heq⟩ := at_map hev (j := 1) rfl
  obtain ⟨tj, hj, hej⟩ := at_map hev (j := 5) rfl
  obtain ⟨tq', hq', hcq⟩ := at_map hprog (j := 1) rfl
  obtain ⟨ti, hi, hai⟩ := at_map hprog (j := 3) rfl
  cases hq.unique hq'
  obtain ⟨r, wire, hp, hrt⟩ := created_pend hr hq heq (Progress.mk.inj hcq).1
  obtain ⟨hs, seed, hw, hst⟩ := answered_written (Progress.mk.inj hai).2
  refine ⟨h, s, tq, ti, tj, r, hs, wire, seed, hr, hsent, hfresh, hclock, hq, heq, hp, hi, hw,
    hst.trans hrt.symm, hj, hej, by decide, rfl, ?_⟩
  intro m u src n key hu hm
  have hmem : (src, n) ∈ gather installs h :=
    mem_gather.mpr ⟨m, u, hu, List.mem_filterMap.mpr ⟨_, hm, rfl⟩⟩
  rw [hins] at hmem
  cases hmem

theorem retransmission_iff_session :
    ∃ h s tj n key, SystemRun systemCfg systemStart h s ∧ At h 3 tj ∧
      tj.event = toServer (hs3 5 6 clientKey (keyOf 1)) 600 0 ∧
      SystemEffect.server (.install (addr 1) n key) ∈ tj.out := by
  have hx : ∃ h s, SystemRun systemCfg systemStart h s ∧ h.map Step.event = session.take 4 ∧
      FreshEphemerals h ∧ MonotoneClock h ∧
      h.map progress = [⟨[], []⟩, ⟨[[msg1 5, msg2 5 6]], []⟩,
        ⟨[], [([msg1 5, msg2 5 6], msg3 5 6 clientKey (keyOf 1))]⟩, ⟨[], []⟩] :=
    Run.of_exec (fun h _ => FreshEphemerals h ∧ MonotoneClock h ∧
      h.map progress = [⟨[], []⟩, ⟨[[msg1 5, msg2 5 6]], []⟩,
        ⟨[], [([msg1 5, msg2 5 6], msg3 5 6 clientKey (keyOf 1))]⟩, ⟨[], []⟩])
      (by decide +kernel)
  obtain ⟨h, s, hr, hev, hfresh, hclock, hprog⟩ := hx
  obtain ⟨tq, hq, heq⟩ := at_map hev (j := 1) rfl
  obtain ⟨tm, hm, hem⟩ := at_map hev (j := 2) rfl
  obtain ⟨tj, hj, hej⟩ := at_map hev (j := 3) rfl
  obtain ⟨tq', hq', hcq⟩ := at_map hprog (j := 1) rfl
  obtain ⟨ti, hi, hai⟩ := at_map hprog (j := 2) rfl
  cases hq.unique hq'
  obtain ⟨r, wire, hp, hrt⟩ := created_pend hr hq heq (Progress.mk.inj hcq).1
  obtain ⟨hs, seed, hw, hst⟩ := answered_written (Progress.mk.inj hai).2
  -- the only step in between is the client's
  have hbetween : ∀ m u, 1 < m → m < 3 → At h m u → u.event = toClient (hs2 5 6) 400 := by
    intro m u h1 h3 hu
    cases (show m = 2 by omega)
    cases hm.unique hu
    exact hem
  have hdgram : hs3 5 6 clientKey (keyOf 1) =
      shapeHs crates .hs3 (msg3 5 6 clientKey (keyOf 1)) () := rfl
  obtain ⟨n, key, hins⟩ := (retransmission_iff noise shapeRoundTrip hr hfresh hclock hj hej hq heq
    hp (by decide) hi hw (hst.trans hrt.symm) hdgram
    (fun m u inp' h1 h3 hu he => by rw [hbetween m u h1 h3 hu] at he; cases he)
    (by decide) rfl).mpr (fun m u v h1 h3 hu hv => by
      have he := serverPart_event hv
      rw [hbetween m u h1 h3 hu] at he
      cases he)
  exact ⟨h, s, tj, n, key, hr, hj, hej, hins⟩

end Obfs.Symbolic

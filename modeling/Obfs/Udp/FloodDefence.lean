import Obfs.Udp.Provenance
import Obfs.Symbolic

/-! The flood defence: how many half-open handshakes may exist that no verified
cookie vouches for, over every load signal and every rotation of the secret. -/
namespace Obfs.Udp
open Trace
variable {K : Crates} {cfg : ServerCfg K}

/-- The datagram of step t is an Hs1 with a cookie that verifies, under the
secret of that moment, for its source. -/
def carriesCookie (t : ServerStep K) : Bool :=
  match t.event with
  | .recv inp =>
    match unshapeHs K inp.dgram with
    | some (.hs1, body) =>
      match decodeMsg1Framed body with
      | some (_, supplied) => cookieOk K t.pre.cookieSecret (srcBytes inp.src) supplied
      | none => false
    | _ => false
  | _ => false

def pends (t : ServerStep K) (src : SocketAddr) : Bool :=
  t.out.any fun
    | .pend a _ _ => a == src
    | _ => false

/-- The pending entry of src was last written by an Hs1 without a verified
cookie. -/
def unverified (h : List (ServerStep K)) (src : SocketAddr) : Bool :=
  h.foldl (fun tag t => if pends t src then !carriesCookie t else tag) false

theorem pends_iff {t : ServerStep K} {src : SocketAddr} :
    pends t src = true ↔ ∃ r wire, Effect.pend src r wire ∈ t.out := by
  unfold pends
  rw [List.any_eq_true]
  constructor
  · rintro ⟨x, hm, hx⟩
    split at hx
    · rename_i a r wire
      cases eq_of_beq hx
      exact ⟨r, wire, hm⟩
    · cases hx
  · rintro ⟨r, wire, hm⟩
    exact ⟨_, hm, by simp⟩

theorem unverified_snoc (h : List (ServerStep K)) (t : ServerStep K) (src : SocketAddr) :
    unverified (h ++ [t]) src = if pends t src then !carriesCookie t else unverified h src := by
  rw [unverified, List.foldl_append]
  rfl

theorem carriesCookie_eq {s s' : ServerState K} {inp : Inbound K} {o : List (Effect K)}
    {body msg1 : Bytes} {supplied : Option Cookie}
    (hu : unshapeHs K inp.dgram = some (.hs1, body))
    (hd : decodeMsg1Framed body = some (msg1, supplied)) :
    carriesCookie ⟨s, .recv inp, o, s'⟩ =
      cookieOk K s.cookieSecret (srcBytes inp.src) supplied := by
  simp [carriesCookie, hu, hd]

theorem effGate_underLoad (s : ServerState K) (inp : Inbound K) :
    (effGate s inp).underLoad = true ↔
      inp.load.underLoad = true ∨ s.pending.len ≥ PENDING_SOFT_LIMIT := by
  unfold effGate
  simp only [ge_iff_le, Bool.or_eq_true, decide_eq_true_eq]
  split
  · rename_i hl
    simpa [alwaysUnderLoad] using hl
  · rename_i hl
    simpa [alwaysOpen] using hl

theorem pend_unverified {s s' : ServerState K} {e : ServerEvent K} {o : List (Effect K)}
    (h : serverNext cfg s e = some (s', o)) {src : SocketAddr} {r : K.Handshake} {wire : Bytes}
    (hm : Effect.pend src r wire ∈ o) (hc : carriesCookie ⟨s, e, o, s'⟩ = false) :
    s.pending.len < PENDING_SOFT_LIMIT := by
  obtain ⟨⟨inp, body, addr, he, rfl, hu, hp⟩, -⟩ := pend_inv h hm
  obtain ⟨-, msg1, supplied, _, _, _, _, hd, hv, -⟩ := processHs1_partial hp
  simp only at he
  subst he
  rw [carriesCookie_eq hu hd] at hc
  by_contra hl
  have hg := hv ((effGate_underLoad s inp).mpr (Or.inr (by omega)))
  rw [hg] at hc
  cases hc

theorem pending_keys_sublist {s s' : ServerState K} {e : ServerEvent K} {o : List (Effect K)}
    (h : serverNext cfg s e = some (s', o)) (hn : ∀ src r wire, Effect.pend src r wire ∉ o) :
    s'.pending.keys.Sublist s.pending.keys := by
  cases serverNext_case cfg h with
  | @recv inp s' o hs hc =>
    rcases hc.pending_eq with ⟨r, wire, hm, -⟩ | ⟨m, hm, he⟩
    · exact absurd hm (hn _ r wire)
    · have hk : m.keys.Sublist s.pending.keys := by
        rcases hm with rfl | rfl
        · exact List.Sublist.refl _
        · exact AList.keys_erase_sublist _ _
      rcases he with he | he
      · rw [he]
        exact hk
      · rw [he]
        exact (AList.keys_retain_sublist _ _).trans hk
  | respond hv hs => exact AList.keys_retain_sublist _ _
  | _ => exact List.Sublist.refl _

theorem unverified_step {s s' : ServerState K} {e : ServerEvent K} {o : List (Effect K)}
    {h : List (ServerStep K)} (hn : serverNext cfg s e = some (s', o))
    (hi : s.pending.count (unverified h) ≤ PENDING_SOFT_LIMIT) :
    s'.pending.count (unverified (h ++ [⟨s, e, o, s'⟩])) ≤ PENDING_SOFT_LIMIT := by
  by_cases hp : ∃ src r wire, Effect.pend src r wire ∈ o
  · obtain ⟨src, r, wire, hm⟩ := hp
    obtain ⟨-, -, -, inp, he, hsrc, hs'⟩ := pend_inv hn hm
    have htag : pends ⟨s, e, o, s'⟩ src = true := pends_iff.mpr ⟨r, wire, hm⟩
    have hkeep : s'.pending.count (unverified (h ++ [⟨s, e, o, s'⟩])) ≤
        (s.pending.insert src ⟨r, inp.now⟩).count (unverified (h ++ [⟨s, e, o, s'⟩])) := by
      rw [← hsrc, hs']
      exact AList.count_retain_le _ _ _
    refine hkeep.trans ?_
    cases hc : carriesCookie ⟨s, e, o, s'⟩ with
    | true =>
      -- the entry is vouched for, and the tags of the others have not moved up
      have hfalse : unverified (h ++ [⟨s, e, o, s'⟩]) src = false := by
        rw [unverified_snoc, htag, hc]
        rfl
      refine (AList.count_insert_le _ _ hfalse).trans (le_trans ?_ hi)
      refine List.countP_mono_left ?_
      intro a _ ha
      rw [unverified_snoc] at ha
      split at ha
      · rw [hc] at ha
        cases ha
      · exact ha
    | false =>
      have hl := pend_unverified hn hm hc
      have h1 := AList.count_le_len (unverified (h ++ [⟨s, e, o, s'⟩]))
        (s.pending.insert src ⟨r, inp.now⟩)
      have h2 := AList.len_insert_le s.pending src ⟨r, inp.now⟩
      omega
  · have hno : ∀ src r wire, Effect.pend src r wire ∉ o := by
      intro src r wire hm
      exact hp ⟨src, r, wire, hm⟩
    have htag : unverified (h ++ [⟨s, e, o, s'⟩]) = unverified h := by
      funext src
      rw [unverified_snoc, if_neg]
      intro hpd
      obtain ⟨r, wire, hm⟩ := pends_iff.mp hpd
      exact hno src r wire hm
    rw [htag]
    exact ((pending_keys_sublist hn hno).countP_le).trans hi

theorem challenged_step {s s' : ServerState K} {inp : Inbound K} {o : List (Effect K)}
    (h : serverNext cfg s (.recv inp) = some (s', o)) {body : Bytes}
    (hu : unshapeHs K inp.dgram = some (.hs1, body))
    (hl : inp.load.underLoad = true ∨ s.pending.len ≥ PENDING_SOFT_LIMIT)
    (hc : carriesCookie ⟨s, .recv inp, o, s'⟩ = false) :
    (s'.pending = s.pending ∧ s'.peers = s.peers) ∨
      (s'.pending = s.pending.retain (pendingFresh inp.now) ∧
        s'.peers = s.peers.retain (peerActive inp.now)) := by
  have hno (r : K.Handshake) (wire : Bytes) (addr : SocketAddr) :
      processHs1 K body inp.src cfg.serverPriv s.cookieSecret (effGate s inp) inp.entropy
        inp.rng ≠ .ok (some (.partialHandshake r wire addr)) := by
    refine processHs1_challenged ((effGate_underLoad s inp).mpr hl) ?_ r wire addr
    intro msg1 supplied hd
    rwa [carriesCookie_eq hu hd] at hc
  have he := ((serverNext_recv cfg).mp h).2
  rw [handleDgram_eq cfg hu] at he
  simp only [handleHs1] at he
  split at he
  · cases he
    exact Or.inl ⟨rfl, rfl⟩
  · split at he
    · cases he
      exact Or.inr ⟨rfl, rfl⟩
    · rename_i r wire addr hp
      exact absurd hp (hno r wire addr)
    · cases he
      exact Or.inr ⟨rfl, rfl⟩

variable {secret : K.CookieSecret} {sources : Nat → Broadcast.Channel (Event K.core)}
  {h : List (ServerStep K)} {s : ServerState K}

/-- At most PENDING_SOFT_LIMIT pending entries are unverified, and a challenged
Hs1 without a verifying cookie adds and replaces nothing. -/
theorem flood_defence (hr : ServerRun cfg (.init secret sources) h s) :
    s.pending.count (unverified h) ≤ PENDING_SOFT_LIMIT ∧
    ∀ i t inp body, At h i t → t.event = .recv inp →
      unshapeHs K inp.dgram = some (.hs1, body) →
      (inp.load.underLoad = true ∨ t.pre.pending.len ≥ PENDING_SOFT_LIMIT) →
      carriesCookie t = false →
      (t.post.pending = t.pre.pending ∧ t.post.peers = t.pre.peers) ∨
        (t.post.pending = t.pre.pending.retain (pendingFresh inp.now) ∧
          t.post.peers = t.pre.peers.retain (peerActive inp.now)) := by
  constructor
  · refine hr.induct (I := fun h s => s.pending.count (unverified h) ≤ PENDING_SOFT_LIMIT)
      (Nat.zero_le _) ?_
    intro h s e s' o _ hi hn
    exact unverified_step hn hi
  · intro i t inp body ht he hu hl hc
    have hn := hr.next_eq ht
    obtain ⟨pre, event, out, post⟩ := t
    subst he
    exact challenged_step hn hu hl hc

theorem flood_defence_challenge :
    ∃ h s t, ServerRun Symbolic.cfg Symbolic.start h s ∧ At h 1 t ∧
      s.pending.count (unverified h) ≤ PENDING_SOFT_LIMIT ∧
      unverified h (Symbolic.addr 1) = true ∧ carriesCookie t = false ∧
      ((t.post.pending = t.pre.pending ∧ t.post.peers = t.pre.peers) ∨
        (t.post.pending = t.pre.pending.retain (pendingFresh 1) ∧
          t.post.peers = t.pre.peers.retain (peerActive 1))) := by
  let challenged : Inbound Symbolic.crates :=
    ⟨Symbolic.hs1 8 none, Symbolic.addr 2, 1, alwaysUnderLoad, 9, ()⟩
  let events := [Symbolic.recv (Symbolic.hs1 5 none) (Symbolic.addr 1) 0 6, .recv challenged]
  have hx : ∃ h s, ServerRun Symbolic.cfg Symbolic.start h s ∧ h.map Step.event = events ∧
      unverified h (Symbolic.addr 1) = true ∧ h.map carriesCookie = [false, false] :=
    Run.of_exec (fun h _ => unverified h (Symbolic.addr 1) = true ∧
      h.map carriesCookie = [false, false]) (by decide +kernel)
  obtain ⟨h, s, hr, hev, hun, hcookie⟩ := hx
  obtain ⟨t, ht, hc⟩ := at_map hcookie (j := 1) rfl
  have he : t.event = .recv challenged := (Option.some.inj (ht.event hev)).symm
  obtain ⟨h1, h2⟩ := flood_defence hr
  exact ⟨h, s, t, hr, ht, h1, hun, hc, h2 1 t challenged _ ht he (by rfl) (Or.inl rfl) hc⟩

end Obfs.Udp

import Obfs.Udp.Sessions
import Obfs.Symbolic

/-! What a removed peer still gets. Its session lives on in the tasks that hold
its sender; without a forwarder among them only the backlog is sealed. -/
namespace Obfs.Udp
open Trace
variable {K : Crates} {cfg : ServerCfg K}

/-- No task but the sealer holds session n: no peer entry, no request in
service, no live forwarder. -/
structure Detached (n : Nat) (s : ServerState K) : Prop where
  opened : n < s.sessions.length
  peers : ∀ src, s.peerSession src ≠ some n
  serving : ∀ sv, s.serving = some sv → sv.session ≠ n
  forwarders : ∀ f ∈ s.forwarders, f.live = true → f.tx ≠ n

theorem Detached.holdsTx {n : Nat} {s : ServerState K} (hd : Detached n s) :
    s.holdsTx n = false := by
  have h1 : s.peers.entries.any (fun e => e.2.session == n) = false := by
    rw [List.any_eq_false]
    intro e he hn
    have hl : s.peers.lookup e.1 = some e.2 := AList.mem_lookup_iff.mpr he
    exact hd.peers e.1 (by simpa [ServerState.peerSession, hl] using hn)
  have h2 : s.forwarders.any (fun f => f.live && f.tx == n) = false := by
    rw [List.any_eq_false]
    intro f hf hn
    rw [Bool.and_eq_true, beq_iff_eq] at hn
    exact hd.forwarders f hf hn.1 hn.2
  have h3 : (s.serving.any fun sv => sv.session == n) = false := by
    cases hv : s.serving with
    | none => rfl
    | some sv => simpa using hd.serving sv hv
  rw [ServerState.holdsTx, h1, h2, h3]
  rfl

theorem detached_of_holdsTx {n : Nat} {s : ServerState K} (hn : n < s.sessions.length)
    (hh : s.holdsTx n = false) : Detached n s := by
  simp only [ServerState.holdsTx, Bool.or_eq_false_iff, List.any_eq_false] at hh
  obtain ⟨⟨hpeers, hforwarders⟩, hserving⟩ := hh
  refine ⟨hn, ?_, ?_, ?_⟩
  · intro src hsrc
    obtain ⟨p, hp, hpn⟩ := Option.map_eq_some_iff.mp hsrc
    exact hpeers ⟨src, p⟩ (AList.mem_lookup_iff.mp hp) (by simpa using hpn)
  · intro sv hv
    simpa [hv] using hserving
  · intro f hf hl htx
    exact hforwarders f hf (by simp [hl, htx])

theorem Detached.received {n : Nat} {s s' : ServerState K} (hd : Detached n s)
    {e : ServerEvent K} {o : List (Effect K)} (h : serverNext cfg s e = some (s', o))
    (env : Envelope K.core) : Effect.received n env ∉ o := by
  intro hm
  obtain ⟨inp, p, ses, -, hp, hn, -⟩ := received_inv h hm
  exact hd.peers inp.src (by simp [ServerState.peerSession, hp, hn])

theorem detached_step {n : Nat} {s s' : ServerState K} (hd : Detached n s)
    {e : ServerEvent K} {o : List (Effect K)} (h : serverNext cfg s e = some (s', o)) :
    Detached n s' := by
  constructor
  · obtain ⟨ses', hs', -⟩ := session_step h (List.getElem?_eq_getElem hd.opened)
    exact (List.getElem?_eq_some_iff.mp hs').1
  · intro src hsrc
    rcases peer_slot h src with ⟨m, key, hm⟩ | hk | hk
    · obtain ⟨_, _, -, ⟨_, _, _, _, _, -, -, -, -, -, -, -, hlen, -⟩, -⟩ := install_inv h hm
      cases (install_post h hm).symm.trans hsrc
      exact absurd hd.opened (by rw [hlen]; exact Nat.lt_irrefl _)
    · exact hd.peers src (hk ▸ hsrc)
    · rw [hk] at hsrc
      cases hsrc
  · intro sv hv
    rcases serving_step h hv with hv | ⟨p, hp, he⟩
    · exact hd.serving sv hv
    · intro hn
      exact hd.peers sv.src (by simp [ServerState.peerSession, hp, ← he, hn])
  · intro f hf hl hn
    rcases forwarder_step h hf hl with ⟨f0, hf0, hl0, -, htx⟩ | ⟨filter, cap, -, hm, -⟩
    · exact hd.forwarders f0 hf0 hl0 (htx.trans hn)
    · rw [hn] at hm
      exact hd.received h _ hm

def sealedOn (n : Nat) (t : ServerStep K) : List (Envelope K.core) :=
  t.out.filterMap fun
    | .sealed m _ _ env _ => if m = n then some env else none
    | _ => none

theorem sealedOn_effectsOn (n : Nat) (s s' : ServerState K) (e : ServerEvent K)
    (o : List (Effect K)) :
    sealedOn n ⟨s, e, o, s'⟩ = sealedOn n ⟨s, e, effectsOn n o, s'⟩ := by
  simp only [sealedOn, effectsOn, List.filterMap_filter]
  apply List.filterMap_congr
  intro x _
  cases x <;> simp [Effect.on]

theorem detached_backlog {n : Nat} {s s' : ServerState K} (hd : Detached n s)
    {e : ServerEvent K} {o : List (Effect K)} (h : serverNext cfg s e = some (s', o))
    {ses : Session K} (hn : s.sessions[n]? = some ses) :
    ∃ ses', s'.sessions[n]? = some ses' ∧
      (sealedOn n ⟨s, e, o, s'⟩ ++ ses'.queue).Sublist ses.queue := by
  obtain ⟨ses', hn', hc⟩ := session_step h hn
  refine ⟨ses', hn', ?_⟩
  rw [sealedOn_effectsOn]
  have hno {inp : Inbound K} {p : PeerState} (hp : s.peers.lookup inp.src = some p)
      (hpn : p.session = n) : False :=
    hd.peers inp.src (by simp [ServerState.peerSession, hp, hpn])
  generalize effectsOn n o = fx at hc
  cases hc with
  | kept => exact List.Sublist.refl _
  | unopened hp hpn => exact (hno hp hpn).elim
  | opened hp hpn => exact (hno hp hpn).elim
  | ponged hp hpn => exact (hno hp hpn).elim
  | denied hp hpn => exact (hno hp hpn).elim
  | responded hv hsn => exact absurd hsn (hd.serving _ hv)
  | @popped rng env rest he hq =>
    rw [hq, sealedOn, sealEffects]
    split
    · simp
    · simp
  | ended hq hh => exact List.Sublist.refl _
  | forwarded hf hp htx =>
    exact absurd htx (hd.forwarders _ (List.mem_of_getElem? hf) (Forwarder.poll_spec hp).1)

/-- The source of a received record keeps its peer: it was seen just now. -/
theorem received_keeps {s s' : ServerState K} {e : ServerEvent K} {o : List (Effect K)}
    (h : serverNext cfg s e = some (s', o)) {n : Nat} {env : Envelope K.core}
    (hm : Effect.received n env ∈ o) :
    ∃ src, s.peerSession src = some n ∧ s'.peerSession src = some n := by
  cases serverNext_case cfg h with
  | @recv inp s' o hs hc =>
    cases hc with
    | swept ho => rcases ho with rfl | ⟨wire, rfl⟩ <;> simp at hm
    | @ping p ses hp hs ho | @request p ses _ hp hs ho | @denied p ses _ _ _ _ hp hs ho
    | @unserved p ses _ _ _ _ hp hs ho | @subscribed p ses _ _ _ _ _ hp hs ho
    | @inert p ses _ hp hs ho =>
      simp [mem_sealEffects] at hm
      -- the source was seen just now, so that the cleanup leaves it
      refine ⟨inp.src, by simp [ServerState.peerSession, hp, hm.1], ?_⟩
      simp [ServerState.peerSession, AList.lookup_retain, peerActive, durationSince,
        PEER_IDLE_TIMEOUT, fromSecs, hm.1]
    | _ => simp [mem_sealEffects] at hm
  | respond hv hs => simp [mem_sealEffects] at hm
  | sealed hs he hq => simp [mem_sealEffects] at hm
  | _ => simp at hm

theorem serving_of_drop {s s' : ServerState K} {e : ServerEvent K} {o : List (Effect K)}
    (h : serverNext cfg s e = some (s', o)) {src : SocketAddr}
    (hne : s'.peerSession src ≠ s.peerSession src) : s'.serving = none := by
  cases serverNext_case cfg h with
  | @recv inp s' o hs hc =>
    cases hc with
    | @request p ses req hp hs' ho =>
      refine absurd ?_ hne
      by_cases hsrc : src = inp.src
      · subst hsrc
        simp [ServerState.peerSession, hp]
      · simp only [ServerState.peerSession, afterOpen_peers]
        rw [AList.lookup_insert_ne hsrc]
    | _ => exact hs
  | respond => rfl
  | _ => exact absurd rfl hne

theorem forwarders_of_drop {s s' : ServerState K} {e : ServerEvent K} {o : List (Effect K)}
    (h : serverNext cfg s e = some (s', o)) {src : SocketAddr}
    (hne : s'.peerSession src ≠ s.peerSession src) : s.forwarders <+: s'.forwarders := by
  cases serverNext_case cfg h with
  | @recv inp s' o hs hc =>
    cases hc with
    | subscribed => exact List.prefix_append _ _
    | _ => exact List.prefix_rfl
  | respond => exact List.prefix_rfl
  | _ => exact absurd rfl hne

theorem dropped_detached {s s' : ServerState K} {e : ServerEvent K} {o : List (Effect K)}
    (hw : Wf s) (h : serverNext cfg s e = some (s', o)) {src : SocketAddr} {n : Nat}
    (hpre : s.peerSession src = some n) (hpost : s'.peerSession src ≠ some n)
    (hf : ∀ f ∈ s.forwarders, f.live = true → f.tx ≠ n) : Detached n s' := by
  have hsrc (a : SocketAddr) (ha : s.peerSession a = some n) :
      ∃ ses, s.sessions[n]? = some ses ∧ ses.src = a := by
    obtain ⟨p, hp, rfl⟩ := Option.map_eq_some_iff.mp ha
    exact hw.peers a p hp
  obtain ⟨ses, hs, hses⟩ := hsrc src hpre
  have honly (a : SocketAddr) (ha : s.peerSession a = some n) : a = src := by
    obtain ⟨ses', hs', hses'⟩ := hsrc a ha
    cases Option.some.inj (hs'.symm.trans hs)
    exact hses'.symm.trans hses
  constructor
  · obtain ⟨ses', hs', -⟩ := session_step h hs
    exact (List.getElem?_eq_some_iff.mp hs').1
  · intro a ha
    rcases peer_slot h a with ⟨m, key, hm⟩ | hk | hk
    · obtain ⟨_, _, -, ⟨_, _, _, _, _, -, -, -, -, -, -, -, hlen, -⟩, -⟩ := install_inv h hm
      cases (install_post h hm).symm.trans ha
      have hlt := (List.getElem?_eq_some_iff.mp hs).1
      rw [hlen] at hlt
      exact Nat.lt_irrefl _ hlt
    · rw [hk] at ha
      cases honly a ha
      exact hpost (hk ▸ ha)
    · rw [hk] at ha
      cases ha
  · intro sv hv
    rw [serving_of_drop h (by rw [hpre]; exact hpost)] at hv
    cases hv
  · intro f hfm hl hn
    rcases forwarder_step h hfm hl with ⟨f0, hf0, hl0, -, htx⟩ | ⟨filter, cap, -, hm, -⟩
    · exact hf f0 hf0 hl0 (htx.trans hn)
    · rw [hn] at hm
      obtain ⟨a, ha, ha'⟩ := received_keeps h hm
      cases honly a ha
      exact hpost ha'

theorem detached_run {n : Nat} {s₀ s : ServerState K} {h : List (ServerStep K)}
    (hr : ServerRun cfg s₀ h s) (hd : Detached n s₀) {ses₀ : Session K}
    (hn : s₀.sessions[n]? = some ses₀) :
    Detached n s ∧ ∃ ses, s.sessions[n]? = some ses ∧
      (h.flatMap (sealedOn n) ++ ses.queue).Sublist ses₀.queue := by
  induction hr with
  | nil => exact ⟨hd, ses₀, hn, List.Sublist.refl _⟩
  | @snoc h s s' e o hr hs ih =>
    obtain ⟨hd', ses, hses, hsub⟩ := ih
    obtain ⟨ses', hses', hstep⟩ := detached_backlog hd' hs hses
    refine ⟨detached_step hd' hs, ses', hses', ?_⟩
    rw [List.flatMap_append, List.flatMap_singleton, List.append_assoc]
    exact (hstep.append_left _).trans hsub

variable {secret : K.CookieSecret} {sources : Nat → Broadcast.Channel (Event K.core)}
  {h : List (ServerStep K)} {s : ServerState K}

/-- A peer dropped while no live forwarder holds its session gets nothing more
than its backlog, and its sealer task has no sender left to wait for. -/
theorem removed_peer_silent (hr : ServerRun cfg (.init secret sources) h s) {i : Nat}
    {t : ServerStep K} (ht : At h i t) {src : SocketAddr} {n : Nat}
    (hpre : t.pre.peerSession src = some n) (hpost : t.post.peerSession src ≠ some n)
    (hf : ∀ f ∈ t.pre.forwarders, f.live = true → f.tx ≠ n) :
    ∃ ses, t.post.sessions[n]? = some ses ∧
      ((h.drop (i + 1)).flatMap (sealedOn n)).Sublist ses.queue ∧ s.holdsTx n = false := by
  have hd := dropped_detached (wf_run (hr.step ht).1) (hr.next_eq ht) hpre hpost hf
  have hs := List.getElem?_eq_getElem hd.opened
  obtain ⟨hd', ses', -, hsub⟩ := detached_run (hr.drop_succ ht) hd hs
  exact ⟨_, hs, (List.sublist_append_left _ _).trans hsub, hd'.holdsTx⟩

/-- At the drop of a peer the forwarders alone decide: one that is live keeps the
sender of the sealer's queue, and with it the way for later events. -/
theorem dropped_holdsTx_iff (hr : ServerRun cfg (.init secret sources) h s) {i : Nat}
    {t : ServerStep K} (ht : At h i t) {src : SocketAddr} {n : Nat}
    (hpre : t.pre.peerSession src = some n) (hpost : t.post.peerSession src ≠ some n) :
    t.post.holdsTx n = true ↔ ∃ f ∈ t.pre.forwarders, f.live = true ∧ f.tx = n := by
  constructor
  · intro hh
    by_contra hno
    push Not at hno
    have hd := dropped_detached (wf_run (hr.step ht).1) (hr.next_eq ht) hpre hpost hno
    rw [hd.holdsTx] at hh
    cases hh
  · rintro ⟨f, hf, hl, rfl⟩
    have hpre' := forwarders_of_drop (hr.next_eq ht) (by rw [hpre]; exact hpost)
    have hany : t.post.forwarders.any (fun g => g.live && g.tx == f.tx) = true :=
      List.any_eq_true.mpr ⟨f, hpre'.subset hf, by simp [hl]⟩
    simp [ServerState.holdsTx, hany]

end Obfs.Udp

namespace Obfs.Symbolic
open Udp Trace

/- Another client's Hs1, late enough to run the eviction of the first. -/
def evicting : ServerEvent crates := recv (hs1 5 none) (addr 2) (2 + PEER_IDLE_TIMEOUT) 6

def evicts (t : ServerStep crates) : Bool :=
  t.pre.peerSession (addr 1) == some 0 && t.post.peerSession (addr 1) == none

theorem evicts_iff {t : ServerStep crates} : evicts t = true ↔
    t.pre.peerSession (addr 1) = some 0 ∧ t.post.peerSession (addr 1) = none := by
  simp [evicts]

def sealedEvents (t : ServerStep crates) : List (SocketAddr × Event core) :=
  t.out.filterMap fun
    | .sealed 0 dst _ (.event ev) _ => some (dst, ev)
    | _ => none

theorem mem_sealedEvents {t : ServerStep crates} {dst : SocketAddr} {ev : Event core}
    (hm : (dst, ev) ∈ sealedEvents t) :
    ∃ σ wire, Effect.sealed 0 dst σ (.event ev) wire ∈ t.out := by
  obtain ⟨x, hx, he⟩ := List.mem_filterMap.mp hm
  split at he
  · cases he
    exact ⟨_, _, hx⟩
  · cases he

/-- A subscriber that has been evicted is still sent an event that the service
emits afterwards. -/
theorem removed_peer_gets_event :
    ∃ h s t u v σ wire, ServerRun cfg start h s ∧ At h 3 t ∧
      t.pre.peerSession (addr 1) = some 0 ∧ t.post.peerSession (addr 1) = none ∧
      (t.post.sources 0).log = [] ∧ At h 4 u ∧ u.event = .emit 0 news ∧ At h 6 v ∧
      Effect.sealed 0 (addr 1) σ (.event news) wire ∈ v.out := by
  let events := subscriber (some 7) ++ [evicting, .emit 0 news, .forward 0, .sealer 0 ()]
  have hx : ∃ h s, ServerRun cfg start h s ∧ h.map Step.event = events ∧
      h.map evicts = [false, false, false, true, false, false, false] ∧
      h.map (fun t => (t.post.sources 0).log.isEmpty) =
        [true, true, true, true, false, false, false] ∧
      h.map sealedEvents = [[], [], [], [], [], [], [(addr 1, news)]] :=
    Run.of_exec (fun h _ => h.map evicts = [false, false, false, true, false, false, false] ∧
      h.map (fun t => (t.post.sources 0).log.isEmpty) =
        [true, true, true, true, false, false, false] ∧
      h.map sealedEvents = [[], [], [], [], [], [], [(addr 1, news)]]) (by decide +kernel)
  obtain ⟨h, s, hr, hev, hevict, hlog, hsealed⟩ := hx
  obtain ⟨t, ht, het⟩ := at_map hevict (j := 3) rfl
  obtain ⟨t', ht', hlt⟩ := at_map hlog (j := 3) rfl
  obtain ⟨u, hu, heu⟩ := at_map hev (j := 4) rfl
  obtain ⟨v, hv, hsv⟩ := at_map hsealed (j := 6) rfl
  cases ht.unique ht'
  obtain ⟨hpre, hpost⟩ := evicts_iff.mp het
  obtain ⟨σ, wire, hm⟩ := mem_sealedEvents (hsv ▸ List.mem_singleton_self (addr 1, news))
  exact ⟨h, s, t, u, v, σ, wire, hr, ht, hpre, hpost, List.isEmpty_iff.mp hlt, hu, heu, hv, hm⟩

theorem removed_peer_silent_refused :
    ∃ h s t ses, ServerRun cfg start h s ∧ At h 3 t ∧ t.post.sessions[0]? = some ses ∧
      ((h.drop 4).flatMap (sealedOn 0)).Sublist ses.queue ∧ s.holdsTx 0 = false := by
  let events := subscriber none ++ [evicting, .emit 0 news, .sealer 0 (), .sealer 0 ()]
  have hx : ∃ h s, ServerRun cfg start h s ∧ h.map Step.event = events ∧
      h.map (fun t => evicts t && t.pre.forwarders.isEmpty) =
        [false, false, false, true, false, false, false] :=
    Run.of_exec (fun h _ => h.map (fun t => evicts t && t.pre.forwarders.isEmpty) =
      [false, false, false, true, false, false, false]) (by decide +kernel)
  obtain ⟨h, s, hr, -, hevict⟩ := hx
  obtain ⟨t, ht, het⟩ := at_map hevict (j := 3) rfl
  rw [Bool.and_eq_true, evicts_iff, List.isEmpty_iff] at het
  obtain ⟨⟨hpre, hpost⟩, hf⟩ := het
  obtain ⟨ses, hs, hsub, hh⟩ := removed_peer_silent hr ht hpre (by rw [hpost]; simp)
    (by rw [hf]; simp)
  exact ⟨h, s, t, ses, hr, ht, hs, hsub, hh⟩

end Obfs.Symbolic

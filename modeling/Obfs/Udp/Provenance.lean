import Obfs.Udp.ServerSteps

/-! Where the server's state comes from: which step wrote an entry of the
pending map, a peer, or a session, and what that step had checked. -/
namespace Obfs.Udp
open Trace
variable {K : Crates} {cfg : ServerCfg K}

abbrev ServerStep (K : Crates) := Step (ServerState K) (ServerEvent K) (Effect K)

abbrev ServerRun (cfg : ServerCfg K) (s₀ : ServerState K) (h : List (ServerStep K))
    (s : ServerState K) : Prop := Run (serverNext cfg) s₀ h s

/-- Step t lets process_hs1 create responder r for an Hs1 from src. -/
def CreatesResponder (cfg : ServerCfg K) (t : ServerStep K) (src : SocketAddr) (r : K.Handshake)
    (wire : Bytes) : Prop :=
  ∃ inp body addr, t.event = .recv inp ∧ inp.src = src ∧
    unshapeHs K inp.dgram = some (.hs1, body) ∧
    processHs1 K body src cfg.serverPriv t.pre.cookieSecret (effGate t.pre inp) inp.entropy
      inp.rng = .ok (some (.partialHandshake r wire addr))

/-- Step t lets responder r accept the body of an Hs3 from src, the gate
accept the static key that r reports, and opens session n with the channel. -/
def AdmitsSession (cfg : ServerCfg K) (t : ServerStep K) (src : SocketAddr) (r : K.Handshake)
    (n : Nat) (ch : DataChannel K) : Prop :=
  ∃ inp body payload r' key, t.event = .recv inp ∧ inp.src = src ∧
    unshapeHs K inp.dgram = some (.hs3, body) ∧
    K.readMessage r body = (.ok payload, r') ∧ K.remoteStatic r' = some key ∧
    (completeHandshakeMsg3 K r body).1 = .ok (ch, key) ∧ cfg.gate key = .ok () ∧
    n = t.pre.sessions.length ∧
    t.post.sessions[n]? = some ⟨src, (ch.sealEnvelope .pong inp.rng).2, [], false⟩

theorem pend_inv {s s' : ServerState K} {e : ServerEvent K} {o : List (Effect K)}
    (h : serverNext cfg s e = some (s', o)) {src : SocketAddr} {r : K.Handshake} {wire : Bytes}
    (hm : Effect.pend src r wire ∈ o) :
    CreatesResponder cfg ⟨s, e, o, s'⟩ src r wire ∧ s.peers.len < MAX_PEERS ∧
      (s.pending.len < MAX_PENDING ∨ src ∈ s.pending) ∧
      ∃ inp, e = .recv inp ∧ inp.src = src ∧ s' = cleanup inp.now (withPending s inp r) := by
  cases serverNext_case cfg h with
  | @recv inp s' o hs hc =>
    cases hc with
    | @pended body r' wire' addr hu hl hr hc =>
      simp only [List.mem_cons, Effect.pend.injEq, reduceCtorEq, List.not_mem_nil, or_false] at hm
      obtain ⟨rfl, rfl, rfl⟩ := hm
      exact ⟨⟨inp, body, addr, rfl, rfl, hu, hr⟩, hl, hc, inp, rfl, rfl, rfl⟩
    | swept ho => rcases ho with rfl | ⟨wire', rfl⟩ <;> simp at hm
    | _ => simp [mem_sealEffects] at hm
  | respond hv hs => simp [mem_sealEffects] at hm
  | sealed hs he hq => simp [mem_sealEffects] at hm
  | _ => simp at hm

theorem admits_installed {s : ServerState K} {inp : Inbound K} {body : Bytes}
    {ph : PendingHandshake K} {ch : DataChannel K} {key : Key} (o : List (Effect K))
    (hu : unshapeHs K inp.dgram = some (.hs3, body))
    (hr : (completeHandshakeMsg3 K ph.responder body).1 = .ok (ch, key))
    (hg : cfg.gate key = .ok ()) :
    AdmitsSession cfg
      ⟨s, .recv inp, o, cleanup inp.now (sealOn (withPeer (dropPending s inp.src) inp ch)
        s.sessions.length inp.src ch .pong inp.rng).1⟩ inp.src ph.responder s.sessions.length
      ch := by
  obtain ⟨payload, r', seed, hread, -, hk, -⟩ := completeHandshakeMsg3_ok hr
  exact ⟨inp, body, payload, r', key, rfl, rfl, hu, hread, hk, hr, hg, rfl, by simp⟩

theorem install_inv {s s' : ServerState K} {e : ServerEvent K} {o : List (Effect K)}
    (h : serverNext cfg s e = some (s', o)) {src : SocketAddr} {n : Nat} {key : Key}
    (hm : Effect.install src n key ∈ o) :
    ∃ ph ch, s.pending.lookup src = some ph ∧
      AdmitsSession cfg ⟨s, e, o, s'⟩ src ph.responder n ch ∧
      s'.pending.lookup src = none ∧
      ∃ inp, e = .recv inp ∧ inp.src = src ∧
        s'.peers = (s.peers.insert src ⟨n, inp.now⟩).retain (peerActive inp.now) := by
  cases serverNext_case cfg h with
  | @recv inp s' o hs hc =>
    cases hc with
    | @installed body ph ch key' hu hp hr hg =>
      simp only [List.mem_cons, Effect.install.injEq, sealOn_snd, mem_sealEffects, reduceCtorEq,
        and_false, exists_false, or_false] at hm
      obtain ⟨rfl, rfl, rfl⟩ := hm
      exact ⟨ph, ch, hp, admits_installed _ hu hr hg, by simp [AList.lookup_retain], inp, rfl, rfl,
        rfl⟩
    | swept ho => rcases ho with rfl | ⟨wire', rfl⟩ <;> simp at hm
    | _ => simp [mem_sealEffects] at hm
  | respond hv hs => simp [mem_sealEffects] at hm
  | sealed hs he hq => simp [mem_sealEffects] at hm
  | _ => simp at hm

theorem received_inv {s s' : ServerState K} {e : ServerEvent K} {o : List (Effect K)}
    (h : serverNext cfg s e = some (s', o)) {n : Nat} {env : Envelope K.core}
    (hm : Effect.received n env ∈ o) :
    ∃ inp p ses, e = .recv inp ∧ s.peers.lookup inp.src = some p ∧ p.session = n ∧
      s.sessions[n]? = some ses ∧ (ses.channel.openDatagram inp.dgram).1 = .ok (some env) := by
  cases serverNext_case cfg h with
  | @recv inp s' o hs hc =>
    cases hc with
    | swept ho => rcases ho with rfl | ⟨wire', rfl⟩ <;> simp at hm
    | @ping p ses hp hs ho | @request p ses req hp hs ho | @denied p ses _ _ _ _ hp hs ho
    | @unserved p ses _ _ _ _ hp hs ho | @subscribed p ses _ _ _ _ _ hp hs ho
    | @inert p ses _ hp hs ho =>
      simp [mem_sealEffects] at hm
      obtain ⟨rfl, rfl⟩ := hm
      exact ⟨inp, p, ses, rfl, hp, rfl, hs, ho⟩
    | _ => simp [mem_sealEffects] at hm
  | respond hv hs => simp [mem_sealEffects] at hm
  | sealed hs he hq => simp [mem_sealEffects] at hm
  | _ => simp at hm

theorem handle_inv {s s' : ServerState K} {e : ServerEvent K} {o : List (Effect K)}
    (h : serverNext cfg s e = some (s', o)) {n : Nat} {req : K.core.Request}
    (hm : Effect.handle n req ∈ o) : o = [.received n (.request req), .handle n req] := by
  cases serverNext_case cfg h with
  | @recv inp s' o hs hc =>
    cases hc with
    | swept ho => rcases ho with rfl | ⟨wire', rfl⟩ <;> simp at hm
    | request hp hs ho =>
      simp at hm
      obtain ⟨rfl, rfl⟩ := hm
      rfl
    | _ => simp [mem_sealEffects] at hm
  | respond hv hs => simp [mem_sealEffects] at hm
  | sealed hs he hq => simp [mem_sealEffects] at hm
  | _ => simp at hm

theorem eventSource_inv {s s' : ServerState K} {e : ServerEvent K} {o : List (Effect K)}
    (h : serverNext cfg s e = some (s', o)) {n : Nat} {topic : K.core.Topic}
    (hm : Effect.eventSource n topic ∈ o) :
    ∃ filter capability subject, Effect.received n (.subscribe topic filter capability) ∈ o ∧
      cfg.service.verifyTopic capability topic = .ok subject := by
  cases serverNext_case cfg h with
  | @recv inp s' o hs hc =>
    cases hc with
    | swept ho => rcases ho with rfl | ⟨wire', rfl⟩ <;> simp at hm
    | @unserved p ses topic' filter capability subject hp hs ho hv he
    | @subscribed p ses topic' filter capability subject src hp hs ho hv he =>
      simp at hm
      obtain ⟨rfl, rfl⟩ := hm
      exact ⟨filter, capability, subject, by simp, hv⟩
    | _ => simp [mem_sealEffects] at hm
  | respond hv hs => simp [mem_sealEffects] at hm
  | sealed hs he hq => simp [mem_sealEffects] at hm
  | _ => simp at hm

/-- A live forwarder was live before with the same topic and session, or an
authorised subscription received in this step has spawned it. -/
theorem forwarder_step {s s' : ServerState K} {e : ServerEvent K} {o : List (Effect K)}
    (h : serverNext cfg s e = some (s', o)) {f' : Forwarder K.core} (hf : f' ∈ s'.forwarders)
    (hl : f'.live = true) :
    (∃ f ∈ s.forwarders, f.live = true ∧ f.topic = f'.topic ∧ f.tx = f'.tx) ∨
      ∃ filter capability subject,
        Effect.received f'.tx (.subscribe f'.topic filter capability) ∈ o ∧
        cfg.service.verifyTopic capability f'.topic = .ok subject := by
  have hset {i : Nat} {f g : Forwarder K.core} {alive : Bool} {sent : Option (Event K.core)}
      (hi : s.forwarders[i]? = some f)
      (hp : f.poll (s.sources f.source) alive = some (g, sent))
      (hm : f' ∈ s.forwarders.set i g) :
      ∃ f ∈ s.forwarders, f.live = true ∧ f.topic = f'.topic ∧ f.tx = f'.tx := by
    rcases List.mem_or_eq_of_mem_set hm with hm | rfl
    · exact ⟨f', hm, hl, rfl, rfl⟩
    · obtain ⟨hlive, -, htopic, htx, -⟩ := Forwarder.poll_spec hp
      exact ⟨f, List.mem_of_getElem? hi, hlive, htopic.symm, htx.symm⟩
  cases serverNext_case cfg h with
  | @recv inp s' o hs hc =>
    cases hc with
    | @subscribed p ses topic filter capability subject src hp hs ho hv he =>
      have hm : f' ∈ s.forwarders ++ [.spawn src (s.sources src) topic p.session] := hf
      rcases List.mem_append.mp hm with hm | hm
      · exact Or.inl ⟨f', hm, hl, rfl, rfl⟩
      · rw [List.mem_singleton] at hm
        subst hm
        exact Or.inr ⟨filter, capability, subject, by simp [Forwarder.spawn], hv⟩
    | _ => exact Or.inl ⟨f', hf, hl, rfl, rfl⟩
  | forwarded hi hp => exact Or.inl (hset hi hp hf)
  | polled hi hp => exact Or.inl (hset hi hp hf)
  | _ => exact Or.inl ⟨f', hf, hl, rfl, rfl⟩

theorem pending_slot {s s' : ServerState K} {e : ServerEvent K} {o : List (Effect K)}
    (h : serverNext cfg s e = some (s', o)) (src : SocketAddr) :
    (∃ r wire, Effect.pend src r wire ∈ o) ∨
      s'.pending.lookup src = s.pending.lookup src ∨ s'.pending.lookup src = none := by
  cases serverNext_case cfg h with
  | @recv inp s' o hs hc =>
    rcases hc.pending_eq with ⟨r, wire, hm, he⟩ | ⟨m, hm, he⟩
    · by_cases hsrc : src = inp.src
      · exact Or.inl ⟨r, wire, hsrc ▸ hm⟩
      · have hk : (s.pending.insert inp.src ⟨r, inp.now⟩).lookup src = s.pending.lookup src :=
          AList.lookup_insert_ne hsrc
        rw [he, ← hk]
        exact Or.inr (AList.lookup_retain_or _ _ _)
    · have hl : m.lookup src = s.pending.lookup src ∨ m.lookup src = none := by
        rcases hm with rfl | rfl
        · exact Or.inl rfl
        · by_cases hsrc : src = inp.src
          · rw [hsrc]
            exact Or.inr (AList.lookup_erase _ _)
          · exact Or.inl (AList.lookup_erase_ne hsrc)
      refine Or.inr ?_
      rcases he with he | he
      · rw [he]; exact hl
      · rw [he]
        rcases AList.lookup_retain_or (pendingFresh inp.now) m src with h1 | h1
        · rw [h1]; exact hl
        · exact Or.inr h1
  | respond hv hs => exact Or.inr (AList.lookup_retain_or _ _ _)
  | _ => exact Or.inr (Or.inl rfl)

def ServerState.peerSession (s : ServerState K) (src : SocketAddr) : Option Nat :=
  (s.peers.lookup src).map (·.session)

theorem peer_slot {s s' : ServerState K} {e : ServerEvent K} {o : List (Effect K)}
    (h : serverNext cfg s e = some (s', o)) (src : SocketAddr) :
    (∃ n key, Effect.install src n key ∈ o) ∨
      s'.peerSession src = s.peerSession src ∨ s'.peerSession src = none := by
  have hret (now : Instant) (m : AList fun _ : SocketAddr => PeerState) :
      ((m.retain (peerActive now)).lookup src).map (·.session) =
        (m.lookup src).map (·.session) ∨
      ((m.retain (peerActive now)).lookup src).map (·.session) = none := by
    rcases AList.lookup_retain_or (peerActive now) m src with h1 | h1 <;> simp [h1]
  cases serverNext_case cfg h with
  | @recv inp s' o hs hc =>
    obtain ⟨m, hm, he⟩ := hc.peers_eq
    by_cases hi : ∃ n key, Effect.install src n key ∈ o
    · exact Or.inl hi
    · have hl : (m.lookup src).map (·.session) = s.peerSession src := by
        rcases hm with rfl | ⟨key, hk, rfl⟩ | ⟨p, hp, rfl⟩
        · rfl
        · by_cases hsrc : src = inp.src
          · exact absurd ⟨_, key, hsrc ▸ hk⟩ hi
          · rw [AList.lookup_insert_ne hsrc]; rfl
        · by_cases hsrc : src = inp.src
          · subst hsrc
            simp [ServerState.peerSession, hp]
          · rw [AList.lookup_insert_ne hsrc]; rfl
      refine Or.inr ?_
      rcases he with he | he
      · exact Or.inl (by rw [ServerState.peerSession, he, hl])
      · rw [ServerState.peerSession, he, ← hl]
        exact hret inp.now m
  | @respond now rng sv ses hv hs => exact Or.inr (hret now s.peers)
  | _ => exact Or.inr (Or.inl rfl)

variable {secret : K.CookieSecret} {sources : Nat → Broadcast.Channel (Event K.core)}
  {h : List (ServerStep K)} {s : ServerState K}

theorem pend_post {s s' : ServerState K} {e : ServerEvent K} {o : List (Effect K)}
    (h : serverNext cfg s e = some (s', o)) {src : SocketAddr} {r : K.Handshake} {wire : Bytes}
    (hm : Effect.pend src r wire ∈ o) :
    ∃ inp, e = .recv inp ∧ s'.pending.lookup src = some ⟨r, inp.now⟩ := by
  obtain ⟨-, -, -, inp, he, rfl, rfl⟩ := pend_inv h hm
  exact ⟨inp, he, by
    simp [AList.lookup_retain, pendingFresh, durationSince, PENDING_TIMEOUT, fromSecs]⟩

/-- An Hs3 takes the pending entry of its source, whatever becomes of it. -/
theorem hs3_takes {s s' : ServerState K} {inp : Inbound K} {o : List (Effect K)} {body : Bytes}
    (h : serverNext cfg s (.recv inp) = some (s', o))
    (hu : unshapeHs K inp.dgram = some (.hs3, body)) : s'.pending.lookup inp.src = none := by
  have he := ((serverNext_recv cfg).mp h).2
  rw [handleDgram_eq cfg hu] at he
  have hs' : s' = ((handleHs3 cfg s inp body).finish inp.now).1 := by rw [he]
  rw [hs', handleHs3]
  split
  · rename_i hnone
    exact hnone
  · simp only
    split
    · simp [Flow.finish, AList.lookup_retain]
    · split
      · simp [Flow.finish]
      · simp [Flow.finish, installPeer, AList.lookup_retain]

theorem pending_origin (hr : ServerRun cfg (.init secret sources) h s) {src : SocketAddr}
    {ph : PendingHandshake K} (hp : s.pending.lookup src = some ph) :
    ∃ i t wire, At h i t ∧ Effect.pend src ph.responder wire ∈ t.out ∧
      ∀ j u, i < j → At h j u → (∀ r w, Effect.pend src r w ∉ u.out) ∧
        u.pre.pending.lookup src = some ph ∧ u.post.pending.lookup src = some ph := by
  obtain ⟨i, t, ht, ⟨r, wire, hm⟩, hpost, hafter⟩ :=
    hr.last_write (fun s => s.pending.lookup src)
      (fun t => ∃ r wire, Effect.pend src r wire ∈ t.out) rfl
      (fun _ _ _ _ hn => pending_slot hn src) hp
  obtain ⟨inp, -, hl⟩ := pend_post (hr.next_eq ht) hm
  have he : ph = ⟨r, inp.now⟩ := Option.some.inj (hpost.symm.trans hl)
  refine ⟨i, t, wire, ht, by rw [he]; exact hm, ?_⟩
  intro j u hj hu
  obtain ⟨hw, h1, h2⟩ := hafter j u hj hu
  exact ⟨fun r w hrw => hw ⟨r, w, hrw⟩, h1, h2⟩

theorem install_post {s s' : ServerState K} {e : ServerEvent K} {o : List (Effect K)}
    (h : serverNext cfg s e = some (s', o)) {src : SocketAddr} {n : Nat} {key : Key}
    (hm : Effect.install src n key ∈ o) : s'.peerSession src = some n := by
  obtain ⟨_, _, -, -, -, inp, -, -, hp⟩ := install_inv h hm
  simp [ServerState.peerSession, hp, AList.lookup_retain, peerActive, durationSince,
    PEER_IDLE_TIMEOUT, fromSecs]

end Obfs.Udp

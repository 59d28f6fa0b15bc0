import Obfs.Udp.Provenance

/-! Sessions along a run. `SessionCase` lists what one step can do to one
session and which effects it has there; from it follow where a session comes
from, that its channel only seals and opens, and who may seal. -/
namespace Obfs.Udp
open Trace
variable {K : Crates} (cfg : ServerCfg K)

def Effect.on (n : Nat) : Effect K → Bool
  | .received m _ => m == n
  | .sealed m _ _ _ _ => m == n
  | _ => false

def effectsOn (n : Nat) (o : List (Effect K)) : List (Effect K) := o.filter (Effect.on n)

/-- What a step does to session ses number n: the effects on it and the
session afterwards. -/
inductive SessionCase (s : ServerState K) (n : Nat) (ses : Session K) :
    ServerEvent K → List (Effect K) → Session K → Prop where
  | kept {e : ServerEvent K} : SessionCase s n ses e [] ses
  | unopened {inp : Inbound K} {p : PeerState} (hp : s.peers.lookup inp.src = some p)
      (hn : p.session = n) (ho : ∀ env, (ses.channel.openDatagram inp.dgram).1 ≠ .ok (some env)) :
      SessionCase s n ses (.recv inp) []
        { ses with channel := (ses.channel.openDatagram inp.dgram).2 }
  | opened {inp : Inbound K} {p : PeerState} {env : Envelope K.core}
      (hp : s.peers.lookup inp.src = some p) (hn : p.session = n)
      (ho : (ses.channel.openDatagram inp.dgram).1 = .ok (some env)) (hne : env ≠ .ping)
      (hv : ∀ topic filter capability err, env = .subscribe topic filter capability →
        cfg.service.verifyTopic capability topic ≠ .error err) :
      SessionCase s n ses (.recv inp) [.received n env]
        { ses with channel := (ses.channel.openDatagram inp.dgram).2 }
  | ponged {inp : Inbound K} {p : PeerState} (hp : s.peers.lookup inp.src = some p)
      (hn : p.session = n) (ho : (ses.channel.openDatagram inp.dgram).1 = .ok (some .ping)) :
      SessionCase s n ses (.recv inp)
        (.received n .ping ::
          sealEffects n inp.src (ses.channel.openDatagram inp.dgram).2 .pong inp.rng)
        { ses with channel :=
            ((ses.channel.openDatagram inp.dgram).2.sealEnvelope .pong inp.rng).2 }
  | denied {inp : Inbound K} {p : PeerState} {topic : K.core.Topic} {filter : Option K.core.Json}
      {capability : Option K.core.Capability} {err : CoreError K.core}
      (hp : s.peers.lookup inp.src = some p) (hn : p.session = n)
      (ho : (ses.channel.openDatagram inp.dgram).1 =
        .ok (some (.subscribe topic filter capability)))
      (hv : cfg.service.verifyTopic capability topic = .error err) :
      SessionCase s n ses (.recv inp) [.received n (.subscribe topic filter capability)]
        (Session.push { ses with channel := (ses.channel.openDatagram inp.dgram).2 }
          (.subscribeError topic (denyDiagnostic err)))
  | responded {now : Instant} {rng : K.Rng} {sv : Serving K} (hv : s.serving = some sv)
      (hn : sv.session = n) :
      SessionCase s n ses (.respond now rng)
        (sealEffects n sv.src ses.channel (.response (cfg.service.handle sv.req)) rng)
        { ses with channel :=
            (ses.channel.sealEnvelope (.response (cfg.service.handle sv.req)) rng).2 }
  | popped {rng : K.Rng} {env : Envelope K.core} {rest : List (Envelope K.core)}
      (he : ses.ended = false) (hq : ses.queue = env :: rest) :
      SessionCase s n ses (.sealer n rng) (sealEffects n ses.src ses.channel env rng)
        { ses with queue := rest, channel := (ses.channel.sealEnvelope env rng).2 }
  | ended {rng : K.Rng} (hq : ses.queue = []) (hh : s.holdsTx n = false) :
      SessionCase s n ses (.sealer n rng) [] { ses with ended := true }
  | forwarded {i : Nat} {f f' : Forwarder K.core} {ev : Event K.core}
      (hf : s.forwarders[i]? = some f)
      (hp : f.poll (s.sources f.source) (s.alive f.tx) = some (f', some ev)) (hn : f.tx = n) :
      SessionCase s n ses (.forward i) [] (ses.push (.event ev))

/-- The slot of session n in one step: it stays absent, the session in it takes
a step, or the step opens the session. -/
inductive SlotCase (s : ServerState K) (e : ServerEvent K) (o : List (Effect K))
    (s' : ServerState K) (n : Nat) : Prop where
  | absent (hn : s.sessions[n]? = none) (hn' : s'.sessions[n]? = none) (ho : effectsOn n o = [])
  | live {ses ses' : Session K} (hn : s.sessions[n]? = some ses)
      (hn' : s'.sessions[n]? = some ses') (hc : SessionCase cfg s n ses e (effectsOn n o) ses')
  | fresh {inp : Inbound K} {ph : PendingHandshake K} {ch : DataChannel K}
      (hn : n = s.sessions.length) (he : e = .recv inp)
      (hp : s.pending.lookup inp.src = some ph)
      (ha : AdmitsSession cfg ⟨s, e, o, s'⟩ inp.src ph.responder n ch)
      (ho : effectsOn n o = sealEffects n inp.src ch .pong inp.rng)
      (hn' : s'.sessions[n]? = some ⟨inp.src, (ch.sealEnvelope .pong inp.rng).2, [], false⟩)

variable {cfg}

theorem effectsOn_sealEffects (n m : Nat) (dst : SocketAddr) (ch : DataChannel K)
    (env : Envelope K.core) (rng : K.Rng) :
    effectsOn n (sealEffects m dst ch env rng) =
      if m = n then sealEffects m dst ch env rng else [] := by
  unfold effectsOn sealEffects
  split
  · by_cases h : m = n <;> simp [Effect.on, h]
  · simp

@[simp] theorem effectsOn_nil (n : Nat) : effectsOn (K := K) n [] = [] := rfl

@[simp] theorem effectsOn_received (n m : Nat) (env : Envelope K.core) (o : List (Effect K)) :
    effectsOn n (.received m env :: o) =
      if m = n then .received m env :: effectsOn n o else effectsOn n o := by
  by_cases h : m = n <;> simp [effectsOn, Effect.on, h]

@[simp] theorem effectsOn_install (n m : Nat) (src : SocketAddr) (key : Key)
    (o : List (Effect K)) : effectsOn n (.install src m key :: o) = effectsOn n o := rfl

@[simp] theorem effectsOn_handle (n m : Nat) (req : K.core.Request) (o : List (Effect K)) :
    effectsOn n (.handle m req :: o) = effectsOn n o := rfl

@[simp] theorem effectsOn_eventSource (n m : Nat) (topic : K.core.Topic) (o : List (Effect K)) :
    effectsOn n (.eventSource m topic :: o) = effectsOn n o := rfl

theorem slot_kept {s s' : ServerState K} {e : ServerEvent K} {o : List (Effect K)} {n : Nat}
    (hk : s'.sessions[n]? = s.sessions[n]?) (ho : effectsOn n o = []) :
    SlotCase cfg s e o s' n := by
  cases hn : s.sessions[n]? with
  | none => exact .absent hn (hk.trans hn) ho
  | some ses => exact .live hn (hk.trans hn) (ho ▸ .kept)

theorem slot_same {s s' : ServerState K} {e : ServerEvent K} {o : List (Effect K)} {n : Nat}
    (hs : s'.sessions = s.sessions) (ho : effectsOn n o = []) : SlotCase cfg s e o s' n :=
  slot_kept (by rw [hs]) ho

theorem slot_modify {s s' : ServerState K} {e : ServerEvent K} {o : List (Effect K)} {n m : Nat}
    {f : Session K → Session K} {ses : Session K} (hm : s.sessions[m]? = some ses)
    (hs : s'.sessions = s.sessions.modify m f) (hne : m ≠ n → effectsOn n o = [])
    (hc : SessionCase cfg s m ses e (effectsOn m o) (f ses)) : SlotCase cfg s e o s' n := by
  by_cases h : m = n
  · subst h
    refine .live hm ?_ hc
    rw [hs, List.getElem?_modify, hm]
    simp
  · have hk : s'.sessions[n]? = s.sessions[n]? := by
      rw [hs, List.getElem?_modify]
      cases s.sessions[n]? <;> simp [h]
    exact slot_kept hk (hne h)

theorem installed_sessions {s : ServerState K} {inp : Inbound K} {ch : DataChannel K} {n : Nat}
    (hne : s.sessions.length ≠ n) :
    (cleanup inp.now (sealOn (withPeer (dropPending s inp.src) inp ch) s.sessions.length inp.src
      ch .pong inp.rng).1).sessions[n]? = s.sessions[n]? := by
  simp only [sealOn_fst, cleanup_sessions, ServerState.setChannel_sessions, withPeer_sessions,
    dropPending_sessions]
  rw [List.getElem?_modify_ne _ _ hne, List.getElem?_append]
  split
  · rfl
  · rename_i hl
    rw [List.getElem?_eq_none_iff.mpr (by simp; omega), List.getElem?_eq_none_iff.mpr (by omega)]

theorem recv_slot {s s' : ServerState K} {inp : Inbound K} {o : List (Effect K)}
    (hc : RecvCase cfg s inp s' o) (n : Nat) : SlotCase cfg s (.recv inp) o s' n := by
  cases hc with
  | ignored => exact slot_same rfl rfl
  | swept ho => rcases ho with rfl | ⟨wire, rfl⟩ <;> exact slot_same rfl rfl
  | pended hu hl hr hc => exact slot_same rfl rfl
  | rejected hu hp hr => exact slot_same rfl rfl
  | refused hu hp hr hg => exact slot_same rfl rfl
  | @installed body ph ch key hu hp hr hg =>
    by_cases hn : n = s.sessions.length
    · subst hn
      refine .fresh rfl rfl hp (admits_installed _ hu hr hg) ?_ ?_
      · simp [effectsOn_sealEffects]
      · simp
    · have hne : s.sessions.length ≠ n := fun he => hn he.symm
      exact slot_kept (installed_sessions hne) (by simp [effectsOn_sealEffects, hne])
  | dangling hp hs => exact slot_same rfl rfl
  | @unopened p ses hp hs ho =>
    exact slot_modify hs (afterOpen_sessions s inp p ses) (fun _ => rfl) (.unopened hp rfl ho)
  | @ping p ses hp hs ho =>
    refine slot_modify hs (f := fun x => { x with channel :=
      ((ses.channel.openDatagram inp.dgram).2.sealEnvelope .pong inp.rng).2 }) ?_ ?_ ?_
    · simp only [sealOn_fst, cleanup_sessions, ServerState.setChannel_sessions,
        afterOpen_sessions, List.modify_modify_eq]
      rfl
    · intro hne
      simp [effectsOn_sealEffects, hne]
    · simp only [sealOn_snd, effectsOn_received, effectsOn_sealEffects, if_true]
      exact .ponged hp rfl ho
  | @request p ses req hp hs ho =>
    refine slot_modify hs (afterOpen_sessions s inp p ses) ?_ ?_
    · intro hne
      simp [hne]
    · simp only [effectsOn_received, effectsOn_handle, effectsOn_nil, if_true]
      exact .opened hp rfl ho (by simp) (by simp)
  | @denied p ses topic filter capability err hp hs ho hv =>
    refine slot_modify hs (f := fun x => Session.push
      { x with channel := (ses.channel.openDatagram inp.dgram).2 }
      (.subscribeError topic (denyDiagnostic err))) ?_ ?_ ?_
    · simp only [cleanup_sessions, ServerState.enqueue_sessions, afterOpen_sessions,
        List.modify_modify_eq]
      rfl
    · intro hne
      simp [hne]
    · simp only [effectsOn_received, effectsOn_nil, if_true]
      exact .denied hp rfl ho hv
  | @unserved p ses _ _ _ _ hp hs ho hv he | @subscribed p ses _ _ _ _ _ hp hs ho hv he =>
    refine slot_modify hs (afterOpen_sessions s inp p ses) ?_ ?_
    · intro hne
      simp [hne]
    · simp only [effectsOn_received, effectsOn_eventSource, effectsOn_nil, if_true]
      refine .opened hp rfl ho (by simp) ?_
      rintro _ _ _ err ⟨⟩
      rw [hv]
      simp
  | @inert p ses env hp hs ho hi =>
    refine slot_modify hs (afterOpen_sessions s inp p ses) ?_ ?_
    · intro hne
      simp [hne]
    · simp only [effectsOn_received, effectsOn_nil, if_true]
      refine .opened hp rfl ho ?_ ?_
      · rintro rfl
        cases hi
      · rintro _ _ _ err rfl
        cases hi

theorem slot_case {s s' : ServerState K} {e : ServerEvent K} {o : List (Effect K)}
    (h : serverNext cfg s e = some (s', o)) (n : Nat) : SlotCase cfg s e o s' n := by
  cases serverNext_case cfg h with
  | recv hs hc => exact recv_slot hc n
  | @respond now rng sv ses hv hs =>
    refine slot_modify hs (f := fun x => { x with channel := (ses.channel.sealEnvelope
      (.response (cfg.service.handle sv.req)) rng).2 }) rfl ?_ ?_
    · intro hne
      simp [effectsOn_sealEffects, hne]
    · simp only [sealOn_snd, effectsOn_sealEffects, if_true]
      exact .responded hv rfl
  | @sealed m rng ses env rest hs he hq =>
    refine slot_modify hs (f := fun x => { x with
      queue := rest, channel := (ses.channel.sealEnvelope env rng).2 }) ?_ ?_ ?_
    · simp only [sealOn_fst, ServerState.setChannel_sessions, ServerState.setQueue_sessions,
        List.modify_modify_eq]
      rfl
    · intro hne
      simp [effectsOn_sealEffects, hne]
    · simp only [sealOn_snd, effectsOn_sealEffects, if_true]
      exact .popped he hq
  | @ended m rng ses hs hq hh =>
    exact slot_modify hs (s.endSealer_sessions m) (fun _ => rfl) (.ended hq hh)
  | @forwarded i f f' ev hf hp =>
    have halive : s.alive f.tx = true := ((Forwarder.poll_spec hp).2.2.2.2 ev rfl).2.2.1
    cases hs : s.sessions[f.tx]? with
    | none => simp [ServerState.alive, hs] at halive
    | some ses => exact slot_modify hs rfl (fun _ => rfl) (.forwarded hf hp rfl)
  | polled hf hp => exact slot_same rfl rfl
  | emit => exact slot_same rfl rfl
  | close => exact slot_same rfl rfl
  | rotate => exact slot_same rfl rfl

theorem Session.push_src (ses : Session K) (env : Envelope K.core) :
    (ses.push env).src = ses.src := by
  rw [Session.push]
  split <;> rfl

theorem Session.push_channel (ses : Session K) (env : Envelope K.core) :
    (ses.push env).channel = ses.channel := by
  rw [Session.push]
  split <;> rfl

theorem Session.push_queue (ses : Session K) (env : Envelope K.core) :
    (ses.push env).queue = ses.queue ∨ (ses.push env).queue = ses.queue ++ [env] := by
  rw [Session.push]
  split
  · exact Or.inl rfl
  · exact Or.inr rfl

theorem SessionCase.evolves {s : ServerState K} {n : Nat} {ses ses' : Session K}
    {e : ServerEvent K} {fx : List (Effect K)} (hc : SessionCase cfg s n ses e fx ses') :
    ses'.src = ses.src ∧ ses.channel.Evolves ses'.channel := by
  cases hc with
  | kept => exact ⟨rfl, .refl⟩
  | @unopened inp _ hp hn ho => exact ⟨rfl, .opened inp.dgram .refl⟩
  | @opened inp _ _ hp hn ho => exact ⟨rfl, .opened inp.dgram .refl⟩
  | @ponged inp _ hp hn ho => exact ⟨rfl, .sealed .pong inp.rng (.opened inp.dgram .refl)⟩
  | @denied inp _ _ _ _ _ hp hn ho hv =>
    rw [Session.push_src, Session.push_channel]
    exact ⟨rfl, .opened inp.dgram .refl⟩
  | @responded now rng sv hv hn => exact ⟨rfl, .sealed _ rng .refl⟩
  | @popped rng env rest he hq => exact ⟨rfl, .sealed env rng .refl⟩
  | ended hq hh => exact ⟨rfl, .refl⟩
  | forwarded hf hp hn =>
    rw [Session.push_src, Session.push_channel]
    exact ⟨rfl, .refl⟩

theorem session_step {s s' : ServerState K} {e : ServerEvent K} {o : List (Effect K)}
    (h : serverNext cfg s e = some (s', o)) {n : Nat} {ses : Session K}
    (hn : s.sessions[n]? = some ses) :
    ∃ ses', s'.sessions[n]? = some ses' ∧ SessionCase cfg s n ses e (effectsOn n o) ses' := by
  cases slot_case h n with
  | absent hn0 => rw [hn0] at hn; cases hn
  | live hn1 hn' hc =>
    cases Option.some.inj (hn1.symm.trans hn)
    exact ⟨_, hn', hc⟩
  | fresh hl =>
    have hlt := (List.getElem?_eq_some_iff.mp hn).1
    omega

/-- Peers and the request in service belong to sessions of their source. -/
structure Wf (s : ServerState K) : Prop where
  peers : ∀ src p, s.peers.lookup src = some p → ∃ ses, s.sessions[p.session]? = some ses ∧
    ses.src = src
  serving : ∀ sv, s.serving = some sv → ∃ ses, s.sessions[sv.session]? = some ses ∧
    ses.src = sv.src

theorem serving_step {s s' : ServerState K} {e : ServerEvent K} {o : List (Effect K)}
    (h : serverNext cfg s e = some (s', o)) {sv : Serving K} (hv : s'.serving = some sv) :
    s.serving = some sv ∨ ∃ p, s.peers.lookup sv.src = some p ∧ sv.session = p.session := by
  cases serverNext_case cfg h with
  | @recv inp s' o hs hc =>
    cases hc with
    | @request p ses req hp hs ho =>
      cases hv
      exact Or.inr ⟨p, hp, rfl⟩
    | _ => exact Or.inl hv
  | respond => cases hv
  | _ => exact Or.inl hv

theorem wf_step {s s' : ServerState K} {e : ServerEvent K} {o : List (Effect K)} (hw : Wf s)
    (h : serverNext cfg s e = some (s', o)) : Wf s' := by
  have hkeep {n : Nat} {src : SocketAddr} (hs : ∃ ses, s.sessions[n]? = some ses ∧ ses.src = src) :
      ∃ ses, s'.sessions[n]? = some ses ∧ ses.src = src := by
    obtain ⟨ses, hs, hsrc⟩ := hs
    obtain ⟨ses', hs', hc⟩ := session_step h hs
    exact ⟨ses', hs', hc.evolves.1.trans hsrc⟩
  have hpeer (src : SocketAddr) (n : Nat) (hn : s.peerSession src = some n) :
      ∃ ses, s'.sessions[n]? = some ses ∧ ses.src = src := by
    obtain ⟨p, hp, rfl⟩ := Option.map_eq_some_iff.mp hn
    exact hkeep (hw.peers src p hp)
  constructor
  · intro src p hp
    have hn : s'.peerSession src = some p.session := by simp [ServerState.peerSession, hp]
    rcases peer_slot h src with ⟨n, key, hm⟩ | hk | hk
    · obtain ⟨ph, ch, -, ⟨inp, _, _, _, _, -, -, -, -, -, -, -, -, hs⟩, -⟩ := install_inv h hm
      cases (install_post h hm).symm.trans hn
      exact ⟨_, hs, rfl⟩
    · exact hpeer src p.session (hk ▸ hn)
    · rw [hk] at hn
      cases hn
  · intro sv hv
    rcases serving_step h hv with hv | ⟨p, hp, he⟩
    · exact hkeep (hw.serving sv hv)
    · rw [he]
      exact hpeer sv.src p.session (by simp [ServerState.peerSession, hp])

theorem wf_init (secret : K.CookieSecret) (sources : Nat → Broadcast.Channel (Event K.core)) :
    Wf (ServerState.init secret sources) := by
  constructor
  · intro src p hp
    simp at hp
  · intro sv hv
    simp at hv

theorem SessionCase.sealed {s : ServerState K} {n : Nat} {ses ses' : Session K}
    {e : ServerEvent K} {fx : List (Effect K)} (hw : Wf s) (hn : s.sessions[n]? = some ses)
    (hc : SessionCase cfg s n ses e fx ses') {m : Nat} {dst : SocketAddr} {σ : K.RecordSealer}
    {env : Envelope K.core} {wire : Bytes} (hm : Effect.sealed m dst σ env wire ∈ fx) :
    dst = ses.src ∧ ∃ c rng, ses.channel.Evolves c ∧ c.sealer = σ ∧
      (c.sealEnvelope env rng).1 = .ok wire := by
  cases hc with
  | @ponged inp p hp hn' ho =>
    simp only [List.mem_cons, reduceCtorEq, mem_sealEffects, Effect.sealed.injEq, false_or] at hm
    obtain ⟨wire', hw', rfl, rfl, rfl, rfl, rfl⟩ := hm
    obtain ⟨ses1, hs1, hsrc⟩ := hw.peers inp.src p hp
    rw [hn', hn] at hs1
    cases hs1
    exact ⟨hsrc.symm, _, inp.rng, .opened inp.dgram .refl, rfl, hw'⟩
  | @responded now rng sv hv hn' =>
    obtain ⟨wire', hw', he⟩ := mem_sealEffects.mp hm
    cases he
    obtain ⟨ses1, hs1, hsrc⟩ := hw.serving sv hv
    rw [hn', hn] at hs1
    cases hs1
    exact ⟨hsrc.symm, _, rng, .refl, rfl, hw'⟩
  | @popped rng env' rest he hq =>
    obtain ⟨wire', hw', he⟩ := mem_sealEffects.mp hm
    cases he
    exact ⟨rfl, _, rng, .refl, rfl, hw'⟩
  | _ => simp at hm

theorem mem_effectsOn_sealed {n : Nat} {dst : SocketAddr} {σ : K.RecordSealer}
    {env : Envelope K.core} {wire : Bytes} {o : List (Effect K)} :
    Effect.sealed n dst σ env wire ∈ effectsOn n o ↔ Effect.sealed n dst σ env wire ∈ o := by
  simp [effectsOn, Effect.on]

/-- A sealed envelope was sealed by the channel of a session of the
destination, or by the channel of the session that this very step opens. -/
theorem sealed_inv {s s' : ServerState K} {e : ServerEvent K} {o : List (Effect K)} (hw : Wf s)
    (h : serverNext cfg s e = some (s', o)) {n : Nat} {dst : SocketAddr} {σ : K.RecordSealer}
    {env : Envelope K.core} {wire : Bytes} (hm : Effect.sealed n dst σ env wire ∈ o) :
    ∃ c rng, c.sealer = σ ∧ (c.sealEnvelope env rng).1 = .ok wire ∧
      ((∃ ses, s.sessions[n]? = some ses ∧ ses.src = dst ∧ ses.channel.Evolves c) ∨
        ∃ ph, s.pending.lookup dst = some ph ∧
          AdmitsSession cfg ⟨s, e, o, s'⟩ dst ph.responder n c) := by
  rw [← mem_effectsOn_sealed] at hm
  cases slot_case h n with
  | absent hn hn' ho => rw [ho] at hm; cases hm
  | live hn hn' hc =>
    obtain ⟨rfl, c, rng, hev, hσ, hwire⟩ := hc.sealed hw hn hm
    exact ⟨c, rng, hσ, hwire, Or.inl ⟨_, hn, rfl, hev⟩⟩
  | @fresh inp ph ch hl he hp ha ho hn' =>
    rw [ho, mem_sealEffects] at hm
    obtain ⟨wire', hw', he⟩ := hm
    cases he
    exact ⟨ch, inp.rng, rfl, hw', Or.inr ⟨ph, hp, ha⟩⟩

variable {secret : K.CookieSecret} {sources : Nat → Broadcast.Channel (Event K.core)}
  {h : List (ServerStep K)} {s : ServerState K}

theorem wf_run (hr : ServerRun cfg (.init secret sources) h s) : Wf s :=
  hr.invariant (wf_init secret sources) fun _ _ _ _ hw hn => wf_step hw hn

theorem session_kept {s₀ : ServerState K} (hr : ServerRun cfg s₀ h s) {n : Nat} {ses : Session K}
    (hn : s₀.sessions[n]? = some ses) :
    ∃ ses', s.sessions[n]? = some ses' ∧ ses'.src = ses.src ∧
      ses.channel.Evolves ses'.channel := by
  induction hr with
  | nil => exact ⟨ses, hn, rfl, .refl⟩
  | snoc hr hs ih =>
    obtain ⟨ses1, hn1, hsrc, hev⟩ := ih
    obtain ⟨ses2, hn2, hc⟩ := session_step hs hn1
    exact ⟨ses2, hn2, hc.evolves.1.trans hsrc, hev.trans hc.evolves.2⟩

theorem session_origin (hr : ServerRun cfg (.init secret sources) h s) {n : Nat} {ses : Session K}
    (hn : s.sessions[n]? = some ses) :
    ∃ j u ph ch, At h j u ∧ u.pre.pending.lookup ses.src = some ph ∧
      AdmitsSession cfg u ses.src ph.responder n ch ∧ ch.Evolves ses.channel := by
  induction hr generalizing ses with
  | nil => simp at hn
  | @snoc h s s' e o hr hs ih =>
    cases slot_case hs n with
    | absent hn0 hn' => rw [hn'] at hn; cases hn
    | @live ses0 ses1 hn0 hn' hc =>
      cases Option.some.inj (hn'.symm.trans hn)
      obtain ⟨hsrc, hev⟩ := hc.evolves
      obtain ⟨j, u, ph, ch, hu, hp, ha, hev'⟩ := ih hn0
      rw [← hsrc] at hp ha
      exact ⟨j, u, ph, ch, hu.append _, hp, ha, hev'.trans hev⟩
    | @fresh inp ph ch hl he hp ha ho hn' =>
      cases Option.some.inj (hn'.symm.trans hn)
      exact ⟨h.length, _, ph, ch, at_last _, hp, ha, .sealed .pong inp.rng .refl⟩

end Obfs.Udp

import Obfs.Forwarding
import Obfs.Udp.Eviction

/-! The events of the sessions of the UDP server over a whole run: what the
forwarders make of their sources, and how the sealer task of each session takes
it from its queue. -/
namespace Obfs.Udp
open Broadcast Trace
variable {K : Crates} {cfg : ServerCfg K}

def forwarding (K : Crates) : Forwarding (ServerState K) (ServerEvent K) K.core where
  forwarders := ServerState.forwarders
  sources := ServerState.sources
  alive s f := s.alive f.tx
  polled
    | .forward i => some i
    | _ => none

variable {s s' : ServerState K} {e : ServerEvent K} {o : List (Effect K)}

theorem forwarding_case (h : serverNext cfg s e = some (s', o)) :
    (forwarding K).Case s e s' := by
  cases serverNext_case cfg h with
  | @recv inp s' o hs hc =>
    cases hc with
    | @subscribed p ses topic filter capability subject src hp hs ho hv he =>
      exact .spawned src topic p.session rfl rfl rfl
    | _ => exact .idle rfl rfl fun k => List.prefix_refl _
  | @forwarded i f f' ev hf hp => exact .polled i f f' (some ev) rfl hf hp rfl rfl
  | @polled i f f' hf hp => exact .polled i f f' none rfl hf hp rfl rfl
  | @emit source ev =>
    exact .idle rfl rfl (log_update (fun ch => ch.log_send ev) source)
  | @close source =>
    exact .idle rfl rfl (log_update (f := Channel.close) (fun ch => List.prefix_refl _) source)
  | respond hv hs | sealed hs he hq | ended hs hq hh | rotate =>
    exact .idle rfl rfl fun k => List.prefix_refl _

theorem Session.push_ended (ses : Session K) (env : Envelope K.core) :
    (ses.push env).ended = ses.ended := by
  unfold Session.push
  split <;> rfl

theorem alive_of_post (h : serverNext cfg s e = some (s', o)) {n : Nat} {ses : Session K}
    (hn : s.sessions[n]? = some ses) (ha : s'.alive n = true) : s.alive n = true := by
  obtain ⟨ses', hn', hc⟩ := session_step h hn
  rw [ServerState.alive, hn', Option.any_some] at ha
  rw [ServerState.alive, hn, Option.any_some]
  generalize effectsOn n o = fx at hc
  cases hc with
  | denied hp hn ho hv =>
    rw [Session.push_ended] at ha
    exact ha
  | forwarded hf hp hn =>
    rw [Session.push_ended] at ha
    exact ha
  | ended hq hh => cases ha
  | _ => exact ha

def waiting (n : Nat) (s : ServerState K) : List (Event K.core) :=
  (s.sessions[n]?).elim [] fun ses => ses.queue.filterMap Envelope.event?

def popped (n : Nat) (t : ServerStep K) : List (Event K.core) :=
  match t.event with
  | .sealer m _ =>
    if m = n then
      (t.pre.sessions[n]?).elim [] fun ses => (ses.queue.take 1).filterMap Envelope.event?
    else []
  | _ => []

def sealedEventsOn (n : Nat) (t : ServerStep K) : List (Event K.core) :=
  (sealedOn n t).filterMap Envelope.event?

theorem popped_length (n : Nat) (t : ServerStep K) : (popped n t).length ≤ 1 := by
  unfold popped
  split
  · split
    · cases t.pre.sessions[n]? with
      | none => exact Nat.zero_le _
      | some ses =>
        refine (List.length_filterMap_le _ _).trans ?_
        rw [List.length_take]
        exact Nat.min_le_left _ _
    · exact Nat.zero_le _
  · exact Nat.zero_le _

theorem popped_sealer {n m : Nat} {rng : K.Rng} {ses : Session K}
    (hm : s.sessions[m]? = some ses) :
    popped n (⟨s, .sealer m rng, o, s'⟩ : ServerStep K) =
      if m = n then (ses.queue.take 1).filterMap Envelope.event? else [] := by
  by_cases hmn : m = n
  · subst hmn
    simp [popped, hm]
  · simp [popped, hmn]

theorem waiting_eq {n : Nat} {ses : Session K} (hn : s.sessions[n]? = some ses) :
    waiting n s = ses.queue.filterMap Envelope.event? := by
  rw [waiting, hn]
  rfl

theorem events_push {ses : Session K} {env : Envelope K.core} (he : env.event? = none) :
    (ses.push env).queue.filterMap Envelope.event? = ses.queue.filterMap Envelope.event? := by
  rcases ses.push_queue env with hq | hq
  · rw [hq]
  · rw [hq, List.filterMap_append, List.filterMap_cons_none he, List.filterMap_nil,
      List.append_nil]

theorem alive_eq_true {n : Nat} :
    s.alive n = true ↔ ∃ ses, s.sessions[n]? = some ses ∧ ses.ended = false := by
  rw [ServerState.alive, Option.any_eq_true]
  simp

/- Neither the receive loop nor the sources touch the events of a session. -/
theorem waiting_kept (h : serverNext cfg s e = some (s', o)) (n : Nat)
    (hp : (forwarding K).polled e = none) (hs : ∀ m rng, e ≠ .sealer m rng) :
    waiting n s' = waiting n s := by
  cases slot_case h n with
  | absent hn hn' ho => rw [waiting, waiting, hn, hn']
  | fresh hn he hp ha ho hn' =>
    rw [waiting_eq hn', waiting, hn, List.getElem?_eq_none (Nat.le_refl _)]
    rfl
  | live hn hn' hc =>
    rw [waiting_eq hn, waiting_eq hn']
    generalize effectsOn n o = fx at hc
    cases hc with
    | denied hp hn ho hv => exact events_push rfl
    | popped he hq => exact absurd rfl (hs _ _)
    | ended hq hh => rfl
    | forwarded hf hpoll hn => cases hp
    | _ => rfl

theorem waiting_modify {ses : Session K} {n m : Nat} {f : Session K → Session K}
    (hm : s.sessions[m]? = some ses) (hs : s'.sessions = s.sessions.modify m f) :
    waiting n s' = if m = n then (f ses).queue.filterMap Envelope.event? else waiting n s := by
  rw [waiting, hs, List.getElem?_modify]
  by_cases hmn : m = n
  · subst hmn
    rw [hm, if_pos rfl]
    simp
  · rw [if_neg hmn, waiting]
    simp [hmn]

theorem waiting_setChannel (s : ServerState K) (n m : Nat) (ch : DataChannel K) :
    waiting n (s.setChannel m ch) = waiting n s := by
  simp only [waiting, ServerState.setChannel_sessions, List.getElem?_modify]
  cases s.sessions[n]? with
  | none => rfl
  | some ses =>
    by_cases hmn : m = n <;> simp [hmn]

theorem events_fifo (h : serverNext cfg s e = some (s', o)) (n : Nat) :
    popped n ⟨s, e, o, s'⟩ ++ waiting n s' = waiting n s ++
      ((forwarding K).sentOn n (⟨s, e, o, s'⟩ : ServerStep K)).map Prod.snd := by
  -- any task but a forwarder and a sealer
  have hquiet (hp : (forwarding K).polled e = none) (hs : ∀ m rng, e ≠ .sealer m rng) :
      popped n ⟨s, e, o, s'⟩ ++ waiting n s' = waiting n s ++
        ((forwarding K).sentOn n (⟨s, e, o, s'⟩ : ServerStep K)).map Prod.snd := by
    have hpop : popped n ⟨s, e, o, s'⟩ = [] := by
      cases e with
      | sealer m rng => exact absurd rfl (hs m rng)
      | _ => rfl
    rw [hpop, Forwarding.sentOn_idle n hp, waiting_kept h n hp hs]
    simp
  cases serverNext_case cfg h with
  | @sealed m rng ses env rest hs he hq =>
    rw [popped_sealer hs, Forwarding.sentOn_idle n rfl, List.map_nil, List.append_nil]
    show _ ++ waiting n ((s.setQueue m rest).setChannel m _) = _
    rw [waiting_setChannel, waiting_modify (f := fun x => { x with queue := rest }) hs rfl]
    by_cases hmn : m = n
    · subst hmn
      rw [if_pos rfl, if_pos rfl, waiting_eq hs, hq, ← List.filterMap_append]
      rfl
    · rw [if_neg hmn, if_neg hmn]
      rfl
  | @ended m rng ses hs hq hh =>
    rw [popped_sealer hs, hq, Forwarding.sentOn_idle n rfl, List.map_nil, List.append_nil,
      waiting_modify (f := fun x => { x with ended := true }) hs rfl]
    by_cases hmn : m = n
    · subst hmn
      rw [if_pos rfl, if_pos rfl, waiting_eq hs]
      rfl
    · rw [if_neg hmn, if_neg hmn]
      rfl
  | @forwarded i f f' ev hf hp =>
    obtain ⟨-, -, -, -, hspec⟩ := Forwarder.poll_spec hp
    obtain ⟨ses, hs, hlive⟩ := alive_eq_true.mp (hspec ev rfl).2.2.1
    rw [Forwarding.sentOn_polled (F := forwarding K) n rfl hf hp,
      waiting_modify (f := (·.push (.event ev))) (s := s) hs rfl]
    by_cases hmn : f.tx = n
    · subst hmn
      rw [if_pos rfl, if_pos rfl, waiting_eq hs, Session.push, if_neg (by simp [hlive]),
        List.filterMap_append]
      rfl
    · rw [if_neg hmn, if_neg hmn]
      exact (List.append_nil _).symm
  | @polled i f f' hf hp =>
    rw [Forwarding.sentOn_polled (F := forwarding K) n rfl hf hp]
    simp [popped, waiting]
  | _ => exact hquiet rfl (by simp)

theorem events_sealed {ch : DataChannel K} {env : Envelope K.core} {rng : K.Rng} {wire : Bytes}
    (hok : (ch.sealEnvelope env rng).1 = .ok wire) (n m : Nat) (dst : SocketAddr) :
    sealedEventsOn n ⟨s, e, sealEffects m dst ch env rng, s'⟩ =
      if m = n then [env].filterMap Envelope.event? else [] := by
  simp only [sealedEventsOn, sealedOn, sealEffects, hok]
  by_cases hmn : m = n <;> simp [hmn]

theorem events_unsealed {ch : DataChannel K} {env : Envelope K.core} {rng : K.Rng}
    {err : ObfsError K.core} (herr : (ch.sealEnvelope env rng).1 = .error err) (n m : Nat)
    (dst : SocketAddr) : sealedEventsOn n ⟨s, e, sealEffects m dst ch env rng, s'⟩ = [] := by
  simp only [sealedEventsOn, sealedOn, sealEffects, herr, List.filterMap_nil]

theorem unsealed (h : serverNext cfg s e = some (s', o)) (n : Nat)
    (hs : ∀ m rng, e ≠ .sealer m rng) : sealedEventsOn n ⟨s, e, o, s'⟩ = [] := by
  have hnone (m : Nat) (dst : SocketAddr) (ch : DataChannel K) (env : Envelope K.core)
      (rng : K.Rng) (he : env.event? = none) :
      sealedEventsOn n ⟨s, e, sealEffects m dst ch env rng, s'⟩ = [] := by
    cases hok : (ch.sealEnvelope env rng).1 with
    | ok wire =>
      rw [events_sealed hok, List.filterMap_cons_none he]
      exact ite_self _
    | error err => exact events_unsealed hok n m dst
  rw [sealedEventsOn, sealedOn_effectsOn]
  cases slot_case h n with
  | absent hn hn' ho => rw [ho]; rfl
  | fresh hn he hp ha ho hn' => rw [ho]; exact hnone _ _ _ _ _ rfl
  | live hn hn' hc =>
    generalize effectsOn n o = fx at hc
    cases hc with
    | ponged hp hn ho => exact hnone _ _ _ _ _ rfl
    | responded hv hn => exact hnone _ _ _ _ _ rfl
    | popped he hq => exact absurd rfl (hs _ _)
    | _ => rfl

/-- An event is sealed as it leaves the queue, unless sealing fails. -/
theorem sealed_popped (h : serverNext cfg s e = some (s', o)) (n : Nat) :
    sealedEventsOn n ⟨s, e, o, s'⟩ = popped n ⟨s, e, o, s'⟩ ∨
      sealedEventsOn n ⟨s, e, o, s'⟩ = [] ∧ ∃ rng ses env rest err, e = .sealer n rng ∧
        s.sessions[n]? = some ses ∧ ses.queue = env :: rest ∧
        (ses.channel.sealEnvelope env rng).1 = .error err := by
  have hquiet (hs : ∀ m rng, e ≠ .sealer m rng) :
      sealedEventsOn n ⟨s, e, o, s'⟩ = popped n ⟨s, e, o, s'⟩ := by
    rw [unsealed h n hs]
    cases e with
    | sealer m rng => exact absurd rfl (hs m rng)
    | _ => rfl
  cases serverNext_case cfg h with
  | @sealed m rng ses env rest hs he hq =>
    show sealedEventsOn n ⟨s, _, sealEffects m ses.src ses.channel env rng, _⟩ = _ ∨
      sealedEventsOn n ⟨s, _, sealEffects m ses.src ses.channel env rng, _⟩ = _ ∧ _
    cases hok : (ses.channel.sealEnvelope env rng).1 with
    | ok wire =>
      refine Or.inl ?_
      rw [events_sealed hok]
      by_cases hmn : m = n
      · subst hmn
        simp [popped, hs, hq]
      · simp [popped, hmn]
    | error err =>
      rw [events_unsealed hok]
      by_cases hmn : m = n
      · subst hmn
        exact Or.inr ⟨rfl, rng, ses, env, rest, err, rfl, hs, hq, hok⟩
      · exact Or.inl (by simp [popped, hmn])
  | @ended m rng ses hs hq hh =>
    refine Or.inl ?_
    by_cases hmn : m = n
    · subst hmn
      simp [popped, hs, hq, sealedEventsOn, sealedOn]
    · simp [popped, hmn, sealedEventsOn, sealedOn]
  | _ => exact Or.inl (hquiet (by simp))

theorem mem_popped {t : ServerStep K} (hn : serverNext cfg t.pre t.event = some (t.post, t.out))
    {n : Nat} {dst : SocketAddr} {σ : K.RecordSealer} {ev : Event K.core} {wire : Bytes}
    (hm : Effect.sealed n dst σ (.event ev) wire ∈ t.out) : ev ∈ popped n t := by
  have hmem : ev ∈ sealedEventsOn n t := by
    refine List.mem_filterMap.mpr ⟨.event ev, List.mem_filterMap.mpr ⟨_, hm, ?_⟩, rfl⟩
    simp
  rcases sealed_popped hn n with heq | ⟨hnil, -⟩
  · exact heq ▸ hmem
  · rw [show sealedEventsOn n t = [] from hnil] at hmem
    cases hmem

variable {secret : K.CookieSecret} {sources : Nat → Channel (Event K.core)}
  {h : List (ServerStep K)}

theorem popped_run (hr : ServerRun cfg (.init secret sources) h s) (n : Nat) :
    gather (popped n) h ++ waiting n s = (gather ((forwarding K).sentOn n) h).map Prod.snd := by
  have hf := hr.fifo (waiting n) (fun t => ((forwarding K).sentOn n t).map Prod.snd) (popped n)
    fun hn => events_fifo hn n
  rw [gather_map] at hf
  exact hf

theorem spawned_subscribed (hn : serverNext cfg s e = some (s', o)) {f : Forwarder K.core}
    (hs : s'.forwarders = s.forwarders ++ [f]) : ∃ filter capability subject,
      Effect.received f.tx (.subscribe f.topic filter capability) ∈ o ∧
      cfg.service.verifyTopic capability f.topic = .ok subject ∧
      cfg.service.eventSource f.topic = some f.source := by
  have hgrow : s'.forwarders.length ≠ s.forwarders.length := by
    rw [hs, List.length_append, List.length_singleton]
    omega
  cases serverNext_case cfg hn with
  | @recv inp s' o hserve hc =>
    cases hc with
    | @subscribed p ses topic filter capability subject src hp hses ho hv he =>
      obtain rfl : Forwarder.spawn src (s.sources src) topic p.session = f := by
        simpa using hs
      exact ⟨filter, capability, subject, List.mem_cons_self, hv, he⟩
    | _ => exact absurd rfl hgrow
  | forwarded hf hp => exact absurd (by simp) hgrow
  | polled hf hp => exact absurd (by simp) hgrow
  | _ => exact absurd rfl hgrow

theorem forwarder_session (hr : ServerRun cfg (.init secret sources) h s) {i : Nat}
    {f : Forwarder K.core} (hf : s.forwarders[i]? = some f) :
    ∃ ses, s.sessions[f.tx]? = some ses := by
  obtain ⟨j, t, ht, -, hs, -⟩ := Forwarding.spawned_at forwarding_case rfl hr hf
  have hn := hr.next_eq ht
  obtain ⟨filter, capability, subject, hrecv, -⟩ := spawned_subscribed hn hs
  obtain ⟨inp, p, ses, -, -, -, hses, -⟩ := received_inv hn hrecv
  obtain ⟨ses₁, hses₁, -⟩ := session_step hn hses
  obtain ⟨ses₂, hses₂, -⟩ := session_kept (hr.drop_succ ht) hses₁
  exact ⟨ses₂, hses₂⟩

/-- The events of a session of the UDP server. What its sealer task has taken from
its queue and what waits there is what the forwarders of the session have sent on,
in order; what the task takes is sealed unless sealing fails. And while the task
lives, each forwarder has sent on, in order and once, every event of its topic that
its source has emitted between the authorised subscription and its present
position, but for those it has skipped when it was more than the channel's capacity
behind. -/
theorem session_forwards_exactly (hr : ServerRun cfg (.init secret sources) h s) (n : Nat) :
    gather (popped n) h ++ waiting n s =
        (gather ((forwarding K).sentOn n) h).map Prod.snd ∧
      (∀ k u, At h k u → sealedEventsOn n u = popped n u ∨
        sealedEventsOn n u = [] ∧ ∃ rng ses env rest err, u.event = .sealer n rng ∧
          u.pre.sessions[n]? = some ses ∧ ses.queue = env :: rest ∧
          (ses.channel.sealEnvelope env rng).1 = .error err) ∧
      ∀ i f, s.forwarders[i]? = some f → f.tx = n → s.alive n = true →
        ∃ j t filter capability subject, At h j t ∧
          Effect.received n (.subscribe f.topic filter capability) ∈ t.out ∧
          cfg.service.verifyTopic capability f.topic = .ok subject ∧
          cfg.service.eventSource f.topic = some f.source ∧
          (let start := (t.pre.sources f.source).log.length
          gather ((forwarding K).forwards i) h =
            (List.range' start (f.rx.next - start)).filter fun m =>
              carries (s.sources f.source) f.topic m &&
                decide (m ∉ gather ((forwarding K).reader i).skipped h)) ∧
          ∀ k u, At h k u → ∀ m ∈ ((forwarding K).reader i).skipped u,
            m + (u.pre.sources f.source).capacity < (u.pre.sources f.source).log.length := by
  refine ⟨popped_run hr n, fun k u hu => sealed_popped (hr.next_eq hu) n, ?_⟩
  intro i f hf htx ha
  subst htx
  obtain ⟨j, t, ht, -, hs, hx⟩ := Forwarding.spawned_at forwarding_case rfl hr hf
  obtain ⟨filter, capability, subject, hrecv, hv, he⟩ := spawned_subscribed (hr.next_eq ht) hs
  refine ⟨j, t, filter, capability, subject, ht, hrecv, hv, he, ?_, ?_⟩
  · refine Forwarding.forwards_exact forwarding_case rfl hr ?_ hf ha hx
    intro k u hu g g' hg hg' hlive
    obtain ⟨hpre, hn⟩ := hr.step hu
    obtain ⟨ses, hses⟩ := forwarder_session hpre hg
    obtain ⟨g₁, hg₁, -, -, htx⟩ := (forwarding_case hn).kept hg
    cases hg'.symm.trans hg₁
    have hlive' : u.post.alive g'.tx = true := hlive
    rw [htx] at hlive'
    exact alive_of_post hn hses hlive'
  · intro k u hu m hm
    exact Forwarding.skipped_lagged forwarding_case hr hf hu hm

end Obfs.Udp

namespace Obfs.Symbolic
open Udp Broadcast Trace

/- The forwarder loses the first event, skips one of another topic and sends on
the last one. -/
def laggedSession : List (ServerEvent crates) :=
  subscriber (some 7) ++ [.emit 0 news, .emit 0 ⟨4, 1, 1⟩, .emit 0 sequel, .forward 0, .forward 0,
    .forward 0, .sealer 0 ()]

theorem session_forwards_exactly_lagged : ∃ h s f start,
    ServerRun cfg (.init ⟨keyOf 0, none⟩ smallSources) h s ∧
    gather (sealedEventsOn 0) h = [sequel] ∧ s.forwarders[0]? = some f ∧
    gather ((forwarding crates).reader 0).skipped h = [0] ∧
    gather ((forwarding crates).forwards 0) h =
      (List.range' start (f.rx.next - start)).filter fun n =>
        carries (s.sources f.source) f.topic n &&
          decide (n ∉ gather ((forwarding crates).reader 0).skipped h) := by
  have hx : ∃ h s, ServerRun cfg (.init ⟨keyOf 0, none⟩ smallSources) h s ∧
      h.map Step.event = laggedSession ∧ gather (sealedEventsOn 0) h = [sequel] ∧
      s.alive 0 = true ∧ s.forwarders.map Forwarder.tx = [0] ∧
      gather ((forwarding crates).reader 0).skipped h = [0] :=
    Run.of_exec (fun h s => gather (sealedEventsOn 0) h = [sequel] ∧ s.alive 0 = true ∧
      s.forwarders.map Forwarder.tx = [0] ∧
      gather ((forwarding crates).reader 0).skipped h = [0]) (by decide +kernel)
  obtain ⟨h, s, hr, -, hsealed, ha, htx, hskip⟩ := hx
  obtain ⟨f, hf, hf0⟩ : ∃ f, s.forwarders[0]? = some f ∧ f.tx = 0 := by
    have hget : (s.forwarders.map Forwarder.tx)[0]? = some 0 := by
      rw [htx]
      rfl
    rw [List.getElem?_map] at hget
    exact Option.map_eq_some_iff.mp hget
  obtain ⟨-, -, hexact⟩ := session_forwards_exactly hr 0
  obtain ⟨j, t, filter, capability, subject, -, -, -, -, heq, -⟩ := hexact 0 f hf hf0 ha
  exact ⟨h, s, f, _, hr, hsealed, hf, hskip, heq⟩

end Obfs.Symbolic

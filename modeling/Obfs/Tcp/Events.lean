import Obfs.Forwarding
import Obfs.Subscription
import Obfs.Tcp.Answers

/-! The events of a TCP connection over its whole run: what its forwarders make of
their sources, and how the outbound queue hands it to the session. -/
namespace Obfs.Tcp
open Broadcast Trace
variable {C : Core} {service : Service C}

def forwarding (C : Core) : Forwarding (ConnState C) (ConnEvent C) C where
  forwarders := ConnState.forwarders
  sources := ConnState.sources
  alive s _ := s.alive
  polled
    | .forward i => some i
    | _ => none

variable {s s' : ConnState C} {e : ConnEvent C} {o : List (ConnEffect C)}

theorem enqueue_sources (s : ConnState C) (env : Envelope C) :
    (s.enqueue env).sources = s.sources := by
  unfold ConnState.enqueue
  split <;> rfl

theorem sendFrame_sources (s : ConnState C) (env : Envelope C) (sent : SendResult) :
    (sendFrame s env sent).1.sources = s.sources := by
  cases sent <;> rfl

theorem forwarding_case (h : connNext service s e = some (s', o)) :
    (forwarding C).Case s e s' := by
  have hidle {s' : ConnState C} (he : (forwarding C).polled e = none)
      (hf : s'.forwarders = s.forwarders) (hs : s'.sources = s.sources) :
      (forwarding C).Case s e s' := by
    refine .idle he hf fun k => ?_
    show (s.sources k).log <+: (s'.sources k).log
    exact hs ▸ List.prefix_refl _
  cases connNext_case h with
  | ping hs | denied hs hv | respond hs =>
    exact hidle rfl (sendFrame_forwarders _ _ _) (sendFrame_sources _ _ _)
  | outbound hs hq => exact hidle rfl (sendFrame_forwarders _ _ _) (sendFrame_sources _ _ _)
  | unserved hs hv he => exact hidle rfl (enqueue_forwarders _ _) (enqueue_sources _ _)
  | request hs | inert hs hi | frameError hs => exact hidle rfl rfl rfl
  | @subscribed topic filter capability subject src sent hs hv he =>
    exact .spawned src topic 0 rfl rfl rfl
  | @forwarded i f f' ev hf hp =>
    exact .polled i f f' (some ev) rfl hf hp (enqueue_forwarders _ _) (enqueue_sources _ _)
  | @polled i f f' hf hp => exact .polled i f f' none rfl hf hp rfl rfl
  | @emit source ev =>
    exact .idle rfl rfl (log_update (fun ch => ch.log_send ev) source)
  | @close source =>
    exact .idle rfl rfl (log_update (f := Channel.close) (fun ch => List.prefix_refl _) source)

theorem alive_of_post (h : connNext service s e = some (s', o)) (ha : s'.alive = true) :
    s.alive = true := by
  unfold ConnState.alive at ha ⊢
  cases hp : s.pump with
  | pumping => rfl
  | serving req => rfl
  | stopped =>
    exfalso
    have hpump : s'.pump = .stopped := by
      cases connNext_case h with
      | ping hs | denied hs hv | respond hs | outbound hs hq | unserved hs hv he | request hs
      | inert hs hi | frameError hs | subscribed hs hv he => cases hp.symm.trans hs
      | forwarded hf hpoll =>
        simp only [ConnState.enqueue, hp]
      | polled hf hpoll => exact hp
      | emit => exact hp
      | close => exact hp
    rw [hpump] at ha
    cases ha

def waiting (s : ConnState C) : List (Event C) := s.queue.filterMap Envelope.event?

def popped (t : ConnStep C) : List (Event C) :=
  match t.event with
  | .outbound _ => (t.pre.queue.take 1).filterMap Envelope.event?
  | _ => []

def encryptedEvents (t : ConnStep C) : List (Event C) :=
  (t.out.filterMap ConnEffect.encrypted?).filterMap Envelope.event?

theorem waiting_enqueue (s : ConnState C) {env : Envelope C} (he : env.event? = none) :
    waiting (s.enqueue env) = waiting s := by
  unfold ConnState.enqueue
  split
  · rfl
  · rw [waiting, List.filterMap_append, List.filterMap_cons_none he, List.filterMap_nil,
      List.append_nil]
    rfl

theorem events_fifo (h : connNext service s e = some (s', o)) :
    popped ⟨s, e, o, s'⟩ ++ waiting s' =
      waiting s ++ ((forwarding C).sent (⟨s, e, o, s'⟩ : ConnStep C)).map Prod.snd := by
  cases connNext_case h with
  | ping hs | denied hs hv | respond hs =>
    show waiting _ = waiting s ++ []
    rw [List.append_nil, waiting, sendFrame_queue]
    rfl
  | @outbound env rest sent hs hq =>
    show (s.queue.take 1).filterMap Envelope.event? ++ waiting _ = waiting s ++ []
    rw [List.append_nil, waiting, waiting, sendFrame_queue, hq, List.take_succ_cons, List.take_zero,
      ← List.filterMap_append]
    rfl
  | unserved hs hv he =>
    show waiting _ = waiting s ++ []
    rw [List.append_nil, waiting_enqueue s rfl]
  | @forwarded i f f' ev hf hp =>
    rw [Forwarding.sent_polled (F := forwarding C) rfl hf hp]
    show waiting _ = waiting s ++ [ev]
    obtain ⟨-, -, -, -, hspec⟩ := Forwarder.poll_spec hp
    have ha : s.alive = true := (hspec ev rfl).2.2.1
    unfold ConnState.alive at ha
    simp only [waiting, ConnState.enqueue]
    split
    · rename_i hstop
      rw [hstop] at ha
      cases ha
    · rw [List.filterMap_append]
      rfl
  | @polled i f f' hf hp =>
    rw [Forwarding.sent_polled (F := forwarding C) rfl hf hp]
    exact (List.append_nil _).symm
  | request hs | inert hs hi | frameError hs | subscribed hs hv he | emit | close =>
    exact (List.append_nil _).symm

/-- An event is encrypted as it leaves the queue, unless that stops the pump. -/
theorem encrypted_popped (h : connNext service s e = some (s', o)) :
    (encryptedEvents ⟨s, e, o, s'⟩).Sublist (popped ⟨s, e, o, s'⟩) ∧
      (s'.alive = true → encryptedEvents ⟨s, e, o, s'⟩ = popped ⟨s, e, o, s'⟩) := by
  have hnone {t : ConnStep C} (ht : encryptedEvents t = []) (hp : popped t = []) :
      (encryptedEvents t).Sublist (popped t) ∧ (t.post.alive = true →
        encryptedEvents t = popped t) := by
    rw [ht, hp]
    exact ⟨List.Sublist.slnil, fun _ => rfl⟩
  cases connNext_case h with
  | @ping sent hs => exact hnone (by cases sent <;> rfl) rfl
  | @denied topic filter capability err sent hs hv => exact hnone (by cases sent <;> rfl) rfl
  | @respond req sent hs => exact hnone (by cases sent <;> rfl) rfl
  | @outbound env rest sent hs hq =>
    have hpop : popped (⟨s, .outbound sent, (sendFrame { s with queue := rest } env sent).2,
        (sendFrame { s with queue := rest } env sent).1⟩ : ConnStep C) =
        [env].filterMap Envelope.event? := by
      simp only [popped, hq, List.take_succ_cons, List.take_zero]
    have henc : encryptedEvents (⟨s, .outbound sent,
        (sendFrame { s with queue := rest } env sent).2,
        (sendFrame { s with queue := rest } env sent).1⟩ : ConnStep C) =
        (encryptedOf env sent).filterMap Envelope.event? := by
      simp only [encryptedEvents, sendFrame_effects, (encrypted?_map _).1]
    rw [hpop, henc]
    cases sent with
    | ok => exact ⟨List.Sublist.refl _, fun _ => rfl⟩
    | unsealed text => exact ⟨List.nil_sublist _, nofun⟩
    | unwritten text => exact ⟨List.Sublist.refl _, fun _ => rfl⟩
  | request hs | unserved hs hv he | subscribed hs hv he | inert hs hi | frameError hs
  | forwarded hf hp | polled hf hp | emit | close => exact hnone rfl rfl

variable {sources : Nat → Channel (Event C)} {h : List (ConnStep C)}

theorem popped_run (hr : ConnRun service (.init sources) h s) :
    gather popped h ++ waiting s = (gather (forwarding C).sent h).map Prod.snd := by
  have hf := hr.fifo waiting (fun t => ((forwarding C).sent t).map Prod.snd) popped events_fifo
  rw [gather_map] at hf
  exact hf

theorem encrypted_run (hr : ConnRun service (.init sources) h s) :
    (gather encryptedEvents h).Sublist (gather popped h) ∧
      (s.alive = true → gather encryptedEvents h = gather popped h) := by
  induction hr with
  | nil => exact ⟨List.Sublist.slnil, fun _ => rfl⟩
  | @snoc h s s' e o hr hn ih =>
    obtain ⟨hsub, heq⟩ := encrypted_popped hn
    rw [gather_snoc, gather_snoc]
    refine ⟨ih.1.append hsub, fun ha => ?_⟩
    rw [ih.2 (alive_of_post hn ha), heq ha]

theorem spawned_subscribed (hn : connNext service s e = some (s', o)) {f : Forwarder C}
    (hs : s'.forwarders = s.forwarders ++ [f]) : ∃ filter capability subject,
      ConnEffect.received (.subscribe f.topic filter capability) ∈ o ∧
      service.verifyTopic capability f.topic = .ok subject ∧
      service.eventSource f.topic = some f.source := by
  have hgrow : s'.forwarders.length ≠ s.forwarders.length := by
    rw [hs, List.length_append, List.length_singleton]
    omega
  cases connNext_case hn with
  | @subscribed topic filter capability subject src sent hp hv he =>
    obtain rfl : Forwarder.spawn src (s.sources src) topic 0 = f := by
      simpa using hs
    exact ⟨filter, capability, subject, List.mem_cons_self, hv, he⟩
  | ping hp | denied hp hv | respond hp | outbound hp hq =>
    exact absurd (by rw [sendFrame_forwarders]) hgrow
  | unserved hp hv he => exact absurd (by rw [enqueue_forwarders]) hgrow
  | forwarded hf hp => exact absurd (by rw [enqueue_forwarders]; simp) hgrow
  | polled hf hp => exact absurd (by simp) hgrow
  | request hp | inert hp hi | frameError hp | emit | close => exact absurd rfl hgrow

/-- The events of a connection while its pump lives. What was encrypted and what
waits is what the forwarders have sent on, in order. And a forwarder has sent on,
in order and once, every event of its topic that its source has emitted between
the authorised subscription and its present position, but for those it has
skipped when it was more than the channel's capacity behind. -/
theorem connection_forwards_exactly (hr : ConnRun service (.init sources) h s)
    (ha : s.alive = true) :
    gather encryptedEvents h ++ waiting s = (gather (forwarding C).sent h).map Prod.snd ∧
      ∀ i f, s.forwarders[i]? = some f → ∃ j t filter capability subject, At h j t ∧
        ConnEffect.received (.subscribe f.topic filter capability) ∈ t.out ∧
        service.verifyTopic capability f.topic = .ok subject ∧
        service.eventSource f.topic = some f.source ∧
        (let start := (t.pre.sources f.source).log.length
        gather ((forwarding C).forwards i) h =
          (List.range' start (f.rx.next - start)).filter fun n =>
            carries (s.sources f.source) f.topic n &&
              decide (n ∉ gather ((forwarding C).reader i).skipped h)) ∧
        ∀ k u, At h k u → ∀ n ∈ ((forwarding C).reader i).skipped u,
          n + (u.pre.sources f.source).capacity < (u.pre.sources f.source).log.length := by
  refine ⟨?_, ?_⟩
  · rw [(encrypted_run hr).2 ha]
    exact popped_run hr
  · intro i f hf
    obtain ⟨j, t, ht, -, hs, hx⟩ := Forwarding.spawned_at forwarding_case rfl hr hf
    obtain ⟨filter, capability, subject, hrecv, hv, he⟩ := spawned_subscribed (hr.next_eq ht) hs
    refine ⟨j, t, filter, capability, subject, ht, hrecv, hv, he, ?_, ?_⟩
    · exact Forwarding.forwards_exact forwarding_case rfl hr
        (fun k u hu _ _ _ _ ha => alive_of_post (hr.next_eq hu) ha) hf ha hx
    · intro k u hu n hn
      exact Forwarding.skipped_lagged forwarding_case hr hf hu hn

end Obfs.Tcp

namespace Obfs.Symbolic
open Tcp Broadcast Trace

/- The forwarder loses the first event, skips one of another topic and sends on
the last one. -/
def laggedConn : List (ConnEvent core) :=
  [.frame (.subscribe (3 : UInt8) none (some 7)) .ok, .emit 0 news, .emit 0 ⟨4, 1, 1⟩,
    .emit 0 sequel, .forward 0, .forward 0, .forward 0, .outbound .ok]

theorem connection_forwards_exactly_lagged : ∃ h s f start,
    ConnRun service (.init smallSources) h s ∧
    gather encryptedEvents h = [sequel] ∧ s.forwarders[0]? = some f ∧
    gather ((forwarding core).reader 0).skipped h = [0] ∧
    gather ((forwarding core).forwards 0) h =
      (List.range' start (f.rx.next - start)).filter fun n =>
        carries (s.sources f.source) f.topic n &&
          decide (n ∉ gather ((forwarding core).reader 0).skipped h) := by
  have hx : ∃ h s, ConnRun service (.init smallSources) h s ∧ h.map Step.event = laggedConn ∧
      gather encryptedEvents h = [sequel] ∧ s.alive = true ∧ s.forwarders.length = 1 ∧
      gather ((forwarding core).reader 0).skipped h = [0] :=
    Run.of_exec (fun h s => gather encryptedEvents h = [sequel] ∧ s.alive = true ∧
      s.forwarders.length = 1 ∧ gather ((forwarding core).reader 0).skipped h = [0])
      (by decide +kernel)
  obtain ⟨h, s, hr, -, henc, ha, hlen, hskip⟩ := hx
  obtain ⟨f, hf⟩ : ∃ f, s.forwarders[0]? = some f :=
    ⟨s.forwarders[0], List.getElem?_eq_getElem _⟩
  obtain ⟨-, hexact⟩ := connection_forwards_exactly hr ha
  obtain ⟨j, t, filter, capability, subject, -, -, -, -, heq, -⟩ := hexact 0 f hf
  exact ⟨h, s, f, _, hr, henc, hf, hskip, heq⟩

end Obfs.Symbolic

import Obfs.Lib.Correspondence
import Obfs.Tcp.Connection
import Obfs.Udp.Eviction
import Mathlib.Data.List.Perm.Basic

/-! What the two servers send back for the envelopes of a session. On either
transport the replies to what was received are sent, queued, or due as the
response to the request in service; the transports differ in the reply to an
authorised subscription to a topic without an event source. -/
namespace Obfs
open Trace
variable {C : Core} (service : Service C)

def udpReplies : Envelope C → List (Envelope C)
  | .ping => [.pong]
  | .request req => [.response (service.handle req)]
  | .subscribe topic _ capability =>
    match service.verifyTopic capability topic with
    | .error err => [.subscribeError topic (denyDiagnostic err)]
    | .ok _ => []
  | _ => []

/-- What the TCP server sends besides. -/
def unservable : Envelope C → List (Envelope C)
  | .subscribe topic _ capability =>
    match service.verifyTopic capability topic, service.eventSource topic with
    | .ok _, none => [Tcp.noEventSource topic]
    | _, _ => []
  | _ => []

def tcpReplies (env : Envelope C) : List (Envelope C) :=
  udpReplies service env ++ unservable service env

variable {service}

theorem replies_inert {env : Envelope C} (hi : env.inert = true) :
    udpReplies service env = [] ∧ unservable service env = [] := by
  cases env with
  | request | subscribe | ping => cases hi
  | _ => exact ⟨rfl, rfl⟩

theorem Forwarder.poll_idle {f f' : Forwarder C} {ch : Broadcast.Channel (Event C)} {alive : Bool}
    {sent : Option (Event C)} (hi : ch.log.length ≤ f.rx.next)
    (h : f.poll ch alive = some (f', sent)) : sent = none ∧ f'.rx = f.rx := by
  have hget : ch.log[f.rx.next]? = none := List.getElem?_eq_none hi
  have hlag : ¬ ch.log.length - f.rx.next > ch.capacity := by omega
  unfold Forwarder.poll Broadcast.Channel.recv at h
  rw [if_neg hlag, hget] at h
  cases hl : f.live <;> cases hc : ch.closed <;> simp [hl, hc] at h
  obtain ⟨rfl, rfl⟩ := h
  exact ⟨rfl, rfl⟩

theorem Forwarder.poll_stays_idle {f g : Forwarder C}
    {sources : Nat → Broadcast.Channel (Event C)} {alive : Bool} {sent : Option (Event C)}
    (hi : (sources f.source).log.length ≤ f.rx.next)
    (h : f.poll (sources f.source) alive = some (g, sent)) :
    (sources g.source).log.length ≤ g.rx.next := by
  rw [(Forwarder.poll_idle hi h).2, (Forwarder.poll_spec h).2.1]
  exact hi

namespace Tcp

def receivedIn (t : ConnStep C) : List (Envelope C) :=
  t.out.filterMap fun
    | .received env => some env
    | _ => none

def encryptedIn (t : ConnStep C) : List (Envelope C) :=
  t.out.filterMap fun
    | .encrypted env => some env
    | _ => none

/- No event is emitted, and no send fails. -/
def ConnEvent.undisturbed : ConnEvent C → Prop
  | .emit _ _ => False
  | .frame _ sent | .outbound sent | .respond sent => sent = .ok
  | _ => True

def Silent (s : ConnState C) : Prop :=
  ∀ f ∈ s.forwarders, (s.sources f.source).log.length ≤ f.rx.next

variable (service) in
def owed (s : ConnState C) : List (Envelope C) :=
  s.queue ++ match s.pump with
    | .serving req => [.response (service.handle req)]
    | _ => []

theorem owed_pumping {s : ConnState C} (hs : s.pump = .pumping) : owed service s = s.queue := by
  simp [owed, hs]

theorem owed_serving {s : ConnState C} {req : C.Request} (hs : s.pump = .serving req) :
    owed service s = s.queue ++ [.response (service.handle req)] := by
  simp [owed, hs]

theorem silent_step {s s' : ConnState C} {e : ConnEvent C} {o : List (ConnEffect C)}
    (hq : Silent s) (hu : e.undisturbed) (h : connNext service s e = some (s', o)) :
    Silent s' := by
  have hset {i : Nat} {f g : Forwarder C} {alive : Bool} {sent : Option (Event C)}
      (hf : s.forwarders[i]? = some f) (hp : f.poll (s.sources f.source) alive = some (g, sent)) :
      ∀ f' ∈ s.forwarders.set i g, (s.sources f'.source).log.length ≤ f'.rx.next := by
    intro f' hm
    obtain hm | rfl := List.mem_or_eq_of_mem_set hm
    · exact hq f' hm
    · exact Forwarder.poll_stays_idle (hq f (List.mem_of_getElem? hf)) hp
  cases connNext_case h with
  | ping hs | denied hs hv => cases hu; exact hq
  | request hs | frameError hs | inert hs hi => exact hq
  | unserved hs hv he => rw [ConnState.enqueue, hs]; exact hq
  | @subscribed topic filter capability subject src sent hs hv he =>
    intro f hf
    obtain hf | hf := List.mem_append.mp hf
    · exact hq f hf
    · rw [List.mem_singleton.mp hf]
      exact Nat.le_refl _
  | outbound hs hq' => cases hu; exact hq
  | respond hs => cases hu; exact hq
  | forwarded hf hp =>
    cases (Forwarder.poll_idle (hq _ (List.mem_of_getElem? hf)) hp).1
  | polled hf hp => exact hset hf hp
  | emit => exact hu.elim
  | @close source =>
    intro f hf
    have hlog : ((s.updateSource source Broadcast.Channel.close).sources f.source).log =
        (s.sources f.source).log := by
      simp only [ConnState.updateSource]
      split <;> rfl
    rw [hlog]
    exact hq f hf

/-- A step sends, queues or still owes the replies to what it receives. -/
theorem balanced_step {s s' : ConnState C} {e : ConnEvent C} {o : List (ConnEffect C)}
    (hq : Silent s) (hu : e.undisturbed) (h : connNext service s e = some (s', o)) :
    (encryptedIn ⟨s, e, o, s'⟩ ++ owed service s').Perm
      (owed service s ++ (receivedIn ⟨s, e, o, s'⟩).flatMap (tcpReplies service)) := by
  have sendNow (env : Envelope C) (hs : s.pump = .pumping) :
      ([env] ++ owed service { s with pump := .pumping }).Perm (owed service s ++ [env]) := by
    rw [owed_pumping hs, owed_pumping rfl]
    exact List.perm_append_comm
  cases connNext_case h with
  | ping hs =>
    cases hu
    exact sendNow .pong hs
  | @request req sent hs =>
    show (owed service { s with pump := .serving req }).Perm
      (owed service s ++ [.response (service.handle req)])
    rw [owed_pumping hs, owed_serving rfl]
  | @denied topic filter capability err sent hs hv =>
    cases hu
    have hr : tcpReplies service (.subscribe topic filter capability) =
        [.subscribeError topic (denyDiagnostic err)] := by
      simp [tcpReplies, udpReplies, unservable, hv]
    show ([Envelope.subscribeError topic (denyDiagnostic err)] ++
      owed service { s with pump := .pumping }).Perm
        (owed service s ++ (tcpReplies service (.subscribe topic filter capability) ++ []))
    rw [hr]
    exact sendNow _ hs
  | @unserved topic filter capability subject sent hs hv he =>
    have hr : tcpReplies service (.subscribe topic filter capability) = [noEventSource topic] := by
      simp [tcpReplies, udpReplies, unservable, hv, he]
    have hq' : s.enqueue (noEventSource topic) =
        { s with queue := s.queue ++ [noEventSource topic] } := by
      rw [ConnState.enqueue, hs]
    rw [hq']
    simp [encryptedIn, receivedIn, hr, owed, hs]
  | @subscribed topic filter capability subject src sent hs hv he =>
    have hr : tcpReplies service (.subscribe topic filter capability) = [] := by
      simp [tcpReplies, udpReplies, unservable, hv, he]
    simp [encryptedIn, receivedIn, hr, owed]
  | inert hs hi =>
    obtain ⟨h1, h2⟩ : udpReplies service _ = [] ∧ unservable service _ = [] := replies_inert hi
    simp [encryptedIn, receivedIn, tcpReplies, h1, h2]
  | frameError hs =>
    rw [owed_pumping hs]
    simp [encryptedIn, receivedIn, owed]
  | @outbound env rest sent hs hq' =>
    cases hu
    rw [owed_pumping hs, hq']
    simp [encryptedIn, receivedIn, sendFrame, owed]
  | @respond req sent hs =>
    cases hu
    rw [owed_serving hs]
    simpa [encryptedIn, receivedIn, sendFrame, owed] using
      (List.perm_append_singleton _ s.queue).symm
  | forwarded hf hp =>
    cases (Forwarder.poll_idle (hq _ (List.mem_of_getElem? hf)) hp).1
  | polled hf hp | emit | close => simp [encryptedIn, receivedIn, owed, ConnState.updateSource]

end Tcp

namespace Udp
variable {K : Crates} {cfg : ServerCfg K} {n : Nat}

def receivedOn (n : Nat) (t : ServerStep K) : List (Envelope K.core) :=
  t.out.filterMap fun
    | .received m env => if m = n then some env else none
    | _ => none

theorem receivedOn_effectsOn (n : Nat) (s s' : ServerState K) (e : ServerEvent K)
    (o : List (Effect K)) :
    receivedOn n ⟨s, e, o, s'⟩ = receivedOn n ⟨s, e, effectsOn n o, s'⟩ := by
  simp only [receivedOn, effectsOn, List.filterMap_filter]
  apply List.filterMap_congr
  intro x _
  cases x <;> simp [Effect.on]

/- The channel of session n can seal whatever it is given. -/
def Seals (n : Nat) (s : ServerState K) : Prop :=
  ∀ ses, s.sessions[n]? = some ses →
    ∀ env rng, ∃ wire, (ses.channel.sealEnvelope env rng).1 = .ok wire

/- No event is emitted, and session n can seal. -/
def Undisturbed (n : Nat) (t : ServerStep K) : Prop :=
  (∀ source ev, t.event ≠ .emit source ev) ∧ Seals n t.pre

def Silent (n : Nat) (s : ServerState K) : Prop :=
  ∀ f ∈ s.forwarders, f.live = true → f.tx = n → (s.sources f.source).log.length ≤ f.rx.next

/- The response to the request in service, if it is one of session n. -/
def due (service : Service K.core) (n : Nat) (s : ServerState K) : List (Envelope K.core) :=
  match s.serving with
  | some sv => if sv.session = n then [.response (service.handle sv.req)] else []
  | none => []

def backlog (n : Nat) (s : ServerState K) : List (Envelope K.core) :=
  (s.sessions[n]?).elim [] Session.queue

def owed (service : Service K.core) (n : Nat) (s : ServerState K) : List (Envelope K.core) :=
  backlog n s ++ due service n s

theorem sealEffects_ok {s : ServerState K} {ses : Session K} {ch : DataChannel K}
    (hs : Seals n s) (hn : s.sessions[n]? = some ses) (hc : ch.sealer = ses.channel.sealer)
    (dst : SocketAddr) (env : Envelope K.core) (rng : K.Rng) :
    ∃ wire, sealEffects n dst ch env rng = [.sealed n dst ch.sealer env wire] := by
  obtain ⟨wire, hw⟩ := hs ses hn env rng
  have heq : (ch.sealEnvelope env rng).1 = (ses.channel.sealEnvelope env rng).1 := by
    unfold DataChannel.sealEnvelope
    rw [hc]
    split
    · rfl
    · split <;> simp_all
  refine ⟨wire, ?_⟩
  rw [sealEffects, heq, hw]

theorem balanced_elsewhere {s s' : ServerState K} {e : ServerEvent K} {o : List (Effect K)}
    (hq : backlog n s' = backlog n s) (ho : effectsOn n o = [])
    (hv : due cfg.service n s' = due cfg.service n s) :
    (sealedOn n ⟨s, e, o, s'⟩ ++ owed cfg.service n s').Perm
      (owed cfg.service n s ++ (receivedOn n ⟨s, e, o, s'⟩).flatMap (udpReplies cfg.service)) := by
  rw [sealedOn_effectsOn, receivedOn_effectsOn, ho, owed, owed, hq, hv]
  simp [sealedOn, receivedOn]

theorem balanced_modify {s s' : ServerState K} {e : ServerEvent K} {o : List (Effect K)} {m : Nat}
    {f : Session K → Session K} {ses : Session K} (hm : s.sessions[m]? = some ses)
    (hs : s'.sessions = s.sessions.modify m f) (ho : m ≠ n → effectsOn n o = [])
    (hv : m ≠ n → due cfg.service n s' = due cfg.service n s)
    (hc : m = n → (sealedOn n ⟨s, e, o, s'⟩ ++ ((f ses).queue ++ due cfg.service n s')).Perm
      (ses.queue ++ due cfg.service n s ++
        (receivedOn n ⟨s, e, o, s'⟩).flatMap (udpReplies cfg.service))) :
    (sealedOn n ⟨s, e, o, s'⟩ ++ owed cfg.service n s').Perm
      (owed cfg.service n s ++ (receivedOn n ⟨s, e, o, s'⟩).flatMap (udpReplies cfg.service)) := by
  by_cases hmn : m = n
  · have hq : backlog n s = ses.queue := by simp [backlog, ← hmn, hm]
    have hq' : backlog n s' = (f ses).queue := by simp [backlog, hs, ← hmn, hm]
    rw [owed, owed, hq, hq']
    exact hc hmn
  · refine balanced_elsewhere ?_ (ho hmn) (hv hmn)
    rw [backlog, backlog, hs, List.getElem?_modify_ne _ _ hmn]

theorem balanced_unanswered {s s' : ServerState K} {e : ServerEvent K} {m : Nat}
    {f : Session K → Session K} {ses : Session K} {env : Envelope K.core}
    (hm : s.sessions[m]? = some ses) (hs : s'.sessions = s.sessions.modify m f)
    (hf : (f ses).queue = ses.queue) (hv : s'.serving = s.serving)
    (hr : udpReplies cfg.service env = []) :
    (sealedOn n ⟨s, e, [.received m env], s'⟩ ++ owed cfg.service n s').Perm
      (owed cfg.service n s ++
        (receivedOn n ⟨s, e, [.received m env], s'⟩).flatMap (udpReplies cfg.service)) := by
  have hdue : due cfg.service n s' = due cfg.service n s := by rw [due, due, hv]
  refine balanced_modify hm hs ?_ (fun _ => hdue) ?_
  · intro hne
    simp [hne]
  · intro hmn
    simp [sealedOn, receivedOn, hmn, hr, hf, hdue]

theorem recv_balanced {s s' : ServerState K} {inp : Inbound K} {o : List (Effect K)}
    (hv : s.serving = none) (hc : RecvCase cfg s inp s' o) (hseal : Seals n s)
    (hlen : n < s.sessions.length)
    (hlive : ∀ p ses, s.peers.lookup inp.src = some p → p.session = n →
      s.sessions[n]? = some ses → ses.ended = false) :
    (sealedOn n ⟨s, .recv inp, o, s'⟩ ++ owed cfg.service n s').Perm
      (owed cfg.service n s ++
        (receivedOn n ⟨s, .recv inp, o, s'⟩).flatMap (udpReplies cfg.service)) := by
  cases hc with
  | ignored | pended | rejected | refused | dangling =>
    exact balanced_elsewhere rfl rfl rfl
  | swept ho => obtain rfl | ⟨wire, rfl⟩ := ho <;> exact balanced_elsewhere rfl rfl rfl
  | @installed body ph ch key hu hp hr hg =>
    have hne : s.sessions.length ≠ n := by omega
    refine balanced_elsewhere ?_ ?_ rfl
    · simp [backlog, List.getElem?_modify_ne _ _ hne, List.getElem?_append_left hlen]
    · simp [effectsOn_sealEffects, hne]
  | @unopened p ses hp hs ho =>
    refine balanced_modify hs (afterOpen_sessions s inp p ses) (fun _ => rfl) (fun _ => rfl) ?_
    intro hmn
    simp [sealedOn, receivedOn, due, afterOpen]
  | @ping p ses hp hs ho =>
    refine balanced_modify hs
      (f := fun x => { x with channel :=
        ((ses.channel.openDatagram inp.dgram).2.sealEnvelope .pong inp.rng).2 })
      ?_ ?_ (fun _ => rfl) ?_
    · simp only [sealOn_fst, cleanup_sessions, ServerState.setChannel_sessions,
        afterOpen_sessions, List.modify_modify_eq]
      rfl
    · intro hne
      simp [effectsOn_sealEffects, hne]
    · intro hmn
      subst hmn
      obtain ⟨wire, hw⟩ := sealEffects_ok hseal hs (ses.channel.openDatagram_sealer inp.dgram)
        inp.src .pong inp.rng
      simpa [sealedOn, receivedOn, hw, udpReplies, due, hv, afterOpen] using
        (List.perm_append_singleton _ ses.queue).symm
  | @request p ses req hp hs ho =>
    refine balanced_modify hs (afterOpen_sessions s inp p ses) ?_ ?_ ?_
    · intro hne
      simp [hne]
    · intro hne
      simp [due, hv, hne]
    · intro hmn
      simp [sealedOn, receivedOn, udpReplies, due, hv, hmn]
  | @denied p ses topic filter capability err hp hs ho hd =>
    refine balanced_modify hs (f := fun x => Session.push
      { x with channel := (ses.channel.openDatagram inp.dgram).2 }
      (.subscribeError topic (denyDiagnostic err))) ?_ ?_ (fun _ => rfl) ?_
    · simp only [cleanup_sessions, ServerState.enqueue_sessions, afterOpen_sessions,
        List.modify_modify_eq]
      rfl
    · intro hne
      simp [hne]
    · intro hmn
      have hend : ses.ended = false := hlive p ses hp hmn (hmn ▸ hs)
      simp [sealedOn, receivedOn, udpReplies, due, hv, afterOpen, hmn, Session.push, hend, hd]
  | unserved hp hs ho hd he | subscribed hp hs ho hd he =>
    refine balanced_unanswered (e := .recv inp) hs (afterOpen_sessions s inp _ _) rfl rfl ?_
    simp [udpReplies, hd]
  | inert hp hs ho hi =>
    exact balanced_unanswered (e := .recv inp) hs (afterOpen_sessions s inp _ _) rfl rfl
      (replies_inert hi).1

theorem balanced_step {s s' : ServerState K} {e : ServerEvent K} {o : List (Effect K)}
    (hq : Silent n s) (hlen : n < s.sessions.length)
    (hlive : ∀ src p ses, s.peers.lookup src = some p → p.session = n →
      s.sessions[n]? = some ses → ses.ended = false)
    (hu : Undisturbed n ⟨s, e, o, s'⟩) (h : serverNext cfg s e = some (s', o)) :
    (sealedOn n ⟨s, e, o, s'⟩ ++ owed cfg.service n s').Perm
      (owed cfg.service n s ++ (receivedOn n ⟨s, e, o, s'⟩).flatMap (udpReplies cfg.service)) := by
  cases serverNext_case cfg h with
  | @recv inp s' o hv hc => exact recv_balanced hv hc hu.2 hlen fun p ses => hlive inp.src p ses
  | @respond now rng sv ses hv hs =>
    refine balanced_modify hs (f := fun x => { x with channel := (ses.channel.sealEnvelope
      (.response (cfg.service.handle sv.req)) rng).2 }) rfl ?_ ?_ ?_
    · intro hne
      simp [effectsOn_sealEffects, hne]
    · intro hne
      simp [due, hv, hne]
    · intro hmn
      subst hmn
      obtain ⟨wire, hw⟩ := sealEffects_ok hu.2 hs rfl sv.src
        (.response (cfg.service.handle sv.req)) rng
      simpa [sealedOn, receivedOn, hw, due, hv] using
        (List.perm_append_singleton _ ses.queue).symm
  | @sealed m rng ses env rest hs he hqs =>
    refine balanced_modify hs (f := fun x => { x with
      queue := rest, channel := (ses.channel.sealEnvelope env rng).2 }) ?_ ?_ (fun _ => rfl) ?_
    · simp only [sealOn_fst, ServerState.setChannel_sessions, ServerState.setQueue_sessions,
        List.modify_modify_eq]
      rfl
    · intro hne
      simp [effectsOn_sealEffects, hne]
    · intro hmn
      subst hmn
      obtain ⟨wire, hw⟩ := sealEffects_ok hu.2 hs rfl ses.src env rng
      simp [sealedOn, receivedOn, hw, hqs, due]
  | @ended m rng ses hs hqs hh =>
    refine balanced_modify hs (s.endSealer_sessions m) (fun _ => rfl) (fun _ => rfl) ?_
    intro hmn
    simp [sealedOn, receivedOn, due]
  | @forwarded i f f' ev hf hp =>
    by_cases htx : f.tx = n
    · have hidle := hq f (List.mem_of_getElem? hf) (Forwarder.poll_spec hp).1 htx
      cases (Forwarder.poll_idle hidle hp).1
    · refine balanced_elsewhere ?_ rfl rfl
      simp [backlog, List.getElem?_modify_ne _ _ htx]
  | polled hf hp | close | rotate => exact balanced_elsewhere rfl rfl rfl
  | emit => exact absurd rfl (hu.1 _ _)

theorem silent_step {s s' : ServerState K} {e : ServerEvent K} {o : List (Effect K)}
    (hq : Silent n s) (hu : ∀ source ev, e ≠ .emit source ev)
    (h : serverNext cfg s e = some (s', o)) : Silent n s' := by
  have hset {i : Nat} {f g : Forwarder K.core} {alive : Bool} {sent : Option (Event K.core)}
      (hf : s.forwarders[i]? = some f) (hp : f.poll (s.sources f.source) alive = some (g, sent)) :
      ∀ f' ∈ s.forwarders.set i g, f'.live = true → f'.tx = n →
        (s.sources f'.source).log.length ≤ f'.rx.next := by
    intro f' hm hl htx
    obtain hm | rfl := List.mem_or_eq_of_mem_set hm
    · exact hq f' hm hl htx
    · obtain ⟨hlive, -, -, htx', -⟩ := Forwarder.poll_spec hp
      have hidle := hq f (List.mem_of_getElem? hf) hlive (htx'.symm.trans htx)
      exact Forwarder.poll_stays_idle hidle hp
  cases serverNext_case cfg h with
  | @recv inp s' o hs hc =>
    cases hc with
    | @subscribed p ses topic filter capability subject src hp hs ho hv he =>
      intro f hf hl htx
      obtain hf | hf := List.mem_append.mp hf
      · exact hq f hf hl htx
      · rw [List.mem_singleton.mp hf]
        exact Nat.le_refl _
    | _ => exact hq
  | forwarded hf hp => exact hset hf hp
  | polled hf hp => exact hset hf hp
  | emit => exact absurd rfl (hu _ _)
  | @close source =>
    intro f hf hl htx
    have hlog : ((s.updateSource source Broadcast.Channel.close).sources f.source).log =
        (s.sources f.source).log := by
      simp only [ServerState.updateSource]
      split <;> rfl
    rw [hlog]
    exact hq f hf hl htx
  | _ => exact hq

/-- Session n in a conversation: no forwarded event waits for it, and its sealer
task has not ended while anything can still be sent on it. -/
structure Attended (n : Nat) (s : ServerState K) : Prop where
  opened : n < s.sessions.length
  silent : Silent n s
  ended : ∀ ses, s.sessions[n]? = some ses → ses.ended = true → Detached n s

theorem SessionCase.ended_eq {s : ServerState K} {ses ses' : Session K} {e : ServerEvent K}
    {fx : List (Effect K)} (hc : SessionCase cfg s n ses e fx ses') :
    ses'.ended = ses.ended ∨ s.holdsTx n = false := by
  have hpush (x : Session K) (env : Envelope K.core) : (x.push env).ended = x.ended := by
    unfold Session.push
    split <;> rfl
  cases hc with
  | ended hq hh => exact Or.inr hh
  | denied => exact Or.inl (hpush _ _)
  | forwarded => exact Or.inl (hpush _ _)
  | _ => exact Or.inl rfl

theorem attended_step {s s' : ServerState K} {e : ServerEvent K} {o : List (Effect K)}
    (ha : Attended n s) (hu : ∀ source ev, e ≠ .emit source ev)
    (h : serverNext cfg s e = some (s', o)) : Attended n s' := by
  have hn := List.getElem?_eq_getElem ha.opened
  obtain ⟨ses', hn', hc⟩ := session_step h hn
  refine ⟨(List.getElem?_eq_some_iff.mp hn').1, silent_step ha.silent hu h, ?_⟩
  intro ses hs hend
  cases hn'.symm.trans hs
  obtain heq | hh := hc.ended_eq
  · exact detached_step (ha.ended _ hn (heq ▸ hend)) h
  · exact detached_step (detached_of_holdsTx ha.opened hh) h

theorem forwarder_tx_lt {secret : K.CookieSecret} {sources : Nat → Broadcast.Channel (Event K.core)}
    {h : List (ServerStep K)} {s : ServerState K} (hr : ServerRun cfg (.init secret sources) h s) :
    ∀ f ∈ s.forwarders, f.live = true → f.tx < s.sessions.length := by
  refine hr.invariant (I := fun s => ∀ f ∈ s.forwarders, f.live = true → f.tx < s.sessions.length)
    ?_ ?_
  · intro f hf
    cases hf
  · intro s e s' o ih hn f hf hl
    have hkeep {m : Nat} (hm : m < s.sessions.length) : m < s'.sessions.length := by
      obtain ⟨ses', hs', -⟩ := session_step hn (List.getElem?_eq_getElem hm)
      exact (List.getElem?_eq_some_iff.mp hs').1
    obtain ⟨f0, hf0, hl0, -, htx⟩ | ⟨filter, capability, -, hm, -⟩ := forwarder_step hn hf hl
    · exact htx ▸ hkeep (ih f0 hf0 hl0)
    · obtain ⟨_, _, ses, -, -, -, hs, -⟩ := received_inv hn hm
      exact hkeep (List.getElem?_eq_some_iff.mp hs).1

theorem attended_installed {secret : K.CookieSecret}
    {sources : Nat → Broadcast.Channel (Event K.core)} {h : List (ServerStep K)}
    {s s' : ServerState K} (hr : ServerRun cfg (.init secret sources) h s) {e : ServerEvent K}
    {o : List (Effect K)} (hn : serverNext cfg s e = some (s', o)) {src : SocketAddr} {key : Key}
    (hm : Effect.install src n key ∈ o) :
    Attended n s' ∧ owed cfg.service n s' = [] := by
  obtain ⟨ph, ch, -, ⟨inp, _, _, _, _, -, -, -, -, -, -, -, hlen, hses⟩, -⟩ := install_inv hn hm
  have hsame : s'.forwarders = s.forwarders ∧ s'.serving = none := by
    cases serverNext_case cfg hn with
    | @recv inp s' o hs hc =>
      cases hc with
      | installed => exact ⟨rfl, hs⟩
      | swept ho => obtain rfl | ⟨wire, rfl⟩ := ho <;> simp at hm
      | _ => simp [mem_sealEffects] at hm
    | respond hv hs => simp [mem_sealEffects] at hm
    | sealed hs he hq => simp [mem_sealEffects] at hm
    | _ => simp at hm
  refine ⟨⟨(List.getElem?_eq_some_iff.mp hses).1, ?_, ?_⟩, ?_⟩
  · intro f hf hl htx
    have hlt := forwarder_tx_lt hr f (hsame.1 ▸ hf) hl
    have hlen' : n = s.sessions.length := hlen
    omega
  · intro ses hs hend
    cases hses.symm.trans hs
    cases hend
  · have hq : s'.sessions[n]? = _ := hses
    simp [owed, backlog, due, hsame.2, hq]

/-- A conversation on session n: the steps of a run after the one that installed
its peer, without emitted events and with a working sealer, until everything is
sent. -/
def Conversation (cfg : ServerCfg K) (n : Nat) (h : List (ServerStep K)) : Prop :=
  ∃ secret sources g i t src key s, ServerRun cfg (.init secret sources) g s ∧ At g i t ∧
    Effect.install src n key ∈ t.out ∧ h = g.drop (i + 1) ∧ (∀ u ∈ h, Undisturbed n u) ∧
    owed cfg.service n s = []

theorem Conversation.sealed {h : List (ServerStep K)} (hc : Conversation cfg n h) :
    (gather (sealedOn n) h).Perm ((gather (receivedOn n) h).flatMap (udpReplies cfg.service)) := by
  obtain ⟨secret, sources, g, i, t, src, key, s, hr, ht, hi, rfl, hu, ho⟩ := hc
  obtain ⟨hpre, hn⟩ := hr.step ht
  obtain ⟨ha, ho'⟩ := attended_installed hpre hn hi
  have hb := Run.balanced (I := Attended n) (C := Undisturbed n) (owed cfg.service n)
    (fun u => (receivedOn n u).flatMap (udpReplies cfg.service)) (sealedOn n) ha ?_
    (hr.drop_succ ht) hu
  · rw [ho, ho', List.append_nil, List.nil_append] at hb
    simpa [gather, List.flatMap_assoc] using hb.2
  · intro s e s' o ha hu hn
    refine ⟨attended_step ha hu.1 hn, balanced_step ha.silent ha.opened ?_ hu hn⟩
    intro src p ses hp hpn hs
    by_contra hend
    have hd := ha.ended ses hs (by simpa using hend)
    exact hd.peers src (by simp [ServerState.peerSession, hp, hpn])

end Udp

namespace Tcp

/-- A conversation on a connection: a run without emitted events and failed
sends, until everything is sent. -/
def Conversation (service : Service C) (h : List (ConnStep C)) : Prop :=
  ∃ sources s, ConnRun service (.init sources) h s ∧ (∀ u ∈ h, u.event.undisturbed) ∧
    owed service s = []

theorem Conversation.encrypted {h : List (ConnStep C)} (hc : Conversation service h) :
    (gather encryptedIn h).Perm ((gather receivedIn h).flatMap (tcpReplies service)) := by
  obtain ⟨sources, s, hr, hu, ho⟩ := hc
  have hsilent : Silent (ConnState.init sources : ConnState C) := by
    intro f hf
    cases hf
  have hb := Run.balanced (I := Silent) (C := fun u => u.event.undisturbed) (owed service)
    (fun u => (receivedIn u).flatMap (tcpReplies service)) encryptedIn hsilent ?_ hr hu
  · rw [ho, owed_pumping rfl] at hb
    simpa [gather, List.flatMap_assoc, ConnState.init] using hb.2
  · intro s e s' o hq hu hn
    exact ⟨silent_step hq hu hn, balanced_step hq hu hn⟩

end Tcp

theorem unservable_eq_nil {env : Envelope C} :
    unservable service env = [] ↔ ∀ topic filter capability subject,
      env = .subscribe topic filter capability →
      service.verifyTopic capability topic = .ok subject → service.eventSource topic ≠ none := by
  constructor
  · rintro h topic filter capability subject rfl hv he
    simp [unservable, hv, he] at h
  · intro h
    unfold unservable
    split
    · rename_i topic filter capability
      split
      · rename_i subject hv he
        exact absurd he (h topic filter capability subject rfl hv)
      · rfl
    · rfl

/-- For the same envelopes the two servers send back the same replies, up to
their order, just if no authorised subscription among them is to a topic without
an event source. -/
theorem servers_reply_alike_iff {K : Crates} {cfg : Udp.ServerCfg K} {n : Nat}
    {g : List (Tcp.ConnStep K.core)} {h : List (Udp.ServerStep K)}
    (ht : Tcp.Conversation cfg.service g) (hu : Udp.Conversation cfg n h)
    (hsame : gather Tcp.receivedIn g = gather (Udp.receivedOn n) h) :
    (gather Tcp.encryptedIn g).Perm (gather (Udp.sealedOn n) h) ↔
      ∀ topic filter capability subject,
        Envelope.subscribe topic filter capability ∈ gather Tcp.receivedIn g →
        cfg.service.verifyTopic capability topic = .ok subject →
        cfg.service.eventSource topic ≠ none := by
  have htcp := ht.encrypted
  have hudp := hu.sealed
  rw [← hsame] at hudp
  generalize gather Tcp.receivedIn g = envs at htcp hudp
  have hsplit : (envs.flatMap (tcpReplies cfg.service)).Perm
      (envs.flatMap (udpReplies cfg.service) ++ envs.flatMap (unservable cfg.service)) :=
    (List.flatMap_append_perm envs (udpReplies cfg.service) (unservable cfg.service)).symm
  -- the lists agree just if the further replies of the TCP server are none
  have hiff : (gather Tcp.encryptedIn g).Perm (gather (Udp.sealedOn n) h) ↔
      envs.flatMap (unservable cfg.service) = [] := by
    constructor
    · intro hp
      have hlen := ((htcp.trans hsplit).symm.trans (hp.trans hudp)).length_eq
      rw [List.length_append] at hlen
      exact List.eq_nil_of_length_eq_zero (by omega)
    · intro hnil
      rw [hnil, List.append_nil] at hsplit
      exact (htcp.trans hsplit).trans hudp.symm
  rw [hiff, List.flatMap_eq_nil_iff]
  constructor
  · intro hnil topic filter capability subject hmem
    exact unservable_eq_nil.mp (hnil _ hmem) topic filter capability subject rfl
  · intro hall env hmem
    refine unservable_eq_nil.mpr ?_
    rintro topic filter capability subject rfl
    exact hall topic filter capability subject hmem

end Obfs

namespace Obfs.Symbolic
open Trace

def code : Envelope core → Nat × UInt8 × UInt8 × UInt64 × Option UInt8 × Option UInt8
  | .request req => (1, req, 0, 0, none, none)
  | .response resp => (2, resp, 0, 0, none, none)
  | .event ev => (3, ev.topic, ev.payload, ev.seq, none, none)
  | .subscribe topic filter capability => (4, topic, 0, 0, filter, capability)
  | .unsubscribe topic => (5, topic, 0, 0, none, none)
  | .subscribeError topic error => (6, topic, error, 0, none, none)
  | .ping => (7, 0, 0, 0, none, none)
  | .pong => (8, 0, 0, 0, none, none)

instance : DecidableEq (Envelope core) := fun a b => by
  refine decidable_of_iff (code a = code b) ⟨fun h => ?_, congrArg code⟩
  cases a <;> cases b <;> simp_all [code]
  case event x y =>
    cases x
    cases y
    simp_all

theorem toVec_ok (env : Envelope core) : ∃ json, toVec env = .ok json := by
  cases env <;> exact ⟨_, rfl⟩

def counterLeft (s : Udp.ServerState crates) : Bool :=
  (s.sessions[0]?).all fun ses => ses.channel.sealer.counter < UInt64.size

theorem seals_of_counterLeft {s : Udp.ServerState crates} (h : counterLeft s = true) :
    Udp.Seals 0 s := by
  intro ses hs env rng
  have hlt : ses.channel.sealer.counter < UInt64.size := by simpa [counterLeft, hs] using h
  obtain ⟨json, hj⟩ := toVec_ok env
  simp [Udp.DataChannel.sealEnvelope, hj, sealRecord, hlt]

def emits : Udp.ServerEvent crates → Bool
  | .emit _ _ => true
  | _ => false

def installedKey (t : Udp.ServerStep crates) : Option (SocketAddr × Key) :=
  t.out.findSome? fun
    | .install src 0 key => some (src, key)
    | _ => none

def UdpTalk (got sent : List (Envelope core)) (h : List (Udp.ServerStep crates))
    (s : Udp.ServerState crates) : Prop :=
  (h.map installedKey)[1]? = some (some (addr 1, keyOf 0x22)) ∧
    (∀ t ∈ h.drop 2, emits t.event = false ∧ counterLeft t.pre = true) ∧
    Udp.owed service 0 s = [] ∧ gather (Udp.receivedOn 0) (h.drop 2) = got ∧
    gather (Udp.sealedOn 0) (h.drop 2) = sent

instance (got sent : List (Envelope core)) (h : List (Udp.ServerStep crates))
    (s : Udp.ServerState crates) : Decidable (UdpTalk got sent h s) := by
  unfold UdpTalk
  infer_instance

def connected (es : List (Udp.ServerEvent crates)) : List (Udp.ServerEvent crates) :=
  recv (hs1 5 none) (addr 1) 0 6 :: recv (hs3 5 6 (keyOf 0x22) (keyOf 1)) (addr 1) 1 0 :: es

theorem udp_conversation (es : List (Udp.ServerEvent crates)) (got sent : List (Envelope core))
    (hx : ((exec (Udp.serverNext cfg) (connected es) [] start).any fun r =>
      decide (UdpTalk got sent r.1 r.2)) = true) :
    ∃ h, Udp.Conversation cfg 0 h ∧ gather (Udp.receivedOn 0) h = got ∧
      gather (Udp.sealedOn 0) h = sent := by
  obtain ⟨h, s, hr, -, hi, hu, ho, hg, hs⟩ := Run.of_exec (UdpTalk got sent) hx
  obtain ⟨t, ht, hi⟩ := at_map rfl hi
  obtain ⟨x, hx, hxi⟩ := List.exists_of_findSome?_eq_some hi
  refine ⟨h.drop 2, ⟨_, _, h, 1, t, addr 1, keyOf 0x22, s, hr, ht, ?_, rfl, ?_, ho⟩, hg, hs⟩
  · split at hxi
    · cases hxi
      exact hx
    · cases hxi
  · intro u hmem
    obtain ⟨he, hc⟩ := hu u hmem
    refine ⟨?_, seals_of_counterLeft hc⟩
    intro source ev heq
    rw [heq] at he
    cases he

def TcpTalk (got sent : List (Envelope core)) (h : List (Tcp.ConnStep core))
    (s : Tcp.ConnState core) : Prop :=
  Tcp.owed service s = [] ∧ gather Tcp.receivedIn h = got ∧ gather Tcp.encryptedIn h = sent

instance (got sent : List (Envelope core)) (h : List (Tcp.ConnStep core))
    (s : Tcp.ConnState core) : Decidable (TcpTalk got sent h s) := by
  unfold TcpTalk
  infer_instance

theorem tcp_conversation (es : List (Tcp.ConnEvent core)) (got sent : List (Envelope core))
    (hu : ∀ e ∈ es, e.undisturbed)
    (hx : ((exec (Tcp.connNext service) es [] (.init fun _ => ⟨16, [], false⟩)).any fun r =>
      decide (TcpTalk got sent r.1 r.2)) = true) :
    ∃ h, Tcp.Conversation service h ∧ gather Tcp.receivedIn h = got ∧
      gather Tcp.encryptedIn h = sent := by
  obtain ⟨h, s, hr, hev, ho, hg, hs⟩ := Run.of_exec (TcpTalk got sent) hx
  refine ⟨h, ⟨_, s, hr, ?_, ho⟩, hg, hs⟩
  intro u hmem
  exact hu _ (hev ▸ List.mem_map_of_mem hmem)

def newsless : Envelope core := .subscribe 200 none (some 7)

/-- An authorised subscription to a topic without an event source: over TCP it is
answered with an error, over UDP not at all. -/
theorem servers_reply_differently :
    ∃ g h, Tcp.Conversation cfg.service g ∧ Udp.Conversation cfg 0 h ∧
      gather Tcp.receivedIn g = [newsless] ∧ gather (Udp.receivedOn 0) h = [newsless] ∧
      ¬ (gather Tcp.encryptedIn g).Perm (gather (Udp.sealedOn 0) h) := by
  obtain ⟨g, htcp, hgot, hsent⟩ := tcp_conversation [.frame newsless .ok, .outbound .ok]
    [newsless] [.subscribeError 200 1] (by simp [Tcp.ConnEvent.undisturbed]) (by decide +kernel)
  obtain ⟨h, hudp, hgot', hsent'⟩ := udp_conversation
    [recv (data (keyOf 1) 0 newsless) (addr 1) 2 0] [newsless] [] (by decide +kernel)
  refine ⟨g, h, htcp, hudp, hgot, hgot', ?_⟩
  rw [hsent, hsent']
  simp

/- A Ping, a request, a subscription, and one that is refused. -/
def talk : List (Envelope core) :=
  [.ping, .request 5, .subscribe 3 none (some 7), .subscribe 3 none none]

theorem servers_reply_alike_iff_talk :
    ∃ g h, Tcp.Conversation cfg.service g ∧ Udp.Conversation cfg 0 h ∧
      gather Tcp.receivedIn g = talk ∧ gather (Udp.receivedOn 0) h = talk ∧
      (gather Tcp.encryptedIn g).Perm (gather (Udp.sealedOn 0) h) := by
  obtain ⟨g, htcp, hgot, -⟩ := tcp_conversation
    [.frame .ping .ok, .frame (.request 5) .ok, .respond .ok,
      .frame (.subscribe 3 none (some 7)) .ok, .frame (.subscribe 3 none none) .ok]
    talk [.pong, .response 6, .subscribeError 3 9]
    (by simp [Tcp.ConnEvent.undisturbed]) (by decide +kernel)
  obtain ⟨h, hudp, hgot', -⟩ := udp_conversation
    [recv (data (keyOf 1) 0 .ping) (addr 1) 2 0, recv (data (keyOf 1) 1 (.request 5)) (addr 1) 3 0,
      .respond 4 (), recv (data (keyOf 1) 2 (.subscribe 3 none (some 7))) (addr 1) 5 0,
      recv (data (keyOf 1) 3 (.subscribe 3 none none)) (addr 1) 6 0, .sealer 0 ()]
    talk [.pong, .response 6, .subscribeError 3 9] (by decide +kernel)
  refine ⟨g, h, htcp, hudp, hgot, hgot', ?_⟩
  refine (servers_reply_alike_iff htcp hudp (hgot.trans hgot'.symm)).mpr ?_
  intro topic filter capability subject hmem hv
  rw [hgot] at hmem
  simp only [talk, List.mem_cons, reduceCtorEq, Envelope.subscribe.injEq, List.not_mem_nil,
    or_false, false_or] at hmem
  obtain ⟨rfl, rfl, rfl⟩ | ⟨rfl, rfl, rfl⟩ := hmem
  · decide
  · decide

end Obfs.Symbolic

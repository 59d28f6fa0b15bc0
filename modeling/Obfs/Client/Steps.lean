import Obfs.Client.Transport

/-! What a step of a client transport can do, said once. -/
namespace Obfs.Client
open Async Broadcast Trace
variable {C : Core} {p : Params C}

/-- The else arm of the pump never runs: the pattern of the read refuses nothing. -/
theorem select_ne_otherwise (s : Transport p) (late : Bool) (inbound : Option p.link.In) :
    select [s.outboundArm late, inboundArm inbound] ≠ .otherwise := by
  intro h
  have hd := select_eq_otherwise.mp h (inboundArm inbound) (by simp)
  cases inbound <;> cases hd

theorem outboundArm_outbound {s : Transport p} {late : Bool} {q : Queued C}
    (h : s.outboundArm late = .ready (.outbound q)) :
    late = false ∧ ∃ rest, s.outbound = q :: rest := by
  unfold Transport.outboundArm at h
  cases ho : s.outbound with
  | nil =>
    rw [ho] at h
    cases hh : s.handle <;> rw [hh] at h <;> cases h
  | cons q' rest =>
    rw [ho] at h
    cases late
    · cases h
      exact ⟨rfl, rest, rfl⟩
    · cases h

theorem outboundArm_ne_inbound (s : Transport p) (late : Bool) (i : p.link.In) :
    s.outboundArm late ≠ .ready (.inbound i) := by
  unfold Transport.outboundArm
  cases s.outbound with
  | nil => cases s.handle <;> nofun
  | cons q rest => cases late <;> nofun

theorem select_outbound {s : Transport p} {late : Bool} {inbound : Option p.link.In} {q : Queued C}
    (h : select [s.outboundArm late, inboundArm inbound] = .run (.outbound q)) :
    late = false ∧ ∃ rest, s.outbound = q :: rest := by
  have hm := ready_of_select h
  rw [List.mem_pair] at hm
  cases hm with
  | inl hm => exact outboundArm_outbound hm.symm
  | inr hm => cases inbound <;> cases hm

theorem select_inbound {s : Transport p} {late : Bool} {inbound : Option p.link.In} {i : p.link.In}
    (h : select [s.outboundArm late, inboundArm inbound] = .run (.inbound i)) :
    (late = true ∨ s.outbound = []) ∧ inbound = some i := by
  have hm := ready_of_select h
  rw [List.mem_pair] at hm
  cases hm with
  | inl hm => exact absurd hm.symm (outboundArm_ne_inbound s late i)
  | inr hm =>
    cases inbound with
    | none => cases hm
    | some j =>
      cases hm
      refine ⟨?_, rfl⟩
      cases ho : s.outbound with
      | nil => exact Or.inr rfl
      | cons q rest =>
        cases late with
        | true => exact Or.inl rfl
        | false =>
          rw [Transport.outboundArm, ho] at h
          cases h

inductive TurnCase (s : Transport p) (late : Bool) (out : p.link.Out) :
    Option p.link.In → Transport p → List (TransportEffect C) → Prop where
  | took {inbound : Option p.link.In} {q : Queued C} {rest : List (Queued C)}
      (hq : s.outbound = q :: rest) (ha : late = false) :
      TurnCase s late out inbound
        { s with
          outbound := rest
          link := (p.link.send s.link q.env out).2
          pump := if p.link.sendStops && !(p.link.send s.link q.env out).1 then .leaving
            else .looping }
        [.took q.origin q.env, .sent q.env (p.link.send s.link q.env out).1]
  | readFailed {i : p.link.In} {link : p.link.State} (hi : p.link.recv s.link i = (.failed, link)) :
      TurnCase s late out (some i) { s with link := link, pump := .leaving } [.readFailed]
  | nothing {i : p.link.In} {link : p.link.State} (hi : p.link.recv s.link i = (.nothing, link)) :
      TurnCase s late out (some i) { s with link := link } []
  | unmatched {i : p.link.In} {link : p.link.State} {resp : C.Response}
      (hi : p.link.recv s.link i = (.envelope (.response resp), link))
      (hl : s.requests.pending.lookup (p.responseId resp) = none) :
      TurnCase s late out (some i) { s with link := link } [.received (.response resp)]
  | matched {i : p.link.In} {link : p.link.State} {resp : C.Response} {slot : Nat}
      (hi : p.link.recv s.link i = (.envelope (.response resp), link))
      (hl : s.requests.pending.lookup (p.responseId resp) = some slot) :
      TurnCase s late out (some i)
        { s with
          link := link
          pump := .delivering slot resp
          requests := { s.requests with
            pending := s.requests.pending.erase (p.responseId resp) } }
        (.received (.response resp) ::
          ((s.requests.waiters[slot]?).map fun w => .matched w.call resp).toList)
  | broadcast {i : p.link.In} {link : p.link.State} {ev : Event C}
      (hi : p.link.recv s.link i = (.envelope (.event ev), link)) :
      TurnCase s late out (some i) { s with link := link, events := s.events.send ev }
        [.received (.event ev), .broadcast ev]
  | pinged {i : p.link.In} {link : p.link.State}
      (hi : p.link.recv s.link i = (.envelope .ping, link))
      (ha : late = true ∨ s.outbound = []) :
      TurnCase s late out (some i) { s with link := (p.link.send link .pong out).2 }
        [.received .ping, .sent .pong (p.link.send link .pong out).1]
  | inert {i : p.link.In} {link : p.link.State} {env : Envelope C}
      (hi : p.link.recv s.link i = (.envelope env, link)) (he : env ≠ .ping) :
      TurnCase s late out (some i) { s with link := link } [.received env]

theorem pumpTurn_case {s s' : Transport p} {late : Bool} {inbound : Option p.link.In}
    {out : p.link.Out} {o : List (TransportEffect C)}
    (h : pumpTurn s late inbound out = some (s', o)) : TurnCase s late out inbound s' o := by
  unfold pumpTurn at h
  cases hs : select [s.outboundArm late, inboundArm inbound] with
  | wait => rw [hs] at h; cases h
  | otherwise => exact absurd hs (select_ne_otherwise s late inbound)
  | run sel =>
    rw [hs] at h
    cases sel with
    | outbound q =>
      obtain ⟨ha, rest, hq⟩ := select_outbound hs
      cases h
      have ht : s.outbound.tail = rest := by rw [hq]; rfl
      rw [ht]
      exact .took hq ha
    | inbound i =>
      obtain ⟨ha, hin⟩ := select_inbound hs
      rw [hin]
      cases hi : p.link.recv s.link i with
      | mk r link =>
        simp only [hi] at h
        cases r with
        | failed => cases h; exact .readFailed hi
        | nothing => cases h; exact .nothing hi
        | envelope env =>
          cases env with
          | response resp =>
            cases hl : s.requests.pending.lookup (p.responseId resp) with
            | none =>
              simp only [onInbound, hl] at h
              cases h
              exact .unmatched hi hl
            | some slot =>
              simp only [onInbound, hl] at h
              cases h
              exact .matched hi hl
          | event ev => cases h; exact .broadcast hi
          | ping => cases h; exact .pinged hi ha
          | request req => cases h; exact .inert hi nofun
          | subscribe topic filter capability => cases h; exact .inert hi nofun
          | unsubscribe topic => cases h; exact .inert hi nofun
          | subscribeError topic error => cases h; exact .inert hi nofun
          | pong => cases h; exact .inert hi nofun

inductive TransportCase (s : Transport p) :
    TransportEvent p → Transport p → List (TransportEffect C) → Prop where
  | began {req : C.Request} (hh : s.handle = true) :
      TransportCase s (.request req) (s.withRequests (s.requests.begin req)) []
  | inserted {c retry : Nat} {req : C.Request}
      (hc : s.requests.calls[c]? = some ⟨req, .start retry⟩) :
      TransportCase s (.call c .insert)
        (s.withRequests (s.requests.insert (p.requestId req) c retry)) []
  | sent {c retry slot : Nat} {req : C.Request}
      (hc : s.requests.calls[c]? = some ⟨req, .inserted retry slot⟩) (hr : s.receiving = true) :
      TransportCase s (.call c .send)
        ((s.withRequests (s.requests.setPhase c (.awaiting retry slot))).enqueue (.request c)
          (.request req)) []
  | refused {c retry slot : Nat} {req : C.Request}
      (hc : s.requests.calls[c]? = some ⟨req, .inserted retry slot⟩) (hr : s.receiving = false) :
      TransportCase s (.call c .send)
        (s.withRequests (s.requests.setPhase c (.refused slot))) []
  | disconnected {c slot : Nat} {req : C.Request}
      (hc : s.requests.calls[c]? = some ⟨req, .refused slot⟩) :
      TransportCase s (.call c .remove)
        (s.withRequests ((s.requests.discard (p.requestId req)).setPhase c
          (.returned (.error .disconnected)))) [.returned c (.error .disconnected)]
  | woken {c retry slot : Nat} {req : C.Request} {w : Waiter C}
      {res : Except (CoreError C) C.Response}
      (hc : s.requests.calls[c]? = some ⟨req, .awaiting retry slot⟩)
      (hw : s.requests.waiters[slot]? = some w) (hres : awaitResult w.cell = some res) :
      TransportCase s (.call c .wake) (s.withRequests (s.requests.setPhase c (.returned res)))
        [.returned c res]
  | expired {c retry slot last : Nat} {req : C.Request}
      (hc : s.requests.calls[c]? = some ⟨req, .awaiting retry slot⟩)
      (hm : p.link.maxRetries = some last) :
      TransportCase s (.call c .expire)
        (s.withRequests (s.requests.setPhase c (.expired retry slot))) []
  | timedOut {c retry slot : Nat} {req : C.Request}
      (hc : s.requests.calls[c]? = some ⟨req, .expired retry slot⟩)
      (hm : p.link.maxRetries = some retry) :
      TransportCase s (.call c .remove)
        (s.withRequests ((s.requests.discard (p.requestId req)).setPhase c
          (.returned (.error .timeout)))) [.returned c (.error .timeout)]
  | retried {c retry slot : Nat} {req : C.Request}
      (hc : s.requests.calls[c]? = some ⟨req, .expired retry slot⟩) :
      TransportCase s (.call c .remove)
        (s.withRequests ((s.requests.discard (p.requestId req)).setPhase c
          (.start (retry + 1)))) []
  | subscribed {topic : C.Topic} (hr : s.receiving = true) :
      TransportCase s (.subscribe topic)
        { s.enqueue (.subscribe s.subscriptions.length) (.subscribe topic none p.capability) with
          subscriptions := s.subscriptions ++ [⟨topic, none⟩] } []
  | notSubscribed {topic : C.Topic} : TransportCase s (.subscribe topic) s [.notSubscribed topic]
  | attached {n : Nat} {topic : C.Topic} (hn : s.subscriptions[n]? = some ⟨topic, none⟩) :
      TransportCase s (.attach n)
        { s with subscriptions := s.subscriptions.set n ⟨topic, some s.events.subscribe⟩ } []
  | yielded {n : Nat} {topic : C.Topic} {rx rx' : Receiver} {ev : Event C}
      (hn : s.subscriptions[n]? = some ⟨topic, some rx⟩)
      (hv : s.eventChannel.recv rx = (.ok ev, rx')) :
      TransportCase s (.poll n)
        { s with subscriptions := s.subscriptions.set n ⟨topic, some rx'⟩ } [.yielded n ev]
  | lagged {n missed : Nat} {topic : C.Topic} {rx rx' : Receiver}
      (hn : s.subscriptions[n]? = some ⟨topic, some rx⟩)
      (hv : s.eventChannel.recv rx = (.lagged missed, rx')) :
      TransportCase s (.poll n)
        { s with subscriptions := s.subscriptions.set n ⟨topic, some rx'⟩ } [.lagged n missed]
  | ended {n : Nat} : TransportCase s (.poll n) s [.ended n]
  | turn {late : Bool} {inbound : Option p.link.In} {out : p.link.Out} {s' : Transport p}
      {o : List (TransportEffect C)} (hp : s.pump = .looping)
      (ht : TurnCase s late out inbound s' o) :
      TransportCase s (.pump (.turn late inbound out)) s' o
  | delivered {slot : Nat} {resp : C.Response} (hp : s.pump = .delivering slot resp) :
      TransportCase s (.pump .deliver)
        { s with pump := .looping, requests := s.requests.fill slot resp } []
  | down (hp : s.pump = .leaving) :
      TransportCase s (.pump .setDown) { s with pump := .down, state := .down } []
  | drained (hp : s.pump = .down) :
      TransportCase s (.pump .drain)
        { s with
          pump := .drained s.requests.senders
          requests := { s.requests with pending := ∅ } } []
  | dropped {senders : List Nat} (hp : s.pump = .drained senders) :
      TransportCase s (.pump .dropSenders)
        { s with pump := .dropped, requests := s.requests.dropSenders senders } []
  | finished (hp : s.pump = .dropped) :
      TransportCase s (.pump .finish) { s with pump := .finished } []
  | handleDropped (hh : s.handle = true) (hb : s.borrowed = false) :
      TransportCase s .dropHandle { s with handle := false } []

theorem callNext_case {s s' : Transport p} {c : Nat} {e : CallEvent} {call : Call C}
    {o : List (TransportEffect C)} (hc : s.requests.calls[c]? = some call)
    (h : callNext s c e call = some (s', o)) : TransportCase s (.call c e) s' o := by
  obtain ⟨req, phase⟩ := call
  unfold callNext at h
  cases e with
  | insert =>
    cases phase with
    | start retry => cases h; exact .inserted hc
    | _ => cases h
  | send =>
    cases phase with
    | inserted retry slot =>
      cases hr : s.receiving with
      | true =>
        simp only [hr] at h
        cases h
        exact .sent hc hr
      | false =>
        simp only [hr] at h
        cases h
        exact .refused hc hr
    | _ => cases h
  | remove =>
    cases phase with
    | refused slot => cases h; exact .disconnected hc
    | expired retry slot =>
      by_cases hm : p.link.maxRetries = some retry
      · simp only [hm, if_true] at h
        cases h
        exact .timedOut hc hm
      · simp only [hm, if_false] at h
        cases h
        exact .retried hc
    | _ => cases h
  | wake =>
    cases phase with
    | awaiting retry slot =>
      cases hw : s.requests.waiters[slot]? with
      | none =>
        simp only [hw, Option.bind_none] at h
        cases h
      | some w =>
        cases hres : awaitResult w.cell with
        | none =>
          simp only [hw, Option.bind_some, hres] at h
          cases h
        | some res =>
          simp only [hw, Option.bind_some, hres] at h
          cases h
          exact .woken hc hw hres
    | _ => cases h
  | expire =>
    cases phase with
    | awaiting retry slot =>
      cases hm : p.link.maxRetries with
      | none =>
        simp only [hm] at h
        cases h
      | some last =>
        simp only [hm] at h
        cases h
        exact .expired hc hm
    | _ => cases h

theorem pumpNext_case {s s' : Transport p} {e : PumpEvent p} {o : List (TransportEffect C)}
    (h : pumpNext s e = some (s', o)) : TransportCase s (.pump e) s' o := by
  unfold pumpNext at h
  cases hp : s.pump with
  | looping =>
    rw [hp] at h
    cases e with
    | turn late inbound out => exact .turn hp (pumpTurn_case h)
    | _ => cases h
  | delivering slot resp =>
    rw [hp] at h
    cases e with
    | deliver => cases h; exact .delivered hp
    | _ => cases h
  | leaving =>
    rw [hp] at h
    cases e with
    | setDown => cases h; exact .down hp
    | _ => cases h
  | down =>
    rw [hp] at h
    cases e with
    | drain => cases h; exact .drained hp
    | _ => cases h
  | drained senders =>
    rw [hp] at h
    cases e with
    | dropSenders => cases h; exact .dropped hp
    | _ => cases h
  | dropped =>
    rw [hp] at h
    cases e with
    | finish => cases h; exact .finished hp
    | _ => cases h
  | finished =>
    rw [hp] at h
    cases e <;> cases h

theorem pollNext_case {s s' : Transport p} {n : Nat} {o : List (TransportEffect C)}
    (h : pollNext s n = some (s', o)) : TransportCase s (.poll n) s' o := by
  unfold pollNext at h
  cases hn : s.subscriptions[n]? with
  | none => rw [hn] at h; cases h
  | some sub =>
    obtain ⟨topic, receiver⟩ := sub
    cases receiver with
    | none => rw [hn] at h; cases h
    | some rx =>
      simp only [hn] at h
      cases hv : s.eventChannel.recv rx with
      | mk v rx' =>
        rw [hv] at h
        cases v with
        | ok ev => cases h; exact .yielded hn hv
        | lagged missed => cases h; exact .lagged hn hv
        | closed => cases h; exact .ended
        | empty => cases h

theorem next_case {s s' : Transport p} {e : TransportEvent p} {o : List (TransportEffect C)}
    (h : next s e = some (s', o)) : TransportCase s e s' o := by
  cases e with
  | request req =>
    simp only [next] at h
    split at h
    · rename_i hh
      cases h
      exact .began hh
    · cases h
  | call c e =>
    simp only [next] at h
    split at h
    · cases h
    · rename_i call hc
      exact callNext_case hc h
  | subscribe topic =>
    simp only [next, subscribeNext] at h
    split at h
    · cases h
    · split at h
      · rename_i hr
        cases h
        exact .subscribed hr
      · cases h
        exact .notSubscribed
  | attach n =>
    simp only [next, attachNext] at h
    split at h
    · rename_i topic hn
      cases h
      exact .attached hn
    · cases h
  | poll n => exact pollNext_case h
  | pump e => exact pumpNext_case h
  | dropHandle =>
    simp only [next] at h
    split at h
    · rename_i hb
      cases h
      rw [Bool.and_eq_true, Bool.not_eq_true'] at hb
      exact .handleDropped hb.1 hb.2
    · cases h

end Obfs.Client

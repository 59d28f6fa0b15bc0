import Obfs.Client.Links

/-! How a pump ends: which requests its exit leaves waiting, whether dropping the
transport ends it, and which I/O failures do. -/
namespace Obfs.Client
open Async Broadcast Trace
variable {C : Core} {p : Params C}

def PumpPhase.hasDrained : PumpPhase C → Bool
  | .drained _ => true
  | .dropped => true
  | .finished => true
  | _ => false

def PumpPhase.left : PumpPhase C → Bool
  | .looping => false
  | .delivering _ _ => false
  | _ => true

section Stranded

def isSend : TransportEvent p → Bool
  | .call _ .send => true
  | _ => false

def awaits (call : Call C) : Option (Nat × Nat) :=
  match call.phase with
  | .awaiting retry slot => some (retry, slot)
  | _ => none

/-- Some call awaits a channel whose sender is stored in the pending map. -/
def Requests.Strands (r : Requests C) : Prop :=
  ∃ (c : Nat) (req : C.Request) (retry slot : Nat) (id : String),
    r.calls[c]? = some ⟨req, .awaiting retry slot⟩ ∧ r.pending.lookup id = some slot

/-- A call hands its request to the outbound channel while its entry is stored,
after the pump has drained the map and before it drops the receiver. -/
def Slips (t : TransportStep p) : Prop :=
  ∃ (c : Nat) (req : C.Request) (retry slot : Nat), t.event = .call c .send ∧
    t.pre.pump.hasDrained = true ∧ t.pre.receiving = true ∧
    t.pre.requests.calls[c]? = some ⟨req, .inserted retry slot⟩ ∧
    t.pre.requests.pending.lookup (p.requestId req) = some slot

theorem calls_setPhase {r : Requests C} {c d : Nat} {phase : CallPhase C} {call : Call C}
    (h : (r.setPhase c phase).calls[d]? = some call) :
    r.calls[d]? = some call ∨ (d = c ∧ call.phase = phase) := by
  by_cases hcd : c = d
  · right
    unfold Requests.setPhase at h
    rw [← hcd, List.getElem?_modify_eq] at h
    obtain ⟨call', -, he⟩ := Option.map_eq_some_iff.mp h
    exact ⟨hcd.symm, by rw [← he]⟩
  · left
    unfold Requests.setPhase at h
    rw [List.getElem?_modify_ne _ _ hcd] at h
    exact h

theorem awaiting_setPhase {r : Requests C} {c d retry slot : Nat} {req : C.Request}
    {phase : CallPhase C}
    (h : (r.setPhase d phase).calls[c]? = some ⟨req, .awaiting retry slot⟩)
    (hne : phase ≠ .awaiting retry slot) :
    r.calls[c]? = some ⟨req, .awaiting retry slot⟩ := by
  cases calls_setPhase h with
  | inl h => exact h
  | inr h => exact absurd h.2.symm hne

theorem awaiting_step {s s' : Transport p} {e : TransportEvent p} {o : List (TransportEffect C)}
    {c retry slot : Nat} {req : C.Request} (hn : next s e = some (s', o))
    (h : s'.requests.calls[c]? = some ⟨req, .awaiting retry slot⟩) :
    s.requests.calls[c]? = some ⟨req, .awaiting retry slot⟩ ∨
      (e = .call c .send ∧ s.receiving = true ∧ s'.requests.pending = s.requests.pending ∧
        s.requests.calls[c]? = some ⟨req, .inserted retry slot⟩) := by
  cases next_case hn with
  | began hh =>
    left
    have h' : (s.requests.calls ++ [⟨_, .start 0⟩])[c]? = some ⟨req, .awaiting retry slot⟩ := h
    by_cases hlt : c < s.requests.calls.length
    · rw [List.getElem?_append_left hlt] at h'
      exact h'
    · rw [List.getElem?_append_right (Nat.not_lt.mp hlt)] at h'
      cases hk : c - s.requests.calls.length with
      | zero => rw [hk] at h'; cases h'
      | succ k => rw [hk] at h'; cases h'
  | inserted hc =>
    left
    rw [← discard_calls]
    exact awaiting_setPhase h nofun
  | @sent d retry' slot' req' hc hr =>
    by_cases hcd : d = c
    · right
      have h1 : (s.requests.setPhase d (.awaiting retry' slot')).calls[c]? =
          some ⟨req, .awaiting retry slot⟩ := h
      unfold Requests.setPhase at h1
      rw [hcd, List.getElem?_modify_eq] at h1
      rw [hcd] at hc
      rw [hc] at h1
      cases h1
      exact ⟨by rw [hcd], hr, rfl, hc⟩
    · left
      unfold Transport.enqueue Transport.withRequests Requests.setPhase at h
      rw [List.getElem?_modify_ne _ _ hcd] at h
      exact h
  | refused | woken | expired => exact Or.inl (awaiting_setPhase h nofun)
  | disconnected | timedOut | retried =>
    left
    have h1 := awaiting_setPhase h nofun
    rw [discard_calls] at h1
    exact h1
  | turn hp ht => cases ht <;> exact Or.inl h
  | _ => exact Or.inl h

theorem stored_step {s s' : Transport p} {e : TransportEvent p} {o : List (TransportEffect C)}
    {slot : Nat} {id : String} (hn : next s e = some (s', o))
    (h : s'.requests.pending.lookup id = some slot) :
    s.requests.pending.lookup id = some slot ∨
      (slot = s.requests.waiters.length ∧ ∃ c, e = .call c .insert) := by
  have hdiscard : ∀ {id' : String}, (s.requests.discard id').pending.lookup id = some slot →
      s.requests.pending.lookup id = some slot := by
    intro id' h
    by_cases he : id = id'
    · rw [he, lookup_discard_self] at h
      cases h
    · rw [lookup_discard_ne _ _ he] at h
      exact h
  cases next_case hn with
  | @inserted c retry req hc =>
    have h1 : ((s.requests.discard (p.requestId req)).pending.insert (p.requestId req)
        s.requests.waiters.length).lookup id = some slot := h
    by_cases he : id = p.requestId req
    · rw [he, AList.lookup_insert] at h1
      cases h1
      exact Or.inr ⟨rfl, c, rfl⟩
    · rw [AList.lookup_insert_ne he] at h1
      exact Or.inl (hdiscard h1)
  | disconnected | timedOut | retried => exact Or.inl (hdiscard h)
  | drained hp =>
    rw [AList.lookup_empty] at h
    cases h
  | turn hp ht =>
    cases ht with
    | @matched _ _ resp _ hi hl =>
      left
      by_cases he : id = p.responseId resp
      · rw [he, AList.lookup_erase] at h
        cases h
      · rw [AList.lookup_erase_ne he] at h
        exact h
    | _ => exact Or.inl h
  | _ => exact Or.inl h

theorem TurnCase.pump_cases {s s' : Transport p} {late : Bool} {out : p.link.Out}
    {inbound : Option p.link.In} {o : List (TransportEffect C)}
    (ht : TurnCase s late out inbound s' o) (hp : s.pump = .looping) :
    s'.pump = .looping ∨ s'.pump = .leaving ∨ ∃ slot resp, s'.pump = .delivering slot resp := by
  cases ht with
  | took =>
    dsimp only
    split
    · exact Or.inr (Or.inl rfl)
    · exact Or.inl rfl
  | readFailed => exact Or.inr (Or.inl rfl)
  | matched => exact Or.inr (Or.inr ⟨_, _, rfl⟩)
  | _ => exact Or.inl hp

theorem hasDrained_step {s s' : Transport p} {e : TransportEvent p} {o : List (TransportEffect C)}
    (hn : next s e = some (s', o)) (h : s'.pump.hasDrained = true) :
    s.pump.hasDrained = true ∨ s'.requests.pending = ∅ := by
  cases next_case hn with
  | drained hp => exact Or.inr rfl
  | dropped hp | finished hp => exact Or.inl (by rw [hp]; rfl)
  | delivered | down => cases h
  | turn hp ht =>
    obtain hl | hl | ⟨slot, resp, hl⟩ := ht.pump_cases hp <;>
    · rw [hl] at h
      cases h
  | _ => exact Or.inl h

/-- After the drain only a slip strands a call. -/
theorem strands_step {s s' : Transport p} {e : TransportEvent p} {o : List (TransportEffect C)}
    (hi : Registered p s.pump s.requests) (hn : next s e = some (s', o))
    (hp : s'.pump.hasDrained = true) (h : s'.requests.Strands) :
    (s.pump.hasDrained = true ∧ s.requests.Strands) ∨ Slips ⟨s, e, o, s'⟩ := by
  obtain ⟨c, req, retry, slot, id, hc, hl⟩ := h
  have hpump : s.pump.hasDrained = true := by
    cases hasDrained_step hn hp with
    | inl h => exact h
    | inr h =>
      rw [h, AList.lookup_empty] at hl
      cases hl
  cases awaiting_step hn hc with
  | inl hc =>
    cases stored_step hn hl with
    | inl hl => exact Or.inl ⟨hpump, c, req, retry, slot, id, hc, hl⟩
    | inr hnew =>
      obtain ⟨cell, hw⟩ := hi.current (slotOf_of_call _ c hc)
      have hlt := (List.getElem?_eq_some_iff.mp hw).1
      omega
  | inr hsend =>
    obtain ⟨he, hr, hpend, hc⟩ := hsend
    rw [hpend] at hl
    have hid := hi.stored_id (slotOf_of_call _ c hc) hl
    rw [idOf_of_call _ c hc, Option.some.injEq] at hid
    exact Or.inr ⟨c, req, retry, slot, he, hpump, hr, hc, hid ▸ hl⟩

theorem Slips.strands {s s' : Transport p} {e : TransportEvent p} {o : List (TransportEffect C)}
    (h : Slips ⟨s, e, o, s'⟩) (hn : next s e = some (s', o)) :
    s'.pump.hasDrained = true ∧ s'.requests.Strands := by
  obtain ⟨c, req, retry, slot, he, hp, hr, hc, hl⟩ := h
  dsimp only at he hp hr hc hl
  rw [he] at hn
  cases next_case hn with
  | sent hc' hr' =>
    rw [hc] at hc'
    cases hc'
    refine ⟨hp, c, req, retry, slot, p.requestId req, ?_, hl⟩
    unfold Transport.enqueue Transport.withRequests Requests.setPhase
    rw [List.getElem?_modify_eq, hc]
    rfl
  | refused hc' hr' =>
    rw [hr] at hr'
    cases hr'

theorem strands_iff {link : p.link.State} {h : List (TransportStep p)} {s : Transport p}
    (hr : TransportRun p link h s) :
    (∀ i t, At h i t → t.post.pump.hasDrained = true → ¬ t.post.requests.Strands) ↔
      ∀ i t, At h i t → ¬ Slips t := by
  constructor
  · intro hall i t ht hslip
    obtain ⟨hp, hs⟩ := hslip.strands (hr.next_eq ht)
    exact hall i t ht hp hs
  · intro hno i t ht hp hs
    have hpost : Run next (Transport.init p link) (h.take (i + 1)) t.post := hr.take_succ ht
    have hnone : ¬ (t.post.pump.hasDrained = true ∧ t.post.requests.Strands) := by
      -- the registered map and the absence of stranded calls are kept together
      refine (hpost.invariant_of (C := fun t => ¬ Slips t)
        (I := fun s => Registered p s.pump s.requests ∧
          ¬ (s.pump.hasDrained = true ∧ s.requests.Strands)) ?_ ?_ ?_).2
      · exact ⟨registered Run.nil, fun hf => Bool.false_ne_true hf.1⟩
      · intro s e s' o hi hC hn
        refine ⟨hi.1.step hn, ?_⟩
        intro hf
        cases strands_step hi.1 hn hf.1 hf.2 with
        | inl hb => exact hi.2 hb
        | inr hb => exact hC hb
      · intro j u hu
        exact hno j u hu.of_take.2
    exact hnone ⟨hp, hs⟩

/-- No request of the stream client is left waiting by the exit of the pump, that
is, in no state after its drain (when it has finished, in particular) does a call
await a channel whose sender is in the map, if and only if no request is handed
to the outbound channel, its entry being stored, between the drain of the map
and the drop of the receiver. -/
theorem tcp_request_stranded_iff {requestId : C.Request → String}
    {responseId : C.Response → String} {capability : Option C.Capability}
    {h : List (TransportStep (obfsTransport requestId responseId capability))}
    {s : Transport (obfsTransport requestId responseId capability)}
    (hr : TransportRun (obfsTransport requestId responseId capability) () h s) :
    (∀ i t, At h i t → t.post.pump.hasDrained = true → ¬ t.post.requests.Strands) ↔
      ∀ i t, At h i t → ¬ Slips t :=
  strands_iff hr

/-- A call whose insert and send fall between the drain and the drop of the
receiver waits for ever: the pump has finished, and the sender is in the map. -/
theorem tcp_request_stranded :
    ∃ h s, TransportRun Symbolic.tcpClient () h s ∧ s.receiving = false ∧ s.requests.Strands := by
  have hx : ∃ h s, TransportRun Symbolic.tcpClient () h s ∧
      h.map Step.event = [.request 5, .pump (.turn false (some (.error .closed)) .ok),
        .pump .setDown, .pump .drain, .call 0 .insert, .call 0 .send, .pump .dropSenders,
        .pump .finish] ∧
      (s.receiving = false ∧ s.requests.pending.lookup "5" = some 0 ∧
        (s.requests.calls[0]?).bind awaits = some (0, 0)) :=
    Run.of_exec (fun _ (s : Transport Symbolic.tcpClient) => s.receiving = false ∧
      s.requests.pending.lookup "5" = some 0 ∧ (s.requests.calls[0]?).bind awaits = some (0, 0))
      (by decide +kernel)
  obtain ⟨h, s, hr, -, hrec, hl, hc⟩ := hx
  obtain ⟨⟨req, phase⟩, hc, ha⟩ := Option.bind_eq_some_iff.mp hc
  refine ⟨h, s, hr, hrec, 0, req, 0, 0, "5", ?_, hl⟩
  cases phase with
  | awaiting retry slot => cases ha; exact hc
  | _ => cases ha

theorem tcp_request_stranded_iff_disconnected :
    ∃ h s, TransportRun Symbolic.tcpClient () h s ∧ h.length = 9 ∧ s.receiving = false ∧
      ∀ i t, At h i t → t.post.pump.hasDrained = true → ¬ t.post.requests.Strands := by
  have hx : ∃ h s, TransportRun Symbolic.tcpClient () h s ∧
      h.map Step.event = [.request 5, .call 0 .insert, .call 0 .send,
        .pump (.turn false none .ok), .pump (.turn false (some (.error .closed)) .ok),
        .pump .setDown, .pump .drain, .pump .dropSenders, .pump .finish] ∧
      (h.length = 9 ∧ s.receiving = false ∧
        ∀ t ∈ h, (isSend t.event && t.pre.pump.hasDrained) = false) :=
    Run.of_exec (fun (h : List (TransportStep Symbolic.tcpClient)) s =>
      h.length = 9 ∧ s.receiving = false ∧
        ∀ t ∈ h, (isSend t.event && t.pre.pump.hasDrained) = false) (by decide +kernel)
  obtain ⟨h, s, hr, -, hlen, hrec, hno⟩ := hx
  refine ⟨h, s, hr, hlen, hrec, (tcp_request_stranded_iff hr).mpr ?_⟩
  intro i t ht hslip
  obtain ⟨c, req, retry, slot, he, hp, -⟩ := hslip
  have hf := hno t ht.mem
  rw [he, hp] at hf
  cases hf

end Stranded

section Stopping

/-- Nothing that may still happen is a turn of the pump. -/
def Stopped (s : Transport p) : Prop :=
  ∀ g s', Run (next (p := p)) s g s' →
    ∀ j u late inbound out, At g j u → u.event ≠ .pump (.turn late inbound out)

theorem left_step {s s' : Transport p} {e : TransportEvent p} {o : List (TransportEffect C)}
    (hn : next s e = some (s', o)) (h : s.pump.left = true) : s'.pump.left = true := by
  cases next_case hn with
  | turn hp ht =>
    rw [hp] at h
    cases h
  | delivered hp =>
    rw [hp] at h
    cases h
  | down hp => rfl
  | drained hp => rfl
  | dropped hp => rfl
  | finished hp => rfl
  | _ => exact h

theorem pumpTurn_some (s : Transport p) (late : Bool) (i : p.link.In) (out : p.link.Out) :
    ∃ r, pumpTurn s late (some i) out = some r := by
  unfold pumpTurn
  cases hs : select [s.outboundArm late, inboundArm (some i)] with
  | wait =>
    unfold inboundArm at hs
    cases ha : s.outboundArm late <;> rw [ha] at hs <;> cases hs
  | otherwise => exact absurd hs (select_ne_otherwise s late (some i))
  | run sel =>
    cases sel with
    | outbound q => exact ⟨_, rfl⟩
    | inbound j =>
      dsimp only
      cases p.link.recv s.link j with
      | mk r link => cases r <;> exact ⟨_, rfl⟩

theorem stopped_iff {s : Transport p} (i : p.link.In) (out : p.link.Out) :
    Stopped s ↔ s.pump.left = true := by
  -- in the loop, the next turn can be taken
  have hturn : ∀ s : Transport p, s.pump = .looping → ∃ r,
      next s (.pump (.turn false (some i) out)) = some r := by
    intro s hp
    obtain ⟨r, hr⟩ := pumpTurn_some s false i out
    exact ⟨r, by simp only [next, pumpNext, hp, hr]⟩
  constructor
  · intro hs
    cases hp : s.pump with
    | looping =>
      obtain ⟨r, hr⟩ := hturn s hp
      exact absurd rfl (hs _ _ (Run.nil.snoc hr) 0 _ false (some i) out rfl)
    | delivering slot resp =>
      have hd : next s (.pump .deliver) =
          some ({ s with pump := .looping, requests := s.requests.fill slot resp }, []) := by
        simp only [next, pumpNext, hp]
      obtain ⟨r, hr⟩ := hturn { s with pump := .looping, requests := s.requests.fill slot resp } rfl
      exact absurd rfl (hs _ _ ((Run.nil.snoc hd).snoc hr) 1 _ false (some i) out rfl)
    | _ => rfl
  · intro hl g s' hr j u late inbound out hu he
    have hleft : u.pre.pump.left = true :=
      (hr.step hu).1.invariant (I := fun s => s.pump.left = true) hl
        fun _ _ _ _ hi hn => left_step hn hi
    have hn := hr.next_eq hu
    rw [he] at hn
    cases next_case hn with
    | turn hp ht =>
      rw [hp] at hleft
      cases hleft

theorem turn_left_iff {s s' : Transport p} {late : Bool} {inbound : Option p.link.In}
    {out : p.link.Out} {o : List (TransportEffect C)} (ho : s.outbound = [])
    (hn : next s (.pump (.turn late inbound out)) = some (s', o)) :
    s'.pump.left = true ↔ ∃ i, inbound = some i ∧ (p.link.recv s.link i).1 = .failed := by
  have hstay : ∀ {i : p.link.In} {r : Inbound C} {link : p.link.State} {b : Bool},
      p.link.recv s.link i = (r, link) → r ≠ .failed → b = false →
      (b = true ↔ ∃ j, some i = some j ∧ (p.link.recv s.link j).1 = .failed) := by
    intro i r link b hi hr hb
    rw [hb]
    refine ⟨nofun, ?_⟩
    intro hf
    obtain ⟨j, hj, hf⟩ := hf
    cases hj
    rw [hi] at hf
    exact absurd hf hr
  cases next_case hn with
  | turn hp ht =>
    cases ht with
    | took hq =>
      rw [ho] at hq
      cases hq
    | readFailed hi => exact ⟨fun _ => ⟨_, rfl, by rw [hi]⟩, fun _ => rfl⟩
    | nothing hi => exact hstay hi nofun (by rw [hp]; rfl)
    | unmatched hi hl => exact hstay hi nofun (by rw [hp]; rfl)
    | matched hi hl => exact hstay hi nofun rfl
    | broadcast hi => exact hstay hi nofun (by rw [hp]; rfl)
    | pinged hi => exact hstay hi nofun (by rw [hp]; rfl)
    | inert hi => exact hstay hi nofun (by rw [hp]; rfl)

/-- Dropping the transport, for the pumps of both clients: when every sender of
the outbound channel has been dropped and the channel is empty, the next turn of
the loop ends it for good if and only if that turn finds an I/O error: recv_frame
returns an error, or the socket does. -/
theorem dropped_transport_iff {K : Crates} :
    (∀ (requestId : C.Request → String) (responseId : C.Response → String)
      (capability : Option C.Capability) h
      (s : Transport (obfsTransport requestId responseId capability)) late inbound out s' o,
      TransportRun (obfsTransport requestId responseId capability) () h s →
      s.handle = false → s.outbound = [] →
      next s (.pump (.turn late inbound out)) = some (s', o) →
      (Stopped s' ↔ ∃ e, inbound = some (.error e))) ∧
    ∀ (requestId : K.core.Request → String) (responseId : K.core.Response → String)
      (capability : Option K.core.Capability) channel h
      (s : Transport (udpObfsTransport requestId responseId capability)) late inbound out s' o,
      TransportRun (udpObfsTransport requestId responseId capability) channel h s →
      s.handle = false → s.outbound = [] →
      next s (.pump (.turn late inbound out)) = some (s', o) →
      (Stopped s' ↔ ∃ e, inbound = some (.error e)) := by
  refine ⟨?_, ?_⟩
  · intro requestId responseId capability h s late inbound out s' o hr hh ho hn
    refine (stopped_iff (s := s') (Except.error .closed) out).trans ?_
    rw [turn_left_iff ho hn]
    constructor
    · intro hf
      obtain ⟨i, hi, hf⟩ := hf
      obtain ⟨e, he⟩ := tcp_recv_failed.mp (Prod.ext hf rfl)
      exact ⟨e, by rw [hi, he]⟩
    · intro hf
      obtain ⟨e, he⟩ := hf
      exact ⟨.error e, he, rfl⟩
  · intro requestId responseId capability channel h s late inbound out s' o hr hh ho hn
    refine (stopped_iff (s := s') (Except.error ⟨.other, ""⟩) out).trans ?_
    rw [turn_left_iff ho hn]
    constructor
    · intro hf
      obtain ⟨i, hi, hf⟩ := hf
      obtain ⟨e, he⟩ := udp_recv_failed.mp hf
      exact ⟨e, by rw [hi, he]⟩
    · intro hf
      obtain ⟨e, he⟩ := hf
      exact ⟨.error e, he, rfl⟩

/- Envelopes that a step received: a Ping is 0, an event 1. -/
def heard (t : TransportStep p) : List Nat :=
  t.out.filterMap fun
    | .received .ping => some 0
    | .received (.event _) => some 1
    | _ => none

theorem received_of_heard {t : TransportStep p} {n : Nat} (h : n ∈ heard t) :
    ∃ env, TransportEffect.received env ∈ t.out := by
  obtain ⟨x, hx, hn⟩ := List.mem_filterMap.mp h
  cases x with
  | received env => exact ⟨env, hx⟩
  | _ => cases hn

def onDropped (t : TransportStep p) : Bool × Nat × List Nat :=
  (t.pre.handle, t.pre.outbound.length, heard t)

/-- After the transport is dropped, both pumps handle a Ping and then an event. -/
theorem dropped_transport_pumps_on :
    (∃ h s, TransportRun Symbolic.tcpClient () h s ∧ ∃ t u, At h 1 t ∧ At h 2 u ∧
      t.pre.handle = false ∧ t.pre.outbound = [] ∧
      (∃ env, TransportEffect.received env ∈ t.out) ∧
      ∃ env, TransportEffect.received env ∈ u.out) ∧
    ∃ h s, TransportRun Symbolic.udpClient Symbolic.clientChannel h s ∧ ∃ t u, At h 1 t ∧ At h 2 u ∧
      t.pre.handle = false ∧ t.pre.outbound = [] ∧
      (∃ env, TransportEffect.received env ∈ t.out) ∧
      ∃ env, TransportEffect.received env ∈ u.out := by
  have hfind : ∀ {p : Params Symbolic.core} {h : List (TransportStep p)},
      h.map onDropped = [(true, 0, []), (false, 0, [0]), (false, 0, [1])] →
      ∃ t u, At h 1 t ∧ At h 2 u ∧ t.pre.handle = false ∧ t.pre.outbound = [] ∧
        (∃ env, TransportEffect.received env ∈ t.out) ∧
        ∃ env, TransportEffect.received env ∈ u.out := by
    intro p h hm
    obtain ⟨t, ht, hdt⟩ := at_map hm (j := 1) rfl
    obtain ⟨u, hu, hdu⟩ := at_map hm (j := 2) rfl
    simp only [onDropped, Prod.mk.injEq] at hdt hdu
    refine ⟨t, u, ht, hu, hdt.1, List.length_eq_zero_iff.mp hdt.2.1, ?_, ?_⟩
    · exact received_of_heard (n := 0) (by rw [hdt.2.2]; exact List.mem_singleton.mpr rfl)
    · exact received_of_heard (n := 1) (by rw [hdu.2.2]; exact List.mem_singleton.mpr rfl)
  have htcp : ∃ h s, TransportRun Symbolic.tcpClient () h s ∧
      h.map Step.event = [.dropHandle, .pump (.turn false (some (.ok .ping)) .ok),
        .pump (.turn false (some (.ok (.event Symbolic.news))) .ok)] ∧
      h.map onDropped = [(true, 0, []), (false, 0, [0]), (false, 0, [1])] :=
    Run.of_exec (fun (h : List (TransportStep Symbolic.tcpClient)) _ => h.map onDropped =
      [(true, 0, []), (false, 0, [0]), (false, 0, [1])]) (by decide +kernel)
  have hudp : ∃ h s, TransportRun Symbolic.udpClient Symbolic.clientChannel h s ∧
      h.map Step.event = [.dropHandle,
        .pump (.turn false (some (.ok (Symbolic.data (Symbolic.keyOf 2) 0 .ping))) ((), .ok ())),
        .pump (.turn false (some (.ok (Symbolic.data (Symbolic.keyOf 2) 1
          (.event Symbolic.news)))) ((), .ok ()))] ∧
      h.map onDropped = [(true, 0, []), (false, 0, [0]), (false, 0, [1])] :=
    Run.of_exec (fun (h : List (TransportStep Symbolic.udpClient)) _ => h.map onDropped =
      [(true, 0, []), (false, 0, [0]), (false, 0, [1])]) (by decide +kernel)
  obtain ⟨h, s, hr, -, hm⟩ := htcp
  obtain ⟨g, u, hg, -, hm'⟩ := hudp
  exact ⟨⟨h, s, hr, hfind hm⟩, g, u, hg, hfind hm'⟩

theorem dropped_transport_iff_closed :
    ∃ h s s' o, TransportRun Symbolic.tcpClient () h s ∧ s.handle = false ∧ s.outbound = [] ∧
      next s (.pump (.turn false (some (.error .closed)) .ok)) = some (s', o) ∧ Stopped s' := by
  have hx : ∃ h s, TransportRun Symbolic.tcpClient () h s ∧
      h.map Step.event = [.dropHandle, .pump (.turn false (some (.error .closed)) .ok)] ∧
      h.map onDropped = [(true, 0, []), (false, 0, [])] :=
    Run.of_exec (fun (h : List (TransportStep Symbolic.tcpClient)) _ => h.map onDropped =
      [(true, 0, []), (false, 0, [])]) (by decide +kernel)
  obtain ⟨h, s, hr, hev, hm⟩ := hx
  obtain ⟨t, ht, hd⟩ := at_map hm (j := 1) rfl
  simp only [onDropped, Prod.mk.injEq] at hd
  obtain ⟨hpre, hn⟩ := hr.step ht
  rw [← Option.some.inj (ht.event hev)] at hn
  have ho := List.length_eq_zero_iff.mp hd.2.1
  exact ⟨_, t.pre, t.post, t.out, hpre, hd.1, ho, hn,
    ((dropped_transport_iff (K := Symbolic.crates)).1 _ _ _ _ _ _ _ _ _ _ hpre hd.1 ho hn).mpr
      ⟨.closed, rfl⟩⟩

def TransportEffect.isFailure : TransportEffect C → Bool
  | .sent _ ok => !ok
  | .readFailed => true
  | _ => false

section Failures
variable {requestId : C.Request → String} {responseId : C.Response → String}
  {capability : Option C.Capability}

/-- The turn answers a Ping, and sending the Pong fails. -/
def PongFails (t : TransportStep (obfsTransport requestId responseId capability)) : Prop :=
  ∃ late out, t.event = .pump (.turn late (some (.ok .ping)) out) ∧ sendOk out = false ∧
    (late = true ∨ t.pre.outbound = [])

theorem send_failed {x a : TransportEffect C} {env : Envelope C} {ok : Bool}
    (hx : x ∈ [a, .sent env ok]) (ha : a.isFailure = false) (hf : x.isFailure = true) :
    ok = false := by
  simp only [List.mem_cons, List.not_mem_nil, or_false] at hx
  cases hx with
  | inl hx =>
    rw [hx, ha] at hf
    cases hf
  | inr hx =>
    rw [hx] at hf
    exact (Bool.not_eq_true' ok).mp hf

theorem failure_left_iff {s s' : Transport (obfsTransport requestId responseId capability)}
    {e : TransportEvent (obfsTransport requestId responseId capability)}
    {o : List (TransportEffect C)} (hn : next s e = some (s', o))
    (hf : ∃ x ∈ o, x.isFailure = true) :
    s'.pump.left = true ↔ ¬ PongFails ⟨s, e, o, s'⟩ := by
  obtain ⟨x, hx, hf⟩ := hf
  cases next_case hn with
  | @turn late inbound out _ _ hp ht =>
    cases ht with
    | took hq ha =>
      have hout : sendOk out = false := send_failed hx rfl hf
      constructor
      · intro _ hpong
        obtain ⟨late', out', he, -, hor⟩ := hpong
        cases he
        cases hor with
        | inl hor => rw [ha] at hor; cases hor
        | inr hor => rw [hq] at hor; cases hor
      · intro _
        change PumpPhase.left (if (true && !sendOk out) = true then .leaving else .looping) = true
        rw [hout]
        rfl
    | readFailed hi =>
      refine ⟨?_, fun _ => rfl⟩
      intro _ hpong
      obtain ⟨late', out', he, -, -⟩ := hpong
      cases he
      obtain ⟨err, herr⟩ := tcp_recv_failed.mp hi
      cases herr
    | @pinged i link hi ha =>
      have hout : sendOk out = false := send_failed hx rfl hf
      have hping : i = .ok .ping := by
        cases i with
        | error err => cases hi
        | ok env => cases hi; rfl
      constructor
      -- the Pong's result is thrown away: the pump stays in its loop
      · intro hl
        rw [hp] at hl
        cases hl
      · intro hno
        exact absurd ⟨late, out, by rw [hping], hout, ha⟩ hno
    | nothing hi => cases hx
    | unmatched | inert =>
      cases List.mem_singleton.mp hx
      cases hf
    | matched hi hl =>
      rw [List.mem_cons, Option.mem_toList, Option.map_eq_some_iff] at hx
      cases hx with
      | inl hx => rw [hx] at hf; cases hf
      | inr hx =>
        obtain ⟨w, -, hw⟩ := hx
        rw [← hw] at hf
        cases hf
    | broadcast hi =>
      simp only [List.mem_cons, List.not_mem_nil, or_false] at hx
      cases hx with
      | inl hx => rw [hx] at hf; cases hf
      | inr hx => rw [hx] at hf; cases hf
  | disconnected | woken | timedOut | notSubscribed | yielded | lagged | ended =>
    cases List.mem_singleton.mp hx
    cases hf
  | _ => cases hx

theorem down_of_left {link : p.link.State} {h : List (TransportStep p)} {s : Transport p}
    (hr : TransportRun p link h s) (hp : s.pump = .down) : s.state = .down := by
  refine hr.invariant (I := fun s => s.pump = .down → s.state = .down) ?_ ?_ hp
  · intro h0
    cases h0
  intro s e s' o hi hn hp
  cases next_case hn with
  | down _ => rfl
  | turn hl ht =>
    obtain hl' | hl' | ⟨slot, resp, hl'⟩ := ht.pump_cases hl <;>
    · rw [hl'] at hp
      cases hp
  | delivered | drained | dropped | finished => cases hp
  | _ => exact hi hp

theorem drain_step {s s' : Transport p} {o : List (TransportEffect C)}
    (hn : next s (.pump .drain) = some (s', o)) :
    s.pump = .down ∧ s'.state = s.state ∧ s'.requests.pending = ∅ := by
  cases next_case hn with
  | drained hp => exact ⟨hp, rfl, rfl⟩

theorem PongFails.isFailure {s s' : Transport (obfsTransport requestId responseId capability)}
    {e : TransportEvent (obfsTransport requestId responseId capability)}
    {o : List (TransportEffect C)} (h : PongFails ⟨s, e, o, s'⟩) (hn : next s e = some (s', o)) :
    ∃ x ∈ o, x.isFailure = true := by
  obtain ⟨late, out, he, hout, hor⟩ := h
  dsimp only at he
  rw [he] at hn
  cases next_case hn with
  | turn hp ht =>
    cases ht with
    | took hq ha =>
      cases hor with
      | inl hor => rw [ha] at hor; cases hor
      | inr hor => rw [hq] at hor; cases hor
    | pinged hi ha =>
      refine ⟨_, List.mem_cons_of_mem _ (List.mem_singleton.mpr rfl), ?_⟩
      change (!sendOk out) = true
      rw [hout]
      rfl
    | inert hi hne =>
      cases hi
      exact absurd rfl hne
    | _ =>
      rename_i hi
      cases hi

/-- I/O failures of the stream client. In every run, each failed call of send_frame
or recv_frame is the last one, whatever happens later, if and only if no Pong
that answers a Ping fails to be sent; and the drain leaves the state Down and the
map empty. -/
theorem tcp_pump_failure_iff
    {h : List (TransportStep (obfsTransport requestId responseId capability))}
    {s : Transport (obfsTransport requestId responseId capability)}
    (hr : TransportRun (obfsTransport requestId responseId capability) () h s) :
    ((∀ i t, At h i t → (∃ x ∈ t.out, x.isFailure = true) → Stopped t.post) ↔
      ∀ i t, At h i t → ¬ PongFails t) ∧
    ∀ i t, At h i t → t.event = .pump .drain →
      t.post.state = .down ∧ t.post.requests.pending = ∅ := by
  refine ⟨⟨?_, ?_⟩, ?_⟩
  · intro hall i t ht hpong
    have hf := hpong.isFailure (hr.next_eq ht)
    have hst := (stopped_iff (Except.error .closed) Tcp.SendResult.ok).mp (hall i t ht hf)
    exact (failure_left_iff (hr.next_eq ht) hf).mp hst hpong
  · intro hno i t ht hf
    refine (stopped_iff (Except.error .closed) Tcp.SendResult.ok).mpr ?_
    exact (failure_left_iff (hr.next_eq ht) hf).mpr (hno i t ht)
  · intro i t ht he
    obtain ⟨hpre, hn⟩ := hr.step ht
    rw [he] at hn
    obtain ⟨hp, hstate, hpend⟩ := drain_step hn
    exact ⟨hstate.trans (down_of_left hpre hp), hpend⟩

end Failures

/-- A Pong that cannot be written does not end the loop: the pump goes on to read
from a stream on which a frame is missing. -/
theorem tcp_pump_reads_after_failure :
    ∃ h s, TransportRun Symbolic.tcpClient () h s ∧ ∃ t u, At h 0 t ∧ At h 1 u ∧
      (∃ x ∈ t.out, x.isFailure = true) ∧ ∃ env, TransportEffect.received env ∈ u.out := by
  have hx : ∃ h s, TransportRun Symbolic.tcpClient () h s ∧
      h.map Step.event = [.pump (.turn false (some (.ok .ping)) (.unwritten "broken pipe")),
        .pump (.turn false (some (.ok (.event Symbolic.news))) .ok)] ∧
      h.map (fun t => (t.out.any TransportEffect.isFailure, heard t)) =
        [(true, [0]), (false, [1])] :=
    Run.of_exec (fun (h : List (TransportStep Symbolic.tcpClient)) _ =>
      h.map (fun t => (t.out.any TransportEffect.isFailure, heard t)) =
        [(true, [0]), (false, [1])]) (by decide +kernel)
  obtain ⟨h, s, hr, -, hm⟩ := hx
  obtain ⟨t, ht, hdt⟩ := at_map hm (j := 0) rfl
  obtain ⟨u, hu, hdu⟩ := at_map hm (j := 1) rfl
  simp only [Prod.mk.injEq] at hdt hdu
  refine ⟨h, s, hr, t, u, ht, hu, List.any_eq_true.mp hdt.1, ?_⟩
  exact received_of_heard (n := 1) (by rw [hdu.2]; exact List.mem_singleton.mpr rfl)

theorem tcp_pump_failure_iff_closed :
    ∃ h s, TransportRun Symbolic.tcpClient () h s ∧
      (∃ t, At h 1 t ∧ ∃ x ∈ t.out, x.isFailure = true) ∧
      ∀ i t, At h i t → (∃ x ∈ t.out, x.isFailure = true) → Stopped t.post := by
  have hx : ∃ h s, TransportRun Symbolic.tcpClient () h s ∧
      h.map Step.event = [.pump (.turn false (some (.ok .ping)) .ok),
        .pump (.turn false (some (.error .closed)) .ok)] ∧
      h.map (fun t => t.out.any TransportEffect.isFailure) = [false, true] :=
    Run.of_exec (fun (h : List (TransportStep Symbolic.tcpClient)) _ =>
      h.map (fun t => t.out.any TransportEffect.isFailure) = [false, true]) (by decide +kernel)
  obtain ⟨h, s, hr, hev, hm⟩ := hx
  obtain ⟨t, ht, hdt⟩ := at_map hm (j := 1) rfl
  refine ⟨h, s, hr, ⟨t, ht, List.any_eq_true.mp hdt⟩, (tcp_pump_failure_iff hr).1.mpr ?_⟩
  intro i u hu hpong
  obtain ⟨late, out, he, hout, -⟩ := hpong
  have hi := hu.event hev
  rw [he] at hi
  match i with
  | 0 =>
    cases hi
    cases hout
  | 1 => cases hi
  | i + 2 => cases hi

end Stopping

end Obfs.Client

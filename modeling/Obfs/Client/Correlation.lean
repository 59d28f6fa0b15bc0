import Obfs.Client.Links

/-! Requests and responses are correlated: a call returns only a response that
the pump received for its id, and leaves nothing behind in the pending map. -/
namespace Obfs.Client
open Async Broadcast Trace
variable {C : Core} {p : Params C}

def Requests.ownerOf (r : Requests C) (slot : Nat) : Option Nat :=
  (r.waiters[slot]?).map Waiter.call

section Owner
variable {r : Requests C} {c slot : Nat}

theorem owner_modify {ws : List (Waiter C)} {f : Waiter C → Waiter C} (i slot : Nat)
    (hf : ∀ w, (f w).call = w.call) :
    ((ws.modify i f)[slot]?).map Waiter.call = (ws[slot]?).map Waiter.call := by
  rw [List.getElem?_modify]
  by_cases hi : i = slot
  · cases ws[slot]? <;> simp [hi, hf]
  · simp [hi]

theorem ownerOf_discard (id : String) : (r.discard id).ownerOf slot = r.ownerOf slot := by
  unfold Requests.discard
  cases r.pending.lookup id with
  | none => rfl
  | some s => exact owner_modify s slot fun _ => rfl

theorem ownerOf_insert {id : String} {d retry : Nat} (h : r.ownerOf slot = some c) :
    (r.insert id d retry).ownerOf slot = some c := by
  rw [← ownerOf_discard id] at h
  unfold Requests.ownerOf at h
  obtain ⟨w, hw, hc⟩ := Option.map_eq_some_iff.mp h
  have happ : (r.insert id d retry).waiters[slot]? = some w := by
    have hlt := (List.getElem?_eq_some_iff.mp hw).1
    exact (List.getElem?_append_left hlt).trans hw
  rw [Requests.ownerOf, happ, Option.map_some, hc]

theorem ownerOf_dropSenders (senders : List Nat) :
    (r.dropSenders senders).ownerOf slot = r.ownerOf slot := by
  unfold Requests.dropSenders Requests.ownerOf
  dsimp only
  generalize r.waiters = ws
  induction senders generalizing ws with
  | nil => rfl
  | cons s senders ih => exact (ih _).trans (owner_modify s slot fun _ => rfl)

end Owner

theorem ownerOf_step {s s' : Transport p} {e : TransportEvent p} {o : List (TransportEffect C)}
    {c slot : Nat} (hn : next s e = some (s', o)) (h : s.requests.ownerOf slot = some c) :
    s'.requests.ownerOf slot = some c := by
  cases next_case hn with
  | inserted hc => exact ownerOf_insert h
  | disconnected hc => exact (ownerOf_discard _).trans h
  | timedOut hc hm => exact (ownerOf_discard _).trans h
  | retried hc => exact (ownerOf_discard _).trans h
  | delivered hp => exact (owner_modify (f := Waiter.fill _) _ slot fun _ => rfl).trans h
  | dropped hp => exact (ownerOf_dropSenders _).trans h
  | turn hp ht => cases ht <;> exact h
  | _ => exact h

theorem ownerOf_run {s₀ s : Transport p} {h : List (TransportStep p)} {c slot : Nat}
    (hr : Run (next (p := p)) s₀ h s) (h0 : s₀.requests.ownerOf slot = some c) :
    s.requests.ownerOf slot = some c :=
  hr.invariant (I := fun s => s.requests.ownerOf slot = some c) h0
    fun _ _ _ _ hi hn => ownerOf_step hn hi

/-- The step in which the pump took the sender of a channel for a response. -/
def Takes (t : TransportStep p) (slot : Nat) (resp : C.Response) : Prop :=
  t.pre.requests.pending.lookup (p.responseId resp) = some slot ∧
    TransportEffect.received (.response resp) ∈ t.out ∧
    ∀ w, t.pre.requests.waiters[slot]? = some w → TransportEffect.matched w.call resp ∈ t.out

theorem taken_of_filled {link : p.link.State} {h : List (TransportStep p)} {s : Transport p}
    (hr : TransportRun p link h s) {slot : Nat} {resp : C.Response}
    (hold : (∃ c, s.requests.waiters[slot]? = some ⟨c, .filled resp⟩) ∨
      s.pump = .delivering slot resp) :
    ∃ i t, At h i t ∧ Takes t slot resp := by
  refine hr.granted
    (fun s (x : Nat × C.Response) =>
      (∃ c, s.requests.waiters[x.1]? = some ⟨c, .filled x.2⟩) ∨ s.pump = .delivering x.1 x.2)
    (fun t x => Takes t x.1 x.2) ?_ ?_ (r := (slot, resp)) hold
  · intro x h
    cases h with
    | inl h =>
      obtain ⟨c, h⟩ := h
      cases h
    | inr h => cases h
  · intro s e s' o x hn hold
    obtain ⟨slot, resp⟩ := x
    cases next_case hn with
    | inserted hc =>
      left
      cases hold with
      | inl h =>
        obtain ⟨c, h⟩ := h
        exact Or.inl ⟨c, filled_discard _ c _ (filled_new c _ h)⟩
      | inr h => exact Or.inr h
    | disconnected | timedOut | retried =>
      left
      exact hold.imp_left fun ⟨c, h⟩ => ⟨c, filled_discard _ c _ h⟩
    | delivered hp =>
      left
      cases hold with
      | inl h =>
        obtain ⟨c, h⟩ := h
        cases filled_fill _ c h with
        | inl h => exact Or.inl ⟨c, h⟩
        | inr h =>
          obtain ⟨rfl, rfl, -⟩ := h
          exact Or.inr hp
      | inr h => cases h
    | dropped hp =>
      left
      cases hold with
      | inl h =>
        obtain ⟨c, h⟩ := h
        exact Or.inl ⟨c, filled_dropSenders _ c h⟩
      | inr h => cases h
    | down | drained | finished => exact Or.inl (hold.imp_right nofun)
    | turn hp ht =>
      cases ht with
      | took hq =>
        left
        refine hold.imp_right ?_
        intro h
        dsimp only at h
        split at h <;> cases h
      | readFailed _ => exact Or.inl (hold.imp_right nofun)
      -- only here does the pump come to hold a sender and a response
      | matched hi hl =>
        cases hold with
        | inl h => exact Or.inl (Or.inl h)
        | inr h =>
          cases h
          refine Or.inr ⟨hl, List.mem_cons_self, ?_⟩
          intro w hw
          simp only [hw]
          simp
      | _ => exact Or.inl hold
    | _ => exact Or.inl hold

theorem returned_ok {s s' : Transport p} {e : TransportEvent p} {o : List (TransportEffect C)}
    {c : Nat} {resp : C.Response} (hn : next s e = some (s', o))
    (h : TransportEffect.returned c (.ok resp) ∈ o) :
    ∃ req retry slot d, s.requests.calls[c]? = some ⟨req, .awaiting retry slot⟩ ∧
      s.requests.waiters[slot]? = some ⟨d, .filled resp⟩ ∧
      s' = s.withRequests (s.requests.setPhase c (.returned (.ok resp))) := by
  cases next_case hn with
  | woken hc hw hres =>
    cases List.mem_singleton.mp h
    rename_i req w
    obtain ⟨d, cell⟩ := w
    cases cell with
    | waiting => cases hres
    | filled resp' =>
      cases hres
      exact ⟨req, _, _, d, hc, hw, rfl⟩
    | dropped => cases hres
  | turn hp ht =>
    cases ht with
    | matched hi hl =>
      rw [List.mem_cons] at h
      cases h with
      | inl h => cases h
      | inr h =>
        rw [Option.mem_toList, Option.map_eq_some_iff] at h
        obtain ⟨w, -, hw⟩ := h
        cases hw
    | _ => simp at h
  | _ => simp at h

theorem returned_step {s s' : Transport p} {e : TransportEvent p} {o : List (TransportEffect C)}
    {c : Nat} {res : Except (CoreError C) C.Response} (hn : next s e = some (s', o))
    (h : TransportEffect.returned c res ∈ o) :
    ∃ call, s.requests.calls[c]? = some call ∧ call.phase.inFlight = true ∧
      s'.requests.calls = s.requests.calls.modify c fun call => ⟨call.req, .returned res⟩ := by
  cases next_case hn with
  | disconnected hc =>
    cases List.mem_singleton.mp h
    exact ⟨_, hc, rfl, by simp [Transport.withRequests, Requests.setPhase]⟩
  | woken hc hw hres =>
    cases List.mem_singleton.mp h
    exact ⟨_, hc, rfl, rfl⟩
  | timedOut hc hm =>
    cases List.mem_singleton.mp h
    exact ⟨_, hc, rfl, by simp [Transport.withRequests, Requests.setPhase]⟩
  | turn hp ht =>
    cases ht with
    | matched hi hl =>
      rw [List.mem_cons] at h
      cases h with
      | inl h => cases h
      | inr h =>
        rw [Option.mem_toList, Option.map_eq_some_iff] at h
        obtain ⟨w, -, hw⟩ := h
        cases hw
    | _ => simp at h
  | _ => simp at h

theorem matched_unique {s s' : Transport p} {e : TransportEvent p} {o : List (TransportEffect C)}
    {c d : Nat} {resp resp' : C.Response} (hn : next s e = some (s', o))
    (h : TransportEffect.matched c resp ∈ o) (h' : TransportEffect.matched d resp' ∈ o) :
    c = d := by
  cases next_case hn with
  | turn hp ht =>
    cases ht with
    | matched hi hl =>
      rename_i slot
      cases hw : s.requests.waiters[slot]? with
      | none => simp [hw] at h
      | some w =>
        simp only [hw, Option.map_some, Option.toList_some, List.mem_cons, List.not_mem_nil,
          or_false, reduceCtorEq, false_or] at h h'
        cases h
        cases h'
        rfl
    | _ => simp at h
  | _ => simp at h

theorem received_unmatched {s s' : Transport p} {e : TransportEvent p}
    {o : List (TransportEffect C)} {resp : C.Response} (hn : next s e = some (s', o))
    (h : TransportEffect.received (.response resp) ∈ o)
    (hl : s.requests.pending.lookup (p.responseId resp) = none) :
    s' = { s with link := s'.link } ∧ o = [.received (.response resp)] := by
  cases next_case hn with
  | turn hp ht =>
    cases ht with
    | unmatched hi hl' =>
      simp only [List.mem_singleton] at h
      cases h
      exact ⟨rfl, rfl⟩
    | matched hi hl' =>
      rename_i resp' slot
      rw [List.mem_cons] at h
      cases h with
      | inl h =>
        cases h
        rw [hl] at hl'
        cases hl'
      | inr h =>
        rw [Option.mem_toList, Option.map_eq_some_iff] at h
        obtain ⟨w, -, hw⟩ := h
        cases hw
    | inert hi =>
      simp only [List.mem_singleton] at h
      cases h
      exact ⟨rfl, rfl⟩
    | _ => simp at h
  | _ => simp at h

variable (p) in
def Requests.Distinct (r : Requests C) : Prop :=
  ∀ (c d : Nat) (call call' : Call C), r.calls[c]? = some call → r.calls[d]? = some call' →
    call.phase.inFlight = true → call'.phase.inFlight = true →
    p.requestId call.req = p.requestId call'.req → c = d

theorem Registered.inFlight_of_stored {pump : PumpPhase C} {r : Requests C}
    (hi : Registered p pump r) {id : String} (h : id ∈ r.pending) :
    ∃ (c : Nat) (call : Call C), r.calls[c]? = some call ∧ call.phase.inFlight = true ∧
      p.requestId call.req = id := by
  obtain ⟨slot, hl⟩ := Option.isSome_iff_exists.mp (AList.lookup_isSome.mpr h)
  obtain ⟨c, -, hslot, hid⟩ := hi.stored hl
  unfold Requests.slotOf at hslot
  unfold Requests.idOf at hid
  obtain ⟨call, hc, hphase⟩ := Option.bind_eq_some_iff.mp hslot
  rw [hc] at hid
  refine ⟨c, call, hc, ?_, Option.some.inj hid⟩
  cases hp : call.phase with
  | returned res => rw [hp] at hphase; cases hphase
  | _ => rfl

/-- Request/response correlation, for every link and so for the stream and the
datagram client: in every run in which the ids in flight are distinct, a call
returns a response only if that has its id and an earlier step received it and
matched it with this call; a step matches at most one call; a response whose id
is not pending changes nothing but the link; and when a call returns, its id is
not pending, nor later until a call with that id is in flight again. -/
theorem request_response_correlation {link : p.link.State} {h : List (TransportStep p)}
    {s : Transport p} (hr : TransportRun p link h s)
    (hd : ∀ i t, At h i t → t.pre.requests.Distinct p) :
    (∀ i t c resp, At h i t → TransportEffect.returned c (.ok resp) ∈ t.out →
      t.pre.requests.idOf p c = some (p.responseId resp) ∧
      ∃ j u, j < i ∧ At h j u ∧ TransportEffect.received (.response resp) ∈ u.out ∧
        TransportEffect.matched c resp ∈ u.out) ∧
    (∀ j u c d resp resp', At h j u → TransportEffect.matched c resp ∈ u.out →
      TransportEffect.matched d resp' ∈ u.out → c = d) ∧
    (∀ i t resp, At h i t → TransportEffect.received (.response resp) ∈ t.out →
      p.responseId resp ∉ t.pre.requests.pending →
      t.post = { t.pre with link := t.post.link } ∧ t.out = [.received (.response resp)]) ∧
    (∀ i t c res id, At h i t → TransportEffect.returned c res ∈ t.out →
      t.pre.requests.idOf p c = some id → id ∉ t.post.requests.pending) ∧
    (∀ req res (c : Nat), s.requests.calls[c]? = some ⟨req, .returned res⟩ →
      p.requestId req ∈ s.requests.pending →
      ∃ (d : Nat) (call : Call C), s.requests.calls[d]? = some call ∧ call.phase.inFlight = true ∧
        p.requestId call.req = p.requestId req) := by
  refine ⟨?_, ?_, ?_, ?_, ?_⟩
  · intro i t c resp ht hret
    obtain ⟨hpre, hn⟩ := hr.step ht
    have hi := registered hpre
    obtain ⟨req, retry, slot, d, hc, hw, -⟩ := returned_ok hn hret
    have hslot : t.pre.requests.slotOf c = some slot := slotOf_of_call _ c hc
    obtain ⟨cell, hw'⟩ := hi.current hslot
    rw [hw] at hw'
    cases hw'
    obtain ⟨j, u, hu, hl, hrec, hmatch⟩ := taken_of_filled hpre (Or.inl ⟨c, hw⟩)
    obtain ⟨hji, hu⟩ := hu.of_take
    -- the channel had its owner already when the pump took the sender
    obtain ⟨d, hwu, -, -⟩ := (registered (hr.step hu).1).stored hl
    have hown : t.pre.requests.ownerOf slot = some d := by
      have hu' := hu.take hji
      have hrun := hpre.drop_succ hu'
      refine ownerOf_run hrun ?_
      refine ownerOf_step (hr.next_eq hu) ?_
      rw [Requests.ownerOf, hwu]
      rfl
    rw [Requests.ownerOf, hw] at hown
    cases hown
    exact ⟨hi.filled hw, j, u, hji, hu, hrec, hmatch _ hwu⟩
  · intro j u c d resp resp' hu
    exact matched_unique (hr.next_eq hu)
  · intro i t resp ht hrec hl
    exact received_unmatched (hr.next_eq ht) hrec (AList.lookup_eq_none.mpr hl)
  · intro i t c res id ht hret hid hmem
    have hpost := registered (hr.take_succ ht)
    obtain ⟨d, call', hd', hfl', hid'⟩ := hpost.inFlight_of_stored hmem
    obtain ⟨call, hc, hfl, hcalls⟩ := returned_step (hr.next_eq ht) hret
    -- the id is stored for a call in flight, which is not c any more
    rw [idOf_of_call _ c hc, Option.some.injEq] at hid
    rw [hcalls] at hd'
    by_cases hcd : c = d
    · rw [← hcd, List.getElem?_modify_eq, hc] at hd'
      cases hd'
      cases hfl'
    · rw [List.getElem?_modify_ne _ _ hcd] at hd'
      exact hcd (hd i t ht c d call call' hc hd' hfl hfl' (hid.trans hid'.symm))
  · intro req res c hc hmem
    exact (registered hr).inFlight_of_stored hmem

theorem distinct_of_nodup {r : Requests C}
    (hn : (r.calls.map fun call => p.requestId call.req).Nodup) : r.Distinct p := by
  intro c d call call' hc hd _ _ he
  have hc' : (r.calls.map fun call => p.requestId call.req)[c]? = some (p.requestId call.req) := by
    rw [List.getElem?_map, hc]
    rfl
  have hd' : (r.calls.map fun call => p.requestId call.req)[d]? = some (p.requestId call.req) := by
    rw [List.getElem?_map, hd, he]
    rfl
  exact (List.getElem?_inj (List.getElem?_eq_some_iff.mp hc').1 hn).mp (hc'.trans hd'.symm)

end Obfs.Client

namespace Obfs.Symbolic
open Client Trace

/- A request is sent again after its deadline and then answered, while a second
call is on its way. -/
def resentRequest : List (TransportEvent udpClient) :=
  [.request 5, .call 0 .insert, .call 0 .send, .pump (.turn false none ((), .ok ())),
    .request 6, .call 1 .insert, .call 0 .expire, .call 0 .remove, .call 0 .insert, .call 0 .send,
    .pump (.turn true (some (.ok (data (keyOf 2) 0 (.response 5)))) ((), .ok ())),
    .pump .deliver, .call 0 .wake]

def answers (t : TransportStep udpClient) : List (Nat × UInt8) :=
  t.out.filterMap fun
    | .returned c (.ok resp) => some (c, resp)
    | _ => none

theorem request_response_correlation_retransmitted :
    ∃ h s, TransportRun udpClient clientChannel h s ∧
      (∀ i t, At h i t → t.pre.requests.Distinct udpClient) ∧
      ∃ i t, At h i t ∧ TransportEffect.returned 0 (.ok (5 : UInt8)) ∈ t.out ∧
        ∃ j u, j < i ∧ At h j u ∧ TransportEffect.received (.response (5 : UInt8)) ∈ u.out := by
  have hx : ∃ h s, TransportRun udpClient clientChannel h s ∧
      h.map Step.event = resentRequest ∧
      (h.map answers = List.replicate 12 [] ++ [[(0, 5)]] ∧
        ∀ t ∈ h, (t.pre.requests.calls.map fun call => idText call.req).Nodup) :=
    Run.of_exec (fun h _ => h.map answers = List.replicate 12 [] ++ [[(0, 5)]] ∧
      ∀ t ∈ h, (t.pre.requests.calls.map fun call => idText call.req).Nodup) (by decide +kernel)
  obtain ⟨h, s, hr, -, ha, hn⟩ := hx
  have hd : ∀ i t, At h i t → t.pre.requests.Distinct udpClient :=
    fun i t ht => distinct_of_nodup (hn t ht.mem)
  obtain ⟨t, ht, hout⟩ := at_map ha (j := 12) rfl
  have hret : TransportEffect.returned 0 (.ok (5 : UInt8)) ∈ t.out := by
    have hm : ((0, 5) : Nat × UInt8) ∈ answers t := by rw [hout]; exact List.mem_singleton.mpr rfl
    obtain ⟨e, he, hf⟩ := List.mem_filterMap.mp hm
    cases e with
    | returned c res =>
      cases res with
      | ok resp => cases hf; exact he
      | error err => cases hf
    | _ => cases hf
  obtain ⟨j, u, hj, hu, hrec, -⟩ :=
    ((request_response_correlation hr hd).1 12 t 0 5 ht hret).2
  exact ⟨h, s, hr, hd, 12, t, ht, hret, j, u, hj, hu, hrec⟩

end Obfs.Symbolic

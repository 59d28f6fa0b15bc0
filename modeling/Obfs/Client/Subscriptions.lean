import Obfs.Client.Calls
import Obfs.Client.Events
import Obfs.Client.LinkOps
import Obfs.Forwarding

/-! What the subscribe calls of a client hand to the pump, and where the events
that its streams read come from. -/
namespace Obfs.Client
open Async Broadcast Trace
variable {C : Core} {p : Params C} {s s' : Transport p} {e : TransportEvent p}
  {o : List (TransportEffect C)}

theorem topic_kept (hn : next s e = some (s', o)) {m : Nat} {sub : Subscription C}
    (hm : s.subscriptions[m]? = some sub) :
    ∃ sub', s'.subscriptions[m]? = some sub' ∧ sub'.topic = sub.topic := by
  cases subscription_step m hn with
  | same hy hs => exact ⟨sub, hs.trans hm, rfl⟩
  | created topic hy h0 hs => cases h0.symm.trans hm
  | attached topic hy h0 hs =>
    cases h0.symm.trans hm
    exact ⟨_, hs, rfl⟩
  | read topic rx ev hy h0 hg hs =>
    cases h0.symm.trans hm
    exact ⟨_, hs, rfl⟩
  | lagged topic rx rx' missed hy ho h0 hs =>
    cases h0.symm.trans hm
    exact ⟨_, hs, rfl⟩

/-- An envelope that subscribes to the topic is one of subscription m's: it has
no filter, and the capability given at connect time. -/
def SubscribesAs (s : Transport p) (origin : Origin) (topic : C.Topic) (filter : Option C.Json)
    (capability : Option C.Capability) : Prop :=
  filter = none ∧ capability = p.capability ∧
    ∃ m sub, origin = .subscribe m ∧ s.subscriptions[m]? = some sub ∧ sub.topic = topic

theorem SubscribesAs.step {origin : Origin} {topic : C.Topic} {filter : Option C.Json}
    {capability : Option C.Capability} (h : SubscribesAs s origin topic filter capability)
    (hn : next s e = some (s', o)) : SubscribesAs s' origin topic filter capability := by
  obtain ⟨hf, hc, m, sub, ho, hm, ht⟩ := h
  obtain ⟨sub', hm', ht'⟩ := topic_kept hn hm
  exact ⟨hf, hc, m, sub', ho, hm', ht'.trans ht⟩

variable {link : p.link.State} {h : List (TransportStep p)}

theorem queued_subscribe (hr : TransportRun p link h s) :
    ∀ q ∈ s.outbound, ∀ topic filter capability, q.env = .subscribe topic filter capability →
      SubscribesAs s q.origin topic filter capability := by
  refine hr.invariant (I := fun s => ∀ q ∈ s.outbound, ∀ topic filter capability,
    q.env = .subscribe topic filter capability →
      SubscribesAs s q.origin topic filter capability) nofun ?_
  intro s e s' o ih hn
  have hkeep : ∀ q ∈ s.outbound, ∀ topic filter capability,
      q.env = .subscribe topic filter capability →
        SubscribesAs s' q.origin topic filter capability :=
    fun q hq topic filter capability he => (ih q hq topic filter capability he).step hn
  cases next_case hn with
  | sent hc hr =>
    intro q hq topic filter capability he
    rcases List.mem_append.mp hq with hq | hq
    · exact hkeep q hq topic filter capability he
    · cases List.mem_singleton.mp hq
      cases he
  | @subscribed topic' hr =>
    intro q hq topic filter capability he
    rcases List.mem_append.mp hq with hq | hq
    · exact hkeep q hq topic filter capability he
    · cases List.mem_singleton.mp hq
      cases he
      exact ⟨rfl, rfl, s.subscriptions.length, ⟨topic', none⟩, rfl, List.getElem?_concat_length,
        rfl⟩
  | turn hp ht =>
    cases ht with
    | took hq ha =>
      intro q hmem
      exact hkeep q (by rw [hq]; exact List.mem_cons_of_mem _ hmem)
    | _ => exact hkeep
  | _ => exact hkeep

theorem subscribesAs_run {s₀ : Transport p} (hr : Run (next (p := p)) s₀ h s) {origin : Origin}
    {topic : C.Topic} {filter : Option C.Json} {capability : Option C.Capability}
    (h0 : SubscribesAs s₀ origin topic filter capability) :
    SubscribesAs s origin topic filter capability :=
  hr.invariant (I := fun s => SubscribesAs s origin topic filter capability) h0
    fun _ _ _ _ hs hn => hs.step hn

theorem took_subscribe (hr : TransportRun p link h s) {i : Nat} {t : TransportStep p}
    (ht : At h i t) {origin : Origin} {topic : C.Topic} {filter : Option C.Json}
    {capability : Option C.Capability}
    (hm : TransportEffect.took origin (.subscribe topic filter capability) ∈ t.out) :
    SubscribesAs s origin topic filter capability := by
  obtain ⟨hpre, hn⟩ := hr.step ht
  have hq := queued_subscribe hpre _ (took_head hn hm) topic filter capability rfl
  exact subscribesAs_run (hr.drop_succ ht) (hq.step hn)

theorem broadcast_received (hn : next s e = some (s', o)) {ev : Event C}
    (hm : TransportEffect.broadcast ev ∈ o) : TransportEffect.received (.event ev) ∈ o := by
  cases next_case hn with
  | turn hp ht =>
    cases ht with
    | broadcast hi =>
      simp only [List.mem_cons, reduceCtorEq, TransportEffect.broadcast.injEq, List.not_mem_nil,
        or_false, false_or] at hm
      subst hm
      exact List.mem_cons_self
    | _ => simp at hm
  | _ => simp at hm

theorem yielded_received (hr : TransportRun p link h s) (hn : next s e = some (s', o)) {n : Nat}
    {ev : Event C} (hy : TransportEffect.yielded n ev ∈ o) :
    ∃ i t, At h i t ∧ TransportEffect.received (.event ev) ∈ t.out := by
  have hmem : ev ∈ yields n (⟨s, e, o, s'⟩ : TransportStep p) :=
    List.mem_filterMap.mpr ⟨_, hy, by simp⟩
  have hlog : ev ∈ s.events.log := by
    cases subscription_step n hn with
    | read topic rx ev' hyes h0 hg hs =>
      rw [hyes, List.mem_singleton] at hmem
      subst hmem
      exact List.mem_of_getElem? hg
    | same hyes _ | created _ hyes _ _ | attached _ hyes _ _ | lagged _ _ _ _ hyes _ _ _ =>
      rw [hyes] at hmem
      cases hmem
  rw [(log_run hr rfl).2] at hlog
  obtain ⟨i, t, ht, hb⟩ := mem_gather.mp (show ev ∈ gather broadcasts h from hlog)
  exact ⟨i, t, ht, broadcast_received (hr.next_eq ht) (mem_broadcasts.mp hb)⟩

def Transport.place (n : Nat) (s : Transport p) : Option (Unit × Nat) :=
  (s.subscriptions[n]?).bind fun sub => sub.receiver.map fun rx => ((), rx.next)

variable (p) in
/-- Stream n as a receiver of the event channel. -/
def streamReader (n : Nat) :
    Reader (Transport p) (TransportEvent p) (TransportEffect C) Unit (Event C) where
  place := Transport.place n
  channel s _ := s.events
  reads t := (t.pre.place n).elim [] fun x => (yields n t).map fun _ => x.2

theorem place_some {n : Nat} {topic : C.Topic} {rx : Receiver}
    (hs : s.subscriptions[n]? = some ⟨topic, some rx⟩) : s.place n = some ((), rx.next) := by
  rw [Transport.place, hs]
  rfl

theorem place_none {n : Nat} (hs : ∀ topic rx, s.subscriptions[n]? ≠ some ⟨topic, some rx⟩) :
    s.place n = none := by
  unfold Transport.place
  cases hn : s.subscriptions[n]? with
  | none => rfl
  | some sub =>
    obtain ⟨topic, rx⟩ := sub
    cases rx with
    | none => rfl
    | some rx => exact absurd hn (hs topic rx)

theorem reads_of_nil {n : Nat} {t : TransportStep p} (hy : yields n t = []) :
    (streamReader p n).reads t = [] := by
  simp only [streamReader, hy, List.map_nil]
  cases t.pre.place n <;> rfl

theorem stream_moves (n : Nat) (hn : next s e = some (s', o)) :
    (streamReader p n).Moves ⟨s, e, o, s'⟩ := by
  cases subscription_step n hn with
  | same hy hs =>
    refine .stays (reads_of_nil hy) ?_
    show s'.place n = s.place n
    rw [Transport.place, Transport.place, show s'.subscriptions[n]? = s.subscriptions[n]? from hs]
  | created topic hy h0 hs =>
    refine .stays (reads_of_nil hy) ?_
    show s'.place n = s.place n
    have hpost : s'.place n = none := place_none fun topic rx hc => by cases hs.symm.trans hc
    have hpre : s.place n = none := place_none fun topic rx hc => by cases h0.symm.trans hc
    rw [hpost, hpre]
  | attached topic hy h0 hs =>
    exact .subscribes () (reads_of_nil hy)
      (place_none fun topic rx hc => by cases h0.symm.trans hc) (place_some hs)
  | read topic rx ev hy h0 hg hs =>
    refine .takes () rx.next ?_ (place_some h0) (List.getElem?_eq_some_iff.mp hg).1 (place_some hs)
    simp only [streamReader, place_some h0, hy, Option.elim_some, List.map_cons, List.map_nil]
  | lagged topic rx rx' missed hy ho h0 hs =>
    have hlag : rx.next < rx'.next ∧ rx'.next + s.events.capacity = s.events.log.length := by
      cases next_case hn with
      | @lagged m missed topic rx₁ rx₂ hm hv =>
        obtain ⟨rfl, -⟩ := TransportEffect.lagged.inj (List.mem_singleton.mp ho)
        cases hm.symm.trans h0
        have hset : (s.subscriptions.set n ⟨topic, some rx₂⟩)[n]? = some ⟨topic, some rx₂⟩ :=
          List.getElem?_set_self (List.getElem?_eq_some_iff.mp hm).1
        cases hset.symm.trans hs
        unfold Channel.recv at hv
        split at hv
        · rename_i hgt
          cases hv
          have hlen : s.eventChannel.log = s.events.log := rfl
          have hcap : s.eventChannel.capacity = s.events.capacity := rfl
          rw [hlen, hcap] at hgt
          dsimp only
          rw [hlen, hcap]
          omega
        · split at hv
          · cases hv
          · split at hv <;> cases hv
      | turn hp ht => cases ht <;> simp at ho
      | _ => simp at ho
    exact .skips () _ _ (reads_of_nil hy) (place_some h0) hlag.1 hlag.2 (place_some hs)

theorem events_grow (hn : next s e = some (s', o)) : s.events.log <+: s'.events.log := by
  cases next_case hn with
  | turn hp ht =>
    cases ht with
    | broadcast hi => exact Channel.log_send _ _
    | _ => exact List.prefix_refl _
  | _ => exact List.prefix_refl _

theorem stream_lawful (n : Nat) : (streamReader p n).Lawful (next (p := p)) :=
  ⟨fun hn => stream_moves n hn, fun hn _ => events_grow hn⟩

theorem yields_reads (n : Nat) (hn : next s e = some (s', o)) :
    yields n ⟨s, e, o, s'⟩ =
      ((streamReader p n).reads ⟨s, e, o, s'⟩).filterMap (s.events.log[·]?) := by
  cases subscription_step n hn with
  | read topic rx ev hy h0 hg hs =>
    simp only [streamReader, place_some h0, hy, Option.elim_some, List.map_cons, List.map_nil]
    simp [show s.events.log[rx.next]? = some ev from hg]
  | same hy _ | created _ hy _ _ | attached _ hy _ _ | lagged _ _ _ _ hy _ _ _ =>
    rw [hy, reads_of_nil hy]
    rfl

theorem yields_run (hr : TransportRun p link h s) (n : Nat) :
    gather (yields n) h = (gather (streamReader p n).reads h).filterMap (s.events.log[·]?) := by
  induction hr with
  | nil => rfl
  | @snoc h s s' e o hr hn ih =>
    obtain ⟨l, hl⟩ := events_grow hn
    -- the events read so far stay where they are
    have hold : ∀ m ∈ gather (streamReader p n).reads (h ++ [⟨s, e, o, s'⟩]),
        s.events.log[m]? = s'.events.log[m]? := by
      intro m hm
      have hlt : m < s.events.log.length := by
        rw [gather_snoc, List.mem_append] at hm
        cases hm with
        | inl hm =>
          obtain ⟨_, k, -, hmk, hk⟩ := (stream_lawful n).reads_lt hr rfl hm
          exact Nat.lt_of_lt_of_le hmk hk
        | inr hm => exact ((stream_moves n hn).reads_lt hm).elim fun _ hk => hk.2
      rw [← hl, List.getElem?_append_left hlt]
    rw [gather_snoc, ih, yields_reads n hn, ← List.filterMap_append, ← gather_snoc]
    exact List.filterMap_congr hold

theorem yields_sublist (hr : TransportRun p link h s) (n : Nat) :
    (gather (yields n) h).Sublist (gather broadcasts h) := by
  have hlog : s.events.log = gather broadcasts h := (log_run hr rfl).2
  obtain ⟨hnone, hsome⟩ := (stream_lawful n).run hr rfl
  rw [yields_run hr n]
  cases hp : (streamReader p n).place s with
  | none =>
    rw [(hnone hp).1]
    exact List.nil_sublist _
  | some x =>
    obtain ⟨start, hx⟩ := hsome x.1 x.2 hp
    rw [← hlog]
    exact hx.values.trans (List.drop_sublist _ _)

theorem broadcasts_sublist (hn : next s e = some (s', o)) :
    (broadcasts ⟨s, e, o, s'⟩).Sublist ((receivedFrom o).filterMap Envelope.event?) := by
  have hnone {o : List (TransportEffect C)}
      (ho : broadcasts (⟨s, e, o, s'⟩ : TransportStep p) = []) :
      (broadcasts (⟨s, e, o, s'⟩ : TransportStep p)).Sublist
        ((receivedFrom o).filterMap Envelope.event?) := by
    rw [ho]
    exact List.nil_sublist _
  cases next_case hn with
  | turn hp ht =>
    cases ht with
    | broadcast hi => exact List.Sublist.refl _
    | @matched _ _ resp slot hi hl =>
      refine hnone ?_
      cases hw : s.requests.waiters[slot]? <;> simp [broadcasts]
    | _ => exact hnone rfl
  | _ => exact hnone rfl

def TransportEffect.yielded? (n : Nat) : TransportEffect C → Option (Event C)
  | .yielded m ev => if m = n then some ev else none
  | _ => none

theorem yields_eq (n : Nat) (t : TransportStep p) :
    yields n t = t.out.filterMap (TransportEffect.yielded? n) := rfl

/-- A stream reads some of the events that the pump receives, in their order. -/
theorem yields_received (hr : TransportRun p link h s) (n : Nat) :
    ((gather Step.out h).filterMap (TransportEffect.yielded? n)).Sublist
      ((receivedFrom (gather Step.out h)).filterMap Envelope.event?) := by
  have hyields : (gather Step.out h).filterMap (TransportEffect.yielded? n) =
      gather (yields n) h := by
    rw [← filterMap_gather]
    exact gather_congr fun t _ => (yields_eq n t).symm
  rw [hyields, receivedFrom, ← filterMap_gather, ← filterMap_gather]
  refine (yields_sublist hr n).trans ?_
  clear hyields
  induction hr with
  | nil => exact List.Sublist.slnil
  | snoc hr hn ih =>
    rw [gather_snoc, gather_snoc]
    exact ih.append (broadcasts_sublist hn)

theorem yields_received_within {σ ε ω : Type*} {g : List (Step σ ε ω)}
    {out : Step σ ε ω → List (TransportEffect C)} (hr : TransportRun p link h s)
    (hout : gather out g = gather Step.out h) (n : Nat) :
    (gather (fun t => (out t).filterMap (TransportEffect.yielded? n)) g).Sublist
      (gather (fun t => (receivedFrom (out t)).filterMap Envelope.event?) g) := by
  have hyield : gather (fun t => (out t).filterMap (TransportEffect.yielded? n)) g =
      (gather out g).filterMap (TransportEffect.yielded? n) := filterMap_gather _
  have hrecv : gather (fun t => (receivedFrom (out t)).filterMap Envelope.event?) g =
      (receivedFrom (gather out g)).filterMap Envelope.event? := by
    rw [receivedFrom, ← filterMap_gather, ← filterMap_gather]
    rfl
  rw [hyield, hrecv, hout]
  exact yields_received hr n

theorem yields_nothing {σ ε ω : Type*} {g : List (Step σ ε ω)}
    {out : Step σ ε ω → List (TransportEffect C)} (hout : gather out g = []) (n : Nat) :
    gather (fun t => (out t).filterMap (TransportEffect.yielded? n)) g = [] := by
  rw [filterMap_gather, hout, List.filterMap_nil]

end Obfs.Client

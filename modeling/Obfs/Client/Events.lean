import Obfs.Client.Links
import Obfs.Lib.Correspondence

/-! What a subscriber receives. The event channel is the list of all events that
the pump has broadcast, and the receiver of a subscription reads on from the end
that this list had when the receiver was made. -/
namespace Obfs.Client
open Async Broadcast Trace
variable {C : Core} {p : Params C}

def broadcasts (t : TransportStep p) : List (Event C) :=
  t.out.filterMap fun
    | .broadcast ev => some ev
    | _ => none

def yields (n : Nat) (t : TransportStep p) : List (Event C) :=
  t.out.filterMap fun
    | .yielded m ev => if m = n then some ev else none
    | _ => none

theorem mem_broadcasts {t : TransportStep p} {ev : Event C} :
    ev ∈ broadcasts t ↔ TransportEffect.broadcast ev ∈ t.out := by
  unfold broadcasts
  rw [List.mem_filterMap]
  constructor
  · intro h
    obtain ⟨x, hx, he⟩ := h
    cases x with
    | broadcast ev' => cases he; exact hx
    | _ => cases he
  · intro h
    exact ⟨_, h, rfl⟩

theorem log_step {s s' : Transport p} {e : TransportEvent p} {o : List (TransportEffect C)}
    (hn : next s e = some (s', o)) (hc : s.events.closed = false) :
    s'.events.closed = false ∧ s'.events.log = s.events.log ++ broadcasts ⟨s, e, o, s'⟩ := by
  cases next_case hn with
  | turn hp ht =>
    cases ht with
    | broadcast hi =>
      dsimp only
      unfold Channel.send
      rw [hc]
      exact ⟨rfl, rfl⟩
    | @matched _ _ resp slot hi hl =>
      refine ⟨hc, ?_⟩
      cases hw : s.requests.waiters[slot]? <;> simp [broadcasts]
    | _ => exact ⟨hc, (List.append_nil _).symm⟩
  | _ => exact ⟨hc, (List.append_nil _).symm⟩

theorem log_run {s₀ s : Transport p} {h : List (TransportStep p)}
    (hr : Run (next (p := p)) s₀ h s) (hc : s₀.events.closed = false) :
    s.events.closed = false ∧ s.events.log = s₀.events.log ++ gather broadcasts h := by
  induction hr with
  | nil => exact ⟨hc, (List.append_nil _).symm⟩
  | snoc hr hn ih =>
    obtain ⟨hc', hl⟩ := log_step hn ih.1
    refine ⟨hc', ?_⟩
    rw [hl, ih.2, gather_snoc, List.append_assoc]

/-- What a step does to subscription n: nothing, its creation, the creation of
its receiver, a read, or a skip of that receiver. -/
inductive SubscriptionStep (n : Nat) (t : TransportStep p) : Prop where
  | same (hy : yields n t = []) (hs : t.post.subscriptions[n]? = t.pre.subscriptions[n]?)
  | created (topic : C.Topic) (hy : yields n t = []) (h0 : t.pre.subscriptions[n]? = none)
      (hs : t.post.subscriptions[n]? = some ⟨topic, none⟩)
  | attached (topic : C.Topic) (hy : yields n t = [])
      (h0 : t.pre.subscriptions[n]? = some ⟨topic, none⟩)
      (hs : t.post.subscriptions[n]? = some ⟨topic, some t.pre.events.subscribe⟩)
  | read (topic : C.Topic) (rx : Receiver) (ev : Event C) (hy : yields n t = [ev])
      (h0 : t.pre.subscriptions[n]? = some ⟨topic, some rx⟩)
      (hg : t.pre.events.log[rx.next]? = some ev)
      (hs : t.post.subscriptions[n]? = some ⟨topic, some ⟨rx.next + 1⟩⟩)
  | lagged (topic : C.Topic) (rx rx' : Receiver) (missed : Nat) (hy : yields n t = [])
      (ho : TransportEffect.lagged n missed ∈ t.out)
      (h0 : t.pre.subscriptions[n]? = some ⟨topic, some rx⟩)
      (hs : t.post.subscriptions[n]? = some ⟨topic, some rx'⟩)

theorem subscription_step {s s' : Transport p} {e : TransportEvent p}
    {o : List (TransportEffect C)} (n : Nat) (hn : next s e = some (s', o)) :
    SubscriptionStep n ⟨s, e, o, s'⟩ := by
  have hlt : ∀ {sub}, s.subscriptions[n]? = some sub → n < s.subscriptions.length :=
    fun h => (List.getElem?_eq_some_iff.mp h).1
  cases next_case hn with
  | @subscribed topic hr =>
    by_cases hnl : n < s.subscriptions.length
    · exact .same rfl (List.getElem?_append_left hnl)
    · have h0 := List.getElem?_eq_none_iff.mpr (Nat.not_lt.mp hnl)
      by_cases hnl : n = s.subscriptions.length
      · refine .created topic rfl h0 ?_
        rw [hnl]
        exact List.getElem?_concat_length
      · refine .same rfl ?_
        dsimp only
        rw [h0, List.getElem?_eq_none_iff, List.length_append, List.length_singleton]
        omega
  | @attached m topic hm =>
    by_cases he : m = n
    · rw [he] at hm ⊢
      exact .attached topic rfl hm (List.getElem?_set_self (hlt hm))
    · exact .same rfl (List.getElem?_set_ne he)
  | @yielded m topic rx rx' ev hm hv =>
    by_cases he : m = n
    · rw [he] at hm ⊢
      obtain ⟨hget, rfl⟩ := Channel.recv_ok hv
      exact .read topic rx ev (by simp [yields]) hm hget (List.getElem?_set_self (hlt hm))
    · exact .same (by simp [yields, he]) (List.getElem?_set_ne he)
  | @lagged m missed topic rx rx' hm hv =>
    by_cases he : m = n
    · rw [he] at hm ⊢
      exact .lagged topic rx rx' missed rfl (List.mem_singleton.mpr rfl) hm
        (List.getElem?_set_self (hlt hm))
    · exact .same rfl (List.getElem?_set_ne he)
  | turn hp ht =>
    cases ht with
    | @matched _ _ resp slot hi hl =>
      refine .same ?_ rfl
      cases hw : s.requests.waiters[slot]? <;> simp [yields]
    | _ => exact .same rfl rfl
  | _ => exact .same rfl rfl

/-- From the step that makes it, a receiver that never lags has read or will
read all that is broadcast. -/
theorem attached_run {s₀ s : Transport p} {h : List (TransportStep p)} {n : Nat}
    {topic : C.Topic} {rx : Receiver} (hr : Run (next (p := p)) s₀ h s)
    (hc : s₀.events.closed = false) (hs : s₀.subscriptions[n]? = some ⟨topic, some rx⟩)
    (hrx : rx.next = s₀.events.log.length)
    (hlag : ∀ j t m, At h j t → TransportEffect.lagged n m ∉ t.out) :
    ∃ rx', s.subscriptions[n]? = some ⟨topic, some rx'⟩ ∧ rx'.next ≤ s.events.log.length ∧
      gather (yields n) h ++ s.events.log.drop rx'.next = gather broadcasts h := by
  induction hr with
  | nil => exact ⟨rx, hs, by omega, by rw [hrx, List.drop_length]; rfl⟩
  | @snoc h s s' e o hr hn ih =>
    obtain ⟨rx1, hs1, hle, heq⟩ := ih fun j t m ht => hlag j t m (ht.append _)
    have hlog := (log_step hn (log_run hr hc).1).2
    have hgrow : s.events.log.length ≤ s'.events.log.length := by
      rw [hlog, List.length_append]
      omega
    rw [gather_snoc, gather_snoc, ← heq]
    cases subscription_step n hn with
    | same hy hs' =>
      refine ⟨rx1, hs'.trans hs1, Nat.le_trans hle hgrow, ?_⟩
      rw [hy, hlog, List.append_nil, List.drop_append_of_le_length hle, List.append_assoc]
    | created topic' hy h0 hs' =>
      rw [hs1] at h0
      cases h0
    | attached topic' hy h0 hs' =>
      rw [hs1] at h0
      cases h0
    | read topic' rx2 ev hy h0 hg hs' =>
      rw [hs1] at h0
      cases h0
      obtain ⟨hlt, hev⟩ := List.getElem?_eq_some_iff.mp hg
      refine ⟨_, hs', Nat.le_trans hlt hgrow, ?_⟩
      have hd : s.events.log.drop rx1.next = ev :: s.events.log.drop (rx1.next + 1) := by
        rw [List.drop_eq_getElem_cons hlt, hev]
      rw [hy, hlog, List.drop_append_of_le_length hlt, hd]
      simp
    | lagged topic' rx2 rx3 m hy ho h0 hs' => exact absurd ho (hlag _ _ m (at_last _))

theorem unattached_run {s₀ s : Transport p} {h : List (TransportStep p)} {n : Nat}
    (hr : Run (next (p := p)) s₀ h s)
    (hs : ∀ topic rx, s.subscriptions[n]? ≠ some ⟨topic, some rx⟩) :
    gather (yields n) h = [] := by
  induction hr with
  | nil => rfl
  | snoc hr hn ih =>
    rw [gather_snoc]
    cases subscription_step n hn with
    | same hy hs' =>
      rw [hy, ih fun topic rx h => hs topic rx (hs'.trans h)]
      rfl
    | created topic hy h0 hs' =>
      rw [hy, ih fun topic rx h => by rw [h0] at h; cases h]
      rfl
    | attached topic hy h0 hs' => exact absurd hs' (hs _ _)
    | read topic rx ev hy h0 hg hs' => exact absurd hs' (hs _ _)
    | lagged topic rx rx' m hy ho h0 hs' => exact absurd hs' (hs _ _)

theorem gather_between {h : List (TransportStep p)} {i k : Nat} {u : TransportStep p}
    (hik : i < k) (hu : At h k u) (hb : broadcasts u = []) :
    gather broadcasts (h.drop (i + 1)) =
      gather broadcasts ((h.drop (i + 1)).take (k - (i + 1))) ++
        gather broadcasts (h.drop (k + 1)) := by
  have hsplit : h.drop (i + 1) =
      (h.drop (i + 1)).take (k - (i + 1)) ++ u :: h.drop (k + 1) := by
    have hk : (h.drop (i + 1)).drop (k - (i + 1)) = h.drop k := by
      rw [List.drop_drop]
      congr 1
      omega
    have hd : h.drop k = u :: h.drop (k + 1) := by
      have hlt := hu.lt
      rw [List.drop_eq_getElem_cons hlt,
        Option.some.inj ((List.getElem?_eq_getElem hlt).symm.trans hu)]
    rw [← hd, ← hk, List.take_append_drop]
  conv => lhs; rw [hsplit]
  rw [gather_append]
  simp [gather, hb]

theorem attach_inv {s s' : Transport p} {o : List (TransportEffect C)} {n : Nat}
    (hn : next s (.attach n) = some (s', o)) :
    ∃ topic, s.subscriptions[n]? = some ⟨topic, none⟩ ∧ o = [] ∧ s'.events = s.events ∧
      s'.subscriptions[n]? = some ⟨topic, some s.events.subscribe⟩ := by
  cases next_case hn with
  | attached hm =>
    exact ⟨_, hm, rfl, rfl, List.getElem?_set_self (List.getElem?_eq_some_iff.mp hm).1⟩

theorem took_turn {s s' : Transport p} {e : TransportEvent p} {o : List (TransportEffect C)}
    {origin : Origin} {env : Envelope C} (hn : next s e = some (s', o))
    (h : TransportEffect.took origin env ∈ o) : ∃ e', e = .pump e' := by
  cases next_case hn with
  | turn hp ht => exact ⟨_, rfl⟩
  | _ => simp at h

theorem append_isSuffix_iff {α : Type*} {a b : List α} : a ++ b <:+ b ↔ a = [] := by
  constructor
  · intro h
    have hl := h.length_le
    rw [List.length_append] at hl
    exact List.length_eq_zero_iff.mp (by omega)
  · intro h
    rw [h]
    exact List.suffix_refl b

/-- A subscriber and the events for its topic, for every link and so for both
clients. Let the pump take the Subscribe envelope of call n in step i, the call
make its receiver in step k, and the receiver never lag. All events for the topic
that are broadcast after step i are among those that the receiver has read or
will read, if and only if none was broadcast between the steps i and k. -/
theorem subscriber_misses_nothing_iff {link : p.link.State} {h : List (TransportStep p)}
    {s : Transport p} {n i k : Nat} {t u : TransportStep p} {env : Envelope C} {topic : C.Topic}
    {rx : Receiver} (hr : TransportRun p link h s) (ht : At h i t)
    (htook : TransportEffect.took (.subscribe n) env ∈ t.out) (hu : At h k u)
    (hatt : u.event = .attach n) (hs : s.subscriptions[n]? = some ⟨topic, some rx⟩)
    (hlag : ∀ j v m, At h j v → TransportEffect.lagged n m ∉ v.out) :
    (s.events.log.drop t.post.events.log.length).filter (·.topic = topic) <:+
        (gather (yields n) h ++ s.events.log.drop rx.next).filter (·.topic = topic) ↔
      ∀ j v ev, i < j → j < k → At h j v → TransportEffect.broadcast ev ∈ v.out →
        ev.topic ≠ topic := by
  obtain ⟨hpre, hn⟩ := hr.step hu
  rw [hatt] at hn
  obtain ⟨topic', h0, hout, hev, hs0⟩ := attach_inv hn
  have hc : u.post.events.closed = false := (log_run (hr.take_succ hu) rfl).1
  -- what the receiver has read or will read is what is broadcast after step k
  have hrecv : gather (yields n) h ++ s.events.log.drop rx.next =
      gather broadcasts (h.drop (k + 1)) := by
    obtain ⟨rx', hs', -, heq⟩ := attached_run (hr.drop_succ hu) hc hs0
      (by rw [hev]; rfl) fun j v m hv => hlag (k + 1 + j) v m
        (by rw [At, ← List.getElem?_drop]; exact hv)
    rw [hs] at hs'
    cases hs'
    have hbefore : gather (yields n) (h.take k) = [] :=
      unattached_run hpre fun topic rx h => by rw [h0] at h; cases h
    rw [← heq]
    congr 1
    conv => lhs; rw [hu.split]
    rw [gather_append, hbefore]
    simp [gather, yields, hout]
  -- and what is broadcast after step i is the end of the list of events
  have hsent : s.events.log.drop t.post.events.log.length = gather broadcasts (h.drop (i + 1)) := by
    rw [(log_run (hr.drop_succ ht) (log_run (hr.take_succ ht) rfl).1).2, List.drop_left]
  rw [hrecv, hsent]
  have hne : i ≠ k := by
    intro he
    obtain ⟨e', he'⟩ := took_turn (hr.next_eq ht) htook
    rw [he] at ht
    rw [ht.unique hu, hatt] at he'
    cases he'
  by_cases hik : i < k
  · have hbu : broadcasts u = [] := by simp [broadcasts, hout]
    rw [gather_between hik hu hbu, List.filter_append, append_isSuffix_iff, List.filter_eq_nil_iff]
    constructor
    · intro hno j v ev hij hjk hv hb
      simpa using hno ev (mem_gather_between.mpr ⟨j, v, hij, hjk, hv, mem_broadcasts.mpr hb⟩)
    · intro hno ev hm
      obtain ⟨j, v, hij, hjk, hv, hb⟩ := mem_gather_between.mp hm
      simpa using hno j v ev hij hjk hv (mem_broadcasts.mp hb)
  · refine ⟨fun _ j v ev hij hjk => by omega, fun _ => ?_⟩
    -- the receiver was there before the envelope was taken
    obtain ⟨g, hg⟩ := List.drop_suffix_drop_left h (show k + 1 ≤ i + 1 by omega)
    rw [← hg, gather_append, List.filter_append]
    exact List.suffix_append _ _

/- What is seen of a subscription: the envelopes of its call that a step takes,
and the end of the list of events after it. -/
def taken (t : TransportStep p) : List Origin × Nat :=
  (t.out.filterMap fun
    | .took origin _ => some origin
    | _ => none, t.post.events.log.length)

theorem took_of_taken {t : TransportStep p} {origin : Origin} {k : Nat}
    (h : taken t = ([origin], k)) : ∃ env, TransportEffect.took origin env ∈ t.out := by
  have hm : origin ∈ (taken t).1 := by rw [h]; exact List.mem_singleton.mpr rfl
  obtain ⟨x, hx, he⟩ := List.mem_filterMap.mp hm
  cases x with
  | took origin' env => cases he; exact ⟨env, hx⟩
  | _ => cases he

/-- Call 0 subscribes to topic 3; an event for it is broadcast after the envelope
was taken, and the receiver has read and will read nothing. -/
def MissesEvent {p : Params Symbolic.core} (h : List (TransportStep p)) (s : Transport p) : Prop :=
  ∃ i k t u env rx, At h i t ∧ TransportEffect.took (.subscribe 0) env ∈ t.out ∧ At h k u ∧
    u.event = .attach 0 ∧ s.subscriptions[0]? = some ⟨3, some rx⟩ ∧
    Symbolic.news ∈ s.events.log.drop t.post.events.log.length ∧
    gather (yields 0) h ++ s.events.log.drop rx.next = []

abbrev missesEvent {p : Params Symbolic.core} (h : List (TransportStep p)) (s : Transport p) :
    Prop :=
  h.map taken = [([], 0), ([.subscribe 0], 0), ([], 1), ([], 1)] ∧
    s.events.log = [Symbolic.news] ∧ gather (yields 0) h = [] ∧
    (s.subscriptions[0]?).map (fun sub => (sub.topic, sub.receiver.map Receiver.next)) =
      some (3, some 1)

theorem missesEvent_sound {p : Params Symbolic.core} {h : List (TransportStep p)}
    {s : Transport p} (hm : missesEvent h s) (hatt : (h.map Step.event)[3]? = some (.attach 0)) :
    MissesEvent h s := by
  obtain ⟨hm, hlog, hy, hsub⟩ := hm
  obtain ⟨t, ht, htk⟩ := at_map hm (j := 1) rfl
  obtain ⟨env, henv⟩ := took_of_taken htk
  rw [List.getElem?_map] at hatt
  obtain ⟨u, hu, hatt⟩ := Option.map_eq_some_iff.mp hatt
  obtain ⟨⟨topic, receiver⟩, hsub, hval⟩ := Option.map_eq_some_iff.mp hsub
  cases receiver with
  | none => cases hval
  | some rx =>
    obtain ⟨k⟩ := rx
    cases hval
    have hlen : t.post.events.log.length = 0 := congrArg Prod.snd htk
    refine ⟨1, 3, t, u, env, ⟨1⟩, ht, henv, hu, hatt, hsub, ?_, ?_⟩
    · rw [hlog, hlen]
      exact List.mem_singleton.mpr rfl
    · rw [hy, hlog]
      rfl

/-- Both clients: the pump takes the Subscribe envelope and broadcasts an event
for the topic before the call makes its receiver, which then never sees it. -/
theorem subscriber_misses_event :
    (∃ h s, TransportRun Symbolic.tcpClient () h s ∧ MissesEvent h s) ∧
    ∃ h s, TransportRun Symbolic.udpClient Symbolic.clientChannel h s ∧ MissesEvent h s := by
  have htcp : ∃ h s, TransportRun Symbolic.tcpClient () h s ∧
      h.map Step.event = [.subscribe 3, .pump (.turn false none .ok),
        .pump (.turn false (some (.ok (.event Symbolic.news))) .ok), .attach 0] ∧
      missesEvent h s := Run.of_exec missesEvent (by decide +kernel)
  have hudp : ∃ h s, TransportRun Symbolic.udpClient Symbolic.clientChannel h s ∧
      h.map Step.event = [.subscribe 3, .pump (.turn false none ((), .ok ())),
        .pump (.turn false (some (.ok (Symbolic.data (Symbolic.keyOf 2) 0
          (.event Symbolic.news)))) ((), .ok ())), .attach 0] ∧
      missesEvent h s := Run.of_exec missesEvent (by decide +kernel)
  obtain ⟨h, s, hr, hev, hm⟩ := htcp
  obtain ⟨h', s', hr', hev', hm'⟩ := hudp
  exact ⟨⟨h, s, hr, missesEvent_sound hm (by rw [hev]; rfl)⟩,
    h', s', hr', missesEvent_sound hm' (by rw [hev']; rfl)⟩

abbrev readsEvent (h : List (TransportStep Symbolic.udpClient))
    (s : Transport Symbolic.udpClient) : Prop :=
  h.map taken = [([], 0), ([.subscribe 0], 0), ([], 0), ([], 1), ([], 1)] ∧
    s.events.log = [Symbolic.news] ∧
    (s.subscriptions[0]?).map (fun sub => (sub.topic, sub.receiver.isSome)) = some (3, true) ∧
    ∀ t ∈ h, (t.out.any fun
      | .lagged _ _ => true
      | _ => false) = false

theorem subscriber_misses_nothing_iff_read :
    ∃ h s t rx, TransportRun Symbolic.udpClient Symbolic.clientChannel h s ∧ At h 1 t ∧
      s.subscriptions[0]? = some ⟨3, some rx⟩ ∧ s.events.log = [Symbolic.news] ∧
      (s.events.log.drop t.post.events.log.length).filter (·.topic = (3 : UInt8)) <:+
        (gather (yields 0) h ++ s.events.log.drop rx.next).filter (·.topic = (3 : UInt8)) := by
  have hx : ∃ h s, TransportRun Symbolic.udpClient Symbolic.clientChannel h s ∧
      h.map Step.event = [.subscribe 3, .pump (.turn false none ((), .ok ())), .attach 0,
        .pump (.turn false (some (.ok (Symbolic.data (Symbolic.keyOf 2) 0
          (.event Symbolic.news)))) ((), .ok ())), .poll 0] ∧
      readsEvent h s := Run.of_exec readsEvent (by decide +kernel)
  obtain ⟨h, s, hr, hev, hm, hlog, hsub, hlag⟩ := hx
  obtain ⟨t, ht, htk⟩ := at_map hm (j := 1) rfl
  obtain ⟨env, henv⟩ := took_of_taken htk
  obtain ⟨u, hu, hatt⟩ := at_map hev (j := 2) rfl
  obtain ⟨⟨topic, receiver⟩, hsub, hval⟩ := Option.map_eq_some_iff.mp hsub
  cases receiver with
  | none => cases hval
  | some rx =>
    cases hval
    refine ⟨h, s, t, rx, hr, ht, hsub, hlog, ?_⟩
    refine (subscriber_misses_nothing_iff hr ht henv hu hatt hsub ?_).mpr ?_
    · intro j v m hv hm
      have := List.any_eq_false.mp (hlag v hv.mem) _ hm
      exact this rfl
    · intro j v ev hij hjk
      omega

end Obfs.Client

import Obfs.Forwarder
import Obfs.Lib.Feed

/-! The forwarders of a server over a whole run. Both servers keep a list of
forwarders, spawn new ones at its end and poll them one at a time; what follows
is about any machine that does so. -/
namespace Obfs
open Broadcast Trace
variable {C : Core}

theorem event?_eq_some {env : Envelope C} {ev : Event C} :
    env.event? = some ev ↔ env = .event ev := by
  cases env <;> simp [Envelope.event?]

def Forwarder.reads (f : Forwarder C) (ch : Channel (Event C)) : List Nat :=
  if f.live then
    match ch.recv f.rx with
    | (.ok _, _) => [f.rx.next]
    | _ => []
  else []

def carries (ch : Channel (Event C)) (topic : C.Topic) (n : Nat) : Bool :=
  (ch.log[n]?).any fun ev => ev.topic = topic

inductive Forwarder.Turn (f : Forwarder C) (ch : Channel (Event C)) (alive : Bool) :
    Forwarder C → Option (Event C) → Prop where
  | read (ev : Event C) (f' : Forwarder C) (sent : Option (Event C)) (hr : f.reads ch = [f.rx.next])
      (hev : ch.log[f.rx.next]? = some ev) (hn : f'.rx.next = f.rx.next + 1)
      (hsent : sent = if ev.topic = f.topic ∧ alive = true then some ev else none) :
      Turn f ch alive f' sent
  | lagged (f' : Forwarder C) (hr : f.reads ch = []) (hlt : f.rx.next < f'.rx.next)
      (hn : f'.rx.next + ch.capacity = ch.log.length) : Turn f ch alive f' none
  | closed (f' : Forwarder C) (hr : f.reads ch = []) (hn : f'.rx = f.rx) : Turn f ch alive f' none

theorem Forwarder.poll_turn {f f' : Forwarder C} {ch : Channel (Event C)} {alive : Bool}
    {sent : Option (Event C)} (h : f.poll ch alive = some (f', sent)) :
    f.Turn ch alive f' sent := by
  unfold Forwarder.poll at h
  split at h
  · rename_i hl
    split at h
    · rename_i ev rx hr
      obtain ⟨hev, rfl⟩ := Channel.recv_ok hr
      have hreads : f.reads ch = [f.rx.next] := by
        rw [Forwarder.reads, if_pos hl, hr]
      split at h
      · rename_i ht
        split at h
        · rename_i ha
          cases h
          exact .read ev _ _ hreads hev rfl (by rw [if_pos ⟨ht, ha⟩])
        · rename_i ha
          cases h
          exact .read ev _ _ hreads hev rfl (by rw [if_neg (fun hc => ha hc.2)])
      · rename_i ht
        cases h
        exact .read ev _ _ hreads hev rfl (by rw [if_neg (fun hc => ht hc.1)])
    · rename_i missed rx hr
      cases h
      have hreads : f.reads ch = [] := by
        rw [Forwarder.reads, if_pos hl, hr]
      unfold Channel.recv at hr
      split at hr
      · cases hr
        exact .lagged _ hreads (by dsimp only; omega) (by dsimp only; omega)
      · split at hr
        · cases hr
        · split at hr <;> cases hr
    · rename_i rx hr
      cases h
      have hreads : f.reads ch = [] := by
        rw [Forwarder.reads, if_pos hl, hr]
      refine .closed _ hreads ?_
      unfold Channel.recv at hr
      split at hr
      · cases hr
      · split at hr
        · cases hr
        · split at hr
          · cases hr
            rfl
          · cases hr
    · cases h
  · cases h

structure Forwarding (σ ε : Type) (C : Core) where
  forwarders : σ → List (Forwarder C)
  sources : σ → Nat → Channel (Event C)
  alive : σ → Forwarder C → Bool
  polled : ε → Option Nat

namespace Forwarding
variable {σ ε ω : Type} (F : Forwarding σ ε C)

inductive Case (s : σ) (e : ε) (s' : σ) : Prop where
  | polled (i : Nat) (f f' : Forwarder C) (sent : Option (Event C)) (he : F.polled e = some i)
      (hf : (F.forwarders s)[i]? = some f)
      (hp : f.poll (F.sources s f.source) (F.alive s f) = some (f', sent))
      (hs : F.forwarders s' = (F.forwarders s).set i f') (hc : F.sources s' = F.sources s)
  | spawned (src : Nat) (topic : C.Topic) (tx : Nat) (he : F.polled e = none)
      (hs : F.forwarders s' = F.forwarders s ++ [.spawn src (F.sources s src) topic tx])
      (hc : F.sources s' = F.sources s)
  | idle (he : F.polled e = none) (hs : F.forwarders s' = F.forwarders s)
      (hc : ∀ k, (F.sources s k).log <+: (F.sources s' k).log)

/-- The event that a step sends on, with the forwarder and the position in its source. -/
def sent (t : Step σ ε ω) : List ((Nat × Nat) × Event C) :=
  match F.polled t.event with
  | none => []
  | some i =>
    match (F.forwarders t.pre)[i]? with
    | none => []
    | some f =>
      match f.poll (F.sources t.pre f.source) (F.alive t.pre f) with
      | some (_, some ev) => [((i, f.rx.next), ev)]
      | _ => []

def sentOn (n : Nat) (t : Step σ ε ω) : List ((Nat × Nat) × Event C) :=
  (F.sent t).filter fun x => ((F.forwarders t.pre)[x.1.1]?).any fun f => f.tx == n

def forwards (i : Nat) (t : Step σ ε ω) : List Nat :=
  (F.sent t).filterMap fun x => if x.1.1 = i then some x.1.2 else none

def place (i : Nat) (s : σ) : Option (Nat × Nat) :=
  (F.forwarders s)[i]?.map fun f => (f.source, f.rx.next)

def reader (i : Nat) : Reader σ ε ω Nat (Event C) where
  place := F.place i
  channel := F.sources
  reads t :=
    if F.polled t.event = some i then
      ((F.forwarders t.pre)[i]?).elim [] fun f => f.reads (F.sources t.pre f.source)
    else []

variable {F} {s s' : σ} {e : ε} {o : List ω} {i : Nat}

theorem reads_polled {t : Step σ ε ω} {f : Forwarder C} (he : F.polled t.event = some i)
    (hf : (F.forwarders t.pre)[i]? = some f) :
    (F.reader i).reads t = f.reads (F.sources t.pre f.source) := by
  simp only [reader, he, if_true, hf, Option.elim_some]

theorem reads_other {t : Step σ ε ω} (he : F.polled t.event ≠ some i) :
    (F.reader i).reads t = [] := if_neg he

theorem Case.kept (hc : F.Case s e s') {f : Forwarder C} (hf : (F.forwarders s)[i]? = some f) :
    ∃ f', (F.forwarders s')[i]? = some f' ∧ f'.source = f.source ∧ f'.topic = f.topic ∧
      f'.tx = f.tx := by
  cases hc with
  | polled j g g' sent he hg hp hs hsrc =>
    obtain ⟨-, hsource, htopic, htx, -⟩ := Forwarder.poll_spec hp
    rw [hs, List.getElem?_set]
    split
    · rename_i hji
      subst hji
      cases hg.symm.trans hf
      rw [if_pos (List.getElem?_eq_some_iff.mp hf).1]
      exact ⟨g', rfl, hsource, htopic, htx⟩
    · exact ⟨f, hf, rfl, rfl, rfl⟩
  | spawned src topic tx he hs hsrc =>
    rw [hs, List.getElem?_append_left (List.getElem?_eq_some_iff.mp hf).1]
    exact ⟨f, hf, rfl, rfl, rfl⟩
  | idle he hs hsrc =>
    rw [hs]
    exact ⟨f, hf, rfl, rfl, rfl⟩

theorem Case.grows (hc : F.Case s e s') (k : Nat) :
    (F.sources s k).log <+: (F.sources s' k).log := by
  cases hc with
  | polled j g g' sent he hg hp hs hsrc => exact hsrc ▸ List.prefix_refl _
  | spawned src topic tx he hs hsrc => exact hsrc ▸ List.prefix_refl _
  | idle he hs hsrc => exact hsrc k

theorem Case.log_kept (hc : F.Case s e s') {k n : Nat} {ev : Event C}
    (hlog : (F.sources s k).log[n]? = some ev) : (F.sources s' k).log[n]? = some ev := by
  obtain ⟨l, hl⟩ := hc.grows k
  rw [← hl, List.getElem?_append_left (List.getElem?_eq_some_iff.mp hlog).1]
  exact hlog

theorem Case.carries_kept (hc : F.Case s e s') {k n : Nat} (topic : C.Topic)
    (hlt : n < (F.sources s k).log.length) :
    carries (F.sources s' k) topic n = carries (F.sources s k) topic n := by
  have hlog : (F.sources s k).log[n]? = some (F.sources s k).log[n] := List.getElem?_eq_getElem hlt
  rw [carries, carries, hlog, hc.log_kept hlog]

theorem place_congr (hs : (F.forwarders s')[i]? = (F.forwarders s)[i]?) :
    F.place i s' = F.place i s := by
  rw [place, place, hs]

theorem Case.moves (hc : F.Case s e s') : (F.reader i).Moves ⟨s, e, o, s'⟩ := by
  cases hc with
  | polled j f f' sent he hf hp hs hsrc =>
    by_cases hji : j = i
    · subst hji
      have hread : (F.reader j).reads (⟨s, e, o, s'⟩ : Step σ ε ω) =
        f.reads (F.sources s f.source) := reads_polled he hf
      have hpre : F.place j s = some (f.source, f.rx.next) := by
        rw [place, hf]
        rfl
      obtain ⟨-, hsource, -⟩ := Forwarder.poll_spec hp
      have hpost : F.place j s' = some (f.source, f'.rx.next) := by
        rw [place, hs, List.getElem?_set_self (List.getElem?_eq_some_iff.mp hf).1,
          Option.map_some, hsource]
      cases Forwarder.poll_turn hp with
      | read ev f' sent hr hev hn hsent =>
        rw [hn] at hpost
        exact .takes _ _ (hread.trans hr) hpre (List.getElem?_eq_some_iff.mp hev).1 hpost
      | lagged f' hr hlt hn => exact .skips _ _ _ (hread.trans hr) hpre hlt hn hpost
      | closed f' hr hn =>
        rw [hn] at hpost
        exact .stays (hread.trans hr) (hpost.trans hpre.symm)
    · refine .stays (reads_other ?_) (place_congr ?_)
      · rw [he]
        exact fun hc => hji (Option.some.inj hc)
      · rw [hs, List.getElem?_set_ne hji]
  | spawned src topic tx he hs hsrc =>
    have hread : (F.reader i).reads (⟨s, e, o, s'⟩ : Step σ ε ω) = [] := reads_other (by simp [he])
    by_cases hi : i = (F.forwarders s).length
    · subst hi
      refine .subscribes src hread ?_ ?_
      · show F.place _ s = none
        rw [place, List.getElem?_eq_none (Nat.le_refl _)]
        rfl
      · show F.place _ s' = _
        rw [place, hs, List.getElem?_concat_length]
        rfl
    · refine .stays hread (place_congr ?_)
      rw [hs, List.getElem?_append]
      split
      · rfl
      · rename_i hlt
        have hle : (F.forwarders s).length ≤ i := Nat.le_of_not_lt hlt
        rw [List.getElem?_eq_none (by simp; omega), List.getElem?_eq_none hle]
  | idle he hs hsrc => exact .stays (reads_other (by simp [he])) (place_congr (by rw [hs]))

theorem sent_polled {t : Step σ ε ω} {f f' : Forwarder C} {x : Option (Event C)}
    (he : F.polled t.event = some i) (hf : (F.forwarders t.pre)[i]? = some f)
    (hp : f.poll (F.sources t.pre f.source) (F.alive t.pre f) = some (f', x)) :
    F.sent t = x.toList.map fun ev => ((i, f.rx.next), ev) := by
  simp only [sent, he, hf, hp]
  cases x <;> rfl

theorem sentOn_polled {t : Step σ ε ω} {f f' : Forwarder C} {x : Option (Event C)} (n : Nat)
    (he : F.polled t.event = some i) (hf : (F.forwarders t.pre)[i]? = some f)
    (hp : f.poll (F.sources t.pre f.source) (F.alive t.pre f) = some (f', x)) :
    F.sentOn n t = if f.tx = n then x.toList.map fun ev => ((i, f.rx.next), ev) else [] := by
  rw [sentOn, sent_polled he hf hp]
  cases x with
  | none => simp
  | some ev => by_cases hn : f.tx = n <;> simp [hf, hn]

theorem sentOn_idle {t : Step σ ε ω} (n : Nat) (he : F.polled t.event = none) :
    F.sentOn n t = [] := by
  rw [sentOn, sent, he]
  rfl

theorem forwards_polled {t : Step σ ε ω} {f f' : Forwarder C} {x : Option (Event C)}
    (he : F.polled t.event = some i) (hf : (F.forwarders t.pre)[i]? = some f)
    (hp : f.poll (F.sources t.pre f.source) (F.alive t.pre f) = some (f', x)) :
    F.forwards i t = x.toList.map fun _ => f.rx.next := by
  rw [forwards, sent_polled he hf hp]
  cases x with
  | none => rfl
  | some ev => simp

theorem mem_sent {t : Step σ ε ω} {n : Nat} {ev : Event C} (hx : ((i, n), ev) ∈ F.sent t) :
    F.polled t.event = some i ∧ ∃ f f', (F.forwarders t.pre)[i]? = some f ∧ n = f.rx.next ∧
      f.poll (F.sources t.pre f.source) (F.alive t.pre f) = some (f', some ev) := by
  unfold sent at hx
  split at hx
  · cases hx
  · rename_i j he
    split at hx
    · cases hx
    · rename_i f hf
      split at hx
      · rename_i f' ev' hp
        cases List.mem_singleton.mp hx
        exact ⟨he, f, f', hf, rfl, hp⟩
      · cases hx

theorem forwards_other {t : Step σ ε ω} (he : F.polled t.event ≠ some i) :
    F.forwards i t = [] := by
  rw [forwards, List.filterMap_eq_nil_iff]
  intro x hx
  obtain ⟨⟨j, n⟩, ev⟩ := x
  have hj := (mem_sent hx).1
  rw [if_neg]
  intro hji
  exact he (hji ▸ hj)

/-- What is sent on has been read, is of the forwarder's topic, and finds a receiver. -/
theorem sent_read {t : Step σ ε ω} {n : Nat} {ev : Event C} (hx : ((i, n), ev) ∈ F.sent t) :
    ∃ f, (F.forwarders t.pre)[i]? = some f ∧ n = f.rx.next ∧ ev.topic = f.topic ∧
      F.alive t.pre f = true ∧ (F.sources t.pre f.source).log[n]? = some ev ∧
      (F.reader i).reads t = [n] := by
  obtain ⟨he, f, f', hf, rfl, hp⟩ := mem_sent hx
  have hread := reads_polled he hf
  cases Forwarder.poll_turn hp with
  | read ev' f' _ hr hev hn hsent =>
    split at hsent
    · rename_i hcond
      cases hsent
      exact ⟨f, hf, rfl, hcond.1, hcond.2, hev, hread.trans hr⟩
    · cases hsent

theorem Case.polled_ne (hc : F.Case s e s') (hf : (F.forwarders s)[i]? = none) :
    F.polled e ≠ some i := by
  intro he
  cases hc with
  | polled j g g' sent he' hg hp hs hsrc =>
    cases he.symm.trans he'
    cases hf.symm.trans hg
  | spawned src topic tx he' hs hsrc => cases he.symm.trans he'
  | idle he' hs hsrc => cases he.symm.trans he'

theorem Case.forwards_eq (hc : F.Case s e s') {f : Forwarder C}
    (hf : (F.forwarders s)[i]? = some f) (ha : F.alive s f = true) :
    F.forwards i ⟨s, e, o, s'⟩ = ((F.reader i).reads (⟨s, e, o, s'⟩ : Step σ ε ω)).filter
      (carries (F.sources s' f.source) f.topic) := by
  by_cases hpoll : F.polled e = some i
  · cases hc with
    | polled j g g' x he hg hp hs hsrc =>
      cases hpoll.symm.trans he
      cases hf.symm.trans hg
      rw [forwards_polled hpoll hf hp, reads_polled hpoll hf, hsrc]
      cases Forwarder.poll_turn hp with
      | read ev g' x hr hev hn hsent =>
        rw [hr, hsent, ha]
        by_cases ht : ev.topic = f.topic <;> simp [carries, hev, ht]
      | lagged g' hr hlt hn =>
        rw [hr]
        rfl
      | closed g' hr hn =>
        rw [hr]
        rfl
    | spawned src topic tx he hs hsrc => cases hpoll.symm.trans he
    | idle he hs hsrc => cases hpoll.symm.trans he
  · rw [forwards_other hpoll, reads_other hpoll]
    rfl

variable {next : σ → ε → Option (σ × List ω)} {s₀ : σ} {h : List (Step σ ε ω)}

theorem lawful (hcase : ∀ {s e s' o}, next s e = some (s', o) → F.Case s e s') (i : Nat) :
    (F.reader i).Lawful next :=
  ⟨fun hn => (hcase hn).moves, fun hn k => (hcase hn).grows k⟩

section Runs
variable (hcase : ∀ {s e s' o}, next s e = some (s', o) → F.Case s e s')
  (h0 : F.forwarders s₀ = [])
include hcase h0

theorem exact (hr : Run next s₀ h s) {f : Forwarder C} (hf : (F.forwarders s)[i]? = some f) :
    ∃ start, (F.reader i).Exact h s f.source start f.rx.next := by
  refine ((lawful hcase i).run hr ?_).2 f.source f.rx.next ?_
  · show F.place i s₀ = none
    rw [place, h0]
    rfl
  · show F.place i s = _
    rw [place, hf]
    rfl

theorem reads_none (hr : Run next s₀ h s) (hf : (F.forwarders s)[i]? = none) :
    gather (F.reader i).reads h = [] := by
  refine (((lawful hcase i).run hr ?_).1 ?_).1
  · show F.place i s₀ = none
    rw [place, h0]
    rfl
  · show F.place i s = none
    rw [place, hf]
    rfl

omit h0 in
theorem sent_gather (hr : Run next s₀ h s) {n : Nat} {ev : Event C}
    (hx : ((i, n), ev) ∈ gather F.sent h) :
    n ∈ gather (F.reader i).reads h ∧ ∃ f, (F.forwarders s)[i]? = some f ∧
      ev.topic = f.topic ∧ (F.sources s f.source).log[n]? = some ev := by
  induction hr with
  | nil => cases hx
  | @snoc h s s' e o hr hn ih =>
    rw [gather_snoc, List.mem_append] at hx ⊢
    have hcarry {f : Forwarder C} (hf : (F.forwarders s)[i]? = some f) (ht : ev.topic = f.topic)
        (hlog : (F.sources s f.source).log[n]? = some ev) : ∃ f, (F.forwarders s')[i]? = some f ∧
          ev.topic = f.topic ∧ (F.sources s' f.source).log[n]? = some ev := by
      obtain ⟨f', hf', hsource, htopic, -⟩ := (hcase hn).kept hf
      refine ⟨f', hf', ht.trans htopic.symm, ?_⟩
      rw [hsource]
      exact (hcase hn).log_kept hlog
    cases hx with
    | inl hx =>
      obtain ⟨hread, f, hf, ht, hlog⟩ := ih hx
      exact ⟨Or.inl hread, hcarry hf ht hlog⟩
    | inr hx =>
      obtain ⟨f, hf, -, ht, -, hlog, hread⟩ := sent_read hx
      refine ⟨Or.inr ?_, hcarry hf ht hlog⟩
      rw [hread]
      exact List.mem_singleton_self n

/-- Each forwarder sends on in the order of its source, and nothing twice. -/
theorem sent_sorted (hr : Run next s₀ h s) :
    (gather F.sent h).Pairwise fun x y => x.1.1 = y.1.1 → x.1.2 < y.1.2 := by
  induction hr with
  | nil => exact List.Pairwise.nil
  | @snoc h s s' e o hr hn ih =>
    rw [gather_snoc, List.pairwise_append]
    refine ⟨ih, ?_, ?_⟩
    · unfold sent
      split
      · exact List.Pairwise.nil
      · split
        · exact List.Pairwise.nil
        · split
          · exact List.pairwise_singleton _ _
          · exact List.Pairwise.nil
    · intro x hx y hy hxy
      obtain ⟨⟨i, n⟩, ev⟩ := x
      obtain ⟨⟨j, m⟩, ev'⟩ := y
      obtain rfl : i = j := hxy
      obtain ⟨f, hf, rfl, -⟩ := sent_read hy
      obtain ⟨start, hx'⟩ := exact hcase h0 hr hf
      exact (hx'.lt (sent_gather hcase hr hx).1).2

theorem sent_nodup (hr : Run next s₀ h s) : ((gather F.sent h).map Prod.fst).Nodup := by
  refine List.pairwise_map.mpr ((sent_sorted hcase h0 hr).imp ?_)
  intro x y hlt heq
  have hxy := hlt (by rw [heq])
  rw [heq] at hxy
  exact Nat.lt_irrefl _ hxy

theorem forwards_reads (hr : Run next s₀ h s)
    (halive : ∀ k t, At h k t → ∀ f f', (F.forwarders t.pre)[i]? = some f →
      (F.forwarders t.post)[i]? = some f' → F.alive t.post f' = true → F.alive t.pre f = true) :
    ((F.forwarders s)[i]? = none → gather (F.forwards i) h = []) ∧
      ∀ f, (F.forwarders s)[i]? = some f → F.alive s f = true → gather (F.forwards i) h =
        (gather (F.reader i).reads h).filter (carries (F.sources s f.source) f.topic) := by
  induction hr with
  | nil =>
    refine ⟨fun _ => rfl, ?_⟩
    intro f hf
    rw [h0] at hf
    cases hf
  | @snoc h s s' e o hr hn ih =>
    obtain ⟨hnone, hsome⟩ := ih fun k t ht => halive k t (ht.append _)
    cases hpre : (F.forwarders s)[i]? with
    | none =>
      have hpoll := (hcase hn).polled_ne hpre
      have hf : gather (F.forwards i) (h ++ [⟨s, e, o, s'⟩]) = [] := by
        rw [gather_snoc, hnone hpre, forwards_other hpoll]
        rfl
      refine ⟨fun _ => hf, fun f _ _ => ?_⟩
      rw [hf, gather_snoc, reads_none hcase h0 hr hpre, reads_other hpoll]
      rfl
    | some f =>
      obtain ⟨f', hf', hsource, htopic, -⟩ := (hcase hn).kept hpre
      rw [hf']
      refine ⟨nofun, ?_⟩
      intro g hg ha
      cases hg
      have ha' := halive _ _ (at_last _) f f' hpre hf' ha
      obtain ⟨start, hx⟩ := exact hcase h0 hr hpre
      -- what was read so far keeps its topic
      have hold : (gather (F.reader i).reads h).filter (carries (F.sources s' f.source) f.topic) =
          (gather (F.reader i).reads h).filter (carries (F.sources s f.source) f.topic) := by
        apply List.filter_congr
        intro m hm
        exact (hcase hn).carries_kept _ (Nat.lt_of_lt_of_le (hx.lt hm).2 hx.log)
      rw [gather_snoc, gather_snoc, List.filter_append, hsource, htopic, hold, hsome f hpre ha',
        (hcase hn).forwards_eq hpre ha']

omit h0 in
theorem kept_run {s₁ : σ} (hr : Run next s₁ h s) {f : Forwarder C}
    (hf : (F.forwarders s₁)[i]? = some f) :
    ∃ f', (F.forwarders s)[i]? = some f' ∧ f'.source = f.source ∧ f'.topic = f.topic ∧
      f'.tx = f.tx := by
  refine hr.invariant (I := fun s => ∃ f', (F.forwarders s)[i]? = some f' ∧
    f'.source = f.source ∧ f'.topic = f.topic ∧ f'.tx = f.tx) ⟨f, hf, rfl, rfl, rfl⟩ ?_
  intro s e s' o hi hn
  obtain ⟨g, hg, hsource, htopic, htx⟩ := hi
  obtain ⟨g', hg', hsource', htopic', htx'⟩ := (hcase hn).kept hg
  exact ⟨g', hg', hsource'.trans hsource, htopic'.trans htopic, htx'.trans htx⟩

omit h0 in
theorem sentOn_gather (hr : Run next s₀ h s) {n k : Nat} {ev : Event C}
    (hx : ((i, k), ev) ∈ gather (F.sentOn n) h) : ∃ f, (F.forwarders s)[i]? = some f ∧
      f.tx = n ∧ ev.topic = f.topic ∧ (F.sources s f.source).log[k]? = some ev := by
  obtain ⟨j, t, ht, hx⟩ := mem_gather.mp hx
  obtain ⟨hsent, htx⟩ := List.mem_filter.mp hx
  obtain ⟨-, f, hf, htopic, hlog⟩ :=
    sent_gather hcase hr (mem_gather.mpr ⟨j, t, ht, hsent⟩)
  obtain ⟨g, hg, hn⟩ := (Option.any_eq_true _ _).mp htx
  obtain ⟨g₁, hg₁, -, -, htx₁⟩ := (hcase (hr.next_eq ht)).kept hg
  obtain ⟨g₂, hg₂, -, -, htx₂⟩ := kept_run hcase (hr.drop_succ ht) hg₁
  cases hf.symm.trans hg₂
  exact ⟨f, hf, htx₂.trans (htx₁.trans (beq_iff_eq.mp hn)), htopic, hlog⟩

omit h0 in
theorem skipped_lagged (hr : Run next s₀ h s) {f : Forwarder C}
    (hf : (F.forwarders s)[i]? = some f) {k : Nat} {u : Step σ ε ω} (hu : At h k u) {n : Nat}
    (hn : n ∈ (F.reader i).skipped u) :
    n + (F.sources u.pre f.source).capacity < (F.sources u.pre f.source).log.length := by
  have hc := hcase (hr.next_eq hu)
  obtain ⟨src, m, hplace, -, hlag⟩ := Reader.mem_skipped hc.moves hn
  obtain ⟨g, hg, heq⟩ := Option.map_eq_some_iff.mp hplace
  cases heq
  obtain ⟨g₁, hg₁, hsource₁, -⟩ := hc.kept hg
  obtain ⟨g', hg', hsource, -⟩ := kept_run hcase (hr.drop_succ hu) hg₁
  cases hf.symm.trans hg'
  rw [hsource, hsource₁]
  exact hlag

theorem spawned_at (hr : Run next s₀ h s) {f : Forwarder C}
    (hf : (F.forwarders s)[i]? = some f) : ∃ j t, At h j t ∧ i = (F.forwarders t.pre).length ∧
      F.forwarders t.post = F.forwarders t.pre ++
        [.spawn f.source (F.sources t.pre f.source) f.topic f.tx] ∧
      (F.reader i).Exact h s f.source (F.sources t.pre f.source).log.length f.rx.next := by
  obtain ⟨start, hx⟩ := exact hcase h0 hr hf
  obtain ⟨j, t, ht, hpre, hpost, rfl⟩ := hx.subscribed
  have hnone : (F.forwarders t.pre)[i]? = none := Option.map_eq_none_iff.mp hpre
  obtain ⟨g, hg, -⟩ := Option.map_eq_some_iff.mp hpost
  cases hcase (hr.next_eq ht) with
  | polled k a b x he ha hp hs hsrc =>
    rw [hs, List.getElem?_set] at hg
    split at hg
    · rename_i hki
      subst hki
      cases ha.symm.trans hnone
    · cases hg.symm.trans hnone
  | idle he hs hsrc =>
    rw [hs] at hg
    cases hg.symm.trans hnone
  | spawned src topic tx he hs hsrc =>
    have hle := List.getElem?_eq_none_iff.mp hnone
    have hlt := (List.getElem?_eq_some_iff.mp hg).1
    rw [hs, List.length_append, List.length_singleton] at hlt
    obtain rfl : i = (F.forwarders t.pre).length := by omega
    rw [hs, List.getElem?_concat_length] at hg
    cases hg
    have hg' : (F.forwarders t.post)[(F.forwarders t.pre).length]? =
        some (.spawn src (F.sources t.pre src) topic tx) := by
      rw [hs, List.getElem?_concat_length]
    obtain ⟨f', hf', hsource, htopic, htx⟩ := kept_run hcase (hr.drop_succ ht) hg'
    cases hf.symm.trans hf'
    obtain rfl : f.source = src := hsource
    obtain rfl : f.topic = topic := htopic
    obtain rfl : f.tx = tx := htx
    exact ⟨j, t, ht, rfl, hs, hx⟩

/-- While it finds a receiver, a forwarder sends on, in order and once, every event
of its topic that its source emits after the subscription, but for those it has
skipped when it lagged. -/
theorem forwards_exact (hr : Run next s₀ h s)
    (halive : ∀ k t, At h k t → ∀ f f', (F.forwarders t.pre)[i]? = some f →
      (F.forwarders t.post)[i]? = some f' → F.alive t.post f' = true → F.alive t.pre f = true)
    {f : Forwarder C} {start : Nat}
    (hf : (F.forwarders s)[i]? = some f) (ha : F.alive s f = true)
    (hx : (F.reader i).Exact h s f.source start f.rx.next) :
    gather (F.forwards i) h = (List.range' start (f.rx.next - start)).filter fun n =>
      carries (F.sources s f.source) f.topic n && decide (n ∉ gather (F.reader i).skipped h) := by
  rw [(forwards_reads hcase h0 hr halive).2 f hf ha, hx.reads, List.filter_filter]

end Runs
end Forwarding
end Obfs

import Mathlib.Data.List.Basic
import Mathlib.Order.Basic

/-! Runs of a partial transition function with outputs, recorded step by step.
A history keeps for every step the state before it, the event, the outputs and
the state after it, so that a property of a run can speak about any of them. -/
namespace Trace
variable {σ ε ω : Type*}

structure Step (σ ε ω : Type*) where
  pre : σ
  event : ε
  out : List ω
  post : σ

/-- The history of a run from s₀ and the state it ends in. -/
inductive Run (next : σ → ε → Option (σ × List ω)) (s₀ : σ) : List (Step σ ε ω) → σ → Prop where
  | nil : Run next s₀ [] s₀
  | snoc {h : List (Step σ ε ω)} {s s' : σ} {e : ε} {o : List ω} :
      Run next s₀ h s → next s e = some (s', o) → Run next s₀ (h ++ [⟨s, e, o, s'⟩]) s'

def At (h : List (Step σ ε ω)) (i : Nat) (t : Step σ ε ω) : Prop := h[i]? = some t

variable {next : σ → ε → Option (σ × List ω)} {s₀ s : σ} {h : List (Step σ ε ω)}

theorem At.lt {i : Nat} {t : Step σ ε ω} (ht : At h i t) : i < h.length :=
  (List.getElem?_eq_some_iff.mp ht).1

theorem At.mem {i : Nat} {t : Step σ ε ω} (ht : At h i t) : t ∈ h :=
  List.mem_of_getElem? ht

theorem At.unique {i : Nat} {t u : Step σ ε ω} (ht : At h i t) (hu : At h i u) : t = u :=
  Option.some.inj (ht.symm.trans hu)

theorem At.append {i : Nat} {t : Step σ ε ω} (g : List (Step σ ε ω)) (ht : At h i t) :
    At (h ++ g) i t := by
  rw [At, List.getElem?_append_left ht.lt]
  exact ht

theorem At.take {i j : Nat} {t : Step σ ε ω} (ht : At h i t) (hij : i < j) :
    At (h.take j) i t := by
  rw [At, List.getElem?_take_of_lt hij]
  exact ht

theorem At.of_take {i j : Nat} {t : Step σ ε ω} (ht : At (h.take j) i t) : i < j ∧ At h i t := by
  have hlt := ht.lt
  have hij : i < j := by
    simp only [List.length_take] at hlt
    omega
  rw [At, List.getElem?_take_of_lt hij] at ht
  exact ⟨hij, ht⟩

theorem At.split {i : Nat} {t : Step σ ε ω} (ht : At h i t) :
    h = h.take i ++ t :: h.drop (i + 1) := by
  have hi := ht.lt
  have hg : h[i] = t := Option.some.inj ((List.getElem?_eq_getElem hi).symm.trans ht)
  rw [← hg, ← List.drop_eq_getElem_cons hi, List.take_append_drop]

theorem At.take_succ {i : Nat} {t : Step σ ε ω} (ht : At h i t) :
    h.take (i + 1) = h.take i ++ [t] := by
  have hi := ht.lt
  have hg : h[i] = t := Option.some.inj ((List.getElem?_eq_getElem hi).symm.trans ht)
  rw [List.take_succ_eq_append_getElem hi, hg]

theorem at_snoc {i : Nat} {t u : Step σ ε ω} :
    At (h ++ [u]) i t ↔ At h i t ∨ (i = h.length ∧ t = u) := by
  unfold At
  rcases Nat.lt_trichotomy i h.length with hi | hi | hi
  · rw [List.getElem?_append_left hi]
    constructor
    · exact Or.inl
    · rintro (ht | ⟨hl, -⟩)
      · exact ht
      · omega
  · subst hi
    simp [eq_comm]
  · have hn : h[i]? = none := List.getElem?_eq_none_iff.mpr (by omega)
    rw [List.getElem?_append_right (by omega), hn]
    have hz : [u][i - h.length]? = none := List.getElem?_eq_none_iff.mpr (by simp; omega)
    rw [hz]
    constructor
    · intro hc
      cases hc
    · rintro (hc | ⟨hl, -⟩)
      · cases hc
      · omega

theorem at_last (t : Step σ ε ω) : At (h ++ [t]) h.length t :=
  at_snoc.mpr (Or.inr ⟨rfl, rfl⟩)

theorem Run.induct {I : List (Step σ ε ω) → σ → Prop} (h0 : I [] s₀)
    (hs : ∀ h s e s' o, Run next s₀ h s → I h s → next s e = some (s', o) →
      I (h ++ [⟨s, e, o, s'⟩]) s')
    (hr : Run next s₀ h s) : I h s := by
  induction hr with
  | nil => exact h0
  | snoc hr hn ih => exact hs _ _ _ _ _ hr ih hn

theorem Run.invariant {I : σ → Prop} (h0 : I s₀)
    (hs : ∀ s e s' o, I s → next s e = some (s', o) → I s')
    (hr : Run next s₀ h s) : I s :=
  hr.induct (I := fun _ s => I s) h0 fun _ _ _ _ _ _ hi hn => hs _ _ _ _ hi hn

theorem Run.invariant_of {I : σ → Prop} {C : Step σ ε ω → Prop} (h0 : I s₀)
    (hs : ∀ s e s' o, I s → C ⟨s, e, o, s'⟩ → next s e = some (s', o) → I s')
    (hr : Run next s₀ h s) (hC : ∀ i t, At h i t → C t) : I s := by
  induction hr with
  | nil => exact h0
  | @snoc h s s' e o hr hn ih =>
    have hi := ih fun i t ht => hC i t (ht.append _)
    exact hs _ _ _ _ hi (hC _ _ (at_last _)) hn

/-- What the state of a run holds was granted by one of its steps, when nothing
is held at first and no step adds more than it grants. -/
theorem Run.granted {ρ : Type*} (hr : Run next s₀ h s) (holds : σ → ρ → Prop)
    (grants : Step σ ε ω → ρ → Prop) (h0 : ∀ r, ¬ holds s₀ r)
    (hs : ∀ s e s' o r, next s e = some (s', o) → holds s' r →
      holds s r ∨ grants ⟨s, e, o, s'⟩ r)
    {r : ρ} (hold : holds s r) : ∃ i t, At h i t ∧ grants t r := by
  induction hr with
  | nil => exact absurd hold (h0 r)
  | @snoc h s s' e o hr hn ih =>
    rcases hs s e s' o r hn hold with hold | hg
    · obtain ⟨i, t, ht, hg⟩ := ih hold
      exact ⟨i, t, ht.append _, hg⟩
    · exact ⟨h.length, _, at_last _, hg⟩

theorem Run.step (hr : Run next s₀ h s) {i : Nat} {t : Step σ ε ω} (ht : At h i t) :
    Run next s₀ (h.take i) t.pre ∧ next t.pre t.event = some (t.post, t.out) := by
  induction hr with
  | nil => cases ht
  | @snoc h s s' e o hr hn ih =>
    rcases at_snoc.mp ht with ht | ⟨rfl, rfl⟩
    · have hl := ht.lt
      obtain ⟨h1, h2⟩ := ih ht
      refine ⟨?_, h2⟩
      rw [List.take_append_of_le_length (by omega)]
      exact h1
    · refine ⟨?_, hn⟩
      rw [List.take_append_of_le_length (Nat.le_refl _), List.take_length]
      exact hr

theorem Run.next_eq (hr : Run next s₀ h s) {i : Nat} {t : Step σ ε ω} (ht : At h i t) :
    next t.pre t.event = some (t.post, t.out) :=
  (hr.step ht).2

theorem Run.next_of_mem (hr : Run next s₀ h s) {t : Step σ ε ω} (ht : t ∈ h) :
    next t.pre t.event = some (t.post, t.out) := by
  obtain ⟨i, hi⟩ := List.mem_iff_getElem?.mp ht
  exact hr.next_eq hi

theorem Run.take_succ (hr : Run next s₀ h s) {i : Nat} {t : Step σ ε ω} (ht : At h i t) :
    Run next s₀ (h.take (i + 1)) t.post := by
  obtain ⟨h1, h2⟩ := hr.step ht
  rw [ht.take_succ]
  exact Run.snoc h1 h2

theorem Run.drop_succ (hr : Run next s₀ h s) {i : Nat} {t : Step σ ε ω} (ht : At h i t) :
    Run next t.post (h.drop (i + 1)) s := by
  induction hr with
  | nil => cases ht
  | @snoc h s s' e o hr hn ih =>
    rcases at_snoc.mp ht with ht | ⟨rfl, rfl⟩
    · have hi := ht.lt
      rw [List.drop_append_of_le_length (by omega)]
      exact (ih ht).snoc hn
    · rw [List.drop_eq_nil_of_le (by simp)]
      exact .nil

def exec (next : σ → ε → Option (σ × List ω)) :
    List ε → List (Step σ ε ω) → σ → Option (List (Step σ ε ω) × σ)
  | [], h, s => some (h, s)
  | e :: es, h, s =>
    match next s e with
    | none => none
    | some (s', o) => exec next es (h ++ [⟨s, e, o, s'⟩]) s'

theorem Run.exec {es : List ε} {h' : List (Step σ ε ω)} {s' : σ} (hr : Run next s₀ h s)
    (he : exec next es h s = some (h', s')) : Run next s₀ h' s' := by
  induction es generalizing h s with
  | nil =>
    cases he
    exact hr
  | cons e es ih =>
    rw [Trace.exec] at he
    split at he
    · cases he
    · rename_i s1 o hn
      exact ih (hr.snoc hn) he

theorem exec_events {es : List ε} {h' : List (Step σ ε ω)} {s' : σ}
    (he : exec next es h s = some (h', s')) :
    h'.map Step.event = h.map Step.event ++ es := by
  induction es generalizing h s with
  | nil =>
    cases he
    simp
  | cons e es ih =>
    rw [Trace.exec] at he
    split at he
    · cases he
    · rw [ih he]
      simp

theorem At.event {es : List ε} (hev : h.map Step.event = es) {i : Nat} {t : Step σ ε ω}
    (ht : At h i t) : es[i]? = some t.event := by
  rw [← hev, List.getElem?_map, ht]
  rfl

theorem at_map {β : Type*} {f : Step σ ε ω → β} {bs : List β} (hm : h.map f = bs) {j : Nat} {b : β}
    (hb : bs[j]? = some b) : ∃ t, At h j t ∧ f t = b := by
  rw [← hm, List.getElem?_map] at hb
  exact Option.map_eq_some_iff.mp hb

/-- A run of given events with a property that can be evaluated. -/
theorem Run.of_exec (P : List (Step σ ε ω) → σ → Prop) [∀ h s, Decidable (P h s)] {es : List ε}
    (he : ((Trace.exec next es [] s₀).any fun r => decide (P r.1 r.2)) = true) :
    ∃ h s, Run next s₀ h s ∧ h.map Step.event = es ∧ P h s := by
  cases hx : Trace.exec next es [] s₀ with
  | none =>
    rw [hx] at he
    cases he
  | some r =>
    rw [hx] at he
    exact ⟨r.1, r.2, Run.nil.exec hx, exec_events hx, of_decide_eq_true he⟩

/-- The last step that wrote a slot. Every step either writes the slot, keeps
it, or empties it; a filled slot was then written by some step, and no step
after that one wrote or emptied it. -/
theorem Run.last_write {β : Type*} (hr : Run next s₀ h s) (slot : σ → Option β)
    (W : Step σ ε ω → Prop) (h0 : slot s₀ = none)
    (hs : ∀ s e s' o, next s e = some (s', o) →
      W ⟨s, e, o, s'⟩ ∨ slot s' = slot s ∨ slot s' = none) {b : β} (hb : slot s = some b) :
    ∃ i t, At h i t ∧ W t ∧ slot t.post = some b ∧
      ∀ j u, i < j → At h j u → ¬ W u ∧ slot u.pre = some b ∧ slot u.post = some b := by
  induction hr generalizing b with
  | nil => rw [h0] at hb; cases hb
  | @snoc h s s' e o hr hn ih =>
    by_cases hw : W ⟨s, e, o, s'⟩
    · refine ⟨h.length, ⟨s, e, o, s'⟩, at_last _, hw, hb, ?_⟩
      intro j u hj hu
      have := hu.lt
      simp only [List.length_append, List.length_singleton] at this
      omega
    · have hk : slot s = some b := by
        rcases hs s e s' o hn with h1 | h1 | h1
        · exact absurd h1 hw
        · rw [← h1]; exact hb
        · rw [h1] at hb; cases hb
      obtain ⟨i, t, ht, hwt, hpt, hafter⟩ := ih hk
      refine ⟨i, t, ht.append _, hwt, hpt, ?_⟩
      intro j u hj hu
      rcases at_snoc.mp hu with hu | ⟨-, rfl⟩
      · exact hafter j u hj hu
      · exact ⟨hw, hk, hb⟩

end Trace

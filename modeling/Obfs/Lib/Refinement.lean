import Obfs.Lib.Trace
import Mathlib.Data.List.Induction

/-! Refinement of one transition system by another: a step of the detailed
system is a run of the plain one, of no step, one step or several. The history
of the plain run is then read off that of the detailed one, step by step. -/
namespace Trace
variable {σ ε ω σ' ε' ω' : Type*} {next : σ → ε → Option (σ × List ω)}
  {next' : σ' → ε' → Option (σ' × List ω')} {s₀ s : σ} {h : List (Step σ ε ω)}
  {low : Step σ ε ω → List (Step σ' ε' ω')}

theorem Run.append {g : List (Step σ ε ω)} {s' : σ} (hr : Run next s₀ h s) (hg : Run next s g s') :
    Run next s₀ (h ++ g) s' := by
  induction hg with
  | nil =>
    rw [List.append_nil]
    exact hr
  | snoc _ hn ih =>
    rw [← List.append_assoc]
    exact ih.snoc hn

theorem exec_isPrefix {es : List ε} {h' : List (Step σ ε ω)} {s' : σ}
    (he : exec next es h s = some (h', s')) : h <+: h' := by
  induction es generalizing h s with
  | nil =>
    cases he
    exact List.prefix_refl _
  | cons e es ih =>
    rw [exec] at he
    split at he
    · cases he
    · exact (List.prefix_append _ _).trans (ih he)

theorem exec_cons {e : ε} {es : List ε} {h' : List (Step σ ε ω)} {s₁ s' : σ} {o : List ω}
    (hn : next s e = some (s₁, o)) (he : exec next (e :: es) [] s = some (h', s')) :
    At h' 0 ⟨s, e, o, s₁⟩ := by
  rw [exec, hn] at he
  obtain ⟨g, rfl⟩ := exec_isPrefix he
  rfl

/-- Every step of the detailed system is the run that `low` reads off it. -/
def Refines (next : σ → ε → Option (σ × List ω)) (next' : σ' → ε' → Option (σ' × List ω'))
    (π : σ → σ') (low : Step σ ε ω → List (Step σ' ε' ω')) : Prop :=
  ∀ s e s' o, next s e = some (s', o) → Run next' (π s) (low ⟨s, e, o, s'⟩) (π s')

theorem Run.refine {π : σ → σ'} (hl : Refines next next' π low) (hr : Run next s₀ h s) :
    Run next' (π s₀) (h.flatMap low) (π s) := by
  induction hr with
  | nil => exact .nil
  | @snoc h s s' e o hr hn ih =>
    rw [List.flatMap_append, List.flatMap_singleton]
    exact ih.append (hl s e s' o hn)

/-- Where the steps of step i begin in the plain history. -/
def offset (low : Step σ ε ω → List (Step σ' ε' ω')) (h : List (Step σ ε ω)) (i : Nat) : Nat :=
  ((h.take i).flatMap low).length

theorem offset_succ {i : Nat} {t : Step σ ε ω} (ht : At h i t) :
    offset low h (i + 1) = offset low h i + (low t).length := by
  rw [offset, ht.take_succ, List.flatMap_append, List.flatMap_singleton, List.length_append]
  rfl

theorem offset_mono {i j : Nat} (hij : i ≤ j) : offset low h i ≤ offset low h j := by
  have hp : (h.take i).flatMap low <+: (h.take j).flatMap low := by
    obtain ⟨g, hg⟩ := List.take_prefix_take_left (l := h) hij
    exact ⟨g.flatMap low, by rw [← List.flatMap_append, hg]⟩
  exact hp.length_le

theorem At.lowered {i k : Nat} {t : Step σ ε ω} {u : Step σ' ε' ω'} (ht : At h i t)
    (hu : At (low t) k u) : At (h.flatMap low) (offset low h i + k) u := by
  have hsplit : h.flatMap low =
      (h.take i).flatMap low ++ (low t ++ (h.drop (i + 1)).flatMap low) := by
    conv => lhs; rw [ht.split]
    rw [List.flatMap_append, List.flatMap_cons]
  rw [At, hsplit, offset, List.getElem?_append_right (Nat.le_add_right _ _),
    Nat.add_sub_cancel_left, List.getElem?_append_left hu.lt]
  exact hu

theorem At.raised {m : Nat} {u : Step σ' ε' ω'} (hu : At (h.flatMap low) m u) :
    ∃ i t k, At h i t ∧ At (low t) k u ∧ m = offset low h i + k := by
  induction h using List.reverseRecOn with
  | nil => cases hu
  | append_singleton h t ih =>
    rw [List.flatMap_append, List.flatMap_singleton] at hu
    by_cases hm : m < (h.flatMap low).length
    · rw [At, List.getElem?_append_left hm] at hu
      obtain ⟨i, t', k, ht', hk, rfl⟩ := ih hu
      refine ⟨i, t', k, ht'.append _, hk, ?_⟩
      rw [offset, offset, List.take_append_of_le_length (Nat.le_of_lt ht'.lt)]
    · rw [At, List.getElem?_append_right (Nat.le_of_not_lt hm)] at hu
      refine ⟨h.length, t, m - (h.flatMap low).length, at_last _, hu, ?_⟩
      rw [offset, List.take_append_of_le_length (Nat.le_refl _), List.take_length]
      omega

theorem le_of_lowered {i j k l : Nat} {u : Step σ ε ω} (hu : At h j u) (hl : l < (low u).length)
    (hle : offset low h i + k ≤ offset low h j + l) : i ≤ j := by
  by_contra hji
  have hmono : offset low h (j + 1) ≤ offset low h i :=
    offset_mono (Nat.succ_le_of_lt (Nat.lt_of_not_le hji))
  rw [offset_succ hu] at hmono
  omega

theorem lowered_inj {i j k l : Nat} {t u : Step σ ε ω} (ht : At h i t) (hu : At h j u)
    (hk : k < (low t).length) (hl : l < (low u).length)
    (heq : offset low h i + k = offset low h j + l) : i = j ∧ k = l := by
  have hij : i = j :=
    Nat.le_antisymm (le_of_lowered hu hl (Nat.le_of_eq heq))
      (le_of_lowered ht hk (Nat.le_of_eq heq.symm))
  subst hij
  exact ⟨rfl, Nat.add_left_cancel heq⟩

end Trace

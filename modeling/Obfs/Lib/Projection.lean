import Obfs.Lib.Trace

/-! The run of one component inside the run of a system. A partial map p from
the steps of the system to those of the component picks the component's steps;
the order of the steps is kept. -/
namespace Trace
variable {σ ε ω σ' ε' ω' : Type*} {next : σ → ε → Option (σ × List ω)}
  {next' : σ' → ε' → Option (σ' × List ω')} {s₀ s : σ} {h : List (Step σ ε ω)}
  {p : Step σ ε ω → Option (Step σ' ε' ω')}

/-- A step of the system either is no step of the component and leaves its
state alone, or is one of its steps. -/
def Projects (next : σ → ε → Option (σ × List ω)) (next' : σ' → ε' → Option (σ' × List ω'))
    (π : σ → σ') (p : Step σ ε ω → Option (Step σ' ε' ω')) : Prop :=
  ∀ s e s' o, next s e = some (s', o) →
    (p ⟨s, e, o, s'⟩ = none ∧ π s' = π s) ∨
      ∃ e' o', p ⟨s, e, o, s'⟩ = some ⟨π s, e', o', π s'⟩ ∧ next' (π s) e' = some (π s', o')

theorem Run.project {π : σ → σ'} (hp : Projects next next' π p) (hr : Run next s₀ h s) :
    Run next' (π s₀) (h.filterMap p) (π s) := by
  induction hr with
  | nil => exact .nil
  | @snoc h s s' e o hr hn ih =>
    rcases hp s e s' o hn with ⟨hnone, hπ⟩ | ⟨e', o', hsome, hn'⟩
    · rw [List.filterMap_append, List.filterMap_cons_none hnone, List.filterMap_nil,
        List.append_nil, hπ]
      exact ih
    · rw [List.filterMap_append, List.filterMap_cons_some hsome, List.filterMap_nil]
      exact ih.snoc hn'

theorem Run.component {π : σ → σ'} (hp : Projects next next' π p) (hr : Run next s₀ h s) {i : Nat}
    {t : Step σ ε ω} {u : Step σ' ε' ω'} (ht : At h i t) (hu : p t = some u) :
    u.pre = π t.pre ∧ u.post = π t.post ∧ next' u.pre u.event = some (u.post, u.out) := by
  rcases hp _ _ _ _ (hr.next_eq ht) with ⟨hnone, -⟩ | ⟨e', o', hsome, hn'⟩
  · rw [show p t = none from hnone] at hu
    cases hu
  · cases (show p t = _ from hsome).symm.trans hu
    exact ⟨rfl, rfl, hn'⟩

theorem Run.last_write_project {β : Type*} {π : σ → σ'} (hp : Projects next next' π p)
    (hr : Run next s₀ h s) (slot : σ' → Option β) (W : Step σ' ε' ω' → Prop)
    (h0 : slot (π s₀) = none)
    (hs : ∀ s e s' o, next' s e = some (s', o) →
      W ⟨s, e, o, s'⟩ ∨ slot s' = slot s ∨ slot s' = none) {b : β} (hb : slot (π s) = some b) :
    ∃ i t u, At h i t ∧ p t = some u ∧ W u ∧ slot u.post = some b ∧
      ∀ j t', i < j → At h j t' → slot (π t'.pre) = some b ∧ slot (π t'.post) = some b ∧
        ∀ u', p t' = some u' → ¬ W u' := by
  obtain ⟨i, t, ht, ⟨u, hu, hw⟩, hpost, hafter⟩ :=
    hr.last_write (fun s => slot (π s)) (fun t => ∃ u, p t = some u ∧ W u) h0
      (by
        intro s e s' o hn
        rcases hp s e s' o hn with ⟨-, hπ⟩ | ⟨e', o', hsome, hn'⟩
        · exact Or.inr (Or.inl (by rw [hπ]))
        · rcases hs _ _ _ _ hn' with hw | hk
          · exact Or.inl ⟨_, hsome, hw⟩
          · exact Or.inr hk) hb
  refine ⟨i, t, u, ht, hu, hw, ?_, ?_⟩
  · rw [(hr.component hp ht hu).2.1]
    exact hpost
  · intro j t' hj ht'
    obtain ⟨hnw, h1, h2⟩ := hafter j t' hj ht'
    exact ⟨h1, h2, fun u' hu' hw' => hnw ⟨u', hu', hw'⟩⟩

theorem at_project {j : Nat} {u : Step σ' ε' ω'} (hu : At (h.filterMap p) j u) :
    ∃ i t, At h i t ∧ p t = some u := by
  obtain ⟨t, ht, hp⟩ := List.mem_filterMap.mp hu.mem
  obtain ⟨i, hi⟩ := List.mem_iff_getElem?.mp ht
  exact ⟨i, t, hi, hp⟩

end Trace

import Obfs.Lib.Trace
import Mathlib.Data.List.Induction

/-! Values along a run: those that its steps produce, and the correspondence
between the steps that use a value and the earlier step that made it. -/
namespace Trace
variable {σ ε ω β : Type*} {h g : List (Step σ ε ω)} {f made used : Step σ ε ω → List β}

/-- The values that f reads off the steps of a history, in order. -/
def gather (f : Step σ ε ω → List β) (h : List (Step σ ε ω)) : List β := h.flatMap f

theorem mem_gather {b : β} : b ∈ gather f h ↔ ∃ i t, At h i t ∧ b ∈ f t := by
  rw [gather, List.mem_flatMap]
  constructor
  · rintro ⟨t, ht, hb⟩
    obtain ⟨i, hi⟩ := List.mem_iff_getElem?.mp ht
    exact ⟨i, t, hi, hb⟩
  · rintro ⟨i, t, ht, hb⟩
    exact ⟨t, ht.mem, hb⟩

theorem mem_gather_of_take {b : β} {i : Nat} (hb : b ∈ gather f (h.take i)) : b ∈ gather f h := by
  obtain ⟨j, t, ht, hb⟩ := mem_gather.mp hb
  exact mem_gather.mpr ⟨j, t, ht.of_take.2, hb⟩

theorem mem_gather_between {b : β} {i k : Nat} :
    b ∈ gather f ((h.drop (i + 1)).take (k - (i + 1))) ↔
      ∃ j t, i < j ∧ j < k ∧ At h j t ∧ b ∈ f t := by
  rw [mem_gather]
  constructor
  · rintro ⟨j, t, ht, hb⟩
    obtain ⟨hj, ht⟩ := ht.of_take
    rw [At, List.getElem?_drop] at ht
    exact ⟨i + 1 + j, t, by omega, by omega, ht, hb⟩
  · rintro ⟨j, t, hij, hjk, ht, hb⟩
    have hj : i + 1 + (j - (i + 1)) = j := by omega
    refine ⟨j - (i + 1), t, ?_, hb⟩
    rw [At, List.getElem?_take_of_lt (by omega), List.getElem?_drop, hj]
    exact ht

theorem gather_append : gather f (h ++ g) = gather f h ++ gather f g := List.flatMap_append

theorem gather_snoc (t : Step σ ε ω) : gather f (h ++ [t]) = gather f h ++ f t := by
  simp [gather]

theorem gather_map {γ : Type*} (g : β → γ) :
    gather (fun t => (f t).map g) h = (gather f h).map g :=
  List.map_flatMap.symm

theorem filterMap_gather {γ : Type*} (g : β → Option γ) :
    gather (fun t => (f t).filterMap g) h = (gather f h).filterMap g :=
  List.filterMap_flatMap.symm

theorem gather_congr {f' : Step σ ε ω → List β} (hf : ∀ t ∈ h, f t = f' t) :
    gather f h = gather f' h :=
  List.flatMap_congr hf

theorem gather_sublist {f' : Step σ ε ω → List β} (hf : ∀ t, (f t).Sublist (f' t)) :
    (gather f h).Sublist (gather f' h) := by
  induction h with
  | nil => exact List.Sublist.slnil
  | cons t h ih => exact (hf t).append ih

theorem gather_component {σ' ε' ω' : Type*} (p : Step σ ε ω → Option (Step σ' ε' ω'))
    (f : Step σ' ε' ω' → List β) :
    gather f (h.filterMap p) = gather (fun t => (p t).elim [] f) h := by
  induction h with
  | nil => rfl
  | cons t h ih =>
    rw [gather, gather, List.flatMap_cons, List.filterMap_cons]
    cases p t with
    | none => exact ih
    | some u =>
      rw [List.flatMap_cons]
      exact congrArg _ ih

theorem gather_unique (hn : (gather f h).Nodup) {i j : Nat} {t u : Step σ ε ω} {b : β}
    (ht : At h i t) (hu : At h j u) (hbt : b ∈ f t) (hbu : b ∈ f u) : i = j := by
  wlog hij : i < j generalizing i j t u
  · rcases Nat.lt_or_eq_of_le (Nat.not_lt.mp hij) with hji | hji
    · exact (this hu ht hbu hbt hji).symm
    · exact hji.symm
  -- split the history at the later step
  have hsplit : gather f h = gather f (h.take j) ++ gather f (u :: h.drop (j + 1)) := by
    conv => lhs; rw [hu.split]
    exact gather_append
  rw [hsplit, List.nodup_append] at hn
  have hl : b ∈ gather f (h.take j) := mem_gather.mpr ⟨i, t, ht.take hij, hbt⟩
  have hr : b ∈ gather f (u :: h.drop (j + 1)) := mem_gather.mpr ⟨0, u, rfl, hbu⟩
  exact absurd rfl (hn.2.2 b hl b hr)

/-- Every value that a step uses was made by an earlier step. -/
def Precedes (made used : Step σ ε ω → List β) (h : List (Step σ ε ω)) : Prop :=
  ∀ j u, At h j u → ∀ b ∈ used u, ∃ i t, i < j ∧ At h i t ∧ b ∈ made t

theorem Precedes.of_append (hp : Precedes made used (h ++ g)) : Precedes made used h := by
  intro j u hu b hb
  obtain ⟨i, t, hij, ht, hbt⟩ := hp j u (hu.append g) b hb
  have hi : i < h.length := Nat.lt_trans hij hu.lt
  refine ⟨i, t, hij, ?_, hbt⟩
  rw [At, List.getElem?_append_left hi] at ht
  exact ht

theorem precedes_iff : Precedes made used h ↔
    ∀ j < h.length, ∀ b ∈ (h[j]?).elim [] used, b ∈ gather made (h.take j) := by
  constructor
  · intro hp j hj b hb
    have hu : At h j h[j] := List.getElem?_eq_getElem hj
    rw [hu] at hb
    obtain ⟨i, t, hij, ht, hbt⟩ := hp j _ hu b hb
    exact mem_gather.mpr ⟨i, t, ht.take hij, hbt⟩
  · intro hp j u hu b hb
    have hm := hp j hu.lt b (by rw [hu]; exact hb)
    obtain ⟨i, t, ht, hbt⟩ := mem_gather.mp hm
    obtain ⟨hij, ht⟩ := ht.of_take
    exact ⟨i, t, hij, ht, hbt⟩

instance [DecidableEq β] : Decidable (Precedes made used h) := decidable_of_iff' _ precedes_iff

section Rank

/-- How many values the steps before step i produce. -/
def rank (f : Step σ ε ω → List β) (h : List (Step σ ε ω)) (i : Nat) : Nat :=
  (gather f (h.take i)).length

theorem rank_lt {i : Nat} {t : Step σ ε ω} {b : β} (ht : At h i t) (hb : b ∈ f t) :
    rank f h i < (gather f h).length := by
  have hpos := List.length_pos_of_mem hb
  have hsplit : gather f h = gather f (h.take i) ++ gather f (t :: h.drop (i + 1)) := by
    conv => lhs; rw [ht.split]
    exact gather_append
  rw [hsplit, List.length_append, gather, gather, List.flatMap_cons, List.length_append]
  unfold rank gather
  omega

theorem rank_inj {i j : Nat} {t u : Step σ ε ω} {a b : β} (ht : At h i t) (hu : At h j u)
    (ha : a ∈ f t) (hb : b ∈ f u) (heq : rank f h i = rank f h j) : i = j := by
  wlog hij : i < j generalizing i j t u a b
  · rcases Nat.lt_or_eq_of_le (Nat.not_lt.mp hij) with hji | hji
    · exact (this hu ht hb ha heq.symm hji).symm
    · exact hji.symm
  have hlt := rank_lt (ht.take hij) ha
  rw [rank, List.take_take, Nat.min_eq_left (Nat.le_of_lt hij)] at hlt
  exact absurd heq (Nat.ne_of_lt hlt)

theorem gather_rank (hone : ∀ t ∈ h, (f t).length ≤ 1) {i : Nat} {t : Step σ ε ω} {b : β}
    (ht : At h i t) (hb : b ∈ f t) : (gather f h)[rank f h i]? = some b := by
  obtain ⟨c, hc⟩ := List.length_eq_one_iff.mp
    (Nat.le_antisymm (hone t ht.mem) (List.length_pos_of_mem hb))
  rw [hc, List.mem_singleton] at hb
  have hsplit : gather f h = gather f (h.take i) ++ gather f (t :: h.drop (i + 1)) := by
    conv => lhs; rw [ht.split]
    exact gather_append
  rw [hsplit, rank, List.getElem?_append_right (Nat.le_refl _), Nat.sub_self, gather,
    List.flatMap_cons, hc, hb]
  rfl

theorem exists_rank (hone : ∀ t ∈ h, (f t).length ≤ 1) {n : Nat} {b : β}
    (hn : (gather f h)[n]? = some b) : ∃ i t, At h i t ∧ b ∈ f t ∧ rank f h i = n := by
  induction h using List.reverseRecOn with
  | nil => cases hn
  | append_singleton h t ih =>
    have hrank {i : Nat} (hi : i ≤ h.length) : rank f (h ++ [t]) i = rank f h i := by
      rw [rank, rank, List.take_append_of_le_length hi]
    rw [gather_snoc] at hn
    by_cases hlt : n < (gather f h).length
    · rw [List.getElem?_append_left hlt] at hn
      obtain ⟨i, u, hu, hb, hr⟩ := ih (fun u hu => hone u (List.mem_append_left _ hu)) hn
      exact ⟨i, u, hu.append _, hb, (hrank (Nat.le_of_lt hu.lt)).trans hr⟩
    · rw [List.getElem?_append_right (Nat.le_of_not_lt hlt)] at hn
      have hpos := (List.getElem?_eq_some_iff.mp hn).1
      have hle := hone t (List.mem_append_right _ (List.mem_singleton_self t))
      refine ⟨h.length, t, at_last t, List.mem_of_getElem? hn, ?_⟩
      rw [hrank (Nat.le_refl _), rank, List.take_length]
      omega

/-- Where a step produces at most one value and every value has a label that no
other step's value has, the values can be labelled without repetition. -/
theorem gather_labelled {κ : Type*} {P : Nat → κ → β → Prop} (hone : ∀ t ∈ h, (f t).length ≤ 1)
    (hlabel : ∀ j u b, At h j u → b ∈ f u → ∃ k, P j k b)
    (hinj : ∀ j j' k b b', P j k b → P j' k b' → j = j') :
    ∃ xs : List (κ × β), xs.map Prod.snd = gather f h ∧ (xs.map Prod.fst).Nodup ∧
      ∀ k b, (k, b) ∈ xs → ∃ j u, At h j u ∧ b ∈ f u ∧ P j k b := by
  induction h using List.reverseRecOn with
  | nil => exact ⟨[], rfl, List.nodup_nil, fun k b hx => absurd hx List.not_mem_nil⟩
  | append_singleton h t ih =>
    obtain ⟨xs, hxs, hnodup, hfrom⟩ := ih (fun u hu => hone u (List.mem_append_left _ hu))
      (fun j u b hu hb => hlabel j u b (hu.append _) hb)
    have hle := hone t (List.mem_append_right _ (List.mem_singleton_self t))
    rw [gather_snoc]
    cases hf : f t with
    | nil =>
      refine ⟨xs, by rw [hxs, List.append_nil], hnodup, fun k b hx => ?_⟩
      obtain ⟨j, u, hu, hb, hP⟩ := hfrom k b hx
      exact ⟨j, u, hu.append _, hb, hP⟩
    | cons b bs =>
      rw [hf] at hle
      obtain rfl : bs = [] := List.length_eq_zero_iff.mp (by simpa using hle)
      have hb : b ∈ f t := by
        rw [hf]
        exact List.mem_singleton_self b
      obtain ⟨k, hP⟩ := hlabel h.length t b (at_last t) hb
      refine ⟨xs ++ [(k, b)], by rw [List.map_append, hxs]; rfl, ?_, ?_⟩
      · rw [List.map_append, List.nodup_append]
        refine ⟨hnodup, List.pairwise_singleton _ _, ?_⟩
        intro k₁ hk₁ k₂ hk₂ heq
        obtain ⟨⟨k', b'⟩, hx, rfl⟩ := List.mem_map.mp hk₁
        obtain ⟨j, u, hu, -, hP'⟩ := hfrom k' b' hx
        have hk : k' = k := heq.trans (List.mem_singleton.mp hk₂)
        rw [hk] at hP'
        exact absurd (hinj _ _ _ _ _ hP' hP) (Nat.ne_of_lt hu.lt)
      · intro k' b' hx
        rcases List.mem_append.mp hx with hx | hx
        · obtain ⟨j, u, hu, hb', hP'⟩ := hfrom k' b' hx
          exact ⟨j, u, hu.append _, hb', hP'⟩
        · cases List.mem_singleton.mp hx
          exact ⟨h.length, t, at_last t, hb, hP⟩

/-- Values that are used in the order in which they were made: if every use has
behind it the making of the same value with the same rank, then what was used is
the beginning of what was made. -/
theorem gather_isPrefix {g : Step σ ε ω → List β} (hf : ∀ t ∈ h, (f t).length ≤ 1)
    (hg : ∀ t ∈ h, (g t).length ≤ 1)
    (hmade : ∀ j u b, At h j u → b ∈ f u →
      ∃ i t, At h i t ∧ b ∈ g t ∧ rank g h i = rank f h j) :
    gather f h <+: gather g h := by
  rw [List.prefix_iff_getElem?]
  intro n hn
  have hget : (gather f h)[n]? = some (gather f h)[n] := List.getElem?_eq_getElem hn
  obtain ⟨j, u, hu, hb, hj⟩ := exists_rank hf hget
  obtain ⟨i, t, ht, hb', hr⟩ := hmade j u _ hu hb
  have hmake := gather_rank hg ht hb'
  rwa [hr, hj] at hmake

end Rank

section Counters
variable {α κ : Type*} {next : σ → ε → Option (σ × List ω)} {s₀ s : σ}

/-- Pairs of a key and a counter are never used twice, if every owner keeps its
key and moves its counter past each pair it uses, and no two owners have the
same key. -/
theorem Run.nodup_counters (cell : σ → α → Option (κ × Nat))
    (uses : Step σ ε ω → List (κ × Nat)) (hr : Run next s₀ h s)
    (hkeep : ∀ s e s' o, next s e = some (s', o) → ∀ a k m, cell s a = some (k, m) →
      ∃ m', m ≤ m' ∧ cell s' a = some (k, m'))
    (hone : ∀ i t, At h i t → (uses t).Nodup)
    (huse : ∀ i t, At h i t → ∀ k m, (k, m) ∈ uses t →
      ∃ a m', m < m' ∧ cell t.post a = some (k, m') ∧
        ∀ k₀ m₀, cell t.pre a = some (k₀, m₀) → m₀ ≤ m)
    (hsep : ∀ i t, At h i t → ∀ a b k m m', cell t.post a = some (k, m) →
      cell t.post b = some (k, m') → a = b) :
    (gather uses h).Nodup ∧
      ∀ k m, (k, m) ∈ gather uses h → ∃ a m', m < m' ∧ cell s a = some (k, m') := by
  induction hr with
  | nil => exact ⟨List.nodup_nil, fun k m hm => absurd hm List.not_mem_nil⟩
  | @snoc h s s' e o hr hn ih =>
    obtain ⟨hnodup, hold⟩ := ih (fun i t ht => hone i t (ht.append _))
      (fun i t ht => huse i t (ht.append _)) (fun i t ht => hsep i t (ht.append _))
    have hlast := at_last (h := h) (⟨s, e, o, s'⟩ : Step σ ε ω)
    rw [gather_snoc]
    constructor
    · refine List.nodup_append.mpr ⟨hnodup, hone _ _ hlast, ?_⟩
      rintro ⟨k, m⟩ hm b hb rfl
      -- the owner of the old use has passed m, the owner of the new use has not
      obtain ⟨a, m', hlt, ha⟩ := hold k m hm
      obtain ⟨a', m'', -, ha', hpre⟩ := huse _ _ hlast k m hb
      obtain ⟨m₁, -, ha₁⟩ := hkeep s e s' o hn a k m' ha
      have heq := hsep _ _ hlast a a' k m₁ m'' ha₁ ha'
      subst heq
      have := hpre k m' ha
      omega
    · intro k m hm
      rcases List.mem_append.mp hm with hm | hm
      · obtain ⟨a, m', hlt, ha⟩ := hold k m hm
        obtain ⟨m₁, hle, ha₁⟩ := hkeep s e s' o hn a k m' ha
        exact ⟨a, m₁, by omega, ha₁⟩
      · obtain ⟨a, m', hlt, ha, -⟩ := huse _ _ hlast k m hm
        exact ⟨a, m', hlt, ha⟩

end Counters

section Balance
variable {next : σ → ε → Option (σ × List ω)} {s₀ s : σ}

/-- Conservation along a run: if every step, in a state that meets an invariant,
gives away what it takes in but for what the state then owes more or less, the
whole run does, up to the order. -/
theorem Run.balanced {I : σ → Prop} {C : Step σ ε ω → Prop} (owes : σ → List β)
    (took gave : Step σ ε ω → List β) (h0 : I s₀)
    (hs : ∀ s e s' o, I s → C ⟨s, e, o, s'⟩ → next s e = some (s', o) → I s' ∧
      (gave ⟨s, e, o, s'⟩ ++ owes s').Perm (owes s ++ took ⟨s, e, o, s'⟩))
    (hr : Run next s₀ h s) (hC : ∀ t ∈ h, C t) :
    I s ∧ (gather gave h ++ owes s).Perm (owes s₀ ++ gather took h) := by
  induction hr with
  | nil => exact ⟨h0, by simp [gather]⟩
  | @snoc h s s' e o hr hn ih =>
    obtain ⟨hi, hp⟩ := ih fun t ht => hC t (List.mem_append_left _ ht)
    obtain ⟨hi', hp'⟩ := hs s e s' o hi (hC _ (by simp)) hn
    refine ⟨hi', ?_⟩
    rw [gather_snoc, gather_snoc, List.append_assoc, ← List.append_assoc (owes s₀)]
    exact (hp'.append_left _).trans (by rw [← List.append_assoc]; exact hp.append_right _)

end Balance

section Inserts
variable {next : σ → ε → Option (σ × List ω)} {junk : σ → ε → Prop} {s₀ s : σ} {es : List ε}

/-- The events of a run with others inserted, each in a state in which it is junk. -/
inductive Inserts (next : σ → ε → Option (σ × List ω)) (junk : σ → ε → Prop) (s₀ : σ) :
    List (Step σ ε ω) → List ε → σ → Prop where
  | nil : Inserts next junk s₀ [] [] s₀
  | keep {h : List (Step σ ε ω)} {es : List ε} {s s' : σ} {e : ε} {o : List ω} :
      Inserts next junk s₀ h es s → next s e = some (s', o) →
      Inserts next junk s₀ (h ++ [⟨s, e, o, s'⟩]) (es ++ [e]) s'
  | insert {h : List (Step σ ε ω)} {es : List ε} {s : σ} {e : ε} :
      Inserts next junk s₀ h es s → junk s e → Inserts next junk s₀ h (es ++ [e]) s

theorem Inserts.then_run (hi : Inserts next junk s₀ [] es s₀) (hr : Run next s₀ h s) :
    Inserts next junk s₀ h (es ++ h.map Step.event) s := by
  induction hr with
  | nil =>
    rw [List.map_nil, List.append_nil]
    exact hi
  | snoc hr hn ih =>
    rw [List.map_append, ← List.append_assoc]
    exact ih.keep hn

/-- Junk that does nothing where it happens can be inserted anywhere: the run
with it ends in the same state and has the same outputs. -/
theorem Inserts.same_outputs (hj : ∀ s e, junk s e → next s e = some (s, []))
    (hi : Inserts next junk s₀ h es s) :
    ∃ g, Run next s₀ g s ∧ g.map Step.event = es ∧ gather Step.out g = gather Step.out h := by
  induction hi with
  | nil => exact ⟨[], .nil, rfl, rfl⟩
  | keep _ hn ih =>
    obtain ⟨g, hg, hev, hout⟩ := ih
    refine ⟨_, hg.snoc hn, ?_, ?_⟩
    · rw [List.map_append, hev]
      rfl
    · rw [gather_snoc, gather_snoc, hout]
  | insert _ he ih =>
    obtain ⟨g, hg, hev, hout⟩ := ih
    refine ⟨_, hg.snoc (hj _ _ he), ?_, ?_⟩
    · rw [List.map_append, hev]
      rfl
    · rw [gather_snoc, List.append_nil, hout]

end Inserts

end Trace

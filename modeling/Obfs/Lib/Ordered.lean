import Obfs.Lib.Correspondence

/-! Numbered directions of a channel. Every owner counts the values of its
direction under a key of its own. If each value that is used has been made under
the same key and number, the values arrive in order, without a gap and without
a repetition. -/
namespace Trace
variable {σ ε ω α β κ : Type*} {next : σ → ε → Option (σ × List ω)} {s₀ s : σ}
  {h : List (Step σ ε ω)}

/-- A step produces at most one value of a direction, and the count of the
direction follows it. The count starts at zero and the key never changes. -/
structure Counted (cell : σ → Option (κ × Nat)) (f : Step σ ε ω → List β) (t : Step σ ε ω) :
    Prop where
  one : (f t).length ≤ 1
  idle : cell t.pre = none → f t = [] ∧ ∀ k n, cell t.post = some (k, n) → n = 0
  count : ∀ k n, cell t.pre = some (k, n) → cell t.post = some (k, n + (f t).length)

variable {cell : σ → Option (κ × Nat)} {f : Step σ ε ω → List β}

theorem Run.count_eq (hr : Run next s₀ h s) (h0 : cell s₀ = none)
    (hs : ∀ t ∈ h, Counted cell f t) :
    (cell s = none → gather f h = []) ∧
      ∀ k n, cell s = some (k, n) → n = (gather f h).length := by
  induction hr with
  | nil =>
    refine ⟨fun _ => rfl, ?_⟩
    intro k n hc
    rw [h0] at hc
    cases hc
  | @snoc h s s' e o hr hn ih =>
    obtain ⟨hnone, hsome⟩ := ih fun t ht => hs t (List.mem_append_left _ ht)
    have hstep := hs _ (List.mem_append_right h (List.mem_singleton_self _))
    rw [gather_snoc]
    cases hc : cell s with
    | none =>
      obtain ⟨hf, hzero⟩ := hstep.idle hc
      rw [hnone hc, hf]
      exact ⟨fun _ => rfl, hzero⟩
    | some kn =>
      obtain ⟨k, n⟩ := kn
      have hpost : cell s' = some (k, n + (f ⟨s, e, o, s'⟩).length) := hstep.count k n hc
      rw [hpost]
      refine ⟨nofun, ?_⟩
      intro k' n' heq
      cases heq
      rw [List.length_append, ← hsome k n hc]

theorem Run.key_kept (hr : Run next s₀ h s) (hs : ∀ t ∈ h, Counted cell f t) {i n : Nat}
    {t : Step σ ε ω} {k : κ} (ht : At h i t) (hc : cell t.pre = some (k, n)) :
    ∃ m, cell s = some (k, m) := by
  induction hr with
  | nil => cases ht
  | @snoc h s s' e o hr hn ih =>
    have hlast := hs _ (List.mem_append_right h (List.mem_singleton_self _))
    rcases at_snoc.mp ht with ht | ⟨-, rfl⟩
    · obtain ⟨m, hm⟩ := ih (fun t ht => hs t (List.mem_append_left _ ht)) ht
      exact ⟨_, hlast.count k m hm⟩
    · exact ⟨_, hlast.count k n hc⟩

theorem Run.count_rank (hr : Run next s₀ h s) (h0 : cell s₀ = none)
    (hs : ∀ t ∈ h, Counted cell f t) {i n : Nat} {t : Step σ ε ω} {k : κ} (ht : At h i t)
    (hc : cell t.pre = some (k, n)) : n = rank f h i :=
  ((hr.step ht).1.count_eq h0 fun t ht => hs t (List.mem_of_mem_take ht)).2 k n hc

section InOrder
variable {sendCell recvCell : α → σ → Option (κ × Nat)} {made used : α → Step σ ε ω → List β}

def SeparateOwners (cell : α → σ → Option (κ × Nat)) (s : σ) : Prop :=
  ∀ a b k m n, cell a s = some (k, m) → cell b s = some (k, n) → a = b

/-- Every value used was made by a step that had the same key and number. -/
def Matched (sendCell recvCell : α → σ → Option (κ × Nat)) (made used : α → Step σ ε ω → List β)
    (h : List (Step σ ε ω)) : Prop :=
  ∀ j u b x, At h j u → x ∈ used b u → ∃ k n, recvCell b u.pre = some (k, n) ∧
    ∃ i t a, i < j ∧ At h i t ∧ x ∈ made a t ∧ sendCell a t.pre = some (k, n)

/-- What one end has used is the beginning of what one other end has made, the
owner of the key under which the first end reads. -/
theorem Run.in_order (hr : Run next s₀ h s) (h0 : ∀ a, sendCell a s₀ = none ∧ recvCell a s₀ = none)
    (hmade : ∀ a, ∀ t ∈ h, Counted (sendCell a) (made a) t)
    (hused : ∀ a, ∀ t ∈ h, Counted (recvCell a) (used a) t)
    (hmatch : Matched sendCell recvCell made used h) (hsep : SeparateOwners sendCell s) (b : α) :
    gather (used b) h = [] ∨ ∃ a k m n, sendCell a s = some (k, m) ∧ recvCell b s = some (k, n) ∧
      gather (used b) h <+: gather (made a) h := by
  rcases List.eq_nil_or_concat (gather (used b) h) with hnil | ⟨l, x₀, hx₀⟩
  · exact Or.inl hnil
  right
  have hmem : x₀ ∈ gather (used b) h := by simp [hx₀]
  obtain ⟨j₀, u₀, hu₀, hb₀⟩ := mem_gather.mp hmem
  obtain ⟨k, n₀, hk, i₀, t₀, a, -, ht₀, -, ha⟩ := hmatch j₀ u₀ b x₀ hu₀ hb₀
  obtain ⟨m, hm⟩ := hr.key_kept (hmade a) ht₀ ha
  obtain ⟨n, hn⟩ := hr.key_kept (hused b) hu₀ hk
  refine ⟨a, k, m, n, hm, hn, ?_⟩
  refine gather_isPrefix (fun t ht => (hused b t ht).one) (fun t ht => (hmade a t ht).one) ?_
  intro j u x hu hx
  obtain ⟨k', n', hk', i, t, a', -, ht, hx', ha'⟩ := hmatch j u b x hu hx
  -- the reader has one key, and the key one owner
  obtain ⟨m', hm'⟩ := hr.key_kept (hused b) hu hk'
  cases hn.symm.trans hm'
  obtain ⟨m', hm'⟩ := hr.key_kept (hmade a') ht ha'
  cases hsep a a' k m m' hm hm'
  refine ⟨i, t, ht, hx', ?_⟩
  rw [← hr.count_rank (h0 a).1 (hmade a) ht ha', ← hr.count_rank (h0 b).2 (hused b) hu hk']

end InOrder

section Consecutive
variable {cells : α → σ → Option (κ × Nat)} {made : α → Step σ ε ω → List β}

structure UsesCells (cells : α → σ → Option (κ × Nat)) (made : α → Step σ ε ω → List β)
    (uses : Step σ ε ω → List (κ × Nat)) (t : Step σ ε ω) : Prop where
  one : (uses t).length ≤ 1
  owner : ∀ c ∈ uses t, ∃ a, cells a t.pre = some c ∧ made a t ≠ []
  used : ∀ a c, cells a t.pre = some c → made a t ≠ [] → c ∈ uses t

structure CountsUp (cells : α → σ → Option (κ × Nat)) (k : κ) (l : List Nat) (s : σ) : Prop where
  range : l = List.range l.length
  count : ∀ a n, cells a s = some (k, n) → n = l.length
  owned : l ≠ [] → ∃ a n, cells a s = some (k, n)

theorem CountsUp.count_step {k : κ} {l : List Nat} {t : Step σ ε ω}
    (hl : CountsUp cells k l t.pre) (hs : ∀ a, Counted (cells a) (made a) t)
    (hsep : SeparateOwners cells t.post) {a : α} {n : Nat} (ha : cells a t.post = some (k, n)) :
    n = l.length + (made a t).length := by
  cases hc : cells a t.pre with
  | none =>
    obtain ⟨hmade, hzero⟩ := (hs a).idle hc
    rw [hzero k n ha, hmade]
    -- a key that was used before has another owner
    by_cases hnil : l = []
    · rw [hnil]
      rfl
    · obtain ⟨b, m, hb⟩ := hl.owned hnil
      cases hsep a b k n _ ha ((hs b).count k m hb)
      cases hc.symm.trans hb
  | some c =>
    obtain ⟨k', m⟩ := c
    cases ha.symm.trans ((hs a).count k' m hc)
    rw [hl.count a m hc]

variable [DecidableEq κ]

def numbersUnder (k : κ) (l : List (κ × Nat)) : List Nat :=
  l.filterMap fun x => if x.1 = k then some x.2 else none

theorem numbersUnder_append (k : κ) (l l' : List (κ × Nat)) :
    numbersUnder k (l ++ l') = numbersUnder k l ++ numbersUnder k l' :=
  List.filterMap_append

theorem numbersUnder_singleton (k : κ) (n : Nat) : numbersUnder k [(k, n)] = [n] := by
  simp [numbersUnder]

theorem numbersUnder_eq_nil {k : κ} {l : List (κ × Nat)} (hl : ∀ n, (k, n) ∉ l) :
    numbersUnder k l = [] := by
  refine List.filterMap_eq_nil_iff.mpr ?_
  rintro ⟨k', n⟩ hx
  refine if_neg ?_
  rintro rfl
  exact hl n hx

theorem CountsUp.step {uses : Step σ ε ω → List (κ × Nat)} {k : κ} {l : List Nat}
    {t : Step σ ε ω} (hl : CountsUp cells k l t.pre) (hs : ∀ a, Counted (cells a) (made a) t)
    (hu : UsesCells cells made uses t) (hsep : SeparateOwners cells t.post) :
    CountsUp cells k (l ++ numbersUnder k (uses t)) t.post := by
  by_cases hk : ∃ n, (k, n) ∈ uses t
  · obtain ⟨n, hn⟩ := hk
    obtain ⟨a, ha, hmade⟩ := hu.owner _ hn
    have huses : uses t = [(k, n)] := by
      obtain ⟨x, hx⟩ := List.length_eq_one_iff.mp
        (Nat.le_antisymm hu.one (List.length_pos_of_mem hn))
      rw [hx, List.mem_singleton] at hn
      rw [hx, hn]
    have hnum : numbersUnder k (uses t) = [l.length] := by
      rw [huses, ← hl.count a n ha, numbersUnder_singleton]
    have hlen : (made a t).length = 1 :=
      Nat.le_antisymm (hs a).one (List.length_pos_of_ne_nil hmade)
    have hpost := (hs a).count k n ha
    rw [hnum]
    refine ⟨?_, ?_, fun _ => ⟨a, _, hpost⟩⟩
    · rw [List.length_append, List.length_singleton, List.range_succ, ← hl.range]
    · intro b m hb
      cases hsep a b k _ m hpost hb
      rw [hl.count_step hs hsep hb, hlen, List.length_append, List.length_singleton]
  · have hnone : numbersUnder k (uses t) = [] :=
      numbersUnder_eq_nil fun n hn => hk ⟨n, hn⟩
    rw [hnone, List.append_nil]
    refine ⟨hl.range, ?_, ?_⟩
    · intro a n ha
      have hmade : made a t = [] := by
        by_contra hne
        cases hc : cells a t.pre with
        | none => exact hne ((hs a).idle hc).1
        | some c =>
          obtain ⟨k', m⟩ := c
          cases ha.symm.trans ((hs a).count k' m hc)
          exact hk ⟨m, hu.used a _ hc hne⟩
      rw [hl.count_step hs hsep ha, hmade]
      rfl
    · intro hne
      obtain ⟨a, n, ha⟩ := hl.owned hne
      exact ⟨a, _, (hs a).count k n ha⟩

theorem nodup_of_numbersUnder {l : List (κ × Nat)} (hl : ∀ k, (numbersUnder k l).Nodup) :
    l.Nodup := by
  induction l with
  | nil => exact List.nodup_nil
  | cons x l ih =>
    obtain ⟨k, n⟩ := x
    have hcons (k' : κ) : (numbersUnder k' [(k, n)] ++ numbersUnder k' l).Nodup := by
      rw [← numbersUnder_append]
      exact hl k'
    refine List.nodup_cons.mpr ⟨?_, ih fun k' => (List.nodup_append.mp (hcons k')).2.1⟩
    intro hmem
    have hn : n ∈ numbersUnder k l := List.mem_filterMap.mpr ⟨(k, n), hmem, if_pos rfl⟩
    have hk := hcons k
    rw [numbersUnder_singleton] at hk
    exact (List.nodup_cons.mp hk).1 hn

/-- Under every key the numbers are used one after the other, from zero. -/
theorem Run.counts_up {uses : Step σ ε ω → List (κ × Nat)} (hr : Run next s₀ h s)
    (h0 : ∀ a, cells a s₀ = none) (hs : ∀ a, ∀ t ∈ h, Counted (cells a) (made a) t)
    (hu : ∀ t ∈ h, UsesCells cells made uses t)
    (hsep : ∀ t ∈ h, SeparateOwners cells t.post) (k : κ) :
    CountsUp cells k (numbersUnder k (gather uses h)) s := by
  induction hr with
  | nil =>
    refine ⟨rfl, ?_, fun hne => absurd rfl hne⟩
    intro a n ha
    cases (h0 a).symm.trans ha
  | @snoc h s s' e o hr hn ih =>
    have hlast := List.mem_append_right h (List.mem_singleton_self (⟨s, e, o, s'⟩ : Step σ ε ω))
    have hl := ih (fun a t ht => hs a t (List.mem_append_left _ ht))
      (fun t ht => hu t (List.mem_append_left _ ht))
      (fun t ht => hsep t (List.mem_append_left _ ht))
    rw [gather_snoc, numbersUnder_append]
    exact CountsUp.step (t := ⟨s, e, o, s'⟩) hl (fun a => hs a _ hlast) (hu _ hlast)
      (hsep _ hlast)

end Consecutive

end Trace

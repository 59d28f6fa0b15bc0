import Obfs.Lib.Broadcast
import Obfs.Lib.Correspondence

/-! A receiver of a broadcast channel over a whole run. From its subscription on
it reads every value once and in order, but for those that it skips when it has
fallen behind the channel. -/
namespace Broadcast
open Trace
variable {σ ε ω κ α : Type*}

/-- A receiver as a machine holds it: which channel it reads and its next
position there, and the positions that a step reads. -/
structure Reader (σ ε ω κ α : Type*) where
  place : σ → Option (κ × Nat)
  channel : σ → κ → Channel α
  reads : Step σ ε ω → List Nat

namespace Reader
variable (R : Reader σ ε ω κ α)

inductive Moves (t : Step σ ε ω) : Prop where
  | stays (hr : R.reads t = []) (hp : R.place t.post = R.place t.pre)
  | subscribes (k : κ) (hr : R.reads t = []) (h0 : R.place t.pre = none)
      (hp : R.place t.post = some (k, (R.channel t.pre k).log.length))
  | takes (k : κ) (n : Nat) (hr : R.reads t = [n]) (h0 : R.place t.pre = some (k, n))
      (hlog : n < (R.channel t.pre k).log.length) (hp : R.place t.post = some (k, n + 1))
  | skips (k : κ) (n n' : Nat) (hr : R.reads t = []) (h0 : R.place t.pre = some (k, n))
      (hlag : n < n') (hlog : n' + (R.channel t.pre k).capacity = (R.channel t.pre k).log.length)
      (hp : R.place t.post = some (k, n'))

def skipped (t : Step σ ε ω) : List Nat :=
  match R.reads t, R.place t.pre, R.place t.post with
  | [], some (_, n), some (_, n') => List.range' n (n' - n)
  | _, _, _ => []

variable {R} {t : Step σ ε ω} {k : κ} {n n' : Nat}

theorem skipped_of_read (hr : R.reads t = [n]) : R.skipped t = [] := by
  simp only [skipped, hr]

theorem skipped_of_none (h0 : R.place t.pre = none) : R.skipped t = [] := by
  unfold skipped
  rw [h0]
  split
  · rename_i he _
    cases he
  · rfl

theorem skipped_of_move {k' : κ} (hr : R.reads t = []) (h0 : R.place t.pre = some (k, n))
    (hp : R.place t.post = some (k', n')) : R.skipped t = List.range' n (n' - n) := by
  simp only [skipped, hr, h0, hp]

theorem mem_skipped (hm : R.Moves t) {m : Nat} (hs : m ∈ R.skipped t) :
    ∃ k n, R.place t.pre = some (k, n) ∧ n ≤ m ∧
      m + (R.channel t.pre k).capacity < (R.channel t.pre k).log.length := by
  cases hm with
  | stays hr hp =>
    cases h0 : R.place t.pre with
    | none =>
      rw [skipped_of_none h0] at hs
      cases hs
    | some kn =>
      rw [skipped_of_move hr h0 (hp.trans h0), Nat.sub_self] at hs
      cases hs
  | subscribes k hr h0 hp =>
    rw [skipped_of_none h0] at hs
    cases hs
  | takes k n hr h0 hlog hp =>
    rw [skipped_of_read hr] at hs
    cases hs
  | skips k n n' hr h0 hlag hlog hp =>
    rw [skipped_of_move hr h0 hp, List.mem_range'_1] at hs
    exact ⟨k, n, h0, hs.1, by omega⟩

theorem Moves.reads_lt (hm : R.Moves t) {m : Nat} (hr : m ∈ R.reads t) :
    ∃ k, R.place t.pre = some (k, m) ∧ m < (R.channel t.pre k).log.length := by
  cases hm with
  | takes k n hreads h0 hlog hp =>
    rw [hreads, List.mem_singleton] at hr
    subst hr
    exact ⟨k, h0, hlog⟩
  | stays hreads hp | subscribes k hreads h0 hp | skips k n n' hreads h0 hlag hlog hp =>
    rw [hreads] at hr
    cases hr

variable (R) in
structure Lawful (next : σ → ε → Option (σ × List ω)) : Prop where
  moves : ∀ {s e s' o}, next s e = some (s', o) → R.Moves ⟨s, e, o, s'⟩
  grows : ∀ {s e s' o}, next s e = some (s', o) →
    ∀ k, (R.channel s k).log <+: (R.channel s' k).log

/-- What the receiver has read so far, from the position where it subscribed. -/
structure Exact (R : Reader σ ε ω κ α) (h : List (Step σ ε ω)) (s : σ) (k : κ) (start n : Nat) :
    Prop where
  subscribed : ∃ j t, At h j t ∧ R.place t.pre = none ∧ R.place t.post = some (k, start) ∧
    start = (R.channel t.pre k).log.length
  le : start ≤ n
  log : n ≤ (R.channel s k).log.length
  reads : gather R.reads h = (List.range' start (n - start)).filter (· ∉ gather R.skipped h)
  skipped : ∀ m ∈ gather R.skipped h, m < n

theorem Exact.lt {h : List (Step σ ε ω)} {s : σ} {start m : Nat} (hx : R.Exact h s k start n)
    (hm : m ∈ gather R.reads h) : start ≤ m ∧ m < n := by
  rw [hx.reads] at hm
  have hr := List.mem_range'_1.mp (List.mem_of_mem_filter hm)
  have hle := hx.le
  omega

theorem Exact.snoc {h : List (Step σ ε ω)} {start : Nat} (hx : R.Exact h t.pre k start n)
    (hle : n ≤ n') (hlog : n' ≤ (R.channel t.post k).log.length)
    (hreads : R.reads t = (List.range' n (n' - n)).filter (· ∉ R.skipped t))
    (hskip : ∀ m ∈ R.skipped t, n ≤ m ∧ m < n') : R.Exact (h ++ [t]) t.post k start n' where
  subscribed := by
    obtain ⟨j, u, hu, h0, hp, hs⟩ := hx.subscribed
    exact ⟨j, u, hu.append _, h0, hp, hs⟩
  le := Nat.le_trans hx.le hle
  log := hlog
  reads := by
    have hsn := hx.le
    have hsplit : List.range' start (n' - start) =
        List.range' start (n - start) ++ List.range' n (n' - n) := by
      have hend : start + (n - start) = n := by omega
      have hsum : n' - start = (n - start) + (n' - n) := by omega
      rw [hsum, ← List.range'_append_1, hend]
    rw [gather_snoc, gather_snoc, hx.reads, hreads, hsplit, List.filter_append]
    -- the old positions are below n, the new ones are not
    congr 1
    · apply List.filter_congr
      intro m hm
      have hlt := List.mem_range'_1.mp hm
      have hnot : m ∉ R.skipped t := fun hmem => by
        have := hskip m hmem
        omega
      simp [hnot]
    · apply List.filter_congr
      intro m hm
      have hge := List.mem_range'_1.mp hm
      have hnot : m ∉ gather R.skipped h := fun hmem => by
        have := hx.skipped m hmem
        omega
      simp [hnot]
  skipped := by
    intro m hm
    rw [gather_snoc, List.mem_append] at hm
    cases hm with
    | inl hm => exact Nat.lt_of_lt_of_le (hx.skipped m hm) hle
    | inr hm => exact (hskip m hm).2

theorem filterMap_range' (l : List α) (start len : Nat) :
    (List.range' start len).filterMap (l[·]?) = (l.drop start).take len := by
  induction len generalizing start with
  | zero => rfl
  | succ len ih =>
    rw [List.range'_succ, List.filterMap_cons, ih (start + 1)]
    cases hl : l[start]? with
    | none =>
      have hle := List.getElem?_eq_none_iff.mp hl
      rw [List.drop_eq_nil_of_le hle, List.drop_eq_nil_of_le (Nat.le_succ_of_le hle)]
      simp
    | some a =>
      obtain ⟨hlt, rfl⟩ := List.getElem?_eq_some_iff.mp hl
      rw [List.drop_eq_getElem_cons hlt, List.take_succ_cons]

theorem Exact.values {h : List (Step σ ε ω)} {s : σ} {start : Nat} (hx : R.Exact h s k start n) :
    ((gather R.reads h).filterMap ((R.channel s k).log[·]?)).Sublist
      ((R.channel s k).log.drop start) := by
  have hsub : (gather R.reads h).Sublist (List.range' start (n - start)) := by
    rw [hx.reads]
    exact List.filter_sublist
  have hmap := hsub.filterMap ((R.channel s k).log[·]?)
  rw [filterMap_range'] at hmap
  exact hmap.trans (List.take_sublist _ _)

variable {next : σ → ε → Option (σ × List ω)} {s₀ s : σ} {h : List (Step σ ε ω)}

/-- From its subscription on a receiver reads every value once and in order,
except for those it has skipped. -/
theorem Lawful.run (hl : R.Lawful next) (hr : Run next s₀ h s) (h0 : R.place s₀ = none) :
    (R.place s = none → gather R.reads h = [] ∧ gather R.skipped h = []) ∧
      ∀ k n, R.place s = some (k, n) → ∃ start, R.Exact h s k start n := by
  induction hr with
  | nil =>
    refine ⟨fun _ => ⟨rfl, rfl⟩, ?_⟩
    intro k n hp
    rw [h0] at hp
    cases hp
  | @snoc h s s' e o hr hn ih =>
    obtain ⟨hnone, hsome⟩ := ih
    have hgrow := fun k => (hl.grows hn k).length_le
    cases hl.moves hn with
    | stays hreads hp =>
      cases hpre : R.place s with
      | none =>
        obtain ⟨hr0, hs0⟩ := hnone hpre
        have hp' : R.place s' = none := hp.trans hpre
        rw [gather_snoc, gather_snoc, hr0, hs0, hreads, skipped_of_none hpre, hp']
        exact ⟨fun _ => ⟨rfl, rfl⟩, nofun⟩
      | some kn =>
        obtain ⟨k, n⟩ := kn
        have hp' : R.place s' = some (k, n) := hp.trans hpre
        obtain ⟨start, hx⟩ := hsome k n hpre
        have hskip : R.skipped ⟨s, e, o, s'⟩ = [] := by
          rw [skipped_of_move hreads hpre hp', Nat.sub_self]
          rfl
        rw [hp']
        refine ⟨nofun, ?_⟩
        intro k' n' heq
        cases heq
        refine ⟨start, Exact.snoc (t := ⟨s, e, o, s'⟩) hx (Nat.le_refl _)
          (Nat.le_trans hx.log (hgrow k)) ?_ ?_⟩
        · rw [hreads, Nat.sub_self]
          rfl
        · rw [hskip]
          nofun
    | subscribes k hreads hpre hp =>
      obtain ⟨hr0, hs0⟩ := hnone hpre
      have hp' : R.place s' = some (k, (R.channel s k).log.length) := hp
      rw [hp']
      refine ⟨nofun, ?_⟩
      intro k' n' heq
      cases heq
      refine ⟨_, ⟨h.length, _, at_last _, hpre, hp, rfl⟩, Nat.le_refl _, hgrow k, ?_, ?_⟩
      · rw [gather_snoc, hr0, hreads, Nat.sub_self]
        rfl
      · rw [gather_snoc, hs0, skipped_of_none hpre]
        nofun
    | takes k n hreads hpre hlog hp =>
      obtain ⟨start, hx⟩ := hsome k n hpre
      have hp' : R.place s' = some (k, n + 1) := hp
      rw [hp']
      refine ⟨nofun, ?_⟩
      intro k' n' heq
      cases heq
      refine ⟨start, Exact.snoc (t := ⟨s, e, o, s'⟩) hx (Nat.le_succ n)
        (Nat.lt_of_lt_of_le hlog (hgrow k)) ?_ ?_⟩
      · rw [hreads, skipped_of_read hreads, Nat.add_sub_cancel_left]
        rfl
      · rw [skipped_of_read hreads]
        nofun
    | skips k n n' hreads hpre hlag hlog hp =>
      obtain ⟨start, hx⟩ := hsome k n hpre
      have hp' : R.place s' = some (k, n') := hp
      have hskip : R.skipped ⟨s, e, o, s'⟩ = List.range' n (n' - n) :=
        skipped_of_move hreads hpre hp
      have hle : n' ≤ (R.channel s k).log.length := by
        dsimp only at hlog
        omega
      rw [hp']
      refine ⟨nofun, ?_⟩
      intro k' n'' heq
      cases heq
      refine ⟨start, Exact.snoc (t := ⟨s, e, o, s'⟩) hx (Nat.le_of_lt hlag)
        (Nat.le_trans hle (hgrow k)) ?_ ?_⟩
      · rw [hreads, hskip, eq_comm, List.filter_eq_nil_iff]
        intro m hm
        simp [hm]
      · intro m hm
        rw [hskip, List.mem_range'_1] at hm
        omega

theorem Lawful.reads_lt (hl : R.Lawful next) (hr : Run next s₀ h s) (h0 : R.place s₀ = none)
    {m : Nat} (hm : m ∈ gather R.reads h) :
    ∃ k n, R.place s = some (k, n) ∧ m < n ∧ n ≤ (R.channel s k).log.length := by
  obtain ⟨hnone, hsome⟩ := hl.run hr h0
  cases hp : R.place s with
  | none =>
    rw [(hnone hp).1] at hm
    cases hm
  | some kn =>
    obtain ⟨start, hx⟩ := hsome kn.1 kn.2 hp
    exact ⟨kn.1, kn.2, rfl, (hx.lt hm).2, hx.log⟩

end Reader
end Broadcast

namespace Trace
variable {σ ε ω α : Type*} {next : σ → ε → Option (σ × List ω)} {s₀ s : σ}
  {h : List (Step σ ε ω)}

/-- A queue hands over what it is given, in order: what has left it and what is
still in it is what was put in. -/
theorem Run.fifo (queue : σ → List α) (pushes pops : Step σ ε ω → List α)
    (hlaw : ∀ {s e s' o}, next s e = some (s', o) →
      pops ⟨s, e, o, s'⟩ ++ queue s' = queue s ++ pushes ⟨s, e, o, s'⟩)
    (hr : Run next s₀ h s) : gather pops h ++ queue s = queue s₀ ++ gather pushes h := by
  induction hr with
  | nil => exact (List.append_nil _).symm
  | @snoc h s s' e o hr hn ih =>
    rw [gather_snoc, gather_snoc, List.append_assoc, hlaw hn, ← List.append_assoc, ih,
      List.append_assoc]

end Trace

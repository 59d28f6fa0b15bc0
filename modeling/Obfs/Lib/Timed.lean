import Mathlib.Data.List.Basic

/-! A machine that waits for inputs with a timer: its state names the deadline
of the running timer, and the timer fires when the deadline passes before the
next input arrives. A rank bounds how often it can fire in a row. -/
namespace Timed
variable {σ τ α : Type*}

structure Machine (σ α : Type*) where
  deadline : σ → Option Nat
  expire : σ → Nat → σ
  arrive : σ → Nat → α → σ
  rank : σ → Nat
  rank_expire : ∀ s d, deadline s = some d → rank (expire s d) < rank s

structure Arrival (α : Type*) where
  time : Nat
  input : α

namespace Machine
variable (M : Machine σ α)

/- The deadline, if it is before the given time; without one every deadline is. -/
def due (stop : Option Nat) (s : σ) : Option Nat :=
  (M.deadline s).filter fun d => stop.all fun t => d < t

def passFor (stop : Option Nat) : Nat → σ → σ
  | 0, s => s
  | n + 1, s =>
    match M.due stop s with
    | some d => passFor stop n (M.expire s d)
    | none => s

def pass (stop : Option Nat) (s : σ) : σ := M.passFor stop (M.rank s) s

def play (s : σ) (as : List (Arrival α)) : σ :=
  as.foldl (fun s a => M.arrive (M.pass (some a.time) s) a.time a.input) s

/-- The inputs of a schedule, and then only the timer. -/
def finish (s : σ) (as : List (Arrival α)) : σ := M.pass none (M.play s as)

variable {M}

theorem due_eq_some {stop : Option Nat} {s : σ} {d : Nat} (h : M.due stop s = some d) :
    M.deadline s = some d := (Option.filter_eq_some_iff.mp h).1

theorem passFor_enough {stop : Option Nat} {s : σ} {m n : Nat} (hm : M.rank s ≤ m)
    (hn : M.rank s ≤ n) : M.passFor stop m s = M.passFor stop n s := by
  induction m generalizing s n with
  | zero =>
    cases n with
    | zero => rfl
    | succ n =>
      rw [passFor, passFor]
      split
      · rename_i d hd
        have := M.rank_expire s d (due_eq_some hd)
        omega
      · rfl
  | succ m ih =>
    rw [passFor]
    split
    · rename_i d hd
      have hlt := M.rank_expire s d (due_eq_some hd)
      cases n with
      | zero => omega
      | succ n =>
        rw [passFor, hd]
        exact ih (by omega) (by omega)
    · rename_i hd
      cases n with
      | zero => rfl
      | succ n => rw [passFor, hd]

theorem pass_of_due {stop : Option Nat} {s : σ} {d : Nat} (h : M.due stop s = some d) :
    M.pass stop s = M.pass stop (M.expire s d) := by
  have hlt := M.rank_expire s d (due_eq_some h)
  have hone : M.pass stop s = M.passFor stop (M.rank s + 1) s :=
    passFor_enough (Nat.le_refl _) (Nat.le_succ _)
  rw [hone, passFor, h]
  exact passFor_enough (Nat.le_of_lt hlt) (Nat.le_refl _)

theorem pass_of_not_due {stop : Option Nat} {s : σ} (h : M.due stop s = none) :
    M.pass stop s = s := by
  rw [pass]
  cases M.rank s with
  | zero => rfl
  | succ n => rw [passFor, h]

theorem due_pass (stop : Option Nat) (s : σ) : M.due stop (M.pass stop s) = none := by
  generalize hn : M.rank s = n
  induction n using Nat.strongRecOn generalizing s with
  | ind n ih =>
    cases hd : M.due stop s with
    | none => rw [pass_of_not_due hd, hd]
    | some d =>
      rw [pass_of_due hd]
      exact ih _ (hn ▸ M.rank_expire s d (due_eq_some hd)) _ rfl

theorem pass_induct {stop : Option Nat} {I : σ → Prop} {s : σ} (h0 : I s)
    (hstep : ∀ s d, I s → M.deadline s = some d → I (M.expire s d)) : I (M.pass stop s) := by
  rw [pass]
  generalize M.rank s = n
  induction n generalizing s with
  | zero => exact h0
  | succ n ih =>
    rw [passFor]
    split
    · rename_i d hd
      exact ih (hstep s d h0 (due_eq_some hd))
    · exact h0

theorem play_append (s : σ) (as bs : List (Arrival α)) :
    M.play s (as ++ bs) = M.play (M.play s as) bs := List.foldl_append ..

theorem play_cons (s : σ) (a : Arrival α) (as : List (Arrival α)) :
    M.play s (a :: as) = M.play (M.arrive (M.pass (some a.time) s) a.time a.input) as := rfl

theorem finish_append (s : σ) (as bs : List (Arrival α)) :
    M.finish s (as ++ bs) = M.finish (M.play s as) bs := by
  rw [finish, finish, play_append]

theorem finish_cons (s : σ) (a : Arrival α) (as : List (Arrival α)) :
    M.finish s (a :: as) = M.finish (M.arrive (M.pass (some a.time) s) a.time a.input) as := rfl

/-- What timers and inputs keep holds along a schedule. -/
theorem play_induct {I : σ → Prop} {s : σ} (h0 : I s)
    (hexp : ∀ s d, I s → M.deadline s = some d → I (M.expire s d))
    (harr : ∀ s t i, I s → I (M.arrive s t i)) (as : List (Arrival α)) : I (M.play s as) := by
  induction as generalizing s with
  | nil => exact h0
  | cons a as ih => exact ih (harr _ _ _ (pass_induct h0 hexp))

/-- Two machines whose timers and inputs go alike. -/
structure Alike (M : Machine σ α) (N : Machine τ α) (R : σ → τ → Prop) : Prop where
  deadline : ∀ s s', R s s' → M.deadline s = N.deadline s'
  expire : ∀ s s' d, R s s' → R (M.expire s d) (N.expire s' d)
  arrive : ∀ s s' t i, R s s' → R (M.arrive s t i) (N.arrive s' t i)

variable {N : Machine τ α} {R : σ → τ → Prop}

theorem Alike.pass (h : Alike M N R) (stop : Option Nat) {s : σ} {s' : τ} (hR : R s s') :
    R (M.pass stop s) (N.pass stop s') := by
  have hn : ∀ n s s', R s s' → R (M.passFor stop n s) (N.passFor stop n s') := by
    intro n
    induction n with
    | zero => exact fun s s' hR => hR
    | succ n ih =>
      intro s s' hR
      rw [passFor, passFor, due, due, h.deadline s s' hR]
      split
      · exact ih _ _ (h.expire s s' _ hR)
      · exact hR
  have hM : M.pass stop s = M.passFor stop (max (M.rank s) (N.rank s')) s :=
    passFor_enough (Nat.le_refl _) (Nat.le_max_left _ _)
  have hN : N.pass stop s' = N.passFor stop (max (M.rank s) (N.rank s')) s' :=
    passFor_enough (Nat.le_refl _) (Nat.le_max_right _ _)
  rw [hM, hN]
  exact hn _ s s' hR

theorem Alike.play (h : Alike M N R) (as : List (Arrival α)) {s : σ} {s' : τ} (hR : R s s') :
    R (M.play s as) (N.play s' as) := by
  induction as generalizing s s' with
  | nil => exact hR
  | cons a as ih => exact ih (h.arrive _ _ _ _ (h.pass _ hR))

theorem Alike.finish (h : Alike M N R) (as : List (Arrival α)) {s : σ} {s' : τ} (hR : R s s') :
    R (M.finish s as) (N.finish s' as) := h.pass none (h.play as hR)

end Machine
end Timed

import Mathlib.Data.List.Basic

/-! One-shot channels, and the biased choice between awaited operations. -/
namespace Async
variable {α : Type*}

/-- A one-shot channel: still waiting for its value, filled, or with its sender
dropped before it sent anything. -/
inductive Oneshot (α : Type*) where
  | waiting
  | filled (a : α)
  | dropped
  deriving DecidableEq

def Oneshot.fill (a : α) : Oneshot α → Oneshot α
  | .waiting => .filled a
  | o => o

def Oneshot.drop : Oneshot α → Oneshot α
  | .waiting => .dropped
  | o => o

theorem Oneshot.fill_eq_filled {a b : α} {o : Oneshot α} (h : o.fill a = .filled b) :
    o = .filled b ∨ (o = .waiting ∧ b = a) := by
  cases o with
  | waiting =>
    cases h
    exact Or.inr ⟨rfl, rfl⟩
  | filled c => exact Or.inl h
  | dropped => cases h

theorem Oneshot.drop_eq_filled {b : α} {o : Oneshot α} : o.drop = .filled b ↔ o = .filled b := by
  cases o <;> simp [drop]

/-- An operation that a select awaits: pending, completed with a value that the
pattern of its arm takes, or completed with one that the pattern refuses, which
disables the arm. -/
inductive Arm (α : Type*) where
  | pending
  | ready (a : α)
  | disabled

inductive Choice (α : Type*) where
  | run (a : α)
  | otherwise
  | wait

/-- The arms are polled in order and the first that is ready runs. The else arm
runs only if all others are disabled. -/
def select : List (Arm α) → Choice α
  | [] => .otherwise
  | .ready a :: _ => .run a
  | .disabled :: arms => select arms
  | .pending :: arms =>
    match select arms with
    | .run a => .run a
    | _ => .wait

theorem select_eq_otherwise {arms : List (Arm α)} :
    select arms = .otherwise ↔ ∀ arm ∈ arms, arm = .disabled := by
  induction arms with
  | nil => simp [select]
  | cons arm arms ih =>
    cases arm with
    | ready a => simp [select]
    | disabled => simp [select, ih]
    | pending =>
      simp only [select]
      cases select arms <;> simp

theorem ready_of_select {arms : List (Arm α)} {a : α} (h : select arms = .run a) :
    .ready a ∈ arms := by
  induction arms with
  | nil => cases h
  | cons arm arms ih =>
    cases arm with
    | ready b =>
      cases h
      exact List.mem_cons_self
    | disabled => exact List.mem_cons_of_mem _ (ih h)
    | pending =>
      apply List.mem_cons_of_mem
      apply ih
      simp only [select] at h
      cases hs : select arms with
      | run b => rw [hs] at h; exact h
      | otherwise => rw [hs] at h; cases h
      | wait => rw [hs] at h; cases h

end Async

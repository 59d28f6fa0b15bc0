import Mathlib.Data.List.Basic

/-! A bounded multi-consumer broadcast channel. The channel is the list of all
values ever sent; a receiver is the index of the next value it reads, and one
that falls more than the capacity behind skips to the oldest value kept. -/
namespace Broadcast
variable {α : Type*}

structure Channel (α : Type*) where
  capacity : Nat
  log : List α
  closed : Bool

structure Receiver where
  next : Nat

inductive Recv (α : Type*) where
  | ok (a : α)
  | lagged (missed : Nat)
  | closed
  | empty

def Channel.send (c : Channel α) (a : α) : Channel α :=
  if c.closed then c else { c with log := c.log ++ [a] }

def Channel.close (c : Channel α) : Channel α := { c with closed := true }

/- A new receiver sees only what is sent after it subscribed. -/
def Channel.subscribe (c : Channel α) : Receiver := ⟨c.log.length⟩

def Channel.recv (c : Channel α) (r : Receiver) : Recv α × Receiver :=
  if c.log.length - r.next > c.capacity then
    (.lagged (c.log.length - c.capacity - r.next), ⟨c.log.length - c.capacity⟩)
  else
    match c.log[r.next]? with
    | some a => (.ok a, ⟨r.next + 1⟩)
    | none => if c.closed then (.closed, r) else (.empty, r)

theorem Channel.recv_ok {c : Channel α} {r r' : Receiver} {a : α}
    (h : c.recv r = (.ok a, r')) : c.log[r.next]? = some a ∧ r' = ⟨r.next + 1⟩ := by
  unfold Channel.recv at h
  split at h
  · cases h
  · split at h
    · rename_i hg
      cases h
      exact ⟨hg, rfl⟩
    · split at h <;> cases h

theorem Channel.log_send (c : Channel α) (a : α) : c.log <+: (c.send a).log := by
  unfold Channel.send
  split
  · exact List.prefix_refl _
  · exact List.prefix_append _ _

theorem log_update {channels : Nat → Channel α} {f : Channel α → Channel α}
    (hf : ∀ c, c.log <+: (f c).log) (i k : Nat) :
    (channels k).log <+: (if k = i then f (channels k) else channels k).log := by
  split
  · exact hf _
  · exact List.prefix_refl _

end Broadcast

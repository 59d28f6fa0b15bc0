import Obfs.Envelope
import Obfs.Lib.Broadcast

/-! The task a subscription spawns on either transport: it reads the event
source it subscribed to and hands the events of its topic to the session's
outbound channel, until the source closes or nobody receives any more. -/
namespace Obfs
open Broadcast
variable {C : Core}

structure Forwarder (C : Core) where
  source : Nat
  rx : Receiver
  topic : C.Topic
  tx : Nat
  live : Bool

def Forwarder.spawn (source : Nat) (ch : Channel (Event C)) (topic : C.Topic) (tx : Nat) :
    Forwarder C :=
  ⟨source, ch.subscribe, topic, tx, true⟩

/-- One turn of the task's loop: the task afterwards and the event it sends.
None when the task has ended or waits for the source. -/
def Forwarder.poll (f : Forwarder C) (ch : Channel (Event C)) (receiverAlive : Bool) :
    Option (Forwarder C × Option (Event C)) :=
  if f.live then
    match ch.recv f.rx with
    | (.ok ev, rx) =>
      if ev.topic = f.topic then
        if receiverAlive then some ({ f with rx := rx }, some ev)
        else some ({ f with rx := rx, live := false }, none)
      else some ({ f with rx := rx }, none)
    | (.lagged _, rx) => some ({ f with rx := rx }, none)
    | (.closed, rx) => some ({ f with rx := rx, live := false }, none)
    | (.empty, _) => none
  else none

theorem Forwarder.poll_spec {f f' : Forwarder C} {ch : Channel (Event C)} {alive : Bool}
    {sent : Option (Event C)} (h : f.poll ch alive = some (f', sent)) :
    f.live = true ∧ f'.source = f.source ∧ f'.topic = f.topic ∧ f'.tx = f.tx ∧
      ∀ ev, sent = some ev →
        ev.topic = f.topic ∧ ch.log[f.rx.next]? = some ev ∧ alive = true ∧ f'.live = true := by
  unfold Forwarder.poll at h
  split at h
  · rename_i hl
    refine ⟨hl, ?_⟩
    split at h
    · rename_i ev rx hr
      split at h
      · rename_i ht
        split at h
        · rename_i ha
          cases h
          refine ⟨rfl, rfl, rfl, ?_⟩
          intro ev' he
          cases he
          exact ⟨ht, (Channel.recv_ok hr).1, ha, hl⟩
        · cases h
          exact ⟨rfl, rfl, rfl, fun _ he => by cases he⟩
      · cases h
        exact ⟨rfl, rfl, rfl, fun _ he => by cases he⟩
    · cases h
      exact ⟨rfl, rfl, rfl, fun _ he => by cases he⟩
    · cases h
      exact ⟨rfl, rfl, rfl, fun _ he => by cases he⟩
    · cases h
  · cases h

end Obfs

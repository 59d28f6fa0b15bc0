import Obfs.Client.Steps

/-! What a transport asks of its link, read off its steps: reads and sends in
the order in which they happen. Nothing else touches the link. -/
namespace Obfs.Client
open Async Broadcast Trace
variable {C : Core} {p : Params C}

variable (p) in
inductive LinkOp where
  | recv (i : p.link.In)
  | send (env : Envelope C) (out : p.link.Out)

def LinkOp.run (link : p.link.State) : LinkOp p → p.link.State
  | .recv i => (p.link.recv link i).2
  | .send env out => (p.link.send link env out).2

/-- The operations of a step: an outbound envelope is sent; a read is made, and
a Ping that it returns is answered. -/
def linkOps (t : TransportStep p) : List (LinkOp p) :=
  match t.event, t.out with
  | .pump (.turn _ _ out), .took _ env :: _ => [.send env out]
  | .pump (.turn _ (some i) out), .received .ping :: _ => [.recv i, .send .pong out]
  | .pump (.turn _ (some i) _), _ => [.recv i]
  | _, _ => []

def TransportEffect.received? : TransportEffect C → Option (Envelope C)
  | .received env => some env
  | _ => none

def TransportEffect.took? : TransportEffect C → Option (Origin × Envelope C)
  | .took origin env => some (origin, env)
  | _ => none

def receivedFrom (o : List (TransportEffect C)) : List (Envelope C) :=
  o.filterMap TransportEffect.received?

def takenFrom (o : List (TransportEffect C)) : List (Origin × Envelope C) :=
  o.filterMap TransportEffect.took?

theorem mem_receivedFrom {o : List (TransportEffect C)} {env : Envelope C} :
    env ∈ receivedFrom o ↔ TransportEffect.received env ∈ o := by
  rw [receivedFrom, List.mem_filterMap]
  constructor
  · rintro ⟨x, hx, he⟩
    unfold TransportEffect.received? at he
    split at he <;> cases he
    exact hx
  · exact fun hx => ⟨_, hx, rfl⟩

theorem mem_takenFrom {o : List (TransportEffect C)} {origin : Origin} {env : Envelope C} :
    (origin, env) ∈ takenFrom o ↔ TransportEffect.took origin env ∈ o := by
  rw [takenFrom, List.mem_filterMap]
  constructor
  · rintro ⟨x, hx, he⟩
    unfold TransportEffect.took? at he
    split at he <;> cases he
    exact hx
  · exact fun hx => ⟨_, hx, rfl⟩

inductive LinkCase (s : Transport p) (o : List (TransportEffect C)) :
    List (LinkOp p) → Prop where
  | none (hr : receivedFrom o = []) (ht : takenFrom o = []) : LinkCase s o []
  | took {origin : Origin} {env : Envelope C} {out : p.link.Out} (hr : receivedFrom o = [])
      (ht : takenFrom o = [(origin, env)]) : LinkCase s o [.send env out]
  | unread {i : p.link.In} (hi : ∀ env, (p.link.recv s.link i).1 ≠ .envelope env)
      (hr : receivedFrom o = []) (ht : takenFrom o = []) : LinkCase s o [.recv i]
  | read {i : p.link.In} {env : Envelope C} (hi : (p.link.recv s.link i).1 = .envelope env)
      (hr : receivedFrom o = [env]) (ht : takenFrom o = []) : LinkCase s o [.recv i]
  | answered {i : p.link.In} {out : p.link.Out} (hi : (p.link.recv s.link i).1 = .envelope .ping)
      (hr : receivedFrom o = [.ping]) (ht : takenFrom o = []) :
      LinkCase s o [.recv i, .send .pong out]

theorem LinkCase.length_received {s : Transport p} {o : List (TransportEffect C)}
    {ops : List (LinkOp p)} (hc : LinkCase s o ops) : (receivedFrom o).length ≤ 1 := by
  cases hc with
  | none hr | took hr | unread hi hr | read hi hr | answered hi hr => simp [hr]

theorem TurnCase.link {s s' : Transport p} {late : Bool} {out : p.link.Out}
    {inbound : Option p.link.In} {o : List (TransportEffect C)}
    (hc : TurnCase s late out inbound s' o) :
    LinkCase s o (linkOps ⟨s, .pump (.turn late inbound out), o, s'⟩) ∧
      s'.link = (linkOps ⟨s, .pump (.turn late inbound out), o, s'⟩).foldl LinkOp.run s.link := by
  cases hc with
  | took hq ha => exact ⟨.took rfl rfl, rfl⟩
  | readFailed hi | nothing hi =>
    refine ⟨.unread (by simp [hi]) rfl rfl, ?_⟩
    simp [linkOps, LinkOp.run, hi]
  | unmatched hi hl | broadcast hi =>
    refine ⟨.read (by rw [hi]) rfl rfl, ?_⟩
    simp [linkOps, LinkOp.run, hi]
  | @matched i link resp slot hi hl =>
    refine ⟨?_, by simp [linkOps, LinkOp.run, hi]⟩
    cases hw : s.requests.waiters[slot]? with
    | none => exact .read (by rw [hi]) rfl rfl
    | some w => exact .read (by rw [hi]) rfl rfl
  | pinged hi ha =>
    refine ⟨.answered (by rw [hi]) rfl rfl, ?_⟩
    simp [linkOps, LinkOp.run, hi]
  | @inert i link env hi he =>
    -- an envelope that is no Ping is only read
    have hops : linkOps ⟨s, .pump (.turn late (some i) out), [.received env],
        { s with link := link }⟩ = [.recv i] := by
      cases env <;> first | rfl | exact absurd rfl he
    rw [hops]
    exact ⟨.read (by rw [hi]) rfl rfl, by simp [LinkOp.run, hi]⟩

/-- Every step of a transport uses its link in one of these ways, and leaves it
as its operations do. -/
theorem link_step {s s' : Transport p} {e : TransportEvent p} {o : List (TransportEffect C)}
    (hn : next s e = some (s', o)) :
    LinkCase s o (linkOps ⟨s, e, o, s'⟩) ∧
      s'.link = (linkOps ⟨s, e, o, s'⟩).foldl LinkOp.run s.link := by
  cases next_case hn with
  | turn hp ht => exact ht.link
  | _ => exact ⟨.none rfl rfl, rfl⟩

/-- Apart from answers to a Ping a link is given what the pump has taken, and
nothing else in the same step. -/
theorem LinkCase.sent {s : Transport p} {o : List (TransportEffect C)} {ops : List (LinkOp p)}
    (hc : LinkCase s o ops) {env : Envelope C} {out : p.link.Out}
    (hs : LinkOp.send env out ∈ ops) (hp : env ≠ .pong) :
    ops = [.send env out] ∧ ∃ origin, TransportEffect.took origin env ∈ o := by
  cases hc with
  | took hr ht =>
    cases List.mem_singleton.mp hs
    exact ⟨rfl, _, mem_takenFrom.mp (by rw [ht]; exact List.mem_singleton_self _)⟩
  | answered hi hr ht =>
    simp only [List.mem_cons, reduceCtorEq, LinkOp.send.injEq, List.not_mem_nil, or_false,
      false_or] at hs
    exact absurd hs.1 hp
  | _ => simp at hs

end Obfs.Client

import Obfs.Client.Events
import Obfs.Client.Shutdown

/-! Datagrams that do not open leave an established datagram client as it was. -/
namespace Obfs.Client
open Async Broadcast Trace Udp
variable {K : Crates}

/-- A record that does not open leaves the opener unchanged. -/
def FailedOpenKeeps (K : Crates) : Prop :=
  ∀ o record aad e, (K.openRecord o record aad).1 = .error e → (K.openRecord o record aad).2 = o

theorem openDatagram_junk (hk : FailedOpenKeeps K) {ch : DataChannel K} {datagram : Bytes}
    (h : openedBy ch.opener datagram = none) : ch.openDatagram datagram = (.ok none, ch) := by
  unfold openedBy at h
  unfold DataChannel.openDatagram
  cases hi : K.shapeIn datagram with
  | none => rfl
  | some inner =>
    rw [hi] at h
    dsimp only at h ⊢
    cases hd : decodeInner inner with
    | none => rfl
    | some d =>
      obtain ⟨ty, record⟩ := d
      rw [hd] at h
      dsimp only
      by_cases hty : ty = .data
      · rw [if_neg (not_not.mpr hty)]
        subst hty
        dsimp only at h
        cases ho : K.openRecord ch.opener record [] with
        | mk res opener =>
          rw [ho] at h
          cases res with
          | error e =>
            have hkeep := hk ch.opener record [] e (by rw [ho])
            rw [ho] at hkeep
            dsimp only at hkeep ⊢
            rw [hkeep]
          | ok plaintext => cases h
      · rw [if_pos hty]

theorem idle_turn {C : Core} {p : Params C} {s : Transport p} {late : Bool} {i : p.link.In}
    {out : p.link.Out} (hp : s.pump = .looping) (ha : late = true ∨ s.outbound = [])
    (hi : p.link.recv s.link i = (.nothing, s.link)) :
    next s (.pump (.turn late (some i) out)) = some (s, []) := by
  have hsel : select [s.outboundArm late, inboundArm (some i)] = .run (.inbound i) := by
    unfold Transport.outboundArm inboundArm
    cases ho : s.outbound with
    | nil => cases s.handle <;> rfl
    | cons q rest =>
      cases ha with
      | inl ha =>
        rw [ha]
        rfl
      | inr ha =>
        rw [ho] at ha
        cases ha
  simp only [next, pumpNext, hp, pumpTurn, hsel, hi]
  rw [← hp]

section Client
variable {requestId : K.core.Request → String} {responseId : K.core.Response → String}
  {capability : Option K.core.Capability}

/-- A turn of the pump reads a datagram that does not open there and then. -/
def JunkTurn (s : Transport (udpObfsTransport requestId responseId capability))
    (e : TransportEvent (udpObfsTransport requestId responseId capability)) : Prop :=
  ∃ late datagram out, e = .pump (.turn late (some (.ok datagram)) out) ∧ s.pump = .looping ∧
    (late = true ∨ s.outbound = []) ∧
    openedBy (K := K) (DataChannel.opener s.link) datagram = none

theorem junkTurn_next (hk : FailedOpenKeeps K)
    {s : Transport (udpObfsTransport requestId responseId capability)}
    {e : TransportEvent (udpObfsTransport requestId responseId capability)} (h : JunkTurn s e) :
    next s e = some (s, []) := by
  obtain ⟨late, datagram, out, he, hp, ha, hopen⟩ := h
  have hrecv : (udpLink K).recv s.link (.ok datagram) = (.nothing, s.link) := by
    have hj := openDatagram_junk hk hopen
    unfold udpLink
    dsimp only
    rw [hj]
    rfl
  rw [he]
  exact idle_turn hp ha hrecv

theorem udp_looping {channel : DataChannel K}
    {h : List (TransportStep (udpObfsTransport requestId responseId capability))}
    {s : Transport (udpObfsTransport requestId responseId capability)}
    (hr : TransportRun (udpObfsTransport requestId responseId capability) channel h s)
    (hio : ∀ i t late e out, At h i t → t.event ≠ .pump (.turn late (some (.error e)) out)) :
    s.pump.left = false ∧ s.state = .connected := by
  refine hr.invariant_of
    (C := fun t => ∀ late e out, t.event ≠ .pump (.turn late (some (.error e)) out))
    (I := fun s => s.pump.left = false ∧ s.state = .connected) ⟨rfl, rfl⟩ ?_ ?_
  · intro s e s' o hi hC hn
    cases next_case hn with
    | turn hp ht =>
      cases ht with
      | took hq =>
        have hstop :
            (udpObfsTransport requestId responseId capability).link.sendStops = false := rfl
        refine ⟨?_, hi.2⟩
        dsimp only
        rw [hstop]
        rfl
      | @readFailed i link hf =>
        obtain ⟨e, he⟩ := udp_recv_failed.mp (congrArg Prod.fst hf)
        exact absurd (by rw [he]) (hC _ e _)
      | matched _ _ => exact ⟨rfl, hi.2⟩
      | _ => exact hi
    | delivered hp => exact ⟨rfl, hi.2⟩
    | down hp => rw [hp] at hi; cases hi.1
    | drained hp => rw [hp] at hi; cases hi.1
    | dropped hp => rw [hp] at hi; cases hi.1
    | finished hp => rw [hp] at hi; cases hi.1
    | _ => exact hi
  · intro i t ht late e out
    exact hio i t late e out ht

/-- The results of calls, and the Pongs sent, in a step. -/
def completions {C : Core} {p : Params C} (t : TransportStep p) :
    List (Nat × Except (CoreError C) C.Response) :=
  t.out.filterMap fun
    | .returned c res => some (c, res)
    | _ => none

def pongs {C : Core} {p : Params C} (t : TransportStep p) : List Bool :=
  t.out.filterMap fun
    | .sent .pong ok => some ok
    | _ => none

/-- Junk cannot disturb an established datagram client. Whatever datagrams arrive,
the pump stays in its loop, connected, and never drains the map; and when
datagrams that do not open at the point where they arrive are inserted into a run
at any positions, there is a run with these events that ends in the same state,
with the same results of calls, the same broadcasts and the same Pongs. -/
theorem udp_junk_ignored (hk : FailedOpenKeeps K) {channel : DataChannel K}
    {h : List (TransportStep (udpObfsTransport requestId responseId capability))}
    {s : Transport (udpObfsTransport requestId responseId capability)}
    (hr : TransportRun (udpObfsTransport requestId responseId capability) channel h s) :
    ((∀ i t late e out, At h i t → t.event ≠ .pump (.turn late (some (.error e)) out)) →
      s.pump.left = false ∧ s.state = .connected ∧
        ∀ i t, At h i t → t.event ≠ .pump .drain) ∧
    ∀ es, Inserts next JunkTurn (Transport.init _ channel) h es s →
      ∃ g, TransportRun (udpObfsTransport requestId responseId capability) channel g s ∧
        g.map Step.event = es ∧ gather completions g = gather completions h ∧
        gather broadcasts g = gather broadcasts h ∧
        (gather pongs g).length = (gather pongs h).length := by
  refine ⟨?_, ?_⟩
  · intro hio
    obtain ⟨hp, hs⟩ := udp_looping hr hio
    refine ⟨hp, hs, ?_⟩
    intro i t ht he
    obtain ⟨hpre, hn⟩ := hr.step ht
    have hleft := (udp_looping hpre fun j u late e out hu => hio j u late e out hu.of_take.2).1
    rw [he] at hn
    rw [(drain_step hn).1] at hleft
    cases hleft
  · intro es hi
    obtain ⟨g, hg, hev, hout⟩ := hi.same_outputs fun s e he => junkTurn_next hk he
    refine ⟨g, hg, hev, ?_, ?_, ?_⟩
    · exact (filterMap_gather _).trans ((congrArg _ hout).trans (filterMap_gather _).symm)
    · exact (filterMap_gather _).trans ((congrArg _ hout).trans (filterMap_gather _).symm)
    · have he : gather pongs g = gather pongs h :=
        (filterMap_gather _).trans ((congrArg _ hout).trans (filterMap_gather _).symm)
      rw [he]

end Client

theorem failedOpenKeeps_symbolic : FailedOpenKeeps Symbolic.crates := by
  intro o record aad e h
  simp only [Symbolic.openRecord] at h ⊢
  split at h
  · cases h
  · rename_i hn
    rw [if_neg hn]

theorem udp_junk_ignored_noise :
    ∃ h s g, TransportRun Symbolic.udpClient Symbolic.clientChannel h s ∧
      TransportRun Symbolic.udpClient Symbolic.clientChannel g s ∧ g.length = h.length + 2 ∧
      gather completions h = [(0, .ok (5 : UInt8))] ∧
      gather completions g = gather completions h := by
  have hx : ∃ h s, TransportRun Symbolic.udpClient Symbolic.clientChannel h s ∧
      h.map Step.event = [.request 5, .call 0 .insert, .call 0 .send,
        .pump (.turn false none ((), .ok ())),
        .pump (.turn false (some (.ok (Symbolic.data (Symbolic.keyOf 2) 0 (.response 5))))
          ((), .ok ())), .pump .deliver, .call 0 .wake] ∧
      (gather completions h).map (fun x => (x.1, x.2.toOption)) = [(0, some (5 : UInt8))] :=
    Run.of_exec (fun (h : List (TransportStep Symbolic.udpClient)) _ =>
      (gather completions h).map (fun x => (x.1, x.2.toOption)) = [(0, some (5 : UInt8))])
      (by decide +kernel)
  obtain ⟨h, s, hr, -, hc⟩ := hx
  have hres : gather completions h = [(0, .ok (5 : UInt8))] := by
    obtain ⟨x, hx, hv⟩ := List.map_eq_singleton_iff.mp hc
    obtain ⟨c, res⟩ := x
    cases res with
    | ok resp =>
      cases hv
      exact hx
    | error e => cases hv
  have hjunk : ∀ datagram, openedBy (K := Symbolic.crates) ⟨Symbolic.keyOf 2, []⟩ datagram = none →
      JunkTurn (Transport.init Symbolic.udpClient Symbolic.clientChannel)
        (.pump (.turn false (some (.ok datagram)) ((), .ok ()))) :=
    fun datagram hd => ⟨false, datagram, ((), .ok ()), rfl, rfl, Or.inr rfl, hd⟩
  have hi := ((Inserts.nil.insert (hjunk [] (by decide +kernel))).insert
    (hjunk [5, 1, 2, 3] (by decide +kernel))).then_run hr
  obtain ⟨g, hg, hev, hcg, -, -⟩ := (udp_junk_ignored failedOpenKeeps_symbolic hr).2 _ hi
  refine ⟨h, s, g, hr, hg, ?_, hres, hcg⟩
  have hlen := congrArg List.length hev
  simp only [List.length_map, List.length_append] at hlen
  rw [hlen]
  simp
  omega

end Obfs.Client

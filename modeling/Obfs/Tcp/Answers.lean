import Obfs.Client.Calls
import Obfs.Tcp.Channels

/-! request() over a TCP stream, from the caller to the service and back. The
pump of a connection serves one request after the other, and the streams keep
the order of what is sent. So the responses that a client receives are the
answers to the first requests it has sent, one for one and in order. -/
namespace Obfs

def Envelope.request? {C : Core} : Envelope C → Option C.Request
  | .request req => some req
  | _ => none

def Envelope.response? {C : Core} : Envelope C → Option C.Response
  | .response resp => some resp
  | _ => none

namespace Tcp
open Broadcast Client TcpStream Trace

section Connection
variable {C : Core} {service : Service C}

/- What of an envelope is encrypted, by how its send ends. -/
def encryptedOf (env : Envelope C) : SendResult → List (Envelope C)
  | .unsealed _ => []
  | _ => [env]

theorem sendFrame_effects (s : ConnState C) (env : Envelope C) (sent : SendResult) :
    (sendFrame s env sent).2 = (encryptedOf env sent).map .encrypted := by
  cases sent <;> rfl

theorem encrypted?_map (envs : List (Envelope C)) :
    (envs.map ConnEffect.encrypted).filterMap ConnEffect.encrypted? = envs ∧
      (envs.map ConnEffect.encrypted).filterMap ConnEffect.received? = [] ∧
      (envs.map ConnEffect.encrypted).filterMap ConnEffect.handled? = [] := by
  induction envs with
  | nil => exact ⟨rfl, rfl, rfl⟩
  | cons env envs ih => simp_all [ConnEffect.encrypted?, ConnEffect.received?, ConnEffect.handled?]

theorem answer_effects (s : ConnState C) (env reply : Envelope C) (sent : SendResult) :
    (.received env :: (sendFrame s reply sent).2).filterMap ConnEffect.received? = [env] ∧
      (.received env :: (sendFrame s reply sent).2).filterMap ConnEffect.encrypted? =
        encryptedOf reply sent ∧
      (.received env :: (sendFrame s reply sent).2).filterMap ConnEffect.handled? = [] := by
  obtain ⟨henc, hrec, hhan⟩ := encrypted?_map (encryptedOf reply sent)
  rw [sendFrame_effects]
  refine ⟨?_, (List.filterMap_cons_none rfl).trans henc, (List.filterMap_cons_none rfl).trans hhan⟩
  show env :: List.filterMap ConnEffect.received? _ = [env]
  rw [hrec]

theorem frame_effects {s s' : ConnState C} {env : Envelope C} {sent : SendResult}
    {o : List (ConnEffect C)} (h : connNext service s (.frame env sent) = some (s', o)) :
    o.filterMap ConnEffect.received? = [env] ∧
      o.filterMap ConnEffect.encrypted? =
        (inlineReply service env).toList.flatMap (encryptedOf · sent) ∧
      o.filterMap ConnEffect.handled? = env.request?.toList := by
  generalize he : ConnEvent.frame env sent = e at h
  cases connNext_case h with
  | ping hs =>
    cases he
    obtain ⟨hrec, henc, hhan⟩ := answer_effects s .ping .pong sent
    exact ⟨hrec, henc.trans (List.append_nil _).symm, hhan⟩
  | @denied topic filter capability err sent' hs hv =>
    cases he
    obtain ⟨hrec, henc, hhan⟩ := answer_effects s (.subscribe topic filter capability)
      (.subscribeError topic (denyDiagnostic err)) sent
    have hreply : inlineReply service (.subscribe topic filter capability) =
        some (.subscribeError topic (denyDiagnostic err)) := by
      simp only [inlineReply, hv]
    rw [hreply]
    exact ⟨hrec, henc.trans (List.append_nil _).symm, hhan⟩
  | request hs =>
    cases he
    exact ⟨rfl, rfl, rfl⟩
  | unserved hs hv hsrc | subscribed hs hv hsrc =>
    cases he
    simp [ConnEffect.received?, ConnEffect.encrypted?, ConnEffect.handled?, inlineReply, hv,
      Envelope.request?]
  | @inert env' sent' hs hi =>
    cases he
    cases env with
    | request | subscribe | ping => cases hi
    | _ => exact ⟨rfl, rfl, rfl⟩
  | _ => cases he

theorem outbound_effects {s s' : ConnState C} {env : Envelope C} {rest : List (Envelope C)}
    {sent : SendResult} {o : List (ConnEffect C)} (hq : s.queue = env :: rest)
    (h : connNext service s (.outbound sent) = some (s', o)) :
    o = (encryptedOf env sent).map .encrypted := by
  simp only [connNext, hq] at h
  split at h
  · rename_i he
    cases he
    exact (congrArg Prod.snd (Option.some.inj h)).symm.trans (sendFrame_effects _ _ _)
  · cases h

theorem respond_effects {s s' : ConnState C} {req : C.Request} {sent : SendResult}
    {o : List (ConnEffect C)} (hp : s.pump = .serving req)
    (h : connNext service s (.respond sent) = some (s', o)) :
    o = (encryptedOf (.response (service.handle req)) sent).map .encrypted := by
  simp only [connNext, hp] at h
  exact (congrArg Prod.snd (Option.some.inj h)).symm.trans (sendFrame_effects _ _ _)

/-- The responses sent are the answers to the requests handled. While the pump
is inside the handler the last one is due; when it has stopped some may be. -/
def Answering (service : Service C) (reqs : List C.Request) (resps : List C.Response) :
    PumpState C → Prop
  | .pumping => resps = reqs.map service.handle
  | .serving req => ∃ done, reqs = done ++ [req] ∧ resps = done.map service.handle
  | .stopped => resps <+: reqs.map service.handle

theorem Answering.isPrefix {reqs : List C.Request} {resps : List C.Response} {pump : PumpState C}
    (h : Answering service reqs resps pump) : resps <+: reqs.map service.handle := by
  cases pump with
  | pumping =>
    obtain rfl : resps = reqs.map service.handle := h
    exact List.prefix_refl _
  | serving req =>
    obtain ⟨done, rfl, rfl⟩ := h
    rw [List.map_append]
    exact List.prefix_append _ _
  | stopped => exact h

def respondedIn (o : List (ConnEffect C)) : List C.Response :=
  (o.filterMap ConnEffect.encrypted?).filterMap Envelope.response?

def Pushing (s : ConnState C) : Prop := ∀ env ∈ s.queue, env.response? = none

theorem pushing_step {s s' : ConnState C} {e : ConnEvent C} {o : List (ConnEffect C)}
    (hq : Pushing s) (h : connNext service s e = some (s', o)) : Pushing s' := by
  have henqueue {s : ConnState C} {env : Envelope C} (hq : Pushing s) (he : env.response? = none) :
      Pushing (s.enqueue env) := by
    intro x hx
    rcases mem_enqueue hx with hx | rfl
    · exact hq x hx
    · exact he
  cases connNext_case h with
  | ping hs | denied hs hv | respond hs =>
    unfold Pushing
    rw [sendFrame_queue]
    exact hq
  | outbound hs hrest =>
    unfold Pushing
    rw [sendFrame_queue]
    exact fun x hx => hq x (by rw [hrest]; exact List.mem_cons_of_mem _ hx)
  | unserved hs hv he => exact henqueue hq rfl
  | forwarded hf hp => exact henqueue (s := { s with forwarders := _ }) hq rfl
  | _ => exact hq

theorem Answering.sent {reqs : List C.Request} {resps : List C.Response} {s : ConnState C}
    {env : Envelope C} (hs : resps = reqs.map service.handle) (he : env.response? = none)
    (sent : SendResult) :
    Answering service reqs (resps ++ respondedIn (sendFrame s env sent).2)
      (sendFrame s env sent).1.pump := by
  have hnone : respondedIn (sendFrame s env sent).2 = [] := by
    rw [respondedIn, sendFrame_effects, (encrypted?_map _).1]
    cases sent <;> simp [encryptedOf, he]
  rw [hnone, List.append_nil]
  cases sent with
  | ok => exact hs
  | unsealed text => exact hs ▸ List.prefix_refl _
  | unwritten text => exact hs ▸ List.prefix_refl _

theorem answering_step {s s' : ConnState C} {e : ConnEvent C} {o : List (ConnEffect C)}
    {reqs : List C.Request} {resps : List C.Response} (hq : Pushing s)
    (ih : Answering service reqs resps s.pump) (h : connNext service s e = some (s', o)) :
    Answering service (reqs ++ o.filterMap ConnEffect.handled?) (resps ++ respondedIn o)
      s'.pump := by
  have hsame {s' : ConnState C} {o : List (ConnEffect C)} (hp : s'.pump = s.pump)
      (hh : o.filterMap ConnEffect.handled? = []) (hr : respondedIn o = []) :
      Answering service (reqs ++ o.filterMap ConnEffect.handled?) (resps ++ respondedIn o)
        s'.pump := by
    rw [hh, hr, hp, List.append_nil, List.append_nil]
    exact ih
  -- the effects of a send, after the envelope that it answers
  have hsend {s₁ : ConnState C} {env : Envelope C} {sent : SendResult} {x : List (ConnEffect C)}
      (hs : s.pump = .pumping) (he : env.response? = none)
      (hh : x.filterMap ConnEffect.handled? = []) (hr : respondedIn x = []) :
      Answering service (reqs ++ (x ++ (sendFrame s₁ env sent).2).filterMap ConnEffect.handled?)
        (resps ++ respondedIn (x ++ (sendFrame s₁ env sent).2))
        (sendFrame s₁ env sent).1.pump := by
    rw [hs] at ih
    have hnone : (x ++ (sendFrame s₁ env sent).2).filterMap ConnEffect.handled? = [] := by
      rw [List.filterMap_append, hh, sendFrame_effects, (encrypted?_map _).2.2]
      rfl
    have hresp : respondedIn (x ++ (sendFrame s₁ env sent).2) =
        respondedIn (sendFrame s₁ env sent).2 := by
      unfold respondedIn at hr ⊢
      rw [List.filterMap_append, List.filterMap_append, hr, List.nil_append]
    rw [hnone, hresp, List.append_nil]
    exact Answering.sent ih he sent
  cases connNext_case h with
  | @ping sent hs => exact hsend (x := [.received .ping]) hs rfl rfl rfl
  | @denied topic filter capability err sent hs hv =>
    exact hsend (x := [.received (.subscribe topic filter capability)]) hs rfl rfl rfl
  | @outbound env rest sent hs hrest =>
    exact hsend (x := []) hs (hq env (by rw [hrest]; exact List.mem_cons_self)) rfl rfl
  | @request req sent hs =>
    rw [hs] at ih
    exact ⟨reqs, rfl, (List.append_nil _).trans ih⟩
  | @respond req sent hs =>
    rw [hs] at ih
    obtain ⟨done, rfl, rfl⟩ := ih
    have hh : (sendFrame s (.response (service.handle req)) sent).2.filterMap
        ConnEffect.handled? = [] := by
      rw [sendFrame_effects, (encrypted?_map _).2.2]
    have hr : respondedIn (sendFrame s (.response (service.handle req)) sent).2 =
        (encryptedOf (.response (service.handle req) : Envelope C) sent).filterMap
          Envelope.response? := by
      rw [respondedIn, sendFrame_effects, (encrypted?_map _).1]
    rw [hh, hr, List.append_nil]
    -- a send that fails stops the pump, with or without the response encrypted
    cases sent with
    | ok =>
      show done.map service.handle ++ [service.handle req] = (done ++ [req]).map service.handle
      rw [List.map_append]
      rfl
    | unsealed text =>
      show done.map service.handle ++ [] <+: _
      rw [List.append_nil, List.map_append]
      exact List.prefix_append _ _
    | unwritten text =>
      show done.map service.handle ++ [service.handle req] <+: _
      rw [List.map_append]
      exact List.prefix_refl _
  | unserved hs hv he =>
    refine hsame ?_ rfl rfl
    unfold ConnState.enqueue
    split <;> rfl
  | subscribed hs hv he => exact hsame rfl rfl rfl
  | inert hs hi => exact hsame rfl rfl rfl
  | frameError hs =>
    rw [hs] at ih
    show resps ++ [] <+: _
    rw [List.append_nil, show resps = reqs.map service.handle from ih]
    simp
  | forwarded hf hp =>
    refine hsame ?_ rfl rfl
    unfold ConnState.enqueue
    split <;> rfl
  | polled hf hp => exact hsame rfl rfl rfl
  | emit => exact hsame rfl rfl rfl
  | close => exact hsame rfl rfl rfl

/-- Over a whole run of a connection the responses are the answers to the first
requests handled, in order. -/
theorem answering_run {sources : Nat → Channel (Event C)} {g : List (ConnStep C)}
    {s : ConnState C} (hr : ConnRun service (.init sources) g s) :
    Pushing s ∧ Answering service ((gather Step.out g).filterMap ConnEffect.handled?)
      (respondedIn (gather Step.out g)) s.pump := by
  have h0 : Pushing (ConnState.init sources) := fun env henv => absurd henv List.not_mem_nil
  refine hr.induct (I := fun g s => Pushing s ∧
    Answering service ((gather Step.out g).filterMap ConnEffect.handled?)
      (respondedIn (gather Step.out g)) s.pump) ⟨h0, rfl⟩ ?_
  rintro g s e s' o - ⟨hq, ha⟩ hn
  refine ⟨pushing_step hq hn, ?_⟩
  rw [gather_snoc, List.filterMap_append, respondedIn, List.filterMap_append,
    List.filterMap_append]
  exact answering_step hq ha hn

end Connection
end Tcp
end Obfs

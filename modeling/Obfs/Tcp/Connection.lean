import Obfs.Forwarder
import Obfs.Lib.Trace

/-! One TCP connection after its handshake and the gate: the pump loop of
handle_connection with its outbound queue, and the forwarders that subscriptions
spawn. A step is one turn of the loop or of a forwarder. The jitter delays only
let other tasks run, and the bytes of a frame are not looked into. -/
namespace Obfs.Tcp
open Broadcast Trace
variable (C : Core)

/- Where the pump rests: in select!, inside svc.handle(req), or gone. -/
inductive PumpState where
  | pumping
  | serving (req : C.Request)
  | stopped

structure ConnState where
  pump : PumpState C
  queue : List (Envelope C)
  forwarders : List (Forwarder C)
  sources : Nat → Channel (Event C)

/-- How send_frame ends: written, failed before the session encrypted the
envelope, or failed after that. -/
inductive SendResult where
  | ok
  | unsealed (text : String)
  | unwritten (text : String)

inductive ConnEvent where
  | frame (env : Envelope C) (sent : SendResult)
  | frameError (text : String)
  | outbound (sent : SendResult)
  | respond (sent : SendResult)
  | forward (i : Nat)
  | emit (source : Nat) (ev : Event C)
  | close (source : Nat)

inductive ConnEffect where
  | received (env : Envelope C)
  | encrypted (env : Envelope C)
  | handle (req : C.Request)
  | eventSource (topic : C.Topic)

variable {C} (service : Service C)

def ConnEffect.received? : ConnEffect C → Option (Envelope C)
  | .received env => some env
  | _ => none

def ConnEffect.encrypted? : ConnEffect C → Option (Envelope C)
  | .encrypted env => some env
  | _ => none

def ConnEffect.handled? : ConnEffect C → Option C.Request
  | .handle req => some req
  | _ => none

def ConnState.init (sources : Nat → Channel (Event C)) : ConnState C := ⟨.pumping, [], [], sources⟩

/- Without a receiver what is sent on the outbound channel is lost. -/
def ConnState.enqueue (s : ConnState C) (env : Envelope C) : ConnState C :=
  match s.pump with
  | .stopped => s
  | _ => { s with queue := s.queue ++ [env] }

/- The pump breaks out of its loop when a frame cannot be sent. -/
def sendFrame (s : ConnState C) (env : Envelope C) (sent : SendResult) :
    ConnState C × List (ConnEffect C) :=
  match sent with
  | .ok => ({ s with pump := .pumping }, [.encrypted env])
  | .unsealed _ => ({ s with pump := .stopped }, [])
  | .unwritten _ => ({ s with pump := .stopped }, [.encrypted env])

def noEventSource (topic : C.Topic) : Envelope C :=
  .subscribeError topic (C.diagnosticError .methodNotFound "no event source for topic")

def handleSubscribe (s : ConnState C) (topic : C.Topic) : ConnState C :=
  match service.eventSource topic with
  | some src => { s with forwarders := s.forwarders ++ [.spawn src (s.sources src) topic 0] }
  | none => s.enqueue (noEventSource topic)

def onEnvelope (s : ConnState C) (env : Envelope C) (sent : SendResult) :
    ConnState C × List (ConnEffect C) :=
  match env with
  | .ping => sendFrame s .pong sent
  | .request req => ({ s with pump := .serving req }, [.handle req])
  | .subscribe topic _ capability =>
    match service.verifyTopic capability topic with
    | .error err => sendFrame s (.subscribeError topic (denyDiagnostic err)) sent
    | .ok _ => (handleSubscribe service s topic, [.eventSource topic])
  | .unsubscribe _ => (s, [])
  | _ => (s, [])

def ConnState.alive (s : ConnState C) : Bool :=
  match s.pump with
  | .stopped => false
  | _ => true

def runForwarder (s : ConnState C) (i : Nat) : Option (ConnState C × List (ConnEffect C)) :=
  match s.forwarders[i]? with
  | none => none
  | some f =>
    match f.poll (s.sources f.source) s.alive with
    | none => none
    | some (f', sent) =>
      let s := { s with forwarders := s.forwarders.set i f' }
      match sent with
      | some ev => some (s.enqueue (.event ev), [])
      | none => some (s, [])

def ConnState.updateSource (s : ConnState C) (i : Nat) (f : Channel (Event C) → Channel (Event C)) :
    ConnState C :=
  { s with sources := fun j => if j = i then f (s.sources j) else s.sources j }

/-- One turn of a task of the connection. The select! is biased to the queue,
but a forwarder may still fill it while the pump takes the inbound arm. -/
def connNext (s : ConnState C) : ConnEvent C → Option (ConnState C × List (ConnEffect C))
  | .frame env sent =>
    match s.pump with
    | .pumping =>
      let next := onEnvelope service s env sent
      some (next.1, .received env :: next.2)
    | _ => none
  | .frameError _ =>
    match s.pump with
    | .pumping => some ({ s with pump := .stopped }, [])
    | _ => none
  | .outbound sent =>
    match s.pump, s.queue with
    | .pumping, env :: rest => some (sendFrame { s with queue := rest } env sent)
    | _, _ => none
  | .respond sent =>
    match s.pump with
    | .serving req => some (sendFrame s (.response (service.handle req)) sent)
    | _ => none
  | .forward i => runForwarder s i
  | .emit source ev => some (s.updateSource source (·.send ev), [])
  | .close source => some (s.updateSource source Channel.close, [])

abbrev ConnStep (C : Core) := Step (ConnState C) (ConnEvent C) (ConnEffect C)

abbrev ConnRun (service : Service C) (s₀ : ConnState C) (h : List (ConnStep C))
    (s : ConnState C) : Prop := Run (connNext service) s₀ h s

inductive ConnCase (s : ConnState C) :
    ConnEvent C → ConnState C → List (ConnEffect C) → Prop where
  | ping {sent : SendResult} (hs : s.pump = .pumping) :
      ConnCase s (.frame .ping sent) (sendFrame s .pong sent).1
        (.received .ping :: (sendFrame s .pong sent).2)
  | request {req : C.Request} {sent : SendResult} (hs : s.pump = .pumping) :
      ConnCase s (.frame (.request req) sent) { s with pump := .serving req }
        [.received (.request req), .handle req]
  | denied {topic : C.Topic} {filter : Option C.Json} {capability : Option C.Capability}
      {err : CoreError C} {sent : SendResult} (hs : s.pump = .pumping)
      (hv : service.verifyTopic capability topic = .error err) :
      ConnCase s (.frame (.subscribe topic filter capability) sent)
        (sendFrame s (.subscribeError topic (denyDiagnostic err)) sent).1
        (.received (.subscribe topic filter capability) ::
          (sendFrame s (.subscribeError topic (denyDiagnostic err)) sent).2)
  | unserved {topic : C.Topic} {filter : Option C.Json} {capability : Option C.Capability}
      {subject : C.Subject} {sent : SendResult} (hs : s.pump = .pumping)
      (hv : service.verifyTopic capability topic = .ok subject)
      (he : service.eventSource topic = none) :
      ConnCase s (.frame (.subscribe topic filter capability) sent)
        (s.enqueue (noEventSource topic))
        [.received (.subscribe topic filter capability), .eventSource topic]
  | subscribed {topic : C.Topic} {filter : Option C.Json} {capability : Option C.Capability}
      {subject : C.Subject} {src : Nat} {sent : SendResult} (hs : s.pump = .pumping)
      (hv : service.verifyTopic capability topic = .ok subject)
      (he : service.eventSource topic = some src) :
      ConnCase s (.frame (.subscribe topic filter capability) sent)
        { s with forwarders := s.forwarders ++ [.spawn src (s.sources src) topic 0] }
        [.received (.subscribe topic filter capability), .eventSource topic]
  | inert {env : Envelope C} {sent : SendResult} (hs : s.pump = .pumping)
      (hi : env.inert = true) :
      ConnCase s (.frame env sent) s [.received env]
  | frameError {text : String} (hs : s.pump = .pumping) :
      ConnCase s (.frameError text) { s with pump := .stopped } []
  | outbound {env : Envelope C} {rest : List (Envelope C)} {sent : SendResult}
      (hs : s.pump = .pumping) (hq : s.queue = env :: rest) :
      ConnCase s (.outbound sent) (sendFrame { s with queue := rest } env sent).1
        (sendFrame { s with queue := rest } env sent).2
  | respond {req : C.Request} {sent : SendResult} (hs : s.pump = .serving req) :
      ConnCase s (.respond sent) (sendFrame s (.response (service.handle req)) sent).1
        (sendFrame s (.response (service.handle req)) sent).2
  | forwarded {i : Nat} {f f' : Forwarder C} {ev : Event C} (hf : s.forwarders[i]? = some f)
      (hp : f.poll (s.sources f.source) s.alive = some (f', some ev)) :
      ConnCase s (.forward i)
        (ConnState.enqueue { s with forwarders := s.forwarders.set i f' } (.event ev)) []
  | polled {i : Nat} {f f' : Forwarder C} (hf : s.forwarders[i]? = some f)
      (hp : f.poll (s.sources f.source) s.alive = some (f', none)) :
      ConnCase s (.forward i) { s with forwarders := s.forwarders.set i f' } []
  | emit {source : Nat} {ev : Event C} :
      ConnCase s (.emit source ev) (s.updateSource source (·.send ev)) []
  | close {source : Nat} : ConnCase s (.close source) (s.updateSource source Channel.close) []

variable {service}

theorem connNext_case {s s' : ConnState C} {e : ConnEvent C} {o : List (ConnEffect C)}
    (h : connNext service s e = some (s', o)) : ConnCase service s e s' o := by
  cases e with
  | frame env sent =>
    simp only [connNext] at h
    split at h
    · rename_i hs
      cases h
      cases env with
      | ping => exact .ping hs
      | request req => exact .request hs
      | subscribe topic filter capability =>
        simp only [onEnvelope]
        split
        · rename_i err hv
          exact .denied hs hv
        · rename_i subject hv
          simp only [handleSubscribe]
          split
          · rename_i src he
            exact .subscribed hs hv he
          · rename_i he
            exact .unserved hs hv he
      | _ => exact .inert hs rfl
    · cases h
  | frameError text =>
    simp only [connNext] at h
    split at h
    · rename_i hs
      cases h
      exact .frameError hs
    · cases h
  | outbound sent =>
    simp only [connNext] at h
    split at h
    · rename_i env rest hs hq
      have hc : ConnCase service s (.outbound sent) _ _ := .outbound hs hq
      rwa [Option.some.inj h] at hc
    · cases h
  | respond sent =>
    simp only [connNext] at h
    split at h
    · rename_i req hs
      have hc : ConnCase service s (.respond sent) _ _ := .respond hs
      rwa [Option.some.inj h] at hc
    · cases h
  | forward i =>
    simp only [connNext, runForwarder] at h
    split at h
    · cases h
    · rename_i f hf
      split at h
      · cases h
      · rename_i f' sent hp
        split at h
        · cases h
          exact .forwarded hf hp
        · cases h
          exact .polled hf hp
  | emit source ev => cases h; exact .emit
  | close source => cases h; exact .close

theorem sendFrame_forwarders (s : ConnState C) (env : Envelope C) (sent : SendResult) :
    (sendFrame s env sent).1.forwarders = s.forwarders := by
  cases sent <;> rfl

theorem sendFrame_queue (s : ConnState C) (env : Envelope C) (sent : SendResult) :
    (sendFrame s env sent).1.queue = s.queue := by
  cases sent <;> rfl

theorem mem_sendFrame {s : ConnState C} {env : Envelope C} {sent : SendResult} {x : ConnEffect C}
    (hx : x ∈ (sendFrame s env sent).2) : x = .encrypted env := by
  cases sent <;> simp_all [sendFrame]

theorem enqueue_forwarders (s : ConnState C) (env : Envelope C) :
    (s.enqueue env).forwarders = s.forwarders := by
  unfold ConnState.enqueue
  split <;> rfl

theorem mem_enqueue {s : ConnState C} {env x : Envelope C} (hx : x ∈ (s.enqueue env).queue) :
    x ∈ s.queue ∨ x = env := by
  unfold ConnState.enqueue at hx
  split at hx
  · exact Or.inl hx
  · simpa using hx

end Obfs.Tcp

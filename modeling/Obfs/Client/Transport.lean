import Mathlib.Data.List.AList
import Obfs.Envelope
import Obfs.Lib.Async
import Obfs.Lib.Broadcast
import Obfs.Lib.Trace

/-! The client transports after their handshake: the pump task, the pending map,
and any number of request and subscribe calls. The stream client and the datagram
client are copies of one design that differ in their link to the server. A step
is what a task does between two points where another may run; taking the lock of
the pending map and every operation on a channel is a step of its own. -/
namespace Obfs.Client
open Async Broadcast Trace

inductive Inbound (C : Core) where
  | failed
  | nothing
  | envelope (env : Envelope C)

/-- The link of a transport. `In` is what a read is given from outside, `Out`
what decides how a send ends. -/
structure Link (C : Core) where
  State : Type
  In : Type
  Out : Type
  recv : State → In → Inbound C × State
  send : State → Envelope C → Out → Bool × State
  /-- Whether the pump leaves its loop when an outbound envelope cannot be sent. -/
  sendStops : Bool
  /-- The last attempt of a request that is sent again; none if it waits for ever. -/
  maxRetries : Option Nat

/-- A link, the ids by which the core crate names requests and responses, and
the capability given at connect time. -/
structure Params (C : Core) where
  link : Link C
  requestId : C.Request → String
  responseId : C.Response → String
  capability : Option C.Capability

inductive ConnectionState where
  | connected | down
  deriving DecidableEq

section State
variable (C : Core)

/-- Where a request call is; `slot` numbers are one-shot channels. -/
inductive CallPhase where
  | start (retry : Nat)
  | inserted (retry slot : Nat)
  | refused (slot : Nat)
  | awaiting (retry slot : Nat)
  | expired (retry slot : Nat)
  | returned (res : Except (CoreError C) C.Response)

structure Call where
  req : C.Request
  phase : CallPhase C

structure Waiter where
  call : Nat
  cell : Oneshot C.Response

structure Requests where
  pending : AList fun _ : String => Nat
  waiters : List (Waiter C)
  calls : List (Call C)

/-- Where the pump is: in its loop, between taking a sender and sending on it,
and then between the steps of its exit. -/
inductive PumpPhase where
  | looping
  | delivering (slot : Nat) (resp : C.Response)
  | leaving
  | down
  | drained (senders : List Nat)
  | dropped
  | finished

inductive Origin where
  | request (c : Nat)
  | subscribe (n : Nat)
  deriving DecidableEq

structure Queued where
  origin : Origin
  env : Envelope C

structure Subscription where
  topic : C.Topic
  receiver : Option Receiver

end State

variable {C : Core} (p : Params C)

structure Transport where
  link : p.link.State
  pump : PumpPhase C
  state : ConnectionState
  handle : Bool
  outbound : List (Queued C)
  requests : Requests C
  events : Channel (Event C)
  subscriptions : List (Subscription C)

inductive CallEvent where
  | insert | send | remove | wake | expire
  deriving DecidableEq

inductive PumpEvent where
  | turn (late : Bool) (inbound : Option p.link.In) (out : p.link.Out)
  | deliver | setDown | drain | dropSenders | finish

inductive TransportEvent where
  | request (req : C.Request)
  | call (c : Nat) (e : CallEvent)
  | subscribe (topic : C.Topic)
  | attach (n : Nat)
  | poll (n : Nat)
  | pump (e : PumpEvent p)
  | dropHandle

variable (C) in
/-- What a step does that the state does not keep: sends and reads of the link,
matches of a response with a call, and results of calls and receivers. -/
inductive TransportEffect where
  | took (origin : Origin) (env : Envelope C)
  | sent (env : Envelope C) (ok : Bool)
  | readFailed
  | received (env : Envelope C)
  | matched (c : Nat) (resp : C.Response)
  | broadcast (ev : Event C)
  | returned (c : Nat) (res : Except (CoreError C) C.Response)
  | notSubscribed (topic : C.Topic)
  | yielded (n : Nat) (ev : Event C)
  | lagged (n : Nat) (missed : Nat)
  | ended (n : Nat)

def eventCapacity : Nat := 256

def Transport.init (link : p.link.State) : Transport p where
  link := link
  pump := .looping
  state := .connected
  handle := true
  outbound := []
  requests := ⟨∅, [], []⟩
  events := ⟨eventCapacity, [], false⟩
  subscriptions := []

section Requests
variable (r : Requests C)

def Waiter.drop (w : Waiter C) : Waiter C := { w with cell := w.cell.drop }

def Waiter.fill (resp : C.Response) (w : Waiter C) : Waiter C := { w with cell := w.cell.fill resp }

def Requests.setPhase (c : Nat) (phase : CallPhase C) : Requests C :=
  { r with calls := r.calls.modify c fun call => { call with phase := phase } }

def Requests.begin (req : C.Request) : Requests C :=
  { r with calls := r.calls ++ [⟨req, .start 0⟩] }

def Requests.discard (id : String) : Requests C :=
  match r.pending.lookup id with
  | none => r
  | some slot =>
    { r with pending := r.pending.erase id, waiters := r.waiters.modify slot Waiter.drop }

def Requests.insert (id : String) (c retry : Nat) : Requests C :=
  let slot := r.waiters.length
  let r := r.discard id
  Requests.setPhase
    { r with pending := r.pending.insert id slot, waiters := r.waiters ++ [⟨c, .waiting⟩] }
    c (.inserted retry slot)

def Requests.fill (slot : Nat) (resp : C.Response) : Requests C :=
  { r with waiters := r.waiters.modify slot (Waiter.fill resp) }

def Requests.dropSenders (senders : List Nat) : Requests C :=
  { r with waiters := senders.foldl (fun ws slot => ws.modify slot Waiter.drop) r.waiters }

def Requests.senders : List Nat := r.pending.entries.map Sigma.snd

end Requests

def awaitResult {C : Core} : Oneshot C.Response → Option (Except (CoreError C) C.Response)
  | .waiting => none
  | .filled resp => some (.ok resp)
  | .dropped => some (.error .disconnected)

variable {p} (s : Transport p)

/- The receiver of the outbound channel lives until the pump function ends. -/
def Transport.receiving : Bool :=
  match s.pump with
  | .finished => false
  | _ => true

def Transport.enqueue (origin : Origin) (env : Envelope C) : Transport p :=
  { s with outbound := s.outbound ++ [⟨origin, env⟩] }

def Transport.withRequests (r : Requests C) : Transport p := { s with requests := r }

/-- The steps of request. The deadline of a retransmitting call may pass while a
response is on its way to it, so that it expires in any case. -/
def callNext (c : Nat) (e : CallEvent) (call : Call C) :
    Option (Transport p × List (TransportEffect C)) :=
  let r := s.requests
  let id := p.requestId call.req
  match e, call.phase with
  | .insert, .start retry => some (s.withRequests (r.insert id c retry), [])
  | .send, .inserted retry slot =>
    if s.receiving then
      some ((s.withRequests (r.setPhase c (.awaiting retry slot))).enqueue (.request c)
        (.request call.req), [])
    else some (s.withRequests (r.setPhase c (.refused slot)), [])
  | .remove, .refused _ =>
    some (s.withRequests ((r.discard id).setPhase c (.returned (.error .disconnected))),
      [.returned c (.error .disconnected)])
  | .wake, .awaiting _ slot =>
    match (r.waiters[slot]?).bind fun w => awaitResult w.cell with
    | none => none
    | some res => some (s.withRequests (r.setPhase c (.returned res)), [.returned c res])
  | .expire, .awaiting retry slot =>
    match p.link.maxRetries with
    | none => none
    | some _ => some (s.withRequests (r.setPhase c (.expired retry slot)), [])
  | .remove, .expired retry _ =>
    if p.link.maxRetries = some retry then
      some (s.withRequests ((r.discard id).setPhase c (.returned (.error .timeout))),
        [.returned c (.error .timeout)])
    else some (s.withRequests ((r.discard id).setPhase c (.start (retry + 1))), [])
  | _, _ => none

def onInbound (env : Envelope C) (out : p.link.Out) : Transport p × List (TransportEffect C) :=
  match env with
  | .response resp =>
    let id := p.responseId resp
    match s.requests.pending.lookup id with
    | none => (s, [])
    | some slot =>
      ({ s with
          pump := .delivering slot resp
          requests := { s.requests with pending := s.requests.pending.erase id } },
        ((s.requests.waiters[slot]?).map fun w => TransportEffect.matched w.call resp).toList)
  | .event ev => ({ s with events := s.events.send ev }, [.broadcast ev])
  | .ping =>
    let sent := p.link.send s.link .pong out
    ({ s with link := sent.2 }, [.sent .pong sent.1])
  | .pong => (s, [])
  | _ => (s, [])

variable (p) in
inductive Selected where
  | outbound (q : Queued C)
  | inbound (i : p.link.In)

/- The arm Some(env) = outbound.recv(). An envelope sent after the poll is seen
only in the next turn. -/
def Transport.outboundArm (late : Bool) : Arm (Selected p) :=
  match s.outbound with
  | q :: _ => if late then .pending else .ready (.outbound q)
  | [] => if s.handle then .pending else .disabled

def inboundArm : Option p.link.In → Arm (Selected p)
  | some i => .ready (.inbound i)
  | none => .pending

def pumpTurn (late : Bool) (inbound : Option p.link.In) (out : p.link.Out) :
    Option (Transport p × List (TransportEffect C)) :=
  match select [s.outboundArm late, inboundArm inbound] with
  | .wait => none
  | .otherwise => some ({ s with pump := .leaving }, [])
  | .run (.outbound q) =>
    let sent := p.link.send s.link q.env out
    let pump := if p.link.sendStops && !sent.1 then .leaving else .looping
    some ({ s with outbound := s.outbound.tail, link := sent.2, pump := pump },
      [.took q.origin q.env, .sent q.env sent.1])
  | .run (.inbound i) =>
    match p.link.recv s.link i with
    | (.failed, link) => some ({ s with link := link, pump := .leaving }, [.readFailed])
    | (.nothing, link) => some ({ s with link := link }, [])
    | (.envelope env, link) =>
      let next := onInbound { s with link := link } env out
      some (next.1, .received env :: next.2)

def pumpNext (e : PumpEvent p) : Option (Transport p × List (TransportEffect C)) :=
  match e, s.pump with
  | .turn late inbound out, .looping => pumpTurn s late inbound out
  | .deliver, .delivering slot resp =>
    some ({ s with pump := .looping, requests := s.requests.fill slot resp }, [])
  | .setDown, .leaving => some ({ s with pump := .down, state := .down }, [])
  | .drain, .down =>
    some ({ s with
      pump := .drained s.requests.senders
      requests := { s.requests with pending := ∅ } }, [])
  | .dropSenders, .drained senders =>
    some ({ s with pump := .dropped, requests := s.requests.dropSenders senders }, [])
  | .finish, .dropped => some ({ s with pump := .finished }, [])
  | _, _ => none

/-- The first part of subscribe: the envelope goes to the pump. -/
def subscribeNext (topic : C.Topic) : Option (Transport p × List (TransportEffect C)) :=
  if !s.handle then none
  else if s.receiving then
    some ({ s.enqueue (.subscribe s.subscriptions.length) (.subscribe topic none p.capability) with
      subscriptions := s.subscriptions ++ [⟨topic, none⟩] }, [])
  else some (s, [.notSubscribed topic])

/- The second part: the receiver of the stream. -/
def attachNext (n : Nat) : Option (Transport p × List (TransportEffect C)) :=
  match s.subscriptions[n]? with
  | some ⟨topic, none⟩ =>
    some ({ s with
      subscriptions := s.subscriptions.set n ⟨topic, some s.events.subscribe⟩ }, [])
  | _ => none

/- The transport and the pump each hold a sender of the event channel. -/
def Transport.eventChannel : Channel (Event C) :=
  { s.events with closed := !s.handle && !s.receiving }

/- One read of the receiver that a stream adapts. -/
def pollNext (n : Nat) : Option (Transport p × List (TransportEffect C)) :=
  match s.subscriptions[n]? with
  | some ⟨topic, some rx⟩ =>
    let keep (rx : Receiver) : Transport p :=
      { s with subscriptions := s.subscriptions.set n ⟨topic, some rx⟩ }
    match s.eventChannel.recv rx with
    | (.ok ev, rx) => some (keep rx, [.yielded n ev])
    | (.lagged missed, rx) => some (keep rx, [.lagged n missed])
    | (.closed, _) => some (s, [.ended n])
    | (.empty, _) => none
  | _ => none

def CallPhase.inFlight : CallPhase C → Bool
  | .returned _ => false
  | _ => true

/- Calls borrow the transport, which is dropped after the last of them. -/
def Transport.borrowed : Bool :=
  s.requests.calls.any (fun call => call.phase.inFlight) ||
    s.subscriptions.any (fun sub => sub.receiver.isNone)

def next : TransportEvent p → Option (Transport p × List (TransportEffect C))
  | .request req =>
    if s.handle then some (s.withRequests (s.requests.begin req), []) else none
  | .call c e =>
    match s.requests.calls[c]? with
    | none => none
    | some call => callNext s c e call
  | .subscribe topic => subscribeNext s topic
  | .attach n => attachNext s n
  | .poll n => pollNext s n
  | .pump e => pumpNext s e
  | .dropHandle => if s.handle && !s.borrowed then some ({ s with handle := false }, []) else none

variable (p) in
abbrev TransportStep := Step (Transport p) (TransportEvent p) (TransportEffect C)

variable (p) in
abbrev TransportRun (link : p.link.State) (h : List (TransportStep p)) (s : Transport p) : Prop :=
  Run (next (p := p)) (Transport.init p link) h s

end Obfs.Client

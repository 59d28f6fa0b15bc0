import Obfs.Client.Calls
import Obfs.Client.LinkOps
import Obfs.Lib.Refinement
import Obfs.Udp.Answers

/-! The datagram transport end to end: the server, and clients that connect with
connect_udp and then run their pump and their calls. Every run of it is a run of
the system of server and channels, in which a pump seals and opens. -/
namespace Obfs.Udp
open Trace Client
variable (K : Crates) (ι : Type)

structure EndCfg where
  system : SystemCfg K ι
  requestId : K.core.Request → String
  responseId : K.core.Response → String
  capability : ι → Option K.core.Capability

variable {K ι}

abbrev EndCfg.transport (cfg : EndCfg K ι) (c : ι) : Params K.core :=
  udpObfsTransport cfg.requestId cfg.responseId (cfg.capability c)

/-- A client: in client_udp_handshake, or with a transport. The seed of a running
transport is not kept by the code; it says which session the transport has. -/
inductive Endpoint (cfg : EndCfg K ι) (c : ι) where
  | connecting (s : ClientState K)
  | running (seed : Key) (transport : Transport (cfg.transport c))

structure EndState (cfg : EndCfg K ι) where
  server : ServerState K
  clients : (c : ι) → Endpoint cfg c

inductive EndEvent (cfg : EndCfg K ι) where
  | server (e : ServerEvent K)
  | handshake (c : ι) (e : ClientEvent K)
  | spawn (c : ι)
  | transport (c : ι) (e : TransportEvent (cfg.transport c))

variable (K ι) in
inductive EndEffect where
  | server (x : Effect K)
  | handshake (c : ι) (x : ClientEffect K)
  | transport (c : ι) (x : TransportEffect K.core)

def ClientEvent.isHandshake : ClientEvent K → Bool
  | .sealEnvelope _ _ => false
  | .openDatagram _ => false
  | _ => true

section
variable [DecidableEq ι] (cfg : EndCfg K ι)

def EndState.init (secret : K.CookieSecret) (sources : Nat → Broadcast.Channel (Event K.core)) :
    EndState cfg :=
  ⟨.init secret sources, fun _ => .connecting .idle⟩

variable {cfg}

def EndState.set (s : EndState cfg) (c : ι) (x : Endpoint cfg c) : EndState cfg :=
  { s with clients := Function.update s.clients c x }

/-- One step of the server, of a handshake, or of a transport. When the handshake
has returned a channel, connect_udp spawns the pump on it. -/
def endNext (s : EndState cfg) : EndEvent cfg → Option (EndState cfg × List (EndEffect K ι))
  | .server e => (serverNext cfg.system.server s.server e).map fun next =>
      ({ s with server := next.1 }, next.2.map .server)
  | .handshake c e =>
    match s.clients c with
    | .connecting cs =>
      if e.isHandshake then
        (clientNext (cfg.system.client c) cs e).map fun next =>
          (s.set c (.connecting next.1), next.2.map (.handshake c))
      else none
    | .running _ _ => none
  | .spawn c =>
    match s.clients c with
    | .connecting (.connected seed ch) =>
      some (s.set c (.running seed (Transport.init (cfg.transport c) ch)), [])
    | _ => none
  | .transport c e =>
    match s.clients c with
    | .running seed t => (Client.next t e).map fun next =>
        (s.set c (.running seed next.1), next.2.map (.transport c))
    | .connecting _ => none

abbrev EndStep (cfg : EndCfg K ι) := Step (EndState cfg) (EndEvent cfg) (EndEffect K ι)

abbrev EndRun (s₀ : EndState cfg) (h : List (EndStep cfg)) (s : EndState cfg) : Prop :=
  Run endNext s₀ h s

/-! The system below: server, handshakes and channels. -/

def Endpoint.channelState {c : ι} : Endpoint cfg c → ClientState K
  | .connecting s => s
  | .running seed t => .connected seed t.link

def EndState.system (s : EndState cfg) : SystemState K ι :=
  ⟨s.server, fun c => (s.clients c).channelState⟩

def SystemState.setClient (s : SystemState K ι) (c : ι) (x : ClientState K) : SystemState K ι :=
  { s with clients := Function.update s.clients c x }

def EndEffect.transport? (c : ι) : EndEffect K ι → Option (TransportEffect K.core)
  | .transport c' x => if c' = c then some x else none
  | _ => none

/- What an operation of the link of client c is in the system below. A failed
read of the socket leaves the channel alone. -/
def opEvents (c : ι) : LinkOp (cfg.transport c) → List (SystemEvent K ι)
  | .recv i =>
    match (i : Except IoError Bytes) with
    | .ok datagram => [.client c (.openDatagram datagram)]
    | .error _ => []
  | .send env out => [.client c (.sealEnvelope env (out : K.Rng × Except IoError Unit).1)]

def lowEvents (t : EndStep cfg) : List (SystemEvent K ι) :=
  match t.event with
  | .server e => [.server e]
  | .handshake c e => [.client c e]
  | .spawn _ => []
  | .transport c e =>
    match t.pre.clients c, t.post.clients c with
    | .running _ u, .running _ v =>
      (linkOps ⟨u, e, t.out.filterMap (EndEffect.transport? c), v⟩).flatMap (opEvents c)
    | _, _ => []

/-- The steps of the system below that a step is. -/
def low (t : EndStep cfg) : List (SystemStep K ι) :=
  match exec (systemNext cfg.system) (lowEvents t) [] t.pre.system with
  | some (h, _) => h
  | none => []

def lowered (h : List (EndStep cfg)) : List (SystemStep K ι) := h.flatMap low

theorem transport?_map (c : ι) (o : List (TransportEffect K.core)) :
    (o.map (EndEffect.transport c)).filterMap (EndEffect.transport? c) = o := by
  rw [List.filterMap_map]
  have hf : EndEffect.transport? (K := K) c ∘ EndEffect.transport c = some := by
    funext x
    simp [EndEffect.transport?]
  rw [hf]
  exact List.filterMap_some

inductive EndCase (s : EndState cfg) : EndEvent cfg → EndState cfg → List (EndEffect K ι) → Prop
  where
  | server {e : ServerEvent K} {s' : ServerState K} {o : List (Effect K)}
      (hn : serverNext cfg.system.server s.server e = some (s', o)) :
      EndCase s (.server e) { s with server := s' } (o.map .server)
  | handshake {c : ι} {e : ClientEvent K} {cs cs' : ClientState K} {o : List (ClientEffect K)}
      (hc : s.clients c = .connecting cs) (he : e.isHandshake = true)
      (hn : clientNext (cfg.system.client c) cs e = some (cs', o)) :
      EndCase s (.handshake c e) (s.set c (.connecting cs')) (o.map (.handshake c))
  | spawn {c : ι} {seed : Key} {ch : DataChannel K}
      (hc : s.clients c = .connecting (.connected seed ch)) :
      EndCase s (.spawn c) (s.set c (.running seed (Transport.init (cfg.transport c) ch))) []
  | transport {c : ι} {e : TransportEvent (cfg.transport c)} {seed : Key}
      {u u' : Transport (cfg.transport c)} {o : List (TransportEffect K.core)}
      (hc : s.clients c = .running seed u) (hn : Client.next u e = some (u', o)) :
      EndCase s (.transport c e) (s.set c (.running seed u')) (o.map (.transport c))

theorem endNext_case {s s' : EndState cfg} {e : EndEvent cfg} {o : List (EndEffect K ι)}
    (h : endNext s e = some (s', o)) : EndCase s e s' o := by
  cases e with
  | server e =>
    obtain ⟨next, hn, he⟩ := Option.map_eq_some_iff.mp h
    cases he
    exact .server hn
  | handshake c e =>
    simp only [endNext] at h
    split at h
    · rename_i cs hc
      split at h
      · rename_i he
        obtain ⟨next, hn, heq⟩ := Option.map_eq_some_iff.mp h
        cases heq
        exact .handshake hc he hn
      · cases h
    · cases h
  | spawn c =>
    simp only [endNext] at h
    split at h
    · rename_i seed ch hc
      cases h
      exact .spawn hc
    · cases h
  | transport c e =>
    simp only [endNext] at h
    split at h
    · rename_i seed u hc
      obtain ⟨next, hn, heq⟩ := Option.map_eq_some_iff.mp h
      cases heq
      exact .transport hc hn
    · cases h

theorem transport_step {s s' : EndState cfg} {e : EndEvent cfg} {o : List (EndEffect K ι)}
    (h : endNext s e = some (s', o)) {c : ι} {x : TransportEffect K.core}
    (hx : EndEffect.transport c x ∈ o) :
    ∃ seed tr tr' e' o', s.clients c = .running seed tr ∧
      Client.next (p := cfg.transport c) tr e' = some (tr', o') ∧ x ∈ o' := by
  cases endNext_case h with
  | @transport c' e' seed tr tr' o' hc hn =>
    obtain ⟨y, hy, he⟩ := List.mem_map.mp hx
    cases he
    exact ⟨seed, tr, tr', e', o', hc, hn, hy⟩
  | _ => simp at hx

@[simp] theorem set_clients_self (s : EndState cfg) (c : ι) (x : Endpoint cfg c) :
    (s.set c x).clients c = x := Function.update_self c x s.clients

theorem set_clients_ne (s : EndState cfg) {c d : ι} (x : Endpoint cfg c) (hd : d ≠ c) :
    (s.set c x).clients d = s.clients d := Function.update_of_ne hd x s.clients

theorem system_set (s : EndState cfg) (c : ι) (x : Endpoint cfg c) :
    (s.set c x).system = s.system.setClient c x.channelState := by
  unfold EndState.system EndState.set SystemState.setClient
  congr 1
  funext d
  by_cases hd : d = c
  · subst hd
    simp
  · simp [Function.update_of_ne hd]

def runOp (c : ι) (ch : DataChannel K) (op : LinkOp (cfg.transport c)) : DataChannel K :=
  LinkOp.run (p := cfg.transport c) ch op

def runOps (c : ι) (ch : DataChannel K) (ops : List (LinkOp (cfg.transport c))) : DataChannel K :=
  ops.foldl (runOp c) ch

omit [DecidableEq ι] in
theorem opEvents_cases (c : ι) (op : LinkOp (cfg.transport c)) (ch : DataChannel K) :
    (opEvents c op = [] ∧ runOp c ch op = ch) ∨
    (∃ datagram, op = .recv (.ok datagram) ∧ opEvents c op = [.client c (.openDatagram datagram)] ∧
      runOp c ch op = (ch.openDatagram datagram).2) ∨
    ∃ env out, op = .send env out ∧
      opEvents c op = [.client c (.sealEnvelope env (out : K.Rng × Except IoError Unit).1)] ∧
      runOp c ch op = (ch.sealEnvelope env (out : K.Rng × Except IoError Unit).1).2 := by
  cases op with
  | recv i =>
    cases (i : Except IoError Bytes) with
    | error e => exact Or.inl ⟨rfl, rfl⟩
    | ok datagram =>
      refine Or.inr (Or.inl ⟨datagram, rfl, rfl, ?_⟩)
      show ((udpLink K).recv ch (.ok datagram)).2 = _
      unfold udpLink
      dsimp only
      split <;> rename_i ho <;> rw [ho]
  | send env out =>
    refine Or.inr (Or.inr ⟨env, out, rfl, rfl, ?_⟩)
    show (sealAndSend K ch env out).2 = _
    unfold sealAndSend
    split <;> rename_i ho <;> rw [ho]
    split <;> rfl

theorem setClient_clients (s : SystemState K ι) (c : ι) (x : ClientState K) :
    (s.setClient c x).clients c = x := by
  simp [SystemState.setClient]

theorem setClient_setClient (s : SystemState K ι) (c : ι) (x y : ClientState K) :
    (s.setClient c x).setClient c y = s.setClient c y := by
  unfold SystemState.setClient
  simp

theorem systemNext_open (cfg : EndCfg K ι) {s : SystemState K ι} {c : ι} {seed : Key}
    {ch : DataChannel K} (hc : s.clients c = .connected seed ch) (datagram : Bytes) :
    ∃ o, systemNext cfg.system s (.client c (.openDatagram datagram)) =
      some (s.setClient c (.connected seed (ch.openDatagram datagram).2), o) := by
  cases ho : ch.openDatagram datagram with
  | mk res ch' =>
    simp only [systemNext, clientNext, hc, ho]
    split <;> rename_i he <;> cases he <;> exact ⟨_, rfl⟩

theorem systemNext_seal (cfg : EndCfg K ι) {s : SystemState K ι} {c : ι} {seed : Key}
    {ch : DataChannel K} (hc : s.clients c = .connected seed ch) (env : Envelope K.core)
    (rng : K.Rng) :
    ∃ o, systemNext cfg.system s (.client c (.sealEnvelope env rng)) =
      some (s.setClient c (.connected seed (ch.sealEnvelope env rng).2), o) := by
  cases ho : ch.sealEnvelope env rng with
  | mk res ch' =>
    simp only [systemNext, clientNext, hc, ho]
    split <;> rename_i he <;> cases he <;> exact ⟨_, rfl⟩

omit [DecidableEq ι] in
theorem udp_received {c : ι} {ch : DataChannel K} {i : (cfg.transport c).link.In}
    {env : Envelope K.core} (hi : ((cfg.transport c).link.recv ch i).1 = .envelope env) :
    ∃ datagram, i = Except.ok datagram ∧ (ch.openDatagram datagram).1 = .ok (some env) := by
  cases hin : (i : Except IoError Bytes) with
  | error e =>
    subst hin
    cases hi
  | ok datagram =>
    subst hin
    refine ⟨datagram, rfl, ?_⟩
    have hi' : ((udpLink K).recv ch (.ok datagram)).1 = .envelope env := hi
    unfold udpLink at hi'
    dsimp only at hi'
    split at hi' <;> rename_i ho <;> cases hi'
    rw [ho]

theorem systemNext_received {s : SystemState K ι} {c : ι} {seed : Key} {ch : DataChannel K}
    {datagram : Bytes} {env : Envelope K.core} (hc : s.clients c = .connected seed ch)
    (ho : (ch.openDatagram datagram).1 = .ok (some env)) :
    systemNext cfg.system s (.client c (.openDatagram datagram)) =
      some (s.setClient c (.connected seed (ch.openDatagram datagram).2),
        [.client c (.received env)]) := by
  cases hopen : ch.openDatagram datagram with
  | mk res ch' =>
    rw [hopen] at ho
    cases ho
    simp only [systemNext, clientNext, hc, hopen]
    rfl

theorem exec_ops {c : ι} (ops : List (LinkOp (cfg.transport c))) {g : List (SystemStep K ι)}
    {s : SystemState K ι} {seed : Key} {ch : DataChannel K}
    (hc : s.clients c = .connected seed ch) :
    ∃ g', exec (systemNext cfg.system) (ops.flatMap (opEvents c)) g s =
      some (g', s.setClient c (.connected seed (runOps c ch ops))) := by
  induction ops generalizing g s ch with
  | nil =>
    refine ⟨g, ?_⟩
    show some (g, s) = some (g, s.setClient c (.connected seed ch))
    rw [← hc, SystemState.setClient, Function.update_eq_self]
  | cons op ops ih =>
    rw [List.flatMap_cons, show runOps c ch (op :: ops) = runOps c (runOp c ch op) ops from rfl]
    rcases opEvents_cases c op ch with
      ⟨he, hrun⟩ | ⟨datagram, -, he, hrun⟩ | ⟨env, out, -, he, hrun⟩
    · rw [he, hrun]
      exact ih hc
    · obtain ⟨o, hn⟩ := systemNext_open cfg hc datagram
      rw [he, hrun, List.singleton_append, exec, hn]
      obtain ⟨g', hg'⟩ := ih (g := _) (setClient_clients s c _)
      rw [setClient_setClient] at hg'
      exact ⟨g', hg'⟩
    · obtain ⟨o, hn⟩ := systemNext_seal cfg hc env (out : K.Rng × Except IoError Unit).1
      rw [he, hrun, List.singleton_append, exec, hn]
      obtain ⟨g', hg'⟩ := ih (g := _) (setClient_clients s c _)
      rw [setClient_setClient] at hg'
      exact ⟨g', hg'⟩

theorem exec_low {s s' : EndState cfg} {e : EndEvent cfg} {o : List (EndEffect K ι)}
    (hn : endNext s e = some (s', o)) :
    exec (systemNext cfg.system) (lowEvents ⟨s, e, o, s'⟩) [] s.system =
      some (low ⟨s, e, o, s'⟩, s'.system) := by
  suffices h : ∃ g, exec (systemNext cfg.system) (lowEvents ⟨s, e, o, s'⟩) [] s.system =
      some (g, s'.system) by
    obtain ⟨g, hg⟩ := h
    rw [low, hg]
  cases endNext_case hn with
  | @server e s' o hs =>
    have hs' : systemNext cfg.system s.system (.server e) =
        some ({ s.system with server := s' }, o.map .server) :=
      Option.map_eq_some_iff.mpr ⟨_, hs, rfl⟩
    exact ⟨_, by rw [lowEvents, exec, hs']; rfl⟩
  | @handshake c e cs cs' o hc he hs =>
    have hcs : s.system.clients c = cs := by
      show (s.clients c).channelState = cs
      rw [hc]
      rfl
    have hs' : systemNext cfg.system s.system (.client c e) =
        some (s.system.setClient c cs', o.map (.client c)) := by
      rw [systemNext, hcs, hs]
      rfl
    rw [system_set]
    exact ⟨_, by rw [lowEvents, exec, hs']; rfl⟩
  | @spawn c seed ch hc =>
    -- below, the client is connected already
    refine ⟨[], ?_⟩
    rw [system_set]
    show some ([], s.system) = some ([], s.system.setClient c (.connected seed ch))
    have hcs : s.system.clients c = .connected seed ch := by
      show (s.clients c).channelState = _
      rw [hc]
      rfl
    rw [← hcs, SystemState.setClient, Function.update_eq_self]
  | @transport c e seed u u' o hc hs =>
    have hcs : s.system.clients c = .connected seed u.link := by
      show (s.clients c).channelState = _
      rw [hc]
      rfl
    obtain ⟨g, hg⟩ := exec_ops (g := []) (linkOps ⟨u, e, o, u'⟩) hcs
    refine ⟨g, ?_⟩
    rw [system_set]
    simp only [lowEvents, hc, set_clients_self, transport?_map]
    have hlink : runOps c u.link (linkOps ⟨u, e, o, u'⟩) = u'.link := (link_step hs).2.symm
    rw [hg, hlink]
    rfl

/-- Refinement: every step of server, handshakes and transports is a run of
the system below. -/
theorem low_refines :
    Refines endNext (systemNext cfg.system) EndState.system (fun t : EndStep cfg => low t) := by
  intro s e s' o hn
  exact Run.nil.exec (exec_low hn)

section Effects
variable {s s' : EndState cfg} {e : EndEvent cfg} {o : List (EndEffect K ι)}

theorem low_event (hn : endNext s e = some (s', o)) {k : Nat} {u : SystemStep K ι}
    (hu : At (low ⟨s, e, o, s'⟩) k u) : (lowEvents ⟨s, e, o, s'⟩)[k]? = some u.event :=
  hu.event (exec_events (exec_low hn))

theorem low_next (hn : endNext s e = some (s', o)) {k : Nat} {u : SystemStep K ι}
    (hu : At (low ⟨s, e, o, s'⟩) k u) :
    systemNext cfg.system u.pre u.event = some (u.post, u.out) :=
  (low_refines s e s' o hn).next_eq hu

omit [DecidableEq ι] in
theorem mem_opEvents {c : ι} {ops : List (LinkOp (cfg.transport c))} {x : SystemEvent K ι}
    (hx : x ∈ ops.flatMap (opEvents c)) :
    (∃ datagram, x = .client c (.openDatagram datagram)) ∨
      ∃ env out, LinkOp.send env out ∈ ops ∧
        x = .client c (.sealEnvelope env (out : K.Rng × Except IoError Unit).1) := by
  obtain ⟨op, hop, hx⟩ := List.mem_flatMap.mp hx
  cases op with
  | recv i =>
    cases (i : Except IoError Bytes) with
    | error e => cases hx
    | ok datagram => exact Or.inl ⟨datagram, List.mem_singleton.mp hx⟩
  | send env out => exact Or.inr ⟨env, out, hop, List.mem_singleton.mp hx⟩

theorem low_server (hn : endNext s e = some (s', o)) {k : Nat} {u : SystemStep K ι}
    (hu : At (low ⟨s, e, o, s'⟩) k u) {x : Effect K} (hx : SystemEffect.server x ∈ u.out) :
    EndEffect.server x ∈ o := by
  have hnext := low_next hn hu
  have hev := low_event hn hu
  rcases systemNext_case hnext with ⟨e', o', he, ho, -⟩ | ⟨c, e', o', -, ho, -⟩
  · rw [he] at hev
    cases endNext_case hn with
    | @server e'' s'' o'' hs =>
      have hs' : systemNext cfg.system s.system (.server e'') =
          some ({ s.system with server := s'' }, o''.map .server) :=
        Option.map_eq_some_iff.mpr ⟨_, hs, rfl⟩
      have h0 := exec_cons hs' (exec_low hn)
      have hk : k = 0 := by
        have hlt := (List.getElem?_eq_some_iff.mp hev).1
        simpa [lowEvents] using hlt
      subst hk
      cases hu.unique h0
      simpa using hx
    | handshake hc he hs => cases List.mem_singleton.mp (List.mem_of_getElem? hev)
    | spawn hc => cases hev
    | @transport c e'' seed v v' o'' hc hs =>
      simp only [lowEvents, hc, set_clients_self] at hev
      rcases mem_opEvents (List.mem_of_getElem? hev) with ⟨_, hx⟩ | ⟨_, _, -, hx⟩ <;> cases hx
  · rw [ho] at hx
    simp at hx

theorem low_of_server (hn : endNext s e = some (s', o)) {x : Effect K}
    (hx : EndEffect.server x ∈ o) :
    ∃ u, At (low ⟨s, e, o, s'⟩) 0 u ∧ SystemEffect.server x ∈ u.out := by
  have hexec := exec_low hn
  cases endNext_case hn with
  | @server e' s'' o' hs =>
    have hs' : systemNext cfg.system s.system (.server e') =
        some ({ s.system with server := s'' }, o'.map .server) :=
      Option.map_eq_some_iff.mpr ⟨_, hs, rfl⟩
    exact ⟨_, exec_cons hs' hexec, by simpa using hx⟩
  | _ => simp at hx

theorem low_received (hn : endNext s e = some (s', o)) {c : ι} {env : Envelope K.core}
    (hx : EndEffect.transport c (.received env) ∈ o) :
    ∃ u, At (low ⟨s, e, o, s'⟩) 0 u ∧ SystemEffect.client c (.received env) ∈ u.out := by
  have hexec := exec_low hn
  cases endNext_case hn with
  | server hs => simp at hx
  | handshake hc he hs => simp at hx
  | spawn hc => cases hx
  | @transport c' e seed v v' o' hc hs =>
    obtain ⟨y, hy, hyx⟩ := List.mem_map.mp hx
    cases hyx
    have hrecv : ∃ i rest, linkOps ⟨v, e, o', v'⟩ = .recv i :: rest ∧
        ((cfg.transport c).link.recv v.link i).1 = .envelope env := by
      have hcase := (link_step hs).1
      generalize linkOps ⟨v, e, o', v'⟩ = ops at hcase
      rw [← mem_receivedFrom] at hy
      cases hcase with
      | none hr ht | took hr ht | unread hi hr ht =>
        rw [hr] at hy
        cases hy
      | read hi hr ht =>
        rw [hr, List.mem_singleton] at hy
        subst hy
        exact ⟨_, [], rfl, hi⟩
      | answered hi hr ht =>
        rw [hr, List.mem_singleton] at hy
        subst hy
        exact ⟨_, _, rfl, hi⟩
    obtain ⟨i, rest, hops, hi⟩ := hrecv
    obtain ⟨datagram, rfl, hopen⟩ := udp_received hi
    simp only [lowEvents, hc, set_clients_self, transport?_map, hops, List.flatMap_cons] at hexec
    have hcs : s.system.clients c = .connected seed v.link := by
      show (s.clients c).channelState = _
      rw [hc]
      rfl
    exact ⟨_, exec_cons (systemNext_received hcs hopen) hexec, List.mem_singleton_self _⟩

omit [DecidableEq ι] in
theorem sealed_event {cfg : ClientCfg} {s s' : ClientState K} {e : ClientEvent K}
    {o : List (ClientEffect K)} (h : clientNext cfg s e = some (s', o)) {σ : K.RecordSealer}
    {env : Envelope K.core} {wire : Bytes} (hm : ClientEffect.sealed σ env wire ∈ o) :
    ∃ rng, e = .sealEnvelope env rng := by
  cases clientNext_case cfg h with
  | sealed hst hw =>
    cases List.mem_singleton.mp hm
    exact ⟨_, rfl⟩
  | resent3 hst ho => rcases ho with rfl | rfl <;> simp at hm
  | opened hst ho => rcases ho with rfl | ⟨env, rfl⟩ <;> simp at hm
  | _ => simp at hm

/-- What a client seals below its transport has taken from a call, or is the
answer to a Ping. -/
theorem low_sealed (hn : endNext s e = some (s', o)) {k : Nat} {u : SystemStep K ι}
    (hu : At (low ⟨s, e, o, s'⟩) k u) {c : ι} {σ : K.RecordSealer} {env : Envelope K.core}
    {wire : Bytes} (hx : SystemEffect.client c (.sealed σ env wire) ∈ u.out) (hp : env ≠ .pong) :
    k = 0 ∧ ∃ origin, EndEffect.transport c (.took origin env) ∈ o := by
  have hnext := low_next hn hu
  have hev := low_event hn hu
  rcases systemNext_case hnext with ⟨e', o', -, ho, -⟩ | ⟨c', e', o', he, ho, -, -, hcn⟩
  · rw [ho] at hx
    simp at hx
  · rw [ho] at hx
    obtain ⟨y, hy, hyx⟩ := List.mem_map.mp hx
    cases hyx
    obtain ⟨rng, rfl⟩ := sealed_event hcn hy
    rw [he] at hev
    cases endNext_case hn with
    | server hs => cases List.mem_singleton.mp (List.mem_of_getElem? hev)
    | handshake hc hhs hs =>
      cases List.mem_singleton.mp (List.mem_of_getElem? hev)
      cases hhs
    | spawn hc => cases hev
    | @transport c' e'' seed v v' o'' hc hs =>
      simp only [lowEvents, hc, set_clients_self, transport?_map] at hev
      rcases mem_opEvents (List.mem_of_getElem? hev) with ⟨_, hx⟩ | ⟨env', out, hsend, hx⟩ <;>
        cases hx
      obtain ⟨hops, origin, ht⟩ := (link_step hs).1.sent hsend hp
      refine ⟨?_, origin, List.mem_map.mpr ⟨_, ht, rfl⟩⟩
      have hlt := (List.getElem?_eq_some_iff.mp hev).1
      rw [hops] at hlt
      exact Nat.lt_one_iff.mp hlt

end Effects

end
end Obfs.Udp

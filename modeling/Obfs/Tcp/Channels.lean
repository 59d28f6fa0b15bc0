import Obfs.Tcp.System

/-! The streams of the system. A party is a client or a connection of the server;
each has one stream, which its handshake leaves to it, and polls and sends on it
in the steps of its pump. -/
namespace Obfs.Tcp
open Broadcast Client TcpStream Trace
variable {K : StreamCrates} {ι : Type}

section Stream
variable (service : Service K.core) (ep : StreamEnd K) (conn : ConnState K.core)

/-- What a step of a connection does with its end of the stream. -/
def handlerOps : HandlerEvent K → List (StreamOp K)
  | .handshake _ _ _ => []
  | .frame reads out =>
    match (ep.recv reads).1 with
    | .returned (.ok env) => .recv reads :: (inlineReply service env).toList.map (.send · out)
    | _ => [.recv reads]
  | .outbound out =>
    match conn.queue with
    | env :: _ => [.send env out]
    | [] => []
  | .respond out =>
    match conn.pump with
    | .serving req => [.send (.response (service.handle req)) out]
    | _ => []
  | .forward _ => []

inductive StreamCase (conn' : ConnState K.core) (o : List (ConnEffect K.core)) :
    HandlerEvent K → StreamEnd K → List (StreamOp K) → Prop where
  | waits {reads : List StreamRead} {out : K.Rng × Except IoError Unit}
      (hr : ∀ r, (ep.recv reads).1 ≠ .returned r) (hc : conn' = conn) (ho : o = []) :
      StreamCase conn' o (.frame reads out) (ep.recv reads).2 [.recv reads]
  | failed {reads : List StreamRead} {out : K.Rng × Except IoError Unit} {e : ObfsError K.core}
      (hr : (ep.recv reads).1 = .returned (.error e))
      (hn : connNext service conn (.frameError (frameErrorText e)) = some (conn', o)) :
      StreamCase conn' o (.frame reads out) (ep.recv reads).2 [.recv reads]
  | received {reads : List StreamRead} {out : K.Rng × Except IoError Unit} {env : Envelope K.core}
      (hr : (ep.recv reads).1 = .returned (.ok env)) (hi : inlineReply service env = none)
      (hn : connNext service conn (.frame env .ok) = some (conn', o)) :
      StreamCase conn' o (.frame reads out) (ep.recv reads).2 [.recv reads]
  | answered {reads : List StreamRead} {out : K.Rng × Except IoError Unit}
      {env reply : Envelope K.core} (hr : (ep.recv reads).1 = .returned (.ok env))
      (hi : inlineReply service env = some reply)
      (hn : connNext service conn (.frame env ((ep.recv reads).2.send reply out).1) =
        some (conn', o)) :
      StreamCase conn' o (.frame reads out) ((ep.recv reads).2.send reply out).2
        [.recv reads, .send reply out]
  | outbound {out : K.Rng × Except IoError Unit} {env : Envelope K.core}
      {rest : List (Envelope K.core)} (hq : conn.queue = env :: rest)
      (hn : connNext service conn (.outbound (ep.send env out).1) = some (conn', o)) :
      StreamCase conn' o (.outbound out) (ep.send env out).2 [.send env out]
  | respond {out : K.Rng × Except IoError Unit} {req : K.core.Request}
      (hp : conn.pump = .serving req)
      (hn : connNext service conn (.respond (ep.send (.response (service.handle req)) out).1) =
        some (conn', o)) :
      StreamCase conn' o (.respond out) (ep.send (.response (service.handle req)) out).2
        [.send (.response (service.handle req)) out]
  | forward {i : Nat} (hn : connNext service conn (.forward i) = some (conn', o)) :
      StreamCase conn' o (.forward i) ep []

variable {service ep conn}

theorem connStep_some {e : ConnEvent K.core} {ep' : StreamEnd K} {conn' : ConnState K.core}
    {o : List (ConnEffect K.core)} (h : connStep service ep conn e = some ((ep', conn'), o)) :
    ep' = ep ∧ connNext service conn e = some (conn', o) := by
  obtain ⟨next, hn, he⟩ := Option.map_eq_some_iff.mp h
  cases he
  exact ⟨rfl, hn⟩

theorem streamNext_case {e : HandlerEvent K} {ep' : StreamEnd K} {conn' : ConnState K.core}
    {o : List (ConnEffect K.core)} (h : streamNext service ep conn e = some ((ep', conn'), o)) :
    StreamCase service ep conn conn' o e ep' (handlerOps service ep conn e) := by
  cases e with
  | handshake e rng socket => cases h
  | frame reads out =>
    simp only [streamNext, frameNext] at h
    simp only [handlerOps]
    split at h
    · cases hr : ep.recv reads with
      | mk r ep₁ =>
        have hfst : (ep.recv reads).1 = r := by rw [hr]
        have hsnd : ep₁ = (ep.recv reads).2 := by rw [hr]
        rw [hr] at h
        subst hsnd
        cases r with
        | returned res =>
          cases res with
          | error e =>
            obtain ⟨rfl, hn⟩ := connStep_some h
            exact .failed hfst hn
          | ok env =>
            dsimp only at h
            split at h
            · rename_i reply hi
              obtain ⟨rfl, hn⟩ := connStep_some h
              simp only [hi]
              exact .answered hfst hi hn
            · rename_i hi
              obtain ⟨rfl, hn⟩ := connStep_some h
              simp only [hi]
              exact .received hfst hi hn
        | dropped =>
          cases h
          exact .waits (by simp [hfst]) rfl rfl
        | pending =>
          cases h
          exact .waits (by simp [hfst]) rfl rfl
    · cases h
  | outbound out =>
    simp only [streamNext, outboundNext] at h
    split at h
    · rename_i env rest hq
      obtain ⟨rfl, hn⟩ := connStep_some h
      simp only [handlerOps, hq]
      exact .outbound hq hn
    · cases h
  | respond out =>
    simp only [streamNext, respondNext] at h
    split at h
    · rename_i req hp
      obtain ⟨rfl, hn⟩ := connStep_some h
      simp only [handlerOps, hp]
      exact .respond hp hn
    · cases h
  | forward i =>
    obtain ⟨rfl, hn⟩ := connStep_some h
    exact .forward hn

theorem StreamCase.runOps_eq {e : HandlerEvent K} {ep' : StreamEnd K} {conn' : ConnState K.core}
    {o : List (ConnEffect K.core)} {ops : List (StreamOp K)}
    (hc : StreamCase service ep conn conn' o e ep' ops) : ep' = runOps ep ops ∧ Turn ops := by
  cases hc with
  | waits hr hc ho => exact ⟨rfl, .recv _⟩
  | failed hr hn => exact ⟨rfl, .recv _⟩
  | received hr hi hn => exact ⟨rfl, .recv _⟩
  | answered hr hi hn => exact ⟨rfl, .answer _ _ _⟩
  | outbound hq hn => exact ⟨rfl, .send _ _⟩
  | respond hp hn => exact ⟨rfl, .send _ _⟩
  | forward hn => exact ⟨rfl, .none⟩

end Stream

section Fresh
variable {C : Core} {α β : Type}

theorem ok_of_bind {m : Io C α} {f : α → Io C β} {s s' : Socket} {b : β}
    (h : (m >>= f) s = .ok b s') : ∃ a s₁, m s = .ok a s₁ ∧ f a s₁ = .ok b s' := by
  have h' : EStateM.bind m f s = .ok b s' := h
  unfold EStateM.bind at h'
  cases hm : m s with
  | ok a s₁ =>
    rw [hm] at h'
    exact ⟨a, s₁, rfl, h'⟩
  | error e s₁ =>
    rw [hm] at h'
    cases h'

theorem wire_eq_ok {r : Except WireError α} {a : α} {s s' : Socket}
    (h : (wire r : Io C α) s = .ok a s') : r = .ok a := by
  cases r with
  | error e => cases h
  | ok b =>
    cases h
    rfl

theorem message_eq_ok {r : Except WireError α × β} {a : α} {b : β} {s s' : Socket}
    (h : (message r : Io C (α × β)) s = .ok (a, b) s') : r = (.ok a, b) := by
  obtain ⟨_ | _, _⟩ := r
  · cases h
  · cases h
    rfl

theorem client_session {localPrivate remotePublic : Key} {e : K.Entropy} {rng : Nat → K.Rng}
    {socket socket' : Socket} {session : K.Session} {buf : Bytes}
    (h : clientHandshakeInPlace K localPrivate remotePublic e rng socket =
      .ok (session, buf) socket') :
    ∃ hs, K.InitiatorDone localPrivate remotePublic e hs ∧ K.intoSession hs = .ok session := by
  obtain ⟨hs₁, s₁, h1, h⟩ := ok_of_bind h
  obtain ⟨hs₀, _, hinit, h1⟩ := ok_of_bind h1
  obtain ⟨_, _, -, h1⟩ := ok_of_bind h1
  obtain ⟨⟨m1, hs₁'⟩, _, hw1, h1⟩ := ok_of_bind h1
  obtain ⟨_, _, -, h1⟩ := ok_of_bind h1
  cases h1
  obtain ⟨⟨m2, buf₁⟩, _, -, h⟩ := ok_of_bind h
  obtain ⟨⟨p2, hs₂⟩, _, hr2, h⟩ := ok_of_bind h
  obtain ⟨⟨m3, hs₃⟩, _, hw3, h⟩ := ok_of_bind h
  obtain ⟨_, _, -, h⟩ := ok_of_bind h
  obtain ⟨ses, _, hs, h⟩ := ok_of_bind h
  cases h
  exact ⟨hs₃, ⟨hs₀, hs₁, hs₂, m1, m2, m3, p2, wire_eq_ok hinit, message_eq_ok hw1,
    message_eq_ok hr2, message_eq_ok hw3⟩, wire_eq_ok hs⟩

theorem server_session {localPrivate : Key} {e : K.Entropy} {rng : K.Rng}
    {socket socket' : Socket} {session : K.Session} {key : Option Key} {buf : Bytes}
    (h : serverHandshakeInPlace K localPrivate e rng socket = .ok (session, key, buf) socket') :
    ∃ hs, K.ResponderDone localPrivate e hs ∧ K.intoSession hs = .ok session ∧
      K.remoteStatic hs = key := by
  obtain ⟨⟨r, buf₁⟩, _, h2, h⟩ := ok_of_bind h
  obtain ⟨r₀, _, hresp, h2⟩ := ok_of_bind h2
  obtain ⟨_, _, -, h2⟩ := ok_of_bind h2
  obtain ⟨⟨m1, _⟩, _, -, h2⟩ := ok_of_bind h2
  obtain ⟨⟨p1, r₁⟩, _, hr1, h2⟩ := ok_of_bind h2
  obtain ⟨⟨m2, r₂⟩, _, hw2, h2⟩ := ok_of_bind h2
  obtain ⟨_, _, -, h2⟩ := ok_of_bind h2
  cases h2
  obtain ⟨⟨m3, buf₂⟩, _, -, h⟩ := ok_of_bind h
  obtain ⟨⟨p3, hs₃⟩, _, hr3, h⟩ := ok_of_bind h
  obtain ⟨ses, _, hs, h⟩ := ok_of_bind h
  cases h
  exact ⟨hs₃, ⟨r, m3, p3, ⟨r₀, r₁, m1, m2, p1, wire_eq_ok hresp, message_eq_ok hr1,
    message_eq_ok hw2⟩, message_eq_ok hr3⟩, wire_eq_ok hs, rfl⟩

theorem handshakeNext_running {cfg : ServeCfg K} {sources : Nat → Channel (Event K.core)}
    {e : K.Entropy} {rng : K.Rng} {socket : Socket} {key : Key} {ep : StreamEnd K}
    {conn : ConnState K.core}
    (h : handshakeNext cfg sources e rng socket = some (.running key ep conn)) :
    cfg.gate key = .ok () ∧ conn = .init sources ∧
      ∃ hs, K.ResponderDone cfg.serverPrivate e hs ∧ K.intoSession hs = .ok ep.session ∧
        K.remoteStatic hs = some key := by
  unfold handshakeNext at h
  split at h
  · rename_i triple socket' hok
    obtain ⟨session, remote, leftover⟩ := triple
    have ha := Option.some.inj h
    cases remote with
    | none => cases ha
    | some key' =>
      unfold passGate at ha
      dsimp only at ha
      split at ha
      · rename_i hg
        cases ha
        exact ⟨hg, rfl, server_session hok⟩
      · cases ha
  · cases h
  · cases h
  · cases h

end Fresh

section Parties
variable {cfg : TcpCfg K ι}

variable (ι) in
inductive Party where
  | client (c : ι)
  | conn (m : Nat)
  deriving DecidableEq

def ClientEnd.stream? {c : ι} : ClientEnd cfg c → Option (StreamEnd K)
  | .running tr => some tr.link
  | _ => none

def Handler.stream? : Handler K → Option (StreamEnd K)
  | .running _ ep _ => some ep
  | _ => none

def TcpState.endOf (s : TcpState cfg) : Party ι → Option (StreamEnd K)
  | .client c => (s.clients c).stream?
  | .conn m => (s.conns[m]?).bind Handler.stream?

def streamOp {c : ι} : LinkOp (cfg.transport c) → StreamOp K
  | .recv reads => .recv reads
  | .send env out => .send env out

theorem runOps_streamOp {c : ι} (ops : List (LinkOp (cfg.transport c))) (ep : StreamEnd K) :
    ops.foldl (LinkOp.run (p := cfg.transport c)) ep = runOps ep (ops.map streamOp) := by
  induction ops generalizing ep with
  | nil => rfl
  | cons op ops ih =>
    have hop : LinkOp.run (p := cfg.transport c) ep op = (streamOp op).run ep := by
      cases op with
      | recv reads => exact streamLink_recv ep reads
      | send env out => rfl
    exact (congrArg (ops.foldl (LinkOp.run (p := cfg.transport c))) hop).trans (ih _)

theorem linkCase_turn {c : ι} {u : Transport (cfg.transport c)} {o : List (TransportEffect K.core)}
    {ops : List (LinkOp (cfg.transport c))} (hc : LinkCase u o ops) :
    Turn (ops.map streamOp) := by
  cases hc with
  | none hr ht => exact .none
  | took hr ht => exact .send _ _
  | unread hi hr ht => exact .recv _
  | read hi hr ht => exact .recv _
  | answered hi hr ht => exact .answer _ _ _

theorem endOf_setConn (s : TcpState cfg) {m : Nat} (hd : Handler K) {p : Party ι}
    (hp : p ≠ .conn m) :
    ({ s with conns := s.conns.set m hd } : TcpState cfg).endOf p = s.endOf p := by
  cases p with
  | client c => rfl
  | conn n =>
    have hmn : m ≠ n := fun h => hp (by rw [h])
    show ((s.conns.set m hd)[n]?).bind _ = _
    rw [List.getElem?_set_ne hmn]
    rfl

theorem endOf_accept (s : TcpState cfg) (p : Party ι) :
    ({ s with conns := s.conns ++ [.handshaking] } : TcpState cfg).endOf p = s.endOf p := by
  cases p with
  | client c => rfl
  | conn n =>
    show ((s.conns ++ [.handshaking])[n]?).bind _ = (s.conns[n]?).bind _
    rcases Nat.lt_trichotomy n s.conns.length with hlt | heq | hgt
    · rw [List.getElem?_append_left hlt]
    · subst heq
      simp [Handler.stream?]
    · have hnone : s.conns[n]? = none := List.getElem?_eq_none_iff.mpr (Nat.le_of_lt hgt)
      have hnone' : (s.conns ++ [.handshaking])[n]? = none := by
        rw [List.getElem?_eq_none_iff, List.length_append, List.length_singleton]
        exact hgt
      rw [hnone, hnone']

theorem endOf_updateSource (s : TcpState cfg) (i : Nat)
    (f : Channel (Event K.core) → Channel (Event K.core)) (p : Party ι) :
    (s.updateSource i f).endOf p = s.endOf p := by
  cases p with
  | client c => rfl
  | conn n =>
    show ((s.conns.map (Handler.updateSource i f))[n]?).bind _ = (s.conns[n]?).bind _
    rw [List.getElem?_map]
    cases s.conns[n]? with
    | none => rfl
    | some hd => cases hd <;> rfl

variable [DecidableEq ι]

def TcpEffect.transport? (c : ι) : TcpEffect K ι → Option (TransportEffect K.core)
  | .transport d x => if d = c then some x else none
  | _ => none

/-- Whose stream a step uses, and how. -/
def stepOps (t : TcpStep cfg) : Option (Party ι × List (StreamOp K)) :=
  match t.event with
  | .conn m e =>
    match t.pre.conns[m]? with
    | some (.running _ ep conn) => some (.conn m, handlerOps cfg.server.service ep conn e)
    | _ => none
  | .transport c e =>
    match t.pre.clients c, t.post.clients c with
    | .running u, .running v =>
      some (.client c, (linkOps ⟨u, e, t.out.filterMap (TcpEffect.transport? c), v⟩).map streamOp)
    | _, _ => none
  | _ => none

def turnOf (p : Party ι) (t : TcpStep cfg) : List (StreamOp K) :=
  match stepOps t with
  | some (q, ops) => if q = p then ops else []
  | none => []

/-- The plaintexts that party p encrypts and decrypts in a step. -/
def sealedIn (p : Party ι) (t : TcpStep cfg) : List Bytes :=
  (t.pre.endOf p).elim [] fun ep => sealedBy ep (turnOf p t)

def openedIn (p : Party ι) (t : TcpStep cfg) : List Bytes :=
  (t.pre.endOf p).elim [] fun ep => openedBy ep (turnOf p t)

theorem transport?_map (c : ι) (o : List (TransportEffect K.core)) :
    (o.map (TcpEffect.transport c)).filterMap (TcpEffect.transport? c) = o := by
  rw [List.filterMap_map]
  have hf : TcpEffect.transport? (K := K) c ∘ TcpEffect.transport c = some := by
    funext x
    simp [TcpEffect.transport?]
  rw [hf]
  exact List.filterMap_some

/-- The step in which a party finishes its handshake, with the session it gets. -/
inductive Made (t : TcpStep cfg) : Party ι → K.Session → Prop where
  | client {c : ι} {e : K.Entropy} {rng : Nat → K.Rng} {socket : Socket} {hs : K.Handshake}
      {ses : K.Session} (he : t.event = .connect c e rng socket)
      (hd : K.InitiatorDone (cfg.client c).localPrivate (cfg.client c).serverPublic e hs)
      (hses : K.intoSession hs = .ok ses) : Made t (.client c) ses
  | conn {m : Nat} {e : K.Entropy} {rng : K.Rng} {socket : Socket} {hs : K.Handshake}
      {ses : K.Session} (he : t.event = .conn m (.handshake e rng socket))
      (hd : K.ResponderDone cfg.server.serverPrivate e hs) (hses : K.intoSession hs = .ok ses) :
      Made t (.conn m) ses

omit [DecidableEq ι] in
theorem Made.session {t : TcpStep cfg} {p : Party ι} {ses : K.Session} (h : Made t p ses) :
    ∃ hs, K.intoSession hs = .ok ses := by
  cases h with
  | client he hd hses => exact ⟨_, hses⟩
  | conn he hd hses => exact ⟨_, hses⟩

/-- How a step leaves the stream of a party: as its operations do, or just made
by a handshake. -/
inductive EndCase (p : Party ι) (t : TcpStep cfg) : Prop where
  | kept (ep : StreamEnd K) (hpre : t.pre.endOf p = some ep)
      (hpost : t.post.endOf p = some (runOps ep (turnOf p t))) (hturn : Turn (turnOf p t))
  | absent (hpre : t.pre.endOf p = none)
      (hpost : ∀ ep, t.post.endOf p = some ep → Made t p ep.session)

theorem EndCase.same {p : Party ι} {t : TcpStep cfg} (he : t.post.endOf p = t.pre.endOf p)
    (ht : turnOf p t = []) : EndCase p t := by
  cases hp : t.pre.endOf p with
  | none =>
    refine .absent hp ?_
    intro ep hep
    rw [he, hp] at hep
    cases hep
  | some ep =>
    refine .kept ep hp ?_ ?_
    · rw [he, hp, ht]
      rfl
    · rw [ht]
      exact .none

theorem turnOf_self {p : Party ι} {t : TcpStep cfg} {ops : List (StreamOp K)}
    (h : stepOps t = some (p, ops)) : turnOf p t = ops := by
  rw [turnOf, h]
  exact if_pos rfl

theorem turnOf_other {p q : Party ι} {t : TcpStep cfg} {ops : List (StreamOp K)}
    (h : stepOps t = some (q, ops)) (hpq : q ≠ p) : turnOf p t = [] := by
  rw [turnOf, h]
  exact if_neg hpq

theorem turnOf_none {p : Party ι} {t : TcpStep cfg} (h : stepOps t = none) : turnOf p t = [] := by
  rw [turnOf, h]

theorem endOf_set (s : TcpState cfg) {c : ι} (x : ClientEnd cfg c) {p : Party ι}
    (hp : p ≠ .client c) : (s.set c x).endOf p = s.endOf p := by
  cases p with
  | conn n => rfl
  | client d =>
    have hdc : d ≠ c := fun h => hp (by rw [h])
    show ((s.set c x).clients d).stream? = _
    rw [set_clients_ne s x hdc]
    rfl

theorem end_case {s s' : TcpState cfg} {e : TcpEvent cfg} {o : List (TcpEffect K ι)}
    (h : tcpNext s e = some (s', o)) (p : Party ι) : EndCase p ⟨s, e, o, s'⟩ := by
  cases tcpNext_case h with
  | accept hl => exact .same (endOf_accept s p) (turnOf_none rfl)
  | acceptError hl => exact .same rfl (turnOf_none rfl)
  | stop hl => exact .same rfl (turnOf_none rfl)
  | emit => exact .same (endOf_updateSource s _ _ p) (turnOf_none rfl)
  | close => exact .same (endOf_updateSource s _ _ p) (turnOf_none rfl)
  | @handshake m e rng socket hd hm hn =>
    have hops : stepOps (⟨s, .conn m (.handshake e rng socket), [],
        { s with conns := s.conns.set m hd }⟩ : TcpStep cfg) = none := by
      simp only [stepOps, hm]
    by_cases hp : p = .conn m
    -- m has a stream only if this step ends its handshake
    · subst hp
      refine .absent ?_ ?_
      · show (s.conns[m]?).bind Handler.stream? = none
        rw [hm]
        rfl
      · intro ep hep
        have hm' : (s.conns.set m hd)[m]? = some hd :=
          List.getElem?_set_self (List.getElem?_eq_some_iff.mp hm).1
        have hep' : ((s.conns.set m hd)[m]?).bind Handler.stream? = some ep := hep
        rw [hm'] at hep'
        cases hd with
        | handshaking => cases hep'
        | returned => cases hep'
        | running key ep₁ conn =>
          cases hep'
          obtain ⟨-, -, hs, hd, hses, -⟩ := handshakeNext_running hn
          exact .conn rfl hd hses
    · exact .same (endOf_setConn s hd hp) (turnOf_none hops)
  | @stream m e key ep ep' conn conn' o hm hn =>
    have hops : stepOps (⟨s, .conn m e, o.map (.conn m),
        { s with conns := s.conns.set m (.running key ep' conn') }⟩ : TcpStep cfg) =
        some (.conn m, handlerOps cfg.server.service ep conn e) := by
      simp only [stepOps, hm]
    by_cases hp : p = .conn m
    · subst hp
      obtain ⟨hrun, hturn⟩ := (streamNext_case hn).runOps_eq
      have hm' : (s.conns.set m (.running key ep' conn'))[m]? = some (.running key ep' conn') :=
        List.getElem?_set_self (List.getElem?_eq_some_iff.mp hm).1
      refine .kept ep ?_ ?_ ?_
      · show (s.conns[m]?).bind Handler.stream? = some ep
        rw [hm]
        rfl
      · show ((s.conns.set m (.running key ep' conn'))[m]?).bind Handler.stream? = _
        rw [hm', turnOf_self hops, ← hrun]
        rfl
      · rw [turnOf_self hops]
        exact hturn
    · exact .same (endOf_setConn s _ hp) (turnOf_other hops (Ne.symm hp))
  | @connect c e rng socket x hc hn =>
    by_cases hp : p = .client c
    · subst hp
      refine .absent ?_ ?_
      · show (s.clients c).stream? = none
        rw [hc]
        rfl
      · intro ep hep
        have hep' : ((s.set c x).clients c).stream? = some ep := hep
        rw [set_clients_self] at hep'
        unfold connectNext at hn
        split at hn
        · rename_i session leftover socket' hok
          cases hn
          cases hep'
          obtain ⟨hs, hd, hses⟩ := client_session hok
          exact .client rfl hd hses
        · cases hn
          cases hep'
        · cases hn
        · cases hn
    · exact .same (endOf_set s x hp) (turnOf_none rfl)
  | @transport c e u u' o hc hn =>
    have hops : stepOps (⟨s, .transport c e, o.map (.transport c), s.set c (.running u')⟩ :
        TcpStep cfg) = some (.client c, (linkOps ⟨u, e, o, u'⟩).map streamOp) := by
      simp only [stepOps, hc, set_clients_self, transport?_map]
    by_cases hp : p = .client c
    · subst hp
      obtain ⟨hcase, hlink⟩ := link_step hn
      refine .kept u.link ?_ ?_ ?_
      · show (s.clients c).stream? = _
        rw [hc]
        rfl
      · show ((s.set c (.running u')).clients c).stream? = _
        rw [set_clients_self, turnOf_self hops]
        exact congrArg some (hlink.trans (runOps_streamOp _ _))
      · rw [turnOf_self hops]
        exact linkCase_turn hcase
    · exact .same (endOf_set s _ hp) (turnOf_other hops (Ne.symm hp))

end Parties

end Obfs.Tcp

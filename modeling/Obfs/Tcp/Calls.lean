import Obfs.Tcp.Answers

/-! The parties of the stream transport in a run of the whole system: what a step
is for a connection and for a client, by what their streams decrypt and encrypt.
Each of them has had a run of its own. -/
namespace Obfs.Tcp
open Broadcast Client TcpStream Trace
variable {K : StreamCrates}

section Codec

def decoded (K : StreamCrates) (plaintext : Bytes) : Option (Envelope K.core) :=
  (K.fromSlice plaintext).toOption

theorem decoded_eq_some {plaintext : Bytes} {env : Envelope K.core} :
    decoded K plaintext = some env ↔ K.fromSlice plaintext = .ok env := by
  unfold decoded
  cases K.fromSlice plaintext with
  | error e => exact ⟨nofun, nofun⟩
  | ok env' =>
    constructor <;> intro h <;> cases h <;> rfl

def requestOf (K : StreamCrates) (plaintext : Bytes) : Option K.core.Request :=
  (decoded K plaintext).bind Envelope.request?

def responseOf (K : StreamCrates) (plaintext : Bytes) : Option K.core.Response :=
  (decoded K plaintext).bind Envelope.response?

theorem requestOf_eq_some {plaintext : Bytes} {req : K.core.Request} :
    requestOf K plaintext = some req ↔ K.fromSlice plaintext = .ok (.request req) := by
  rw [requestOf, Option.bind_eq_some_iff, ← decoded_eq_some]
  constructor
  · rintro ⟨env, hd, he⟩
    cases env <;> cases he
    exact hd
  · exact fun hd => ⟨_, hd, rfl⟩

theorem responseOf_eq_some {plaintext : Bytes} {resp : K.core.Response} :
    responseOf K plaintext = some resp ↔ K.fromSlice plaintext = .ok (.response resp) := by
  rw [responseOf, Option.bind_eq_some_iff, ← decoded_eq_some]
  constructor
  · rintro ⟨env, hd, he⟩
    cases env <;> cases he
    exact hd
  · exact fun hd => ⟨_, hd, rfl⟩

theorem request?_eq_some {C : Core} {env : Envelope C} {req : C.Request} :
    env.request? = some req ↔ env = .request req := by
  cases env <;> simp [Envelope.request?]

theorem response?_eq_some {C : Core} {env : Envelope C} {resp : C.Response} :
    env.response? = some resp ↔ env = .response resp := by
  cases env <;> simp [Envelope.response?]

theorem requestOf_toVec (hreq : K.RequestCodec) {env : Envelope K.core} {json : Bytes}
    (h : K.toVec env = .ok json) : requestOf K json = env.request? := by
  ext req
  rw [requestOf_eq_some, hreq env json req h, request?_eq_some]

theorem responseOf_toVec (hrep : K.ReplyCodec) {env : Envelope K.core} {json : Bytes}
    (h : K.toVec env = .ok json) : responseOf K json = env.response? := by
  ext resp
  rw [responseOf_eq_some, hrep.response env json resp h, response?_eq_some]

theorem filterMap_toVec {β : Type} {f : Bytes → Option β} {g : Envelope K.core → Option β}
    (hfg : ∀ env json, K.toVec env = .ok json → f json = g env) {envs : List (Envelope K.core)}
    {pts : List Bytes} (h : envs.map K.toVec = pts.map .ok) :
    pts.filterMap f = envs.filterMap g := by
  induction envs generalizing pts with
  | nil =>
    cases pts with
    | nil => rfl
    | cons pt pts => cases h
  | cons env envs ih =>
    cases pts with
    | nil => cases h
    | cons pt pts =>
      obtain ⟨hhead, htail⟩ := List.cons.inj h
      rw [List.filterMap_cons, List.filterMap_cons, hfg env pt hhead, ih htail]

end Codec

section Streams
variable {service : Service K.core} {ep ep' : StreamEnd K} {conn conn' : ConnState K.core}
  {o : List (ConnEffect K.core)} {e : HandlerEvent K} {ops : List (StreamOp K)}

def envelope? {C : Core} : Call C (Envelope C) → Option (Envelope C)
  | .returned (.ok env) => some env
  | _ => none

theorem decoded_opened (ep : StreamEnd K) (reads : List StreamRead) :
    (ep.opened? reads).toList.filterMap (decoded K) = (envelope? (ep.recv reads).1).toList := by
  have hnone {call : Call K.core (Envelope K.core)} (h : ∀ env, call ≠ .returned (.ok env)) :
      envelope? call = none := by
    unfold envelope?
    split
    · exact absurd rfl (h _)
    · rfl
  rcases recv_cases ep reads with ⟨ho, hr, -⟩ | ⟨ct, pt, ho, -, hr⟩
  · rw [ho, hnone hr]
    rfl
  · rw [ho]
    cases hd : decoded K pt with
    | none =>
      rw [hnone]
      · simp [hd]
      · intro env he
        rw [decoded_eq_some.mpr ((hr env).mp he)] at hd
        cases hd
    | some env =>
      rw [(hr env).mpr (decoded_eq_some.mp hd)]
      simp [hd, envelope?]

theorem encryptedOf_send (ep : StreamEnd K) (env : Envelope K.core)
    (out : K.Rng × Except IoError Unit) :
    (encryptedOf env (ep.send env out).1).map K.toVec = (ep.sealed? env).toList.map .ok := by
  rcases send_cases ep env out with ⟨ho, ⟨text, hs⟩, -⟩ | ⟨pt, ct, ho, hv, -, hs | ⟨text, hs⟩⟩
  · rw [ho, hs]
    rfl
  · rw [ho, hs]
    simp [encryptedOf, hv]
  · rw [ho, hs]
    simp [encryptedOf, hv]

theorem StreamCase.received_eq (hc : StreamCase service ep conn conn' o e ep' ops) :
    o.filterMap ConnEffect.received? = (openedBy ep ops).filterMap (decoded K) := by
  have hrecv {reads : List StreamRead} (rest : List Bytes) (hrest : rest = []) :
      ((ep.opened? reads).toList ++ rest).filterMap (decoded K) =
        (envelope? (ep.recv reads).1).toList := by
    rw [hrest, List.append_nil]
    exact decoded_opened ep reads
  cases hc with
  | waits hr hc ho =>
    subst ho
    refine .trans ?_ (hrecv [] rfl).symm
    unfold envelope?
    split
    · exact absurd ‹_› (hr _)
    · rfl
  | failed hr hn =>
    refine .trans ?_ (hrecv [] rfl).symm
    rw [hr]
    cases connNext_case hn
    rfl
  | received hr hi hn =>
    refine .trans ?_ (hrecv [] rfl).symm
    rw [hr]
    exact (frame_effects hn).1
  | answered hr hi hn =>
    refine .trans ?_ (hrecv ([] ++ []) rfl).symm
    rw [hr]
    exact (frame_effects hn).1
  | outbound hq hn =>
    rw [outbound_effects hq hn]
    exact (encrypted?_map _).2.1
  | respond hp hn =>
    rw [respond_effects hp hn]
    exact (encrypted?_map _).2.1
  | forward hn =>
    cases connNext_case hn <;> rfl

theorem StreamCase.encrypted_eq (hc : StreamCase service ep conn conn' o e ep' ops) :
    (o.filterMap ConnEffect.encrypted?).map K.toVec = (sealedBy ep ops).map .ok := by
  cases hc with
  | waits hr hc ho =>
    subst ho
    rfl
  | failed hr hn =>
    cases connNext_case hn
    rfl
  | received hr hi hn =>
    rw [(frame_effects hn).2.1, hi]
    rfl
  | @answered reads out env reply hr hi hn =>
    rw [(frame_effects hn).2.1, hi, Option.toList_some, List.flatMap_singleton]
    simp only [sealedBy, StreamOp.sealed, StreamOp.run, List.nil_append, List.append_nil]
    exact encryptedOf_send _ reply out
  | @outbound out env rest hq hn =>
    rw [outbound_effects hq hn, (encrypted?_map _).1]
    simp only [sealedBy, StreamOp.sealed, List.append_nil]
    exact encryptedOf_send ep env out
  | @respond out req hp hn =>
    rw [respond_effects hp hn, (encrypted?_map _).1]
    simp only [sealedBy, StreamOp.sealed, List.append_nil]
    exact encryptedOf_send ep _ out
  | forward hn =>
    cases connNext_case hn <;> rfl

/-- The event of the connection behind an event of its handler. A poll of recv_frame
that does not end is none. -/
def connEvent (service : Service K.core) (ep : StreamEnd K) (conn : ConnState K.core) :
    HandlerEvent K → Option (ConnEvent K.core)
  | .handshake _ _ _ => none
  | .frame reads out =>
    match (ep.recv reads).1 with
    | .returned (.ok env) =>
      match inlineReply service env with
      | some reply => some (.frame env ((ep.recv reads).2.send reply out).1)
      | none => some (.frame env .ok)
    | .returned (.error e) => some (.frameError (frameErrorText e))
    | .dropped => none
    | .pending => none
  | .outbound out =>
    match conn.queue with
    | env :: _ => some (.outbound (ep.send env out).1)
    | [] => none
  | .respond out =>
    match conn.pump with
    | .serving req => some (.respond (ep.send (.response (service.handle req)) out).1)
    | .pumping => none
    | .stopped => none
  | .forward i => some (.forward i)

theorem StreamCase.conn_step (hc : StreamCase service ep conn conn' o e ep' ops) :
    (connEvent service ep conn e = none ∧ conn' = conn ∧ o = []) ∨
      ∃ ce, connEvent service ep conn e = some ce ∧ connNext service conn ce = some (conn', o) := by
  cases hc with
  | @waits reads out hr hc ho =>
    refine Or.inl ⟨?_, hc, ho⟩
    cases hres : (ep.recv reads).1 with
    | returned r => exact absurd hres (hr r)
    | dropped => simp only [connEvent, hres]
    | pending => simp only [connEvent, hres]
  | failed hr hn => exact Or.inr ⟨_, by simp only [connEvent, hr], hn⟩
  | received hr hi hn => exact Or.inr ⟨_, by simp only [connEvent, hr, hi], hn⟩
  | answered hr hi hn => exact Or.inr ⟨_, by simp only [connEvent, hr, hi], hn⟩
  | outbound hq hn => exact Or.inr ⟨_, by simp only [connEvent, hq], hn⟩
  | respond hp hn => exact Or.inr ⟨_, by simp only [connEvent, hp], hn⟩
  | forward hn => exact Or.inr ⟨_, rfl, hn⟩

theorem StreamCase.handled_eq (hc : StreamCase service ep conn conn' o e ep' ops) :
    o.filterMap ConnEffect.handled? =
      (o.filterMap ConnEffect.received?).filterMap Envelope.request? := by
  have hsends {envs : List (Envelope K.core)} (ho : o = envs.map .encrypted) :
      o.filterMap ConnEffect.handled? =
        (o.filterMap ConnEffect.received?).filterMap Envelope.request? := by
    rw [ho, (encrypted?_map _).2.1, (encrypted?_map _).2.2]
    rfl
  cases hc with
  | waits hr hc ho =>
    subst ho
    rfl
  | failed hr hn =>
    cases connNext_case hn
    rfl
  | @received reads out env hr hi hn =>
    rw [(frame_effects hn).1, (frame_effects hn).2.2]
    cases hreq : env.request? <;> simp [hreq]
  | @answered reads out env reply hr hi hn =>
    rw [(frame_effects hn).1, (frame_effects hn).2.2]
    cases hreq : env.request? <;> simp [hreq]
  | outbound hq hn => exact hsends (outbound_effects hq hn)
  | respond hp hn => exact hsends (respond_effects hp hn)
  | forward hn =>
    cases connNext_case hn <;> rfl

end Streams

section Run
variable {ι : Type} [DecidableEq ι] {cfg : TcpCfg K ι}
  {sources : Nat → Channel (Event K.core)} {h : List (TcpStep cfg)} {s s' : TcpState cfg}
  {e : TcpEvent cfg} {o : List (TcpEffect K ι)}

def TcpEffect.conn? (m : Nat) : TcpEffect K ι → Option (ConnEffect K.core)
  | .conn n x => if n = m then some x else none
  | _ => none

def connOut (m : Nat) (t : TcpStep cfg) : List (ConnEffect K.core) :=
  t.out.filterMap (TcpEffect.conn? m)

def transportOut (c : ι) (t : TcpStep cfg) : List (TransportEffect K.core) :=
  t.out.filterMap (TcpEffect.transport? c)

omit [DecidableEq ι] in
theorem conn?_map (m n : Nat) (o : List (ConnEffect K.core)) :
    (o.map (TcpEffect.conn (ι := ι) n)).filterMap (TcpEffect.conn? m) =
      if n = m then o else [] := by
  rw [List.filterMap_map]
  split
  · rename_i hnm
    have hf : TcpEffect.conn? (K := K) (ι := ι) m ∘ TcpEffect.conn n = some := by
      funext x
      simp [TcpEffect.conn?, hnm]
    rw [hf]
    exact List.filterMap_some
  · rename_i hnm
    simp [TcpEffect.conn?, hnm]

theorem conn_case (hn : tcpNext s e = some (s', o)) (m : Nat) :
    (connOut m ⟨s, e, o, s'⟩ = [] ∧ turnOf (.conn m) ⟨s, e, o, s'⟩ = []) ∨
    ∃ e' key ep ep' conn conn', s.conns[m]? = some (.running key ep conn) ∧
      s'.conns[m]? = some (.running key ep' conn') ∧
      StreamCase cfg.server.service ep conn conn' (connOut m ⟨s, e, o, s'⟩) e' ep'
        (turnOf (.conn m) ⟨s, e, o, s'⟩) := by
  cases tcpNext_case hn with
  | @stream n e key ep ep' conn conn' o hm hs =>
    have hops : stepOps (⟨s, .conn n e, o.map (.conn n),
        { s with conns := s.conns.set n (.running key ep' conn') }⟩ : TcpStep cfg) =
        some (.conn n, handlerOps cfg.server.service ep conn e) := by
      simp only [stepOps, hm]
    by_cases hnm : n = m
    · subst hnm
      refine Or.inr ⟨e, key, ep, ep', conn, conn', hm, ?_, ?_⟩
      · exact List.getElem?_set_self (List.getElem?_eq_some_iff.mp hm).1
      · rw [turnOf_self hops, connOut, conn?_map, if_pos rfl]
        exact streamNext_case hs
    · refine Or.inl ⟨?_, turnOf_other hops (by simpa using hnm)⟩
      rw [connOut, conn?_map, if_neg hnm]
  | @handshake n e rng socket hd hm hs =>
    refine Or.inl ⟨rfl, turnOf_none ?_⟩
    simp only [stepOps, hm]
  | @transport c e u u' o hc hs =>
    refine Or.inl ⟨?_, ?_⟩
    · simp [connOut, TcpEffect.conn?]
    · have hops : stepOps (⟨s, .transport c e, o.map (.transport c), s.set c (.running u')⟩ :
          TcpStep cfg) = some (.client c, (linkOps ⟨u, e, o, u'⟩).map streamOp) := by
        simp only [stepOps, hc, set_clients_self, transport?_map]
      exact turnOf_other hops (by simp)
  | _ => exact Or.inl ⟨rfl, turnOf_none rfl⟩

theorem client_case (hn : tcpNext s e = some (s', o)) (c : ι) :
    (transportOut c ⟨s, e, o, s'⟩ = [] ∧ turnOf (.client c) ⟨s, e, o, s'⟩ = []) ∨
    ∃ e' u u', s.clients c = .running u ∧ s'.clients c = .running u' ∧
      Client.next (p := cfg.transport c) u e' = some (u', transportOut c ⟨s, e, o, s'⟩) ∧
      turnOf (.client c) ⟨s, e, o, s'⟩ =
        (linkOps ⟨u, e', transportOut c ⟨s, e, o, s'⟩, u'⟩).map streamOp := by
  cases tcpNext_case hn with
  | @stream n e key ep ep' conn conn' o hm hs =>
    refine Or.inl ⟨?_, ?_⟩
    · simp [transportOut, TcpEffect.transport?]
    · have hops : stepOps (⟨s, .conn n e, o.map (.conn n),
          { s with conns := s.conns.set n (.running key ep' conn') }⟩ : TcpStep cfg) =
          some (.conn n, handlerOps cfg.server.service ep conn e) := by
        simp only [stepOps, hm]
      exact turnOf_other hops (by simp)
  | @handshake n e rng socket hd hm hs =>
    refine Or.inl ⟨rfl, turnOf_none ?_⟩
    simp only [stepOps, hm]
  | @transport d e u u' o hc hs =>
    have hops : stepOps (⟨s, .transport d e, o.map (.transport d), s.set d (.running u')⟩ :
        TcpStep cfg) = some (.client d, (linkOps ⟨u, e, o, u'⟩).map streamOp) := by
      simp only [stepOps, hc, set_clients_self, transport?_map]
    by_cases hdc : d = c
    · subst hdc
      refine Or.inr ⟨e, u, u', hc, set_clients_self s d _, ?_⟩
      rw [turnOf_self hops, transportOut, transport?_map]
      exact ⟨hs, rfl⟩
    · refine Or.inl ⟨?_, turnOf_other hops (by simpa using hdc)⟩
      simp [transportOut, TcpEffect.transport?, hdc]
  | _ => exact Or.inl ⟨rfl, turnOf_none rfl⟩

/-! Each connection and each transport has had a run of its own. -/

def Handler.running? : Handler K → Option (StreamEnd K × ConnState K.core)
  | .running _ ep conn => some (ep, conn)
  | .handshaking => none
  | .returned => none

def TcpState.running? (s : TcpState cfg) (m : Nat) : Option (StreamEnd K × ConnState K.core) :=
  (s.conns[m]?).bind Handler.running?

def connEventAt (m : Nat) (ep : StreamEnd K) (conn : ConnState K.core) :
    TcpEvent cfg → Option (ConnEvent K.core)
  | .conn n e => if n = m then connEvent cfg.server.service ep conn e else none
  | .emit source ev => some (.emit source ev)
  | .close source => some (.close source)
  | .accept | .acceptError | .stop | .connect _ _ _ _ | .transport _ _ => none

/-- The step of connection m in a step of the system. -/
def connPart (m : Nat) (t : TcpStep cfg) : Option (ConnStep K.core) :=
  match t.pre.running? m, t.post.running? m with
  | some (ep, conn), some (_, conn') =>
    (connEventAt m ep conn t.event).map fun e => ⟨conn, e, connOut m t, conn'⟩
  | some _, none => none
  | none, _ => none

def connSteps (m : Nat) (h : List (TcpStep cfg)) : List (ConnStep K.core) :=
  h.filterMap (connPart m)

inductive PartCase (m : Nat) (t : TcpStep cfg) : Prop where
  | idle (hp : connPart m t = none) (ho : connOut m t = [])
      (hs : (t.post.running? m).map Prod.snd = (t.pre.running? m).map Prod.snd)
  | starts (hp : connPart m t = none) (ho : connOut m t = []) (hpre : t.pre.running? m = none)
      (ep : StreamEnd K) (sources₀ : Nat → Channel (Event K.core))
      (hpost : t.post.running? m = some (ep, .init sources₀))
  | step (ep ep' : StreamEnd K) (conn conn' : ConnState K.core) (ce : ConnEvent K.core)
      (hp : connPart m t = some ⟨conn, ce, connOut m t, conn'⟩)
      (hpre : t.pre.running? m = some (ep, conn)) (hpost : t.post.running? m = some (ep', conn'))
      (hn : connNext cfg.server.service conn ce = some (conn', connOut m t))

def ClientTracks (c : ι) (h : List (TcpStep cfg)) : ClientEnd cfg c → Prop
  | .idle => gather (transportOut c) h = []
  | .failed _ => gather (transportOut c) h = []
  | .running tr => ∃ link g, TransportRun (cfg.transport c) link g tr ∧
      gather (transportOut c) h = gather Step.out g

theorem ClientTracks.snoc {c : ι} {x : ClientEnd cfg c} {t : TcpStep cfg}
    (hx : ClientTracks c h x) (ho : transportOut c t = []) : ClientTracks c (h ++ [t]) x := by
  cases x <;> rw [ClientTracks, gather_snoc, ho, List.append_nil] <;> exact hx

omit [DecidableEq ι] in
theorem connPart_eq_none {m : Nat} {t : TcpStep cfg}
    (he : ∀ ep conn, connEventAt m ep conn t.event = none) : connPart m t = none := by
  unfold connPart
  split
  · rw [he]
    rfl
  · rfl
  · rfl

omit [DecidableEq ι] in
theorem running?_eq {m : Nat} {key : Key} {ep : StreamEnd K} {conn : ConnState K.core}
    (hm : s.conns[m]? = some (.running key ep conn)) : s.running? m = some (ep, conn) := by
  rw [TcpState.running?, hm]
  rfl

omit [DecidableEq ι] in
theorem running?_set_ne {n m : Nat} (hd : Handler K) (hnm : n ≠ m) :
    TcpState.running? { s with conns := s.conns.set n hd } m = s.running? m := by
  show ((s.conns.set n hd)[m]?).bind _ = _
  rw [List.getElem?_set_ne hnm]
  rfl

omit [DecidableEq ι] in
/- An event or the end of a source is a step of every connection. -/
theorem partCase_updated {m i : Nat} {f : Channel (Event K.core) → Channel (Event K.core)}
    {e : TcpEvent cfg} {ce : ConnEvent K.core}
    (he : ∀ ep conn, connEventAt m ep conn e = some ce)
    (hf : ∀ conn, connNext cfg.server.service conn ce = some (conn.updateSource i f, [])) :
    PartCase m (⟨s, e, [], s.updateSource i f⟩ : TcpStep cfg) := by
  have hpost : (s.updateSource i f).running? m =
      (s.running? m).map fun x => (x.1, x.2.updateSource i f) := by
    show ((s.conns.map (Handler.updateSource i f))[m]?).bind _ = ((s.conns[m]?).bind _).map _
    rw [List.getElem?_map]
    rcases s.conns[m]? with _ | _ | _ | ⟨key, ep, conn⟩ <;> rfl
  cases hpre : s.running? m with
  | none =>
    rw [hpre] at hpost
    refine .idle ?_ rfl (by rw [hpost, hpre]; rfl)
    simp only [connPart, hpre]
  | some x =>
    obtain ⟨ep, conn⟩ := x
    rw [hpre] at hpost
    refine .step ep ep conn (conn.updateSource i f) ce ?_ hpre hpost (hf conn)
    simp only [connPart, hpre, hpost, Option.map_some, he]

omit [DecidableEq ι] in
theorem connSteps_snoc (m : Nat) (h : List (TcpStep cfg)) (t : TcpStep cfg) :
    connSteps m (h ++ [t]) = connSteps m h ++ (connPart m t).toList := by
  rw [connSteps, List.filterMap_append, List.filterMap_cons, List.filterMap_nil]
  cases connPart m t <;> rfl

theorem partCase (hn : tcpNext s e = some (s', o)) (m : Nat) :
    PartCase m (⟨s, e, o, s'⟩ : TcpStep cfg) := by
  cases tcpNext_case hn with
  | accept hl =>
    refine .idle (connPart_eq_none fun _ _ => rfl) rfl (congrArg _ ?_)
    show ((s.conns ++ [.handshaking])[m]?).bind _ = (s.conns[m]?).bind _
    rcases Nat.lt_trichotomy m s.conns.length with hlt | rfl | hgt
    · rw [List.getElem?_append_left hlt]
    · rw [List.getElem?_append_right (Nat.le_refl _), Nat.sub_self,
        List.getElem?_eq_none (Nat.le_refl _)]
      rfl
    · rw [List.getElem?_eq_none (Nat.le_of_lt hgt),
        List.getElem?_eq_none (by simpa using Nat.succ_le_of_lt hgt)]
  | @handshake n e rng socket hd hm hs =>
    have hp : connPart m (⟨s, .conn n (.handshake e rng socket), [],
        { s with conns := s.conns.set n hd }⟩ : TcpStep cfg) = none := by
      refine connPart_eq_none fun ep conn => ?_
      show (if n = m then none else none) = none
      split <;> rfl
    by_cases hnm : n = m
    · subst hnm
      have hpre : s.running? n = none := by
        rw [TcpState.running?, hm]
        rfl
      have hpost : (s.conns.set n hd)[n]? = some hd :=
        List.getElem?_set_self (List.getElem?_eq_some_iff.mp hm).1
      cases hd with
      | running key ep conn =>
        obtain ⟨-, rfl, -⟩ := handshakeNext_running hs
        exact .starts hp rfl hpre ep s.sources (running?_eq hpost)
      | handshaking | returned =>
        refine .idle hp rfl (congrArg _ ?_)
        rw [hpre, TcpState.running?, hpost]
        rfl
    · exact .idle hp rfl (congrArg _ (running?_set_ne hd hnm))
  | @stream n e key ep ep' conn conn' o hm hs =>
    by_cases hnm : n = m
    · subst hnm
      have hpre := running?_eq hm
      have hpost : TcpState.running? { s with conns := s.conns.set n (.running key ep' conn') } n =
          some (ep', conn') :=
        running?_eq (List.getElem?_set_self (List.getElem?_eq_some_iff.mp hm).1)
      have hout : connOut n (⟨s, .conn n e, o.map (.conn n),
          { s with conns := s.conns.set n (.running key ep' conn') }⟩ : TcpStep cfg) = o := by
        rw [connOut, conn?_map, if_pos rfl]
      rcases (streamNext_case hs).conn_step with ⟨hnone, rfl, rfl⟩ | ⟨ce, hsome, hce⟩
      · refine .idle ?_ hout (by rw [hpre, hpost]; rfl)
        simp only [connPart, hpre, hpost, connEventAt, if_pos, hnone, Option.map_none]
      · refine .step ep ep' conn conn' ce ?_ hpre hpost (hout.symm ▸ hce)
        simp only [connPart, hpre, hpost, connEventAt, if_pos, hsome, Option.map_some]
    · refine .idle (connPart_eq_none fun ep conn => if_neg hnm) ?_
        (congrArg _ (running?_set_ne _ hnm))
      rw [connOut, conn?_map, if_neg hnm]
  | emit => exact partCase_updated (fun _ _ => rfl) fun _ => rfl
  | close => exact partCase_updated (fun _ _ => rfl) fun _ => rfl
  | transport hc hs =>
    exact .idle (connPart_eq_none fun _ _ => rfl) (by simp [connOut, TcpEffect.conn?]) rfl
  | _ => exact .idle (connPart_eq_none fun _ _ => rfl) rfl rfl

/-- The steps of a connection are a run of it, from the end of its handshake on. -/
theorem connSteps_run (hr : TcpRun (.init cfg sources) h s) (m : Nat) :
    (s.running? m = none → connSteps m h = []) ∧
      ∀ ep conn, s.running? m = some (ep, conn) →
        ∃ sources₀, ConnRun cfg.server.service (.init sources₀) (connSteps m h) conn := by
  refine hr.induct (I := fun h s => (s.running? m = none → connSteps m h = []) ∧
    ∀ ep conn, s.running? m = some (ep, conn) →
      ∃ sources₀, ConnRun cfg.server.service (.init sources₀) (connSteps m h) conn)
    ⟨fun _ => rfl, fun _ _ hx => by cases hx⟩ ?_
  intro h s e s' o hr ih hn
  rw [connSteps_snoc]
  cases partCase hn m with
  | idle hp ho hs =>
    rw [hp, Option.toList_none, List.append_nil]
    dsimp only at hs
    constructor
    · intro hnone
      rw [hnone, Option.map_none, eq_comm, Option.map_eq_none_iff] at hs
      exact ih.1 hs
    · intro ep conn hsome
      rw [hsome, Option.map_some, eq_comm] at hs
      obtain ⟨⟨ep', conn'⟩, hpre, rfl⟩ := Option.map_eq_some_iff.mp hs
      exact ih.2 ep' conn' hpre
  | starts hp ho hpre ep sources₀ hpost =>
    rw [hp, Option.toList_none, List.append_nil, ih.1 hpre]
    refine ⟨fun _ => rfl, ?_⟩
    intro ep' conn hsome
    cases hpost.symm.trans hsome
    exact ⟨sources₀, .nil⟩
  | step ep ep' conn conn' ce hp hpre hpost hce =>
    rw [hp]
    constructor
    · intro hnone
      cases hpost.symm.trans hnone
    · intro ep₁ conn₁ hsome
      cases hpost.symm.trans hsome
      obtain ⟨sources₀, hg⟩ := ih.2 ep conn hpre
      exact ⟨sources₀, hg.snoc hce⟩

theorem connOut_gather (hr : TcpRun (.init cfg sources) h s) (m : Nat) :
    gather (connOut m) h = gather Step.out (connSteps m h) := by
  rw [connSteps, gather_component]
  refine gather_congr fun t ht => ?_
  cases partCase (hr.next_of_mem ht) m with
  | idle hp ho hs => rw [show connPart m t = none from hp, show connOut m t = [] from ho]; rfl
  | starts hp ho hpre ep sources₀ hpost =>
    rw [show connPart m t = none from hp, show connOut m t = [] from ho]; rfl
  | step ep ep' conn conn' ce hp hpre hpost hce =>
    rw [show connPart m t = some _ from hp]
    rfl

theorem clientTracks_step {c : ι} (ih : ClientTracks c h (s.clients c))
    (hn : tcpNext s e = some (s', o)) :
    ClientTracks c (h ++ [⟨s, e, o, s'⟩]) (s'.clients c) := by
  cases tcpNext_case hn with
  | @connect d e rng socket x hc hs =>
    refine ClientTracks.snoc ?_ rfl
    by_cases hcd : c = d
    · subst hcd
      rw [hc] at ih
      rw [set_clients_self]
      unfold connectNext at hs
      split at hs
      · cases hs
        exact ⟨_, [], .nil, ih⟩
      · cases hs
        exact ih
      · cases hs
      · cases hs
    · rw [set_clients_ne s _ hcd]
      exact ih
  | @transport d e u u' o hc hs =>
    by_cases hcd : c = d
    · subst hcd
      rw [hc] at ih
      rw [set_clients_self]
      obtain ⟨link, g, hg, hout⟩ := ih
      refine ⟨link, _, hg.snoc hs, ?_⟩
      rw [gather_snoc, gather_snoc, hout, transportOut, transport?_map]
    · rw [set_clients_ne s _ hcd]
      refine ih.snoc ?_
      simp [transportOut, TcpEffect.transport?, Ne.symm hcd]
  | stream hm hs => exact ih.snoc (by simp [transportOut, TcpEffect.transport?])
  | _ => exact ih.snoc rfl

theorem clientTracks (hr : TcpRun (.init cfg sources) h s) (c : ι) :
    ClientTracks c h (s.clients c) := by
  have h0 : ClientTracks c [] ((TcpState.init cfg sources).clients c) := rfl
  exact hr.induct (I := fun h s => ClientTracks c h (s.clients c)) h0
    fun _ _ _ _ _ _ ih hn => clientTracks_step ih hn

end Run
end Obfs.Tcp

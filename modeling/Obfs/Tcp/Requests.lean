import Obfs.Tcp.Calls
import Obfs.Tcp.Conversation

/-! request() over a TCP stream in a whole run of the system. The network may do
anything to the streams. A connection still handles the requests of one client,
in the order in which the client has sent them, and the client receives the
answers in the same order. -/
namespace Obfs.Tcp
open Broadcast Client TcpStream Trace
variable {K : StreamCrates} {ι : Type} [DecidableEq ι] {cfg : TcpCfg K ι}
  {sources : Nat → Channel (Event K.core)} {h : List (TcpStep cfg)} {s s' : TcpState cfg}
  {e : TcpEvent cfg} {o : List (TcpEffect K ι)}

theorem idle_turn {p : Party ι} {t : TcpStep cfg} (ht : turnOf p t = []) :
    openedIn p t = [] ∧ sealedIn p t = [] := by
  unfold openedIn sealedIn
  rw [ht]
  cases t.pre.endOf p <;> exact ⟨rfl, rfl⟩

theorem own_turn {p : Party ι} {t : TcpStep cfg} {ep : StreamEnd K}
    (hp : t.pre.endOf p = some ep) :
    openedIn p t = openedBy ep (turnOf p t) ∧ sealedIn p t = sealedBy ep (turnOf p t) := by
  unfold openedIn sealedIn
  rw [hp]
  exact ⟨rfl, rfl⟩

def handledBy (m : Nat) (t : TcpStep cfg) : List K.core.Request :=
  (connOut m t).filterMap ConnEffect.handled?

theorem handled_opened (hn : tcpNext s e = some (s', o)) (m : Nat) :
    handledBy m ⟨s, e, o, s'⟩ = (openedIn (.conn m) ⟨s, e, o, s'⟩).filterMap (requestOf K) := by
  unfold handledBy
  rcases conn_case hn m with ⟨ho, ht⟩ | ⟨e', key, ep, ep', conn, conn', hm, -, hc⟩
  · rw [ho, (idle_turn ht).1]
    rfl
  · have hep : s.endOf (.conn m) = some ep := by
      show (s.conns[m]?).bind Handler.stream? = some ep
      rw [hm]
      rfl
    rw [(own_turn hep).1, hc.handled_eq, hc.received_eq, List.filterMap_filterMap]
    rfl

theorem encrypted_sealed (hn : tcpNext s e = some (s', o)) (m : Nat) :
    ((connOut m ⟨s, e, o, s'⟩).filterMap ConnEffect.encrypted?).map K.toVec =
      (sealedIn (.conn m) ⟨s, e, o, s'⟩).map .ok := by
  rcases conn_case hn m with ⟨ho, ht⟩ | ⟨e', key, ep, ep', conn, conn', hm, -, hc⟩
  · rw [ho, (idle_turn ht).2]
    rfl
  · have hep : s.endOf (.conn m) = some ep := by
      show (s.conns[m]?).bind Handler.stream? = some ep
      rw [hm]
      rfl
    rw [(own_turn hep).2]
    exact hc.encrypted_eq

omit [DecidableEq ι] in
theorem linkCase_received {c : ι} {u : Transport (cfg.transport c)}
    {o : List (TransportEffect K.core)} {ops : List (LinkOp (cfg.transport c))}
    (hc : LinkCase u o ops) :
    receivedFrom o = (openedBy (K := K) u.link (ops.map streamOp)).filterMap (decoded K) := by
  have hread (reads : List StreamRead) (rest : List Bytes) (hrest : rest = []) :
      ((StreamEnd.opened? (K := K) u.link reads).toList ++ rest).filterMap (decoded K) =
        (envelope? (StreamEnd.recv (K := K) u.link reads).1).toList := by
    rw [hrest, List.append_nil]
    exact decoded_opened _ reads
  cases hc with
  | none hr hk => exact hr
  | took hr hk => exact hr
  | @unread reads hi hr hk =>
    rw [hr]
    refine .trans ?_ (hread reads [] rfl).symm
    unfold envelope?
    split
    · rename_i env he
      exact absurd ((streamLink_envelope _ reads env).mpr he) (hi env)
    · rfl
  | @read reads env hi hr hk =>
    rw [hr]
    refine .trans ?_ (hread reads [] rfl).symm
    rw [(streamLink_envelope (K := K) u.link reads env).mp hi]
    rfl
  | @answered reads out hi hr hk =>
    rw [hr]
    refine .trans ?_ (hread reads ([] ++ []) rfl).symm
    rw [(streamLink_envelope (K := K) u.link reads .ping).mp hi]
    rfl

theorem received_opened (hn : tcpNext s e = some (s', o)) (c : ι) :
    receivedFrom (transportOut c ⟨s, e, o, s'⟩) =
      (openedIn (.client c) ⟨s, e, o, s'⟩).filterMap (decoded K) := by
  rcases client_case hn c with ⟨ho, ht⟩ | ⟨e', u, u', hu, -, hnext, ht⟩
  · rw [ho, (idle_turn ht).1]
    rfl
  · have hep : s.endOf (.client c) = some u.link := by
      show (s.clients c).stream? = some u.link
      rw [hu]
      rfl
    rw [(own_turn hep).1, ht]
    exact linkCase_received (link_step hnext).1

def callOf {C : Core} : Origin × Envelope C → Option (Nat × C.Request)
  | (.request k, .request req) => some (k, req)
  | _ => none

def sentCalls (c : ι) (t : TcpStep cfg) : List (Nat × K.core.Request) :=
  if (sealedIn (.client c) t).isEmpty then []
  else (takenFrom (transportOut c t)).filterMap callOf

omit [DecidableEq ι] in
theorem linkCase_sealed (hreq : K.RequestCodec) {c : ι} {u : Transport (cfg.transport c)}
    {o : List (TransportEffect K.core)} {ops : List (LinkOp (cfg.transport c))}
    (hc : LinkCase u o ops)
    (ho : ∀ origin req, (origin, .request req) ∈ takenFrom o → ∃ k, origin = .request k) :
    (sealedBy (K := K) u.link (ops.map streamOp)).filterMap (requestOf K) =
      (if (sealedBy (K := K) u.link (ops.map streamOp)).isEmpty then []
        else (takenFrom o).filterMap callOf).map Prod.snd := by
  cases hc with
  | none hr hk => rfl
  | unread hi hr hk => rfl
  | read hi hr hk => rfl
  | @answered reads out hi hr hk =>
    rw [hk, List.filterMap_nil, ite_self, List.map_nil, List.filterMap_eq_nil_iff]
    intro pt hpt
    -- only the Pong is encrypted
    have hpong : K.toVec .pong = .ok pt := by
      simp only [List.map_cons, List.map_nil, streamOp, sealedBy, StreamOp.sealed,
        List.nil_append, List.append_nil, Option.mem_toList] at hpt
      rcases send_cases (StreamOp.run (K := K) u.link (.recv reads)) .pong out with
        ⟨hs, -⟩ | ⟨pt', ct, hs, hv, -⟩
      · rw [hs] at hpt
        cases hpt
      · rw [hs] at hpt
        cases hpt
        exact hv
    rw [requestOf_toVec hreq hpong]
    rfl
  | @took origin env out hr hk =>
    simp only [List.map_cons, List.map_nil, streamOp, sealedBy, StreamOp.sealed, List.append_nil,
      hk]
    rcases send_cases (K := K) u.link env out with ⟨hs, -⟩ | ⟨pt, ct, hs, hv, -⟩
    · rw [hs]
      rfl
    · rw [hs]
      have hpt := requestOf_toVec hreq hv
      cases env with
      | request req =>
        obtain ⟨k, rfl⟩ := ho origin req (by rw [hk]; exact List.mem_singleton_self _)
        simp [hpt, Envelope.request?, callOf]
      | _ => simp [hpt, Envelope.request?, callOf]

theorem sealed_sent (hreq : K.RequestCodec) (hr : TcpRun (.init cfg sources) h s)
    (hn : tcpNext s e = some (s', o)) (c : ι) :
    (sealedIn (.client c) ⟨s, e, o, s'⟩).filterMap (requestOf K) =
      (sentCalls c ⟨s, e, o, s'⟩).map Prod.snd := by
  unfold sentCalls
  rcases client_case hn c with ⟨ho, ht⟩ | ⟨e', u, u', hu, -, hnext, ht⟩
  · rw [(idle_turn ht).2]
    rfl
  · have hep : s.endOf (.client c) = some u.link := by
      show (s.clients c).stream? = some u.link
      rw [hu]
      rfl
    have htr := clientTracks hr c
    rw [hu] at htr
    obtain ⟨link, g, hg, -⟩ := htr
    rw [(own_turn hep).2, ht]
    refine linkCase_sealed hreq (link_step hnext).1 ?_
    intro origin req hm
    exact queued_request hg _ (took_head hnext (mem_takenFrom.mp hm)) req rfl

omit [DecidableEq ι] in
theorem mem_handledBy {m : Nat} {t : TcpStep cfg} {req : K.core.Request} :
    req ∈ handledBy m t ↔ TcpEffect.conn m (.handle req) ∈ t.out := by
  simp only [handledBy, connOut, List.mem_filterMap]
  constructor
  · rintro ⟨x, ⟨y, hy, hx⟩, hreq⟩
    cases y with
    | transport c z => cases hx
    | conn n z =>
      rw [TcpEffect.conn?] at hx
      split at hx
      · rename_i hnm
        cases hx
        cases x <;> cases hreq
        exact hnm ▸ hy
      · cases hx
  · intro hy
    exact ⟨.handle req, ⟨_, hy, by simp [TcpEffect.conn?]⟩, rfl⟩

theorem mem_transportOut {c : ι} {t : TcpStep cfg} {x : TransportEffect K.core} :
    x ∈ transportOut c t ↔ TcpEffect.transport c x ∈ t.out := by
  rw [transportOut, List.mem_filterMap]
  constructor
  · rintro ⟨y, hy, he⟩
    cases y with
    | conn m z => cases he
    | transport d z =>
      rw [TcpEffect.transport?] at he
      split at he
      · rename_i hdc
        cases he
        exact hdc ▸ hy
      · cases he
  · intro hx
    exact ⟨_, hx, by simp [TcpEffect.transport?]⟩

theorem steps_next (hr : TcpRun (.init cfg sources) h s) {t : TcpStep cfg} (ht : t ∈ h) :
    ∃ g, TcpRun (.init cfg sources) g t.pre ∧ tcpNext t.pre t.event = some (t.post, t.out) := by
  obtain ⟨i, hi⟩ := List.mem_iff_getElem?.mp ht
  exact ⟨_, hr.step hi⟩

theorem received_gather {β : Type} (f : Envelope K.core → Option β)
    (hr : TcpRun (.init cfg sources) h s) (c : ι) :
    gather (fun t => (receivedFrom (transportOut c t)).filterMap f) h =
      (gather (openedIn (.client c)) h).filterMap fun pt => (decoded K pt).bind f := by
  rw [← filterMap_gather]
  apply gather_congr
  intro t ht
  obtain ⟨g, -, hn⟩ := steps_next hr ht
  rw [received_opened hn c, List.filterMap_filterMap]

theorem encrypted_gather {β : Type} {f : Envelope K.core → Option β}
    (hf : ∀ env json, K.toVec env = .ok json → (decoded K json).bind f = f env)
    (hr : TcpRun (.init cfg sources) h s) (m : Nat) :
    (gather (sealedIn (.conn m)) h).filterMap (fun pt => (decoded K pt).bind f) =
      ((gather (connOut m) h).filterMap ConnEffect.encrypted?).filterMap f := by
  rw [← filterMap_gather, ← filterMap_gather, ← filterMap_gather]
  apply gather_congr
  intro t ht
  obtain ⟨g, -, hn⟩ := steps_next hr ht
  exact filterMap_toVec hf (encrypted_sealed hn m)

def receivedResponses (c : ι) (t : TcpStep cfg) : List K.core.Response :=
  (receivedFrom (transportOut c t)).filterMap Envelope.response?

theorem received_run (hr : TcpRun (.init cfg sources) h s) (c : ι) :
    gather (receivedResponses c) h =
      (gather (openedIn (.client c)) h).filterMap (responseOf K) :=
  received_gather Envelope.response? hr c

theorem handled_run (hr : TcpRun (.init cfg sources) h s) (m : Nat) :
    gather (handledBy m) h = (gather (openedIn (.conn m)) h).filterMap (requestOf K) := by
  rw [← filterMap_gather]
  apply gather_congr
  intro t ht
  obtain ⟨g, -, hn⟩ := steps_next hr ht
  exact handled_opened hn m

theorem sent_run (hreq : K.RequestCodec) (hr : TcpRun (.init cfg sources) h s) (c : ι) :
    (gather (sealedIn (.client c)) h).filterMap (requestOf K) =
      (gather (sentCalls c) h).map Prod.snd := by
  rw [← filterMap_gather, ← gather_map]
  apply gather_congr
  intro t ht
  obtain ⟨g, hg, hn⟩ := steps_next hr ht
  exact sealed_sent hreq hg hn c

/-- The responses that a connection has encrypted are the answers to the first
requests it has handled. -/
theorem responded_run (hrep : K.ReplyCodec) (hr : TcpRun (.init cfg sources) h s) (m : Nat) :
    (gather (sealedIn (.conn m)) h).filterMap (responseOf K) <+:
      (gather (handledBy m) h).map cfg.server.service.handle := by
  have hresp : (gather (sealedIn (.conn m)) h).filterMap (responseOf K) =
      respondedIn (gather (connOut m) h) :=
    encrypted_gather (fun env json hv => responseOf_toVec hrep hv) hr m
  have hhandled : gather (handledBy m) h =
      (gather (connOut m) h).filterMap ConnEffect.handled? := filterMap_gather _
  rw [hresp, hhandled]
  obtain ⟨hnil, hrun⟩ := connSteps_run hr m
  rw [connOut_gather hr m]
  cases hm : s.running? m with
  | none =>
    rw [hnil hm]
    exact List.nil_prefix
  | some x =>
    obtain ⟨sources₀, hg⟩ := hrun x.1 x.2 hm
    exact (answering_run hg).2.isPrefix

section Conversation
variable {Z : K.Cipher} (X : K.Xk Z) (hreq : K.RequestCodec) (hrep : K.ReplyCodec)
  (hr : TcpRun (.init cfg sources) h s) (hfresh : FreshEphemerals h) (hgen : Genuine Z h)

include hreq hr in
theorem Conversing.handled {c : ι} {m : Nat} (hc : Conversing Z h s c m) :
    gather (handledBy m) h <+: (gather (sentCalls c) h).map Prod.snd := by
  rw [handled_run hr m, ← sent_run hreq hr c]
  exact hc.toServer.filterMap _

include hrep hr in
theorem Conversing.received {c : ι} {m : Nat} (hc : Conversing Z h s c m) :
    gather (receivedResponses c) h <+:
      (gather (handledBy m) h).map cfg.server.service.handle := by
  rw [received_run hr c]
  exact (hc.toClient.filterMap _).trans (responded_run hrep hr m)

include X hr hfresh hgen in
theorem conversing_of_received {c : ι} (hne : gather (receivedResponses c) h ≠ []) :
    ∃ m, Conversing Z h s c m := by
  have hopened : gather (openedIn (.client c)) h ≠ [] := by
    intro hnil
    rw [received_run hr c, hnil] at hne
    exact hne rfl
  obtain ⟨d, m, hp | hp, hc⟩ := conversing X hr hfresh hgen hopened
  · cases hp
    exact ⟨m, hc⟩
  · cases hp

include X hr hfresh hgen in
theorem conversing_of_handled {m : Nat} (hne : gather (handledBy m) h ≠ []) :
    ∃ c, Conversing Z h s c m := by
  have hopened : gather (openedIn (.conn m)) h ≠ [] := by
    intro hnil
    rw [handled_run hr m, hnil] at hne
    exact hne rfl
  obtain ⟨c, n, hp | hp, hc⟩ := conversing X hr hfresh hgen hopened
  · cases hp
  · cases hp
    exact ⟨c, hc⟩

end Conversation

section SentCalls
variable {C : Core}

theorem count_filterMap_le {α β : Type} {f : α → Option Nat} {g : α → Option β} {k : Nat}
    (hfg : ∀ x, f x = some k → ∃ b, g x = some b) (l : List α) :
    (l.filterMap f).count k ≤ (l.filterMap g).length := by
  induction l with
  | nil => exact Nat.le_refl _
  | cons x l ih =>
    have hmono : (l.filterMap g).length ≤ ((x :: l).filterMap g).length := by
      cases hg : g x <;> simp [hg]
    cases hf : f x with
    | none =>
      rw [List.filterMap_cons_none hf]
      exact Nat.le_trans ih hmono
    | some j =>
      rw [List.filterMap_cons_some hf, List.count_cons]
      by_cases hj : j = k
      · subst hj
        obtain ⟨b, hb⟩ := hfg x hf
        rw [List.filterMap_cons_some hb, List.length_cons]
        simpa using ih
      · simpa [hj] using Nat.le_trans ih hmono

theorem count_taken_le (k : Nat) (o : List (TransportEffect C)) :
    (((takenFrom o).filterMap callOf).map Prod.fst).count k ≤
      (o.filterMap (TransportEffect.taken? k)).length := by
  rw [takenFrom, List.filterMap_filterMap, List.map_filterMap]
  refine count_filterMap_le ?_ o
  intro x hx
  obtain ⟨⟨k', req⟩, hcall, hk⟩ := Option.map_eq_some_iff.mp hx
  obtain ⟨⟨origin, env⟩, htook, hcall⟩ := Option.bind_eq_some_iff.mp hcall
  cases hk
  unfold callOf at hcall
  split at hcall <;> cases hcall
  rename_i heq
  cases heq
  cases x <;> cases htook
  exact ⟨.request req, by simp [TransportEffect.taken?]⟩

end SentCalls

theorem sentCalls_sublist (c : ι) (h : List (TcpStep cfg)) :
    (gather (sentCalls c) h).Sublist
      ((takenFrom (gather (transportOut c) h)).filterMap callOf) := by
  rw [takenFrom, ← filterMap_gather, ← filterMap_gather]
  apply gather_sublist
  intro t
  unfold sentCalls
  split
  · exact List.nil_sublist _
  · exact List.Sublist.refl _

/-- A stream client sends the request of a call once, and only the call's own. -/
theorem sentCalls_once (hr : TcpRun (.init cfg sources) h s) (c : ι) :
    ((gather (sentCalls c) h).map Prod.fst).Nodup ∧
      ∀ k req, (k, req) ∈ gather (sentCalls c) h →
        ∃ tr, s.clients c = .running tr ∧ tr.requests.reqOf k = some req := by
  have hsub := sentCalls_sublist c h
  have htr := clientTracks hr c
  cases hc : s.clients c with
  | idle =>
    rw [hc] at htr
    rw [show gather (transportOut c) h = [] from htr] at hsub
    rw [List.sublist_nil.mp hsub]
    exact ⟨List.nodup_nil, nofun⟩
  | failed e =>
    rw [hc] at htr
    rw [show gather (transportOut c) h = [] from htr] at hsub
    rw [List.sublist_nil.mp hsub]
    exact ⟨List.nodup_nil, nofun⟩
  | running tr =>
    rw [hc] at htr
    obtain ⟨link, g, hg, hout⟩ := htr
    rw [hout] at hsub
    constructor
    · refine List.Nodup.sublist (hsub.map Prod.fst) (List.nodup_iff_count_le_one.mpr ?_)
      intro k
      have hle := taken_length_le hg k
      have heq : gather (takenBy k) g = (gather Step.out g).filterMap (TransportEffect.taken? k) :=
        filterMap_gather _
      rw [heq] at hle
      exact Nat.le_trans (count_taken_le k _) hle
    · intro k req hm
      obtain ⟨⟨origin, env⟩, hmem, hcall⟩ := List.mem_filterMap.mp (hsub.subset hm)
      have htook := mem_takenFrom.mp hmem
      unfold callOf at hcall
      split at hcall
      · rename_i heq
        cases heq
        cases hcall
        obtain ⟨t, ht, hx⟩ := List.mem_flatMap.mp htook
        obtain ⟨i, hi⟩ := List.mem_iff_getElem?.mp ht
        obtain ⟨k', call, hk, hcalls, rfl⟩ := took_request hg hi hx
        cases hk
        refine ⟨tr, rfl, ?_⟩
        rw [Requests.reqOf, hcalls]
        rfl
      · cases hcall

section Results
variable {Z : K.Cipher} (X : K.Xk Z) (hreq : K.RequestCodec)
  (hr : TcpRun (.init cfg sources) h s) (hfresh : FreshEphemerals h) (hgen : Genuine Z h)

include X hreq hr hfresh hgen

/-- The responses that a client receives are the answers to the first requests
that it has sent, one for one and in order. It sends the request of each of its
calls at most once. -/
theorem responses_in_order (hrep : K.ReplyCodec) (c : ι) :
    gather (receivedResponses c) h <+:
      (gather (sentCalls c) h).map (fun call => cfg.server.service.handle call.2) ∧
    ((gather (sentCalls c) h).map Prod.fst).Nodup ∧
    ∀ k req, (k, req) ∈ gather (sentCalls c) h →
      ∃ tr, s.clients c = .running tr ∧ tr.requests.reqOf k = some req := by
  refine ⟨?_, sentCalls_once hr c⟩
  by_cases hne : gather (receivedResponses c) h = []
  · rw [hne]
    exact List.nil_prefix
  · obtain ⟨m, hc⟩ := conversing_of_received X hr hfresh hgen hne
    have hmap := (hc.handled hreq hr).map cfg.server.service.handle
    rw [List.map_map] at hmap
    exact (hc.received hrep hr).trans hmap

/-- The service is called for a connection only with requests of the one client
whose key the gate has accepted for it, in the order in which that client has
sent them, and for each of its calls at most once in all. -/
theorem stream_calls_handled_once :
    ∃ client : Nat → Option ι,
      (∀ m, gather (handledBy m) h ≠ [] → ∃ c ep conn, client m = some c ∧
        s.conns[m]? = some (.running (X.pubKey (cfg.client c).localPrivate) ep conn) ∧
        cfg.server.gate (X.pubKey (cfg.client c).localPrivate) = .ok () ∧
        gather (handledBy m) h <+: (gather (sentCalls c) h).map Prod.snd ∧
        ((gather (sentCalls c) h).map Prod.fst).Nodup) ∧
      ∀ m n c, client m = some c → client n = some c → m = n := by
  classical
  let client (m : Nat) : Option ι :=
    if hm : ∃ c, Conversing Z h s c m then some hm.choose else none
  have hclient {m : Nat} {c : ι} (hm : client m = some c) : Conversing Z h s c m := by
    by_cases hex : ∃ c, Conversing Z h s c m
    · rw [show client m = some hex.choose from dif_pos hex] at hm
      cases hm
      exact hex.choose_spec
    · rw [show client m = none from dif_neg hex] at hm
      cases hm
  refine ⟨client, ?_, ?_⟩
  · intro m hne
    have hex := conversing_of_handled X hr hfresh hgen hne
    have hc := hex.choose_spec
    obtain ⟨ep, conn, hm, hg⟩ := hc.admitted X hr
    exact ⟨hex.choose, ep, conn, dif_pos hex, hm, hg, hc.handled hreq hr,
      (sentCalls_once hr _).1⟩
  · intro m n c hm hn
    exact ((hclient hm).unique X hr hfresh (hclient hn)).mp rfl

theorem response_served (hrep : K.ReplyCodec) {c : ι} {resp : K.core.Response}
    (hgot : resp ∈ gather (receivedResponses c) h) :
    ∃ req m ep conn, resp = cfg.server.service.handle req ∧
      s.conns[m]? = some (.running (X.pubKey (cfg.client c).localPrivate) ep conn) ∧
      req ∈ gather (handledBy m) h ∧
      ∃ origin, TransportEffect.took origin (.request req) ∈ gather (transportOut c) h := by
  obtain ⟨m, hc⟩ := conversing_of_received X hr hfresh hgen (List.ne_nil_of_mem hgot)
  obtain ⟨req, hhandled, rfl⟩ := List.mem_map.mp ((hc.received hrep hr).subset hgot)
  obtain ⟨⟨k, _⟩, hsent, rfl⟩ := List.mem_map.mp ((hc.handled hreq hr).subset hhandled)
  obtain ⟨ep, conn, hm, -⟩ := hc.admitted X hr
  refine ⟨_, m, ep, conn, rfl, hm, hhandled, ?_⟩
  obtain ⟨⟨origin, env⟩, htaken, hcall⟩ :=
    List.mem_filterMap.mp ((sentCalls_sublist c h).subset hsent)
  unfold callOf at hcall
  split at hcall <;> cases hcall
  rename_i heq
  cases heq
  exact ⟨_, mem_takenFrom.mp htaken⟩

/-- A call that returns a response has got the service's answer to its own
request, for which the handler was called before on a connection with the
client's key. Ids are the callers' own: none is used twice, and the service
answers with the id it was asked with. -/
theorem stream_request_returns_own_answer (hrep : K.ReplyCodec)
    (hid : ∀ req, cfg.responseId (cfg.server.service.handle req) = cfg.requestId req)
    {i k : Nat} {t : TcpStep cfg} {c : ι} {resp : K.core.Response} (ht : At h i t)
    (hret : TcpEffect.transport c (.returned k (.ok resp)) ∈ t.out)
    (hu : ∀ tr, t.pre.clients c = .running tr → tr.requests.NeverReused (cfg.transport c)) :
    ∃ tr req, t.pre.clients c = .running tr ∧ tr.requests.reqOf k = some req ∧
      resp = cfg.server.service.handle req ∧
      ∃ m ep conn j u, t.pre.conns[m]? =
          some (.running (X.pubKey (cfg.client c).localPrivate) ep conn) ∧
        j < i ∧ At h j u ∧ TcpEffect.conn m (.handle req) ∈ u.out := by
  obtain ⟨hpre, hn⟩ := hr.step ht
  have hsplit : h.take i ++ h.drop i = h := List.take_append_drop i h
  have hfresh' : FreshEphemerals (h.take i) := by
    rw [FreshEphemerals, ← hsplit, gather_append] at hfresh
    exact hfresh.of_append_left
  have hgen' : Genuine Z (h.take i) := by
    rw [Genuine, ← hsplit] at hgen
    exact hgen.of_append
  rw [← mem_transportOut] at hret
  rcases client_case hn c with ⟨ho, -⟩ | ⟨e, tr, tr', htr, -, hnext, -⟩
  · rw [show transportOut c t = [] from ho] at hret
    cases hret
  have htracks := clientTracks hpre c
  rw [show t.pre.clients c = .running tr from htr] at htracks
  obtain ⟨link, g, hg, hout⟩ := htracks
  obtain ⟨slot, hw⟩ := returned_filled hg hnext hret
  -- ids tell the calls apart, so that the answer in the call's channel is its own
  obtain ⟨req, hreqOf, rfl, hserved⟩ := own_answer hg
    cfg.server.service.handle hid (hu tr htr)
    (Q := fun req => ∃ m ep conn j u, t.pre.conns[m]? =
        some (.running (X.pubKey (cfg.client c).localPrivate) ep conn) ∧
      j < i ∧ At h j u ∧ TcpEffect.conn m (.handle req) ∈ u.out)
    (by
      intro v hv resp hresp
      have hmem : TransportEffect.received (.response resp) ∈
          gather (transportOut c) (h.take i) := by
        rw [hout]
        exact List.mem_flatMap.mpr ⟨v, hv, hresp⟩
      obtain ⟨j, u, hju, hx⟩ := mem_gather.mp hmem
      have hgot : resp ∈ gather (receivedResponses c) (h.take i) :=
        mem_gather.mpr ⟨j, u, hju,
          List.mem_filterMap.mpr ⟨.response resp, mem_receivedFrom.mpr hx, rfl⟩⟩
      obtain ⟨req, m, ep, conn, rfl, hm, hhandled, origin, htook⟩ :=
        response_served X hreq hpre hfresh' hgen' hrep hgot
      obtain ⟨j', u', hu', hcall⟩ := mem_gather.mp hhandled
      refine ⟨req, rfl, ⟨m, ep, conn, j', u', hm, hu'.of_take.1, hu'.of_take.2,
        mem_handledBy.mp hcall⟩, ?_⟩
      rw [hout] at htook
      obtain ⟨w, hw, hx⟩ := List.mem_flatMap.mp htook
      exact ⟨w, hw, origin, hx⟩) hw
  exact ⟨tr, req, htr, hreqOf, rfl, hserved⟩

end Results

end Obfs.Tcp

namespace Obfs.Symbolic
open Tcp Client Trace

def streamAnswers (t : TcpStep keyedCfg) : List (Bool × Nat × UInt8) :=
  t.out.filterMap fun
    | .transport c (.returned k (.ok resp)) => some (c, k, resp)
    | _ => none

def streamIds (c : Bool) (s : TcpState keyedCfg) : List String :=
  match s.clients c with
  | .running tr => tr.requests.calls.map fun call => idText call.req
  | _ => []

theorem twoStreams_calls : ∃ h s, TcpRun keyedStart h s ∧ h.map Step.event = twoStreams ∧
    FreshEphemerals h ∧ Genuine keyedCipher h ∧
    gather (receivedResponses false) h = [(4 : UInt8), (5 : UInt8)] ∧
    gather (handledBy 0) h = [(9 : UInt8)] ∧
    gather (handledBy 1) h = [(3 : UInt8), (4 : UInt8)] ∧
    h.map streamAnswers = List.replicate 27 [] ++
      [[(false, 0, 4)], [], [], [(true, 0, 10)], [], [], [(false, 1, 5)]] ∧
    ∀ t ∈ h, ∀ c, (streamIds c t.pre).Nodup :=
  Run.of_exec (fun h _ => FreshEphemerals h ∧ Genuine keyedCipher h ∧
    gather (receivedResponses false) h = [(4 : UInt8), (5 : UInt8)] ∧
    gather (handledBy 0) h = [(9 : UInt8)] ∧
    gather (handledBy 1) h = [(3 : UInt8), (4 : UInt8)] ∧
    h.map streamAnswers = List.replicate 27 [] ++
      [[(false, 0, 4)], [], [], [(true, 0, 10)], [], [], [(false, 1, 5)]] ∧
    ∀ t ∈ h, ∀ c, (streamIds c t.pre).Nodup) (by decide +kernel)

theorem responses_in_order_two : ∃ h s, TcpRun keyedStart h s ∧
    gather (receivedResponses false) h = [(4 : UInt8), (5 : UInt8)] ∧
    gather (receivedResponses false) h <+:
      (gather (sentCalls false) h).map (fun call => answer call.2) := by
  obtain ⟨h, s, hr, -, hfresh, hgen, hgot, -⟩ := twoStreams_calls
  exact ⟨h, s, hr, hgot,
    (responses_in_order xk requestCodec hr hfresh hgen replyCodec false).1⟩

theorem stream_calls_handled_once_two : ∃ h s c d, TcpRun keyedStart h s ∧ c ≠ d ∧
    [(9 : UInt8)] <+: (gather (sentCalls c) h).map Prod.snd ∧
    [(3 : UInt8), (4 : UInt8)] <+: (gather (sentCalls d) h).map Prod.snd := by
  obtain ⟨h, s, hr, -, hfresh, hgen, -, h0, h1, -⟩ := twoStreams_calls
  obtain ⟨client, hserved, hinj⟩ := stream_calls_handled_once xk requestCodec hr hfresh hgen
  obtain ⟨c, -, -, hc, -, -, hpre, -⟩ := hserved 0 (by rw [h0]; nofun)
  obtain ⟨d, -, -, hd, -, -, hpre', -⟩ := hserved 1 (by rw [h1]; nofun)
  refine ⟨h, s, c, d, hr, ?_, h0 ▸ hpre, h1 ▸ hpre'⟩
  rintro rfl
  cases hinj 0 1 c hc hd

theorem keyedAnswer_id (req : UInt8) :
    keyedCfg.responseId (keyedCfg.server.service.handle req) = keyedCfg.requestId req := by
  show idText (req + 1 - 1) = idText req
  rw [UInt8.add_sub_cancel]

theorem stream_request_returns_own_answer_two : ∃ h s t tr m j u, TcpRun keyedStart h s ∧
    At h 33 t ∧ TcpEffect.transport false (.returned 1 (.ok (5 : UInt8))) ∈ t.out ∧
    t.pre.clients false = .running tr ∧ tr.requests.reqOf 1 = some (4 : UInt8) ∧
    j < 33 ∧ At h j u ∧ TcpEffect.conn m (.handle (4 : UInt8)) ∈ u.out := by
  obtain ⟨h, s, hr, -, hfresh, hgen, -, -, -, hanswers, hids⟩ := twoStreams_calls
  obtain ⟨t, ht, hat⟩ := at_map hanswers (j := 33) rfl
  have hmem : (false, 1, 5) ∈ streamAnswers t := by
    rw [hat]
    exact List.mem_singleton_self _
  obtain ⟨x, hx, he⟩ := List.mem_filterMap.mp hmem
  split at he
  · cases he
    have hu : ∀ tr, t.pre.clients false = .running tr →
        tr.requests.NeverReused (keyedCfg.transport false) := by
      intro tr hc
      have hn := hids t ht.mem false
      rw [streamIds, hc] at hn
      exact hn
    obtain ⟨tr, req, hc, hreq, hresp, m, ep, conn, j, u, -, hj, hju, hcall⟩ :=
      stream_request_returns_own_answer xk requestCodec hr hfresh hgen replyCodec
        keyedAnswer_id ht hx hu
    have h4 : req = (4 : UInt8) := by
      have h5 : (5 : UInt8) = req + 1 := hresp
      exact (UInt8.add_left_inj 1).mp h5.symm
    subst h4
    exact ⟨h, s, t, tr, m, j, u, hr, ht, hx, hc, hreq, hj, hju, hcall⟩
  · cases he

end Obfs.Symbolic

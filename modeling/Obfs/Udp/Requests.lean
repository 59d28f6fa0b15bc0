import Obfs.Udp.EndToEnd

/-! request() over datagrams, from the caller to the service and back. The link
is a network that loses, repeats, delays and invents datagrams; a call still
returns the answer to its own request or none, and the service is called for it
no more often than the call has sent it. -/
namespace Obfs.Udp
open Trace Client
variable {K : Crates} {ι : Type} [DecidableEq ι] {cfg : EndCfg K ι} {secret : K.CookieSecret}
  {sources : Nat → Broadcast.Channel (Event K.core)} {h : List (EndStep cfg)} {s : EndState cfg}

def transportOut (c : ι) (t : EndStep cfg) : List (TransportEffect K.core) :=
  t.out.filterMap (EndEffect.transport? c)

theorem mem_transportOut {c : ι} {t : EndStep cfg} {x : TransportEffect K.core} :
    x ∈ transportOut c t ↔ EndEffect.transport c x ∈ t.out := by
  rw [transportOut, List.mem_filterMap]
  constructor
  · rintro ⟨y, hy, he⟩
    cases y with
    | transport c' x' =>
      rw [EndEffect.transport?] at he
      split at he
      · rename_i hc
        cases he
        rw [← hc]
        exact hy
      · cases he
    | _ => cases he
  · intro hx
    exact ⟨_, hx, by simp [EndEffect.transport?]⟩

/-- A client that connects has no transport yet; a transport has had a run of
its own, which does what the client's transport does in the run of the system. -/
def Tracks (c : ι) (h : List (EndStep cfg)) : Endpoint cfg c → Prop
  | .connecting _ => gather (transportOut c) h = []
  | .running _ tr => ∃ link g, TransportRun (cfg.transport c) link g tr ∧
      gather (transportOut c) h = gather Step.out g

theorem tracks_step {c : ι} {s' : EndState cfg} {e : EndEvent cfg} {o : List (EndEffect K ι)}
    (ih : Tracks c h (s.clients c)) (hn : endNext s e = some (s', o)) :
    Tracks c (h ++ [⟨s, e, o, s'⟩]) (s'.clients c) := by
  have hsame {x : Endpoint cfg c} (hx : Tracks c h x)
      (ho : transportOut c ⟨s, e, o, s'⟩ = []) : Tracks c (h ++ [⟨s, e, o, s'⟩]) x := by
    cases x <;> rw [Tracks, gather_snoc, ho, List.append_nil] <;> exact hx
  cases endNext_case hn with
  | server hs => exact hsame ih (by simp [transportOut, EndEffect.transport?])
  | @handshake d e cs cs' o hc he hs =>
    have ho : transportOut c ⟨s, .handshake d e, o.map (.handshake d),
        s.set d (.connecting cs')⟩ = [] := by
      simp [transportOut, EndEffect.transport?]
    by_cases hd : c = d
    · subst hd
      rw [hc] at ih
      rw [set_clients_self]
      exact hsame (x := .connecting cs') ih ho
    · rw [set_clients_ne s _ hd]
      exact hsame ih ho
  | @spawn d seed ch hc =>
    by_cases hd : c = d
    · subst hd
      rw [hc] at ih
      rw [set_clients_self]
      have h0 : gather (transportOut c) h = [] := ih
      exact ⟨ch, [], .nil, by rw [gather_snoc, h0]; rfl⟩
    · rw [set_clients_ne s _ hd]
      exact hsame ih rfl
  | @transport d e seed u u' o hc hs =>
    by_cases hd : c = d
    · subst hd
      rw [hc] at ih
      rw [set_clients_self]
      obtain ⟨link, g, hg, hout⟩ := ih
      refine ⟨link, _, hg.snoc hs, ?_⟩
      rw [gather_snoc, gather_snoc, hout, transportOut, transport?_map]
    · rw [set_clients_ne s _ hd]
      refine hsame ih ?_
      rw [transportOut, List.filterMap_map]
      simp [EndEffect.transport?, Function.comp_def, Ne.symm hd]

theorem tracks (hr : EndRun (.init cfg secret sources) h s) (c : ι) : Tracks c h (s.clients c) := by
  have h0 : Tracks c [] ((EndState.init cfg secret sources).clients c) := rfl
  exact hr.induct (I := fun h s => Tracks c h (s.clients c)) h0
    fun _ _ _ _ _ _ ih hn => tracks_step ih hn

theorem tracked (hr : EndRun (.init cfg secret sources) h s) {i : Nat} {t : EndStep cfg} {c : ι}
    {x : TransportEffect K.core} (ht : At h i t) (hx : EndEffect.transport c x ∈ t.out) :
    ∃ seed tr link g, s.clients c = .running seed tr ∧
      TransportRun (cfg.transport c) link g tr ∧ gather (transportOut c) h = gather Step.out g := by
  have hmem : x ∈ gather (transportOut c) h := mem_gather.mpr ⟨i, t, ht, mem_transportOut.mpr hx⟩
  have htr := tracks hr c
  cases hc : s.clients c with
  | connecting cs =>
    rw [hc] at htr
    rw [show gather (transportOut c) h = [] from htr] at hmem
    cases hmem
  | running seed tr =>
    rw [hc] at htr
    obtain ⟨link, g, hg, hout⟩ := htr
    exact ⟨seed, tr, link, g, rfl, hg, hout⟩

theorem lowered_run (hr : EndRun (.init cfg secret sources) h s) :
    SystemRun cfg.system (.init secret sources) (lowered h) s.system :=
  hr.refine low_refines

section
variable (N : K.Noise) (S : K.Sealing) (O : K.Opening) (hreq : K.RequestCodec)
  (hr : EndRun (.init cfg secret sources) h s) (hh : Honest (lowered h))
  (hrec : GenuineRecords S O (lowered h))
include hr

theorem sealed_taken {m : Nat} {u : SystemStep K ι} {c : ι} {σ : K.RecordSealer}
    {env : Envelope K.core} {wire : Bytes} (hu : At (lowered h) m u)
    (hx : SystemEffect.client c (.sealed σ env wire) ∈ u.out) (hp : env ≠ .pong) :
    ∃ i t origin, At h i t ∧ m = offset low h i ∧
      EndEffect.transport c (.took origin env) ∈ t.out := by
  obtain ⟨i, t, k, ht, hk, rfl⟩ := hu.raised
  obtain ⟨rfl, origin, htook⟩ := low_sealed (hr.next_eq ht) hk hx hp
  exact ⟨i, t, origin, ht, rfl, htook⟩

include N S O hreq hh hrec

theorem received_answers (hrep : K.ReplyCodec) {i : Nat} {t : EndStep cfg} {c : ι}
    {resp : K.core.Response} (ht : At h i t)
    (hx : EndEffect.transport c (.received (.response resp)) ∈ t.out) :
    ∃ req, resp = cfg.system.server.service.handle req ∧
      (∃ j u n j₀ i₀ src seed, j ≤ i ∧ At h j u ∧ EndEffect.server (.handle n req) ∈ u.out ∧
        Opened N cfg.system (lowered h) n j₀ i₀ c src seed) ∧
      ∃ j u origin, j ≤ i ∧ At h j u ∧
        EndEffect.transport c (.took origin (.request req)) ∈ u.out := by
  obtain ⟨v, hv, hrecv⟩ := low_received (hr.next_eq ht) hx
  have hv' := ht.lowered hv
  obtain ⟨req, m, l, hlt, ⟨hlm, ⟨w, n, j₀, i₀, src, seed, hw, hcall, ho⟩, y, σ, wire, hy, hsealed⟩,
    hresp⟩ := response_answers N S O hreq hrep (lowered_run hr) hh hrec hv' hrecv
  refine ⟨req, hresp, ?_, ?_⟩
  · obtain ⟨j, u, k, hu, hk, rfl⟩ := hw.raised
    have hji : j ≤ i := le_of_lowered ht hv.lt (Nat.le_of_lt hlt)
    exact ⟨j, u, n, j₀, i₀, src, seed, hji, hu, low_server (hr.next_eq hu) hk hcall, ho⟩
  · obtain ⟨j, u, origin, hu, rfl, htook⟩ := sealed_taken hr hy hsealed nofun
    have hji : j ≤ i := le_of_lowered (k := 0) ht hv.lt (Nat.le_of_lt (Nat.lt_trans hlm hlt))
    exact ⟨j, u, origin, hji, hu, htook⟩

/-- A request() call over datagrams that returns a response returns the service's
answer to its own request, for which the handler was called before on a session
of this very client. Ids are the callers' own: none is used twice, and the
service answers with the id it was asked with. -/
theorem request_returns_own_answer (hrep : K.ReplyCodec)
    (hid : ∀ req, cfg.responseId (cfg.system.server.service.handle req) = cfg.requestId req)
    {i k : Nat} {t : EndStep cfg} {c : ι} {resp : K.core.Response} (ht : At h i t)
    (hret : EndEffect.transport c (.returned k (.ok resp)) ∈ t.out)
    (hu : ∀ seed tr, t.pre.clients c = .running seed tr →
      tr.requests.NeverReused (cfg.transport c)) :
    ∃ seed tr req, t.pre.clients c = .running seed tr ∧ tr.requests.reqOf k = some req ∧
      resp = cfg.system.server.service.handle req ∧
      ∃ j u n j₀ i₀ src seed', j < i ∧ At h j u ∧ EndEffect.server (.handle n req) ∈ u.out ∧
        Opened N cfg.system (lowered h) n j₀ i₀ c src seed' := by
  obtain ⟨hpre, hn⟩ := hr.step ht
  obtain ⟨seed, tr, tr', e, o, hc, hs, ho⟩ := transport_step hn hret
  have htr := tracks hpre c
  rw [hc] at htr
  obtain ⟨link, g, hg, hout⟩ := htr
  obtain ⟨slot, hw⟩ := returned_filled hg hs ho
  -- what the transport did so far, it did in a step of the run before this one
  have hfind {x : TransportEffect K.core} (hx : x ∈ gather Step.out g) :
      ∃ j u, j < i ∧ At h j u ∧ EndEffect.transport c x ∈ u.out := by
    rw [← hout] at hx
    obtain ⟨j, u, hu, hx⟩ := mem_gather.mp hx
    exact ⟨j, u, hu.of_take.1, hu.of_take.2, mem_transportOut.mp hx⟩
  obtain ⟨req, hreqOf, rfl, hserved⟩ := own_answer hg
    cfg.system.server.service.handle hid (hu seed tr hc)
    (Q := fun req => ∃ j u n j₀ i₀ src seed', j < i ∧ At h j u ∧
      EndEffect.server (.handle n req) ∈ u.out ∧
      Opened N cfg.system (lowered h) n j₀ i₀ c src seed')
    (by
      intro v hv resp hresp
      obtain ⟨j, u, hji, hu, hx⟩ := hfind (List.mem_flatMap.mpr ⟨v, hv, hresp⟩)
      obtain ⟨req, rfl, ⟨j', u', n, j₀, i₀, src, seed', hle, hu', hcall, ho⟩, j₂, u₂, origin, hle₂,
        hu₂, htook⟩ := received_answers N S O hreq hr hh hrec hrep hu hx
      refine ⟨req, rfl, ⟨j', u', n, j₀, i₀, src, seed', by omega, hu', hcall, ho⟩, ?_⟩
      have hmem : TransportEffect.took origin (.request req) ∈ gather Step.out g := by
        rw [← hout]
        exact mem_gather.mpr ⟨j₂, u₂, hu₂.take (by omega), mem_transportOut.mpr htook⟩
      obtain ⟨w, hw, hx⟩ := List.mem_flatMap.mp hmem
      exact ⟨w, hw, origin, hx⟩) hw
  exact ⟨seed, tr, req, hc, hreqOf, rfl, hserved⟩

end

def tookBy (c : ι) (k : Nat) (t : EndStep cfg) : List (Envelope K.core) :=
  (transportOut c t).filterMap (TransportEffect.taken? k)

theorem mem_tookBy {c : ι} {k : Nat} {t : EndStep cfg} {env : Envelope K.core} :
    env ∈ tookBy c k t ↔ EndEffect.transport c (.took (.request k) env) ∈ t.out :=
  mem_taken.trans mem_transportOut

theorem tookBy_length_le (hr : EndRun (.init cfg secret sources) h s) (c : ι) (k : Nat) :
    (gather (tookBy c k) h).length ≤ maxRequestRetries + 1 := by
  have hout : gather (tookBy c k) h =
      (gather (transportOut c) h).filterMap (TransportEffect.taken? k) := by
    rw [gather, gather, List.filterMap_flatMap]
    rfl
  have htr := tracks hr c
  cases hc : s.clients c with
  | connecting cs =>
    rw [hc] at htr
    rw [hout, show gather (transportOut c) h = [] from htr]
    exact Nat.zero_le _
  | running seed tr =>
    rw [hc] at htr
    obtain ⟨link, g, hg, hout'⟩ := htr
    have hle := taken_length_le hg k
    rw [hout, hout', gather, List.filterMap_flatMap]
    exact hle

/-- Behind the handler's call in step j is an envelope of call k of client c: the
transport has taken it in an earlier step, after r others of this call. -/
def SentBy (N : K.Noise) (O : K.Opening) (h : List (EndStep cfg)) (j n : Nat)
    (req : K.core.Request) (c : ι) (k r : Nat) : Prop :=
  ∃ i t, i < j ∧ At h i t ∧ EndEffect.transport c (.took (.request k) (.request req)) ∈ t.out ∧
    r = rank (tookBy c k) h i ∧
    CallOf N O cfg.system (lowered h) (offset low h j) n req (offset low h i)

theorem SentBy.le {N : K.Noise} {O : K.Opening} (hr : EndRun (.init cfg secret sources) h s)
    {j n k r : Nat} {req : K.core.Request} {c : ι} (hs : SentBy N O h j n req c k r) :
    r ≤ maxRequestRetries := by
  obtain ⟨i, t, -, ht, htook, rfl, -⟩ := hs
  have hlt := rank_lt ht (mem_tookBy.mpr htook)
  have hle := tookBy_length_le hr c k
  omega

theorem SentBy.call {N : K.Noise} {O : K.Opening} (hr : EndRun (.init cfg secret sources) h s)
    {j n k r : Nat} {req : K.core.Request} {c : ι} (hs : SentBy N O h j n req c k r) :
    ∃ seed tr, s.clients c = .running seed tr ∧ tr.requests.reqOf k = some req := by
  obtain ⟨i, t, -, ht, htook, -, -⟩ := hs
  obtain ⟨seed, tr, link, g, hc, hg, hout⟩ := tracked hr ht htook
  have hmem : TransportEffect.took (.request k) (.request req) ∈ gather Step.out g := by
    rw [← hout]
    exact mem_gather.mpr ⟨i, t, ht, mem_transportOut.mpr htook⟩
  obtain ⟨m, u, hu, hx⟩ := mem_gather.mp hmem
  obtain ⟨d, call, hd, hcall, rfl⟩ := took_request hg hu hx
  cases hd
  refine ⟨seed, tr, hc, ?_⟩
  rw [Requests.reqOf, hcall]
  rfl

theorem SentBy.unique {N : K.Noise} {O : K.Opening} (hr : EndRun (.init cfg secret sources) h s)
    (hh : Honest (lowered h)) {j j' n n' k r : Nat} {req req' : K.core.Request} {c : ι}
    {u u' : EndStep cfg} (hu : At h j u) (hu' : At h j' u') (hj : 0 < (low u).length)
    (hj' : 0 < (low u').length) (hs : SentBy N O h j n req c k r)
    (hs' : SentBy N O h j' n' req' c k r) : j = j' := by
  obtain ⟨i, t, -, ht, htook, hrank, hcall⟩ := hs
  obtain ⟨i', t', -, ht', htook', hrank', hcall'⟩ := hs'
  cases rank_inj ht ht' (mem_tookBy.mpr htook) (mem_tookBy.mpr htook') (hrank.symm.trans hrank')
  have heq := (hcall.unique (lowered_run hr) hh hcall').1
  exact (lowered_inj (k := 0) (l := 0) hu hu' hj hj' heq).1

theorem end_handle_once {s s' : EndState cfg} {e : EndEvent cfg} {o : List (EndEffect K ι)}
    (hn : endNext s e = some (s', o)) {n n' : Nat} {req req' : K.core.Request}
    (hx : EndEffect.server (.handle n req) ∈ o) (hx' : EndEffect.server (.handle n' req') ∈ o) :
    n' = n ∧ req' = req := by
  cases endNext_case hn with
  | server hs =>
    simp only [List.mem_map, EndEffect.server.injEq, exists_eq_right] at hx hx'
    exact handle_once hs hx hx'
  | _ => simp at hx

theorem handle_sentBy (N : K.Noise) (S : K.Sealing) (O : K.Opening) (hreq : K.RequestCodec)
    (hr : EndRun (.init cfg secret sources) h s) (hh : Honest (lowered h))
    (hrec : GenuineRecords S O (lowered h)) {j n : Nat} {u : EndStep cfg} {req : K.core.Request}
    (hu : At h j u) (hx : EndEffect.server (.handle n req) ∈ u.out) :
    0 < (low u).length ∧ ∃ c k r, SentBy N O h j n req c k r := by
  obtain ⟨v, hv, hcall⟩ := low_of_server (hr.next_eq hu) hx
  refine ⟨hv.lt, ?_⟩
  obtain ⟨m, hm⟩ := call_sealed N S O hreq (lowered_run hr) hh hrec (hu.lowered hv) hcall
  obtain ⟨json, -, w, c, seed, ch, wire, -, -, -, hw, hsealed, -⟩ := id hm
  obtain ⟨i, t, origin, ht, rfl, htook⟩ := sealed_taken hr hw hsealed nofun
  obtain ⟨_, tr, link, g, -, hg, hout⟩ := tracked hr ht htook
  have hmem : TransportEffect.took origin (.request req) ∈ gather Step.out g := by
    rw [← hout]
    exact mem_gather.mpr ⟨i, t, ht, mem_transportOut.mpr htook⟩
  obtain ⟨l, y, hy, hx⟩ := mem_gather.mp hmem
  obtain ⟨k, -, rfl, -⟩ := took_request hg hy hx
  have hij : i < j := by
    by_contra hji
    have hle : offset low h j ≤ offset low h i := offset_mono (Nat.le_of_not_lt hji)
    obtain ⟨-, hlt, -⟩ := hm
    omega
  exact ⟨c, k, _, i, t, hij, ht, htook, rfl, hm⟩

/-- The calls of the handler go back injectively to the attempts of request() calls,
each of which the transport has sent before, and of which each call has at most
eleven: whatever the network repeats, the service is called no more often for a call
than the call was sent, and for nothing that no call has asked. -/
theorem calls_within_retries (N : K.Noise) (S : K.Sealing) (O : K.Opening) (hreq : K.RequestCodec)
    (hr : EndRun (.init cfg secret sources) h s) (hh : Honest (lowered h))
    (hrec : GenuineRecords S O (lowered h)) :
    ∃ f : Nat → Option (ι × Nat × Nat),
      (∀ j u n req, At h j u → EndEffect.server (.handle n req) ∈ u.out →
        ∃ c k r seed tr, f j = some (c, k, r) ∧ SentBy N O h j n req c k r ∧
          r ≤ maxRequestRetries ∧ s.clients c = .running seed tr ∧
          tr.requests.reqOf k = some req) ∧
      ∀ j j' u u' n n' req req', At h j u → At h j' u' →
        EndEffect.server (.handle n req) ∈ u.out → EndEffect.server (.handle n' req') ∈ u'.out →
        f j = f j' → j = j' := by
  classical
  have hsent (j : Nat) : ∃ x : Option (ι × Nat × Nat), ∀ u n req, At h j u →
      EndEffect.server (.handle n req) ∈ u.out →
      0 < (low u).length ∧ ∃ c k r, x = some (c, k, r) ∧ SentBy N O h j n req c k r := by
    by_cases hj : ∃ u n req, At h j u ∧ EndEffect.server (.handle n req) ∈ u.out
    · obtain ⟨u, n, req, hu, hx⟩ := hj
      obtain ⟨hpos, c, k, r, hs⟩ := handle_sentBy N S O hreq hr hh hrec hu hx
      refine ⟨some (c, k, r), ?_⟩
      intro u' n' req' hu' hx'
      -- a step calls the handler once
      cases hu.unique hu'
      obtain ⟨rfl, rfl⟩ := end_handle_once (hr.next_eq hu) hx hx'
      exact ⟨hpos, c, k, r, rfl, hs⟩
    · exact ⟨none, fun u n req hu hx => absurd ⟨u, n, req, hu, hx⟩ hj⟩
  choose f hf using hsent
  refine ⟨f, ?_, ?_⟩
  · intro j u n req hu hx
    obtain ⟨-, c, k, r, hfj, hs⟩ := hf j u n req hu hx
    obtain ⟨seed, tr, hc, hk⟩ := hs.call hr
    exact ⟨c, k, r, seed, tr, hfj, hs, hs.le hr, hc, hk⟩
  · intro j j' u u' n n' req req' hu hu' hx hx' he
    obtain ⟨hpos, c, k, r, hfj, hs⟩ := hf j u n req hu hx
    obtain ⟨hpos', c', k', r', hfj', hs'⟩ := hf j' u' n' req' hu' hx'
    rw [hfj, hfj'] at he
    cases he
    exact hs.unique hr hh hu hu' hpos hpos' hs'

end Obfs.Udp

namespace Obfs.Symbolic
open Udp Client Trace

/- Answers of the symbolic service carry the id of their request. -/
def endCfg : EndCfg crates Unit :=
  ⟨systemCfg, idText, fun resp => idText (resp - 1), fun _ => none⟩

def endStart : EndState endCfg := .init endCfg ⟨keyOf 0, none⟩ fun _ => ⟨16, [], false⟩

def pumpSend : EndEvent endCfg := .transport () (.pump (.turn false none ((), .ok ())))

/- The client connects and asks once, but its request is slow: it is sent again,
both copies are served, and the answer to the first one arrives. -/
def resentCall : List (EndEvent endCfg) :=
  [.handshake () (.call (wake 0)), .server (recv (hs1 5 none) (addr 1) (fromMillis 200) 6),
    .handshake () (.datagram (hs2 5 6) (addr 0) (wake 400)),
    .server (recv (hs3 5 6 clientKey (keyOf 1)) (addr 1) (fromMillis 600) 0),
    .handshake () (.datagram (data s2cKey 0 .pong) (addr 0) (wake 800)), .spawn (),
    .transport () (.request (3 : UInt8)), .transport () (.call 0 .insert),
    .transport () (.call 0 .send), pumpSend, .transport () (.call 0 .expire),
    .transport () (.call 0 .remove), .transport () (.call 0 .insert),
    .transport () (.call 0 .send), pumpSend,
    .server (recv (data (keyOf 1) 0 (.request (3 : UInt8))) (addr 1) (fromMillis 2000) 0),
    .server (.respond (fromMillis 2001) ()),
    .server (recv (data (keyOf 1) 1 (.request (3 : UInt8))) (addr 1) (fromMillis 2002) 0),
    .server (.respond (fromMillis 2003) ()),
    .transport () (.pump (.turn false (some (.ok (data s2cKey 1 (.response (4 : UInt8)))))
      ((), .ok ()))),
    .transport () (.pump .deliver), .transport () (.call 0 .wake)]

def endCalls (t : EndStep endCfg) : List (Nat × UInt8) :=
  t.out.filterMap fun
    | .server (.handle n req) => some (n, req)
    | _ => none

def endAnswers (t : EndStep endCfg) : List (Nat × UInt8) :=
  t.out.filterMap fun
    | .transport _ (.returned k (.ok resp)) => some (k, resp)
    | _ => none

def callIds (s : EndState endCfg) : List String :=
  match s.clients () with
  | .connecting _ => []
  | .running _ tr => tr.requests.calls.map fun call => idText call.req

theorem resentCall_run : ∃ h s, EndRun endStart h s ∧ h.map Step.event = resentCall ∧
    Honest (lowered h) ∧ GenuineRecords sealing opening (lowered h) ∧
    h.map endCalls = List.replicate 15 [] ++ [[(0, 3)], [], [(0, 3)], [], [], [], []] ∧
    h.map endAnswers = List.replicate 21 [] ++ [[(0, 4)]] ∧
    ∀ t ∈ h, (callIds t.pre).Nodup :=
  Run.of_exec (fun h _ => Honest (lowered h) ∧ GenuineRecords sealing opening (lowered h) ∧
    h.map endCalls = List.replicate 15 [] ++ [[(0, 3)], [], [(0, 3)], [], [], [], []] ∧
    h.map endAnswers = List.replicate 21 [] ++ [[(0, 4)]] ∧
    ∀ t ∈ h, (callIds t.pre).Nodup) (by decide +kernel)

theorem endAnswer_id (req : UInt8) :
    endCfg.responseId (endCfg.system.server.service.handle req) = endCfg.requestId req := by
  show idText (req + 1 - 1) = idText req
  rw [UInt8.add_sub_cancel]

theorem request_returns_own_answer_resent :
    ∃ h s t seed tr j u n, EndRun endStart h s ∧ At h 21 t ∧
      EndEffect.transport () (.returned 0 (.ok (4 : UInt8))) ∈ t.out ∧
      t.pre.clients () = .running seed tr ∧ tr.requests.reqOf 0 = some (3 : UInt8) ∧
      j < 21 ∧ At h j u ∧ EndEffect.server (.handle n (3 : UInt8)) ∈ u.out := by
  obtain ⟨h, s, hr, -, hh, hrec, -, hanswers, hids⟩ := resentCall_run
  obtain ⟨t, ht, hat⟩ := at_map hanswers (j := 21) rfl
  have hmem : (0, 4) ∈ endAnswers t := by
    rw [hat]
    exact List.mem_singleton_self _
  obtain ⟨x, hx, he⟩ := List.mem_filterMap.mp hmem
  split at he
  · cases he
    have hu : ∀ seed tr, t.pre.clients () = .running seed tr →
        tr.requests.NeverReused (endCfg.transport ()) := by
      intro seed tr hc
      have hn := hids t ht.mem
      rw [callIds, hc] at hn
      exact hn
    obtain ⟨seed, tr, req, hc, hreq, hresp, j, u, n, _, _, _, _, hj, hju, hcall, -⟩ :=
      request_returns_own_answer noise sealing opening requestCodec hr hh hrec replyCodec
        endAnswer_id ht hx hu
    have h3 : req = (3 : UInt8) := by
      have h4 : (4 : UInt8) = req + 1 := hresp
      exact (UInt8.add_left_inj 1).mp h4.symm
    subst h3
    exact ⟨h, s, t, seed, tr, j, u, n, hr, ht, hx, hc, hreq, hj, hju, hcall⟩
  · cases he

theorem calls_within_retries_resent :
    ∃ h s x y, EndRun endStart h s ∧
      h.map endCalls = List.replicate 15 [] ++ [[(0, 3)], [], [(0, 3)], [], [], [], []] ∧
      x ≠ y ∧ ∀ a ∈ [(15, x), (17, y)], ∃ c k r seed tr, a.2 = some (c, k, r) ∧
        SentBy noise opening h a.1 0 (3 : UInt8) c k r ∧ r ≤ maxRequestRetries ∧
        s.clients c = .running seed tr ∧ tr.requests.reqOf k = some (3 : UInt8) := by
  obtain ⟨h, s, hr, -, hh, hrec, hcalls, -, -⟩ := resentCall_run
  obtain ⟨f, hf, hinj⟩ := calls_within_retries noise sealing opening requestCodec hr hh hrec
  have hcall {j : Nat} (hj : (List.replicate 15 [] ++
      ([[(0, 3)], [], [(0, 3)], [], [], [], []] : List (List (Nat × UInt8))))[j]? =
        some [(0, 3)]) : ∃ u, At h j u ∧ EndEffect.server (.handle 0 (3 : UInt8)) ∈ u.out := by
    obtain ⟨u, hu, hcu⟩ := at_map hcalls hj
    have hmem : (0, 3) ∈ endCalls u := by
      rw [hcu]
      exact List.mem_singleton_self _
    obtain ⟨x, hx, he⟩ := List.mem_filterMap.mp hmem
    split at he
    · cases he
      exact ⟨u, hu, hx⟩
    · cases he
  obtain ⟨u, hu, hx⟩ := hcall (j := 15) rfl
  obtain ⟨u', hu', hx'⟩ := hcall (j := 17) rfl
  refine ⟨h, s, f 15, f 17, hr, hcalls, ?_, ?_⟩
  · intro he
    have hne := hinj 15 17 u u' 0 0 3 3 hu hu' hx hx' he
    omega
  · intro a ha
    rcases List.mem_pair.mp ha with rfl | rfl
    · exact hf 15 u 0 3 hu hx
    · exact hf 17 u' 0 3 hu' hx'

end Obfs.Symbolic

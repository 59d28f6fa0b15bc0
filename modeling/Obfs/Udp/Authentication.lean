import Obfs.Udp.Sessions
import Obfs.Symbolic

/-! Authentication: every peer, every call of the service and every sealed
record goes back to a handshake from the same source that the gate accepted. -/
namespace Obfs.Udp
open Trace
variable {K : Crates} {cfg : ServerCfg K}
  {secret : K.CookieSecret} {sources : Nat → Broadcast.Channel (Event K.core)}
  {h : List (ServerStep K)} {s : ServerState K}

/-- Session n was opened with channel ch for src: an Hs1 from src created a
responder, and a later Hs3 from src was accepted by it and by the gate. -/
def Admitted (cfg : ServerCfg K) (h : List (ServerStep K)) (src : SocketAddr) (n : Nat)
    (ch : DataChannel K) : Prop :=
  ∃ i j t u r wire, i < j ∧ At h i t ∧ CreatesResponder cfg t src r wire ∧
    At h j u ∧ AdmitsSession cfg u src r n ch

theorem admitted_of_admits (hr : ServerRun cfg (.init secret sources) h s) {j : Nat}
    {u : ServerStep K} {src : SocketAddr} {ph : PendingHandshake K} {n : Nat} {ch : DataChannel K}
    (hu : At h j u) (hp : u.pre.pending.lookup src = some ph)
    (ha : AdmitsSession cfg u src ph.responder n ch) : Admitted cfg h src n ch := by
  obtain ⟨i, t, wire, ht, hm, -⟩ := pending_origin (hr.step hu).1 hp
  obtain ⟨hij, ht'⟩ := ht.of_take
  have hc := (pend_inv (hr.next_eq ht') hm).1
  exact ⟨i, j, t, u, ph.responder, wire, hij, ht', hc, hu, ha⟩

theorem session_admitted (hr : ServerRun cfg (.init secret sources) h s) {n : Nat}
    {ses : Session K} (hn : s.sessions[n]? = some ses) :
    ∃ ch, Admitted cfg h ses.src n ch ∧ ch.Evolves ses.channel := by
  obtain ⟨j, u, ph, ch, hu, hp, ha, hev⟩ := session_origin hr hn
  exact ⟨ch, admitted_of_admits hr hu hp ha, hev⟩

theorem Admitted.listed {allowed : List Key} (hgate : cfg.gate = keyAllowList allowed)
    {src : SocketAddr} {n : Nat} {ch : DataChannel K} (ha : Admitted cfg h src n ch) :
    ∃ r body payload r' key, K.readMessage r body = (.ok payload, r') ∧
      K.remoteStatic r' = some key ∧ key ∈ allowed := by
  obtain ⟨_, _, _, _, r, _, -, -, -, -, ha⟩ := ha
  obtain ⟨_, body, payload, r', key, -, -, -, hread, hkey, -, hok, -⟩ := ha
  rw [hgate] at hok
  exact ⟨r, body, payload, r', key, hread, hkey, keyAllowList_ok.mp hok⟩

/-- Step i opens a datagram with the channel of the current peer of its source,
whose session n was admitted before, and finds env in it. -/
def OpensAdmitted (cfg : ServerCfg K) (h : List (ServerStep K)) (i : Nat) (t : ServerStep K)
    (n : Nat) (env : Envelope K.core) : Prop :=
  ∃ inp p ses ch, t.event = .recv inp ∧ t.pre.peers.lookup inp.src = some p ∧ p.session = n ∧
    t.pre.sessions[n]? = some ses ∧
    (ses.channel.openDatagram inp.dgram).1 = .ok (some env) ∧
    Admitted cfg (h.take i) inp.src n ch ∧ ch.Evolves ses.channel

theorem received_admitted (hr : ServerRun cfg (.init secret sources) h s) {i : Nat}
    {t : ServerStep K} (ht : At h i t) {n : Nat} {env : Envelope K.core}
    (hm : Effect.received n env ∈ t.out) : OpensAdmitted cfg h i t n env := by
  obtain ⟨hpre, hstep⟩ := hr.step ht
  obtain ⟨inp, p, ses, he, hp, hps, hs, ho⟩ := received_inv hstep hm
  obtain ⟨ch, ha, hev⟩ := session_admitted hpre hs
  obtain ⟨ses', hs', hsrc⟩ := (wf_run hpre).peers inp.src p hp
  rw [hps, hs] at hs'
  cases hs'
  rw [hsrc] at ha
  exact ⟨inp, p, ses, ch, he, hp, hps, hs, ho, ha, hev⟩

theorem sealed_admitted (hr : ServerRun cfg (.init secret sources) h s) {i : Nat}
    {t : ServerStep K} (ht : At h i t) {n : Nat} {dst : SocketAddr} {σ : K.RecordSealer}
    {env : Envelope K.core} {wire : Bytes} (hm : Effect.sealed n dst σ env wire ∈ t.out) :
    ∃ ch c rng, Admitted cfg (h.take (i + 1)) dst n ch ∧ ch.Evolves c ∧ c.sealer = σ ∧
      (c.sealEnvelope env rng).1 = .ok wire := by
  obtain ⟨hpre, hstep⟩ := hr.step ht
  have hpost := hr.take_succ ht
  obtain ⟨c, rng, hσ, hwire, ⟨ses, hs, hsrc, hev⟩ | ⟨ph, hp, ha⟩⟩ :=
    sealed_inv (wf_run hpre) hstep hm
  · -- the session is older than the step
    obtain ⟨j, u, ph, ch, hu, hp, ha, hev'⟩ := session_origin hpre hs
    obtain ⟨hj, hu'⟩ := hu.of_take
    rw [hsrc] at hp ha
    exact ⟨ch, c, rng, admitted_of_admits hpost (hu'.take (by omega)) hp ha, hev'.trans hev, hσ,
      hwire⟩
  · exact ⟨c, c, rng, admitted_of_admits hpost (ht.take (by omega)) hp ha, .refl, hσ, hwire⟩

/-- Peers, calls of the service and sealed records of a run are all backed by
an admitted session of their source. -/
theorem udp_server_authenticated (hr : ServerRun cfg (.init secret sources) h s) :
    (∀ src p, s.peers.lookup src = some p →
      ∃ ses ch, s.sessions[p.session]? = some ses ∧ Admitted cfg h src p.session ch ∧
        ch.Evolves ses.channel) ∧
    (∀ i t n req, At h i t → Effect.handle n req ∈ t.out →
      OpensAdmitted cfg h i t n (.request req)) ∧
    (∀ i t n topic, At h i t → Effect.eventSource n topic ∈ t.out →
      ∃ filter capability, OpensAdmitted cfg h i t n (.subscribe topic filter capability)) ∧
    (∀ i t n dst σ env wire, At h i t → Effect.sealed n dst σ env wire ∈ t.out →
      ∃ ch c rng, Admitted cfg (h.take (i + 1)) dst n ch ∧ ch.Evolves c ∧ c.sealer = σ ∧
        (c.sealEnvelope env rng).1 = .ok wire) := by
  refine ⟨?_, ?_, ?_, ?_⟩
  · intro src p hp
    obtain ⟨ses, hs, rfl⟩ := (wf_run hr).peers src p hp
    obtain ⟨ch, ha, hev⟩ := session_admitted hr hs
    exact ⟨ses, ch, hs, ha, hev⟩
  · intro i t n req ht hm
    exact received_admitted hr ht (by rw [handle_inv (hr.next_eq ht) hm]; exact List.mem_cons_self)
  · intro i t n topic ht hm
    obtain ⟨filter, capability, _, hrecv, -⟩ := eventSource_inv (hr.next_eq ht) hm
    exact ⟨filter, capability, received_admitted hr ht hrecv⟩
  · intro i t n dst σ env wire ht hm
    exact sealed_admitted hr ht hm

def requestSession : List (ServerEvent Symbolic.crates) := [
  Symbolic.recv (Symbolic.hs1 5 none) (Symbolic.addr 1) 0 6,
  Symbolic.recv (Symbolic.hs3 5 6 (Symbolic.keyOf 0x22) (Symbolic.keyOf 1)) (Symbolic.addr 1) 1 0,
  Symbolic.recv (Symbolic.data (Symbolic.keyOf 1) 0 (.request 3)) (Symbolic.addr 1) 2 0]

def handledCalls (t : ServerStep Symbolic.crates) : List (Nat × UInt8) :=
  t.out.filterMap fun
    | .handle n req => some (n, req)
    | _ => none

theorem udp_server_authenticated_request :
    ∃ h s t, ServerRun Symbolic.cfg Symbolic.start h s ∧ At h 2 t ∧
      OpensAdmitted Symbolic.cfg h 2 t 0 (.request 3) := by
  have hx : ∃ h s, ServerRun Symbolic.cfg Symbolic.start h s ∧ h.map Step.event = requestSession ∧
      h.map handledCalls = [[], [], [(0, 3)]] :=
    Run.of_exec (fun h _ => h.map handledCalls = [[], [], [(0, 3)]]) (by decide +kernel)
  obtain ⟨h, s, hr, -, hh⟩ := hx
  obtain ⟨t, ht, hm⟩ := at_map hh (j := 2) rfl
  obtain ⟨x, hx, he⟩ := List.mem_filterMap.mp (hm ▸ List.mem_singleton_self (0, 3))
  split at he
  · cases he
    exact ⟨h, s, t, hr, ht, (udp_server_authenticated hr).2.1 2 t 0 3 ht hx⟩
  · cases he

end Obfs.Udp

import Obfs.Udp.System
import Obfs.Lib.Correspondence

/-! Runs of the server with honest clients: fresh draws, genuine messages and
records. In such a run every session of the server belongs to the one client
that wrote its Hs3, and to no other session. -/
namespace Obfs.Udp
open Trace
variable {K : Crates} {ι : Type}

def SystemEffect.draw? : SystemEffect K ι → Option Key
  | .client _ (.drew seed) => some seed
  | _ => none

def SystemEffect.responder? : SystemEffect K ι → Option K.Handshake
  | .server (.pend _ r _) => some r
  | _ => none

def SystemEffect.msg3? : SystemEffect K ι → Option (K.Handshake × Bytes)
  | .client _ (.wroteMsg3 hs msg3 _) => some (hs, msg3)
  | _ => none

def SystemEffect.seal? : SystemEffect K ι → Option (K.RecordSealer × Envelope K.core)
  | .server (.sealed _ _ σ env _) => some (σ, env)
  | .client _ (.sealed σ env _) => some (σ, env)
  | _ => none

def draws (t : SystemStep K ι) : List Key := t.out.filterMap SystemEffect.draw?

/- The responders that a step creates, and the entropy they use up. -/
def responders (t : SystemStep K ι) : List K.Handshake := t.out.filterMap SystemEffect.responder?

def ephemerals (t : SystemStep K ι) : List K.Entropy :=
  match t.event with
  | .server (.recv inp) => (responders t).map fun _ => inp.entropy
  | _ => []

def writtenMsg3 (t : SystemStep K ι) : List Bytes :=
  (t.out.filterMap SystemEffect.msg3?).map Prod.snd

/- The Hs3 bodies that a pending responder reads. -/
def acceptedMsg3 (t : SystemStep K ι) : List Bytes :=
  match t.event with
  | .server (.recv inp) =>
    match unshapeHs K inp.dgram, t.pre.server.pending.lookup inp.src with
    | some (.hs3, body), some ph =>
      match (K.readMessage ph.responder body).1 with
      | .ok _ => [body]
      | .error _ => []
    | _, _ => []
  | _ => []

/- The records that a step seals: key, record and plaintext. -/
def sealedRecords (S : K.Sealing) (t : SystemStep K ι) : List (Key × Bytes × Bytes) :=
  t.out.filterMap fun x => do
    let (σ, env) ← x.seal?
    let record ← recordOf σ env
    return (S.key σ, record)

/- The channel on which a party reads a datagram in this step. -/
def reader (t : SystemStep K ι) : Option (DataChannel K × Bytes) :=
  match t.event with
  | .server (.recv inp) => do
    let peer ← t.pre.server.peers.lookup inp.src
    let ses ← t.pre.server.sessions[peer.session]?
    return (ses.channel, inp.dgram)
  | .client c (.datagram data _ _) => (t.pre.clients c).keyed.map fun kc => (kc.2, data)
  | .client c (.openDatagram data) => (t.pre.clients c).keyed.map fun kc => (kc.2, data)
  | _ => none

/- The records that a step opens: key, record and plaintext. -/
def openedRecords (O : K.Opening) (t : SystemStep K ι) : List (Key × Bytes × Bytes) :=
  (do
    let (ch, datagram) ← reader t
    let record ← openedBy ch.opener datagram
    return (O.key ch.opener, record)).toList

def FreshEphemerals (h : List (SystemStep K ι)) : Prop := (gather ephemerals h).Nodup

def FreshSeeds (h : List (SystemStep K ι)) : Prop := (gather draws h).Nodup

/-- The record keys of the seeds of a run, for both directions, all differ. -/
def SeparateKeys (h : List (SystemStep K ι)) : Prop :=
  ∀ seed ∈ gather draws h, ∀ seed' ∈ gather draws h, ∀ label ∈ [c2sLabel, s2cLabel],
    ∀ label' ∈ [c2sLabel, s2cLabel],
      K.blake2sMac seed label = K.blake2sMac seed' label' → seed = seed' ∧ label = label'

/-- A responder reads only an Hs3 that a client has written. -/
def GenuineMsg3 (h : List (SystemStep K ι)) : Prop := Precedes writtenMsg3 acceptedMsg3 h

/-- A client answers only the msg2 of a responder that the server has created:
the transcripts agree. -/
def GenuineMsg2 (N : K.Noise) (h : List (SystemStep K ι)) : Prop :=
  Precedes (fun t => (responders t).map N.transcript)
    (fun t => (t.out.filterMap SystemEffect.msg3?).map fun m => N.transcript m.1) h

/-- An opener opens only what was sealed under its key. -/
def GenuineRecords (S : K.Sealing) (O : K.Opening) (h : List (SystemStep K ι)) : Prop :=
  Precedes (sealedRecords S) (openedRecords O) h

structure Honest (h : List (SystemStep K ι)) : Prop where
  ephemerals : FreshEphemerals h
  seeds : FreshSeeds h
  keys : SeparateKeys h
  msg3 : GenuineMsg3 h

section Decide
variable (h : List (SystemStep K ι))

instance [DecidableEq K.Entropy] : Decidable (FreshEphemerals h) :=
  inferInstanceAs (Decidable (gather ephemerals h).Nodup)

instance : Decidable (FreshSeeds h) := inferInstanceAs (Decidable (gather draws h).Nodup)

instance : Decidable (SeparateKeys h) :=
  inferInstanceAs (Decidable (∀ seed ∈ gather draws h, ∀ seed' ∈ gather draws h,
    ∀ label ∈ [c2sLabel, s2cLabel], ∀ label' ∈ [c2sLabel, s2cLabel],
      K.blake2sMac seed label = K.blake2sMac seed' label' → seed = seed' ∧ label = label'))

instance : Decidable (GenuineMsg3 h) :=
  inferInstanceAs (Decidable (Precedes writtenMsg3 acceptedMsg3 h))

instance (N : K.Noise) : Decidable (GenuineMsg2 N h) :=
  inferInstanceAs (Decidable (Precedes _ _ h))

instance (S : K.Sealing) (O : K.Opening) : Decidable (GenuineRecords S O h) :=
  inferInstanceAs (Decidable (Precedes (sealedRecords S) (openedRecords O) h))

instance [DecidableEq K.Entropy] : Decidable (Honest h) :=
  decidable_of_iff (FreshEphemerals h ∧ FreshSeeds h ∧ SeparateKeys h ∧ GenuineMsg3 h)
    ⟨fun ⟨h1, h2, h3, h4⟩ => ⟨h1, h2, h3, h4⟩, fun hh => ⟨hh.1, hh.2, hh.3, hh.4⟩⟩

end Decide

theorem Honest.of_append {h g : List (SystemStep K ι)} (hh : Honest (h ++ g)) : Honest h where
  ephemerals := by
    have := hh.ephemerals
    rw [FreshEphemerals, gather_append] at this
    exact (List.nodup_append.mp this).1
  seeds := by
    have := hh.seeds
    rw [FreshSeeds, gather_append] at this
    exact (List.nodup_append.mp this).1
  keys := by
    intro seed hs seed' hs'
    have := hh.keys seed (by rw [gather_append]; exact List.mem_append_left _ hs) seed'
      (by rw [gather_append]; exact List.mem_append_left _ hs')
    exact this
  msg3 := hh.msg3.of_append

theorem Honest.take {h : List (SystemStep K ι)} (hh : Honest h) (i : Nat) : Honest (h.take i) := by
  rw [← List.take_append_drop i h] at hh
  exact hh.of_append

theorem mem_draws {t : SystemStep K ι} {seed : Key} :
    seed ∈ draws t ↔ ∃ c, SystemEffect.client c (.drew seed) ∈ t.out := by
  rw [draws, List.mem_filterMap]
  constructor
  · rintro ⟨x, hx, he⟩
    unfold SystemEffect.draw? at he
    split at he
    · cases he
      exact ⟨_, hx⟩
    · cases he
  · rintro ⟨c, hx⟩
    exact ⟨_, hx, rfl⟩

theorem mem_responders {t : SystemStep K ι} {r : K.Handshake} :
    r ∈ responders t ↔ ∃ src wire, SystemEffect.server (.pend src r wire) ∈ t.out := by
  rw [responders, List.mem_filterMap]
  constructor
  · rintro ⟨x, hx, he⟩
    unfold SystemEffect.responder? at he
    split at he
    · cases he
      exact ⟨_, _, hx⟩
    · cases he
  · rintro ⟨src, wire, hx⟩
    exact ⟨_, hx, rfl⟩

theorem mem_msg3 {t : SystemStep K ι} {hs : K.Handshake} {msg3 : Bytes} :
    (hs, msg3) ∈ t.out.filterMap SystemEffect.msg3? ↔
      ∃ c seed, SystemEffect.client c (.wroteMsg3 hs msg3 seed) ∈ t.out := by
  rw [List.mem_filterMap]
  constructor
  · rintro ⟨x, hx, he⟩
    unfold SystemEffect.msg3? at he
    split at he
    · cases he
      exact ⟨_, _, hx⟩
    · cases he
  · rintro ⟨c, seed, hx⟩
    exact ⟨_, hx, rfl⟩

theorem mem_writtenMsg3 {t : SystemStep K ι} {msg3 : Bytes} :
    msg3 ∈ writtenMsg3 t ↔
      ∃ c hs seed, SystemEffect.client c (.wroteMsg3 hs msg3 seed) ∈ t.out := by
  rw [writtenMsg3, List.mem_map]
  constructor
  · rintro ⟨⟨hs, m⟩, hm, rfl⟩
    obtain ⟨c, seed, hx⟩ := mem_msg3.mp hm
    exact ⟨c, hs, seed, hx⟩
  · rintro ⟨c, hs, seed, hx⟩
    exact ⟨(hs, msg3), mem_msg3.mpr ⟨c, seed, hx⟩, rfl⟩

theorem mem_sealedRecords {S : K.Sealing} {t : SystemStep K ι} {k : Key} {record json : Bytes} :
    (k, record, json) ∈ sealedRecords S t ↔ ∃ x ∈ t.out, ∃ σ env, x.seal? = some (σ, env) ∧
      k = S.key σ ∧ recordOf σ env = some (record, json) := by
  simp only [sealedRecords, List.mem_filterMap, Option.bind_eq_bind, Option.bind_eq_some_iff,
    Prod.exists, Option.pure_def, Option.some.injEq, Prod.mk.injEq]
  constructor
  · rintro ⟨x, hx, σ, env, hs, r, j, hr, rfl, rfl, rfl⟩
    exact ⟨x, hx, σ, env, hs, rfl, hr⟩
  · rintro ⟨x, hx, σ, env, hs, rfl, hr⟩
    exact ⟨x, hx, σ, env, hs, record, json, hr, rfl, rfl, rfl⟩

variable [DecidableEq ι] {cfg : SystemCfg K ι} {secret : K.CookieSecret}
  {sources : Nat → Broadcast.Channel (Event K.core)} {s₀ : SystemState K ι}
  {h : List (SystemStep K ι)} {s : SystemState K ι}

theorem same_client (hr : SystemRun cfg s₀ h s) {i : Nat} {t : SystemStep K ι} (ht : At h i t)
    {c c' : ι} {x x' : ClientEffect K} (hx : SystemEffect.client c x ∈ t.out)
    (hx' : SystemEffect.client c' x' ∈ t.out) : c = c' := by
  rcases systemNext_case (hr.next_eq ht) with ⟨_, o', -, ho, -⟩ | ⟨c'', _, o', -, ho, -⟩
  · rw [ho] at hx
    simp at hx
  · rw [ho] at hx hx'
    simp only [List.mem_map, SystemEffect.client.injEq] at hx hx'
    obtain ⟨_, -, hc, -⟩ := hx
    obtain ⟨_, -, hc', -⟩ := hx'
    exact hc.symm.trans hc'

theorem written_drawn (hr : SystemRun cfg (.init secret sources) h s) {i : Nat}
    {t : SystemStep K ι} (ht : At h i t) {c : ι} {hs : K.Handshake} {msg3 : Bytes} {seed : Key}
    (hm : SystemEffect.client c (.wroteMsg3 hs msg3 seed) ∈ t.out) :
    (t.post.clients c).hs2Seed = none ∧
      ∃ d t', d < i ∧ At h d t' ∧ SystemEffect.client c (.drew seed) ∈ t'.out ∧
        ∀ j u, d < j → j < i → At h j u → (u.post.clients c).hs2Seed = some seed := by
  obtain ⟨u, hu, hx, hpre, hpost, hn⟩ := clientPart_of_mem hr ht hm
  obtain ⟨⟨_, _, _, _, _, _, _, _, hst, -⟩, -, hnone, -⟩ := wroteMsg3_inv hn hx
  have hseed : (t.pre.clients c).hs2Seed = some seed := by
    rw [← hpre, hst]
    rfl
  obtain ⟨d, t', ht', hd, hafter⟩ := hs2_drawn (hr.step ht).1 hseed
  refine ⟨hpost ▸ hnone, d, t', ht'.of_take.1, ht'.of_take.2, hd, ?_⟩
  intro j u' hdj hji hu'
  exact hafter j u' hdj (hu'.take hji)

theorem written_unique (hr : SystemRun cfg (.init secret sources) h s) (hf : FreshSeeds h)
    {i j : Nat} {t u : SystemStep K ι} (ht : At h i t) (hu : At h j u) {c c' : ι}
    {hs hs' : K.Handshake} {msg3 msg3' : Bytes} {seed : Key}
    (hm : SystemEffect.client c (.wroteMsg3 hs msg3 seed) ∈ t.out)
    (hm' : SystemEffect.client c' (.wroteMsg3 hs' msg3' seed) ∈ u.out) :
    i = j ∧ c = c' ∧ hs = hs' ∧ msg3 = msg3' := by
  obtain ⟨hpost, d, td, hdi, htd, hd, hafter⟩ := written_drawn hr ht hm
  obtain ⟨hpost', d', td', hdj, htd', hd', hafter'⟩ := written_drawn hr hu hm'
  have hdd : d = d' :=
    gather_unique hf htd htd' (mem_draws.mpr ⟨c, hd⟩) (mem_draws.mpr ⟨c', hd'⟩)
  subst hdd
  cases htd.unique htd'
  cases same_client hr htd hd hd'
  -- the attempt waits for msg2 from its draw until it writes msg3, not longer
  have hij : i = j := by
    rcases Nat.lt_trichotomy i j with hlt | he | hlt
    · rw [hafter' i t hdi hlt ht] at hpost
      cases hpost
    · exact he
    · rw [hafter j u hdj hlt hu] at hpost'
      cases hpost'
  subst hij
  cases ht.unique hu
  obtain ⟨v, hx, hx', hn⟩ := client_effects hr ht hm hm'
  obtain ⟨-, -, -, -, hone⟩ := wroteMsg3_inv hn hx
  obtain ⟨h1, h2, -⟩ := hone _ _ _ hx'
  exact ⟨rfl, rfl, h1.symm, h2.symm⟩

theorem pend_responded (hr : SystemRun cfg s₀ h s) {q : Nat} {t : SystemStep K ι} (ht : At h q t)
    {src : SocketAddr} {r : K.Handshake} {wire : Bytes}
    (hm : SystemEffect.server (.pend src r wire) ∈ t.out) :
    ∃ inp, t.event = .server (.recv inp) ∧ inp.src = src ∧ inp.entropy ∈ ephemerals t ∧
      K.Responded cfg.server.serverPriv inp.entropy r := by
  obtain ⟨u, hu, hx, -, -, hn⟩ := serverPart_of_mem hr ht hm
  obtain ⟨⟨inp, body, addr, he, rfl, -, hproc⟩, -⟩ := pend_inv hn hx
  have hev : t.event = .server (.recv inp) := by rw [serverPart_event hu, ← he]
  obtain ⟨-, _, _, _, hs0, hs1, p, -, -, h0, h1, h2, -⟩ := processHs1_partial hproc
  refine ⟨inp, hev, rfl, ?_, hs0, hs1, _, _, p, h0, h1, h2⟩
  simp only [ephemerals, hev]
  exact List.mem_map.mpr ⟨r, mem_responders.mpr ⟨_, _, hm⟩, rfl⟩

theorem pend_unique (N : K.Noise) (hr : SystemRun cfg s₀ h s) (hf : FreshEphemerals h)
    {q q' : Nat} {t t' : SystemStep K ι} (ht : At h q t) (ht' : At h q' t')
    {src src' : SocketAddr} {r r' : K.Handshake} {wire wire' : Bytes}
    (hm : SystemEffect.server (.pend src r wire) ∈ t.out)
    (hm' : SystemEffect.server (.pend src' r' wire') ∈ t'.out)
    (hN : N.transcript r = N.transcript r') : q = q' ∧ src = src' := by
  obtain ⟨inp, he, hsrc, hin, hresp⟩ := pend_responded hr ht hm
  obtain ⟨inp', he', hsrc', hin', hresp'⟩ := pend_responded hr ht' hm'
  rw [← N.fresh hresp hresp' hN] at hin'
  have hq := gather_unique hf ht ht' hin hin'
  subst hq
  cases ht.unique ht'
  rw [he] at he'
  cases he'
  exact ⟨rfl, hsrc.symm.trans hsrc'⟩

theorem pending_since (N : K.Noise) (hr : SystemRun cfg (.init secret sources) h s)
    (hf : FreshEphemerals h) {q j : Nat} {tq u : SystemStep K ι} {src src' : SocketAddr}
    {r : K.Handshake} {wire : Bytes} {ph : PendingHandshake K} (hq : At h q tq)
    (hm : SystemEffect.server (.pend src r wire) ∈ tq.out) (hu : At h j u)
    (hp : u.pre.server.pending.lookup src' = some ph)
    (hN : N.transcript r = N.transcript ph.responder) :
    src = src' ∧ ∀ m v, q < m → m < j → At h m v →
      v.post.server.pending.lookup src' = some ph ∧
        ∀ r' w, SystemEffect.server (.pend src' r' w) ∉ v.out := by
  obtain ⟨q', tq', wire', hq', hm', hafter⟩ := pending_written (hr.step hu).1 hp
  obtain ⟨rfl, hsrc⟩ := pend_unique N hr hf hq hq'.of_take.2 hm hm' hN
  refine ⟨hsrc, ?_⟩
  intro m v hqm hmj hv
  exact (hafter m v hqm (hv.take hmj)).2

theorem responder_used_once (N : K.Noise) (hr : SystemRun cfg (.init secret sources) h s)
    (hf : FreshEphemerals h) {j j' : Nat} {u u' : SystemStep K ι} {inp inp' : Inbound K}
    {body body' : Bytes} {ph ph' : PendingHandshake K} (hu : At h j u) (hu' : At h j' u')
    (he : u.event = .server (.recv inp)) (he' : u'.event = .server (.recv inp'))
    (hhs3 : unshapeHs K inp.dgram = some (.hs3, body))
    (hhs3' : unshapeHs K inp'.dgram = some (.hs3, body'))
    (hp : u.pre.server.pending.lookup inp.src = some ph)
    (hp' : u'.pre.server.pending.lookup inp'.src = some ph')
    (hN : N.transcript ph.responder = N.transcript ph'.responder) : j = j' := by
  wlog hlt : j < j' generalizing j j' u u' inp inp' body body' ph ph'
  · rcases Nat.lt_or_eq_of_le (Nat.not_lt.mp hlt) with hlt | hlt
    · exact (this hu' hu he' he hhs3' hhs3 hp' hp hN.symm hlt).symm
    · exact hlt.symm
  obtain ⟨q, tq, wire, htq, hm, -⟩ := pending_written (hr.step hu).1 hp
  obtain ⟨hqj, htq⟩ := htq.of_take
  obtain ⟨hsrc, hafter⟩ := pending_since N hr hf htq hm hu' hp' hN
  -- the entry is there from its creation to the later Hs3, but the earlier one takes it
  have hstay := (hafter j u hqj hlt hu).1
  rcases systemNext_case (hr.next_eq hu) with ⟨e', _, hev, -, -, hn⟩ | ⟨_, _, _, hev, -⟩
  · cases he.symm.trans hev
    rw [← hsrc, hs3_takes hn hhs3] at hstay
    cases hstay
  · cases he.symm.trans hev

theorem pending_responded (hr : SystemRun cfg (.init secret sources) h s) {src : SocketAddr}
    {ph : PendingHandshake K} (hp : s.server.pending.lookup src = some ph) :
    ∃ e, K.Responded cfg.server.serverPriv e ph.responder := by
  obtain ⟨q, tq, wire, htq, hpend, -⟩ := pending_written hr hp
  obtain ⟨inp, -, -, -, hresp⟩ := pend_responded hr htq hpend
  exact ⟨inp.entropy, hresp⟩

theorem read_answers (N : K.Noise) (hr : SystemRun cfg (.init secret sources) h s) {i : Nat}
    {t : SystemStep K ι} (ht : At h i t) {c : ι} {hs r r' : K.Handshake} {msg3 payload : Bytes}
    {seed : Key} {e : K.Entropy} (hm : SystemEffect.client c (.wroteMsg3 hs msg3 seed) ∈ t.out)
    (hresp : K.Responded cfg.server.serverPriv e r)
    (hread : K.readMessage r msg3 = (.ok payload, r')) :
    N.transcript hs = N.transcript r ∧ payload = seed.val ∧
      K.remoteStatic r' = some (N.pubKey (cfg.client c).keypair.priv) := by
  obtain ⟨hinit, hs', hwrite⟩ := written_initiated hr ht hm
  have hN : N.transcript hs = N.transcript r := by
    by_contra hne
    exact N.reject hinit hresp hwrite hne payload r' hread
  obtain ⟨r'', hread', hkey⟩ := N.accept hinit hresp hwrite hN
  cases hread.symm.trans hread'
  exact ⟨hN, rfl, hkey⟩

def serverChannel (K : Crates) (seed : Key) : DataChannel K :=
  .new (K.newSealer (deriveRecordKeys K seed).2) (K.newOpener (deriveRecordKeys K seed).1)

/-- Step t completes the handshake of responder r: it reads the seed from an
Hs3 from src, reports a key that the gate accepts, and session n starts on
the channel of the seed. -/
def Establishes (cfg : ServerCfg K) (t : ServerStep K) (src : SocketAddr) (r : K.Handshake)
    (msg3 : Bytes) (n : Nat) (seed key : Key) : Prop :=
  ∃ inp r', t.event = .recv inp ∧ inp.src = src ∧ unshapeHs K inp.dgram = some (.hs3, msg3) ∧
    K.readMessage r msg3 = (.ok seed.val, r') ∧ K.remoteStatic r' = some key ∧
    cfg.gate key = .ok () ∧ n = t.pre.sessions.length ∧
    t.post.sessions[n]? =
      some ⟨src, ((serverChannel K seed).sealEnvelope .pong inp.rng).2, [], false⟩

/-- Step j of the run opened session n of the server for the Hs3 that client c
wrote with its seed in step i. -/
def Opened (N : K.Noise) (cfg : SystemCfg K ι) (h : List (SystemStep K ι)) (n j i : Nat) (c : ι)
    (src : SocketAddr) (seed : Key) : Prop :=
  i < j ∧ ∃ t hs msg3 u v ph, At h i t ∧ SystemEffect.client c (.wroteMsg3 hs msg3 seed) ∈ t.out ∧
    At h j u ∧ serverPart u = some v ∧ v.pre.pending.lookup src = some ph ∧
    N.transcript hs = N.transcript ph.responder ∧
    Establishes cfg.server v src ph.responder msg3 n seed (N.pubKey (cfg.client c).keypair.priv)

theorem admits_opened (N : K.Noise) (hr : SystemRun cfg (.init secret sources) h s)
    (hg : GenuineMsg3 h) {j n : Nat} {u : SystemStep K ι} {v : ServerStep K} {src : SocketAddr}
    {ph : PendingHandshake K} {ch : DataChannel K} (hu : At h j u) (hv : serverPart u = some v)
    (hp : v.pre.pending.lookup src = some ph)
    (ha : AdmitsSession cfg.server v src ph.responder n ch) :
    ∃ i c seed, Opened N cfg h n j i c src seed ∧ ch = serverChannel K seed := by
  obtain ⟨inp, msg3, payload, r', key, he, rfl, hhs3, hread, hk, hcomp, hgate, hn, hpost⟩ := ha
  have hpre := (hr.component server_projects hu hv).1
  -- the body was written by a client
  have hacc : msg3 ∈ acceptedMsg3 u := by
    simp [acceptedMsg3, serverPart_event hv, he, hhs3, ← hpre, hp, hread]
  obtain ⟨i, t, hij, ht, hw⟩ := hg j u hu msg3 hacc
  obtain ⟨c, hs, seed, hm⟩ := mem_writtenMsg3.mp hw
  rw [hpre] at hp
  obtain ⟨e, hresp⟩ := pending_responded (hr.step hu).1 hp
  obtain ⟨hN, rfl, hk'⟩ := read_answers N hr ht hm hresp hread
  cases hk.symm.trans hk'
  obtain ⟨_, _, seed', hread', htake, -, hch⟩ := completeHandshakeMsg3_ok hcomp
  cases hread.symm.trans hread'
  have hseed : seed = seed' := by
    apply Subtype.ext
    rw [← htake, List.take_of_length_le (Nat.le_of_eq seed.property)]
  subst hseed
  subst hch
  refine ⟨i, c, seed, ⟨hij, t, hs, msg3, u, v, ph, ht, hm, hu, hv, hpre ▸ hp, hN, ?_⟩, rfl⟩
  exact ⟨inp, r', he, rfl, hhs3, hread, hk, hgate, hn, hpost⟩

theorem Opened.drawn {N : K.Noise} (hr : SystemRun cfg (.init secret sources) h s)
    {n j i : Nat} {c : ι} {src : SocketAddr} {seed : Key} (ho : Opened N cfg h n j i c src seed) :
    seed ∈ gather draws h := by
  obtain ⟨-, t, hs, msg3, _, _, _, ht, hm, -⟩ := ho
  obtain ⟨-, d, td, -, htd, hd, -⟩ := written_drawn hr ht hm
  exact mem_gather.mpr ⟨d, td, htd, mem_draws.mpr ⟨c, hd⟩⟩

theorem Opened.unique {N : K.Noise} (hr : SystemRun cfg (.init secret sources) h s)
    (hh : Honest h) {n n' j j' i i' : Nat} {c c' : ι} {src src' : SocketAddr} {seed : Key}
    (ho : Opened N cfg h n j i c src seed) (ho' : Opened N cfg h n' j' i' c' src' seed) :
    n = n' ∧ j = j' ∧ i = i' ∧ c = c' ∧ src = src' := by
  obtain ⟨-, t, hs, msg3, u, v, ph, ht, hm, hu, hv, hp, hN, he⟩ := ho
  obtain ⟨inp, _, he, rfl, hhs3, -, -, -, hn, -⟩ := he
  obtain ⟨-, t', hs', msg3', u', v', ph', ht', hm', hu', hv', hp', hN', inp', _, he', rfl, hhs3',
    -, -, -, hn', -⟩ := ho'
  obtain ⟨rfl, rfl, rfl, rfl⟩ := written_unique hr hh.seeds ht ht' hm hm'
  have hev : u.event = .server (.recv inp) := by rw [serverPart_event hv, he]
  have hev' : u'.event = .server (.recv inp') := by rw [serverPart_event hv', he']
  rw [(hr.component server_projects hu hv).1] at hp
  rw [(hr.component server_projects hu' hv').1] at hp'
  have hj : j = j' := responder_used_once N hr hh.ephemerals hu hu' hev hev' hhs3 hhs3' hp hp'
    (hN.symm.trans hN')
  subst hj
  cases hu.unique hu'
  cases Option.some.inj (hv.symm.trans hv')
  cases he.symm.trans he'
  exact ⟨hn.trans hn'.symm, rfl, rfl, rfl, rfl⟩

theorem session_seed (N : K.Noise) (hr : SystemRun cfg (.init secret sources) h s)
    (hg : GenuineMsg3 h) {n : Nat} {ses : Session K} (hn : s.server.sessions[n]? = some ses) :
    ∃ j i c seed, Opened N cfg h n j i c ses.src seed ∧
      (serverChannel K seed).Evolves ses.channel := by
  obtain ⟨j, t, u, ph, ch, ht, hu, hp, ha, hev⟩ := session_opened hr hn
  obtain ⟨i, c, seed, ho, rfl⟩ := admits_opened N hr hg ht hu hp ha
  exact ⟨j, i, c, seed, ho, hev⟩

omit [DecidableEq ι] in
theorem Opened.of_take {N : K.Noise} {n j i k : Nat} {c : ι} {src : SocketAddr} {seed : Key}
    (ho : Opened N cfg (h.take k) n j i c src seed) : j < k ∧ Opened N cfg h n j i c src seed := by
  obtain ⟨hij, t, hs, msg3, u, v, ph, ht, hm, hu, rest⟩ := ho
  exact ⟨hu.of_take.1, hij, t, hs, msg3, u, v, ph, ht.of_take.2, hm, hu.of_take.2, rest⟩

section Keys
variable {seed seed' : Key}

omit [DecidableEq ι] in
theorem SeparateKeys.c2s (hk : SeparateKeys h) (hs : seed ∈ gather draws h)
    (hs' : seed' ∈ gather draws h)
    (he : (deriveRecordKeys K seed).1 = (deriveRecordKeys K seed').1) : seed = seed' :=
  (hk seed hs seed' hs' c2sLabel (by simp) c2sLabel (by simp) he).1

omit [DecidableEq ι] in
theorem SeparateKeys.s2c (hk : SeparateKeys h) (hs : seed ∈ gather draws h)
    (hs' : seed' ∈ gather draws h)
    (he : (deriveRecordKeys K seed).2 = (deriveRecordKeys K seed').2) : seed = seed' :=
  (hk seed hs seed' hs' s2cLabel (by simp) s2cLabel (by simp) he).1

omit [DecidableEq ι] in
theorem SeparateKeys.directions (hk : SeparateKeys h) (hs : seed ∈ gather draws h)
    (hs' : seed' ∈ gather draws h) :
    (deriveRecordKeys K seed).1 ≠ (deriveRecordKeys K seed').2 := by
  intro he
  have hl := (hk seed hs seed' hs' c2sLabel (by simp) s2cLabel (by simp) he).2
  exact absurd hl (by decide)

end Keys

section Keyed
variable {c : ι} {seed : Key} {ch : DataChannel K}

theorem keyed_drawn (hr : SystemRun cfg (.init secret sources) h s)
    (hk : (s.clients c).keyed = some (seed, ch)) : seed ∈ gather draws h := by
  obtain ⟨-, i, t, hs, msg3, ht, hm⟩ := keyed_written hr hk
  obtain ⟨-, d, td, -, htd, hd, -⟩ := written_drawn hr ht hm
  exact mem_gather.mpr ⟨d, td, htd, mem_draws.mpr ⟨c, hd⟩⟩

theorem keyed_sealer (S : K.Sealing) (hr : SystemRun cfg (.init secret sources) h s)
    (hk : (s.clients c).keyed = some (seed, ch)) :
    S.key ch.sealer = (deriveRecordKeys K seed).1 := by
  rw [(keyed_written hr hk).1.sealer_key S]
  exact S.key_new _

theorem keyed_opener (O : K.Opening) (hr : SystemRun cfg (.init secret sources) h s)
    (hk : (s.clients c).keyed = some (seed, ch)) :
    O.key ch.opener = (deriveRecordKeys K seed).2 := by
  rw [(keyed_written hr hk).1.opener_key O]
  exact O.key_new _

theorem Opened.client_eq {N : K.Noise} (hr : SystemRun cfg (.init secret sources) h s)
    (hf : FreshSeeds h) {n j i k : Nat} {c' : ι} {src : SocketAddr} {t : SystemStep K ι}
    (ho : Opened N cfg h n j i c' src seed) (ht : At h k t)
    (hk : (t.pre.clients c).keyed = some (seed, ch)) : c' = c := by
  obtain ⟨-, t₀, hs₀, msg3₀, _, _, _, ht₀, hm₀, -⟩ := ho
  obtain ⟨-, i', ti, hs, msg3, hti, hw⟩ := keyed_written (hr.step ht).1 hk
  exact (written_unique hr hf ht₀ hti.of_take.2 hm₀ hw).2.1

end Keyed

section Seals
variable {i : Nat} {t : SystemStep K ι} {σ : K.RecordSealer} {env : Envelope K.core}

theorem sealed_opened (N : K.Noise) (S : K.Sealing) (hr : SystemRun cfg (.init secret sources) h s)
    (hg : GenuineMsg3 h) (ht : At h i t) {n : Nat} {dst : SocketAddr} {wire : Bytes}
    (hm : SystemEffect.server (.sealed n dst σ env wire) ∈ t.out) :
    ∃ j i' c seed, j ≤ i ∧ Opened N cfg h n j i' c dst seed ∧
      S.key σ = (deriveRecordKeys K seed).2 := by
  obtain ⟨u, hu, hx, hpre, -, hn⟩ := serverPart_of_mem hr ht hm
  have hsr := server_run (hr.step ht).1
  obtain ⟨ch, rng, rfl, -, hch⟩ := sealed_inv (hpre ▸ wf_run hsr) hn hx
  rcases hch with ⟨ses, hses, rfl, hev⟩ | ⟨ph, hp, ha⟩
  · rw [hpre] at hses
    have hg' : GenuineMsg3 (h.take i) := by
      rw [← List.take_append_drop i h] at hg
      exact hg.of_append
    obtain ⟨j, i', c, seed, ho, hev'⟩ := session_seed N (hr.step ht).1 hg' hses
    refine ⟨j, i', c, seed, ho.of_take.1.le, ho.of_take.2, ?_⟩
    rw [(hev'.trans hev).sealer_key S]
    exact S.key_new _
  · obtain ⟨i', c, seed, ho, rfl⟩ := admits_opened N hr hg ht hu hp ha
    exact ⟨i, i', c, seed, Nat.le_refl _, ho, S.key_new _⟩

theorem clientSealed_seed (S : K.Sealing) (hr : SystemRun cfg (.init secret sources) h s)
    (ht : At h i t) {c : ι} {wire : Bytes}
    (hm : SystemEffect.client c (.sealed σ env wire) ∈ t.out) :
    ∃ seed ch, t.pre.clients c = .connected seed ch ∧ σ = ch.sealer ∧ seed ∈ gather draws h ∧
      S.key σ = (deriveRecordKeys K seed).1 := by
  obtain ⟨u, hu, hx, hpre, -, hn⟩ := clientPart_of_mem hr ht hm
  obtain ⟨seed, ch, rng, hst, rfl, -⟩ := clientSealed_inv hn hx
  rw [hpre] at hst
  have hk : (t.pre.clients c).keyed = some (seed, ch) := by rw [hst]; rfl
  exact ⟨seed, ch, hst, rfl, mem_gather_of_take (keyed_drawn (hr.step ht).1 hk),
    keyed_sealer S (hr.step ht).1 hk⟩

/-- Who seals: a session of the server under the s2c key of its seed, or a
connected client under the c2s key of its seed. -/
theorem seal_case (N : K.Noise) (S : K.Sealing) (hr : SystemRun cfg (.init secret sources) h s)
    (hg : GenuineMsg3 h) (ht : At h i t) {x : SystemEffect K ι} (hx : x ∈ t.out)
    (hs : x.seal? = some (σ, env)) :
    (∃ n dst wire j i' c seed, x = .server (.sealed n dst σ env wire) ∧ j ≤ i ∧
      Opened N cfg h n j i' c dst seed ∧ S.key σ = (deriveRecordKeys K seed).2) ∨
    ∃ c seed ch wire, x = .client c (.sealed σ env wire) ∧ t.pre.clients c = .connected seed ch ∧
      σ = ch.sealer ∧ seed ∈ gather draws h ∧ S.key σ = (deriveRecordKeys K seed).1 := by
  unfold SystemEffect.seal? at hs
  split at hs
  · rename_i n dst σ' env' wire
    cases hs
    obtain ⟨j, i', c, seed, hji, ho, hkey⟩ := sealed_opened N S hr hg ht hx
    exact Or.inl ⟨n, dst, wire, j, i', c, seed, rfl, hji, ho, hkey⟩
  · rename_i c σ' env' wire
    cases hs
    obtain ⟨seed, ch, hst, rfl, hd, hkey⟩ := clientSealed_seed S hr ht hx
    exact Or.inr ⟨c, seed, ch, wire, rfl, hst, rfl, hd, hkey⟩
  · cases hs

end Seals

/- What is opened under a key of a seed was sealed before by the other side: the
   keys of a run tell the seeds and the directions apart. -/
section Records
variable (N : K.Noise) (S : K.Sealing) (O : K.Opening)
  (hr : SystemRun cfg (.init secret sources) h s) (hh : Honest h) (hrec : GenuineRecords S O h)
  {j : Nat} {u : SystemStep K ι} (hu : At h j u) {seed : Key} (hd : seed ∈ gather draws h)
  {record pt : Bytes}
include hr hh hrec hu hd

theorem s2c_sealed (hopened : ((deriveRecordKeys K seed).2, record, pt) ∈ openedRecords O u) :
    ∃ i t n dst σ env wire j₀ i₀ c, i < j ∧ At h i t ∧
      SystemEffect.server (.sealed n dst σ env wire) ∈ t.out ∧
      recordOf σ env = some (record, pt) ∧ j₀ ≤ i ∧ Opened N cfg h n j₀ i₀ c dst seed := by
  obtain ⟨i, t, hij, ht, hsealed⟩ := hrec j u hu _ hopened
  obtain ⟨x, hx, σ, env, hseal, hkey, hrecord⟩ := mem_sealedRecords.mp hsealed
  rcases seal_case N S hr hh.msg3 ht hx hseal with
    ⟨n, dst, wire, j₀, i₀, c, seed', rfl, hji, ho, hσ⟩ | ⟨_, seed', _, _, -, -, -, hd', hσ⟩
  · cases hh.keys.s2c (ho.drawn hr) hd (hσ.symm.trans hkey.symm)
    exact ⟨i, t, n, dst, σ, env, wire, j₀, i₀, c, hij, ht, hx, hrecord, hji, ho⟩
  · exact absurd (hσ.symm.trans hkey.symm) (hh.keys.directions hd' hd)

include N in
theorem c2s_sealed (hopened : ((deriveRecordKeys K seed).1, record, pt) ∈ openedRecords O u) :
    ∃ i t c ch env wire, i < j ∧ At h i t ∧
      SystemEffect.client c (.sealed ch.sealer env wire) ∈ t.out ∧
      t.pre.clients c = .connected seed ch ∧ recordOf ch.sealer env = some (record, pt) := by
  obtain ⟨i, t, hij, ht, hsealed⟩ := hrec j u hu _ hopened
  obtain ⟨x, hx, σ, env, hseal, hkey, hrecord⟩ := mem_sealedRecords.mp hsealed
  rcases seal_case N S hr hh.msg3 ht hx hseal with
    ⟨_, _, _, _, _, _, seed', -, -, ho, hσ⟩ | ⟨c, seed', ch, wire, rfl, hst, rfl, hd', hσ⟩
  · exact absurd (hkey.trans hσ) (hh.keys.directions hd (ho.drawn hr))
  · cases hh.keys.c2s hd' hd (hσ.symm.trans hkey.symm)
    exact ⟨i, t, c, ch, env, wire, hij, ht, hx, hst, hrecord⟩

end Records

end Obfs.Udp

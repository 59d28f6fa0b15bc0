import Obfs.Symbolic.Laws

/-! Injective dispatch: every call of the service's handler goes back to one
record that the client of the session has sealed, and no record causes two. -/
namespace Obfs.Udp
open Trace
variable {K : Crates} {ι : Type} [DecidableEq ι] {cfg : SystemCfg K ι} {secret : K.CookieSecret}
  {sources : Nat → Broadcast.Channel (Event K.core)} {h : List (SystemStep K ι)}
  {s : SystemState K ι}

theorem handle_once {cfg : ServerCfg K} {s s' : ServerState K} {e : ServerEvent K}
    {o : List (Effect K)} (h : serverNext cfg s e = some (s', o)) {n n' : Nat}
    {req req' : K.core.Request} (hm : Effect.handle n req ∈ o) (hm' : Effect.handle n' req' ∈ o) :
    n' = n ∧ req' = req := by
  rw [handle_inv h hm] at hm'
  simpa using hm'

theorem received_opened {cfg : ServerCfg K} {s s' : ServerState K} {e : ServerEvent K}
    {o : List (Effect K)} (h : serverNext cfg s e = some (s', o)) {n : Nat}
    {env : Envelope K.core} (hm : Effect.received n env ∈ o) :
    ∃ inp p ses ses', e = .recv inp ∧ s.peers.lookup inp.src = some p ∧ p.session = n ∧
      s.sessions[n]? = some ses ∧ (ses.channel.openDatagram inp.dgram).1 = .ok (some env) ∧
      s'.sessions[n]? = some ses' ∧
      ses'.channel.opener = (ses.channel.openDatagram inp.dgram).2.opener := by
  obtain ⟨inp, p, ses, rfl, hp, hn, hs, ho⟩ := received_inv h hm
  obtain ⟨ses', hs', hc⟩ := session_step h hs
  refine ⟨inp, p, ses, ses', rfl, hp, hn, hs, ho, hs', ?_⟩
  have hfx : Effect.received n env ∈ effectsOn n o := by simp [effectsOn, Effect.on, hm]
  generalize effectsOn n o = fx at hc hfx
  cases hc with
  | kept => cases hfx
  | unopened hp hn ho => cases hfx
  | opened hp hn ho hne hv => rfl
  | ponged hp hn ho => exact DataChannel.sealEnvelope_opener _ _ _
  | denied hp hn ho hv => rw [Session.push_channel]

/-- Step i of the run is the seal of env behind what session n receives in step j: a
connected client seals it, the session belongs to the client's seed, opens that very
record in step j and knows it from then on. -/
def SealOf (N : K.Noise) (O : K.Opening) (cfg : SystemCfg K ι) (h : List (SystemStep K ι))
    (j n : Nat) (env : Envelope K.core) (json : Bytes) (i : Nat) : Prop :=
  i < j ∧ ∃ t c seed ch wire j₀ i₀ src, At h i t ∧
    SystemEffect.client c (.sealed ch.sealer env wire) ∈ t.out ∧
    t.pre.clients c = .connected seed ch ∧ Opened N cfg h n j₀ i₀ c src seed ∧
    ∃ u record ses ses', At h j u ∧ recordOf ch.sealer env = some (record, json) ∧
      u.pre.server.sessions[n]? = some ses ∧ ¬ O.seen ses.channel.opener record ∧
      u.post.server.sessions[n]? = some ses' ∧ O.seen ses'.channel.opener record

def CallOf (N : K.Noise) (O : K.Opening) (cfg : SystemCfg K ι) (h : List (SystemStep K ι))
    (j n : Nat) (req : K.core.Request) (i : Nat) : Prop :=
  ∃ json, SealOf N O cfg h j n (.request req) json i

theorem received_sealOf (N : K.Noise) (S : K.Sealing) (O : K.Opening)
    (hr : SystemRun cfg (.init secret sources) h s) (hh : Honest h)
    (hrec : GenuineRecords S O h) {j n : Nat} {u : SystemStep K ι} {env : Envelope K.core}
    (hu : At h j u) (hm : SystemEffect.server (.received n env) ∈ u.out) :
    ∃ env' json i, SealOf N O cfg h j n env' json i ∧ K.toVec env' = .ok json ∧
      K.fromSlice json = .ok env := by
  obtain ⟨v, hv, hx, hpre, hpost, hn⟩ := serverPart_of_mem hr hu hm
  obtain ⟨inp, p, ses, ses', he, hp, rfl, hses, hopen, hses', hch⟩ := received_opened hn hx
  rw [hpre] at hp hses
  rw [hpost] at hses'
  obtain ⟨record, pt, hby, hok, hdec, hopener⟩ := DataChannel.openDatagram_ok hopen
  -- the session's opener has the c2s key of the seed
  obtain ⟨j₀, i₀, c, seed, ho, hev⟩ := session_seed N (hr.step hu).1 (hh.take j).msg3 hses
  obtain ⟨-, ho⟩ := ho.of_take
  have hkey : O.key ses.channel.opener = (deriveRecordKeys K seed).1 := by
    rw [hev.opener_key O]
    exact O.key_new _
  have hopened : ((deriveRecordKeys K seed).1, record, pt) ∈ openedRecords O u := by
    rw [← hkey]
    simp [openedRecords, reader, serverPart_event hv, he, hp, hses, hby]
  obtain ⟨i, t, c', ch, env', wire, hij, ht, hs, hst, hrecord⟩ :=
    c2s_sealed N S O hr hh hrec hu (ho.drawn hr) hopened
  obtain rfl : c = c' := ho.client_eq hr hh.seeds ht (by rw [hst]; rfl)
  refine ⟨env', pt, i, ⟨hij, t, c, seed, ch, wire, j₀, i₀, ses.src, ht, hs, hst, ho, u, record,
    ses, ses', hu, hrecord, hses, O.unseen hok, hses', ?_⟩, recordOf_json hrecord, hdec⟩
  rw [hch, hopener]
  exact O.mark hok

theorem call_sealed (N : K.Noise) (S : K.Sealing) (O : K.Opening) (hcodec : K.RequestCodec)
    (hr : SystemRun cfg (.init secret sources) h s) (hh : Honest h)
    (hrec : GenuineRecords S O h) {j n : Nat} {u : SystemStep K ι} {req : K.core.Request}
    (hu : At h j u) (hm : SystemEffect.server (.handle n req) ∈ u.out) :
    ∃ i, CallOf N O cfg h j n req i := by
  obtain ⟨v, hv, hx, -, -, hn⟩ := serverPart_of_mem hr hu hm
  obtain ⟨env, json, i, hs, hjson, hdec⟩ := received_sealOf N S O hr hh hrec hu
    (mem_of_serverPart hv (by rw [handle_inv hn hx]; exact List.mem_cons_self))
  cases (hcodec env json req hjson).mp hdec
  exact ⟨i, json, hs⟩

theorem CallOf.unique {N : K.Noise} {O : K.Opening}
    (hr : SystemRun cfg (.init secret sources) h s) (hh : Honest h) {j j' n n' i : Nat}
    {req req' : K.core.Request} (hc : CallOf N O cfg h j n req i)
    (hc' : CallOf N O cfg h j' n' req' i) : j = j' ∧ n = n' ∧ req = req' := by
  obtain ⟨json, -, t, c, seed, ch, wire, j₀, i₀, src, ht, hm, hst, ho, u, record, ses, ses₁, hu,
    hrec, hses, hunseen, hses₁, hseen⟩ := hc
  obtain ⟨json', -, t', c', seed', ch', wire', j₀', i₀', src', ht', hm', hst', ho', u', record',
    ses', ses₁', hu', hrec', hses', hunseen', hses₁', hseen'⟩ := hc'
  cases ht.unique ht'
  cases same_client hr ht hm hm'
  cases hst.symm.trans hst'
  have hreq : req = req' := by
    obtain ⟨v, hx, hx', hn⟩ := client_effects hr ht hm hm'
    obtain ⟨_, _, _, -, -, -, -, hone⟩ := clientSealed_inv hn hx
    rw [hone, List.mem_singleton] at hx'
    cases hx'
    rfl
  subst hreq
  cases hrec.symm.trans hrec'
  cases (ho.unique hr hh ho').1
  refine ⟨?_, rfl, rfl⟩
  -- what the session has opened it has seen from then on
  have hlater {j j' : Nat} {u u' : SystemStep K ι} {ses₁ ses' : Session K} (hlt : j < j')
      (hu : At h j u) (hu' : At h j' u') (h1 : u.post.server.sessions[n]? = some ses₁)
      (h2 : u'.pre.server.sessions[n]? = some ses') (hs : O.seen ses₁.channel.opener record) :
      O.seen ses'.channel.opener record := by
    have hrun := ((hr.step hu').1.drop_succ (hu.take hlt)).project server_projects
    obtain ⟨ses₂, hses₂, -, hev⟩ := session_kept hrun h1
    cases hses₂.symm.trans h2
    exact hev.seen O hs
  rcases Nat.lt_trichotomy j j' with hlt | he | hlt
  · exact absurd (hlater hlt hu hu' hses₁ hses' hseen) hunseen'
  · exact he
  · exact absurd (hlater hlt hu' hu hses₁' hses hseen') hunseen

/-- Injective dispatch. The calls of the service's handler map injectively to
seals of clients: each call carries the request that the client of its session
has sealed, and no two calls have the same seal behind them. -/
theorem injective_dispatch (N : K.Noise) (S : K.Sealing) (O : K.Opening)
    (hcodec : K.RequestCodec) (hr : SystemRun cfg (.init secret sources) h s) (hh : Honest h)
    (hrec : GenuineRecords S O h) :
    ∃ f : Nat → Nat,
      (∀ j u n req, At h j u → SystemEffect.server (.handle n req) ∈ u.out →
        f j < j ∧ ∃ t c seed ch wire j₀ i₀ src, At h (f j) t ∧
          SystemEffect.client c (.sealed ch.sealer (.request req) wire) ∈ t.out ∧
          t.pre.clients c = .connected seed ch ∧ Opened N cfg h n j₀ i₀ c src seed) ∧
      ∀ j j' u u' n n' req req', At h j u → At h j' u' →
        SystemEffect.server (.handle n req) ∈ u.out →
        SystemEffect.server (.handle n' req') ∈ u'.out → f j = f j' →
          j = j' ∧ n = n' ∧ req = req' := by
  classical
  have hcall (j : Nat) : ∃ i, ∀ u n req, At h j u →
      SystemEffect.server (.handle n req) ∈ u.out → CallOf N O cfg h j n req i := by
    by_cases hj : ∃ u n req, At h j u ∧ SystemEffect.server (.handle n req) ∈ u.out
    · obtain ⟨u, n, req, hu, hm⟩ := hj
      obtain ⟨i, hi⟩ := call_sealed N S O hcodec hr hh hrec hu hm
      refine ⟨i, ?_⟩
      intro u' n' req' hu' hm'
      -- a step calls the handler once
      cases hu.unique hu'
      obtain ⟨v, hx, hx', hn⟩ := server_effects hr hu hm hm'
      obtain ⟨rfl, rfl⟩ := handle_once hn hx hx'
      exact hi
    · exact ⟨0, fun u n req hu hm => absurd ⟨u, n, req, hu, hm⟩ hj⟩
  choose f hf using hcall
  refine ⟨f, ?_, ?_⟩
  · intro j u n req hu hm
    obtain ⟨-, hlt, t, c, seed, ch, wire, j₀, i₀, src, ht, hs, hst, ho, -⟩ := hf j u n req hu hm
    exact ⟨hlt, t, c, seed, ch, wire, j₀, i₀, src, ht, hs, hst, ho⟩
  · intro j j' u u' n n' req req' hu hu' hm hm' he
    have hc' := hf j' u' n' req' hu' hm'
    rw [← he] at hc'
    exact (hf j u n req hu hm).unique hr hh hc'

end Obfs.Udp

namespace Obfs.Symbolic
open Udp Trace

theorem injective_dispatch_session :
    ∃ h s i t σ wire, SystemRun systemCfg systemStart h s ∧
      h.map calls = [[], [], [], [], [], [], [(0, 3)], [], [], []] ∧ i < 6 ∧ At h i t ∧
      SystemEffect.client () (.sealed σ (.request (3 : UInt8)) wire) ∈ t.out := by
  obtain ⟨h, s, hr, -, hh, -, hrec, -, -, hcalls⟩ := session_run
  obtain ⟨u, hu, hcu⟩ := at_map hcalls (j := 6) rfl
  have hmem : (0, 3) ∈ calls u := by simp [hcu]
  obtain ⟨x, hx, he⟩ := List.mem_filterMap.mp hmem
  split at he
  · cases he
    obtain ⟨f, hf, -⟩ := injective_dispatch noise sealing opening requestCodec hr hh hrec
    obtain ⟨hlt, t, _, _, ch, wire, _, _, _, ht, hs, -⟩ := hf 6 u 0 3 hu hx
    exact ⟨h, s, f 6, t, ch.sealer, wire, hr, hcalls, hlt, ht, hs⟩
  · cases he

end Obfs.Symbolic

import Obfs.Udp.Dispatch
import Obfs.Udp.Nonces

/-! Injective delivery, the way back: every envelope that a connected client
opens goes back to one record that the server has sealed on the client's own
session, and no record is received twice. -/
namespace Obfs.Udp
open Trace
variable {K : Crates} {ι : Type} [DecidableEq ι] {cfg : SystemCfg K ι} {secret : K.CookieSecret}
  {sources : Nat → Broadcast.Channel (Event K.core)} {h : List (SystemStep K ι)}
  {s : SystemState K ι}

theorem Opened.of_session {N : K.Noise} (hr : SystemRun cfg (.init secret sources) h s)
    {n j j' i i' : Nat} {c c' : ι} {src src' : SocketAddr} {seed seed' : Key}
    (ho : Opened N cfg h n j i c src seed) (ho' : Opened N cfg h n j' i' c' src' seed') :
    j = j' ∧ seed = seed' := by
  obtain ⟨-, _, _, msg3, u, v, ph, -, -, hu, hv, hp, -, inp, r, he, rfl, hhs3, hread, -, -, hn,
    hses⟩ := ho
  obtain ⟨-, _, _, msg3', u', v', ph', -, -, hu', hv', hp', -, inp', r', he', rfl, hhs3', hread',
    -, -, hn', hses'⟩ := ho'
  -- the session is there after it was opened, and it is new when it is opened
  have hlater {j j' : Nat} {u u' : SystemStep K ι} {v v' : ServerStep K} {ses : Session K}
      (hlt : j < j') (hu : At h j u) (hu' : At h j' u') (hv : serverPart u = some v)
      (hv' : serverPart u' = some v') (hses : v.post.sessions[n]? = some ses)
      (hn' : n = v'.pre.sessions.length) : False := by
    rw [(hr.component server_projects hu hv).2.1] at hses
    rw [(hr.component server_projects hu' hv').1] at hn'
    have hrun := ((hr.step hu').1.drop_succ (hu.take hlt)).project server_projects
    obtain ⟨ses', hses', -⟩ := session_kept hrun hses
    have hlen := (List.getElem?_eq_some_iff.mp hses').1
    omega
  have hj : j = j' := by
    rcases Nat.lt_trichotomy j j' with hlt | he | hlt
    · exact (hlater hlt hu hu' hv hv' hses hn').elim
    · exact he
    · exact (hlater hlt hu' hu hv' hv hses' hn).elim
  subst hj
  cases hu.unique hu'
  cases Option.some.inj (hv.symm.trans hv')
  cases he.symm.trans he'
  cases hhs3.symm.trans hhs3'
  cases hp.symm.trans hp'
  refine ⟨rfl, Subtype.ext ?_⟩
  have hseed := congrArg Prod.fst (hread.symm.trans hread')
  exact Except.ok.inj hseed

theorem clientReceived_inv {cfg : ClientCfg} {s s' : ClientState K} {e : ClientEvent K}
    {o : List (ClientEffect K)} (h : clientNext cfg s e = some (s', o)) {env : Envelope K.core}
    (hm : ClientEffect.received env ∈ o) :
    ∃ seed ch data, e = .openDatagram data ∧ s = .connected seed ch ∧
      (ch.openDatagram data).1 = .ok (some env) ∧
      s' = .connected seed (ch.openDatagram data).2 ∧ o = [.received env] := by
  cases clientNext_case cfg h with
  | @opened data seed ch out hst ho =>
    subst hst
    simp only [clientNext] at h
    split at h
    · rename_i env' ch' hopen
      cases h
      cases List.mem_singleton.mp hm
      exact ⟨seed, ch, data, rfl, rfl, by rw [hopen], rfl, rfl⟩
    · cases h
      cases hm
  | resent3 hst ho => rcases ho with rfl | rfl <;> simp at hm
  | _ => simp at hm

/-- Step i of the run is the seal behind the envelope that client c receives in
step j: the server seals on the session of the client's seed, and the client
opens that very record in step j and knows it from then on. -/
def DeliveryOf (N : K.Noise) (O : K.Opening) (cfg : SystemCfg K ι) (h : List (SystemStep K ι))
    (j : Nat) (c : ι) (env : Envelope K.core) (i : Nat) : Prop :=
  i < j ∧ ∃ t n dst σ env' wire j₀ i₀ seed, At h i t ∧
    SystemEffect.server (.sealed n dst σ env' wire) ∈ t.out ∧ Opened N cfg h n j₀ i₀ c dst seed ∧
    ∃ u record json ch ch', At h j u ∧ recordOf σ env' = some (record, json) ∧
      K.fromSlice json = .ok env ∧ u.pre.clients c = .connected seed ch ∧
      ¬ O.seen ch.opener record ∧ u.post.clients c = .connected seed ch' ∧
      O.seen ch'.opener record

theorem received_sealed (N : K.Noise) (S : K.Sealing) (O : K.Opening)
    (hr : SystemRun cfg (.init secret sources) h s) (hh : Honest h)
    (hrec : GenuineRecords S O h) {j : Nat} {u : SystemStep K ι} {c : ι} {env : Envelope K.core}
    (hu : At h j u) (hm : SystemEffect.client c (.received env) ∈ u.out) :
    ∃ i, DeliveryOf N O cfg h j c env i := by
  obtain ⟨v, hv, hx, hpre, hpost, hn⟩ := clientPart_of_mem hr hu hm
  obtain ⟨seed, ch, data, he, hst, hopen, hst', -⟩ := clientReceived_inv hn hx
  rw [hpre] at hst
  rw [hpost] at hst'
  obtain ⟨record, pt, hby, hok, hdec, hopener⟩ := DataChannel.openDatagram_ok hopen
  have hk : (u.pre.clients c).keyed = some (seed, ch) := by rw [hst]; rfl
  have hopened : ((deriveRecordKeys K seed).2, record, pt) ∈ openedRecords O u := by
    rw [← keyed_opener O (hr.step hu).1 hk]
    simp [openedRecords, reader, clientPart_event hv, he, hk, hby]
  obtain ⟨i, t, n, dst, σ, env', wire, j₀, i₀, c', hij, ht, hs, hrecord, -, ho⟩ :=
    s2c_sealed N S O hr hh hrec hu (mem_gather_of_take (keyed_drawn (hr.step hu).1 hk)) hopened
  obtain rfl : c' = c := ho.client_eq hr hh.seeds hu hk
  refine ⟨i, hij, t, n, dst, σ, env', wire, j₀, i₀, seed, ht, hs, ho, u, record, pt, ch, _, hu,
    hrecord, hdec, hst, O.unseen hok, hst', ?_⟩
  rw [hopener]
  exact O.mark hok

theorem connected_kept {s₀ : SystemState K ι} (hr : SystemRun cfg s₀ h s) {c : ι} {seed : Key}
    {ch : DataChannel K} (h0 : s₀.clients c = .connected seed ch) :
    ∃ ch', s.clients c = .connected seed ch' ∧ ch.Evolves ch' := by
  have hc := hr.project (client_projects c)
  refine hc.invariant (I := fun s => ∃ ch', s = .connected seed ch' ∧ ch.Evolves ch')
    ⟨ch, h0, .refl⟩ ?_
  rintro s e s' o ⟨ch', rfl, hev⟩ hn
  obtain ⟨ch'', rfl, hev'⟩ := connected_step hn
  exact ⟨ch'', rfl, hev.trans hev'⟩

omit [DecidableEq ι] in
theorem sealed_unique {cfg : ServerCfg K} {s s' : ServerState K} {e : ServerEvent K}
    {o : List (Effect K)} (h : serverNext cfg s e = some (s', o)) {n n' : Nat}
    {dst dst' : SocketAddr} {σ σ' : K.RecordSealer} {env env' : Envelope K.core}
    {wire wire' : Bytes} (hm : Effect.sealed n dst σ env wire ∈ o)
    (hm' : Effect.sealed n' dst' σ' env' wire' ∈ o) : n = n' ∧ σ = σ' ∧ env = env' := by
  have hone {m : Nat} {d : SocketAddr} {ch : DataChannel K} {x : Envelope K.core} {rng : K.Rng}
      (hm : Effect.sealed n dst σ env wire ∈ sealEffects m d ch x rng)
      (hm' : Effect.sealed n' dst' σ' env' wire' ∈ sealEffects m d ch x rng) :
      n = n' ∧ σ = σ' ∧ env = env' := by
    obtain ⟨_, -, he⟩ := mem_sealEffects.mp hm
    obtain ⟨_, -, he'⟩ := mem_sealEffects.mp hm'
    cases he
    cases he'
    exact ⟨rfl, rfl, rfl⟩
  cases serverNext_case cfg h with
  | @recv inp s' o hs hc =>
    cases hc with
    | swept ho => rcases ho with rfl | ⟨wire, rfl⟩ <;> simp at hm
    | installed hu hp hr hg | ping hp hs ho =>
      simp only [List.mem_cons, reduceCtorEq, false_or] at hm hm'
      exact hone hm hm'
    | _ => simp at hm
  | respond hv hs | sealed hs he hq => exact hone hm hm'
  | _ => simp at hm

theorem DeliveryOf.unique {N : K.Noise} {O : K.Opening}
    (hr : SystemRun cfg (.init secret sources) h s) (hh : Honest h) {j j' i : Nat} {c c' : ι}
    {env env' : Envelope K.core} (hd : DeliveryOf N O cfg h j c env i)
    (hd' : DeliveryOf N O cfg h j' c' env' i) : j = j' ∧ c = c' ∧ env = env' := by
  obtain ⟨-, t, n, dst, σ, e, wire, j₀, i₀, seed, ht, hm, ho, u, record, json, ch, ch₁, hu, hrec,
    hdec, hst, hunseen, hst₁, hseen⟩ := hd
  obtain ⟨-, t', n', dst', σ', e', wire', j₀', i₀', seed', ht', hm', ho', u', record', json', ch',
    ch₁', hu', hrec', hdec', hst', hunseen', hst₁', hseen'⟩ := hd'
  cases ht.unique ht'
  obtain ⟨v, hx, hx', hn⟩ := server_effects hr ht hm hm'
  obtain ⟨rfl, rfl, rfl⟩ := sealed_unique hn hx hx'
  cases hrec.symm.trans hrec'
  cases hdec.symm.trans hdec'
  obtain ⟨-, rfl⟩ := ho.of_session hr ho'
  obtain ⟨-, -, -, rfl, -⟩ := ho.unique hr hh ho'
  refine ⟨?_, rfl, rfl⟩
  -- what the client has opened it has seen from then on
  have hlater {j j' : Nat} {u u' : SystemStep K ι} {ch₁ ch' : DataChannel K} (hlt : j < j')
      (hu : At h j u) (hu' : At h j' u') (h1 : u.post.clients c = .connected seed ch₁)
      (h2 : u'.pre.clients c = .connected seed ch') (hs : O.seen ch₁.opener record) :
      O.seen ch'.opener record := by
    obtain ⟨ch₂, hst₂, hev⟩ := connected_kept ((hr.step hu').1.drop_succ (hu.take hlt)) h1
    cases h2.symm.trans hst₂
    exact hev.seen O hs
  rcases Nat.lt_trichotomy j j' with hlt | he | hlt
  · exact absurd (hlater hlt hu hu' hst₁ hst' hseen) hunseen'
  · exact he
  · exact absurd (hlater hlt hu' hu hst₁' hst hseen') hunseen

/-- Injective delivery. The envelopes that connected clients receive map
injectively to seals of the server: each is what the JSON of an envelope sealed
on the client's own session decodes to, and no two have the same seal behind
them. -/
theorem injective_delivery (N : K.Noise) (S : K.Sealing) (O : K.Opening)
    (hr : SystemRun cfg (.init secret sources) h s) (hh : Honest h)
    (hrec : GenuineRecords S O h) :
    ∃ f : Nat → Nat,
      (∀ j u c env, At h j u → SystemEffect.client c (.received env) ∈ u.out →
        f j < j ∧ ∃ t n dst σ env' wire j₀ i₀ seed ch json, At h (f j) t ∧
          SystemEffect.server (.sealed n dst σ env' wire) ∈ t.out ∧
          Opened N cfg h n j₀ i₀ c dst seed ∧ u.pre.clients c = .connected seed ch ∧
          K.toVec env' = .ok json ∧ K.fromSlice json = .ok env) ∧
      ∀ j j' u u' c c' env env', At h j u → At h j' u' →
        SystemEffect.client c (.received env) ∈ u.out →
        SystemEffect.client c' (.received env') ∈ u'.out → f j = f j' →
          j = j' ∧ c = c' ∧ env = env' := by
  classical
  have hdelivery (j : Nat) : ∃ i, ∀ u c env, At h j u →
      SystemEffect.client c (.received env) ∈ u.out → DeliveryOf N O cfg h j c env i := by
    by_cases hj : ∃ u c env, At h j u ∧ SystemEffect.client c (.received env) ∈ u.out
    · obtain ⟨u, c, env, hu, hm⟩ := hj
      obtain ⟨i, hi⟩ := received_sealed N S O hr hh hrec hu hm
      refine ⟨i, ?_⟩
      intro u' c' env' hu' hm'
      -- a step receives one envelope
      cases hu.unique hu'
      cases same_client hr hu hm hm'
      obtain ⟨v, hx, hx', hn⟩ := client_effects hr hu hm hm'
      obtain ⟨_, _, _, -, -, -, -, hone⟩ := clientReceived_inv hn hx
      rw [hone, List.mem_singleton] at hx'
      cases hx'
      exact hi
    · exact ⟨0, fun u c env hu hm => absurd ⟨u, c, env, hu, hm⟩ hj⟩
  choose f hf using hdelivery
  refine ⟨f, ?_, ?_⟩
  · intro j u c env hu hm
    obtain ⟨hlt, t, n, dst, σ, env', wire, j₀, i₀, seed, ht, hs, ho, u', record, json, ch, -, hu',
      hrecord, hdec, hst, -⟩ := hf j u c env hu hm
    cases hu.unique hu'
    exact ⟨hlt, t, n, dst, σ, env', wire, j₀, i₀, seed, ch, json, ht, hs, ho, hst,
      recordOf_json hrecord, hdec⟩
  · intro j j' u u' c c' env env' hu hu' hm hm' he
    have hd' := hf j' u' c' env' hu' hm'
    rw [← he] at hd'
    exact (hf j u c env hu hm).unique hr hh hd'

end Obfs.Udp

namespace Obfs.Symbolic
open Udp Trace

def responses (t : SystemStep crates Unit) : List UInt8 :=
  t.out.filterMap fun
    | .client _ (.received (.response resp)) => some resp
    | _ => none

theorem injective_delivery_session :
    ∃ h s i t n dst σ env wire, SystemRun systemCfg systemStart h s ∧
      h.map responses = [[], [], [], [], [], [], [], [], [], [4]] ∧ i < 9 ∧ At h i t ∧
      SystemEffect.server (.sealed n dst σ env wire) ∈ t.out := by
  have hx : ∃ h s, SystemRun systemCfg systemStart h s ∧ h.map Step.event = session ∧
      Honest h ∧ GenuineRecords sealing opening h ∧
      h.map responses = [[], [], [], [], [], [], [], [], [], [4]] :=
    Run.of_exec (fun h _ => Honest h ∧ GenuineRecords sealing opening h ∧
      h.map responses = [[], [], [], [], [], [], [], [], [], [4]]) (by decide +kernel)
  obtain ⟨h, s, hr, -, hh, hrec, hresp⟩ := hx
  obtain ⟨u, hu, hru⟩ := at_map hresp (j := 9) rfl
  have hmem : 4 ∈ responses u := by simp [hru]
  obtain ⟨x, hx, he⟩ := List.mem_filterMap.mp hmem
  split at he
  · cases he
    obtain ⟨f, hf, -⟩ := injective_delivery noise sealing opening hr hh hrec
    obtain ⟨hlt, t, n, dst, σ, env, wire, _, _, _, _, _, ht, hs, -⟩ := hf 9 u _ _ hu hx
    exact ⟨h, s, f 9, t, n, dst, σ, env, wire, hr, hresp, hlt, ht, hs⟩
  · cases he

end Obfs.Symbolic

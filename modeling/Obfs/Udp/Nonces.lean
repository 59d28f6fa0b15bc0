import Obfs.Symbolic.Laws

/-! Nonces over a whole run: every sealer, of a session or of a client, counts
under a key of its own. -/
namespace Obfs.Udp
open Trace
variable {K : Crates} {ι : Type} [DecidableEq ι] {cfg : SystemCfg K ι} {secret : K.CookieSecret}
  {sources : Nat → Broadcast.Channel (Event K.core)} {h : List (SystemStep K ι)}
  {s s' : SystemState K ι}

def nonces (S : K.Sealing) (t : SystemStep K ι) : List (Key × Nat) :=
  (t.out.filterMap SystemEffect.seal?).map fun m => (S.key m.1, S.counter m.1)

/- The sealers of a state: one for each session, one for each connected client. -/
def SystemState.sealer (s : SystemState K ι) : Nat ⊕ ι → Option K.RecordSealer
  | .inl n => (s.server.sessions[n]?).map fun ses => ses.channel.sealer
  | .inr c =>
    match s.clients c with
    | .connected _ ch => some ch.sealer
    | _ => none

def SystemState.nonce (S : K.Sealing) (s : SystemState K ι) (a : Nat ⊕ ι) : Option (Key × Nat) :=
  (s.sealer a).map fun σ => (S.key σ, S.counter σ)

theorem nonce_step (S : K.Sealing) {e : SystemEvent K ι} {o : List (SystemEffect K ι)}
    (hn : systemNext cfg s e = some (s', o)) (a : Nat ⊕ ι) (k : Key) (m : Nat)
    (ha : s.nonce S a = some (k, m)) : ∃ m', m ≤ m' ∧ s'.nonce S a = some (k, m') := by
  obtain ⟨σ, hσ, hkm⟩ := Option.map_eq_some_iff.mp ha
  cases hkm
  have hchan {ch ch' : DataChannel K} (hev : ch.Evolves ch') (he : ch.sealer = σ)
      (hs : s'.sealer a = some ch'.sealer) :
      ∃ m', S.counter σ ≤ m' ∧ s'.nonce S a = some (S.key σ, m') := by
    subst he
    refine ⟨S.counter ch'.sealer, hev.counter_le S, ?_⟩
    rw [SystemState.nonce, hs, ← hev.sealer_key S]
    rfl
  cases a with
  | inl n =>
    obtain ⟨ses, hses, he⟩ := Option.map_eq_some_iff.mp hσ
    rcases systemNext_case hn with ⟨_, _, -, -, -, hs⟩ | ⟨_, _, _, -, -, hsame, -⟩
    · obtain ⟨ses', hses', hc⟩ := session_step hs hses
      exact hchan hc.evolves.2 he (by simp [SystemState.sealer, hses'])
    · exact hchan .refl he (by simp [SystemState.sealer, hsame, hses])
  | inr c =>
    have hst : ∃ seed ch, s.clients c = .connected seed ch ∧ ch.sealer = σ := by
      simp only [SystemState.sealer] at hσ
      split at hσ
      · rename_i seed ch hst
        exact ⟨seed, ch, hst, Option.some.inj hσ⟩
      · cases hσ
    obtain ⟨seed, ch, hst, he⟩ := hst
    have hconn : ∃ ch', s'.clients c = .connected seed ch' ∧ ch.Evolves ch' := by
      rcases systemNext_case hn with ⟨_, _, -, -, hsame, -⟩ | ⟨c', _, _, -, -, -, hsame, hs⟩
      · exact ⟨ch, by rw [hsame, hst], .refl⟩
      · by_cases hc : c = c'
        · subst hc
          rw [hst] at hs
          exact connected_step hs
        · exact ⟨ch, by rw [hsame c hc, hst], .refl⟩
    obtain ⟨ch', hst', hev⟩ := hconn
    exact hchan hev he (by simp [SystemState.sealer, hst'])

omit [DecidableEq ι] in
theorem seal?_sealEffects (n : Nat) (dst : SocketAddr) (ch : DataChannel K)
    (env : Envelope K.core) (rng : K.Rng) :
    (((sealEffects n dst ch env rng).map SystemEffect.server).filterMap
      (SystemEffect.seal? (ι := ι))).length ≤ 1 := by
  unfold sealEffects
  split <;> simp [SystemEffect.seal?]

omit [DecidableEq ι] in
theorem serverSeals_le_one {cfg : ServerCfg K} {s s' : ServerState K} {e : ServerEvent K}
    {o : List (Effect K)} (h : serverNext cfg s e = some (s', o)) :
    ((o.map SystemEffect.server).filterMap (SystemEffect.seal? (ι := ι))).length ≤ 1 := by
  cases serverNext_case cfg h with
  | @recv inp s' o hs hc =>
    cases hc with
    | swept ho =>
      rcases ho with rfl | ⟨wire, rfl⟩ <;> simp [List.filterMap_cons, SystemEffect.seal?]
    | installed hu hp hr hg => exact seal?_sealEffects _ _ _ _ _
    | ping hp hs ho => exact seal?_sealEffects _ _ _ _ _
    | _ => simp [List.filterMap_cons, SystemEffect.seal?]
  | respond hv hs => exact seal?_sealEffects _ _ _ _ _
  | sealed hs he hq => exact seal?_sealEffects _ _ _ _ _
  | _ => simp

omit [DecidableEq ι] in
theorem clientSeals_le_one {cfg : ClientCfg} {s s' : ClientState K} {e : ClientEvent K}
    {o : List (ClientEffect K)} (h : clientNext cfg s e = some (s', o)) (c : ι) :
    ((o.map (SystemEffect.client c)).filterMap SystemEffect.seal?).length ≤ 1 := by
  cases clientNext_case cfg h with
  | resent3 hst ho => rcases ho with rfl | rfl <;> simp [List.filterMap_cons, SystemEffect.seal?]
  | opened hst ho =>
    rcases ho with rfl | ⟨env, rfl⟩ <;> simp [List.filterMap_cons, SystemEffect.seal?]
  | _ => simp [List.filterMap_cons, SystemEffect.seal?]

theorem nonces_nodup (S : K.Sealing) {t : SystemStep K ι}
    (hn : systemNext cfg t.pre t.event = some (t.post, t.out)) : (nonces S t).Nodup := by
  have hle : (nonces S t).length ≤ 1 := by
    rw [nonces, List.length_map]
    rcases systemNext_case hn with ⟨_, _, -, ho, -, hs⟩ | ⟨c, _, _, -, ho, -, -, hs⟩
    · rw [ho]
      exact serverSeals_le_one hs
    · rw [ho]
      exact clientSeals_le_one hs c
  match hl : nonces S t, hle with
  | [], _ => exact List.nodup_nil
  | [x], _ => exact List.nodup_singleton x

theorem SessionCase.counter (S : K.Sealing) {cfg : ServerCfg K} {s : ServerState K} {n : Nat}
    {ses ses' : Session K} {e : ServerEvent K} {fx : List (Effect K)}
    (hc : SessionCase cfg s n ses e fx ses') {m : Nat} {dst : SocketAddr} {σ : K.RecordSealer}
    {env : Envelope K.core} {wire : Bytes} (hm : Effect.sealed m dst σ env wire ∈ fx) :
    σ = ses.channel.sealer ∧ S.counter ses'.channel.sealer = S.counter σ + 1 := by
  cases hc with
  | @ponged inp p hp hn' ho =>
    simp only [List.mem_cons, reduceCtorEq, mem_sealEffects, Effect.sealed.injEq, false_or] at hm
    obtain ⟨wire', hw, -, -, rfl, -, -⟩ := hm
    exact ⟨DataChannel.openDatagram_sealer _ _, DataChannel.sealEnvelope_counter S hw⟩
  | @responded now rng sv hv hn' =>
    obtain ⟨wire', hw, he⟩ := mem_sealEffects.mp hm
    cases he
    exact ⟨rfl, DataChannel.sealEnvelope_counter S hw⟩
  | @popped rng env' rest he hq =>
    obtain ⟨wire', hw, he⟩ := mem_sealEffects.mp hm
    cases he
    exact ⟨rfl, DataChannel.sealEnvelope_counter S hw⟩
  | _ => simp at hm

theorem serverNonce_used (S : K.Sealing) {cfg : ServerCfg K} {s s' : ServerState K}
    {e : ServerEvent K} {o : List (Effect K)} (h : serverNext cfg s e = some (s', o)) {n : Nat}
    {dst : SocketAddr} {σ : K.RecordSealer} {env : Envelope K.core} {wire : Bytes}
    (hm : Effect.sealed n dst σ env wire ∈ o) :
    (∃ ses', s'.sessions[n]? = some ses' ∧ S.key ses'.channel.sealer = S.key σ ∧
      S.counter ses'.channel.sealer = S.counter σ + 1) ∧
    ∀ ses, s.sessions[n]? = some ses → ses.channel.sealer = σ := by
  rw [← mem_effectsOn_sealed] at hm
  cases slot_case h n with
  | absent hn hn' ho => rw [ho] at hm; cases hm
  | live hn hn' hc =>
    obtain ⟨rfl, hcount⟩ := hc.counter S hm
    refine ⟨⟨_, hn', hc.evolves.2.sealer_key S, hcount⟩, ?_⟩
    intro ses hses
    rw [Option.some.inj (hn.symm.trans hses)]
  | @fresh inp ph ch hl he hp ha ho hn' =>
    rw [ho, mem_sealEffects] at hm
    obtain ⟨wire', hw, he⟩ := hm
    cases he
    refine ⟨⟨_, hn', ?_, DataChannel.sealEnvelope_counter S hw⟩, ?_⟩
    · exact (DataChannel.Evolves.sealed .pong inp.rng .refl).sealer_key S
    · intro ses hses
      have hlt := (List.getElem?_eq_some_iff.mp hses).1
      omega

theorem nonce_used (S : K.Sealing) {t : SystemStep K ι}
    (hn : systemNext cfg t.pre t.event = some (t.post, t.out)) (k : Key) (m : Nat)
    (hm : (k, m) ∈ nonces S t) :
    ∃ a m', m < m' ∧ t.post.nonce S a = some (k, m') ∧
      ∀ k₀ m₀, t.pre.nonce S a = some (k₀, m₀) → m₀ ≤ m := by
  obtain ⟨⟨σ, env⟩, hx, hkm⟩ := List.mem_map.mp hm
  cases hkm
  obtain ⟨x, hx, hseal⟩ := List.mem_filterMap.mp hx
  rcases systemNext_case hn with ⟨_, o', -, ho, -, hs⟩ | ⟨c, _, o', -, ho, -, -, hs⟩
  · rw [ho] at hx
    obtain ⟨y, hy, rfl⟩ := List.mem_map.mp hx
    unfold SystemEffect.seal? at hseal
    split at hseal
    · rename_i n dst σ' env' wire heq
      cases heq
      cases hseal
      obtain ⟨⟨ses', hses', hkey, hcount⟩, hpre⟩ := serverNonce_used S hs hy
      refine ⟨.inl n, S.counter σ + 1, Nat.lt_succ_self _, ?_, ?_⟩
      · simp [SystemState.nonce, SystemState.sealer, hses', hkey, hcount]
      · intro k₀ m₀ h₀
        simp only [SystemState.nonce, SystemState.sealer, Option.map_map,
          Option.map_eq_some_iff] at h₀
        obtain ⟨ses, hses, he⟩ := h₀
        cases he
        rw [← hpre ses hses]
    · rename_i heq
      cases heq
    · cases hseal
  · rw [ho] at hx
    obtain ⟨y, hy, rfl⟩ := List.mem_map.mp hx
    unfold SystemEffect.seal? at hseal
    split at hseal
    · rename_i heq
      cases heq
    · rename_i c' σ' env' wire heq
      cases heq
      cases hseal
      obtain ⟨seed, ch, rng, hst, rfl, hw, hst', -⟩ := clientSealed_inv hs hy
      refine ⟨.inr c, S.counter ch.sealer + 1, Nat.lt_succ_self _, ?_, ?_⟩
      · have hev : ch.Evolves (ch.sealEnvelope env rng).2 := .sealed env rng .refl
        have hkey := hev.sealer_key S
        simp [SystemState.nonce, SystemState.sealer, hst', hkey,
          DataChannel.sealEnvelope_counter S hw]
      · intro k₀ m₀ h₀
        simp only [SystemState.nonce, SystemState.sealer, hst, Option.map_some, Option.some.injEq,
          Prod.mk.injEq] at h₀
        exact Nat.le_of_eq h₀.2.symm
    · cases hseal

theorem sealer_seed (N : K.Noise) (S : K.Sealing) (hr : SystemRun cfg (.init secret sources) h s)
    (hg : GenuineMsg3 h) {a : Nat ⊕ ι} {σ : K.RecordSealer} (ha : s.sealer a = some σ) :
    ∃ seed ∈ gather draws h,
      (∃ n j i c src, a = .inl n ∧ Opened N cfg h n j i c src seed ∧
        S.key σ = (deriveRecordKeys K seed).2) ∨
      ∃ c i t hs msg3, a = .inr c ∧ At h i t ∧
        SystemEffect.client c (.wroteMsg3 hs msg3 seed) ∈ t.out ∧
        S.key σ = (deriveRecordKeys K seed).1 := by
  cases a with
  | inl n =>
    obtain ⟨ses, hses, rfl⟩ := Option.map_eq_some_iff.mp ha
    obtain ⟨j, i, c, seed, ho, hev⟩ := session_seed N hr hg hses
    refine ⟨seed, ho.drawn hr, Or.inl ⟨n, j, i, c, ses.src, rfl, ho, ?_⟩⟩
    rw [hev.sealer_key S]
    exact S.key_new _
  | inr c =>
    simp only [SystemState.sealer] at ha
    split at ha
    · rename_i seed ch hst
      cases ha
      have hk : (s.clients c).keyed = some (seed, ch) := by rw [hst]; rfl
      obtain ⟨-, i, t, hs, msg3, ht, hm⟩ := keyed_written hr hk
      exact ⟨seed, keyed_drawn hr hk,
        Or.inr ⟨c, i, t, hs, msg3, rfl, ht, hm, keyed_sealer S hr hk⟩⟩
    · cases ha

theorem sealer_separate (N : K.Noise) (S : K.Sealing)
    (hr : SystemRun cfg (.init secret sources) h s) (hh : Honest h) {a b : Nat ⊕ ι}
    {σ τ : K.RecordSealer} (ha : s.sealer a = some σ) (hb : s.sealer b = some τ)
    (hk : S.key σ = S.key τ) : a = b := by
  obtain ⟨seed, hd, hA⟩ := sealer_seed N S hr hh.msg3 ha
  obtain ⟨seed', hd', hB⟩ := sealer_seed N S hr hh.msg3 hb
  rcases hA with ⟨n, j, i, c, src, rfl, ho, hσ⟩ | ⟨c, i, t, hs, msg3, rfl, ht, hm, hσ⟩ <;>
    rcases hB with ⟨n', j', i', c', src', rfl, ho', hτ⟩ |
      ⟨c', i', t', hs', msg3', rfl, ht', hm', hτ⟩ <;>
    rw [hσ, hτ] at hk
  · cases hh.keys.s2c hd hd' hk
    rw [(ho.unique hr hh ho').1]
  · exact absurd hk.symm (hh.keys.directions hd' hd)
  · exact absurd hk (hh.keys.directions hd hd')
  · cases hh.keys.c2s hd hd' hk
    rw [(written_unique hr hh.seeds ht ht' hm hm').2.1]

/-- No nonce is used twice. In a run with honest clients all successful seals,
on both sides, have different pairs of record key and counter; each responder
yields at most one channel; and a new session seals under a key that nothing
was sealed with before. -/
theorem no_nonce_reuse (N : K.Noise) (S : K.Sealing)
    (hr : SystemRun cfg (.init secret sources) h s) (hh : Honest h) :
    (gather (nonces S) h).Nodup ∧
    (∀ j j' u u' v v' src src' ph ph' n n' ch ch', At h j u → At h j' u' →
      serverPart u = some v → serverPart u' = some v' → v.pre.pending.lookup src = some ph →
      v'.pre.pending.lookup src' = some ph' →
      AdmitsSession cfg.server v src ph.responder n ch →
      AdmitsSession cfg.server v' src' ph'.responder n' ch' →
      N.transcript ph.responder = N.transcript ph'.responder → j = j' ∧ n = n') ∧
    ∀ j u v src ph n ch, At h j u → serverPart u = some v →
      v.pre.pending.lookup src = some ph → AdmitsSession cfg.server v src ph.responder n ch →
      ∀ i t m, i < j → At h i t → (S.key ch.sealer, m) ∉ nonces S t := by
  refine ⟨?_, ?_, ?_⟩
  -- the owners of counters are the sessions and the connected clients
  · refine (hr.nodup_counters (fun s => s.nonce S) (nonces S) (fun _ _ _ _ => nonce_step S)
      (fun i t ht => nonces_nodup S (hr.next_eq ht))
      (fun i t ht => nonce_used S (hr.next_eq ht)) ?_).1
    intro i t ht a b k m m' ha hb
    obtain ⟨σ, hσ, he⟩ := Option.map_eq_some_iff.mp ha
    obtain ⟨τ, hτ, he'⟩ := Option.map_eq_some_iff.mp hb
    cases he
    exact sealer_separate N S (hr.take_succ ht) (hh.take (i + 1)) hσ hτ
      (Prod.mk.inj he').1.symm
  · intro j j' u u' v v' src src' ph ph' n n' ch ch' hu hu' hv hv' hp hp' ha ha' hN
    obtain ⟨inp, body, _, _, _, he, rfl, hhs3, -, -, -, -, hn, -⟩ := ha
    obtain ⟨inp', body', _, _, _, he', rfl, hhs3', -, -, -, -, hn', -⟩ := ha'
    rw [(hr.component server_projects hu hv).1] at hp
    rw [(hr.component server_projects hu' hv').1] at hp'
    have hj : j = j' := responder_used_once N hr hh.ephemerals hu hu'
      (by rw [serverPart_event hv, he]) (by rw [serverPart_event hv', he']) hhs3 hhs3' hp hp' hN
    subst hj
    cases hu.unique hu'
    cases Option.some.inj (hv.symm.trans hv')
    exact ⟨rfl, hn.trans hn'.symm⟩
  · intro j u v src ph n ch hu hv hp ha i t m hij ht hm
    obtain ⟨i', c, seed, ho, rfl⟩ := admits_opened N hr hh.msg3 hu hv hp ha
    obtain ⟨⟨σ, env⟩, hx, hkm⟩ := List.mem_map.mp hm
    obtain ⟨x, hx, hseal⟩ := List.mem_filterMap.mp hx
    -- a record under the new key belongs to a session of the same seed, opened in step j
    have hkey : S.key σ = (deriveRecordKeys K seed).2 :=
      (Prod.mk.inj hkm).1.trans (S.key_new _)
    rcases seal_case N S hr hh.msg3 ht hx hseal with
      ⟨n', _, _, j', _, c', seed', -, hj', ho', hσ⟩ | ⟨_, seed', _, _, -, -, -, hd', hσ⟩
    · cases hh.keys.s2c (ho.drawn hr) (ho'.drawn hr) (hkey.symm.trans hσ)
      have := (ho.unique hr hh ho').2.1
      omega
    · exact absurd (hσ.symm.trans hkey) (hh.keys.directions hd' (ho.drawn hr))

end Obfs.Udp

namespace Obfs.Symbolic
open Udp Trace

/-- The session seals three records, two of them with the same counter. -/
theorem no_nonce_reuse_session :
    ∃ h s, SystemRun systemCfg systemStart h s ∧
      gather (nonces sealing) h = [(s2cKey, 0), (keyOf 1, 0), (s2cKey, 1)] ∧
      (gather (nonces sealing) h).Nodup := by
  have hx : ∃ h s, SystemRun systemCfg systemStart h s ∧ h.map Step.event = session ∧
      Honest h ∧ gather (nonces sealing) h = [(s2cKey, 0), (keyOf 1, 0), (s2cKey, 1)] :=
    Run.of_exec (fun h _ => Honest h ∧
      gather (nonces sealing) h = [(s2cKey, 0), (keyOf 1, 0), (s2cKey, 1)]) (by decide +kernel)
  obtain ⟨h, s, hr, -, hh, hn⟩ := hx
  exact ⟨h, s, hr, hn, (no_nonce_reuse noise sealing hr hh).1⟩

end Obfs.Symbolic

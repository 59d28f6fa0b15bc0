import Obfs.Udp.Delivery

/-! Responses on the datagram transport: what a client receives as a response is
the service's answer to a request that this client has sealed before. -/
namespace Obfs.Udp
open Trace
variable {K : Crates}

section Server
variable {cfg : ServerCfg K} {s s' : ServerState K} {e : ServerEvent K} {o : List (Effect K)}

theorem serving_called (h : serverNext cfg s e = some (s', o)) {sv : Serving K}
    (hv : s'.serving = some sv) :
    s.serving = some sv ∨ Effect.handle sv.session sv.req ∈ o := by
  cases serverNext_case cfg h with
  | @recv inp s' o hs hc =>
    cases hc with
    | request hp hs' ho =>
      cases hv
      exact Or.inr (by simp)
    | _ => exact Or.inl hv
  | respond hv' hs => cases hv
  | _ => exact Or.inl hv

/-- Only events and refusals wait for a sealer task. -/
def isPush : Envelope K.core → Bool
  | .event _ => true
  | .subscribeError _ _ => true
  | _ => false

def QueuesPushes (s : ServerState K) : Prop :=
  ∀ (n : Nat) (ses : Session K), s.sessions[n]? = some ses →
    ∀ env ∈ ses.queue, isPush env = true

theorem SessionCase.pushes {n : Nat} {ses ses' : Session K} {fx : List (Effect K)}
    (hc : SessionCase cfg s n ses e fx ses')
    (hq : ∀ env ∈ ses.queue, isPush env = true) :
    ∀ env ∈ ses'.queue, isPush env = true := by
  have hpush {ses : Session K} {x : Envelope K.core} (hx : isPush x = true)
      (hq : ∀ env ∈ ses.queue, isPush env = true) :
      ∀ env ∈ (ses.push x).queue, isPush env = true := by
    intro env henv
    rcases ses.push_queue x with he | he
    · exact hq env (he ▸ henv)
    · rw [he, List.mem_append, List.mem_singleton] at henv
      rcases henv with henv | rfl
      · exact hq env henv
      · exact hx
  cases hc with
  | denied hp hn ho hv => exact hpush rfl hq
  | forwarded hf hp hn => exact hpush rfl hq
  | @popped rng env rest he hrest =>
    intro x hx
    exact hq x (by rw [hrest]; exact List.mem_cons_of_mem _ hx)
  | _ => exact hq

theorem queuesPushes_step (hq : QueuesPushes s) (h : serverNext cfg s e = some (s', o)) :
    QueuesPushes s' := by
  intro n ses' hs'
  cases slot_case h n with
  | absent hn0 hn' => rw [hn'] at hs'; cases hs'
  | @live ses ses1 hs hn' hc =>
    cases Option.some.inj (hn'.symm.trans hs')
    exact hc.pushes (hq n ses hs)
  | fresh hl he hp ha ho hn' =>
    cases Option.some.inj (hn'.symm.trans hs')
    nofun

theorem SessionCase.sealed_response {n : Nat} {ses ses' : Session K} {fx : List (Effect K)}
    (hc : SessionCase cfg s n ses e fx ses') (hq : ∀ env ∈ ses.queue, isPush env = true)
    {m : Nat} {dst : SocketAddr} {σ : K.RecordSealer} {resp : K.core.Response} {wire : Bytes}
    (hm : Effect.sealed m dst σ (.response resp) wire ∈ fx) :
    ∃ sv, s.serving = some sv ∧ sv.session = n ∧ resp = cfg.service.handle sv.req := by
  cases hc with
  | @responded now rng sv hv hsv =>
    obtain ⟨_, -, he⟩ := mem_sealEffects.mp hm
    cases he
    exact ⟨sv, hv, hsv, rfl⟩
  | @popped rng env rest he hrest =>
    obtain ⟨_, -, he⟩ := mem_sealEffects.mp hm
    cases he
    have hw := hq _ (by rw [hrest]; exact List.mem_cons_self)
    cases hw
  | _ => simp [mem_sealEffects] at hm

theorem response_served (hq : QueuesPushes s) (h : serverNext cfg s e = some (s', o)) {n : Nat}
    {dst : SocketAddr} {σ : K.RecordSealer} {resp : K.core.Response} {wire : Bytes}
    (hm : Effect.sealed n dst σ (.response resp) wire ∈ o) :
    ∃ sv, s.serving = some sv ∧ sv.session = n ∧ resp = cfg.service.handle sv.req := by
  rw [← mem_effectsOn_sealed] at hm
  cases slot_case h n with
  | absent hn hn' ho => rw [ho] at hm; cases hm
  | live hn hn' hc => exact hc.sealed_response (hq n _ hn) hm
  | fresh hl he hp ha ho hn' =>
    rw [ho, mem_sealEffects] at hm
    obtain ⟨_, -, he⟩ := hm
    cases he

end Server

variable {ι : Type} [DecidableEq ι] {cfg : SystemCfg K ι} {secret : K.CookieSecret}
  {sources : Nat → Broadcast.Channel (Event K.core)} {h : List (SystemStep K ι)}
  {s : SystemState K ι}

theorem queuesPushes_run (hr : SystemRun cfg (.init secret sources) h s) :
    QueuesPushes s.server := by
  have hsr := server_run hr
  have h0 : QueuesPushes (ServerState.init secret sources) := by
    intro n ses hn
    simp at hn
  exact hsr.invariant h0 fun _ _ _ _ hq hn => queuesPushes_step hq hn

theorem serving_handled (hr : SystemRun cfg (.init secret sources) h s) {sv : Serving K}
    (hv : s.server.serving = some sv) :
    ∃ j u, At h j u ∧ SystemEffect.server (.handle sv.session sv.req) ∈ u.out := by
  refine hr.granted (fun s sv => s.server.serving = some sv)
    (fun t sv => SystemEffect.server (.handle sv.session sv.req) ∈ t.out) nofun ?_ hv
  intro s e s' o sv hn hv
  rcases systemNext_case hn with ⟨e', o', -, rfl, -, hs⟩ | ⟨c, e', o', -, -, hs, -⟩
  · rcases serving_called hs hv with hv | hm
    · exact Or.inl hv
    · exact Or.inr (List.mem_map.mpr ⟨_, hm, rfl⟩)
  · rw [hs] at hv
    exact Or.inl hv

theorem response_handled (hr : SystemRun cfg (.init secret sources) h s) {i : Nat}
    {t : SystemStep K ι} (ht : At h i t) {n : Nat} {dst : SocketAddr} {σ : K.RecordSealer}
    {resp : K.core.Response} {wire : Bytes}
    (hm : SystemEffect.server (.sealed n dst σ (.response resp) wire) ∈ t.out) :
    ∃ j u req, j < i ∧ At h j u ∧ SystemEffect.server (.handle n req) ∈ u.out ∧
      resp = cfg.server.service.handle req := by
  obtain ⟨v, hv, hx, hpre, -, hn⟩ := serverPart_of_mem hr ht hm
  have hq : QueuesPushes v.pre := hpre ▸ queuesPushes_run (hr.step ht).1
  obtain ⟨sv, hsv, rfl, rfl⟩ := response_served hq hn hx
  rw [hpre] at hsv
  obtain ⟨j, u, hu, hh⟩ := serving_handled (hr.step ht).1 hsv
  exact ⟨j, u, sv.req, hu.of_take.1, hu.of_take.2, hh, rfl⟩

/-- Who is served: a session of client c, in step j, with a request that the
client has sealed in an earlier step i. -/
structure Served (N : K.Noise) (cfg : SystemCfg K ι) (h : List (SystemStep K ι)) (c : ι)
    (req : K.core.Request) (j i : Nat) : Prop where
  lt : i < j
  call : ∃ u n j₀ i₀ src seed, At h j u ∧ SystemEffect.server (.handle n req) ∈ u.out ∧
    Opened N cfg h n j₀ i₀ c src seed
  sealed : ∃ t σ wire, At h i t ∧ SystemEffect.client c (.sealed σ (.request req) wire) ∈ t.out

theorem response_answers (N : K.Noise) (S : K.Sealing) (O : K.Opening) (hreq : K.RequestCodec)
    (hrep : K.ReplyCodec) (hr : SystemRun cfg (.init secret sources) h s) (hh : Honest h)
    (hrec : GenuineRecords S O h) {k : Nat} {v : SystemStep K ι} {c : ι} {resp : K.core.Response}
    (hv : At h k v) (hm : SystemEffect.client c (.received (.response resp)) ∈ v.out) :
    ∃ req j i, j < k ∧ Served N cfg h c req j i ∧ resp = cfg.server.service.handle req := by
  obtain ⟨l, hlk, t, n, dst, σ, env, wire, j₀, i₀, seed, ht, hs, ho, _, record, json, _, _, _,
    hrecord, hdec, -⟩ := received_sealed N S O hr hh hrec hv hm
  cases (hrep.response env json resp (recordOf_json hrecord)).mp hdec
  obtain ⟨j, u, req, hjl, hu, hhandle, rfl⟩ := response_handled hr ht hs
  obtain ⟨i, -, hij, t', c', seed', ch, wire', j₁, i₁, src', ht', hs', -, ho', -⟩ :=
    call_sealed N S O hreq hr hh hrec hu hhandle
  -- the session of the call is the session of the response
  obtain ⟨-, rfl⟩ := ho.of_session hr ho'
  obtain ⟨-, -, -, rfl, -⟩ := ho.unique hr hh ho'
  exact ⟨req, j, i, by omega, ⟨hij, ⟨u, n, j₁, i₁, src', seed, hu, hhandle, ho'⟩,
    ⟨t', ch.sealer, wire', ht', hs'⟩⟩, rfl⟩

end Obfs.Udp

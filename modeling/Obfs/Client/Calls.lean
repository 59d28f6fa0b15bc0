import Obfs.Client.Correlation
import Obfs.Lib.Correspondence

/-! What the request calls of a client hand to the pump over a whole run: only
their own request, once more with every retry, and no more often than the link
allows. A call whose responses all answer requests of the same client then
returns the answer to its own. -/
namespace Obfs.Client
open Async Broadcast Trace
variable {C : Core} {p : Params C}

def queuedBy (c : Nat) (s : Transport p) : List (Envelope C) :=
  s.outbound.filterMap fun q => if q.origin = .request c then some q.env else none

def TransportEffect.taken? (c : Nat) : TransportEffect C → Option (Envelope C)
  | .took origin env => if origin = .request c then some env else none
  | _ => none

def takenBy (c : Nat) (t : TransportStep p) : List (Envelope C) :=
  t.out.filterMap (TransportEffect.taken? c)

def handed (c : Nat) (h : List (TransportStep p)) (s : Transport p) : List (Envelope C) :=
  gather (takenBy c) h ++ queuedBy c s

variable (p) in
/-- The last retry of a call; a link that does not retry has only attempt 0. -/
def lastRetry : Nat := p.link.maxRetries.getD 0

def CallPhase.attempt : CallPhase C → Option Nat
  | .start retry => some retry
  | .inserted retry _ => some retry
  | .awaiting retry _ => some retry
  | .expired retry _ => some retry
  | _ => none

variable (p) in
/-- How often a call in this phase may have handed over its request. -/
def CallPhase.budget : CallPhase C → Nat
  | .start retry => retry
  | .inserted retry _ => retry
  | .awaiting retry _ => retry + 1
  | .expired retry _ => retry + 1
  | _ => lastRetry p + 1

def CallPhase.hasExpired : CallPhase C → Bool
  | .expired _ _ => true
  | _ => false

variable (p) in
/-- The envelopes are all the call's own request, and within its budget. -/
structure Sends (envs : List (Envelope C)) (call : Call C) : Prop where
  own : ∀ env ∈ envs, env = .request call.req
  count : envs.length ≤ call.phase.budget p
  attempt : ∀ retry, call.phase.attempt = some retry → retry ≤ lastRetry p
  expiring : call.phase.hasExpired = true → p.link.maxRetries ≠ none

theorem Sends.length_le {envs : List (Envelope C)} {call : Call C} (h : Sends p envs call) :
    envs.length ≤ lastRetry p + 1 := by
  obtain ⟨-, hcount, hattempt, -⟩ := h
  obtain ⟨req, phase⟩ := call
  cases phase with
  | start retry | inserted retry _ =>
    have hle := hattempt retry rfl
    have hc : envs.length ≤ retry := hcount
    omega
  | awaiting retry _ | expired retry _ =>
    have hle := hattempt retry rfl
    have hc : envs.length ≤ retry + 1 := hcount
    omega
  | refused _ | returned _ => exact hcount

theorem Sends.ended {envs : List (Envelope C)} {req : C.Request} {phase phase' : CallPhase C}
    (h : Sends p envs ⟨req, phase⟩) (hb : phase'.budget p = lastRetry p + 1)
    (ha : phase'.attempt = none) (he : phase'.hasExpired = false) : Sends p envs ⟨req, phase'⟩ where
  own := h.own
  count := by
    show envs.length ≤ phase'.budget p
    rw [hb]
    exact h.length_le
  attempt := fun retry hr => absurd (ha.symm.trans hr) nofun
  expiring := fun hx => absurd (he.symm.trans hx) nofun

theorem Sends.same {envs : List (Envelope C)} {req : C.Request} {phase phase' : CallPhase C}
    (h : Sends p envs ⟨req, phase⟩) (hb : phase'.budget p = phase.budget p)
    (ha : phase'.attempt = phase.attempt)
    (he : phase'.hasExpired = true → p.link.maxRetries ≠ none) : Sends p envs ⟨req, phase'⟩ where
  own := h.own
  count := by
    show envs.length ≤ phase'.budget p
    rw [hb]
    exact h.count
  attempt := fun retry hr => h.attempt retry (ha.symm.trans hr)
  expiring := he

section Phase
variable (r : Requests C) (c d : Nat) (phase : CallPhase C)

theorem calls_setPhase_self {call : Call C} (hc : r.calls[c]? = some call) :
    (r.setPhase c phase).calls[c]? = some ⟨call.req, phase⟩ := by
  unfold Requests.setPhase
  rw [List.getElem?_modify_eq, hc]
  rfl

theorem calls_setPhase_ne (hcd : c ≠ d) : (r.setPhase c phase).calls[d]? = r.calls[d]? :=
  List.getElem?_modify_ne _ _ hcd

end Phase

variable (p) in
/-- What call c has handed over, by the phase it has reached; a call that has
not begun has handed over nothing. -/
def Within (c : Nat) (envs : List (Envelope C)) (calls : List (Call C)) : Prop :=
  match calls[c]? with
  | none => envs = []
  | some call => Sends p envs call

theorem within_some {c : Nat} {envs : List (Envelope C)} {calls : List (Call C)} {call : Call C}
    (hc : calls[c]? = some call) : Within p c envs calls ↔ Sends p envs call := by
  rw [Within, hc]

theorem within_setPhase {r : Requests C} {c d : Nat} {envs : List (Envelope C)} {call : Call C}
    {phase : CallPhase C} (hd : r.calls[d]? = some call)
    (hs : ∀ envs, Sends p envs call → Sends p envs ⟨call.req, phase⟩)
    (h : Within p c envs r.calls) : Within p c envs (r.setPhase d phase).calls := by
  by_cases hdc : d = c
  · subst hdc
    rw [within_some hd] at h
    rw [within_some (calls_setPhase_self r d phase hd)]
    exact hs envs h
  · unfold Within at h ⊢
    rw [calls_setPhase_ne r d c phase hdc]
    exact h

theorem within_begin {r : Requests C} {c : Nat} {envs : List (Envelope C)} (req : C.Request)
    (h : Within p c envs r.calls) : Within p c envs (r.begin req).calls := by
  have hcalls : (r.begin req).calls = r.calls ++ [⟨req, .start 0⟩] := rfl
  rcases Nat.lt_trichotomy c r.calls.length with hlt | heq | hgt
  · unfold Within at h ⊢
    rw [hcalls, List.getElem?_append_left hlt]
    exact h
  · have hnone : r.calls[c]? = none := List.getElem?_eq_none_iff.mpr (Nat.le_of_eq heq.symm)
    have hnew : (r.begin req).calls[c]? = some ⟨req, .start 0⟩ := by
      rw [hcalls, heq, List.getElem?_append_right (Nat.le_refl _), Nat.sub_self]
      rfl
    rw [Within, hnone] at h
    rw [within_some hnew, h]
    exact ⟨nofun, Nat.zero_le _, by simp [CallPhase.attempt], nofun⟩
  · have hnone : r.calls[c]? = none := List.getElem?_eq_none_iff.mpr (Nat.le_of_lt hgt)
    have hnone' : (r.begin req).calls[c]? = none := by
      rw [List.getElem?_eq_none_iff, hcalls, List.length_append, List.length_singleton]
      exact hgt
    rw [Within, hnone] at h
    rw [Within, hnone']
    exact h

theorem retried_lt {s s' : Transport p} {c retry slot : Nat} {req : C.Request}
    {o : List (TransportEffect C)} (hn : next s (.call c .remove) = some (s', o))
    (hc : s.requests.calls[c]? = some ⟨req, .expired retry slot⟩)
    (hc' : s'.requests.calls[c]? = some ⟨req, .start (retry + 1)⟩) :
    p.link.maxRetries ≠ some retry := by
  intro hm
  simp only [next, hc, callNext, hm, if_true] at hn
  cases hn
  rw [Transport.withRequests] at hc'
  dsimp only at hc'
  have hexp : (s.requests.discard (p.requestId req)).calls[c]? =
      some ⟨req, .expired retry slot⟩ := by
    rw [discard_calls, hc]
  rw [calls_setPhase_self _ _ _ hexp] at hc'
  cases hc'

theorem within_calls {s s' : Transport p} {e : TransportEvent p} {o : List (TransportEffect C)}
    {c : Nat} {envs : List (Envelope C)} (hn : next s e = some (s', o))
    (h : Within p c envs s.requests.calls) : Within p c envs s'.requests.calls := by
  cases next_case hn with
  | began hh => exact within_begin _ h
  | @inserted d retry req hc =>
    refine within_setPhase ((congrArg (·[d]?) (discard_calls _ _)).trans hc) ?_ ?_
    · exact fun envs hs => hs.same rfl rfl nofun
    · show Within p c envs (s.requests.discard _).calls
      rw [discard_calls]
      exact h
  | sent hc hr =>
    refine within_setPhase hc ?_ h
    intro envs hs
    exact ⟨hs.own, Nat.le_succ_of_le hs.count, hs.attempt, nofun⟩
  | refused hc hr => exact within_setPhase hc (fun envs hs => hs.ended rfl rfl rfl) h
  | @disconnected d slot req hc =>
    rw [← discard_calls s.requests (p.requestId req)] at hc h
    exact within_setPhase hc (fun envs hs => hs.ended rfl rfl rfl) h
  | woken hc hw hres => exact within_setPhase hc (fun envs hs => hs.ended rfl rfl rfl) h
  | @expired d retry slot last req hc hm =>
    refine within_setPhase hc (fun envs hs => hs.same rfl rfl ?_) h
    intro _ hnone
    rw [hm] at hnone
    cases hnone
  | @timedOut d retry slot req hc hm =>
    rw [← discard_calls s.requests (p.requestId req)] at hc h
    exact within_setPhase hc (fun envs hs => hs.ended rfl rfl rfl) h
  | @retried d retry slot req hc =>
    rw [← discard_calls s.requests (p.requestId req)] at hc h
    have hlt := retried_lt hn (by rwa [discard_calls] at hc) (calls_setPhase_self _ d _ hc)
    refine within_setPhase hc ?_ h
    intro envs hs
    refine ⟨hs.own, hs.count, ?_, nofun⟩
    intro next hnext
    cases hnext
    have hle := hs.attempt retry rfl
    obtain ⟨last, hlast⟩ := Option.ne_none_iff_exists'.mp (hs.expiring rfl)
    rw [lastRetry, hlast, Option.getD_some] at hle ⊢
    have hne : retry ≠ last := fun he => hlt (he ▸ hlast)
    omega
  | turn hp ht => cases ht <;> exact h
  | _ => exact h

theorem handed_step {s s' : Transport p} {e : TransportEvent p} {o : List (TransportEffect C)}
    (c : Nat) (h : List (TransportStep p)) (hn : next s e = some (s', o)) :
    handed c (h ++ [⟨s, e, o, s'⟩]) s' = handed c h s ∨
      ∃ req retry slot, s.requests.calls[c]? = some ⟨req, .inserted retry slot⟩ ∧
        s'.requests.calls[c]? = some ⟨req, .awaiting retry slot⟩ ∧
        handed c (h ++ [⟨s, e, o, s'⟩]) s' = handed c h s ++ [.request req] := by
  have hsame (h1 : takenBy c ⟨s, e, o, s'⟩ ++ queuedBy c s' = queuedBy c s) :
      handed c (h ++ [⟨s, e, o, s'⟩]) s' = handed c h s := by
    rw [handed, gather_snoc, List.append_assoc, h1]
    rfl
  cases next_case hn with
  | @sent d retry slot req hc hr =>
    by_cases hdc : d = c
    · subst hdc
      refine Or.inr ⟨req, retry, slot, hc, calls_setPhase_self _ _ _ hc, ?_⟩
      rw [handed, gather_snoc]
      simp [handed, takenBy, TransportEffect.taken?, queuedBy, Transport.enqueue,
        Transport.withRequests]
    · left
      apply hsame
      simp [takenBy, queuedBy, Transport.enqueue, Transport.withRequests, hdc]
  | subscribed hr =>
    left
    apply hsame
    simp [takenBy, queuedBy, Transport.enqueue]
  | turn hp ht =>
    left
    apply hsame
    cases ht with
    | @took _ q rest hq ha =>
      by_cases hc : q.origin = .request c <;>
        simp [takenBy, TransportEffect.taken?, queuedBy, hq, hc]
    | @matched i link resp slot hi hl =>
      cases hw : s.requests.waiters[slot]? <;> simp [takenBy, TransportEffect.taken?, queuedBy]
    | _ => rfl
  | _ => exact Or.inl (hsame rfl)

/-- Over a whole run a call hands over only its own request, and at most once
more than the link retries. -/
theorem handed_within {link : p.link.State} {h : List (TransportStep p)} {s : Transport p}
    (hr : TransportRun p link h s) (c : Nat) : Within p c (handed c h s) s.requests.calls := by
  have h0 : Within p c (handed c [] (Transport.init p link))
      (Transport.init p link).requests.calls := rfl
  refine hr.induct (I := fun h s => Within p c (handed c h s) s.requests.calls) h0 ?_
  intro h s e s' o _ ih hn
  have hkeep := within_calls hn ih
  rcases handed_step c h hn with heq | ⟨req, retry, slot, hc, hc', heq⟩
  · rw [heq]
    exact hkeep
  · rw [within_some hc] at ih
    rw [heq, within_some hc']
    refine ⟨?_, ?_, ih.attempt, nofun⟩
    · intro env henv
      rcases List.mem_append.mp henv with henv | henv
      · exact ih.own env henv
      · exact List.mem_singleton.mp henv
    · rw [List.length_append]
      exact Nat.succ_le_succ ih.count

theorem taken_length_le {link : p.link.State} {h : List (TransportStep p)} {s : Transport p}
    (hr : TransportRun p link h s) (c : Nat) :
    (gather (takenBy c) h).length ≤ lastRetry p + 1 := by
  have hw := handed_within hr c
  have hle : (handed c h s).length ≤ lastRetry p + 1 := by
    cases hc : s.requests.calls[c]? with
    | none =>
      rw [Within, hc] at hw
      rw [hw]
      exact Nat.zero_le _
    | some call => exact ((within_some hc).mp hw).length_le
  rw [handed, List.length_append] at hle
  omega

theorem mem_taken {o : List (TransportEffect C)} {c : Nat} {env : Envelope C} :
    env ∈ o.filterMap (TransportEffect.taken? c) ↔
      TransportEffect.took (.request c) env ∈ o := by
  rw [List.mem_filterMap]
  constructor
  · rintro ⟨x, hx, he⟩
    unfold TransportEffect.taken? at he
    split at he
    · split at he
      · rename_i ho
        cases he
        rw [← ho]
        exact hx
      · cases he
    · cases he
  · intro hx
    exact ⟨_, hx, by simp [TransportEffect.taken?]⟩

theorem queued_request {link : p.link.State} {h : List (TransportStep p)} {s : Transport p}
    (hr : TransportRun p link h s) :
    ∀ q ∈ s.outbound, ∀ req, q.env = .request req → ∃ c, q.origin = .request c := by
  refine hr.invariant
    (I := fun s => ∀ q ∈ s.outbound, ∀ req, q.env = .request req → ∃ c, q.origin = .request c)
    nofun ?_
  intro s e s' o ih hn
  cases next_case hn with
  | @sent c retry slot req hc hr =>
    intro q hq req' he
    rcases List.mem_append.mp hq with hq | hq
    · exact ih q hq req' he
    · cases List.mem_singleton.mp hq
      exact ⟨c, rfl⟩
  | subscribed hr =>
    intro q hq req' he
    rcases List.mem_append.mp hq with hq | hq
    · exact ih q hq req' he
    · cases List.mem_singleton.mp hq
      cases he
  | turn hp ht =>
    cases ht with
    | took hq ha =>
      intro q hmem
      exact ih q (by rw [hq]; exact List.mem_cons_of_mem _ hmem)
    | _ => exact ih
  | _ => exact ih

theorem took_head {s s' : Transport p} {e : TransportEvent p} {o : List (TransportEffect C)}
    {origin : Origin} {env : Envelope C} (hn : next s e = some (s', o))
    (h : TransportEffect.took origin env ∈ o) : ⟨origin, env⟩ ∈ s.outbound := by
  cases next_case hn with
  | turn hp ht =>
    cases ht with
    | took hq ha =>
      simp only [List.mem_cons, TransportEffect.took.injEq, reduceCtorEq, List.not_mem_nil,
        or_false] at h
      obtain ⟨rfl, rfl⟩ := h
      rw [hq]
      exact List.mem_cons_self
    | matched hi hl => simp at h
    | _ => simp at h
  | _ => simp at h

theorem took_request {link : p.link.State} {h : List (TransportStep p)} {s : Transport p}
    (hr : TransportRun p link h s) {i : Nat} {t : TransportStep p} (ht : At h i t)
    {origin : Origin} {req : C.Request}
    (hm : TransportEffect.took origin (.request req) ∈ t.out) :
    ∃ c call, origin = .request c ∧ s.requests.calls[c]? = some call ∧ call.req = req := by
  obtain ⟨hpre, hn⟩ := hr.step ht
  obtain ⟨c, hc⟩ := queued_request hpre _ (took_head hn hm) req rfl
  cases hc
  have hmem : Envelope.request req ∈ handed c h s :=
    List.mem_append_left _ (mem_gather.mpr ⟨i, t, ht, mem_taken.mpr hm⟩)
  have hw := handed_within hr c
  cases hcall : s.requests.calls[c]? with
  | none =>
    rw [Within, hcall] at hw
    rw [hw] at hmem
    cases hmem
  | some call =>
    have hown := ((within_some hcall).mp hw).own _ hmem
    exact ⟨c, call, rfl, hcall, (Envelope.request.inj hown).symm⟩

theorem returned_filled {link : p.link.State} {h : List (TransportStep p)} {s s' : Transport p}
    {e : TransportEvent p} {o : List (TransportEffect C)} (hr : TransportRun p link h s)
    (hn : next s e = some (s', o)) {c : Nat} {resp : C.Response}
    (hret : TransportEffect.returned c (.ok resp) ∈ o) :
    ∃ slot : Nat, s.requests.waiters[slot]? = some ⟨c, .filled resp⟩ := by
  obtain ⟨req, retry, slot, d, hc, hw, -⟩ := returned_ok hn hret
  obtain ⟨cell, hw'⟩ := (registered hr).current (slotOf_of_call _ c hc)
  cases hw.symm.trans hw'
  exact ⟨slot, hw⟩

def Requests.reqOf (r : Requests C) (c : Nat) : Option C.Request := (r.calls[c]?).map Call.req

variable (p) in
def Requests.NeverReused (r : Requests C) : Prop :=
  (r.calls.map fun call => p.requestId call.req).Nodup

theorem Requests.NeverReused.unique {r : Requests C} (hu : r.NeverReused p) {c d : Nat}
    {req req' : C.Request} (hc : r.reqOf c = some req) (hd : r.reqOf d = some req')
    (hid : p.requestId req = p.requestId req') : c = d := by
  have hat {c : Nat} {req : C.Request} (hc : r.reqOf c = some req) :
      (r.calls.map fun call => p.requestId call.req)[c]? = some (p.requestId req) := by
    obtain ⟨call, hcall, rfl⟩ := Option.map_eq_some_iff.mp hc
    rw [List.getElem?_map, hcall]
    rfl
  have hc' := hat hc
  have hd' := hat hd
  rw [← hid] at hd'
  exact (List.getElem?_inj (List.getElem?_eq_some_iff.mp hc').1 hu).mp (hc'.trans hd'.symm)

/-- If every response that the pump receives is the service's answer to some
request that the pump has taken, and answers carry the id of their request,
then the response in a call's channel is the answer to its own request. -/
theorem own_answer {link : p.link.State} {h : List (TransportStep p)} {s : Transport p}
    (hr : TransportRun p link h s) (handle : C.Request → C.Response)
    (hid : ∀ req, p.responseId (handle req) = p.requestId req) (hu : s.requests.NeverReused p)
    {Q : C.Request → Prop}
    (hserved : ∀ u ∈ h, ∀ resp, TransportEffect.received (.response resp) ∈ u.out →
      ∃ req, resp = handle req ∧ Q req ∧
        ∃ t ∈ h, ∃ origin, TransportEffect.took origin (.request req) ∈ t.out)
    {c slot : Nat} {resp : C.Response} (hw : s.requests.waiters[slot]? = some ⟨c, .filled resp⟩) :
    ∃ req, s.requests.reqOf c = some req ∧ resp = handle req ∧ Q req := by
  obtain ⟨j, u, hu', -, hrec, -⟩ := taken_of_filled hr (Or.inl ⟨c, hw⟩)
  obtain ⟨req, rfl, hQ, t, ht, origin, htook⟩ := hserved u hu'.mem resp hrec
  obtain ⟨i, hi⟩ := List.mem_iff_getElem?.mp ht
  obtain ⟨d, call, -, hd, rfl⟩ := took_request hr hi htook
  -- the call that was answered has the id of the response, and so has this one
  obtain ⟨call', hc, hcid⟩ := Option.map_eq_some_iff.mp ((registered hr).filled hw)
  have hreq : s.requests.reqOf c = some call'.req := by
    rw [Requests.reqOf, hc]
    rfl
  have hreq' : s.requests.reqOf d = some call.req := by
    rw [Requests.reqOf, hd]
    rfl
  have hcd : c = d := hu.unique hreq hreq' (hcid.trans (hid _))
  subst hcd
  exact ⟨call.req, hreq', rfl, hQ⟩

end Obfs.Client

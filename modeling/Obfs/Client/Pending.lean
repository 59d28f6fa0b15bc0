import Obfs.Client.Steps

/-! The invariant of the pending map: every stored sender belongs to a call that
is in flight under the id it is stored for, and the senders that the pump has
taken out are no longer stored. -/
namespace Obfs.Client
open Async Broadcast Trace
variable {C : Core} {p : Params C}

def CallPhase.slot : CallPhase C → Option Nat
  | .inserted _ slot => some slot
  | .refused slot => some slot
  | .awaiting _ slot => some slot
  | .expired _ slot => some slot
  | .start _ => none
  | .returned _ => none

def PumpPhase.holds : PumpPhase C → List Nat
  | .delivering slot _ => [slot]
  | .drained senders => senders
  | _ => []

def Requests.slotOf (r : Requests C) (c : Nat) : Option Nat :=
  (r.calls[c]?).bind fun call => call.phase.slot

variable (p) in
def Requests.idOf (r : Requests C) (c : Nat) : Option String :=
  (r.calls[c]?).map fun call => p.requestId call.req

variable (p) in
structure Registered (pump : PumpPhase C) (r : Requests C) : Prop where
  current : ∀ {c slot : Nat}, r.slotOf c = some slot → ∃ cell, r.waiters[slot]? = some ⟨c, cell⟩
  stored : ∀ {id : String} {slot : Nat}, r.pending.lookup id = some slot →
    ∃ c, r.waiters[slot]? = some ⟨c, .waiting⟩ ∧ r.slotOf c = some slot ∧ r.idOf p c = some id
  held : ∀ {slot : Nat}, slot ∈ pump.holds →
    slot < r.waiters.length ∧ ∀ id, r.pending.lookup id ≠ some slot
  delivering : ∀ {slot : Nat} {resp : C.Response}, pump = .delivering slot resp →
    ∃ c cell, r.waiters[slot]? = some ⟨c, cell⟩ ∧ r.idOf p c = some (p.responseId resp)
  filled : ∀ {slot c : Nat} {resp : C.Response}, r.waiters[slot]? = some ⟨c, .filled resp⟩ →
    r.idOf p c = some (p.responseId resp)

theorem Waiter.drop_eq_filled {w : Waiter C} {c : Nat} {resp : C.Response}
    (h : w.drop = ⟨c, .filled resp⟩) : w = ⟨c, .filled resp⟩ := by
  obtain ⟨d, cell⟩ := w
  obtain ⟨hc, hcell⟩ := Waiter.mk.inj h
  rw [Waiter.mk.injEq]
  exact ⟨hc, Oneshot.drop_eq_filled.mp hcell⟩

theorem Waiter.fill_eq_filled {w : Waiter C} {c : Nat} {resp resp' : C.Response}
    (h : w.fill resp = ⟨c, .filled resp'⟩) :
    w = ⟨c, .filled resp'⟩ ∨ (w.call = c ∧ resp' = resp) := by
  obtain ⟨d, cell⟩ := w
  obtain ⟨hc, hcell⟩ := Waiter.mk.inj h
  cases Oneshot.fill_eq_filled hcell with
  | inl he =>
    left
    rw [Waiter.mk.injEq]
    exact ⟨hc, he⟩
  | inr he => exact Or.inr ⟨hc, he.2⟩

section Fields
variable (r : Requests C) (c d : Nat) (phase : CallPhase C) (id : String)

@[simp] theorem discard_calls : (r.discard id).calls = r.calls := by
  unfold Requests.discard
  split <;> rfl

@[simp] theorem idOf_setPhase : (r.setPhase c phase).idOf p d = r.idOf p d := by
  unfold Requests.idOf Requests.setPhase
  rw [List.getElem?_modify]
  by_cases hcd : c = d
  · cases r.calls[d]? <;> simp [hcd]
  · simp [hcd]

theorem slotOf_setPhase_ne (hcd : d ≠ c) : (r.setPhase c phase).slotOf d = r.slotOf d := by
  unfold Requests.slotOf Requests.setPhase
  rw [List.getElem?_modify]
  simp [hcd.symm]

theorem slotOf_setPhase_self {call : Call C} (hc : r.calls[c]? = some call) :
    (r.setPhase c phase).slotOf c = phase.slot := by
  unfold Requests.slotOf Requests.setPhase
  rw [List.getElem?_modify]
  simp [hc]

theorem slotOf_of_call {call : Call C} (hc : r.calls[c]? = some call) :
    r.slotOf c = call.phase.slot := by
  simp [Requests.slotOf, hc]

theorem idOf_of_call {call : Call C} (hc : r.calls[c]? = some call) :
    r.idOf p c = some (p.requestId call.req) := by
  simp [Requests.idOf, hc]

@[simp] theorem slotOf_discard : (r.discard id).slotOf c = r.slotOf c := by
  simp [Requests.slotOf]

@[simp] theorem idOf_discard : (r.discard id).idOf p c = r.idOf p c := by
  simp [Requests.idOf]

theorem lookup_discard_self : (r.discard id).pending.lookup id = none := by
  unfold Requests.discard
  cases hl : r.pending.lookup id with
  | none => exact hl
  | some slot => exact AList.lookup_erase id r.pending

theorem lookup_discard_ne {id' : String} (h : id' ≠ id) :
    (r.discard id).pending.lookup id' = r.pending.lookup id' := by
  unfold Requests.discard
  cases r.pending.lookup id with
  | none => rfl
  | some slot => exact AList.lookup_erase_ne h

theorem waiters_discard_of_ne {slot : Nat} (h : r.pending.lookup id ≠ some slot) :
    (r.discard id).waiters[slot]? = r.waiters[slot]? := by
  unfold Requests.discard
  cases hl : r.pending.lookup id with
  | none => rfl
  | some slot' =>
    have hne : slot' ≠ slot := fun he => h (by rw [hl, he])
    rw [List.getElem?_modify]
    simp [hne]

@[simp] theorem length_waiters_discard : (r.discard id).waiters.length = r.waiters.length := by
  unfold Requests.discard
  cases r.pending.lookup id with
  | none => rfl
  | some slot => exact List.length_modify ..

theorem waiters_discard {slot : Nat} {w : Waiter C} (h : (r.discard id).waiters[slot]? = some w) :
    ∃ w0, r.waiters[slot]? = some w0 ∧ (w = w0 ∨ w = w0.drop) := by
  by_cases hl : r.pending.lookup id = some slot
  · unfold Requests.discard at h
    rw [hl] at h
    simp only [List.getElem?_modify_eq] at h
    obtain ⟨w0, hw0, hd⟩ := Option.map_eq_some_iff.mp h
    exact ⟨w0, hw0, Or.inr hd.symm⟩
  · rw [waiters_discard_of_ne r id hl] at h
    exact ⟨w, h, Or.inl rfl⟩

theorem filled_discard {slot : Nat} {resp : C.Response}
    (h : (r.discard id).waiters[slot]? = some ⟨c, .filled resp⟩) :
    r.waiters[slot]? = some ⟨c, .filled resp⟩ := by
  obtain ⟨w0, hw0, hor⟩ := waiters_discard r id h
  cases hor with
  | inl he => rw [hw0, he]
  | inr he => rw [hw0, Waiter.drop_eq_filled he.symm]

theorem filled_new {slot : Nat} {ws : List (Waiter C)} {resp : C.Response}
    (h : (ws ++ [⟨d, .waiting⟩])[slot]? = some ⟨c, .filled resp⟩) :
    ws[slot]? = some ⟨c, .filled resp⟩ := by
  by_cases hlt : slot < ws.length
  · rw [List.getElem?_append_left hlt] at h
    exact h
  · rw [List.getElem?_append_right (Nat.not_lt.mp hlt)] at h
    cases hk : slot - ws.length with
    | zero => rw [hk] at h; cases h
    | succ k => rw [hk] at h; cases h

theorem filled_drop {slot s : Nat} {ws : List (Waiter C)} {resp : C.Response}
    (h : (ws.modify s Waiter.drop)[slot]? = some ⟨c, .filled resp⟩) :
    ws[slot]? = some ⟨c, .filled resp⟩ := by
  rw [List.getElem?_modify] at h
  by_cases hs : s = slot
  · obtain ⟨w, hw, hd⟩ := Option.map_eq_some_iff.mp h
    rw [if_pos hs] at hd
    rw [hw, Waiter.drop_eq_filled hd]
  · simpa [hs] using h

theorem filled_dropSenders {slot : Nat} {senders : List Nat} {resp : C.Response}
    (h : (r.dropSenders senders).waiters[slot]? = some ⟨c, .filled resp⟩) :
    r.waiters[slot]? = some ⟨c, .filled resp⟩ := by
  unfold Requests.dropSenders at h
  dsimp only at h
  generalize r.waiters = ws at h ⊢
  induction senders generalizing ws with
  | nil => exact h
  | cons s senders ih => exact filled_drop c (ih _ h)

theorem filled_fill {slot s : Nat} {resp resp' : C.Response}
    (h : (r.fill s resp').waiters[slot]? = some ⟨c, .filled resp⟩) :
    r.waiters[slot]? = some ⟨c, .filled resp⟩ ∨
      (slot = s ∧ resp = resp' ∧ ∃ cell, r.waiters[slot]? = some ⟨c, cell⟩) := by
  unfold Requests.fill at h
  rw [List.getElem?_modify] at h
  by_cases hs : s = slot
  · obtain ⟨w, hw, hf⟩ := Option.map_eq_some_iff.mp h
    rw [if_pos hs] at hf
    cases Waiter.fill_eq_filled hf with
    | inl he => exact Or.inl (by rw [hw, he])
    | inr he => exact Or.inr ⟨hs.symm, he.2, w.cell, by rw [hw, ← he.1]⟩
  · left
    simpa [hs] using h

end Fields

namespace Registered
variable {pump : PumpPhase C} {r : Requests C}

theorem lookup_inj (hi : Registered p pump r) {id id' : String} {slot : Nat}
    (h : r.pending.lookup id = some slot) (h' : r.pending.lookup id' = some slot) : id = id' := by
  obtain ⟨c, hw, -, hid⟩ := hi.stored h
  obtain ⟨c', hw', -, hid'⟩ := hi.stored h'
  rw [hw] at hw'
  cases hw'
  rw [hid] at hid'
  exact Option.some.inj hid'

theorem stored_id (hi : Registered p pump r) {c slot : Nat} {id : String}
    (hs : r.slotOf c = some slot) (h : r.pending.lookup id = some slot) : r.idOf p c = some id := by
  obtain ⟨d, hw, -, hid⟩ := hi.stored h
  obtain ⟨cell, hw'⟩ := hi.current hs
  rw [hw] at hw'
  cases hw'
  exact hid

theorem congr (hi : Registered p pump r) {r' : Requests C} (hs : ∀ c, r'.slotOf c = r.slotOf c)
    (hid : ∀ c id, r.idOf p c = some id → r'.idOf p c = some id) (hp : r'.pending = r.pending)
    (hw : r'.waiters = r.waiters) : Registered p pump r' := by
  obtain ⟨current, stored, held, delivering, filled⟩ := hi
  refine ⟨?_, ?_, ?_, ?_, ?_⟩
  · intro c slot h
    rw [hs] at h
    rw [hw]
    exact current h
  · intro id slot h
    rw [hp] at h
    obtain ⟨c, h1, h2, h3⟩ := stored h
    exact ⟨c, by rw [hw]; exact h1, by rw [hs]; exact h2, hid c id h3⟩
  · intro slot h
    rw [hw, hp]
    exact held h
  · intro slot resp h
    obtain ⟨c, cell, h1, h2⟩ := delivering h
    exact ⟨c, cell, by rw [hw]; exact h1, hid c _ h2⟩
  · intro slot c resp h
    rw [hw] at h
    exact hid c _ (filled h)

theorem begin (hi : Registered p pump r) (req : C.Request) :
    Registered p pump (r.begin req) := by
  have hget : ∀ c, (r.begin req).calls[c]? =
      if c < r.calls.length then r.calls[c]? else [⟨req, .start 0⟩][c - r.calls.length]? := by
    intro c
    exact List.getElem?_append
  refine hi.congr ?_ ?_ rfl rfl
  · intro c
    unfold Requests.slotOf
    rw [hget]
    by_cases hc : c < r.calls.length
    · simp [hc]
    · rw [if_neg hc, List.getElem?_eq_none_iff.mpr (Nat.not_lt.mp hc)]
      cases c - r.calls.length <;> rfl
  · intro c id hid
    unfold Requests.idOf at hid ⊢
    have hc : c < r.calls.length := by
      by_contra hc
      rw [List.getElem?_eq_none_iff.mpr (Nat.not_lt.mp hc)] at hid
      cases hid
    rw [hget, if_pos hc]
    exact hid

theorem setPhase_same (hi : Registered p pump r) {c : Nat} {call : Call C} {phase : CallPhase C}
    (hc : r.calls[c]? = some call) (hs : phase.slot = call.phase.slot) :
    Registered p pump (r.setPhase c phase) := by
  refine hi.congr ?_ ?_ rfl rfl
  · intro d
    by_cases hd : d = c
    · rw [hd, slotOf_setPhase_self r c phase hc, slotOf_of_call r c hc, hs]
    · exact slotOf_setPhase_ne r c d phase hd
  · intro d id hid
    rw [idOf_setPhase]
    exact hid

theorem setPhase_free (hi : Registered p pump r) {c : Nat} {call : Call C} {phase : CallPhase C}
    (hc : r.calls[c]? = some call) (hs : phase.slot = none)
    (hfree : ∀ id slot, call.phase.slot = some slot → r.pending.lookup id ≠ some slot) :
    Registered p pump (r.setPhase c phase) := by
  have hself := slotOf_setPhase_self r c phase hc
  refine ⟨?_, ?_, hi.held, ?_, ?_⟩
  · intro d slot h
    by_cases hd : d = c
    · rw [hd, hself, hs] at h
      cases h
    · rw [slotOf_setPhase_ne r c d phase hd] at h
      exact hi.current h
  · intro id slot h
    obtain ⟨d, h1, h2, h3⟩ := hi.stored h
    have hd : d ≠ c := by
      intro hd
      rw [hd, slotOf_of_call r c hc] at h2
      exact hfree id slot h2 h
    refine ⟨d, h1, ?_, ?_⟩
    · rw [slotOf_setPhase_ne r c d phase hd]
      exact h2
    · rw [idOf_setPhase]
      exact h3
  · intro slot resp h
    obtain ⟨d, cell, h1, h2⟩ := hi.delivering h
    exact ⟨d, cell, h1, by rw [idOf_setPhase]; exact h2⟩
  · intro slot d resp h
    rw [idOf_setPhase]
    exact hi.filled h

theorem discard (hi : Registered p pump r) (id : String) : Registered p pump (r.discard id) := by
  refine ⟨?_, ?_, ?_, ?_, ?_⟩
  · intro c slot h
    rw [slotOf_discard] at h
    obtain ⟨cell, hw⟩ := hi.current h
    have hlt : slot < (r.discard id).waiters.length := by
      rw [length_waiters_discard]
      exact (List.getElem?_eq_some_iff.mp hw).1
    obtain ⟨w0, hw0, hor⟩ := waiters_discard r id (List.getElem?_eq_getElem hlt)
    rw [hw] at hw0
    cases hw0
    rw [List.getElem?_eq_getElem hlt]
    cases hor with
    | inl he => exact ⟨cell, by rw [he]⟩
    | inr he => exact ⟨cell.drop, by rw [he]; rfl⟩
  · intro id' slot h
    have hne : id' ≠ id := by
      intro he
      rw [he, lookup_discard_self] at h
      cases h
    rw [lookup_discard_ne r id hne] at h
    obtain ⟨c, h1, h2, h3⟩ := hi.stored h
    refine ⟨c, ?_, by simpa using h2, by simpa using h3⟩
    rw [waiters_discard_of_ne r id fun he => hne (hi.lookup_inj h he)]
    exact h1
  · intro slot h
    obtain ⟨h1, h2⟩ := hi.held h
    refine ⟨by simpa using h1, ?_⟩
    intro id'
    by_cases he : id' = id
    · rw [he, lookup_discard_self]
      nofun
    · rw [lookup_discard_ne r id he]
      exact h2 id'
  · intro slot resp h
    obtain ⟨c, cell, h1, h2⟩ := hi.delivering h
    have hmem : slot ∈ pump.holds := by
      rw [h]
      exact List.mem_singleton.mpr rfl
    have hns := (hi.held hmem).2 id
    refine ⟨c, cell, ?_, by simpa using h2⟩
    rw [waiters_discard_of_ne r id hns]
    exact h1
  · intro slot c resp h
    rw [idOf_discard]
    exact hi.filled (filled_discard r c id h)

/-- A new channel is made for a call that has none, and stored under its id. -/
theorem grow (hi : Registered p pump r) {r' : Requests C} {c : Nat} {id : String}
    (hfree : r.slotOf c = none) (hid : r.idOf p c = some id)
    (hself : r'.slotOf c = some r.waiters.length) (hs : ∀ d, d ≠ c → r'.slotOf d = r.slotOf d)
    (hids : ∀ d, r'.idOf p d = r.idOf p d)
    (hp : r'.pending = r.pending.insert id r.waiters.length)
    (hw : r'.waiters = r.waiters ++ [⟨c, .waiting⟩]) : Registered p pump r' := by
  have hold {slot : Nat} {w : Waiter C} (h : r.waiters[slot]? = some w) :
      r'.waiters[slot]? = some w := by
    rw [hw, List.getElem?_append_left (List.getElem?_eq_some_iff.mp h).1]
    exact h
  have hnew : r'.waiters[r.waiters.length]? = some ⟨c, .waiting⟩ := by
    rw [hw, List.getElem?_concat_length]
  refine ⟨?_, ?_, ?_, ?_, ?_⟩
  · intro d slot h
    by_cases hd : d = c
    · rw [hd, hself] at h
      cases h
      exact ⟨.waiting, hd ▸ hnew⟩
    · rw [hs d hd] at h
      obtain ⟨cell, hw⟩ := hi.current h
      exact ⟨cell, hold hw⟩
  · intro id' slot h
    rw [hp] at h
    by_cases he : id' = id
    · rw [he, AList.lookup_insert] at h
      cases h
      exact ⟨c, hnew, hself, by rw [hids, hid, he]⟩
    · rw [AList.lookup_insert_ne he] at h
      obtain ⟨d, h1, h2, h3⟩ := hi.stored h
      -- c had no channel before
      have hd : d ≠ c := by
        intro hd
        rw [hd, hfree] at h2
        cases h2
      exact ⟨d, hold h1, by rw [hs d hd]; exact h2, by rw [hids]; exact h3⟩
  · intro slot h
    obtain ⟨h1, h2⟩ := hi.held h
    refine ⟨by rw [hw, List.length_append]; omega, ?_⟩
    intro id'
    rw [hp]
    by_cases he : id' = id
    · rw [he, AList.lookup_insert]
      intro hslot
      have := Option.some.inj hslot
      omega
    · rw [AList.lookup_insert_ne he]
      exact h2 id'
  · intro slot resp h
    obtain ⟨d, cell, h1, h2⟩ := hi.delivering h
    exact ⟨d, cell, hold h1, by rw [hids]; exact h2⟩
  · intro slot d resp h
    rw [hw] at h
    rw [hids]
    exact hi.filled (filled_new d c h)

theorem insert (hi : Registered p pump r) {c retry : Nat} {req : C.Request}
    (hc : r.calls[c]? = some ⟨req, .start retry⟩) :
    Registered p pump (r.insert (p.requestId req) c retry) := by
  have hd := hi.discard (p.requestId req)
  have hc' : (r.discard (p.requestId req)).calls[c]? = some ⟨req, .start retry⟩ := by
    rw [discard_calls]
    exact hc
  have hlen := length_waiters_discard r (p.requestId req)
  unfold Requests.insert
  generalize r.discard (p.requestId req) = r1 at hd hc' hlen
  simp only
  rw [← hlen]
  refine hd.grow (slotOf_of_call r1 c hc') (idOf_of_call r1 c hc') ?_ ?_ ?_ rfl rfl
  · exact slotOf_setPhase_self _ c _ hc'
  · intro d hdc
    exact slotOf_setPhase_ne _ c d _ hdc
  · intro d
    exact idOf_setPhase _ c d _

theorem claim (hi : Registered p .looping r) {resp : C.Response} {slot : Nat}
    (hl : r.pending.lookup (p.responseId resp) = some slot) :
    Registered p (.delivering slot resp)
      { r with pending := r.pending.erase (p.responseId resp) } := by
  have hsub : ∀ {id s}, (r.pending.erase (p.responseId resp)).lookup id = some s →
      id ≠ p.responseId resp ∧ r.pending.lookup id = some s := by
    intro id s h
    by_cases he : id = p.responseId resp
    · rw [he, AList.lookup_erase] at h
      cases h
    · rw [AList.lookup_erase_ne he] at h
      exact ⟨he, h⟩
  obtain ⟨c, hw, -, hid⟩ := hi.stored hl
  refine ⟨hi.current, ?_, ?_, ?_, hi.filled⟩
  · intro id s h
    exact hi.stored (hsub h).2
  · intro s h
    rw [List.mem_singleton.mp h]
    refine ⟨(List.getElem?_eq_some_iff.mp hw).1, ?_⟩
    intro id h'
    obtain ⟨hne, h'⟩ := hsub h'
    exact hne (hi.lookup_inj h' hl)
  · intro s resp' h
    cases h
    exact ⟨c, .waiting, hw, hid⟩

theorem fill {slot : Nat} {resp : C.Response} (hi : Registered p (.delivering slot resp) r) :
    Registered p .looping (r.fill slot resp) := by
  have hmem : slot ∈ (PumpPhase.delivering slot resp).holds := List.mem_singleton.mpr rfl
  have hheld := (hi.held hmem).2
  have hget : ∀ s, (r.fill slot resp).waiters[s]? =
      if slot = s then (r.waiters[s]?).map (Waiter.fill resp) else r.waiters[s]? := by
    intro s
    unfold Requests.fill
    rw [List.getElem?_modify]
    by_cases hs : slot = s <;> simp [hs]
  refine ⟨?_, ?_, nofun, nofun, ?_⟩
  · intro c s h
    obtain ⟨cell, hw⟩ := hi.current h
    rw [hget, hw]
    by_cases hs : slot = s
    · exact ⟨cell.fill resp, by rw [if_pos hs]; rfl⟩
    · exact ⟨cell, by rw [if_neg hs]⟩
  · intro id s h
    obtain ⟨c, h1, h2, h3⟩ := hi.stored h
    have hs : slot ≠ s := by
      intro hs
      exact hheld id (hs ▸ h)
    exact ⟨c, by rw [hget, if_neg hs]; exact h1, h2, h3⟩
  · intro s c resp' h
    cases filled_fill r c h with
    | inl he => exact hi.filled he
    | inr he =>
      obtain ⟨hs, hresp, cell, hw⟩ := he
      obtain ⟨d, cell', hw', hid⟩ := hi.delivering rfl
      rw [← hs, hw] at hw'
      cases hw'
      rw [hresp]
      exact hid

theorem mem_senders {slot : Nat} (h : slot ∈ r.senders) :
    ∃ id, r.pending.lookup id = some slot := by
  obtain ⟨e, he, rfl⟩ := List.mem_map.mp h
  exact ⟨e.1, AList.mem_lookup_iff.mpr he⟩

theorem drain (hi : Registered p pump r) :
    Registered p (.drained r.senders) { r with pending := ∅ } := by
  have hempty : ∀ {id slot}, (∅ : AList fun _ : String => Nat).lookup id ≠ some slot := by
    intro id slot h
    rw [AList.lookup_empty] at h
    cases h
  refine ⟨hi.current, fun h => absurd h hempty, ?_, nofun, hi.filled⟩
  intro slot h
  obtain ⟨id, hl⟩ := mem_senders h
  obtain ⟨c, hw, -, -⟩ := hi.stored hl
  exact ⟨(List.getElem?_eq_some_iff.mp hw).1, fun id => hempty⟩

theorem dropSender (hi : Registered p .dropped r) {slot : Nat}
    (hfree : ∀ id, r.pending.lookup id ≠ some slot) :
    Registered p .dropped { r with waiters := r.waiters.modify slot Waiter.drop } := by
  have hget : ∀ s, (r.waiters.modify slot Waiter.drop)[s]? =
      if slot = s then (r.waiters[s]?).map Waiter.drop else r.waiters[s]? := by
    intro s
    rw [List.getElem?_modify]
    by_cases hs : slot = s <;> simp [hs]
  refine ⟨?_, ?_, nofun, nofun, ?_⟩
  · intro c s h
    obtain ⟨cell, hw⟩ := hi.current h
    simp only [hget, hw]
    by_cases hs : slot = s
    · exact ⟨cell.drop, by rw [if_pos hs]; rfl⟩
    · exact ⟨cell, by rw [if_neg hs]⟩
  · intro id s h
    obtain ⟨c, h1, h2, h3⟩ := hi.stored h
    have hs : slot ≠ s := fun hs => hfree id (hs ▸ h)
    exact ⟨c, by simp only [hget, if_neg hs]; exact h1, h2, h3⟩
  · intro s c resp h
    exact hi.filled (filled_drop c h)

theorem idle (hi : Registered p pump r) {pump' : PumpPhase C} (hp : pump'.holds = [])
    (hd : ∀ slot resp, pump' ≠ .delivering slot resp) : Registered p pump' r := by
  refine ⟨hi.current, hi.stored, ?_, fun h => absurd h (hd _ _), hi.filled⟩
  intro slot h
  rw [hp] at h
  cases h

theorem dropSenders {senders : List Nat} (hi : Registered p (.drained senders) r) :
    Registered p .dropped (r.dropSenders senders) := by
  have hfree : ∀ slot ∈ senders, ∀ id, r.pending.lookup id ≠ some slot :=
    fun slot h => (hi.held h).2
  have hi' : Registered p .dropped r := hi.idle rfl nofun
  clear hi
  unfold Requests.dropSenders
  induction senders generalizing r with
  | nil => exact hi'
  | cons slot senders ih =>
    have h1 := hi'.dropSender (hfree slot List.mem_cons_self)
    exact ih (r := { r with waiters := r.waiters.modify slot Waiter.drop })
      (fun s hs => hfree s (List.mem_cons_of_mem _ hs)) h1

theorem discarded_free (hi : Registered p pump r) {c slot : Nat} {call : Call C}
    (hc : r.calls[c]? = some call) (hs : call.phase.slot = some slot) (id : String) :
    (r.discard (p.requestId call.req)).pending.lookup id ≠ some slot := by
  intro h
  have hne : id ≠ p.requestId call.req := by
    intro he
    rw [he, lookup_discard_self] at h
    cases h
  rw [lookup_discard_ne _ _ hne] at h
  have hid := hi.stored_id ((slotOf_of_call r c hc).trans hs) h
  rw [idOf_of_call r c hc] at hid
  exact hne (Option.some.inj hid).symm

/-- A call that removes its entry and gives up its channel. -/
theorem discard_setPhase (hi : Registered p pump r) {c : Nat} {call : Call C} {phase : CallPhase C}
    (hc : r.calls[c]? = some call) (hs : phase.slot = none) :
    Registered p pump ((r.discard (p.requestId call.req)).setPhase c phase) := by
  have hc' : (r.discard (p.requestId call.req)).calls[c]? = some call := by
    rw [discard_calls]
    exact hc
  refine (hi.discard _).setPhase_free hc' hs ?_
  intro id slot hslot
  exact hi.discarded_free hc hslot id

theorem free_of_result (hi : Registered p pump r) {slot : Nat} {w : Waiter C}
    {res : Except (CoreError C) C.Response} (hw : r.waiters[slot]? = some w)
    (hres : awaitResult w.cell = some res) (id : String) : r.pending.lookup id ≠ some slot := by
  intro h
  obtain ⟨c, hw', -, -⟩ := hi.stored h
  rw [hw] at hw'
  cases hw'
  cases hres

end Registered

theorem TurnCase.registered {s s' : Transport p} {late : Bool} {out : p.link.Out}
    {inbound : Option p.link.In} {o : List (TransportEffect C)} (hp : s.pump = .looping)
    (ht : TurnCase s late out inbound s' o) (hi : Registered p s.pump s.requests) :
    Registered p s'.pump s'.requests := by
  cases ht with
  | took hq =>
    refine hi.idle ?_ ?_
    · dsimp only
      split <;> rfl
    · intro slot resp
      dsimp only
      split <;> nofun
  | readFailed _ => exact hi.idle rfl nofun
  | nothing _ => exact hi
  | unmatched _ _ => exact hi
  | matched _ hl =>
    rw [hp] at hi
    exact hi.claim hl
  | broadcast _ => exact hi
  | pinged _ => exact hi
  | inert _ => exact hi

theorem Registered.step {s s' : Transport p} {e : TransportEvent p} {o : List (TransportEffect C)}
    (hi : Registered p s.pump s.requests) (hn : next s e = some (s', o)) :
    Registered p s'.pump s'.requests := by
  cases next_case hn with
  | began hh => exact hi.begin _
  | inserted hc => exact hi.insert hc
  | sent hc hr => exact hi.setPhase_same hc rfl
  | refused hc hr => exact hi.setPhase_same hc rfl
  | disconnected hc => exact hi.discard_setPhase hc rfl
  | woken hc hw hres =>
    refine hi.setPhase_free hc rfl ?_
    intro id slot hs
    cases hs
    exact hi.free_of_result hw hres id
  | expired hc hm => exact hi.setPhase_same hc rfl
  | timedOut hc hm => exact hi.discard_setPhase hc rfl
  | retried hc => exact hi.discard_setPhase hc rfl
  | subscribed hr => exact hi
  | notSubscribed => exact hi
  | attached hn => exact hi
  | yielded hn hv => exact hi
  | lagged hn hv => exact hi
  | ended => exact hi
  | turn hp ht => exact ht.registered hp hi
  | delivered hp =>
    rw [hp] at hi
    exact hi.fill
  | down hp => exact hi.idle rfl nofun
  | drained hp => exact hi.drain
  | dropped hp =>
    rw [hp] at hi
    exact hi.dropSenders
  | finished hp => exact hi.idle rfl nofun
  | handleDropped hh hb => exact hi

/-- The invariant holds in every reachable state of a transport. -/
theorem registered {link : p.link.State} {h : List (TransportStep p)} {s : Transport p}
    (hr : TransportRun p link h s) : Registered p s.pump s.requests := by
  refine hr.invariant (I := fun s => Registered p s.pump s.requests) ?_ ?_
  · refine ⟨nofun, ?_, nofun, nofun, nofun⟩
    intro id slot hl
    rw [Transport.init, AList.lookup_empty] at hl
    cases hl
  · intro s e s' o hi hn
    exact hi.step hn

end Obfs.Client

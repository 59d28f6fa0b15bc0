import Obfs.Symbolic

/-! The symbolic encoding has the laws that both transports assume of serde_json:
what is decoded as a request, a response, an event or a subscription was encoded
as one. -/
namespace Obfs.Symbolic

theorem seqOf_counterBytes (n : UInt64) : seqOf (counterBytes n.toNat) = n := by
  have hn := n.toNat_lt
  apply UInt64.toNat.inj
  simp only [seqOf, counterBytes, List.map_cons, List.map_nil, List.foldl_cons, List.foldl_nil,
    Nat.toUInt64_eq, UInt64.toNat_ofNat', Nat.toUInt8_eq, UInt8.toNat_ofNat',
    Nat.shiftRight_eq_div_pow]
  omega

theorem fromSlice_event (ev : Event core) {json : Bytes}
    (hj : crates.toVec (.event ev) = .ok json) : crates.fromSlice json = .ok (.event ev) := by
  cases hj
  show Except.ok (Envelope.event ⟨ev.topic, seqOf (counterBytes ev.seq.toNat), ev.payload⟩) = _
  rw [seqOf_counterBytes]

theorem fromSlice_subscribe {topic : UInt8} {filter capability : Option UInt8} {json : Bytes}
    (hj : crates.toVec (.subscribe topic filter capability) = .ok json) :
    ∃ f c, crates.fromSlice json = .ok (.subscribe topic f c) := by
  cases hj
  cases filter <;> cases capability <;> exact ⟨_, _, rfl⟩

theorem requestCodec : crates.RequestCodec := by
  intro env json req hj
  cases env with
  | request r =>
    cases hj
    constructor
    · intro h
      cases h
      rfl
    · intro h
      cases h
      rfl
  | subscribe topic filter capability =>
    cases hj
    refine ⟨?_, nofun⟩
    intro h
    cases filter <;> cases capability <;> cases h
  | _ =>
    cases hj
    exact ⟨nofun, nofun⟩

theorem replyCodec : crates.ReplyCodec where
  response := by
    intro env json resp hj
    cases env with
    | response r =>
      cases hj
      exact ⟨fun h => by cases h; rfl, fun h => by cases h; rfl⟩
    | event ev =>
      rw [fromSlice_event ev hj]
      exact ⟨nofun, nofun⟩
    | subscribe topic filter capability =>
      obtain ⟨f, c, hdec⟩ := fromSlice_subscribe hj
      rw [hdec]
      exact ⟨nofun, nofun⟩
    | _ =>
      cases hj
      exact ⟨nofun, nofun⟩
  event := by
    intro env json ev hj
    cases env with
    | event ev' =>
      rw [fromSlice_event ev' hj]
      exact ⟨fun h => by cases h; rfl, fun h => by cases h; rfl⟩
    | subscribe topic filter capability =>
      obtain ⟨f, c, hdec⟩ := fromSlice_subscribe hj
      rw [hdec]
      exact ⟨nofun, nofun⟩
    | _ =>
      cases hj
      exact ⟨nofun, nofun⟩

theorem subscribeCodec : crates.SubscribeCodec := by
  intro env json topic filter capability hj hdec
  cases env with
  | subscribe t f c =>
    cases hj
    cases f <;> cases c <;> cases hdec <;> exact ⟨_, rfl⟩
  | event ev =>
    rw [fromSlice_event ev hj] at hdec
    cases hdec
  | _ =>
    cases hj
    cases hdec

end Obfs.Symbolic

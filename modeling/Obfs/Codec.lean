import Obfs.Crates
import Obfs.Lib.Json
import Obfs.Symbolic

/-! The JSON of an envelope as the derives of envelope.rs make and read it: an
object with the variant's name under kind, next to the fields of the variant.
The JSON of the types of vaiexia-core and the text of a JSON tree are given. -/
namespace Obfs
open Json
variable {C : Core} {ν τ : Type}

structure ValueJson (ν α : Type) where
  enc : α → Value ν
  dec : Value ν → Except String α

structure StructJson (ν α : Type) where
  fields : α → Fields ν
  dec : Value ν → Except String α

structure CoreJson (C : Core) (ν : Type) where
  request : StructJson ν C.Request
  response : StructJson ν C.Response
  event : StructJson ν (Event C)
  topic : ValueJson ν C.Topic
  capability : ValueJson ν C.Capability
  diagnostic : ValueJson ν C.Diagnostic
  value : ValueJson ν C.Json

/- A value that its own JSON text gives back, with its numbers read again. -/
def ValueJson.RoundTrips {α : Type} (J : ValueJson ν α) (reread : ν → ν) : Prop :=
  ∀ a, J.dec ((J.enc a).mapNum reread) = .ok a

/- The same for a struct, whose fields must not be named like the tag. -/
def StructJson.RoundTrips {α : Type} (J : StructJson ν α) (reread : ν → ν) : Prop :=
  ∀ a, J.dec (.obj (mapNumFields reread (J.fields a))) = .ok a ∧
    "kind" ∉ (J.fields a).map Prod.fst

/-- What is known of the JSON of the core types. A serde_json value holds every
tree of its own shape, so that rereading its numbers gives a value again. -/
structure CoreJson.Lawful (J : CoreJson C ν) (reread : ν → ν) : Prop where
  request : J.request.RoundTrips reread
  response : J.response.RoundTrips reread
  event : J.event.RoundTrips reread
  topic : J.topic.RoundTrips reread
  capability : J.capability.RoundTrips reread
  diagnostic : J.diagnostic.RoundTrips reread
  value : ∀ v, ∃ v', J.value.dec ((J.value.enc v).mapNum reread) = .ok v' ∧
    J.value.enc v' = (J.value.enc v).mapNum reread
  value_injective : Function.Injective J.value.enc

inductive Kind where
  | request | response | event | subscribe | unsubscribe | subscribeError | ping | pong

/- rename_all = "snake_case" -/
def Kind.name : Kind → String
  | .request => "request"
  | .response => "response"
  | .event => "event"
  | .subscribe => "subscribe"
  | .unsubscribe => "unsubscribe"
  | .subscribeError => "subscribe_error"
  | .ping => "ping"
  | .pong => "pong"

def Kind.all : List Kind :=
  [.request, .response, .event, .subscribe, .unsubscribe, .subscribeError, .ping, .pong]

def Kind.ofName (name : String) : Option Kind := Kind.all.find? (·.name = name)

theorem Kind.ofName_name (k : Kind) : Kind.ofName k.name = some k := by
  cases k <;> rfl

def Envelope.kind : Envelope C → Kind
  | .request _ => .request
  | .response _ => .response
  | .event _ => .event
  | .subscribe _ _ _ => .subscribe
  | .unsubscribe _ => .unsubscribe
  | .subscribeError _ _ => .subscribeError
  | .ping => .ping
  | .pong => .pong

section
variable (J : CoreJson C ν)

/- skip_serializing_if = "Option::is_none" -/
def optionalField {α : Type} (name : String) (enc : α → Value ν) (a : Option α) : Fields ν :=
  (a.map fun a => (name, enc a)).toList

def Envelope.fields : Envelope C → Fields ν
  | .request req => J.request.fields req
  | .response resp => J.response.fields resp
  | .event ev => J.event.fields ev
  | .subscribe topic filter capability =>
    ("topic", J.topic.enc topic) :: (optionalField "filter" J.value.enc filter ++
      optionalField "capability" J.capability.enc capability)
  | .unsubscribe topic => [("topic", J.topic.enc topic)]
  | .subscribeError topic error =>
    [("topic", J.topic.enc topic), ("error", J.diagnostic.enc error)]
  | .ping => []
  | .pong => []

def Envelope.serialize (env : Envelope C) : Value ν :=
  tagged "kind" env.kind.name (env.fields J)

def required {α : Type} (dec : Value ν → Except String α) (name : String) :
    Option (Value ν) → Except String α
  | some x => dec x
  | none => .error ("missing field `" ++ name ++ "`")

def decodeSubscribe (content : Value ν) : Except String (Envelope C) := do
  match ← members ["topic", "filter", "capability"] content with
  | [topic, filter, capability] =>
    let topic ← required J.topic.dec "topic" topic
    let filter ← optional J.value.dec filter
    let capability ← optional J.capability.dec capability
    return .subscribe topic filter capability
  | _ => .error "invalid length"

def decodeUnsubscribe (content : Value ν) : Except String (Envelope C) := do
  match ← members ["topic"] content with
  | [topic] => return .unsubscribe (← required J.topic.dec "topic" topic)
  | _ => .error "invalid length"

def decodeSubscribeError (content : Value ν) : Except String (Envelope C) := do
  match ← members ["topic", "error"] content with
  | [topic, error] =>
    let topic ← required J.topic.dec "topic" topic
    let error ← required J.diagnostic.dec "error" error
    return .subscribeError topic error
  | _ => .error "invalid length"

def decodeKind : Kind → Value ν → Except String (Envelope C)
  | .request, content => (J.request.dec content).map .request
  | .response, content => (J.response.dec content).map .response
  | .event, content => (J.event.dec content).map .event
  | .subscribe, content => decodeSubscribe J content
  | .unsubscribe, content => decodeUnsubscribe J content
  | .subscribeError, content => decodeSubscribeError J content
  | .ping, content => (unit content).map fun _ => .ping
  | .pong, content => (unit content).map fun _ => .pong

def Envelope.deserialize (x : Value ν) : Except String (Envelope C) :=
  match untag "kind" x with
  | .error e => .error e
  | .ok (name, content) =>
    match Kind.ofName name with
    | none => .error ("unknown variant `" ++ name ++ "`")
    | some kind => decodeKind J kind content

end

/-- serde_json::to_vec and from_slice. -/
def jsonToVec (J : CoreJson C ν) (T : Text ν τ) (env : Envelope C) : τ := T.write (env.serialize J)

def jsonFromSlice (J : CoreJson C ν) (T : Text ν τ) (text : τ) : Except SerdeError (Envelope C) :=
  ((T.read text).bind (Envelope.deserialize J)).mapError SerdeError.mk

section
variable {J : CoreJson C ν} {reread : ν → ν}

theorem kind_notMem_fields (h : J.Lawful reread) (env : Envelope C) :
    "kind" ∉ (env.fields J).map Prod.fst := by
  cases env with
  | request req => exact (h.request req).2
  | response resp => exact (h.response resp).2
  | event ev => exact (h.event ev).2
  | subscribe topic filter capability =>
    cases filter <;> cases capability <;> simp [Envelope.fields, optionalField]
  | unsubscribe topic => simp [Envelope.fields]
  | subscribeError topic error => simp [Envelope.fields]
  | ping => simp [Envelope.fields]
  | pong => simp [Envelope.fields]

theorem deserialize_serialize (h : J.Lawful reread) (env : Envelope C) :
    Envelope.deserialize J ((env.serialize J).mapNum reread) =
      decodeKind J env.kind (.obj (mapNumFields reread (env.fields J))) := by
  have hkind : "kind" ∉ (mapNumFields reread (env.fields J)).map Prod.fst := by
    rw [mapNumFields_keys]
    exact kind_notMem_fields h env
  rw [Envelope.serialize, mapNum_tagged, Envelope.deserialize, untag_tagged hkind]
  simp only [Kind.ofName_name]

theorem members_subscribe (f : ν → ν) (topic : C.Topic) (filter : Option C.Json)
    (capability : Option C.Capability) :
    members ["topic", "filter", "capability"]
        (.obj (mapNumFields f ((Envelope.subscribe topic filter capability).fields J))) =
      .ok [some ((J.topic.enc topic).mapNum f), filter.map fun v => (J.value.enc v).mapNum f,
        capability.map fun c => (J.capability.enc c).mapNum f] := by
  cases filter with
  | none =>
    cases capability with
    | none => rfl
    | some c => rfl
  | some v =>
    cases capability with
    | none => rfl
    | some c => rfl

/-- What a subscription must not carry: a filter or a capability whose JSON is
null, which reads as absent, or a filter with a number that is read otherwise. -/
def Preserved (J : CoreJson C ν) (reread : ν → ν) : Envelope C → Prop
  | .subscribe _ filter capability =>
    (∀ v, filter = some v → J.value.enc v ≠ .null ∧
      (J.value.enc v).mapNum reread = J.value.enc v) ∧
    ∀ c, capability = some c → J.capability.enc c ≠ .null
  | _ => True

theorem decodeSubscribe_fields (h : J.Lawful reread) (topic : C.Topic) (filter : Option C.Json)
    (capability : Option C.Capability) :
    ∃ filter' capability', decodeSubscribe J (.obj (mapNumFields reread
        ((Envelope.subscribe topic filter capability).fields J))) =
          .ok (.subscribe topic filter' capability') ∧
      (filter' = filter ↔ ∀ v, filter = some v → J.value.enc v ≠ .null ∧
        (J.value.enc v).mapNum reread = J.value.enc v) ∧
      (capability' = capability ↔ ∀ c, capability = some c → J.capability.enc c ≠ .null) := by
  obtain ⟨g, hg⟩ := Classical.axiomOfChoice h.value
  obtain ⟨filter', hf, hfilter⟩ := optional_map (fun v => (hg v).1) filter
  obtain ⟨capability', hc, hcapability⟩ := optional_map h.capability capability
  refine ⟨filter', capability', ?_, ?_, ?_⟩
  · rw [decodeSubscribe, members_subscribe]
    simp only [bind, Except.bind, required, h.topic topic, hf, hc]
    rfl
  · rw [hfilter]
    refine forall_congr' fun v => forall_congr' fun hv => ?_
    rw [ne_eq, mapNum_eq_null]
    refine and_congr_right fun _ => ⟨fun he => ?_, fun he => ?_⟩
    · rw [← (hg v).2, he]
    · exact h.value_injective ((hg v).2.trans he)
  · rw [hcapability]
    refine forall_congr' fun c => forall_congr' fun _ => ?_
    rw [ne_eq, mapNum_eq_null]
    exact and_iff_left rfl

theorem decodeKind_fields (h : J.Lawful reread) (env : Envelope C) :
    ∃ env', decodeKind J env.kind (.obj (mapNumFields reread (env.fields J))) = .ok env' ∧
      env'.kind = env.kind ∧ (env' = env ↔ Preserved J reread env) := by
  cases env with
  | request req =>
    refine ⟨.request req, ?_, rfl, iff_of_true rfl trivial⟩
    rw [Envelope.fields, Envelope.kind, decodeKind, (h.request req).1]
    rfl
  | response resp =>
    refine ⟨.response resp, ?_, rfl, iff_of_true rfl trivial⟩
    rw [Envelope.fields, Envelope.kind, decodeKind, (h.response resp).1]
    rfl
  | event ev =>
    refine ⟨.event ev, ?_, rfl, iff_of_true rfl trivial⟩
    rw [Envelope.fields, Envelope.kind, decodeKind, (h.event ev).1]
    rfl
  | subscribe topic filter capability =>
    obtain ⟨filter', capability', hdec, hfilter, hcapability⟩ :=
      decodeSubscribe_fields h topic filter capability
    exact ⟨_, hdec, rfl, by rw [Preserved, ← hfilter, ← hcapability]; simp⟩
  | unsubscribe topic =>
    refine ⟨.unsubscribe topic, ?_, rfl, iff_of_true rfl trivial⟩
    show (do
      let topic ← J.topic.dec ((J.topic.enc topic).mapNum reread)
      return Envelope.unsubscribe topic) = _
    rw [h.topic topic]
    rfl
  | subscribeError topic error =>
    refine ⟨.subscribeError topic error, ?_, rfl, iff_of_true rfl trivial⟩
    show (do
      let topic ← J.topic.dec ((J.topic.enc topic).mapNum reread)
      let error ← J.diagnostic.dec ((J.diagnostic.enc error).mapNum reread)
      return Envelope.subscribeError topic error) = _
    rw [h.topic topic, h.diagnostic error]
    rfl
  | ping => exact ⟨.ping, rfl, rfl, iff_of_true rfl trivial⟩
  | pong => exact ⟨.pong, rfl, rfl, iff_of_true rfl trivial⟩

theorem preserved_of_kind {env : Envelope C} (hk : env.kind ≠ .subscribe) :
    Preserved J reread env := by
  cases env with
  | subscribe topic filter capability => exact absurd rfl hk
  | _ => trivial

theorem fromSlice_eq {T : Text ν τ} (h : J.Lawful T.reread) {env : Envelope C}
    (hdepth : (env.serialize J).depth ≤ T.limit) :
    jsonFromSlice J T (jsonToVec J T env) =
      (decodeKind J env.kind (.obj (mapNumFields T.reread (env.fields J)))).mapError
        SerdeError.mk := by
  rw [jsonFromSlice, jsonToVec, T.read_write _ hdepth, Except.bind, deserialize_serialize h]

theorem fromSlice_toVec {T : Text ν τ} (h : J.Lawful T.reread) {env : Envelope C}
    (hdepth : (env.serialize J).depth ≤ T.limit) :
    ∃ env', jsonFromSlice J T (jsonToVec J T env) = .ok env' ∧ env'.kind = env.kind ∧
      (env' = env ↔ Preserved J T.reread env) := by
  obtain ⟨env', hdec, hkind, hiff⟩ := decodeKind_fields h env
  refine ⟨env', ?_, hkind, hiff⟩
  rw [fromSlice_eq h hdepth, hdec]
  rfl

theorem fromSlice_deep {T : Text ν τ} {env : Envelope C}
    (hdepth : T.limit < (env.serialize J).depth) :
    ∃ e, jsonFromSlice J T (jsonToVec J T env) = .error e := by
  obtain ⟨e, he⟩ := T.read_deep _ hdepth
  refine ⟨⟨e⟩, ?_⟩
  rw [jsonFromSlice, jsonToVec, he]
  rfl

theorem depth_of_fromSlice {T : Text ν τ} {env env' : Envelope C}
    (hr : jsonFromSlice J T (jsonToVec J T env) = .ok env') :
    (env.serialize J).depth ≤ T.limit := by
  by_contra hd
  obtain ⟨e, he⟩ := fromSlice_deep (Nat.lt_of_not_le hd)
  rw [hr] at he
  cases he

end

/- The laws that the transports rest on, of crates that use this JSON, for envelopes
   that are not nested too deep. -/
section Laws
variable {K : Crates} {J : CoreJson K.core ν} {T : Text ν Bytes} (h : J.Lawful T.reread)
  (hto : ∀ env, K.toVec env = .ok (jsonToVec J T env))
  (hfrom : ∀ json, K.fromSlice json = jsonFromSlice J T json)
include h hto hfrom

theorem decodes_iff {env env₀ : Envelope K.core} {json : Bytes} (hk : env₀.kind ≠ .subscribe)
    (hdepth : (env₀.serialize J).depth ≤ T.limit) (hjson : K.toVec env = .ok json) :
    K.fromSlice json = .ok env₀ ↔ env = env₀ := by
  rw [hto] at hjson
  cases hjson
  rw [hfrom]
  constructor
  · intro hr
    obtain ⟨env', hr', hkind, hiff⟩ := fromSlice_toVec h (depth_of_fromSlice hr)
    rw [hr] at hr'
    cases hr'
    exact (hiff.mpr (preserved_of_kind (hkind ▸ hk))).symm
  · rintro rfl
    obtain ⟨env', hr, -, hiff⟩ := fromSlice_toVec h hdepth
    rw [hr, hiff.mpr (preserved_of_kind hk)]

theorem requestCodec_of_json
    (hdepth : ∀ req, ((Envelope.request req).serialize J).depth ≤ T.limit) : K.RequestCodec := by
  intro env json req hjson
  exact decodes_iff h hto hfrom nofun (hdepth req) hjson

theorem replyCodec_of_json
    (hresponse : ∀ resp, ((Envelope.response resp).serialize J).depth ≤ T.limit)
    (hevent : ∀ ev, ((Envelope.event ev).serialize J).depth ≤ T.limit) : K.ReplyCodec where
  response := by
    intro env json resp hjson
    exact decodes_iff h hto hfrom nofun (hresponse resp) hjson
  event := by
    intro env json ev hjson
    exact decodes_iff h hto hfrom nofun (hevent ev) hjson

theorem subscribeCodec_of_json (hcapability : ∀ c, J.capability.enc c ≠ .null) :
    K.SubscribeCodec := by
  intro env json topic filter capability hjson hdec
  rw [hto] at hjson
  cases hjson
  rw [hfrom] at hdec
  have hdepth := depth_of_fromSlice hdec
  obtain ⟨env', hr, hkind, -⟩ := fromSlice_toVec h hdepth
  cases hr.symm.trans hdec
  cases env with
  | subscribe topic' filter' capability' =>
    obtain ⟨_, _, hfields, -, hcap⟩ := decodeSubscribe_fields h topic' filter' capability'
    rw [fromSlice_eq h hdepth, Envelope.kind, decodeKind, hfields] at hdec
    cases hdec
    exact ⟨filter', by rw [hcap.mpr fun c _ => hcapability c]⟩
  | _ => cases hkind

end Laws

/-- An envelope reads back from its own JSON just when the JSON is not nested
too deep and it carries nothing that reads as absent or otherwise. -/
theorem envelope_round_trip_iff (J : CoreJson C ν) (T : Text ν τ) (h : J.Lawful T.reread)
    (env : Envelope C) :
    jsonFromSlice J T (jsonToVec J T env) = .ok env ↔
      (env.serialize J).depth ≤ T.limit ∧ Preserved J T.reread env := by
  by_cases hdepth : (env.serialize J).depth ≤ T.limit
  · obtain ⟨env', hr, -, hiff⟩ := fromSlice_toVec h hdepth
    rw [hr, and_iff_right hdepth, ← hiff]
    exact ⟨Except.ok.inj, congrArg _⟩
  · obtain ⟨e, he⟩ := fromSlice_deep (Nat.lt_of_not_le hdepth)
    refine iff_of_false ?_ fun hp => hdepth hp.1
    rw [he]
    simp

end Obfs

namespace Obfs.Symbolic
open Json

/- The core types with JSON values; the others are bytes, written as numbers. -/
abbrev valueCore : Core := { core with Json := Value Nat }

def byteOf : Value Nat → Except String UInt8
  | .num n => .ok n.toUInt8
  | _ => .error "invalid type"

def byteJson : ValueJson Nat UInt8 := ⟨fun b => .num b.toNat, byteOf⟩

def byteStruct : StructJson Nat UInt8 where
  fields b := [("id", .num b.toNat)]
  dec x := do
    match ← members ["id"] x with
    | [some id] => byteOf id
    | _ => .error "missing field"

def eventStruct : StructJson Nat (Event valueCore) where
  fields ev := [("topic", .num (UInt8.toNat ev.topic)), ("seq", .num ev.seq.toNat),
    ("payload", ev.payload)]
  dec x := do
    match ← members ["topic", "seq", "payload"] x with
    | [some (.num topic), some (.num seq), some payload] =>
      .ok ⟨topic.toUInt8, seq.toUInt64, payload⟩
    | _ => .error "missing field"

def valueJson : CoreJson valueCore Nat where
  request := byteStruct
  response := byteStruct
  event := eventStruct
  topic := byteJson
  capability := byteJson
  diagnostic := byteJson
  value := ⟨id, .ok⟩

/- A text that keeps the tree, read down to the recursion limit of serde_json. -/
def treeText : Text Nat (Value Nat) where
  write := id
  read x := if x.depth ≤ 127 then .ok x else .error "recursion limit exceeded"
  reread := id
  limit := 127
  read_write x hx := by rw [mapNum_id, id, if_pos hx]
  read_deep x hx := ⟨_, by rw [id, if_neg (Nat.not_le.mpr hx)]⟩

theorem byteJson_roundTrips : byteJson.RoundTrips id := by
  intro b
  show Except.ok b.toNat.toUInt8 = _
  rw [Nat.toUInt8, UInt8.ofNat_toNat]

theorem byteStruct_roundTrips : byteStruct.RoundTrips id := by
  intro b
  refine ⟨?_, by simp [byteStruct]⟩
  show Except.ok b.toNat.toUInt8 = _
  rw [Nat.toUInt8, UInt8.ofNat_toNat]

theorem valueJson_lawful : valueJson.Lawful id where
  request := byteStruct_roundTrips
  response := byteStruct_roundTrips
  event ev := by
    refine ⟨?_, by simp [valueJson, eventStruct]⟩
    show Except.ok (⟨(UInt8.toNat ev.topic).toUInt8, ev.seq.toNat.toUInt64,
      Value.mapNum id ev.payload⟩ : Event valueCore) = _
    rw [mapNum_id, Nat.toUInt8, UInt8.ofNat_toNat, Nat.toUInt64, UInt64.ofNat_toNat]
  topic := byteJson_roundTrips
  capability := byteJson_roundTrips
  diagnostic := byteJson_roundTrips
  value v := ⟨v.mapNum id, rfl, rfl⟩
  value_injective := Function.injective_id

/-- A filter that is there and null reads back as no filter. -/
theorem null_filter_lost :
    jsonFromSlice valueJson treeText
        (jsonToVec valueJson treeText (.subscribe (3 : UInt8) (some .null) none)) =
      .ok (.subscribe (3 : UInt8) none none) ∧
    (.subscribe (3 : UInt8) none none : Envelope valueCore) ≠
      .subscribe (3 : UInt8) (some .null) none :=
  ⟨rfl, fun h => by cases h⟩

theorem envelope_round_trip_iff_filter :
    jsonFromSlice valueJson treeText (jsonToVec valueJson treeText
        (.subscribe (3 : UInt8) (some (.str "cpu")) (some (7 : UInt8)))) =
      .ok (.subscribe (3 : UInt8) (some (.str "cpu")) (some (7 : UInt8))) := by
  refine (envelope_round_trip_iff valueJson treeText valueJson_lawful _).mpr ⟨by decide, ?_, ?_⟩
  · intro v hv
    cases hv
    exact ⟨(fun h => by cases h), rfl⟩
  · intro c hc h
    cases h

end Obfs.Symbolic

import Mathlib.Data.List.Basic

/-! JSON trees over some kind of numbers, and how a derived decoder takes an
internally tagged value apart: the tag among the entries of an object, the
members of a struct by name or by position, optional members. -/
namespace Json
variable {ν α : Type}

inductive Value (ν : Type) where
  | null
  | bool (b : Bool)
  | num (n : ν)
  | str (s : String)
  | arr (xs : List (Value ν))
  | obj (fields : List (String × Value ν))

abbrev Fields (ν : Type) := List (String × Value ν)

mutual

def Value.depth : Value ν → Nat
  | .arr xs => depthAll xs + 1
  | .obj fs => depthFields fs + 1
  | _ => 0

def depthAll : List (Value ν) → Nat
  | [] => 0
  | x :: xs => max x.depth (depthAll xs)

def depthFields : List (String × Value ν) → Nat
  | [] => 0
  | (_, x) :: fs => max x.depth (depthFields fs)

end

mutual

def Value.mapNum (f : ν → ν) : Value ν → Value ν
  | .null => .null
  | .bool b => .bool b
  | .num n => .num (f n)
  | .str s => .str s
  | .arr xs => .arr (mapNumAll f xs)
  | .obj fs => .obj (mapNumFields f fs)

def mapNumAll (f : ν → ν) : List (Value ν) → List (Value ν)
  | [] => []
  | x :: xs => x.mapNum f :: mapNumAll f xs

def mapNumFields (f : ν → ν) : List (String × Value ν) → List (String × Value ν)
  | [] => []
  | (name, x) :: fs => (name, x.mapNum f) :: mapNumFields f fs

end

mutual

theorem mapNum_id : ∀ x : Value ν, x.mapNum id = x
  | .null | .bool _ | .num _ | .str _ => rfl
  | .arr xs => congrArg Value.arr (mapNumAll_id xs)
  | .obj fs => congrArg Value.obj (mapNumFields_id fs)

theorem mapNumAll_id : ∀ xs : List (Value ν), mapNumAll id xs = xs
  | [] => rfl
  | x :: xs => by rw [mapNumAll, mapNum_id x, mapNumAll_id xs]

theorem mapNumFields_id : ∀ fs : List (String × Value ν), mapNumFields id fs = fs
  | [] => rfl
  | (name, x) :: fs => by rw [mapNumFields, mapNum_id x, mapNumFields_id fs]

end

@[simp] theorem mapNumFields_keys (f : ν → ν) (fs : Fields ν) :
    (mapNumFields f fs).map Prod.fst = fs.map Prod.fst := by
  induction fs with
  | nil => rfl
  | cons p fs ih => simp [mapNumFields, ih]

@[simp] theorem mapNum_eq_null {f : ν → ν} {x : Value ν} : x.mapNum f = .null ↔ x = .null := by
  cases x <;> simp [Value.mapNum]

/-- A JSON text: what is read back from a written tree has its numbers read
again, and a tree that is nested too deep is not read at all. -/
structure Text (ν τ : Type) where
  write : Value ν → τ
  read : τ → Except String (Value ν)
  reread : ν → ν
  limit : Nat
  read_write : ∀ x, x.depth ≤ limit → read (write x) = .ok (x.mapNum reread)
  read_deep : ∀ x, limit < x.depth → ∃ e, read (write x) = .error e

/-- The member of a name; serde refuses a second one. -/
def entry (name : String) (fs : Fields ν) : Except String (Option (Value ν)) :=
  match fs.filter (·.1 = name) with
  | [] => .ok none
  | [p] => .ok (some p.2)
  | _ => .error ("duplicate field `" ++ name ++ "`")

def members (names : List String) : Value ν → Except String (List (Option (Value ν)))
  | .obj fs => names.mapM (entry · fs)
  | .arr xs =>
    if xs.length ≤ names.length then .ok ((List.range names.length).map (xs[·]?))
    else .error "invalid length"
  | _ => .error "invalid type"

/-- The contents of a unit variant: any object, or an array that is used up. -/
def unit : Value ν → Except String Unit
  | .obj _ => .ok ()
  | .arr [] => .ok ()
  | .arr xs =>
    .error ("invalid length " ++ toString xs.length ++ ", expected 0 elements in sequence")
  | _ => .error "invalid type"

/-- An Option with a default: absent and null are none. -/
def optional (dec : Value ν → Except String α) : Option (Value ν) → Except String (Option α)
  | none => .ok none
  | some .null => .ok none
  | some x => (dec x).map some

theorem optional_of_ne_null {dec : Value ν → Except String α} {x : Value ν} (h : x ≠ .null) :
    optional dec (some x) = (dec x).map some := by
  cases x with
  | null => exact absurd rfl h
  | bool | num | str | arr | obj => rfl

theorem optional_map {dec : Value ν → Except String α} {enc : α → Value ν} {g : α → α}
    (hdec : ∀ a, dec (enc a) = .ok (g a)) (a : Option α) :
    ∃ b, optional dec (a.map enc) = .ok b ∧
      (b = a ↔ ∀ v, a = some v → enc v ≠ .null ∧ g v = v) := by
  cases a with
  | none => exact ⟨none, rfl, by simp⟩
  | some v =>
    by_cases hnull : enc v = .null
    · refine ⟨none, ?_, ?_⟩
      · rw [Option.map_some, hnull]
        rfl
      · simp [hnull]
    · refine ⟨some (g v), ?_, ?_⟩
      · rw [Option.map_some, optional_of_ne_null hnull, hdec]
        rfl
      · simp [hnull]

def tagged (tag name : String) (fs : Fields ν) : Value ν := .obj ((tag, .str name) :: fs)

def untag (tag : String) : Value ν → Except String (String × Value ν)
  | .obj fs =>
    match entry tag fs with
    | .ok (some (.str name)) => .ok (name, .obj (fs.filter (·.1 ≠ tag)))
    | .ok (some _) => .error "invalid type, expected variant identifier"
    | .ok none => .error ("missing field `" ++ tag ++ "`")
    | .error e => .error e
  | .arr (.str name :: xs) => .ok (name, .arr xs)
  | .arr [] => .error ("missing field `" ++ tag ++ "`")
  | .arr _ => .error "invalid type, expected variant identifier"
  | _ => .error "invalid type, expected internally tagged enum"

theorem filter_of_absent {name : String} {fs : Fields ν} (h : name ∉ fs.map Prod.fst) :
    fs.filter (·.1 = name) = [] ∧ fs.filter (·.1 ≠ name) = fs := by
  have hne : ∀ p ∈ fs, p.1 ≠ name := by
    rintro p hp rfl
    exact h (List.mem_map_of_mem hp)
  refine ⟨List.filter_eq_nil_iff.mpr ?_, List.filter_eq_self.mpr ?_⟩
  · intro p hp
    simpa using hne p hp
  · intro p hp
    simpa using hne p hp

theorem untag_tagged {tag : String} {fs : Fields ν} (h : tag ∉ fs.map Prod.fst) (name : String) :
    untag tag (tagged tag name fs) = .ok (name, .obj fs) := by
  obtain ⟨hin, hout⟩ := filter_of_absent h
  simp only [tagged, untag, entry, List.filter_cons, hin, hout]
  simp

theorem mapNum_tagged (f : ν → ν) (tag name : String) (fs : Fields ν) :
    (tagged tag name fs).mapNum f = tagged tag name (mapNumFields f fs) := rfl

end Json

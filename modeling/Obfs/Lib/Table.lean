import Mathlib.Data.List.AList

/-! Association lists used as hash maps: number of entries, retaining the
entries that satisfy a predicate, and counting keys. -/
namespace AList
variable {κ ν : Type*}

def len (m : AList fun _ : κ => ν) : Nat := m.entries.length

def retain (p : κ → ν → Bool) (m : AList fun _ : κ => ν) : AList fun _ : κ => ν :=
  ⟨m.entries.filter fun e => p e.1 e.2, m.nodupKeys.sublist List.filter_sublist⟩

theorem retain_entries (p : κ → ν → Bool) (m : AList fun _ : κ => ν) :
    (m.retain p).entries = m.entries.filter fun e => p e.1 e.2 := rfl

def count (p : κ → Bool) (m : AList fun _ : κ => ν) : Nat := m.keys.countP p

theorem len_eq_keys (m : AList fun _ : κ => ν) : m.len = m.keys.length := by
  simp [len, AList.keys, List.keys]

theorem count_le_len (p : κ → Bool) (m : AList fun _ : κ => ν) : m.count p ≤ m.len := by
  rw [len_eq_keys]
  exact List.countP_le_length

theorem keys_retain_sublist (p : κ → ν → Bool) (m : AList fun _ : κ => ν) :
    (m.retain p).keys.Sublist m.keys :=
  List.filter_sublist.map _

theorem len_retain_le (p : κ → ν → Bool) (m : AList fun _ : κ => ν) :
    (m.retain p).len ≤ m.len :=
  List.filter_sublist.length_le

theorem count_retain_le (q : κ → Bool) (p : κ → ν → Bool) (m : AList fun _ : κ => ν) :
    (m.retain p).count q ≤ m.count q :=
  (keys_retain_sublist p m).countP_le

theorem retain_eq_self {p : κ → ν → Bool} {m : AList fun _ : κ => ν} (h : ∀ k v, p k v = true) :
    m.retain p = m := by
  apply AList.ext
  exact List.filter_eq_self.mpr fun e _ => h e.1 e.2

variable [DecidableEq κ]

theorem lookup_retain (p : κ → ν → Bool) (m : AList fun _ : κ => ν) (k : κ) :
    (m.retain p).lookup k = (m.lookup k).filter (p k) := by
  apply Option.ext
  intro v
  rw [Option.filter_eq_some_iff]
  have h1 := mem_lookup_iff (a := k) (b := v) (s := m.retain p)
  have h2 := mem_lookup_iff (a := k) (b := v) (s := m)
  simp only [Option.mem_def] at h1 h2
  rw [h1, h2, retain, List.mem_filter]

theorem lookup_retain_or (p : κ → ν → Bool) (m : AList fun _ : κ => ν) (k : κ) :
    (m.retain p).lookup k = m.lookup k ∨ (m.retain p).lookup k = none := by
  rw [lookup_retain]
  cases m.lookup k with
  | none => exact Or.inl rfl
  | some v => cases hp : p k v <;> simp [Option.filter, hp]

theorem keys_erase_sublist (m : AList fun _ : κ => ν) (k : κ) :
    (m.erase k).keys.Sublist m.keys := by
  rw [keys_erase]
  exact List.erase_sublist

theorem len_erase_le (m : AList fun _ : κ => ν) (k : κ) : (m.erase k).len ≤ m.len := by
  rw [len_eq_keys, len_eq_keys]
  exact (keys_erase_sublist m k).length_le

theorem len_erase_of_mem {m : AList fun _ : κ => ν} {k : κ} (h : k ∈ m) :
    (m.erase k).len + 1 = m.len := by
  have hk : k ∈ m.keys := h
  have hp := List.length_pos_of_mem hk
  rw [len_eq_keys, len_eq_keys, keys_erase, List.length_erase_of_mem hk]
  omega

theorem len_insert_of_mem {m : AList fun _ : κ => ν} {k : κ} (v : ν) (h : k ∈ m) :
    (m.insert k v).len = m.len := by
  have hk : k ∈ m.keys := h
  have hp := List.length_pos_of_mem hk
  rw [len_eq_keys, len_eq_keys, keys_insert, List.length_cons, List.length_erase_of_mem hk]
  omega

theorem len_insert_of_notMem {m : AList fun _ : κ => ν} {k : κ} (v : ν) (h : k ∉ m) :
    (m.insert k v).len = m.len + 1 := by
  have hk : k ∉ m.keys := h
  rw [len_eq_keys, len_eq_keys, keys_insert, List.length_cons, List.erase_of_not_mem hk]

theorem len_insert_le (m : AList fun _ : κ => ν) (k : κ) (v : ν) :
    (m.insert k v).len ≤ m.len + 1 := by
  by_cases h : k ∈ m
  · rw [len_insert_of_mem v h]
    omega
  · rw [len_insert_of_notMem v h]

theorem len_retain_insert {p : κ → ν → Bool} {m : AList fun _ : κ => ν} {k : κ} {v : ν}
    (h : k ∉ m) (hp : p k v = true) :
    ((m.insert k v).retain p).len = (m.retain p).len + 1 := by
  rw [len, len, retain_entries, retain_entries, entries_insert_of_notMem h]
  simp [hp]

/-- A key that is not counted may be written without raising the count. -/
theorem count_insert_le {q : κ → Bool} {k : κ} (m : AList fun _ : κ => ν) (v : ν)
    (hq : q k = false) : (m.insert k v).count q ≤ m.count q := by
  rw [count, keys_insert, List.countP_cons_of_neg (by simp [hq])]
  exact List.erase_sublist.countP_le

end AList

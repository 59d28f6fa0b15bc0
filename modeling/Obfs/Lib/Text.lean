import Mathlib.Data.List.Basic

/-! Text as bytes: a list at its last separator, heads of lines that end in CR LF
and are closed by an empty line, and the ASCII characters among UTF-8 bytes. -/
namespace Text

section
variable {α : Type*} [DecidableEq α] {sep : α}

def splitLast (sep : α) : List α → Option (List α × List α)
  | [] => none
  | x :: xs =>
    match splitLast sep xs with
    | some (a, b) => some (x :: a, b)
    | none => if x = sep then some ([], xs) else none

theorem splitLast_eq_none {xs : List α} (h : sep ∉ xs) : splitLast sep xs = none := by
  induction xs with
  | nil => rfl
  | cons x xs ih =>
    have hx : ¬ x = sep := fun he => h (he ▸ List.mem_cons_self)
    simp [splitLast, ih (fun hm => h (List.mem_cons_of_mem _ hm)), hx]

theorem splitLast_append (a : List α) {b : List α} (h : sep ∉ b) :
    splitLast sep (a ++ sep :: b) = some (a, b) := by
  induction a with
  | nil => simp [splitLast, splitLast_eq_none h]
  | cons x a ih => simp [splitLast, ih]

theorem append_of_splitLast {xs a b : List α} (h : splitLast sep xs = some (a, b)) :
    xs = a ++ sep :: b := by
  induction xs generalizing a with
  | nil => cases h
  | cons x xs ih =>
    rw [splitLast] at h
    split at h
    · rename_i a' b' hs
      cases h
      rw [ih hs, List.cons_append]
    · split at h
      · rename_i hx
        cases h
        rw [hx, List.nil_append]
      · cases h

theorem takeWhile_sep {a : List α} (h : sep ∉ a) (b : List α) :
    (a ++ sep :: b).takeWhile (· ≠ sep) = a := by
  induction a with
  | nil => simp
  | cons x a ih =>
    rw [List.mem_cons, not_or] at h
    rw [List.cons_append, List.takeWhile_cons_of_pos (by simpa using Ne.symm h.1), ih h.2]

theorem dropWhile_sep {a : List α} (h : sep ∉ a) (b : List α) :
    (a ++ sep :: b).dropWhile (· ≠ sep) = sep :: b := by
  induction a with
  | nil => simp
  | cons x a ih =>
    rw [List.mem_cons, not_or] at h
    rw [List.cons_append, List.dropWhile_cons_of_pos (by simpa using Ne.symm h.1), ih h.2]

def splitFirst (sep : α) : List α → Option (List α × List α)
  | [] => none
  | x :: xs =>
    if x = sep then some ([], xs) else (splitFirst sep xs).map fun (a, b) => (x :: a, b)

theorem splitFirst_append {a : List α} (h : sep ∉ a) (b : List α) :
    splitFirst sep (a ++ sep :: b) = some (a, b) := by
  induction a with
  | nil => simp [splitFirst]
  | cons x a ih =>
    rw [List.mem_cons, not_or] at h
    simp [splitFirst, Ne.symm h.1, ih h.2]

theorem of_splitFirst {xs a b : List α} (h : splitFirst sep xs = some (a, b)) :
    xs = a ++ sep :: b ∧ sep ∉ a := by
  induction xs generalizing a with
  | nil => cases h
  | cons x xs ih =>
    rw [splitFirst] at h
    split at h
    · rename_i hx
      cases h
      exact ⟨by rw [hx, List.nil_append], List.not_mem_nil⟩
    · rename_i hx
      obtain ⟨⟨a', b'⟩, hs, he⟩ := Option.map_eq_some_iff.mp h
      cases he
      obtain ⟨rfl, hm⟩ := ih hs
      exact ⟨rfl, by simp [Ne.symm hx, hm]⟩

end

def endsHead (bytes : List UInt8) : Bool := [13, 10, 13, 10].isSuffixOf bytes

/-- Lines and the empty line that closes them. -/
def head (lines : List (List UInt8)) : List UInt8 :=
  lines.flatMap (fun l => l ++ [13, 10]) ++ [13, 10]

def IsLine (l : List UInt8) : Prop := l ≠ [] ∧ ∀ b ∈ l, b ≠ 13 ∧ b ≠ 10

theorem head_cons (l : List UInt8) (ls : List (List UInt8)) :
    head (l :: ls) = l ++ 13 :: 10 :: head ls := by
  simp [head]

theorem endsHead_iff {bytes : List UInt8} :
    endsHead bytes = true ↔ ∃ a, bytes = a ++ [13, 10, 13, 10] := by
  rw [endsHead, List.isSuffixOf_iff_suffix]
  constructor
  · rintro ⟨a, ha⟩
    exact ⟨a, ha.symm⟩
  · rintro ⟨a, ha⟩
    exact ⟨a, ha.symm⟩

theorem endsHead_head {ls : List (List UInt8)} (hne : ls ≠ []) : endsHead (head ls) = true := by
  induction ls with
  | nil => exact absurd rfl hne
  | cons l ls ih =>
    rw [endsHead_iff]
    by_cases hls : ls = []
    · exact ⟨l, by simp [head, hls]⟩
    · obtain ⟨a, ha⟩ := endsHead_iff.mp (ih hls)
      exact ⟨l ++ 13 :: 10 :: a, by simp [head_cons, ha]⟩

theorem head_ends {ls : List (List UInt8)} (hl : ∀ l ∈ ls, IsLine l) {a b : List UInt8}
    (h : head ls = a ++ 13 :: 10 :: 13 :: 10 :: b) : b = [] := by
  induction ls generalizing a with
  | nil =>
    have := congrArg List.length h
    simp [head] at this
    omega
  | cons l ls ih =>
    have hne := (hl l List.mem_cons_self).1
    have hcr := (hl l List.mem_cons_self).2
    rw [head_cons] at h
    -- no line holds a CR, so the pattern starts at this line's end or behind it
    obtain ⟨c, rfl, hc⟩ : ∃ c, a = l ++ c ∧
        13 :: 10 :: head ls = c ++ 13 :: 10 :: 13 :: 10 :: b := by
      obtain ⟨c, hac, hc⟩ | ⟨c, hlc, hc⟩ := List.append_eq_append_iff.mp h
      · exact ⟨c, hac, hc⟩
      · cases c with
        | nil => exact ⟨[], by simpa using hlc.symm, by simpa using hc.symm⟩
        | cons x c =>
          obtain ⟨rfl, -⟩ := List.cons.inj hc
          exact absurd rfl (hcr 13 (by simp [hlc])).1
    match c, hc with
    | [], hc =>
      have hh : head ls = 13 :: 10 :: b := by simpa using hc
      cases ls with
      | nil =>
        have hb : [13, 10] = 13 :: 10 :: b := hh
        simpa using hb.symm
      | cons k ks =>
        obtain ⟨hkne, hk⟩ := hl k (by simp)
        cases k with
        | nil => exact absurd rfl hkne
        | cons x k =>
          rw [head_cons] at hh
          obtain ⟨rfl, -⟩ := List.cons.inj hh
          exact absurd rfl (hk 13 (by simp)).1
    | [x], hc =>
      obtain ⟨-, hc⟩ := List.cons.inj hc
      exact absurd (List.cons.inj hc).1 (by decide)
    | x :: y :: c, hc =>
      obtain ⟨-, hc⟩ := List.cons.inj hc
      exact ih (fun l hm => hl l (List.mem_cons_of_mem _ hm)) (List.cons.inj hc).2

/-- No shorter beginning of a head ends in an empty line. -/
theorem endsHead_front {ls : List (List UInt8)} (hl : ∀ l ∈ ls, IsLine l) {a b : List UInt8}
    (h : head ls = a ++ b) (hb : b ≠ []) : endsHead a = false := by
  cases he : endsHead a with
  | false => rfl
  | true =>
    obtain ⟨c, rfl⟩ := endsHead_iff.mp he
    exact absurd (head_ends hl (by simpa using h)) hb

/-- The lines of a head and what follows its empty line, with the bytes of the
line that is being read. A CR or LF anywhere else is an error. -/
def readHead (line : List UInt8) : List UInt8 → Option (List (List UInt8) × List UInt8)
  | [] => none
  | b :: rest =>
    if b = 13 then
      match rest with
      | [] => none
      | c :: rest =>
        if c = 10 then
          if line = [] then some ([], rest)
          else (readHead [] rest).map fun h => (line :: h.1, h.2)
        else none
    else if b = 10 then none
    else readHead (line ++ [b]) rest

theorem readHead_line {l : List UInt8} (hl : ∀ b ∈ l, b ≠ 13 ∧ b ≠ 10) (line rest : List UInt8) :
    readHead line (l ++ rest) = readHead (line ++ l) rest := by
  induction l generalizing line with
  | nil => rw [List.nil_append, List.append_nil]
  | cons b l ih =>
    obtain ⟨⟨h13, h10⟩, hl⟩ := List.forall_mem_cons.mp hl
    rw [List.cons_append, readHead.eq_def]
    simp only [h13, h10, if_false]
    rw [ih hl, List.append_assoc]
    rfl

theorem readHead_head {ls : List (List UInt8)} (hl : ∀ l ∈ ls, IsLine l) (rest : List UInt8) :
    readHead [] (head ls ++ rest) = some (ls, rest) := by
  induction ls with
  | nil => simp [head, readHead]
  | cons l ls ih =>
    obtain ⟨⟨hne, hl1⟩, hls⟩ := List.forall_mem_cons.mp hl
    rw [head_cons, List.append_assoc, readHead_line hl1, List.nil_append]
    simp [readHead, hne, ih hls]

theorem readHead_clean {line bytes rest : List UInt8} {ls : List (List UInt8)}
    (hline : ∀ b ∈ line, b ≠ 13 ∧ b ≠ 10) (h : readHead line bytes = some (ls, rest)) :
    ∀ l ∈ ls, ∀ b ∈ l, b ≠ 13 ∧ b ≠ 10 := by
  fun_induction readHead line bytes generalizing ls with
  | case1 => cases h
  | case2 => cases h
  | case3 => cases h; exact List.forall_mem_nil _
  | case4 line rest' hne ih =>
    obtain ⟨⟨ls', r⟩, hr, he⟩ := Option.map_eq_some_iff.mp h
    cases he
    exact List.forall_mem_cons.mpr ⟨hline, ih (List.forall_mem_nil _) hr⟩
  | case5 => cases h
  | case6 => cases h
  | case7 line b rest' h13 h10 ih =>
    refine ih ?_ h
    intro x hx
    obtain hx | hx := List.mem_append.mp hx
    · exact hline x hx
    · rw [List.mem_singleton.mp hx]
      exact ⟨h13, h10⟩

/-- An ASCII byte of a character is the whole character. -/
theorem ascii_of_mem {c : Char} {b : UInt8} (h : b ∈ String.utf8EncodeChar c)
    (hb : b.toNat < 128) : c.toNat = b.toNat ∧ String.utf8EncodeChar c = [b] := by
  have hv : c.toNat = c.val.toNat := rfl
  rw [hv]
  generalize hn : c.val.toNat = n
  simp only [String.utf8EncodeChar, hn] at h ⊢
  by_cases h1 : n ≤ 127
  · rw [if_pos h1, List.mem_singleton] at h
    subst h
    refine ⟨?_, if_pos h1⟩
    rw [UInt8.toNat_ofNat']
    omega
  · -- the bytes of longer characters all have their top bit set
    have hbig : ∀ k, 128 ≤ k → k < 256 → b ≠ UInt8.ofNat k := by
      rintro k hk hk' rfl
      rw [UInt8.toNat_ofNat'] at hb
      omega
    rw [if_neg h1] at h
    by_cases h2 : n ≤ 2047
    · simp only [if_pos h2, List.mem_cons, List.not_mem_nil, or_false] at h
      obtain h | h := h <;> exact absurd h (hbig _ (by omega) (by omega))
    · by_cases h3 : n ≤ 65535
      · simp only [if_neg h2, if_pos h3, List.mem_cons, List.not_mem_nil, or_false] at h
        obtain h | h | h := h <;> exact absurd h (hbig _ (by omega) (by omega))
      · simp only [if_neg h2, if_neg h3, List.mem_cons, List.not_mem_nil, or_false] at h
        obtain h | h | h | h := h <;> exact absurd h (hbig _ (by omega) (by omega))

theorem utf8EncodeChar_ascii {c : Char} (h : c.toNat < 128) :
    String.utf8EncodeChar c = [UInt8.ofNat c.toNat] :=
  if_pos (Nat.le_of_lt_succ h)

theorem utf8_split {cs : List Char} {u v : List UInt8} {b : UInt8} (hb : b.toNat < 128)
    (h : cs.flatMap String.utf8EncodeChar = u ++ b :: v) :
    ∃ x c y, cs = x ++ c :: y ∧ x.flatMap String.utf8EncodeChar = u ∧ c.toNat = b.toNat ∧
      y.flatMap String.utf8EncodeChar = v := by
  induction cs generalizing u with
  | nil => simp at h
  | cons d cs ih =>
    rw [List.flatMap_cons] at h
    obtain ⟨w, hu, hw⟩ | ⟨w, hd, hw⟩ := List.append_eq_append_iff.mp h
    · obtain ⟨x, c, y, rfl, hx, hc, hy⟩ := ih hw
      exact ⟨d :: x, c, y, rfl, by simp [hx, hu], hc, hy⟩
    · cases w with
      | nil =>
        obtain ⟨x, c, y, rfl, hx, hc, hy⟩ := ih (u := []) (by simpa using hw.symm)
        exact ⟨d :: x, c, y, rfl, by simp [hx, hd], hc, hy⟩
      | cons b' w =>
        obtain ⟨rfl, hw⟩ := List.cons.inj hw
        obtain ⟨hc, he⟩ := ascii_of_mem (c := d) (b := b) (by simp [hd]) hb
        rw [he] at hd
        obtain ⟨rfl, rfl⟩ : u = [] ∧ w = [] := by
          cases u with
          | nil => simpa using hd
          | cons => simp at hd
        exact ⟨[], d, cs, rfl, rfl, hc, by simpa using hw.symm⟩

end Text

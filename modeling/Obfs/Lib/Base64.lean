import Mathlib.Data.List.GetD
import Mathlib.Data.List.Nodup

/-! Base64 over any alphabet: bytes as digits of six bits, the digits as symbols,
and padding up to a multiple of four symbols. -/
namespace Base64
variable {σ : Type*}

structure Alphabet (σ : Type*) where
  symbols : List σ
  pad : σ
  length_eq : symbols.length = 64
  nodup : symbols.Nodup
  pad_notMem : pad ∉ symbols

def charsFrom (first : Char) (n : Nat) : List Char :=
  (List.range n).map fun d => Char.ofNat (first.toNat + d)

/-- The alphabet of RFC 4648, table 1: the letters A to Z have the values 0 to 25, the
letters a to z 26 to 51, the digits 52 to 61, the plus sign 62 and the slash 63. -/
def standard : Alphabet Char where
  symbols := charsFrom 'A' 26 ++ charsFrom 'a' 26 ++ charsFrom '0' 10 ++ ['+', '/']
  pad := '='
  length_eq := by decide
  nodup := by decide +kernel
  pad_notMem := by decide +kernel

/-- The digits of the bits of the bytes; the last digit is filled with zeros. -/
def digits : List UInt8 → List Nat
  | [] => []
  | [b0] => [b0.toNat / 4, b0.toNat % 4 * 16]
  | [b0, b1] => [b0.toNat / 4, b0.toNat % 4 * 16 + b1.toNat / 16, b1.toNat % 16 * 4]
  | b0 :: b1 :: b2 :: rest =>
    b0.toNat / 4 :: (b0.toNat % 4 * 16 + b1.toNat / 16) :: (b1.toNat % 16 * 4 + b2.toNat / 64) ::
      b2.toNat % 64 :: digits rest

/-- The bytes of digits; bits that do not fill a byte have to be zero. -/
def bytes : List Nat → Option (List UInt8)
  | [] => some []
  | [_] => none
  | [d0, d1] => if d1 % 16 = 0 then some [(d0 * 4 + d1 / 16).toUInt8] else none
  | [d0, d1, d2] =>
    if d2 % 4 = 0 then some [(d0 * 4 + d1 / 16).toUInt8, (d1 % 16 * 16 + d2 / 4).toUInt8] else none
  | d0 :: d1 :: d2 :: d3 :: rest =>
    (bytes rest).map fun bs => (d0 * 4 + d1 / 16).toUInt8 :: (d1 % 16 * 16 + d2 / 4).toUInt8 ::
      (d2 % 4 * 64 + d3).toUInt8 :: bs

def padding (n : Nat) : Nat := (3 - n % 3) % 3

def Alphabet.symbol (A : Alphabet σ) (d : Nat) : σ := A.symbols.getD d A.pad

def encode (A : Alphabet σ) (x : List UInt8) : List σ :=
  (digits x).map A.symbol ++ List.replicate (padding x.length) A.pad

section
variable [DecidableEq σ]

def Alphabet.digit (A : Alphabet σ) (s : σ) : Option Nat :=
  if s ∈ A.symbols then some (A.symbols.idxOf s) else none

/-- Strict decoding: a multiple of four symbols, at most two of them padding and
only at the end, and no bit lost. -/
def decode (A : Alphabet σ) (text : List σ) : Option (List UInt8) :=
  let body := text.takeWhile (· ≠ A.pad)
  let pads := text.dropWhile (· ≠ A.pad)
  if text.length % 4 = 0 ∧ pads.length ≤ 2 ∧ ∀ s ∈ pads, s = A.pad then
    (body.mapM A.digit).bind bytes
  else none

end

theorem digits_lt {x : List UInt8} {d : Nat} (h : d ∈ digits x) : d < 64 := by
  fun_induction digits x with
  | case1 => cases h
  | case2 b0 =>
    have h0 := b0.toNat_lt
    simp only [List.mem_cons, List.not_mem_nil, or_false] at h
    omega
  | case3 b0 b1 =>
    have h0 := b0.toNat_lt
    have h1 := b1.toNat_lt
    simp only [List.mem_cons, List.not_mem_nil, or_false] at h
    omega
  | case4 b0 b1 b2 rest ih =>
    have h0 := b0.toNat_lt
    have h1 := b1.toNat_lt
    have h2 := b2.toNat_lt
    simp only [List.mem_cons] at h
    obtain h | h | h | h | h := h
    · omega
    · omega
    · omega
    · omega
    · exact ih h

theorem length_digits (x : List UInt8) :
    (digits x).length + padding x.length = 4 * ((x.length + 2) / 3) := by
  fun_induction digits x with
  | case1 => rfl
  | case2 => simp [padding]
  | case3 => simp [padding]
  | case4 b0 b1 b2 rest ih =>
    simp only [List.length_cons, padding] at ih ⊢
    omega

theorem toUInt8_eq {n : Nat} {b : UInt8} (h : n = b.toNat) : n.toUInt8 = b := by
  subst h
  exact UInt8.ofNat_toNat

theorem bytes_digits (x : List UInt8) : bytes (digits x) = some x := by
  fun_induction digits x with
  | case1 => rfl
  | case2 b0 =>
    rw [bytes, if_pos (by omega), toUInt8_eq (b := b0) (by omega)]
  | case3 b0 b1 =>
    have h1 := b1.toNat_lt
    rw [bytes, if_pos (by omega), toUInt8_eq (b := b0) (by omega), toUInt8_eq (b := b1) (by omega)]
  | case4 b0 b1 b2 rest ih =>
    have h1 := b1.toNat_lt
    have h2 := b2.toNat_lt
    rw [bytes, ih, Option.map_some, toUInt8_eq (b := b0) (by omega),
      toUInt8_eq (b := b1) (by omega), toUInt8_eq (b := b2) (by omega)]

namespace Alphabet
variable (A : Alphabet σ)

theorem symbol_mem {d : Nat} (h : d < 64) : A.symbol d ∈ A.symbols := by
  rw [← A.length_eq] at h
  rw [symbol, List.getD_eq_getElem _ _ h]
  exact List.getElem_mem h

theorem symbol_ne_pad {d : Nat} (h : d < 64) : A.symbol d ≠ A.pad := by
  intro he
  exact A.pad_notMem (he ▸ A.symbol_mem h)

variable [DecidableEq σ]

theorem digit_symbol {d : Nat} (h : d < 64) : A.digit (A.symbol d) = some d := by
  rw [digit, if_pos (A.symbol_mem h)]
  rw [← A.length_eq] at h
  rw [symbol, List.getD_eq_getElem _ _ h, A.nodup.idxOf_getElem]

theorem mapM_digit {ds : List Nat} (h : ∀ {d}, d ∈ ds → d < 64) :
    (ds.map A.symbol).mapM A.digit = some ds := by
  induction ds with
  | nil => rfl
  | cons d ds ih =>
    have hd : A.digit (A.symbol d) = some d := A.digit_symbol (h List.mem_cons_self)
    rw [List.map_cons, List.mapM_cons, hd, ih fun hm => h (List.mem_cons_of_mem _ hm)]
    rfl

end Alphabet

theorem length_encode (A : Alphabet σ) (x : List UInt8) :
    (encode A x).length = 4 * ((x.length + 2) / 3) := by
  rw [encode, List.length_append, List.length_map, List.length_replicate, length_digits]

theorem decode_encode [DecidableEq σ] (A : Alphabet σ) (x : List UInt8) :
    decode A (encode A x) = some x := by
  have hbody : ∀ s ∈ (digits x).map A.symbol, (s ≠ A.pad : Bool) = true := by
    intro s hs
    obtain ⟨d, hd, rfl⟩ := List.mem_map.mp hs
    simpa using A.symbol_ne_pad (digits_lt hd)
  have hpads : ∀ n, (List.replicate n A.pad).takeWhile (· ≠ A.pad) = [] ∧
      (List.replicate n A.pad).dropWhile (· ≠ A.pad) = List.replicate n A.pad := by
    intro n
    cases n with
    | zero => exact ⟨rfl, rfl⟩
    | succ n => simp [List.replicate_succ]
  have hlen := length_encode A x
  rw [decode]
  rw [if_pos]
  · rw [encode, List.takeWhile_append_of_pos hbody, (hpads _).1, List.append_nil,
      A.mapM_digit digits_lt]
    exact bytes_digits x
  · rw [hlen, encode, List.dropWhile_append_of_pos hbody, (hpads _).2]
    refine ⟨by omega, ?_, fun s hs => List.eq_of_mem_replicate hs⟩
    rw [List.length_replicate, padding]
    omega

end Base64

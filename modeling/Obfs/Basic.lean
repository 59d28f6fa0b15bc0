import Mathlib.Data.List.Basic

/-! Bytes, fixed-size arrays, socket addresses with their text form, and the
monotonic clock, as the crate uses them from the standard library. -/
namespace Obfs

abbrev Bytes := List UInt8

def utf8 (s : String) : Bytes := s.toList.flatMap String.utf8EncodeChar

theorem utf8_injective {s t : String} (h : utf8 s = utf8 t) : s = t := by
  apply String.toByteArray_inj.mp
  rw [← String.utf8Encode_toList, ← String.utf8Encode_toList, List.utf8Encode, List.utf8Encode]
  exact congrArg List.toByteArray h

def Arr (n : Nat) : Type := { b : Bytes // b.length = n }

instance (n : Nat) : DecidableEq (Arr n) :=
  inferInstanceAs (DecidableEq { b : Bytes // b.length = n })

abbrev Key := Arr 32
abbrev Cookie := Arr 16

/- The array that copy_from_slice fills from the first n bytes of a slice. -/
def Arr.ofTake (n : Nat) (b : Bytes) (h : n ≤ b.length) : Arr n :=
  ⟨b.take n, by simp [h]⟩

theorem Arr.ofTake_val {n : Nat} (a : Arr n) (h : n ≤ a.val.length) : Arr.ofTake n a.val h = a :=
  Subtype.ext (List.take_of_length_le (Nat.le_of_eq a.property))

/-- Instants and durations in nanoseconds. -/
abbrev Instant := Nat

def fromMillis (n : Nat) : Nat := n * 1000000
def fromSecs (n : Nat) : Nat := n * 1000000000

/- Instant::duration_since saturates at zero, as subtraction on Nat does. -/
def durationSince (now earlier : Instant) : Nat := now - earlier

inductive SocketAddr where
  | v4 (a b c d : UInt8) (port : UInt16)
  | v6 (s0 s1 s2 s3 s4 s5 s6 s7 : UInt16) (port : UInt16) (flowinfo scopeId : UInt32)
  deriving DecidableEq

def decimal (n : Nat) : String := toString n

def lowerHex (n : Nat) : String := String.ofList (Nat.toDigits 16 n)

def ipv4Text (a b c d : UInt8) : String :=
  decimal a.toNat ++ "." ++ decimal b.toNat ++ "." ++ decimal c.toNat ++ "." ++ decimal d.toNat

def segmentsText (xs : List UInt16) : String :=
  ":".intercalate (xs.map fun x => lowerHex x.toNat)

/- First longest run of zero segments: its start and its length. -/
def zeroRun (i start len bestStart bestLen : Nat) : List UInt16 → Nat × Nat
  | [] => (bestStart, bestLen)
  | x :: xs =>
    if x = 0 then
      let start' := if len = 0 then i else start
      if len + 1 > bestLen then zeroRun (i + 1) start' (len + 1) start' (len + 1) xs
      else zeroRun (i + 1) start' (len + 1) bestStart bestLen xs
    else zeroRun (i + 1) 0 0 bestStart bestLen xs

def ipv6Text (segments : List UInt16) : String :=
  match segments with
  | [0, 0, 0, 0, 0, 0xffff, hi, lo] =>
    "::ffff:" ++ ipv4Text (hi.toNat / 256).toUInt8 (hi.toNat % 256).toUInt8
      (lo.toNat / 256).toUInt8 (lo.toNat % 256).toUInt8
  | _ =>
    let z := zeroRun 0 0 0 0 0 segments
    if z.2 > 1 then
      segmentsText (segments.take z.1) ++ "::" ++ segmentsText (segments.drop (z.1 + z.2))
    else segmentsText segments

def SocketAddr.toText : SocketAddr → String
  | .v4 a b c d port => ipv4Text a b c d ++ ":" ++ decimal port.toNat
  | .v6 s0 s1 s2 s3 s4 s5 s6 s7 port _ scopeId =>
    let ip := ipv6Text [s0, s1, s2, s3, s4, s5, s6, s7]
    if scopeId = 0 then "[" ++ ip ++ "]:" ++ decimal port.toNat
    else "[" ++ ip ++ "%" ++ decimal scopeId.toNat ++ "]:" ++ decimal port.toNat

example : (SocketAddr.v4 203 0 113 7 51820).toText = "203.0.113.7:51820" := by decide
example : (SocketAddr.v6 0x2001 0xdb8 0 0 0 0 0 1 443 0 0).toText = "[2001:db8::1]:443" := by decide
example : (SocketAddr.v6 0 0 0 0 0 0 0 0 1 0 7).toText = "[::%7]:1" := by decide

end Obfs

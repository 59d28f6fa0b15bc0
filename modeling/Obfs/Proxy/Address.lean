import Obfs.Envelope
import Obfs.Lib.Converse
import Obfs.Lib.Text

/-! Addresses of proxies and targets as text: parse_addr of proxy/mod.rs, and the
text host:port that a request to a proxy carries. -/
namespace Obfs.Proxy

structure ProxyAuth where
  user : String
  pass : String

inductive Host where
  | v4 (addr : Bytes)
  | name (text : Bytes)
  | v6 (addr : Bytes)
  deriving DecidableEq

structure Dest where
  host : Host
  port : UInt16
  deriving DecidableEq

abbrev Stream (C : Core) := Dialogue UInt8 (ObfsError C)
abbrev Party := Dialogue.Peer UInt8 Dest

def ioErr {C : Core} (msg : String) : ObfsError C := .io { text := msg }

def earlyEof {C : Core} : ObfsError C := .io ⟨.unexpectedEof, "early eof"⟩

abbrev runOn {C : Core} {α : Type} {cap : Nat} (t : Stream C α)
    (reads : List (Framing.Read UInt8 IoError cap)) :
    Dialogue.Spoken UInt8 (ObfsError C) α (List (Framing.Read UInt8 IoError cap)) :=
  Dialogue.converse earlyEof .io t reads

/-- The number of u16::from_str: digits, after at most one plus sign. -/
def parseU16 (text : List Char) : Option UInt16 :=
  let digits := if text.head? = some '+' then text.tail else text
  if digits ≠ [] ∧ digits.all Char.isDigit = true ∧ Nat.ofDigitChars 10 digits 0 < 65536 then
    some (Nat.ofDigitChars 10 digits 0).toUInt16
  else none

/-- Host and port around the last colon. -/
def parseAddr {C : Core} (addr : String) : Except (ObfsError C) (String × UInt16) :=
  match Text.splitLast ':' addr.toList with
  | none => .error (ioErr "invalid proxy addr")
  | some (host, port) =>
    match parseU16 port with
    | none => .error (ioErr "invalid proxy port")
    | some port => .ok (String.ofList host, port)

/-- Neither white space nor control characters of ASCII. -/
def Clean (text : String) : Prop := ∀ c ∈ text.toList, 0x20 < c.toNat ∧ c.toNat ≠ 0x7F

instance (text : String) : Decidable (Clean text) :=
  List.decidableBAll (fun c : Char => 0x20 < c.toNat ∧ c.toNat ≠ 0x7F) text.toList

theorem clean_parseAddr {C : Core} {addr host : String} {port : UInt16} (hc : Clean addr)
    (h : parseAddr addr = (.ok (host, port) : Except (ObfsError C) _)) : Clean host := by
  unfold parseAddr at h
  split at h
  · cases h
  · rename_i before after hs
    split at h
    · cases h
    · cases h
      intro c hm
      rw [String.toList_ofList] at hm
      exact hc c (by rw [Text.append_of_splitLast hs]; simp [hm])

theorem utf8_append (s t : String) : utf8 (s ++ t) = utf8 s ++ utf8 t := by
  simp [utf8, String.toList_append]

/-- An ASCII byte of a text is one of its characters. -/
theorem mem_utf8 {s : String} {b : UInt8} (h : b ∈ utf8 s) (hb : b.toNat < 128) :
    ∃ c ∈ s.toList, c.toNat = b.toNat := by
  obtain ⟨c, hc, hm⟩ := List.mem_flatMap.mp h
  exact ⟨c, hc, (Text.ascii_of_mem hm hb).1⟩

theorem notMem_utf8 {s : String} (hc : Clean s) {b : UInt8} (hb : b.toNat ≤ 0x20) : b ∉ utf8 s := by
  intro hm
  obtain ⟨c, hmem, he⟩ := mem_utf8 hm (by omega)
  have := (hc c hmem).1
  omega

theorem decimal_toList (n : Nat) : (decimal n).toList = Nat.toDigits 10 n := by
  simp [decimal, Nat.repr]

theorem isDigit_decimal {n : Nat} {c : Char} (h : c ∈ (decimal n).toList) : c.isDigit = true := by
  rw [decimal_toList] at h
  exact Nat.isDigit_of_mem_toDigits (by omega) (by omega) h

theorem toNat_of_isDigit {c : Char} (h : c.isDigit = true) : 48 ≤ c.toNat ∧ c.toNat ≤ 57 := by
  simp only [Char.isDigit, Bool.and_eq_true, decide_eq_true_eq, ge_iff_le,
    UInt32.le_iff_toNat_le] at h
  exact h

theorem utf8_ascii {s : String} (h : ∀ c ∈ s.toList, c.toNat < 128) :
    utf8 s = s.toList.map fun c => UInt8.ofNat c.toNat := by
  unfold utf8
  generalize s.toList = cs at h
  induction cs with
  | nil => rfl
  | cons c cs ih =>
    obtain ⟨hc, hcs⟩ := List.forall_mem_cons.mp h
    rw [List.flatMap_cons, Text.utf8EncodeChar_ascii hc, ih hcs]
    rfl

theorem chars_utf8 {s : String} (h : ∀ c ∈ s.toList, c.toNat < 128) :
    ((utf8 s).map fun b => Char.ofNat b.toNat) = s.toList := by
  rw [utf8_ascii h, List.map_map]
  refine (List.map_congr_left ?_).trans (List.map_id _)
  intro c hc
  have := h c hc
  show Char.ofNat (UInt8.ofNat c.toNat).toNat = c
  rw [UInt8.toNat_ofNat', Nat.mod_eq_of_lt (by omega), Char.ofNat_toNat]

theorem decimal_ascii {n : Nat} {c : Char} (h : c ∈ (decimal n).toList) : c.toNat < 128 := by
  have := toNat_of_isDigit (isDigit_decimal h)
  omega

theorem mem_utf8_decimal {n : Nat} {b : UInt8} (h : b ∈ utf8 (decimal n)) :
    48 ≤ b.toNat ∧ b.toNat ≤ 57 := by
  rw [utf8_ascii fun _ => decimal_ascii] at h
  obtain ⟨c, hc, rfl⟩ := List.mem_map.mp h
  have := toNat_of_isDigit (isDigit_decimal hc)
  rw [UInt8.toNat_ofNat']
  omega

theorem parseU16_decimal {n : Nat} (hn : n < 65536) :
    parseU16 (decimal n).toList = some n.toUInt16 := by
  have hdigit (c : Char) (h : c ∈ (decimal n).toList) := isDigit_decimal h
  rw [decimal_toList] at hdigit ⊢
  have hplus : (Nat.toDigits 10 n).head? ≠ some '+' := by
    intro h
    exact absurd (hdigit '+' (List.mem_of_mem_head? h)) (by decide)
  simp only [parseU16, if_neg hplus]
  rw [if_pos ⟨Nat.toDigits_ne_nil, List.all_eq_true.mpr hdigit,
    by rwa [Nat.ofDigitChars_ten_toDigits]⟩, Nat.ofDigitChars_ten_toDigits]

end Obfs.Proxy

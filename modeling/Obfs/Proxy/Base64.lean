import Obfs.Lib.Base64
import Obfs.Proxy.HttpConnect

/-! The encoder base64_encode of proxy/http_connect.rs is the base64 of RFC 4648:
its table is the alphabet of the RFC, and its shifts and masks take the six-bit
digits of each chunk. -/
namespace Obfs.Proxy

theorem base64Chars_eq : base64Chars = Base64.standard.symbols := by decide +kernel

theorem base64Char_eq (i : UInt32) : base64Char i = Base64.standard.symbol i.toNat := by
  rw [base64Char, base64Chars_eq]
  rfl

def chunkIndices (chunk : Bytes) : List UInt32 :=
  let b0 := (chunk.getD 0 0).toUInt32
  let b1 := (chunk.getD 1 0).toUInt32
  let b2 := (chunk.getD 2 0).toUInt32
  let n := (b0 <<< 16) ||| (b1 <<< 8) ||| b2
  [n >>> 18, (n >>> 12) &&& 0x3F] ++
    (if chunk.length > 1 then [(n >>> 6) &&& 0x3F] else []) ++
    (if chunk.length > 2 then [n &&& 0x3F] else [])

def tableIndices : Bytes → List UInt32
  | b0 :: b1 :: b2 :: rest => chunkIndices [b0, b1, b2] ++ tableIndices rest
  | [] => []
  | chunk => chunkIndices chunk

/- A byte that is shifted by at most three bytes stays in the word. -/
theorem byte_shiftLeft (b : UInt8) {k : UInt32} (hk : k.toNat ≤ 24) :
    (b.toUInt32 <<< k).toNat = b.toNat <<< k.toNat := by
  have hfit : b.toNat <<< k.toNat < 2 ^ 32 := by
    rw [Nat.shiftLeft_eq]
    calc b.toNat * 2 ^ k.toNat
      _ ≤ b.toNat * 2 ^ 24 := Nat.mul_le_mul_left _ (Nat.pow_le_pow_right (by decide) hk)
      _ < 2 ^ 32 := by
        have := b.toNat_lt
        omega
  have hmod : k.toNat % 32 = k.toNat := Nat.mod_eq_of_lt (by omega)
  rw [UInt32.toNat_shiftLeft, UInt8.toNat_toUInt32, hmod, Nat.mod_eq_of_lt hfit]

theorem chunk_toNat (b0 b1 b2 : UInt8) :
    ((b0.toUInt32 <<< 16) ||| (b1.toUInt32 <<< 8) ||| b2.toUInt32).toNat =
      b0.toNat * 65536 + b1.toNat * 256 + b2.toNat := by
  have h1 := b1.toNat_lt
  have h2 := b2.toNat_lt
  have hs0 : (b0.toUInt32 <<< 16).toNat = b0.toNat <<< 16 := byte_shiftLeft b0 (by decide)
  have hs1 : (b1.toUInt32 <<< 8).toNat = b1.toNat <<< 8 := byte_shiftLeft b1 (by decide)
  -- the three bytes do not overlap, so or is a sum
  have hor : b1.toNat <<< 8 ||| b2.toNat = b1.toNat <<< 8 + b2.toNat :=
    (Nat.shiftLeft_add_eq_or_of_lt h2 _).symm
  have hlow : b1.toNat <<< 8 + b2.toNat < 2 ^ 16 := by
    rw [Nat.shiftLeft_eq]
    omega
  rw [UInt32.toNat_or, UInt32.toNat_or, hs0, hs1, UInt8.toNat_toUInt32, Nat.or_assoc, hor,
    ← Nat.shiftLeft_add_eq_or_of_lt hlow, Nat.shiftLeft_eq, Nat.shiftLeft_eq]
  omega

theorem sextet_toNat (n : UInt32) : (n &&& 0x3F).toNat = n.toNat % 64 := by
  rw [UInt32.toNat_and]
  exact Nat.and_two_pow_sub_one_eq_mod n.toNat 6

theorem shiftRight_toNat (n : UInt32) {k : UInt32} (hk : k.toNat < 32) :
    (n >>> k).toNat = n.toNat >>> k.toNat := by
  rw [UInt32.toNat_shiftRight, Nat.mod_eq_of_lt hk]

/-- The indices of a whole chunk; of a shorter one they are the first of these,
with zeros for the bytes that it lacks. -/
theorem sextets_toNat (b0 b1 b2 : UInt8) :
    (chunkIndices [b0, b1, b2]).map UInt32.toNat =
      [b0.toNat / 4, b0.toNat % 4 * 16 + b1.toNat / 16, b1.toNat % 16 * 4 + b2.toNat / 64,
        b2.toNat % 64] := by
  have h0 := b0.toNat_lt
  have h1 := b1.toNat_lt
  have h2 := b2.toNat_lt
  have hn := chunk_toNat b0 b1 b2
  show [_, _, _, _] = _
  simp only [List.getD_cons_zero, List.getD_cons_succ]
  generalize (b0.toUInt32 <<< 16) ||| (b1.toUInt32 <<< 8) ||| b2.toUInt32 = n at hn ⊢
  have h18 : (n >>> 18).toNat = n.toNat / 262144 :=
    (shiftRight_toNat n (by decide)).trans (Nat.shiftRight_eq_div_pow n.toNat 18)
  have h12 : (n >>> 12).toNat = n.toNat / 4096 :=
    (shiftRight_toNat n (by decide)).trans (Nat.shiftRight_eq_div_pow n.toNat 12)
  have h6 : (n >>> 6).toNat = n.toNat / 64 :=
    (shiftRight_toNat n (by decide)).trans (Nat.shiftRight_eq_div_pow n.toNat 6)
  simp only [sextet_toNat, h18, h12, h6, hn, List.cons.injEq, and_true]
  omega

theorem indices_toNat (x : Bytes) : (tableIndices x).map UInt32.toNat = Base64.digits x := by
  fun_induction Base64.digits x with
  | case1 => rfl
  | case2 b0 =>
    have h : (tableIndices [b0]).map UInt32.toNat =
        ((chunkIndices [b0, 0, 0]).map UInt32.toNat).take 2 := rfl
    rw [h, sextets_toNat]
    rfl
  | case3 b0 b1 =>
    have h : (tableIndices [b0, b1]).map UInt32.toNat =
        ((chunkIndices [b0, b1, 0]).map UInt32.toNat).take 3 := rfl
    rw [h, sextets_toNat]
    rfl
  | case4 b0 b1 b2 rest ih =>
    rw [tableIndices, List.map_append, sextets_toNat, ih]
    rfl

theorem encodeChunks_eq (x : Bytes) :
    encodeChunks x =
      (tableIndices x).map base64Char ++ List.replicate (Base64.padding x.length) '=' := by
  fun_induction Base64.digits x with
  | case1 => rfl
  | case2 b0 => rfl
  | case3 b0 b1 => rfl
  | case4 b0 b1 b2 rest ih =>
    have hpad : Base64.padding (b0 :: b1 :: b2 :: rest).length = Base64.padding rest.length := by
      simp only [Base64.padding, List.length_cons]
      omega
    rw [encodeChunks, tableIndices, ih, hpad, List.map_append, List.append_assoc]
    rfl

theorem encodeChunks_standard (x : Bytes) :
    encodeChunks x = Base64.encode Base64.standard x := by
  rw [encodeChunks_eq, Base64.encode, ← indices_toNat, List.map_map,
    List.map_congr_left fun i _ => base64Char_eq i]
  rfl

theorem decode_base64Encode (x : Bytes) :
    Base64.decode Base64.standard (base64Encode x).toList = some x := by
  rw [base64Encode, String.toList_ofList, encodeChunks_standard]
  exact Base64.decode_encode Base64.standard x

theorem tableIndices_lt {x : Bytes} {i : UInt32} (hi : i ∈ tableIndices x) : i.toNat < 64 := by
  apply Base64.digits_lt (x := x)
  rw [← indices_toNat]
  exact List.mem_map_of_mem hi

theorem base64Chars_getElem {i : UInt32} (hi : i.toNat < 64) :
    base64Chars[i.toNat]? = some (base64Char i) := by
  have hin : i.toNat < base64Chars.length := hi
  rw [base64Char, List.getD_eq_getElem _ _ hin, List.getElem?_eq_getElem hin]

/-- The encoder is that of RFC 4648: decoding gives back the bytes, there are four
characters for every three bytes and for the rest, the padding is what is missing
of the last three bytes and stands at the end, all before it are characters of the
alphabet, and no index leaves the table, which is the alphabet of the RFC. -/
theorem base64_encode_rfc4648 (x : Bytes) :
    Base64.decode Base64.standard (base64Encode x).toList = some x ∧
      (base64Encode x).length = 4 * ((x.length + 2) / 3) ∧
      (base64Encode x).toList =
        (tableIndices x).map base64Char ++ List.replicate ((3 - x.length % 3) % 3) '=' ∧
      (∀ c ∈ (tableIndices x).map base64Char, c ∈ Base64.standard.symbols) ∧
      ∀ i ∈ tableIndices x, i.toNat < 64 ∧ base64Chars[i.toNat]? = some (base64Char i) ∧
        Base64.standard.symbols[i.toNat]? = some (base64Char i) := by
  refine ⟨decode_base64Encode x, ?_, ?_, ?_, ?_⟩
  · rw [← String.length_toList, base64Encode, String.toList_ofList, encodeChunks_standard]
    exact Base64.length_encode Base64.standard x
  · rw [base64Encode, String.toList_ofList]
    exact encodeChunks_eq x
  · intro c hc
    obtain ⟨i, hi, rfl⟩ := List.mem_map.mp hc
    rw [base64Char_eq]
    exact Base64.standard.symbol_mem (tableIndices_lt hi)
  · intro i hi
    have hget := base64Chars_getElem (tableIndices_lt hi)
    exact ⟨tableIndices_lt hi, hget, base64Chars_eq ▸ hget⟩

example : base64Encode (utf8 "fooba") = "Zm9vYmE=" := by decide +kernel

end Obfs.Proxy

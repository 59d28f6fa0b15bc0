import Obfs.Proxy.Address

/-! The HTTP CONNECT client of proxy/http_connect.rs, a proxy that answers it with
any legal response, and the two against each other. -/
namespace Obfs.Proxy
open Dialogue

def base64Chars : List Char :=
  "ABCDEFGHIJKLMNOPQRSTUVWXYZabcdefghijklmnopqrstuvwxyz0123456789+/".toList

/- The index is below 64 for every chunk. -/
def base64Char (i : UInt32) : Char := base64Chars.getD i.toNat '='

def encodeChunk (chunk : Bytes) : List Char :=
  let b0 := (chunk.getD 0 0).toUInt32
  let b1 := (chunk.getD 1 0).toUInt32
  let b2 := (chunk.getD 2 0).toUInt32
  let n := (b0 <<< 16) ||| (b1 <<< 8) ||| b2
  [base64Char (n >>> 18), base64Char ((n >>> 12) &&& 0x3F),
    if chunk.length > 1 then base64Char ((n >>> 6) &&& 0x3F) else '=',
    if chunk.length > 2 then base64Char (n &&& 0x3F) else '=']

def encodeChunks : Bytes → List Char
  | b0 :: b1 :: b2 :: rest => encodeChunk [b0, b1, b2] ++ encodeChunks rest
  | [] => []
  | chunk => encodeChunk chunk

def base64Encode (input : Bytes) : String := String.ofList (encodeChunks input)

example : base64Encode (utf8 "a:bc") = "YTpiYw==" := by decide +kernel

def hostPort (host : String) (port : UInt16) : String := host ++ ":" ++ decimal port.toNat

def authorization (creds : ProxyAuth) : String :=
  "Proxy-Authorization: Basic " ++ base64Encode (utf8 (creds.user ++ ":" ++ creds.pass))

def connectText (host : String) (port : UInt16) (auth : Option ProxyAuth) : String :=
  "CONNECT " ++ hostPort host port ++ " HTTP/1.1\r\nHost: " ++ hostPort host port ++ "\r\n" ++
    (match auth with
    | some creds => authorization creds ++ "\r\n"
    | none => "") ++ "\r\n"

def maxResponse : Nat := 8192

def fromUtf8 (bytes : Bytes) : Option (List Char) := bytes.toByteArray.utf8Decode?.map Array.toList

def stripCr (line : List Char) : List Char :=
  if line.getLast? = some '\r' then line.dropLast else line

/-- The first of str::lines: up to LF, or up to CR LF. -/
def firstLine (text : List Char) : Option (List Char) :=
  if text = [] then none
  else if '\n' ∈ text then some (stripCr (text.takeWhile (· ≠ '\n')))
  else some text

/-- The second of splitn(3, ' '). -/
def secondToken (line : List Char) : Option (List Char) :=
  match line.dropWhile (· ≠ ' ') with
  | [] => none
  | _ :: rest => some (rest.takeWhile (· ≠ ' '))

section
variable {C : Core}

/-- Byte by byte up to the empty line. The buffer grows with every byte, so that
the given fuel is never used up. -/
def readResponse : Nat → Bytes → Stream C Bytes
  | 0, _ => fail (ioErr "HTTP CONNECT: response header too large")
  | fuel + 1, responseBuf => do
    let byte ← readExact 1
    if (responseBuf ++ byte).length > maxResponse then
      fail (ioErr "HTTP CONNECT: response header too large")
    else if Text.endsHead (responseBuf ++ byte) then pure (responseBuf ++ byte)
    else readResponse fuel (responseBuf ++ byte)

def checkStatus (responseBuf : Bytes) : Except (ObfsError C) Unit :=
  match fromUtf8 responseBuf with
  | none => .error (ioErr "HTTP CONNECT: non-UTF8 response")
  | some responseStr =>
    match firstLine responseStr with
    | none => .error (ioErr "HTTP CONNECT: empty response")
    | some statusLine =>
      match secondToken statusLine with
      | none => .error (ioErr "HTTP CONNECT: malformed status line")
      | some codeStr =>
        match parseU16 codeStr with
        | none => .error (ioErr "HTTP CONNECT: non-numeric status code")
        | some statusCode =>
          if statusCode ≠ 200 then
            .error (ioErr ("HTTP CONNECT: proxy returned status " ++ decimal statusCode.toNat))
          else .ok ()

def tunnelHttpConnect (targetHost : String) (targetPort : UInt16) (auth : Option ProxyAuth) :
    Stream C Unit := do
  writeAll (utf8 (connectText targetHost targetPort auth))
  let responseBuf ← readResponse (maxResponse + 1) []
  ofExcept (checkStatus responseBuf)

end

/-- A response head as an HTTP proxy may send it. -/
structure HttpHead where
  version : Bytes
  status : Nat
  reason : Bytes
  fields : List Bytes
  version_clean : ∀ b ∈ version, b ≠ 32 ∧ b ≠ 13 ∧ b ≠ 10
  status_digits : 100 ≤ status ∧ status < 1000
  reason_clean : ∀ b ∈ reason, b ≠ 13 ∧ b ≠ 10
  fields_clean : ∀ f ∈ fields, Text.IsLine f

def HttpHead.statusLine (h : HttpHead) : Bytes :=
  h.version ++ 32 :: (utf8 (decimal h.status) ++ 32 :: h.reason)

theorem HttpHead.statusLine_clean (h : HttpHead) : ∀ b ∈ h.statusLine, b ≠ 13 ∧ b ≠ 10 := by
  intro b hb
  simp only [HttpHead.statusLine, List.mem_append, List.mem_cons] at hb
  obtain hb | rfl | hb | rfl | hb := hb
  · exact (h.version_clean b hb).2
  · decide
  · have := (mem_utf8_decimal hb).1
    constructor
    · rintro rfl
      exact absurd this (by decide)
    · rintro rfl
      exact absurd this (by decide)
  · decide
  · exact h.reason_clean b hb

def HttpHead.bytes (h : HttpHead) : Bytes := Text.head (h.statusLine :: h.fields)

inductive HttpOutcome where
  | opened (final : HttpHead) (success : 200 ≤ final.status ∧ final.status < 300)
  | refused (final : HttpHead) (failure : 300 ≤ final.status) (body : Bytes)

/-- What an honest HTTP proxy is free to choose: the interim responses that it
sends first, and how a request ends. -/
structure HttpProxy where
  interim : Bytes → List HttpHead
  interim_status : ∀ head, ∀ h ∈ interim head, h.status < 200
  outcome : Bytes → Dest → HttpOutcome

def requestTarget (head : Bytes) : Option Bytes :=
  let line := head.takeWhile (· ≠ 13)
  if line.takeWhile (· ≠ 32) = utf8 "CONNECT" then
    some (((line.dropWhile (· ≠ 32)).drop 1).takeWhile (· ≠ 32))
  else none

def targetDest (target : Bytes) : Option Dest :=
  match Text.splitLast 58 target with
  | none => none
  | some (host, port) =>
    (parseU16 (port.map fun b => Char.ofNat b.toNat)).map fun port => ⟨.name host, port⟩

namespace HttpProxy
variable (srv : HttpProxy)

def interimBytes (head : Bytes) : Bytes := (srv.interim head).flatMap HttpHead.bytes

def serve : Party :=
  .recv Text.endsHead fun head =>
    match (requestTarget head).bind targetDest with
    | none => .hangup
    | some dest =>
      .send (srv.interimBytes head)
        (match srv.outcome head dest with
        | .opened final _ => .accept dest final.bytes
        | .refused final _ body => .send (final.bytes ++ body) .hangup)

end HttpProxy

def OneLine (s : String) : Prop := ∀ c ∈ s.toList, c.toNat ≠ 13 ∧ c.toNat ≠ 10

instance (s : String) : Decidable (OneLine s) :=
  List.decidableBAll (fun c : Char => c.toNat ≠ 13 ∧ c.toNat ≠ 10) s.toList

theorem OneLine.append {s t : String} (hs : OneLine s) (ht : OneLine t) : OneLine (s ++ t) := by
  intro c hc
  rw [String.toList_append] at hc
  obtain hc | hc := List.mem_append.mp hc
  · exact hs c hc
  · exact ht c hc

theorem OneLine.isLine {s : String} (hs : OneLine s) (hne : utf8 s ≠ []) :
    Text.IsLine (utf8 s) := by
  refine ⟨hne, ?_⟩
  intro b hb
  constructor
  · rintro rfl
    obtain ⟨c, hc, he⟩ := mem_utf8 hb (by decide)
    exact (hs c hc).1 he
  · rintro rfl
    obtain ⟨c, hc, he⟩ := mem_utf8 hb (by decide)
    exact (hs c hc).2 he

theorem mem_base64 {i : UInt32} : base64Char i ∈ '=' :: base64Chars := by
  unfold base64Char
  rw [List.getD_eq_getElem?_getD]
  cases h : base64Chars[i.toNat]? with
  | none => exact List.mem_cons_self
  | some c => exact List.mem_cons_of_mem _ (List.mem_of_getElem? h)

theorem mem_encodeChunk {chunk : Bytes} {c : Char} (h : c ∈ encodeChunk chunk) :
    c ∈ '=' :: base64Chars := by
  simp only [encodeChunk, List.mem_cons, List.not_mem_nil, or_false] at h
  obtain rfl | rfl | h | h := h
  · exact mem_base64
  · exact mem_base64
  · split at h
    · exact h ▸ mem_base64
    · exact h ▸ List.mem_cons_self
  · split at h
    · exact h ▸ mem_base64
    · exact h ▸ List.mem_cons_self

theorem mem_encodeChunks {input : Bytes} {c : Char} (h : c ∈ encodeChunks input) :
    c ∈ '=' :: base64Chars := by
  fun_induction encodeChunks input with
  | case1 b0 b1 b2 rest ih =>
    obtain h | h := List.mem_append.mp h
    · exact mem_encodeChunk h
    · exact ih h
  | case2 => cases h
  | case3 => exact mem_encodeChunk h

theorem oneLine_base64Encode (input : Bytes) : OneLine (base64Encode input) := by
  have hall : OneLine (String.ofList ('=' :: base64Chars)) := by decide +kernel
  intro c hc
  rw [base64Encode, String.toList_ofList] at hc
  exact hall c (by rw [String.toList_ofList]; exact mem_encodeChunks hc)

theorem Clean.oneLine {s : String} (hc : Clean s) : OneLine s := by
  intro c hm
  have := (hc c hm).1
  omega

theorem oneLine_hostPort {host : String} {port : UInt16} (hc : OneLine host) :
    OneLine (hostPort host port) := by
  refine (hc.append (by decide)).append ?_
  intro c hm
  have := toNat_of_isDigit (isDigit_decimal hm)
  omega

def requestLines (host : String) (port : UInt16) (auth : Option ProxyAuth) : List Bytes :=
  [utf8 ("CONNECT " ++ hostPort host port ++ " HTTP/1.1"), utf8 ("Host: " ++ hostPort host port)] ++
    auth.toList.map fun creds => utf8 (authorization creds)

theorem connectText_lines (host : String) (port : UInt16) (auth : Option ProxyAuth) :
    utf8 (connectText host port auth) = Text.head (requestLines host port auth) := by
  have hmid : utf8 " HTTP/1.1\r\nHost: " = utf8 " HTTP/1.1" ++ 13 :: 10 :: utf8 "Host: " := by
    decide
  have hend : utf8 "\r\n" = [13, 10] := by decide
  unfold connectText requestLines Text.head
  cases auth with
  | none => simp [utf8_append, hmid, hend]
  | some creds => simp [utf8_append, hmid, hend]

section
variable {host : String} {port : UInt16} {auth : Option ProxyAuth}

theorem utf8_ne_nil {s t : String} (h : utf8 s ≠ []) : utf8 (s ++ t) ≠ [] := by
  rw [utf8_append]
  exact List.append_ne_nil_of_left_ne_nil h _

theorem isLine_requestLines (hc : OneLine host) :
    ∀ l ∈ requestLines host port auth, Text.IsLine l := by
  have hhp : OneLine (hostPort host port) := oneLine_hostPort hc
  intro l hl
  obtain hl | hl := List.mem_append.mp hl
  · simp only [List.mem_cons, List.not_mem_nil, or_false] at hl
    obtain rfl | rfl := hl
    · exact OneLine.isLine ((OneLine.append (by decide) hhp).append (by decide))
        (utf8_ne_nil (utf8_ne_nil (by decide)))
    · exact OneLine.isLine (OneLine.append (by decide) hhp) (utf8_ne_nil (by decide))
  · obtain ⟨creds, -, rfl⟩ := List.mem_map.mp hl
    exact OneLine.isLine (OneLine.append (by decide) (oneLine_base64Encode _))
      (utf8_ne_nil (by decide))

theorem cut_head {lines : List Bytes} (hne : lines ≠ []) (hl : ∀ l ∈ lines, Text.IsLine l) :
    cut Text.endsHead [] (Text.head lines) = some (Text.head lines, []) := by
  refine cut_message [] (Text.endsHead_head hne) ?_
  intro a b hab hb
  exact Text.endsHead_front hl hab hb

theorem cut_connectText (hc : Clean host) :
    cut Text.endsHead [] (utf8 (connectText host port auth)) =
      some (utf8 (connectText host port auth), []) := by
  rw [connectText_lines]
  exact cut_head (List.cons_ne_nil _ _) (isLine_requestLines hc.oneLine)

theorem utf8_hostPort (host : String) (port : UInt16) :
    utf8 (hostPort host port) = utf8 host ++ 58 :: utf8 (decimal port.toNat) := by
  have hcolon : utf8 ":" = [58] := by decide
  rw [hostPort, utf8_append, utf8_append, hcolon, List.append_assoc]
  rfl

theorem utf8_connectLine (target : String) :
    utf8 ("CONNECT " ++ target ++ " HTTP/1.1") =
      utf8 "CONNECT" ++ 32 :: (utf8 target ++ 32 :: utf8 "HTTP/1.1") := by
  have h1 : utf8 "CONNECT " = utf8 "CONNECT" ++ [32] := by decide
  have h2 : utf8 " HTTP/1.1" = 32 :: utf8 "HTTP/1.1" := by decide
  simp only [utf8_append, h1, h2, List.append_assoc, List.cons_append, List.nil_append]

theorem space_notMem_hostPort (h : 32 ∉ utf8 host) : 32 ∉ utf8 (hostPort host port) := by
  rw [utf8_hostPort]
  intro hm
  obtain hm | hm := List.mem_append.mp hm
  · exact h hm
  · obtain hm | hm := List.mem_cons.mp hm
    · exact absurd hm (by decide)
    · exact absurd (mem_utf8_decimal hm).1 (by decide)

theorem requestTarget_connectText (hc : Clean host) :
    requestTarget (utf8 (connectText host port auth)) = some (utf8 (hostPort host port)) := by
  have hline : utf8 (connectText host port auth) =
      utf8 ("CONNECT " ++ hostPort host port ++ " HTTP/1.1") ++ 13 :: 10 ::
        Text.head ((requestLines host port auth).drop 1) := by
    rw [connectText_lines]
    exact Text.head_cons _ _
  have hfirst (auth : Option ProxyAuth) :
      utf8 ("CONNECT " ++ hostPort host port ++ " HTTP/1.1") ∈ requestLines host port auth :=
    List.mem_cons_self
  have hcr : (13 : UInt8) ∉ utf8 ("CONNECT " ++ hostPort host port ++ " HTTP/1.1") := by
    intro hm
    exact absurd rfl ((isLine_requestLines hc.oneLine _ (hfirst auth)).2 13 hm).1
  have hsp : (32 : UInt8) ∉ utf8 (hostPort host port) :=
    space_notMem_hostPort (notMem_utf8 hc (by decide))
  unfold requestTarget
  rw [hline, Text.takeWhile_sep hcr, utf8_connectLine]
  simp only
  rw [Text.takeWhile_sep (by decide), if_pos rfl, Text.dropWhile_sep (by decide), List.drop_one,
    List.tail_cons, Text.takeWhile_sep hsp]

theorem targetDest_hostPort (host : String) (port : UInt16) :
    targetDest (utf8 (hostPort host port)) = some ⟨.name (utf8 host), port⟩ := by
  have hcolon : (58 : UInt8) ∉ utf8 (decimal port.toNat) := by
    intro hm
    exact absurd (mem_utf8_decimal hm).2 (by decide)
  unfold targetDest
  rw [utf8_hostPort, Text.splitLast_append _ hcolon]
  simp only
  rw [chars_utf8 fun _ => decimal_ascii, parseU16_decimal port.toNat_lt, Option.map_some]
  simp

end

theorem fromUtf8_eq_some {bytes : Bytes} {cs : List Char} (h : fromUtf8 bytes = some cs) :
    cs.flatMap String.utf8EncodeChar = bytes := by
  obtain ⟨chars, hd, rfl⟩ := Option.map_eq_some_iff.mp h
  have he := ByteArray.utf8Encode_get_utf8Decode? (b := bytes.toByteArray) (h := by simp [hd])
  simp only [hd, Option.get_some] at he
  exact List.toByteArray_inj.mp he

theorem eq_of_toNat {c d : Char} (h : c.toNat = d.toNat) : c = d := by
  rw [← Char.ofNat_toNat c, h, Char.ofNat_toNat]

theorem notMem_of_utf8 {cs : List Char} {bytes : Bytes} {c : Char} (hc : c.toNat < 128)
    (h : cs.flatMap String.utf8EncodeChar = bytes) (hb : UInt8.ofNat c.toNat ∉ bytes) : c ∉ cs := by
  intro hm
  refine hb ?_
  rw [← h]
  exact List.mem_flatMap.mpr ⟨c, hm, by simp [Text.utf8EncodeChar_ascii hc]⟩

theorem stripCr_concat (l : List Char) (c : Char) :
    stripCr (l ++ [c]) = if c = '\r' then l else l ++ [c] := by
  simp [stripCr]

theorem stripCr_append (a w : List Char) : stripCr (a ++ ' ' :: w) = a ++ ' ' :: stripCr w := by
  obtain rfl | ⟨w, c, rfl⟩ := List.eq_nil_or_concat' w
  · rw [stripCr_concat]
    rfl
  · have hassoc : a ++ ' ' :: (w ++ [c]) = (a ++ ' ' :: w) ++ [c] := by simp
    rw [hassoc, stripCr_concat, stripCr_concat]
    split
    · rfl
    · exact hassoc.symm

theorem status_token {h : HttpHead} {cs : List Char}
    (hcs : cs.flatMap String.utf8EncodeChar = h.bytes) :
    ∃ line, firstLine cs = some line ∧ secondToken line = some (decimal h.status).toList := by
  rw [HttpHead.bytes, Text.head_cons, HttpHead.statusLine, List.append_assoc, List.cons_append,
    List.append_assoc, List.cons_append] at hcs
  obtain ⟨x, c, y, rfl, hx, hc, hy⟩ := Text.utf8_split (b := 32) (by decide) hcs
  obtain ⟨d, c', w, rfl, hd, hc', -⟩ := Text.utf8_split (b := 32) (by decide) hy
  obtain rfl : c = ' ' := eq_of_toNat hc
  obtain rfl : c' = ' ' := eq_of_toNat hc'
  have hstatus : utf8 (String.ofList d) = utf8 (decimal h.status) := by
    rw [utf8, String.toList_ofList]
    exact hd
  obtain rfl : d = (decimal h.status).toList := by
    rw [← utf8_injective hstatus, String.toList_ofList]
  have hxs : ' ' ∉ x :=
    notMem_of_utf8 (by decide) hx fun hm => (h.version_clean _ hm).1 rfl
  have hxn : '\n' ∉ x :=
    notMem_of_utf8 (by decide) hx fun hm => (h.version_clean _ hm).2.2 rfl
  have hdigit (c : Char) (hm : c ∈ (decimal h.status).toList) : 48 ≤ c.toNat :=
    (toNat_of_isDigit (isDigit_decimal hm)).1
  have hds : ' ' ∉ (decimal h.status).toList := fun hm => absurd (hdigit _ hm) (by decide)
  have hdn : '\n' ∉ (decimal h.status).toList := fun hm => absurd (hdigit _ hm) (by decide)
  generalize (decimal h.status).toList = d at hds hdn
  have htoken (w : List Char) : secondToken (x ++ ' ' :: (d ++ ' ' :: w)) = some d := by
    rw [secondToken, Text.dropWhile_sep hxs]
    simp only
    rw [Text.takeWhile_sep hds]
  unfold firstLine
  rw [if_neg (by simp)]
  split
  · refine ⟨_, rfl, ?_⟩
    have hfront : ∀ c ∈ x ++ ' ' :: (d ++ [' ']), (decide (c ≠ '\n')) = true := by
      intro c hm
      rw [decide_eq_true_eq]
      rintro rfl
      simp [hxn, hdn] at hm
    have hassoc : x ++ ' ' :: (d ++ ' ' :: w) = (x ++ ' ' :: (d ++ [' '])) ++ w := by simp
    rw [hassoc, List.takeWhile_append_of_pos hfront]
    have hback : (x ++ ' ' :: (d ++ [' '])) ++ w.takeWhile (fun c => decide (c ≠ '\n')) =
        (x ++ ' ' :: d) ++ ' ' :: w.takeWhile (fun c => decide (c ≠ '\n')) := by simp
    rw [hback, stripCr_append, List.append_assoc]
    exact htoken _
  · exact ⟨_, rfl, htoken w⟩

theorem status_of_check {C : Core} {h : HttpHead}
    (hk : checkStatus h.bytes = (.ok () : Except (ObfsError C) Unit)) : h.status = 200 := by
  unfold checkStatus at hk
  split at hk
  · cases hk
  · rename_i cs hcs
    obtain ⟨line, hline, htok⟩ := status_token (fromUtf8_eq_some hcs)
    have hlt := h.status_digits.2
    simp only [hline, htok, parseU16_decimal (show h.status < 65536 by omega)] at hk
    split at hk
    · cases hk
    · rename_i hs
      have hs' := congrArg UInt16.toNat (not_ne_iff.mp hs)
      rw [Nat.toUInt16, UInt16.toNat_ofNat'] at hs'
      have h200 : (200 : UInt16).toNat = 200 := rfl
      omega

section
variable {C : Core}

theorem readResponse_byte {fuel : Nat} {buf z : Bytes} {b : UInt8} {t : Stream C Bytes}
    (hlen : (buf ++ [b]).length ≤ maxResponse)
    (h : Takes (if Text.endsHead (buf ++ [b]) then done (buf ++ [b])
      else readResponse fuel (buf ++ [b])) z t) :
    Takes (readResponse (fuel + 1) buf) (b :: z) t := by
  refine Takes.read (x := [b]) rfl ?_
  show Takes (if (buf ++ [b]).length > maxResponse then _ else _) z t
  rw [if_neg (Nat.not_lt.mpr hlen)]
  exact h

theorem readResponse_takes {fuel : Nat} {buf z : Bytes} (hz : z ≠ [])
    (hend : Text.endsHead (buf ++ z) = true)
    (hun : ∀ a b, z = a ++ b → b ≠ [] → Text.endsHead (buf ++ a) = false)
    (hlen : (buf ++ z).length ≤ maxResponse) (hf : z.length ≤ fuel) :
    Takes (readResponse fuel buf : Stream C Bytes) z (done (buf ++ z)) := by
  induction z generalizing fuel buf with
  | nil => exact absurd rfl hz
  | cons b z ih =>
    have hassoc : buf ++ b :: z = (buf ++ [b]) ++ z := by simp
    cases fuel with
    | zero => cases hf
    | succ fuel =>
      refine readResponse_byte ?_ ?_
      · simp only [List.length_append, List.length_cons, List.length_nil] at hlen ⊢
        omega
      · by_cases hz' : z = []
        · subst hz'
          rw [if_pos hend]
          exact .refl _
        · rw [hun [b] z rfl hz', hassoc]
          refine ih hz' (hassoc ▸ hend) ?_ (hassoc ▸ hlen) (Nat.le_of_succ_le_succ hf)
          intro a c hac hc
          simpa using hun (b :: a) c (by simp [hac]) hc

theorem readResponse_fails {fuel : Nat} {buf z : Bytes}
    (hun : ∀ a b, z = a ++ b → b ≠ [] → Text.endsHead (buf ++ a) = false)
    (hlen : maxResponse < (buf ++ z).length) (hb : buf.length ≤ maxResponse)
    (hf : maxResponse < fuel + buf.length) :
    ∃ a c e, z = a ++ c ∧ Takes (readResponse fuel buf : Stream C Bytes) a (fail e) := by
  induction z generalizing fuel buf with
  | nil =>
    rw [List.append_nil] at hlen
    omega
  | cons b z ih =>
    have hassoc : buf ++ b :: z = (buf ++ [b]) ++ z := by simp
    cases fuel with
    | zero => omega
    | succ fuel =>
      have hone : (buf ++ [b]).length = buf.length + 1 := by simp
      by_cases hlong : (buf ++ [b]).length ≤ maxResponse
      · have hz : z ≠ [] := by
          rintro rfl
          omega
        have hbyte : Text.endsHead (buf ++ [b]) = false := hun [b] z rfl hz
        obtain ⟨a, c, e, rfl, ht⟩ : ∃ a c e, z = a ++ c ∧
            Takes (readResponse fuel (buf ++ [b]) : Stream C Bytes) a (fail e) := by
          refine ih ?_ (hassoc ▸ hlen) hlong (by omega)
          intro a c hac hc
          simpa using hun (b :: a) c (by simp [hac]) hc
        refine ⟨b :: a, c, e, rfl, readResponse_byte hlong ?_⟩
        rw [hbyte]
        exact ht
      · refine ⟨[b], z, ioErr "HTTP CONNECT: response header too large", rfl, ?_⟩
        refine Takes.read (x := [b]) rfl ?_
        show Takes (if (buf ++ [b]).length > maxResponse then _ else _) [] _
        rw [if_pos (Nat.lt_of_not_le hlong)]
        exact .refl _

def awaitResponse : Stream C Unit :=
  (readResponse (maxResponse + 1) []).bind fun responseBuf => ofExcept (checkStatus responseBuf)

/-- A response head is read: the client fails within it, or it has read all of it
and the status was 200. -/
theorem awaitResponse_takes (h : HttpHead) :
    ∃ a c t, h.bytes = a ++ c ∧ Takes (awaitResponse : Stream C Unit) a t ∧
      ((∃ e, t = fail e) ∨ (t = done () ∧ c = [] ∧ h.status = 200)) := by
  have hlines : ∀ l ∈ h.statusLine :: h.fields, Text.IsLine l := by
    intro l hl
    obtain rfl | hl := List.mem_cons.mp hl
    · exact ⟨by simp [HttpHead.statusLine], h.statusLine_clean⟩
    · exact h.fields_clean l hl
  have hun : ∀ a b, h.bytes = a ++ b → b ≠ [] → Text.endsHead ([] ++ a) = false :=
    fun a b hab hb => Text.endsHead_front hlines hab hb
  by_cases hlen : ([] ++ h.bytes).length ≤ maxResponse
  · have ht : Takes (readResponse (maxResponse + 1) [] : Stream C Bytes) h.bytes (done h.bytes) :=
      readResponse_takes (by simp [HttpHead.bytes, Text.head])
        (Text.endsHead_head (List.cons_ne_nil _ _)) hun hlen
        (Nat.le_succ_of_le hlen)
    refine ⟨h.bytes, [], ofExcept (checkStatus h.bytes), (List.append_nil _).symm, ht.bind _, ?_⟩
    cases hk : (checkStatus h.bytes : Except (ObfsError C) Unit) with
    | error e => exact .inl ⟨e, rfl⟩
    | ok => exact .inr ⟨rfl, rfl, status_of_check hk⟩
  · obtain ⟨a, c, e, hac, ht⟩ : ∃ a c e, h.bytes = a ++ c ∧
        Takes (readResponse (maxResponse + 1) [] : Stream C Bytes) a (fail e) :=
      readResponse_fails hun (Nat.lt_of_not_le hlen) (Nat.zero_le _) (by simp)
    exact ⟨a, c, fail e, hac, ht.bind _, .inl ⟨e, rfl⟩⟩

theorem first_head (heads : List HttpHead) (final : HttpHead) (body : Bytes) :
    ∃ h more, heads.flatMap HttpHead.bytes ++ (final.bytes ++ body) = h.bytes ++ more ∧
      (h ∈ heads ∨ (h = final ∧ more = body)) := by
  cases heads with
  | nil => exact ⟨final, body, rfl, .inr ⟨rfl, rfl⟩⟩
  | cons h heads =>
    exact ⟨h, heads.flatMap HttpHead.bytes ++ (final.bytes ++ body), by simp, .inl (by simp)⟩

/-- The HTTP client against an honest proxy: it ends just when the proxy has
opened what it was asked for, having read just the proxy's bytes. -/
theorem tunnelHttpConnect_fits {want : Dest → Prop} {srv : HttpProxy} {host : String}
    {port : UInt16} {auth : Option ProxyAuth} (hc : Clean host)
    (hw : want ⟨.name (utf8 host), port⟩) :
    Fits want (fun bytes => bytes = utf8 (connectText host port auth))
      (tunnelHttpConnect host port auth : Stream C Unit) srv.serve := by
  have hserve : settle srv.serve [] = ⟨srv.serve, [], []⟩ := rfl
  rw [Fits, hserve]
  show Meets want _ (write (utf8 (connectText host port auth)) awaitResponse) _ _ _
  rw [Meets]
  refine ⟨Peer.recv_ne_accept _ _, rfl, ?_⟩
  rw [HttpProxy.serve, List.nil_append, settle, cut_connectText hc]
  simp only [requestTarget_connectText hc, Option.bind_some, targetDest_hostPort, settle]
  generalize utf8 (connectText host port auth) = head
  cases srv.outcome head ⟨.name (utf8 host), port⟩ with
  | opened final success =>
    obtain ⟨h, more, hbytes, hh⟩ := first_head (srv.interim head) final []
    obtain ⟨a, c, t, hac, ht, hres⟩ := awaitResponse_takes (C := C) h
    have hdrain : Drains t (c ++ more) := by
      obtain ⟨e, rfl⟩ | ⟨rfl, rfl, hs⟩ := hres
      · trivial
      · obtain hm | ⟨-, rfl⟩ := hh
        · have := srv.interim_status head h hm
          omega
        · rfl
    refine Drains.meets ?_ hw (by simp [HttpHead.bytes, Text.head])
    have hd := ht.drains hdrain
    rw [← List.append_assoc, ← hac, ← hbytes] at hd
    simpa [HttpProxy.interimBytes, settle] using hd
  | refused final failure body =>
    obtain ⟨h, more, hbytes, hh⟩ := first_head (srv.interim head) final body
    obtain ⟨a, c, t, hac, ht, hres⟩ := awaitResponse_takes (C := C) h
    have hfail : Meets want (fun bytes => bytes = head) t .hangup [] (c ++ more) := by
      obtain ⟨e, rfl⟩ | ⟨-, -, hs⟩ := hres
      · trivial
      · obtain hm | ⟨rfl, -⟩ := hh
        · have := srv.interim_status head h hm
          omega
        · omega
    have hm := ht.meets Peer.hangup_ne_accept hfail
    rw [← List.append_assoc, ← hac, ← hbytes] at hm
    simpa [HttpProxy.interimBytes, settle] using hm

end

end Obfs.Proxy

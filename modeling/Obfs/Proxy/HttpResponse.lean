import Obfs.Proxy.HttpConnect
import Obfs.Symbolic

/-! The response of an HTTP proxy as the client reads it, whatever the proxy
sends: how many bytes it takes, and which responses open the tunnel. -/
namespace Obfs.Proxy
open Dialogue Framing

/-- The first n bytes are the head of a response: an empty line ends them, and
no fewer bytes end in one. -/
def HeadEnds (x : Bytes) (n : Nat) : Prop :=
  n ≤ x.length ∧ [13, 10, 13, 10] <:+ x.take n ∧ ∀ m < n, ¬ [13, 10, 13, 10] <:+ x.take m

/-- A response that opens the tunnel: text whose first line has 200 as its
second token. -/
def Accepted (head : Bytes) : Prop :=
  ∃ text line code, fromUtf8 head = some text ∧ firstLine text = some line ∧
    secondToken line = some code ∧ parseU16 code = some 200

theorem HeadEnds.pos {x : Bytes} {n : Nat} (h : HeadEnds x n) : 0 < n := by
  obtain ⟨-, hs, -⟩ := h
  have := hs.length_le
  rw [List.length_take] at this
  simp at this
  omega

theorem HeadEnds.unique {x : Bytes} {m n : Nat} (hm : HeadEnds x m) (hn : HeadEnds x n) :
    m = n := by
  obtain h | h | h := Nat.lt_trichotomy m n
  · exact absurd hm.2.1 (hn.2.2 m h)
  · exact h
  · exact absurd hn.2.1 (hm.2.2 n h)

section
variable {C : Core} {x rest : Bytes} {w : List Bytes}

theorem checkStatus_ok {head : Bytes} :
    checkStatus head = (.ok () : Except (ObfsError C) Unit) ↔ Accepted head := by
  unfold checkStatus
  constructor
  · intro h
    split at h
    · cases h
    · rename_i text ht
      split at h
      · cases h
      · rename_i line hl
        split at h
        · cases h
        · rename_i code hc
          split at h
          · cases h
          · rename_i status hs
            split at h
            · cases h
            · rename_i h200
              exact ⟨text, line, code, ht, hl, hc, by rw [hs, not_not.mp h200]⟩
  · rintro ⟨text, line, code, ht, hl, hc, hs⟩
    simp only [ht, hl, hc, hs]
    rfl

theorem readResponse_turn (fuel : Nat) (buf : Bytes) (b : UInt8) (z : Bytes) :
    feed (readResponse (fuel + 1) buf : Stream C Bytes) (b :: z) =
      if maxResponse < (buf ++ [b]).length then
        ⟨some (.error (ioErr "HTTP CONNECT: response header too large")), [], z⟩
      else if Text.endsHead (buf ++ [b]) then ⟨some (.ok (buf ++ [b])), [], z⟩
      else feed (readResponse fuel (buf ++ [b])) z := by
  rw [readResponse]
  show feed (if (buf ++ [b]).length > maxResponse then fail _
    else if Text.endsHead (buf ++ [b]) then done (buf ++ [b])
    else readResponse fuel (buf ++ [b]) : Stream C Bytes) z = _
  split
  · rfl
  · split
    · rfl
    · rfl

theorem readResponse_bounded {fuel : Nat} (buf : Bytes) (hx : fuel ≤ x.length) :
    (∃ r, (feed (readResponse fuel buf : Stream C Bytes) x).result = some r) ∧
      x.length ≤ (feed (readResponse fuel buf : Stream C Bytes) x).rest.length + fuel := by
  induction fuel generalizing buf x with
  | zero => exact ⟨⟨_, rfl⟩, Nat.le_refl _⟩
  | succ fuel ih =>
    cases x with
    | nil => exact absurd hx (Nat.not_succ_le_zero fuel)
    | cons b z =>
      rw [List.length_cons] at hx ⊢
      rw [readResponse_turn]
      split
      · exact ⟨⟨_, rfl⟩, by simp⟩
      · split
        · exact ⟨⟨_, rfl⟩, by simp⟩
        · obtain ⟨hr, hl⟩ := ih (buf ++ [b]) (Nat.le_of_succ_le_succ hx)
          exact ⟨hr, by omega⟩

/-- The first n bytes complete a buffer to a head, and no fewer do. -/
structure Completes (buf x : Bytes) (n : Nat) : Prop where
  pos : 0 < n
  le : n ≤ x.length
  fits : (buf ++ x.take n).length ≤ maxResponse
  ends : Text.endsHead (buf ++ x.take n) = true
  first : ∀ m < n, 0 < m → Text.endsHead (buf ++ x.take m) = false

theorem Completes.cons {buf z : Bytes} {b : UInt8} {n : Nat}
    (hb : Text.endsHead (buf ++ [b]) = false) :
    Completes buf (b :: z) (n + 1) ↔ Completes (buf ++ [b]) z n := by
  have htake (m : Nat) : buf ++ (b :: z).take (m + 1) = buf ++ [b] ++ z.take m := by simp
  constructor
  · rintro ⟨-, hle, hfit, hend, hfirst⟩
    rw [htake] at hfit hend
    refine ⟨Nat.pos_of_ne_zero ?_, Nat.le_of_succ_le_succ hle, hfit, hend, ?_⟩
    · rintro rfl
      rw [List.take_zero, List.append_nil, hb] at hend
      cases hend
    · intro m hm _
      rw [← htake]
      exact hfirst (m + 1) (Nat.succ_lt_succ hm) (Nat.succ_pos m)
  · rintro ⟨hpos, hle, hfit, hend, hfirst⟩
    refine ⟨Nat.succ_pos n, Nat.succ_le_succ hle, by rwa [htake], by rwa [htake], ?_⟩
    intro m hm hm0
    obtain ⟨m, rfl⟩ := Nat.exists_eq_add_of_lt hm0
    rw [Nat.zero_add, htake]
    obtain rfl | hm0 := Nat.eq_zero_or_pos m
    · rwa [List.take_zero, List.append_nil]
    · exact hfirst m (by omega) hm0

theorem readResponse_returns {fuel : Nat} {buf head : Bytes} :
    Returns (readResponse fuel buf : Stream C Bytes) x w head rest ↔
      w = [] ∧ ∃ n ≤ fuel, Completes buf x n ∧ head = buf ++ x.take n ∧ rest = x.drop n := by
  induction fuel generalizing buf x with
  | zero =>
    refine iff_of_false returns_fail ?_
    rintro ⟨-, n, hn, hc, -⟩
    exact absurd hc.pos (by omega)
  | succ fuel ih =>
    cases x with
    | nil =>
      refine iff_of_false ?_ ?_
      · intro h
        rw [Returns, readResponse] at h
        cases h
      · rintro ⟨-, n, -, hc, -⟩
        exact absurd (Nat.lt_of_lt_of_le hc.pos hc.le) (Nat.lt_irrefl 0)
    | cons b z =>
      rw [Returns, readResponse_turn]
      split
      · rename_i hlong
        refine iff_of_false (fun h => by cases h) ?_
        rintro ⟨-, n, -, hc, -⟩
        obtain ⟨n, rfl⟩ := Nat.exists_eq_add_of_lt hc.pos
        have hfit := hc.fits
        simp at hfit hlong
        omega
      · rename_i hfit
        split
        -- this byte ends the head
        · rename_i hend
          constructor
          · intro h
            cases h
            refine ⟨rfl, 1, by omega, ⟨Nat.one_pos, by simp, ?_, ?_, ?_⟩, rfl, rfl⟩
            · exact Nat.le_of_not_lt hfit
            · exact hend
            · omega
          · rintro ⟨rfl, n, -, hc, rfl, rfl⟩
            have hn : n = 1 := by
              by_contra hne
              have := hc.first 1 (by have := hc.pos; omega) Nat.one_pos
              rw [List.take_succ_cons, List.take_zero, hend] at this
              cases this
            subst hn
            rfl
        · rename_i hend
          refine ih.trans (and_congr_right fun _ => ?_)
          have hb : Text.endsHead (buf ++ [b]) = false := Bool.eq_false_iff.mpr hend
          constructor
          · rintro ⟨n, hn, hc, rfl, rfl⟩
            exact ⟨n + 1, by omega, (Completes.cons hb).mpr hc, by simp, rfl⟩
          · rintro ⟨n, hn, hc, rfl, rfl⟩
            obtain ⟨n, rfl⟩ := Nat.exists_eq_add_of_lt hc.pos
            rw [Nat.zero_add] at hc hn ⊢
            exact ⟨n, by omega, (Completes.cons hb).mp hc, by simp, rfl⟩

theorem completes_iff {n : Nat} : Completes [] x n ↔ n ≤ maxResponse ∧ HeadEnds x n := by
  have hsuffix (m : Nat) : Text.endsHead (x.take m) = true ↔ [13, 10, 13, 10] <:+ x.take m :=
    List.isSuffixOf_iff_suffix
  constructor
  · rintro ⟨hpos, hle, hfit, hend, hfirst⟩
    refine ⟨by simpa [hle] using hfit, hle, (hsuffix n).mp hend, ?_⟩
    intro m hm hs
    obtain rfl | hm0 := Nat.eq_zero_or_pos m
    · exact absurd hs.length_le (by simp)
    · have := hfirst m hm hm0
      rw [List.nil_append, (hsuffix m).mpr hs] at this
      cases this
  · rintro ⟨hmax, h⟩
    refine ⟨h.pos, h.1, by simp; omega, (hsuffix n).mpr h.2.1, ?_⟩
    intro m hm _
    exact Bool.eq_false_iff.mpr fun hs => h.2.2 m hm ((hsuffix m).mp hs)

theorem tunnelHttpConnect_eq (host : String) (port : UInt16) (auth : Option ProxyAuth) :
    (tunnelHttpConnect host port auth : Stream C Unit) =
      (writeAll (utf8 (connectText host port auth))).bind fun _ =>
        (readResponse (maxResponse + 1) []).bind fun head => ofExcept (checkStatus head) := rfl

theorem tunnelHttpConnect_returns {host : String} {port : UInt16} {auth : Option ProxyAuth} :
    Returns (tunnelHttpConnect host port auth : Stream C Unit) x w () rest ↔
      w = [utf8 (connectText host port auth)] ∧ ∃ n ≤ maxResponse, HeadEnds x n ∧
        Accepted (x.take n) ∧ rest = x.drop n := by
  rw [tunnelHttpConnect_eq, returns_writeAll]
  constructor
  · rintro ⟨w', rfl, h⟩
    obtain ⟨w1, w2, head, z, rfl, hread, hcheck⟩ := returns_bind.mp h
    obtain ⟨rfl, n, -, hc, rfl, rfl⟩ := readResponse_returns.mp hread
    obtain ⟨hok, rfl, rfl⟩ := returns_ofExcept.mp hcheck
    obtain ⟨hmax, hend⟩ := completes_iff.mp hc
    exact ⟨rfl, n, hmax, hend, checkStatus_ok.mp hok, rfl⟩
  · rintro ⟨rfl, n, hmax, hend, hacc, rfl⟩
    refine ⟨[], rfl, returns_bind.mpr ⟨[], [], x.take n, x.drop n, rfl, ?_, ?_⟩⟩
    · exact readResponse_returns.mpr
        ⟨rfl, n, by omega, completes_iff.mpr ⟨hmax, hend⟩, rfl, rfl⟩
    · exact returns_ofExcept.mpr ⟨checkStatus_ok.mpr hacc, rfl, rfl⟩

theorem tunnelHttpConnect_bounded (host : String) (port : UInt16) (auth : Option ProxyAuth)
    (hx : maxResponse + 1 ≤ x.length) :
    (∃ r, (feed (tunnelHttpConnect host port auth : Stream C Unit) x).result = some r) ∧
      x.length ≤ (feed (tunnelHttpConnect host port auth : Stream C Unit) x).rest.length +
        (maxResponse + 1) := by
  obtain ⟨⟨r, hr⟩, hl⟩ := readResponse_bounded (C := C) [] hx
  rw [tunnelHttpConnect_eq]
  show (∃ r, (feed ((readResponse (maxResponse + 1) []).bind
      fun head => ofExcept (checkStatus head) : Stream C Unit) x).result = some r) ∧
    _ ≤ (feed ((readResponse (maxResponse + 1) []).bind
      fun head => ofExcept (checkStatus head) : Stream C Unit) x).rest.length + _
  rw [feed_bind, hr]
  cases r with
  | error e => exact ⟨⟨_, rfl⟩, hl⟩
  | ok head =>
    simp only [feed_ofExcept]
    exact ⟨⟨_, rfl⟩, hl⟩

end

/-- The client takes at most 8193 bytes of the response. It succeeds just when
some first n of at most 8192 bytes end in an empty line, are text, and give 200
as the second token of their first line; what follows them is left unread. -/
theorem http_response_exact {C : Core} {cap : Nat} {host : String} {port : UInt16}
    {auth : Option ProxyAuth} {reads : List (Read UInt8 IoError cap)} (hd : drops reads = 0) :
    (Ends reads ∨ 8193 ≤ (incoming reads).length →
      ∃ r, (runOn (tunnelHttpConnect host port auth : Stream C Unit) reads).result = some r) ∧
    (8193 ≤ (incoming reads).length →
      (incoming reads).length ≤
        (incoming (runOn (tunnelHttpConnect host port auth : Stream C Unit) reads).rest).length +
          8193) ∧
    ((runOn (tunnelHttpConnect host port auth : Stream C Unit) reads).result = some (.ok ()) ↔
      ∃ n ≤ 8192, HeadEnds (incoming reads) n ∧ Accepted ((incoming reads).take n)) ∧
    (∀ n, HeadEnds (incoming reads) n →
      (runOn (tunnelHttpConnect host port auth : Stream C Unit) reads).result = some (.ok ()) →
      incoming (runOn (tunnelHttpConnect host port auth : Stream C Unit) reads).rest =
        (incoming reads).drop n) := by
  obtain ⟨-, hresult, hnone⟩ :=
    converse_eq earlyEof .io (tunnelHttpConnect host port auth : Stream C Unit) reads hd
  refine ⟨?_, ?_, ⟨?_, ?_⟩, ?_⟩
  · rintro (hend | hlong)
    · cases hr : (feed (tunnelHttpConnect host port auth : Stream C Unit)
          (incoming reads)).result with
      | none =>
        rw [hnone hr, (ends_iff reads).mp hend]
        exact ⟨_, rfl⟩
      | some r => exact ⟨r, (hresult r hr).1⟩
    · obtain ⟨⟨r, hr⟩, -⟩ := tunnelHttpConnect_bounded (C := C) host port auth hlong
      exact ⟨r, (hresult r hr).1⟩
  · intro hlong
    obtain ⟨⟨r, hr⟩, hl⟩ := tunnelHttpConnect_bounded (C := C) host port auth hlong
    rw [(hresult r hr).2]
    exact hl
  · intro hok
    obtain ⟨-, n, hn, hend, hacc, -⟩ :=
      tunnelHttpConnect_returns.mp ((converse_ok _ _ hd).mp hok)
    exact ⟨n, hn, hend, hacc⟩
  · rintro ⟨n, hn, hend, hacc⟩
    have hr : Returns (tunnelHttpConnect host port auth : Stream C Unit) (incoming reads)
        [utf8 (connectText host port auth)] () ((incoming reads).drop n) :=
      tunnelHttpConnect_returns.mpr ⟨rfl, n, hn, hend, hacc, rfl⟩
    exact (hr.converse _ _ hd rfl).1
  · intro n hend hok
    obtain ⟨-, n', -, hend', -, hrest⟩ :=
      tunnelHttpConnect_returns.mp ((converse_ok _ _ hd).mp hok)
    rw [hrest, hend'.unique hend]

end Obfs.Proxy

namespace Obfs.Symbolic
open Dialogue Framing Proxy

/- A response in two reads; the second goes on with an empty line of the tunnel. -/
def established200 : List (Read UInt8 IoError 32) :=
  [.got ⟨[72, 32, 50, 48], by decide, by decide⟩,
    .got ⟨[48, 13, 10, 13, 10, 13, 10, 13, 10], by decide, by decide⟩]

theorem established200_head : HeadEnds (incoming established200) 9 :=
  ⟨by decide, by decide, by decide⟩

theorem established200_accepted : Accepted ((incoming established200).take 9) :=
  ⟨"H 200\r\n\r\n".toList, "H 200".toList, "200".toList, by decide +kernel, by decide +kernel,
    by decide +kernel, by decide +kernel⟩

theorem http_response_exact_tunnel :
    drops established200 = 0 ∧
    (runOn (tunnelHttpConnect "t" 80 none : Stream core Unit) established200).result =
      some (.ok ()) ∧
    incoming (runOn (tunnelHttpConnect "t" 80 none : Stream core Unit) established200).rest =
      [13, 10, 13, 10] := by
  have hd : drops established200 = 0 := rfl
  have hok : (runOn (tunnelHttpConnect "t" 80 none : Stream core Unit) established200).result =
      some (.ok ()) :=
    (http_response_exact hd).2.2.1.mpr
      ⟨9, by decide, established200_head, established200_accepted⟩
  exact ⟨hd, hok, (http_response_exact hd).2.2.2 9 established200_head hok⟩

end Obfs.Symbolic

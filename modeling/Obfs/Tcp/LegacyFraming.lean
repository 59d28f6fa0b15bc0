import Mathlib.Data.List.Infix
import Obfs.Tcp.Reassembly

/-! write_frame and read_frame, the wrappers kept for the Vanilla profile. A
read_frame call has a buffer of its own: what it reads beyond its frame is lost
to the next call. -/
namespace Obfs
open Framing

/-- The Vanilla profile: a record has one frame, which is taken off the buffer
as it was put on the stream, and a buffer without a whole frame is left alone. -/
structure StreamCrates.Vanilla (K : StreamCrates) : Prop extends K.PrefixCorrect where
  exact : ∀ {buf record rest rng wire}, K.frameIn buf = (.record record, rest) →
    K.frameOut record rng = .ok wire → buf = wire ++ rest
  waits : ∀ buf buf', K.frameIn buf = (.needMore, buf') → buf' = buf

namespace TcpStream
variable (K : StreamCrates)

/- K has the Vanilla profile here, and rng is what from_entropy gives this call. -/
def writeFrame (session : K.Session) (env : Envelope K.core) (rng : K.Rng)
    (written : Except IoError Unit) : Except (ObfsError K.core) Unit × Bytes × K.Session :=
  sendFrame K session ⟨env, rng, written⟩

def readFrame (session : K.Session) (reads : List StreamRead) :
    Call K.core (Envelope K.core) × K.Session × List StreamRead :=
  match recvFrame K session [] reads with
  | (r, session, _, reads) => (r, session, reads)

def readFrames (session : K.Session) (reads : List StreamRead) :
    Nat → List (Call K.core (Envelope K.core))
  | 0 => []
  | n + 1 =>
    match readFrame K session reads with
    | (r, session, reads) => r :: readFrames session reads n

/-- The envelopes that successive write_frame calls have written, each with its
frame. In between the session may decrypt what its own peer sends. -/
inductive WritesFrames : K.Session → List (Envelope K.core × Bytes) → Prop where
  | done {a : K.Session} : WritesFrames a []
  | frame {a a' : K.Session} {env : Envelope K.core} {rng : K.Rng}
      {written : Except IoError Unit} {wire : Bytes} {frames : List (Envelope K.core × Bytes)}
      (hs : writeFrame K a env rng written = (.ok (), wire, a')) (hw : WritesFrames a' frames) :
      WritesFrames a ((env, wire) :: frames)
  | received {a : K.Session} {frames : List (Envelope K.core × Bytes)} (ciphertext : Bytes)
      (hw : WritesFrames (K.decrypt a ciphertext).2 frames) : WritesFrames a frames

/-- A record found anywhere in the stream that the session accepts in its turn
is the one written for that turn. -/
def Unforged (stream : Bytes) : K.Session → List (Envelope K.core × Bytes) → Prop
  | _, [] => True
  | b, (_, wire) :: frames =>
    ∀ buf record rest plaintext b', buf <:+: stream → K.frameIn buf = (.record record, rest) →
      K.decrypt b record = (.ok plaintext, b') →
      (∃ rng, K.frameOut record rng = .ok wire) ∧ Unforged stream b' frames

variable {K}

theorem WritesFrames.writes {a : K.Session} {frames : List (Envelope K.core × Bytes)}
    (h : WritesFrames K a frames) : Writes K a frames := by
  induction h with
  | done => exact .done
  | @frame a a' env rng written wire frames hs _ ih =>
    have hsend : sendFrame K a ⟨env, rng, written⟩ = (.ok (), wire, a') := hs
    exact .frame hsend ih
  | received ciphertext _ ih => exact .received ciphertext ih

theorem readFrame_front {b b' : K.Session} {env : Envelope K.core}
    {plaintext ciphertext wire : Bytes} {front : List (Chunk UInt8 4096)}
    (hf : IsFrame K.frameIn ciphertext wire) (hd : K.decrypt b ciphertext = (.ok plaintext, b'))
    (hj : K.fromSlice plaintext = .ok env) (hfront : front.flatMap Chunk.bytes = wire)
    (back : List StreamRead) :
    readFrame K b (front.map .got ++ back) = (.returned (.ok env), b', back) := by
  have ha : accumulate K.frameIn [] (front.map .got ++ back) = (.record ciphertext, [], back) :=
    accumulate_front hf hfront back
  rw [readFrame, recvFrame_record ha hd hj]

theorem readFrame_ok (hwait : ∀ buf buf', K.frameIn buf = (.needMore, buf') → buf' = buf)
    {b b' : K.Session} {env : Envelope K.core} {reads back : List StreamRead}
    (h : readFrame K b reads = (.returned (.ok env), b', back)) :
    ∃ (front : List (Chunk UInt8 4096)) (record left plaintext : Bytes),
      reads = front.map .got ++ back ∧
      K.frameIn (front.flatMap Chunk.bytes) = (.record record, left) ∧
      K.decrypt b record = (.ok plaintext, b') := by
  unfold readFrame recvFrame at h
  rcases ha : accumulate K.frameIn [] reads with ⟨stop, left, reads'⟩
  rw [ha] at h
  cases stop with
  | record record =>
    rcases hd : K.decrypt b record with ⟨e | plaintext, b''⟩
    · simp [recordOrError, hd] at h
    · rcases hj : K.fromSlice plaintext with e | env'
      · simp [recordOrError, hd, hj] at h
      · simp only [recordOrError, hd, hj, Prod.mk.injEq] at h
        obtain ⟨-, rfl, rfl⟩ := h
        obtain ⟨front, hreads, hp⟩ := accumulate_taken hwait ha
        exact ⟨front, record, left, plaintext, hreads, hp, hd⟩
  | invalid | eof | failed | dropped | pending => simp [recordOrError] at h

theorem readFrames_aligned (P : K.PrefixCorrect) (S : K.InStep)
    {frames : List (Envelope K.core × Bytes)} {reads : List StreamRead}
    (ha : Aligned frames reads) {a b : K.Session} (hab : S.Reads a b) (hw : Writes K a frames)
    (hj : K.Decodes (frames.map Prod.fst)) :
    readFrames K b reads frames.length = frames.map fun f => .returned (.ok f.1) := by
  induction ha generalizing a b with
  | done => rfl
  | @frame f frames front back hf _ ih =>
    obtain ⟨plaintext, ciphertext, a', b', hp, hframe, hd, hab', hw'⟩ := hw.next P S hab
    have hdec : K.fromSlice plaintext = .ok f.1 := hj f.1 List.mem_cons_self plaintext hp
    have hrest := ih hab' hw' fun env henv => hj env (List.mem_cons_of_mem _ henv)
    simp only [List.length_cons, readFrames, readFrame_front hframe hd hdec hf back, hrest,
      List.map_cons]

theorem readFrames_ok (V : K.Vanilla) {stream : Bytes}
    {frames : List (Envelope K.core × Bytes)} {b : K.Session} {reads : List StreamRead}
    (hu : Unforged K stream b frames) (hs : incoming reads <:+ stream)
    (h : readFrames K b reads frames.length = frames.map fun f => .returned (.ok f.1)) :
    (wires frames).length ≤ (incoming reads).length ∧
      ((incoming reads).length ≤ (wires frames).length → Aligned frames reads) := by
  induction frames generalizing b reads with
  | nil => exact ⟨Nat.zero_le _, fun _ => .done⟩
  | cons f frames ih =>
    rcases hr : readFrame K b reads with ⟨r, b', back⟩
    simp only [List.length_cons, readFrames, hr, List.map_cons, List.cons.injEq] at h
    obtain ⟨rfl, hrest⟩ := h
    obtain ⟨front, record, left, plaintext, rfl, hp, hd⟩ := readFrame_ok V.waits hr
    rw [incoming_front] at hs ⊢
    have hpart : front.flatMap Chunk.bytes <:+: stream :=
      (List.prefix_append _ _).isInfix.trans hs.isInfix
    obtain ⟨⟨rng, hout⟩, hu'⟩ := hu _ _ _ _ _ hpart hp hd
    have hfront : front.flatMap Chunk.bytes = f.2 ++ left := V.exact hp hout
    obtain ⟨hle, hal⟩ := ih hu' ((List.suffix_append _ _).trans hs) hrest
    have hlen := congrArg List.length hfront
    simp only [wires_cons, List.length_append] at hlen ⊢
    refine ⟨by omega, fun hmost => ?_⟩
    -- the later calls have read their frames from the rest, so nothing was left over here
    have hleft : left = [] := List.eq_nil_of_length_eq_zero (by omega)
    rw [hleft, List.append_nil] at hfront
    exact .frame hfront (hal (by omega))

/-- read_frame calls return the envelopes of as many write_frame calls if every
frame fills whole reads, and, unless a session accepts a forged record, only
then. -/
theorem read_frame_iff_aligned (V : K.Vanilla) (S : K.InStep) {a b : K.Session}
    (hab : S.Reads a b) {frames : List (Envelope K.core × Bytes)} (hw : WritesFrames K a frames)
    (hj : K.Decodes (frames.map Prod.fst)) {reads : List StreamRead}
    (hin : incoming reads = wires frames) :
    (Aligned frames reads →
      readFrames K b reads frames.length = frames.map fun f => .returned (.ok f.1)) ∧
    (Unforged K (wires frames) b frames →
      (readFrames K b reads frames.length = (frames.map fun f => .returned (.ok f.1)) ↔
        Aligned frames reads)) := by
  have hback : Aligned frames reads → readFrames K b reads frames.length =
      frames.map fun f => .returned (.ok f.1) :=
    fun ha => readFrames_aligned V.toPrefixCorrect S ha hab hw.writes hj
  refine ⟨hback, fun hu => ⟨fun h => ?_, hback⟩⟩
  have hs : incoming reads <:+ wires frames := hin ▸ List.suffix_rfl
  exact (readFrames_ok V hu hs h).2 (Nat.le_of_eq (congrArg List.length hin))

end TcpStream
end Obfs

namespace Obfs.Symbolic
open Framing TcpStream

theorem u32Bytes_eq (b0 b1 b2 b3 : UInt8) :
    u32Bytes (b0.toNat * 16777216 + b1.toNat * 65536 + b2.toNat * 256 + b3.toNat) =
      [b0, b1, b2, b3] := by
  have h0 := b0.toNat_lt
  have h1 := b1.toNat_lt
  have h2 := b2.toNat_lt
  have h3 := b3.toNat_lt
  simp only [u32Bytes, List.map_cons, List.map_nil, List.cons.injEq, and_true]
  refine ⟨?_, ?_, ?_, ?_⟩ <;>
  · apply UInt8.toNat_inj.mp
    simp only [UInt8.toNat_ofNat']
    omega

theorem short_or_u32Bytes (buf : Bytes) :
    buf.length < 4 ∨ ∃ n body, n < 4294967296 ∧ buf = u32Bytes n ++ body := by
  match buf with
  | [] | [_] | [_, _] | [_, _, _] => exact Or.inl (by simp)
  | b0 :: b1 :: b2 :: b3 :: body =>
    have h0 := b0.toNat_lt
    have h1 := b1.toNat_lt
    have h2 := b2.toNat_lt
    have h3 := b3.toNat_lt
    refine Or.inr ⟨b0.toNat * 16777216 + b1.toNat * 65536 + b2.toNat * 256 + b3.toNat, body,
      by omega, ?_⟩
    rw [u32Bytes_eq]
    rfl

theorem frameIn_exact {buf record rest wire : Bytes} (h : frameIn buf = (.record record, rest))
    (hout : frameOut record = .ok wire) : buf = wire ++ rest := by
  obtain hshort | ⟨n, body, hn, rfl⟩ := short_or_u32Bytes buf
  · rw [frameIn_short hshort] at h
    cases h
  · rw [frameIn_u32Bytes hn] at h
    by_cases hlen : n ≤ body.length
    · rw [if_pos hlen] at h
      obtain ⟨hrecord, hrest⟩ := Prod.mk.inj h
      have htake : body.take n = record := Parsed.record.inj hrecord
      have hcount : record.length = n := by rw [← htake, List.length_take_of_le hlen]
      rw [frameOut, hcount, if_pos hn] at hout
      rw [← Except.ok.inj hout, ← hrest, ← htake, List.append_assoc, List.take_append_drop]
    · rw [if_neg hlen] at h
      cases congrArg Prod.fst h

theorem frameIn_waits (buf buf' : Bytes) (h : frameIn buf = (.needMore, buf')) : buf' = buf := by
  obtain hshort | ⟨n, body, hn, rfl⟩ := short_or_u32Bytes buf
  · rw [frameIn_short hshort] at h
    exact (congrArg Prod.snd h).symm
  · rw [frameIn_u32Bytes hn] at h
    by_cases hlen : n ≤ body.length
    · rw [if_pos hlen] at h
      cases congrArg Prod.fst h
    · rw [if_neg hlen] at h
      exact (congrArg Prod.snd h).symm

theorem vanilla : streamCrates.Vanilla :=
  { prefixCorrect with exact := frameIn_exact, waits := frameIn_waits }

theorem writesFrames_pingThenRequest :
    WritesFrames streamCrates ⟨true, 0, 0⟩ pingThenRequest := by
  have hping : writeFrame streamCrates ⟨true, 0, 0⟩ .ping () (.ok ()) =
      (.ok (), pingFrame, ⟨true, 1, 0⟩) := rfl
  have hrequest : writeFrame streamCrates ⟨true, 1, 0⟩ (.request 5) () (.ok ()) =
      (.ok (), requestFrame, ⟨true, 2, 0⟩) := rfl
  exact .frame hping (.frame hrequest .done)

def coalesced : List StreamRead :=
  [.got ⟨pingFrame ++ requestFrame, by decide, by decide⟩, .eof]

/-- The first call reads both frames and returns the Ping; the request is gone,
and the second call finds the stream closed. -/
theorem coalesced_request_lost :
    WritesFrames streamCrates ⟨true, 0, 0⟩ pingThenRequest ∧
      incoming coalesced = wires pingThenRequest ∧
      readFrames streamCrates ⟨false, 0, 0⟩ coalesced 2 =
        [.returned (.ok .ping), .returned (.error .closed)] := by
  have ha : accumulate frameIn [] coalesced = (.record [1, 0, 7], requestFrame, [.eof]) := rfl
  have hfirst : readFrame streamCrates ⟨false, 0, 0⟩ coalesced =
      (.returned (.ok .ping), ⟨false, 0, 1⟩, [.eof]) := by
    rw [readFrame, recvFrame, ha]
    rfl
  refine ⟨writesFrames_pingThenRequest, rfl, ?_⟩
  rw [readFrames, hfirst]
  rfl

def records (stream : Bytes) : List Bytes :=
  (stream.tails.flatMap List.inits).filterMap fun buf =>
    match (frameIn buf).1 with
    | .record record => some record
    | _ => none

theorem mem_records {stream buf record rest : Bytes} (h : buf <:+: stream)
    (hp : frameIn buf = (.record record, rest)) : record ∈ records stream := by
  obtain ⟨tail, hbuf, htail⟩ := List.infix_iff_prefix_suffix.mp h
  refine List.mem_filterMap.mpr ⟨buf, List.mem_flatMap.mpr ⟨tail, ?_, ?_⟩, by rw [hp]⟩
  · exact (List.mem_tails _ _).mpr htail
  · exact (List.mem_inits _ _).mpr hbuf

theorem decrypt_ok {b b' : Session} {record plaintext : Bytes}
    (h : decrypt b record = (.ok plaintext, b')) :
    record.take 2 = [side (!b.initiator), b.opened.toUInt8] ∧
      b' = { b with opened := b.opened + 1 } := by
  unfold decrypt at h
  split at h
  · rename_i htake
    exact ⟨htake, (congrArg Prod.snd h).symm⟩
  · cases congrArg Prod.fst h

theorem unforged_pingThenRequest :
    Unforged streamCrates (wires pingThenRequest) ⟨false, 0, 0⟩ pingThenRequest := by
  have hping : ∀ record ∈ records (wires pingThenRequest),
      record.take 2 = [1, 0] → record = [1, 0, 7] := by decide +kernel
  have hrequest : ∀ record ∈ records (wires pingThenRequest),
      record.take 2 = [1, 1] → record = [1, 1, 1, 5] := by decide +kernel
  intro buf record rest plaintext b' hbuf hp hd
  obtain ⟨htake, rfl⟩ := decrypt_ok hd
  cases hping record (mem_records hbuf hp) htake
  refine ⟨⟨(), rfl⟩, ?_⟩
  intro buf record rest plaintext b' hbuf hp hd
  obtain ⟨htake, rfl⟩ := decrypt_ok hd
  cases hrequest record (mem_records hbuf hp) htake
  exact ⟨⟨(), rfl⟩, trivial⟩

def pingChunks : List (Chunk UInt8 4096) :=
  [⟨[0, 0, 0, 3], by decide, by decide⟩, ⟨[1, 0, 7], by decide, by decide⟩]

def requestChunk : Chunk UInt8 4096 := ⟨requestFrame, by decide, by decide⟩

def separate : List StreamRead := pingChunks.map .got ++ [.got requestChunk]

theorem aligned_separate : Aligned pingThenRequest separate := by
  have hrequest : Aligned [(Envelope.request (C := core) 5, requestFrame)]
      ([requestChunk].map Read.got ++ ([] : List StreamRead)) := .frame rfl .done
  exact .frame rfl hrequest

theorem read_frame_iff_aligned_separate :
    Aligned pingThenRequest separate ∧
      Unforged streamCrates (wires pingThenRequest) ⟨false, 0, 0⟩ pingThenRequest ∧
      readFrames streamCrates ⟨false, 0, 0⟩ separate 2 =
        [.returned (.ok .ping), .returned (.ok (.request 5))] := by
  have hin : incoming separate = wires pingThenRequest := rfl
  have h := read_frame_iff_aligned vanilla inStep (a := ⟨true, 0, 0⟩) (b := ⟨false, 0, 0⟩)
    ⟨rfl, rfl⟩ writesFrames_pingThenRequest decodes_pingThenRequest hin
  exact ⟨aligned_separate, unforged_pingThenRequest,
    (h.2 unforged_pingThenRequest).mpr aligned_separate⟩

end Obfs.Symbolic

import Mathlib.Data.List.Basic

/-! Frames on a byte stream that arrives in reads of arbitrary size. A reader
keeps what it has read in a buffer and asks a parser for the next record; its
call may be dropped while it waits for a read, and made again with the buffer. -/
namespace Framing
variable {α β ρ ε : Type*} {cap : Nat}

inductive Parsed (ρ : Type*) where
  | record (r : ρ)
  | needMore
  | invalid (text : String)

/-- What one read returns: at least one byte, at most as many as fit. -/
structure Chunk (β : Type*) (cap : Nat) where
  bytes : List β
  pos : 0 < bytes.length
  le : bytes.length ≤ cap

def Chunk.drop (c : Chunk β cap) (n : Nat) (h : n < c.bytes.length) : Chunk β cap where
  bytes := c.bytes.drop n
  pos := by
    rw [List.length_drop]
    omega
  le := by
    rw [List.length_drop]
    exact Nat.le_trans (Nat.sub_le _ _) c.le

/-- How an awaited read ends; the call that awaits it may be dropped before. -/
inductive Read (β ε : Type*) (cap : Nat) where
  | got (c : Chunk β cap)
  | eof
  | failed (e : ε)
  | dropped

/-- How a call that waits for a record ends; pending if no read completes. -/
inductive Stop (ρ ε : Type*) where
  | record (r : ρ)
  | invalid (text : String)
  | eof
  | failed (e : ε)
  | dropped
  | pending

/-- Reads into the buffer until the parser finds a record. -/
def accumulate (parse : List β → Parsed ρ × List β) (buf : List β) (reads : List (Read β ε cap)) :
    Stop ρ ε × List β × List (Read β ε cap) :=
  match parse buf with
  | (.record r, buf) => (.record r, buf, reads)
  | (.invalid text, buf) => (.invalid text, buf, reads)
  | (.needMore, buf) =>
    match reads with
    | [] => (.pending, buf, [])
    | .got c :: reads => accumulate parse (buf ++ c.bytes) reads
    | .eof :: reads => (.eof, buf, reads)
    | .failed e :: reads => (.failed e, buf, reads)
    | .dropped :: reads => (.dropped, buf, reads)

/-- What is left of a call that is suspended in its read. -/
def awaitRead (parse : List β → Parsed ρ × List β) (buf : List β) :
    List (Read β ε cap) → Stop ρ ε × List β × List (Read β ε cap)
  | [] => (.pending, buf, [])
  | .got c :: reads => accumulate parse (buf ++ c.bytes) reads
  | .eof :: reads => (.eof, buf, reads)
  | .failed e :: reads => (.failed e, buf, reads)
  | .dropped :: reads => (.dropped, buf, reads)

inductive Filled (β ε : Type*) where
  | full (bytes : List β)
  | eof
  | failed (e : ε)
  | dropped
  | pending

def Filled.stopped : Filled β ε → Option (Option ε)
  | .eof => some none
  | .failed e => some (some e)
  | _ => none

/-- Reads until n bytes have arrived; what a read holds beyond them is left to
the next one. -/
def readExact (n : Nat) (got : List β) (reads : List (Read β ε cap)) :
    Filled β ε × List (Read β ε cap) :=
  if n = 0 then (.full got, reads)
  else match reads with
    | [] => (.pending, [])
    | .got c :: reads =>
      if h : n < c.bytes.length then
        (.full (got ++ c.bytes.take n), .got (c.drop n h) :: reads)
      else readExact (n - c.bytes.length) (got ++ c.bytes) reads
    | .eof :: reads => (.eof, reads)
    | .failed e :: reads => (.failed e, reads)
    | .dropped :: reads => (.dropped, reads)

def incoming : List (Read β ε cap) → List β
  | .got c :: reads => c.bytes ++ incoming reads
  | .dropped :: reads => incoming reads
  | _ => []

def drops : List (Read β ε cap) → Nat
  | .got _ :: reads => drops reads
  | .dropped :: reads => drops reads + 1
  | _ => 0

def Ends : List (Read β ε cap) → Prop
  | .got _ :: reads => Ends reads
  | .dropped :: reads => Ends reads
  | .eof :: _ => True
  | _ => False

instance decidableEnds : (reads : List (Read β ε cap)) → Decidable (Ends reads)
  | .got _ :: reads => decidableEnds reads
  | .dropped :: reads => decidableEnds reads
  | .eof :: _ => instDecidableTrue
  | .failed _ :: _ => instDecidableFalse
  | [] => instDecidableFalse

def ending : List (Read β ε cap) → Option (Option ε)
  | .got _ :: reads => ending reads
  | .dropped :: reads => ending reads
  | .eof :: _ => some none
  | .failed e :: _ => some (some e)
  | [] => none

theorem ends_iff (reads : List (Read β ε cap)) : Ends reads ↔ ending reads = some none := by
  induction reads with
  | nil => simp [Ends, ending]
  | cons r reads ih => cases r <;> simp [Ends, ending, ih]

def undropped : List (Read β ε cap) → List (Read β ε cap)
  | [] => []
  | .dropped :: reads => undropped reads
  | r :: reads => r :: undropped reads

theorem incoming_undropped (reads : List (Read β ε cap)) :
    incoming (undropped reads) = incoming reads := by
  induction reads with
  | nil => rfl
  | cons r reads ih => cases r <;> simp [undropped, incoming, ih]

theorem ends_undropped (reads : List (Read β ε cap)) : Ends (undropped reads) ↔ Ends reads := by
  induction reads with
  | nil => rfl
  | cons r reads ih => cases r <;> simp [undropped, Ends, ih]

variable {parse : List β → Parsed ρ × List β} {r : ρ} {w rest p : List β}

/-- The bytes w are one frame of the record r: the parser takes them off the
buffer whatever follows, and waits for more on each strict prefix. -/
structure IsFrame (parse : List β → Parsed ρ × List β) (r : ρ) (w : List β) : Prop where
  whole : ∀ rest, parse (w ++ rest) = (.record r, rest)
  cut : ∀ p, p <+: w → p ≠ w → parse p = (.needMore, p)

def Waits (parse : List β → Parsed ρ × List β) (p : List β) : Prop :=
  ∀ q, q <+: p → parse q = (.needMore, q)

theorem IsFrame.waits (hf : IsFrame parse r w) (hp : p <+: w) (hne : p ≠ w) : Waits parse p := by
  intro q hq
  refine hf.cut q (hq.trans hp) ?_
  rintro rfl
  exact hne (hp.eq_of_length_le hq.length_le)

theorem IsFrame.parse_eq (hf : IsFrame parse r w) {buf more : List β}
    (h : buf ++ more = w ++ rest) :
    (∃ left, parse buf = (.record r, left) ∧ left ++ more = rest) ∨
      (parse buf = (.needMore, buf) ∧ more ≠ []) := by
  obtain ⟨a, hw, hmore⟩ | ⟨a, hbuf, hrest⟩ := List.append_eq_append_iff.mp h
  · by_cases ha : a = []
    · subst ha
      rw [List.append_nil] at hw
      refine Or.inl ⟨[], ?_, hmore⟩
      simpa [hw] using hf.whole []
    · refine Or.inr ⟨hf.cut buf ⟨a, hw.symm⟩ ?_, ?_⟩
      · intro heq
        rw [heq] at hw
        exact ha (by simpa using hw)
      · intro hnil
        rw [hnil] at hmore
        exact ha (List.append_eq_nil_iff.mp hmore.symm).1
  · refine Or.inl ⟨a, ?_, hrest.symm⟩
    rw [hbuf]
    exact hf.whole a

/-- Where a call leaves the reader: the stream still ends, and what is buffered
and still to come has not changed but for the bytes taken. -/
structure Left (buf : List β) (reads : List (Read β ε cap)) (total : List β) (dropped : Nat) :
    Prop where
  ends : Ends reads
  total_eq : buf ++ incoming reads = total
  drops_eq : drops reads = dropped

/-- A call on a stream that continues with a frame returns its record and takes
just the frame, or is dropped and takes nothing. -/
theorem accumulate_frame (hf : IsFrame parse r w) {n : Nat} (buf : List β)
    (reads : List (Read β ε cap)) (h : Left buf reads (w ++ rest) n) :
    ∃ buf' reads',
      (accumulate parse buf reads = (.record r, buf', reads') ∧ Left buf' reads' rest n) ∨
      (accumulate parse buf reads = (.dropped, buf', reads') ∧
        ∃ m, n = m + 1 ∧ Left buf' reads' (w ++ rest) m) := by
  induction reads generalizing buf n with
  | nil => exact absurd h.ends id
  | cons read reads ih =>
    obtain ⟨left, hp, hrest⟩ | ⟨hp, hmore⟩ := hf.parse_eq h.total_eq
    · refine ⟨left, read :: reads, Or.inl ⟨?_, h.ends, hrest, h.drops_eq⟩⟩
      rw [accumulate, hp]
    · rw [accumulate, hp]
      -- the buffer holds a strict prefix, so the read decides
      cases read with
      | got c =>
        refine ih (buf ++ c.bytes) ⟨h.ends, ?_, h.drops_eq⟩
        rw [List.append_assoc]
        exact h.total_eq
      | eof => exact absurd rfl hmore
      | failed e => exact absurd h.ends id
      | dropped =>
        exact ⟨buf, reads, Or.inr ⟨rfl, drops reads, h.drops_eq.symm, h.ends, h.total_eq, rfl⟩⟩

/-- A call on a stream that ends before the next record reports the end with
the remaining bytes in the buffer, or is dropped and takes nothing. -/
theorem accumulate_waits (hw : Waits parse p) {n : Nat} (buf : List β)
    (reads : List (Read β ε cap)) (h : Left buf reads p n) :
    ∃ buf' reads',
      (accumulate parse buf reads = (.eof, p, reads')) ∨
      (accumulate parse buf reads = (.dropped, buf', reads') ∧
        ∃ m, n = m + 1 ∧ Left buf' reads' p m) := by
  induction reads generalizing buf n with
  | nil => exact absurd h.ends id
  | cons read reads ih =>
    have hp : parse buf = (.needMore, buf) := hw buf ⟨_, h.total_eq⟩
    rw [accumulate, hp]
    cases read with
    | got c =>
      refine ih (buf ++ c.bytes) ⟨h.ends, ?_, h.drops_eq⟩
      rw [List.append_assoc]
      exact h.total_eq
    | eof =>
      have hbuf : buf = p := by simpa [incoming] using h.total_eq
      exact ⟨buf, reads, Or.inl (by rw [hbuf])⟩
    | failed e => exact absurd h.ends id
    | dropped =>
      exact ⟨buf, reads, Or.inr ⟨rfl, drops reads, h.drops_eq.symm, h.ends, h.total_eq, rfl⟩⟩

theorem accumulate_needMore {buf buf' : List β} (hp : parse buf = (.needMore, buf'))
    (reads : List (Read β ε cap)) : accumulate parse buf reads = awaitRead parse buf' reads := by
  rw [accumulate.eq_def, hp]
  cases reads with
  | nil => rfl
  | cons read reads => cases read <;> rfl

theorem accumulate_resumed {buf buf' : List β} {reads left more : List (Read β ε cap)}
    (h : accumulate parse buf reads = (.pending, buf', left)) :
    accumulate parse buf (reads ++ more) = awaitRead parse buf' more := by
  induction reads generalizing buf with
  | nil =>
    rw [accumulate.eq_def] at h
    split at h
    · cases h
    · cases h
    · rename_i hp
      cases h
      exact accumulate_needMore hp more
  | cons read reads ih =>
    rw [accumulate.eq_def] at h
    split at h
    · cases h
    · cases h
    · rename_i hp
      rw [accumulate_needMore hp]
      cases read with
      | got c => exact ih h
      | eof | failed e | dropped => cases h

theorem awaitRead_resumed {buf buf' : List β} {reads left more : List (Read β ε cap)}
    (h : awaitRead parse buf reads = (.pending, buf', left)) :
    awaitRead parse buf (reads ++ more) = awaitRead parse buf' more := by
  cases reads with
  | nil =>
    cases h
    rfl
  | cons read reads =>
    cases read with
    | got c => exact accumulate_resumed h
    | eof | failed e | dropped => cases h

theorem readExact_zero (got : List β) (reads : List (Read β ε cap)) :
    readExact 0 got reads = (.full got, reads) := by
  unfold readExact
  rfl

theorem readExact_got_lt {n : Nat} (hn : n ≠ 0) (got : List β) {c : Chunk β cap}
    (reads : List (Read β ε cap)) (h : n < c.bytes.length) :
    readExact n got (.got c :: reads) =
      (.full (got ++ c.bytes.take n), .got (c.drop n h) :: reads) := by
  unfold readExact
  rw [if_neg hn]
  exact dif_pos h

theorem readExact_got_le {n : Nat} (hn : n ≠ 0) (got : List β) {c : Chunk β cap}
    (reads : List (Read β ε cap)) (h : ¬ n < c.bytes.length) :
    readExact n got (.got c :: reads) =
      readExact (n - c.bytes.length) (got ++ c.bytes) reads := by
  conv => lhs; unfold readExact
  rw [if_neg hn]
  exact dif_neg h

theorem readExact_incoming (got q : List β) (reads : List (Read β ε cap))
    (h : incoming reads = q ++ rest) (hd : drops reads = 0) :
    ∃ reads', readExact q.length got reads = (.full (got ++ q), reads') ∧
      incoming reads' = rest ∧ drops reads' = 0 ∧ ending reads' = ending reads := by
  induction reads generalizing got q with
  | nil =>
    obtain ⟨rfl, rfl⟩ := List.append_eq_nil_iff.mp h.symm
    exact ⟨[], by simp [readExact_zero], rfl, rfl, rfl⟩
  | cons read reads ih =>
    by_cases hq : q = []
    · subst hq
      exact ⟨read :: reads, by simp [readExact_zero], h, hd, rfl⟩
    have hlen : q.length ≠ 0 := by simpa using hq
    cases read with
    | got c =>
      have htotal : c.bytes ++ incoming reads = q ++ rest := h
      by_cases hlt : q.length < c.bytes.length
      · rw [readExact_got_lt hlen got reads hlt]
        obtain ⟨a, hqa, -⟩ | ⟨a, hca, hra⟩ := List.append_eq_append_iff.mp htotal
        · have := congrArg List.length hqa
          simp only [List.length_append] at this
          omega
        · refine ⟨.got (c.drop q.length hlt) :: reads, ?_, ?_, hd, rfl⟩
          · rw [hca, List.take_left]
          · simp [incoming, Chunk.drop, hca, hra]
      · rw [readExact_got_le hlen got reads hlt]
        obtain ⟨a, hqa, hia⟩ : ∃ a, q = c.bytes ++ a ∧ incoming reads = a ++ rest := by
          obtain hqa | ⟨a, hca, hra⟩ := List.append_eq_append_iff.mp htotal
          · exact hqa
          · have hlen' := congrArg List.length hca
            simp only [List.length_append] at hlen'
            have ha : a = [] := List.eq_nil_of_length_eq_zero (by omega)
            subst ha
            exact ⟨[], by simpa using hca.symm, by simpa using hra.symm⟩
        obtain ⟨reads', hr, hl⟩ := ih (got ++ c.bytes) a hia hd
        refine ⟨reads', ?_, hl⟩
        simpa [hqa] using hr
    | eof | failed e => exact absurd (List.append_eq_nil_iff.mp h.symm).1 hq
    | dropped => exact absurd hd (by simp [drops])

theorem readExact_short {n : Nat} (got : List β) (reads : List (Read β ε cap))
    (h : (incoming reads).length < n) (hd : drops reads = 0) :
    (∀ bytes, (readExact n got reads).1 ≠ .full bytes) ∧
      (readExact n got reads).1.stopped = ending reads := by
  have hn : n ≠ 0 := by omega
  induction reads generalizing n got with
  | nil =>
    unfold readExact
    rw [if_neg hn]
    refine ⟨?_, rfl⟩
    intro bytes hf
    cases hf
  | cons read reads ih =>
    cases read with
    | got c =>
      simp only [incoming, List.length_append] at h
      rw [readExact_got_le hn got reads (by omega)]
      exact ih (got ++ c.bytes) (by omega) hd (by omega)
    | eof | failed e =>
      unfold readExact
      rw [if_neg hn]
      refine ⟨?_, rfl⟩
      intro bytes hf
      cases hf
    | dropped => exact absurd hd (by simp [drops])

theorem readExact_full (got q : List β) (reads : List (Read β ε cap))
    (h : Left [] reads (q ++ rest) 0) :
    ∃ reads', readExact q.length got reads = (.full (got ++ q), reads') ∧
      Left [] reads' rest 0 := by
  obtain ⟨reads', hr, hin, hd, hend⟩ := readExact_incoming got q reads h.total_eq h.drops_eq
  refine ⟨reads', hr, ?_, hin, hd⟩
  rw [ends_iff, hend, ← ends_iff]
  exact h.ends

def complete : Nat → List (α × List β) → List α
  | _, [] => []
  | cut, (a, w) :: frames =>
    if w.length ≤ cut then a :: complete (cut - w.length) frames else []

def remnant : Nat → List (α × List β) → List β
  | _, [] => []
  | cut, (_, w) :: frames =>
    if w.length ≤ cut then remnant (cut - w.length) frames else w.take cut

def wires (frames : List (α × List β)) : List β := frames.flatMap Prod.snd

@[simp] theorem wires_nil : wires ([] : List (α × List β)) = [] := rfl

@[simp] theorem wires_cons (f : α × List β) (frames : List (α × List β)) :
    wires (f :: frames) = f.2 ++ wires frames := rfl

theorem take_wires_of_le {cut : Nat} {f : α × List β} (frames : List (α × List β))
    (h : f.2.length ≤ cut) :
    (wires (f :: frames)).take cut = f.2 ++ (wires frames).take (cut - f.2.length) := by
  rw [wires_cons, List.take_append, List.take_of_length_le h]

theorem take_wires_of_lt {cut : Nat} {f : α × List β} (frames : List (α × List β))
    (h : ¬ f.2.length ≤ cut) : (wires (f :: frames)).take cut = f.2.take cut := by
  rw [wires_cons, List.take_append_of_le_length (Nat.le_of_not_le h)]

theorem complete_of_length_le {cut : Nat} {frames : List (α × List β)}
    (h : (wires frames).length ≤ cut) : complete cut frames = frames.map Prod.fst := by
  induction frames generalizing cut with
  | nil => rfl
  | cons f frames ih =>
    simp only [wires_cons, List.length_append] at h
    rw [complete, if_pos (by omega), ih (by omega)]
    rfl

theorem remnant_of_length_le {cut : Nat} {frames : List (α × List β)}
    (h : (wires frames).length ≤ cut) : remnant cut frames = [] := by
  induction frames generalizing cut with
  | nil => rfl
  | cons f frames ih =>
    simp only [wires_cons, List.length_append] at h
    rw [remnant, if_pos (by omega), ih (by omega)]

inductive Aligned : List (α × List β) → List (Read β ε cap) → Prop where
  | done {reads : List (Read β ε cap)} : Aligned [] reads
  | frame {f : α × List β} {frames : List (α × List β)} {front : List (Chunk β cap)}
      {back : List (Read β ε cap)} (hf : front.flatMap Chunk.bytes = f.2)
      (h : Aligned frames back) : Aligned (f :: frames) (front.map .got ++ back)

theorem incoming_front (front : List (Chunk β cap)) (back : List (Read β ε cap)) :
    incoming (front.map .got ++ back) = front.flatMap Chunk.bytes ++ incoming back := by
  induction front with
  | nil => rfl
  | cons c front ih =>
    rw [List.map_cons, List.cons_append, incoming, ih, List.flatMap_cons, List.append_assoc]

theorem accumulate_front (hf : IsFrame parse r w) {front : List (Chunk β cap)} {buf : List β}
    (h : buf ++ front.flatMap Chunk.bytes = w) (back : List (Read β ε cap)) :
    accumulate parse buf (front.map .got ++ back) = (.record r, [], back) := by
  induction front generalizing buf with
  | nil =>
    have hw : parse buf = (.record r, []) := by
      have := hf.whole []
      rw [List.append_nil] at this
      simpa [← h] using this
    rw [accumulate.eq_def, hw]
    rfl
  | cons c front ih =>
    rw [List.flatMap_cons, ← List.append_assoc] at h
    have hshort : buf ≠ w := by
      intro he
      have hlen := congrArg List.length h
      have hpos := c.pos
      simp only [he, List.length_append] at hlen
      omega
    have hp : parse buf = (.needMore, buf) :=
      hf.cut buf ⟨c.bytes ++ front.flatMap Chunk.bytes, by rw [← List.append_assoc, h]⟩ hshort
    rw [accumulate.eq_def, hp]
    exact ih h

theorem accumulate_taken (hwait : ∀ buf buf', parse buf = (.needMore, buf') → buf' = buf)
    {buf left : List β} {reads reads' : List (Read β ε cap)}
    (h : accumulate parse buf reads = (.record r, left, reads')) :
    ∃ front : List (Chunk β cap), reads = front.map .got ++ reads' ∧
      parse (buf ++ front.flatMap Chunk.bytes) = (.record r, left) := by
  induction reads generalizing buf with
  | nil =>
    rw [accumulate.eq_def] at h
    split at h
    · rename_i r' buf' hp
      cases h
      exact ⟨[], rfl, by rw [List.flatMap_nil, List.append_nil, hp]⟩
    · cases h
    · cases h
  | cons read reads ih =>
    rw [accumulate.eq_def] at h
    split at h
    · rename_i r' buf' hp
      cases h
      exact ⟨[], rfl, by rw [List.flatMap_nil, List.append_nil, hp]⟩
    · cases h
    · rename_i buf' hp
      cases hwait _ _ hp
      cases read with
      | got c =>
        obtain ⟨front, rfl, hfront⟩ := ih h
        refine ⟨c :: front, rfl, ?_⟩
        rwa [List.flatMap_cons, ← List.append_assoc]
      | eof | failed e | dropped => cases h

end Framing

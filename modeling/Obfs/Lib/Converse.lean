import Obfs.Lib.Dialogue
import Obfs.Lib.Framing

/-! A program of the stream run by itself: against the bytes that come from the
far end, and against the reads in which they arrive. Both say how it ends, what
it has written and what it has left unread. How the bytes are cut into reads
makes no difference. -/
namespace Dialogue
open Framing
variable {α β γ ε φ ρ : Type*} {cap : Nat}

/-- How a program ends, with the messages it has written and what is unread.
Without a result it still waits for bytes. -/
structure Spoken (β ε α ρ : Type*) where
  result : Option (Except ε α)
  written : List (List β)
  rest : ρ

def Spoken.after (w : List (List β)) (o : Spoken β ε α ρ) : Spoken β ε α ρ :=
  { o with written := w ++ o.written }

def feed : Dialogue β ε α → List β → Spoken β ε α (List β)
  | done a, x => ⟨some (.ok a), [], x⟩
  | fail e, x => ⟨some (.error e), [], x⟩
  | turn _ next, x => feed next x
  | write m next, x => (feed next x).after [m]
  | read n next, x => if n ≤ x.length then feed (next (x.take n)) (x.drop n) else ⟨none, [], []⟩

/-- Run against reads. A stream that ends too early is the error eof, a failed
read its own error. -/
def converse (eof : ε) (io : φ → ε) :
    Dialogue β ε α → List (Read β φ cap) → Spoken β ε α (List (Read β φ cap))
  | done a, reads => ⟨some (.ok a), [], reads⟩
  | fail e, reads => ⟨some (.error e), [], reads⟩
  | turn _ next, reads => converse eof io next reads
  | write m next, reads => (converse eof io next reads).after [m]
  | read n next, reads =>
    match Framing.readExact n [] reads with
    | (.full bytes, reads) => converse eof io (next bytes) reads
    | (stop, reads) => ⟨stop.stopped.map fun e => .error (e.elim eof io), [], reads⟩

@[simp] theorem feed_ofExcept (r : Except ε α) (x : List β) :
    feed (ofExcept r : Dialogue β ε α) x = ⟨some r, [], x⟩ := by
  cases r with
  | ok a => rfl
  | error e => rfl

theorem feed_read {n : Nat} {next : List β → Dialogue β ε α} {y : List β} (hn : y.length = n)
    (z : List β) : feed (read n next) (y ++ z) = feed (next y) z := by
  rw [feed, if_pos (by simp [← hn]), ← hn, List.take_left, List.drop_left]

theorem feed_read_short {n : Nat} {next : List β → Dialogue β ε α} {x : List β}
    (hn : x.length < n) : feed (read n next) x = ⟨none, [], []⟩ := by
  rw [feed, if_neg (by omega)]

theorem feed_read_quiet {n : Nat} {next : List β → Dialogue β ε α}
    (h : ∀ y z, (feed (next y) z).written = []) (x : List β) :
    (feed (read n next) x).written = [] := by
  rw [feed]
  split
  · exact h _ _
  · rfl

theorem feed_bind (t : Dialogue β ε α) (k : α → Dialogue β ε γ) (x : List β) :
    feed (t.bind k) x = match (feed t x).result with
      | some (.ok a) => (feed (k a) (feed t x).rest).after (feed t x).written
      | some (.error e) => ⟨some (.error e), (feed t x).written, (feed t x).rest⟩
      | none => ⟨none, (feed t x).written, (feed t x).rest⟩ := by
  induction t generalizing x with
  | done a => rfl
  | fail e => rfl
  | turn i next ih => exact ih x
  | write m next ih =>
    simp only [Dialogue.bind, feed, ih, Spoken.after]
    cases (feed next x).result with
    | none => rfl
    | some r => cases r <;> simp
  | read n next ih =>
    simp only [Dialogue.bind, feed]
    split
    · exact ih _ _
    · rfl

theorem feed_bind_written (t : Dialogue β ε α) (k : α → Dialogue β ε γ) (x : List β) :
    (feed (t.bind k) x).written = (feed t x).written ++ match (feed t x).result with
      | some (.ok a) => (feed (k a) (feed t x).rest).written
      | _ => [] := by
  rw [feed_bind]
  cases (feed t x).result with
  | none => exact (List.append_nil _).symm
  | some r =>
    cases r with
    | ok a => rfl
    | error e => exact (List.append_nil _).symm

/-- The reads do what their bytes do; when these run out, the stream's end decides. -/
theorem converse_eq (eof : ε) (io : φ → ε) (t : Dialogue β ε α) (reads : List (Read β φ cap))
    (hd : drops reads = 0) :
    (converse eof io t reads).written = (feed t (incoming reads)).written ∧
    (∀ r, (feed t (incoming reads)).result = some r →
      (converse eof io t reads).result = some r ∧
        incoming (converse eof io t reads).rest = (feed t (incoming reads)).rest) ∧
    ((feed t (incoming reads)).result = none → (converse eof io t reads).result =
      (ending reads).map fun e => .error (e.elim eof io)) := by
  induction t generalizing reads with
  | done a | fail e =>
    refine ⟨rfl, fun r hr => ⟨hr, rfl⟩, ?_⟩
    intro hnone
    cases hnone
  | turn i next ih => exact ih reads hd
  | write m next ih =>
    obtain ⟨hw, hr, hnone⟩ := ih reads hd
    exact ⟨congrArg (m :: ·) hw, hr, hnone⟩
  | read n next ih =>
    by_cases hn : n ≤ (incoming reads).length
    · obtain ⟨reads', hread, hrest, hd', hend⟩ := readExact_incoming [] _ reads
        (List.take_append_drop n (incoming reads)).symm hd
      rw [List.length_take_of_le hn, List.nil_append] at hread
      have hc : converse eof io (read n next) reads =
          converse eof io (next ((incoming reads).take n)) reads' := by
        rw [converse, hread]
      have hf : feed (read n next) (incoming reads) =
          feed (next ((incoming reads).take n)) (incoming reads') := by
        rw [feed, if_pos hn, hrest]
      rw [hc, hf, ← hend]
      exact ih _ reads' hd'
    · have hf : feed (read n next) (incoming reads) = ⟨none, [], []⟩ :=
        feed_read_short (Nat.lt_of_not_le hn)
      have hc : ∃ reads', converse eof io (read n next) reads =
          ⟨(ending reads).map fun e => .error (e.elim eof io), [], reads'⟩ := by
        obtain ⟨hfull, hstop⟩ := readExact_short [] reads (Nat.lt_of_not_le hn) hd
        rw [converse, ← hstop]
        split
        · rename_i bytes reads' hread
          rw [hread] at hfull
          exact absurd rfl (hfull bytes)
        · rename_i stop reads' _ hread
          rw [hread]
          exact ⟨reads', rfl⟩
      obtain ⟨reads', hc⟩ := hc
      rw [hf, hc]
      refine ⟨rfl, ?_, fun _ => rfl⟩
      intro r hr
      cases hr

/-- On bytes x the program returns a, having written w and left the rest. -/
def Returns (t : Dialogue β ε α) (x : List β) (w : List (List β)) (a : α) (rest : List β) : Prop :=
  feed t x = ⟨some (.ok a), w, rest⟩

section Returns
variable {x rest : List β} {w : List (List β)} {a b : α} {c : γ} {n : Nat} {m : List β}
  {t : Dialogue β ε α} {k : α → Dialogue β ε γ} {next : List β → Dialogue β ε α}

@[simp] theorem returns_done :
    Returns (done a : Dialogue β ε α) x w b rest ↔ b = a ∧ w = [] ∧ rest = x := by
  simp [Returns, feed, eq_comm]

@[simp] theorem returns_fail {e : ε} : ¬ Returns (fail e : Dialogue β ε α) x w a rest := by
  simp [Returns, feed]

@[simp] theorem returns_write :
    Returns (write m t) x w a rest ↔ ∃ w', w = m :: w' ∧ Returns t x w' a rest := by
  unfold Returns
  rw [feed]
  generalize feed t x = o
  obtain ⟨result, written, left⟩ := o
  simp only [Spoken.after, List.cons_append, List.nil_append, Spoken.mk.injEq]
  constructor
  · rintro ⟨hr, rfl, hl⟩
    exact ⟨written, rfl, hr, rfl, hl⟩
  · rintro ⟨w', rfl, hr, rfl, hl⟩
    exact ⟨hr, rfl, hl⟩

@[simp] theorem returns_ofExcept {r : Except ε α} :
    Returns (ofExcept r : Dialogue β ε α) x w b rest ↔ r = .ok b ∧ w = [] ∧ rest = x := by
  simp [Returns, eq_comm]

theorem returns_read :
    Returns (read n next) x w a rest ↔
      ∃ y z, x = y ++ z ∧ y.length = n ∧ Returns (next y) z w a rest := by
  constructor
  · intro h
    by_cases hn : n ≤ x.length
    · refine ⟨x.take n, x.drop n, (List.take_append_drop n x).symm, List.length_take_of_le hn, ?_⟩
      rwa [Returns, feed, if_pos hn] at h
    · rw [Returns, feed_read_short (Nat.lt_of_not_le hn)] at h
      cases h
  · rintro ⟨y, z, rfl, hn, h⟩
    rwa [Returns, feed_read hn]

theorem returns_bind :
    Returns (t.bind k) x w c rest ↔
      ∃ w1 w2 a z, w = w1 ++ w2 ∧ Returns t x w1 a z ∧ Returns (k a) z w2 c rest := by
  unfold Returns
  rw [feed_bind]
  constructor
  · intro h
    cases ho : feed t x with
    | mk result written left =>
      rw [ho] at h
      match result, h with
      | some (.ok a), h =>
        refine ⟨written, (feed (k a) left).written, a, left, ?_, rfl, ?_⟩
        · exact (Spoken.mk.inj h).2.1.symm
        · have hr := (Spoken.mk.inj h).1
          have hl := (Spoken.mk.inj h).2.2
          rw [← hr, ← hl]
      | some (.error e), h => cases h
      | none, h => cases h
  · rintro ⟨w1, w2, a, z, rfl, h1, h2⟩
    simp only [h1, h2]
    rfl

theorem returns_readExact {k : List β → Dialogue β ε γ} :
    Returns ((readExact n).bind k) x w c rest ↔
      ∃ y z, x = y ++ z ∧ y.length = n ∧ Returns (k y) z w c rest :=
  returns_read

theorem returns_writeAll {k : Unit → Dialogue β ε γ} :
    Returns ((writeAll m).bind k) x w c rest ↔ ∃ w', w = m :: w' ∧ Returns (k ()) x w' c rest :=
  returns_write

theorem Returns.readExact {k : List β → Dialogue β ε γ} {y z : List β} (hn : y.length = n)
    (h : Returns (k y) z w c rest) : Returns ((Dialogue.readExact n).bind k) (y ++ z) w c rest :=
  returns_readExact.mpr ⟨y, z, rfl, hn, h⟩

theorem Returns.converse (h : Returns t x w a rest) (eof : ε) (io : φ → ε)
    {reads : List (Read β φ cap)} (hd : drops reads = 0) (hx : incoming reads = x) :
    (converse eof io t reads).result = some (.ok a) ∧ (converse eof io t reads).written = w ∧
      incoming (converse eof io t reads).rest = rest := by
  subst hx
  obtain ⟨hw, hr, -⟩ := converse_eq eof io t reads hd
  rw [h] at hw hr
  exact ⟨(hr _ rfl).1, hw, (hr _ rfl).2⟩

theorem converse_ok (eof : ε) (io : φ → ε) {reads : List (Read β φ cap)} (hd : drops reads = 0) :
    (converse eof io t reads).result = some (.ok a) ↔
      Returns t (incoming reads) (converse eof io t reads).written a
        (incoming (converse eof io t reads).rest) := by
  obtain ⟨hw, hr, hnone⟩ := converse_eq eof io t reads hd
  unfold Returns
  cases ho : feed t (incoming reads) with
  | mk result written left =>
    rw [ho] at hw hr hnone
    cases result with
    | none =>
      rw [hnone rfl]
      constructor
      · intro h
        obtain ⟨e, -, he⟩ := Option.map_eq_some_iff.mp h
        cases he
      · intro h
        cases h
    | some r =>
      obtain ⟨h1, h2⟩ := hr r rfl
      rw [h1, hw, h2]
      constructor
      · intro h
        cases h
        rfl
      · intro h
        cases h
        rfl

end Returns
end Dialogue

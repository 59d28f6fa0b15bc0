import Obfs.Lib.Trace

/-! Programs that talk over one byte stream to a chain of partners. A partner
answers what it is asked and may then open a further connection and relay, after
which the stream's far end is whoever answers there. Client and far end run
concurrently; what is written and not yet read is in transit. -/

/-- A program that writes to a stream and reads exactly so many bytes from it.
A turn to a stage is no action of the stream: it words who is meant from here on. -/
inductive Dialogue (β ε α : Type*) where
  | done (a : α)
  | fail (e : ε)
  | turn (stage : Nat) (next : Dialogue β ε α)
  | write (bytes : List β) (next : Dialogue β ε α)
  | read (n : Nat) (next : List β → Dialogue β ε α)

namespace Dialogue
open Trace
variable {α β γ δ ε : Type*}

protected def bind : Dialogue β ε α → (α → Dialogue β ε γ) → Dialogue β ε γ
  | done a, k => k a
  | fail e, _ => fail e
  | turn i next, k => turn i (next.bind k)
  | write bytes next, k => write bytes (next.bind k)
  | read n next, k => read n fun x => (next x).bind k

instance : Monad (Dialogue β ε) where
  pure := done
  bind := Dialogue.bind

def writeAll (bytes : List β) : Dialogue β ε Unit := write bytes (done ())
def readExact (n : Nat) : Dialogue β ε (List β) := read n done
def ofExcept : Except ε α → Dialogue β ε α
  | .ok a => done a
  | .error e => fail e

theorem bind_assoc (t : Dialogue β ε α) (f : α → Dialogue β ε γ) (g : γ → Dialogue β ε δ) :
    (t.bind f).bind g = t.bind fun a => (f a).bind g := by
  induction t with
  | done a => rfl
  | fail e => rfl
  | turn i next ih => exact congrArg (turn i) ih
  | write m next ih => exact congrArg (write m) ih
  | read n next ih => exact congrArg (read n) (funext ih)

/-- Reading exactly these bytes, a program goes on as another. -/
inductive Takes : Dialogue β ε α → List β → Dialogue β ε α → Prop where
  | refl (t : Dialogue β ε α) : Takes t [] t
  | read {n : Nat} {c : List β → Dialogue β ε α} {x z : List β} {t : Dialogue β ε α}
      (hn : x.length = n) (h : Takes (c x) z t) : Takes (read n c) (x ++ z) t

theorem Takes.bind {t t' : Dialogue β ε α} {z : List β} (h : Takes t z t')
    (k : α → Dialogue β ε γ) : Takes (t.bind k) z (t'.bind k) := by
  induction h with
  | refl t => exact .refl _
  | read hn _ ih => exact .read hn ih

/-- The other side of the stream. It waits until what it has read is enough. With
accept it opens a connection, sends its reply and relays from then on. -/
inductive Peer (β δ : Type*) where
  | recv (enough : List β → Bool) (next : List β → Peer β δ)
  | send (bytes : List β) (next : Peer β δ)
  | accept (dest : δ) (reply : List β)
  | hangup

theorem Peer.recv_ne_accept (enough : List β → Bool) (next : List β → Peer β δ) (dest : δ)
    (reply : List β) : Peer.recv enough next ≠ .accept dest reply := by
  intro h
  cases h

theorem Peer.hangup_ne_accept (dest : δ) (reply : List β) :
    (Peer.hangup : Peer β δ) ≠ .accept dest reply := by
  intro h
  cases h

/-- The shortest extension of what is got that is enough, and the rest. -/
def cut (enough : List β → Bool) (got : List β) : List β → Option (List β × List β)
  | [] => if enough got then some (got, []) else none
  | b :: bs => if enough got then some (got, b :: bs) else cut enough (got ++ [b]) bs

theorem cut_append {enough : List β → Bool} {x : List β} {got p rest : List β} (y : List β)
    (h : cut enough got x = some (p, rest)) : cut enough got (x ++ y) = some (p, rest ++ y) := by
  induction x generalizing got with
  | nil =>
    rw [cut] at h
    split at h
    · rename_i he
      cases h
      cases y <;> simp [cut, he]
    · cases h
  | cons b bs ih =>
    rw [cut] at h
    split at h
    · rename_i he
      cases h
      simp [cut, he]
    · rename_i he
      simpa [cut, he] using ih h

theorem cut_message {enough : List β → Bool} {msg : List β} (got : List β)
    (hm : enough (got ++ msg) = true)
    (hp : ∀ a b, msg = a ++ b → b ≠ [] → enough (got ++ a) = false) :
    cut enough got msg = some (got ++ msg, []) := by
  induction msg generalizing got with
  | nil =>
    rw [List.append_nil] at hm
    simp [cut, hm]
  | cons b bs ih =>
    have h0 : enough got = false := by
      simpa using hp [] (b :: bs) rfl (by simp)
    rw [cut, h0, if_neg Bool.false_ne_true]
    rw [ih (got ++ [b]) (by simpa using hm)]
    · simp
    · intro a c hac hc
      simpa using hp (b :: a) c (by simp [hac]) hc

structure Settled (β δ : Type*) where
  peer : Peer β δ
  input : List β
  out : List β

/-- All that a peer can do with its input before it accepts. -/
def settle : Peer β δ → List β → Settled β δ
  | .recv enough next, x =>
    match cut enough [] x with
    | some (got, rest) => settle (next got) rest
    | none => ⟨.recv enough next, x, []⟩
  | .send bytes next, x =>
    ⟨(settle next x).peer, (settle next x).input, bytes ++ (settle next x).out⟩
  | .accept dest reply, x => ⟨.accept dest reply, x, []⟩
  | .hangup, x => ⟨.hangup, x, []⟩

theorem settle_append (p : Peer β δ) (x y : List β) :
    settle p (x ++ y) =
      ⟨(settle (settle p x).peer ((settle p x).input ++ y)).peer,
        (settle (settle p x).peer ((settle p x).input ++ y)).input,
        (settle p x).out ++ (settle (settle p x).peer ((settle p x).input ++ y)).out⟩ := by
  induction p generalizing x with
  | recv enough next ih =>
    rw [settle]
    cases hc : cut enough [] x with
    | none => simp [settle, hc]
    | some r =>
      rw [cut_append y hc]
      simp only [settle, hc]
      exact ih r.1 r.2
  | send bytes next ih =>
    simp only [settle]
    rw [ih x]
    simp
  | accept dest reply => simp [settle]
  | hangup => simp [settle]

inductive Speaks (p : Peer β δ) : List β → Peer β δ → Prop where
  | refl : Speaks p [] p
  | send {out bytes : List β} {next : Peer β δ} :
      Speaks p out (.send bytes next) → Speaks p (out ++ bytes) next
  | recv {out : List β} {enough : List β → Bool} {next : List β → Peer β δ} :
      Speaks p out (.recv enough next) → enough [] = true → Speaks p out (next [])

theorem Speaks.settle_eq {p q : Peer β δ} {out : List β} (h : Speaks p out q) :
    settle p [] = ⟨(settle q []).peer, (settle q []).input, out ++ (settle q []).out⟩ := by
  induction h with
  | refl => rfl
  | send _ ih => simpa [settle] using ih
  | recv _ he ih => simpa [settle, cut, he] using ih

theorem Speaks.recv_nil {p : Peer β δ} {out got rest : List β} {enough : List β → Bool}
    {next : List β → Peer β δ} (h : Speaks p out (.recv enough next))
    (hg : cut enough [] [] = some (got, rest)) : Speaks p out (next got) ∧ rest = [] := by
  rw [cut] at hg
  split at hg
  · rename_i he
    cases hg
    exact ⟨h.recv he, rfl⟩
  · cases hg

def Peer.plain : Peer β Empty → Peer β δ
  | .recv enough next => .recv enough fun x => (next x).plain
  | .send bytes next => .send bytes next.plain
  | .accept dest _ => dest.elim
  | .hangup => .hangup

/-- A peer that is not asked opens no connection. -/
def Quiet (p : Peer β δ) : Prop := ∀ dest reply, (settle p []).peer ≠ .accept dest reply

theorem Quiet.not_accept {p : Peer β δ} {out : List β} {dest : δ} {reply : List β}
    (hq : Quiet p) (h : Speaks p out (.accept dest reply)) : False := by
  refine hq dest reply ?_
  rw [h.settle_eq]
  rfl

theorem settle_plain (p : Peer β Empty) (x : List β) (dest : δ) (reply : List β) :
    (settle p.plain x).peer ≠ .accept dest reply := by
  induction p generalizing x with
  | recv enough next ih =>
    simp only [Peer.plain, settle]
    split
    · exact ih _ _
    · exact Peer.recv_ne_accept _ _ dest reply
  | send bytes next ih => exact ih x
  | accept dest _ => exact dest.elim
  | hangup => exact Peer.hangup_ne_accept dest reply

/- The client, the stage it means, the number of connections opened on its behalf
with their destinations, the far end, and the bytes in transit. -/
structure State (β δ ε α : Type*) where
  client : Dialogue β ε α
  stage : Nat
  hop : Nat
  far : Peer β δ
  toFar : List β
  toClient : List β
  opened : List δ

/-- A step of the client or of the far end. An operation of the client may also
fail, a write after any part of its bytes. -/
inductive Event (ε : Type*) where
  | client
  | broken (e : ε) (sent : Nat)
  | far

/-- What is written, for which stage, and how many connections the bytes pass. -/
structure Wrote (β : Type*) where
  stage : Nat
  hop : Nat
  bytes : List β
  deriving DecidableEq

/-- One step; net tells who answers the connection that a partner opens. -/
def next (net : Nat → δ → Peer β δ) (s : State β δ ε α) :
    Event ε → Option (State β δ ε α × List (Wrote β))
  | .client =>
    match s.client with
    | .turn i c => some ({ s with client := c, stage := i }, [])
    | .write bytes c =>
      some ({ s with client := c, toFar := s.toFar ++ bytes }, [⟨s.stage, s.hop, bytes⟩])
    | .read n c =>
      if n ≤ s.toClient.length then
        some ({ s with client := c (s.toClient.take n), toClient := s.toClient.drop n }, [])
      else none
    | _ => none
  | .broken e sent =>
    match s.client with
    | .write bytes _ =>
      some ({ s with client := .fail e, toFar := s.toFar ++ bytes.take sent },
        [⟨s.stage, s.hop, bytes.take sent⟩])
    | .read _ _ => some ({ s with client := .fail e }, [])
    | _ => none
  | .far =>
    match s.far with
    | .recv enough p =>
      (cut enough [] s.toFar).map fun r => ({ s with far := p r.1, toFar := r.2 }, [])
    | .send bytes p => some ({ s with far := p, toClient := s.toClient ++ bytes }, [])
    | .accept dest reply =>
      some ({ s with
        hop := s.hop + 1
        far := net s.hop dest
        toClient := s.toClient ++ reply
        opened := s.opened ++ [dest] }, [])
    | .hangup => none

inductive Case (net : Nat → δ → Peer β δ) (s : State β δ ε α) :
    State β δ ε α → List (Wrote β) → Prop where
  | turn {i : Nat} {c : Dialogue β ε α} (hc : s.client = .turn i c) :
      Case net s { s with client := c, stage := i } []
  | write {bytes : List β} {c : Dialogue β ε α} (hc : s.client = .write bytes c) :
      Case net s { s with client := c, toFar := s.toFar ++ bytes } [⟨s.stage, s.hop, bytes⟩]
  | read {n : Nat} {c : List β → Dialogue β ε α} (hc : s.client = .read n c)
      (hn : n ≤ s.toClient.length) :
      Case net s { s with client := c (s.toClient.take n), toClient := s.toClient.drop n } []
  | brokenWrite {bytes : List β} {c : Dialogue β ε α} {e : ε} {sent : Nat}
      (hc : s.client = .write bytes c) :
      Case net s { s with client := .fail e, toFar := s.toFar ++ bytes.take sent }
        [⟨s.stage, s.hop, bytes.take sent⟩]
  | brokenRead {n : Nat} {c : List β → Dialogue β ε α} {e : ε} (hc : s.client = .read n c) :
      Case net s { s with client := .fail e } []
  | recv {enough : List β → Bool} {p : List β → Peer β δ} {got rest : List β}
      (hf : s.far = .recv enough p) (hg : cut enough [] s.toFar = some (got, rest)) :
      Case net s { s with far := p got, toFar := rest } []
  | send {bytes : List β} {p : Peer β δ} (hf : s.far = .send bytes p) :
      Case net s { s with far := p, toClient := s.toClient ++ bytes } []
  | accept {dest : δ} {reply : List β} (hf : s.far = .accept dest reply) :
      Case net s
        { s with
          hop := s.hop + 1
          far := net s.hop dest
          toClient := s.toClient ++ reply
          opened := s.opened ++ [dest] } []

theorem next_case {net : Nat → δ → Peer β δ} {s s' : State β δ ε α} {e : Event ε}
    {o : List (Wrote β)} (h : next net s e = some (s', o)) : Case net s s' o := by
  cases e with
  | client =>
    rw [next] at h
    split at h
    · rename_i hc
      cases h
      exact .turn hc
    · rename_i hc
      cases h
      exact .write hc
    · rename_i hc
      split at h
      · rename_i hn
        cases h
        exact .read hc hn
      · cases h
    · cases h
  | broken e sent =>
    rw [next] at h
    split at h
    · rename_i hc
      cases h
      exact .brokenWrite hc
    · rename_i hc
      cases h
      exact .brokenRead hc
    · cases h
  | far =>
    rw [next] at h
    split at h
    · rename_i hf
      obtain ⟨r, hg, he⟩ := Option.map_eq_some_iff.mp h
      cases he
      exact .recv hf hg
    · rename_i hf
      cases h
      exact .send hf
    · rename_i hf
      cases h
      exact .accept hf
    · cases h

def State.settled (s : State β δ ε α) : Settled β δ :=
  ⟨(settle s.far s.toFar).peer, (settle s.far s.toFar).input,
    s.toClient ++ (settle s.far s.toFar).out⟩

section
variable {s : State β δ ε α} {bytes : List β}

theorem settled_recv {enough : List β → Bool} {p : List β → Peer β δ} {got rest : List β}
    (hf : s.far = .recv enough p) (hg : cut enough [] s.toFar = some (got, rest)) :
    State.settled { s with far := p got, toFar := rest } = s.settled := by
  simp [State.settled, hf, settle, hg]

theorem settled_send {p : Peer β δ} (hf : s.far = .send bytes p) :
    State.settled { s with far := p, toClient := s.toClient ++ bytes } = s.settled := by
  simp [State.settled, hf, settle]

theorem settled_write (c : Dialogue β ε α) :
    State.settled { s with client := c, toFar := s.toFar ++ bytes } =
      ⟨(settle s.settled.peer (s.settled.input ++ bytes)).peer,
        (settle s.settled.peer (s.settled.input ++ bytes)).input,
        s.settled.out ++ (settle s.settled.peer (s.settled.input ++ bytes)).out⟩ := by
  simp [State.settled, settle_append s.far s.toFar bytes]

end

/-- A program that only reads, and ends just where these bytes end, or fails. -/
def Drains : Dialogue β ε α → List β → Prop
  | done _, z => z = []
  | fail _, _ => True
  | turn _ _, _ => False
  | write _ _, _ => False
  | read n c, z => n ≤ z.length ∧ Drains (c (z.take n)) (z.drop n)

/-- A program against a settled peer with the peer's words in transit: what it
writes is among its words, it never ends before the peer has accepted, and when the peer
accepts, the destination is the wanted one, nothing is left that the peer has not
read, and the program drains the reply. -/
def Meets (want : δ → Prop) (words : List β → Prop) :
    Dialogue β ε α → Peer β δ → List β → List β → Prop
  | done _, _, _, _ => False
  | fail _, _, _, _ => True
  | turn _ _, _, _, _ => False
  | write bytes c, p, x, y =>
    (∀ dest reply, p ≠ .accept dest reply) ∧ words bytes ∧
      Meets want words c (settle p (x ++ bytes)).peer (settle p (x ++ bytes)).input
        (y ++ (settle p (x ++ bytes)).out)
  | read n c, p, x, y =>
    (n ≤ y.length → Meets want words (c (y.take n)) p x (y.drop n)) ∧
      ∀ dest reply, p = .accept dest reply →
        want dest ∧ x = [] ∧ Drains (read n c) (y ++ reply)

theorem Takes.drains {t t' : Dialogue β ε α} {z w : List β} (h : Takes t z t')
    (hd : Drains t' w) : Drains t (z ++ w) := by
  induction h with
  | refl t => exact hd
  | @read n c x z t hn _ ih =>
    subst hn
    rw [List.append_assoc, Drains, List.take_left, List.drop_left]
    exact ⟨by simp, ih hd⟩

theorem meets_read {want : δ → Prop} {words : List β → Prop} {n : Nat}
    {c : List β → Dialogue β ε α} {p : Peer β δ} {x y w : List β} (hn : y.length = n)
    (hp : ∀ dest reply, p ≠ .accept dest reply) (hm : Meets want words (c y) p x w) :
    Meets want words (read n c) p x (y ++ w) := by
  subst hn
  rw [Meets, List.take_left, List.drop_left]
  exact ⟨fun _ => hm, fun dest reply he => (hp dest reply he).elim⟩

theorem Takes.meets {want : δ → Prop} {words : List β → Prop} {t t' : Dialogue β ε α}
    {p : Peer β δ} {x z w : List β} (h : Takes t z t') (hp : ∀ dest reply, p ≠ .accept dest reply)
    (hm : Meets want words t' p x w) : Meets want words t p x (z ++ w) := by
  induction h with
  | refl t => exact hm
  | read hn _ ih =>
    rw [List.append_assoc]
    exact meets_read hn hp (ih hm)

theorem Drains.meets {want : δ → Prop} {words : List β → Prop} {t : Dialogue β ε α} {dest : δ}
    {reply y : List β} (hd : Drains t (y ++ reply)) (hw : want dest) (hne : reply ≠ []) :
    Meets want words t (.accept dest reply) [] y := by
  induction t generalizing y with
  | done a => simp [Drains, hne] at hd
  | fail e => trivial
  | turn i t ih => exact hd.elim
  | write bytes t ih => exact hd.elim
  | read n c ih =>
    refine ⟨?_, ?_⟩
    · intro hn
      obtain ⟨-, hd'⟩ := hd
      rw [List.take_append_of_le_length hn, List.drop_append_of_le_length hn] at hd'
      exact ih _ hd'
    · rintro dest' reply' ⟨⟩
      exact ⟨hw, rfl, hd⟩

def Fits (want : δ → Prop) (words : List β → Prop) (t : Dialogue β ε α) (p : Peer β δ) : Prop :=
  Meets want words t (settle p []).peer (settle p []).input (settle p []).out

theorem Meets.mono {want : δ → Prop} {words words' : List β → Prop} {t : Dialogue β ε α}
    {p : Peer β δ} {x y : List β} (hw : ∀ m, words m → words' m) (h : Meets want words t p x y) :
    Meets want words' t p x y := by
  induction t generalizing p x y with
  | done | turn => exact h.elim
  | fail => trivial
  | write bytes c ih => exact ⟨h.1, hw _ h.2.1, ih h.2.2⟩
  | read n c ih => exact ⟨fun hn => ih _ (h.1 hn), h.2⟩

def script : Nat → List (Dialogue β ε Unit) → Dialogue β ε Unit
  | _, [] => done ()
  | i, t :: ts => turn i (t.bind fun _ => script (i + 1) ts)

def partner (first : Peer β δ) (net : Nat → δ → Peer β δ) (opened : List δ) : Peer β δ :=
  match opened.getLast? with
  | none => first
  | some d => net (opened.length - 1) d

@[simp] theorem partner_concat (first : Peer β δ) (net : Nat → δ → Peer β δ) (opened : List δ)
    (d : δ) : partner first net (opened ++ [d]) = net opened.length d := by
  simp [partner]

def Route (want : Nat → δ → Prop) (opened : List δ) : Prop :=
  ∀ i d, opened[i]? = some d → want i d

theorem Route.concat {want : Nat → δ → Prop} {opened : List δ} {d : δ} (h : Route want opened)
    (hd : want opened.length d) : Route want (opened ++ [d]) := by
  intro i e he
  rw [List.getElem?_append] at he
  split at he
  · exact h i e he
  · rename_i hi
    obtain ⟨h0, rfl⟩ : i - opened.length = 0 ∧ d = e := by
      simpa [List.getElem?_singleton] using he
    have hi' : i = opened.length := by omega
    rwa [hi']

/-- What is assumed of programs and partners: along every route, the next program
fits its partner, and a partner that is not asked opens nothing. -/
structure Plan (stages : List (Dialogue β ε Unit)) (first : Peer β δ) (net : Nat → δ → Peer β δ)
    (want : Nat → δ → Prop) (words : Nat → List β → Prop) : Prop where
  fits : ∀ opened t, Route want opened → stages[opened.length]? = some t →
    Fits (want opened.length) (words opened.length) t (partner first net opened)
  quiet : ∀ opened, Route want opened → opened.length ≤ stages.length →
    Quiet (partner first net opened)

section
variable (stages : List (Dialogue β ε Unit)) (first : Peer β δ) (net : Nat → δ → Peer β δ)
  (want : Nat → δ → Prop) (words : Nat → List β → Prop)

inductive Phase (s : State β δ ε Unit) : Prop where
  /- Between two programs: the far end has heard nothing yet. -/
  | between (hs : s.stage ≤ s.hop) (hi : s.hop ≤ stages.length)
      (hc : s.client = script s.hop (stages.drop s.hop)) (hx : s.toFar = [])
      (hy : Speaks (partner first net s.opened) s.toClient s.far)
  /- The partner has not accepted. -/
  | asking {t : Dialogue β ε Unit} (hs : s.stage = s.hop) (hi : s.hop < stages.length)
      (hc : s.client = t.bind fun _ => script (s.hop + 1) (stages.drop (s.hop + 1)))
      (hm : Meets (want s.hop) (words s.hop) t s.settled.peer s.settled.input s.settled.out)
  /- The partner relays already, and its reply is being read. -/
  | hearing {t : Dialogue β ε Unit} {z out : List β} (hs : s.stage + 1 = s.hop)
      (hi : s.hop ≤ stages.length) (ht : ∀ a, t ≠ done a)
      (hc : s.client = t.bind fun _ => script s.hop (stages.drop s.hop))
      (hd : Drains t z) (hx : s.toFar = []) (hz : s.toClient = z ++ out)
      (hy : Speaks (partner first net s.opened) out s.far)

inductive Inv (s : State β δ ε Unit) : Prop where
  | alive (hl : s.opened.length = s.hop) (hr : Route want s.opened)
      (hp : Phase stages first net want words s)
  | failed {e : ε} (hc : s.client = .fail e)

def Proper (s : State β δ ε Unit) (w : Wrote β) : Prop :=
  w.stage = s.stage ∧ w.hop = w.stage ∧ ∃ m, words w.stage m ∧ w.bytes <+: m

end

section
variable {stages : List (Dialogue β ε Unit)} {first : Peer β δ} {net : Nat → δ → Peer β δ}
  {want : Nat → δ → Prop} {words : Nat → List β → Prop} {s s' : State β δ ε Unit}
  {o : List (Wrote β)}

theorem Phase.heard {t : Dialogue β ε Unit} {z out : List β} (hs : s.stage + 1 = s.hop)
    (hi : s.hop ≤ stages.length)
    (hc : s.client = t.bind fun _ => script s.hop (stages.drop s.hop))
    (hd : Drains t z) (hx : s.toFar = []) (hz : s.toClient = z ++ out)
    (hy : Speaks (partner first net s.opened) out s.far) :
    Phase stages first net want words s := by
  cases t with
  | done a =>
    rw [Drains] at hd
    subst hd
    rw [List.nil_append] at hz
    exact .between (by omega) hi hc hx (hz ▸ hy)
  | _ => exact .hearing hs hi (by simp) hc hd hx hz hy

theorem failed_step {e : ε} (hc : s.client = .fail e) (h : Case net s s' o) :
    s'.client = .fail e ∧ s'.stage = s.stage ∧ o = [] := by
  cases h with
  | turn h | write h | read h | brokenWrite h | brokenRead h => cases hc.symm.trans h
  | recv | send | accept => exact ⟨hc, rfl, rfl⟩

theorem script_drop (stages : List (Dialogue β ε Unit)) (i : Nat) :
    script i (stages.drop i) = done () ∨
      ∃ t, stages[i]? = some t ∧
        script i (stages.drop i) =
          turn i (t.bind fun _ => script (i + 1) (stages.drop (i + 1))) := by
  by_cases hi : i < stages.length
  · refine .inr ⟨stages[i], List.getElem?_eq_getElem hi, ?_⟩
    rw [List.drop_eq_getElem_cons hi]
    rfl
  · refine .inl ?_
    rw [List.drop_eq_nil_of_le (by omega)]
    rfl

theorem between_step (P : Plan stages first net want words) (hl : s.opened.length = s.hop)
    (hr : Route want s.opened) (hs : s.stage ≤ s.hop) (hi : s.hop ≤ stages.length)
    (hc : s.client = script s.hop (stages.drop s.hop)) (hx : s.toFar = [])
    (hy : Speaks (partner first net s.opened) s.toClient s.far) (h : Case net s s' o) :
    Inv stages first net want words s' ∧ s.stage ≤ s'.stage ∧ ∀ w ∈ o, Proper words s w := by
  cases h with
  | @turn i c h =>
    obtain hd | ⟨t, ht, hd⟩ := script_drop stages s.hop
    · cases (hc.trans hd).symm.trans h
    · cases (hc.trans hd).symm.trans h
      refine ⟨.alive hl hr (.asking (t := t) rfl ?_ rfl ?_), hs, by simp⟩
      · exact (List.getElem?_eq_some_iff.mp ht).1
      · have hf := P.fits s.opened t hr (hl ▸ ht)
        rw [Fits, hy.settle_eq, hl] at hf
        simpa [State.settled, hx] using hf
  | write h | read h | brokenWrite h | brokenRead h =>
    obtain hd | ⟨t, ht, hd⟩ := script_drop stages s.hop
    · cases (hc.trans hd).symm.trans h
    · cases (hc.trans hd).symm.trans h
  | @recv enough p got rest hf hg =>
    obtain ⟨hy', rfl⟩ := Speaks.recv_nil (hf ▸ hy) (hx ▸ hg)
    exact ⟨.alive hl hr (.between hs hi hc rfl hy'), Nat.le_refl _, by simp⟩
  | @send bytes p hf =>
    exact ⟨.alive hl hr (.between hs hi hc hx (Speaks.send (hf ▸ hy))), Nat.le_refl _, by simp⟩
  | accept hf => exact ((P.quiet s.opened hr (hl ▸ hi)).not_accept (hf ▸ hy)).elim

theorem asking_step (hl : s.opened.length = s.hop) (hr : Route want s.opened)
    {t : Dialogue β ε Unit} (hs : s.stage = s.hop) (hi : s.hop < stages.length)
    (hc : s.client = t.bind fun _ => script (s.hop + 1) (stages.drop (s.hop + 1)))
    (hm : Meets (want s.hop) (words s.hop) t s.settled.peer s.settled.input s.settled.out)
    (h : Case net s s' o) :
    Inv stages first net want words s' ∧ s.stage ≤ s'.stage ∧ ∀ w ∈ o, Proper words s w := by
  cases h with
  | turn h =>
    cases t with
    | done | turn => exact hm.elim
    | fail | write | read => cases hc.symm.trans h
  | @write bytes _ h =>
    cases t with
    | done | turn => exact hm.elim
    | fail | read => cases hc.symm.trans h
    | write _ c =>
      cases hc.symm.trans h
      refine ⟨.alive hl hr (.asking (t := c) hs hi rfl ?_), Nat.le_refl _, ?_⟩
      · rw [settled_write]
        exact hm.2.2
      · rintro w hw
        cases List.mem_singleton.mp hw
        exact ⟨rfl, hs.symm, bytes, by rw [hs]; exact hm.2.1, List.prefix_rfl⟩
  | @read n _ h hn =>
    cases t with
    | done | turn => exact hm.elim
    | fail | write => cases hc.symm.trans h
    | read _ c =>
      cases hc.symm.trans h
      refine ⟨.alive hl hr (.asking (t := c (s.toClient.take n)) hs hi rfl ?_), Nat.le_refl _,
        by simp⟩
      have hm' := hm.1 (by simp only [State.settled, List.length_append]; omega)
      simpa [State.settled, List.take_append_of_le_length hn,
        List.drop_append_of_le_length hn] using hm'
  | @brokenWrite bytes _ _ _ h =>
    cases t with
    | done | turn => exact hm.elim
    | fail | read => cases hc.symm.trans h
    | write _ c =>
      cases hc.symm.trans h
      refine ⟨.failed rfl, Nat.le_refl _, ?_⟩
      rintro w hw
      cases List.mem_singleton.mp hw
      exact ⟨rfl, hs.symm, bytes, by rw [hs]; exact hm.2.1, List.take_prefix _ _⟩
  | brokenRead h => exact ⟨.failed rfl, Nat.le_refl _, by simp⟩
  | recv hf hg =>
    refine ⟨.alive hl hr (.asking hs hi hc ?_), Nat.le_refl _, by simp⟩
    rw [settled_recv hf hg]
    exact hm
  | send hf =>
    refine ⟨.alive hl hr (.asking hs hi hc ?_), Nat.le_refl _, by simp⟩
    rw [settled_send hf]
    exact hm
  | @accept dest reply hf =>
    refine ⟨?_, Nat.le_refl _, by simp⟩
    have hset : s.settled = ⟨.accept dest reply, s.toFar, s.toClient⟩ := by
      simp [State.settled, hf, settle]
    rw [hset] at hm
    -- all that was written is read, so that only the reply is left to the client
    cases t with
    | done | turn => exact hm.elim
    | fail e => exact .failed hc
    | write bytes c => exact (hm.1 dest reply rfl).elim
    | read n c =>
      obtain ⟨hw, hx, hd⟩ := hm.2 dest reply rfl
      refine .alive ?_ (hr.concat (hl ▸ hw))
        (.heard ?_ hi hc hd hx (List.append_nil _).symm ?_)
      · simp [hl]
      · rw [hs]
      · rw [partner_concat, hl]
        exact .refl

theorem hearing_step (P : Plan stages first net want words) (hl : s.opened.length = s.hop)
    (hr : Route want s.opened) {t : Dialogue β ε Unit} {z out : List β}
    (hs : s.stage + 1 = s.hop) (hi : s.hop ≤ stages.length) (ht : ∀ a, t ≠ done a)
    (hc : s.client = t.bind fun _ => script s.hop (stages.drop s.hop))
    (hd : Drains t z) (hx : s.toFar = []) (hz : s.toClient = z ++ out)
    (hy : Speaks (partner first net s.opened) out s.far) (h : Case net s s' o) :
    Inv stages first net want words s' ∧ s.stage ≤ s'.stage ∧ ∀ w ∈ o, Proper words s w := by
  cases h with
  | recv hf hg =>
    obtain ⟨hy', rfl⟩ := Speaks.recv_nil (hf ▸ hy) (hx ▸ hg)
    exact ⟨.alive hl hr (.hearing hs hi ht hc hd rfl hz hy'), Nat.le_refl _, by simp⟩
  | @send bytes p hf =>
    refine ⟨.alive hl hr (.hearing hs hi ht hc hd hx ?_ (Speaks.send (hf ▸ hy))), Nat.le_refl _,
      by simp⟩
    simp [hz]
  | accept hf => exact ((P.quiet s.opened hr (hl ▸ hi)).not_accept (hf ▸ hy)).elim
  | @read n _ h hn =>
    cases t with
    | done a => exact (ht a rfl).elim
    | turn | write => exact hd.elim
    | fail => cases hc.symm.trans h
    | read _ c =>
      cases hc.symm.trans h
      obtain ⟨hn', hd'⟩ := hd
      have htake : s.toClient.take n = z.take n := by
        rw [hz, List.take_append_of_le_length hn']
      have hdrop : s.toClient.drop n = z.drop n ++ out := by
        rw [hz, List.drop_append_of_le_length hn']
      refine ⟨.alive hl hr (.heard (t := c (z.take n)) hs hi ?_ hd' hx hdrop hy),
        Nat.le_refl _, by simp⟩
      rw [htake]
  | brokenRead => exact ⟨.failed rfl, Nat.le_refl _, by simp⟩
  | turn h | write h | brokenWrite h =>
    cases t with
    | done a => exact (ht a rfl).elim
    | turn | write => exact hd.elim
    | fail | read => cases hc.symm.trans h

theorem step_proper (P : Plan stages first net want words)
    (hi : Inv stages first net want words s) (h : Case net s s' o) :
    Inv stages first net want words s' ∧ s.stage ≤ s'.stage ∧ ∀ w ∈ o, Proper words s w := by
  cases hi with
  | failed hc =>
    obtain ⟨hc', hs, rfl⟩ := failed_step hc h
    exact ⟨.failed hc', Nat.le_of_eq hs.symm, by simp⟩
  | alive hl hr hp =>
    cases hp with
    | between hs hi hc hx hy => exact between_step P hl hr hs hi hc hx hy h
    | asking hs hi hc hm => exact asking_step hl hr hs hi hc hm h
    | hearing hs hi ht hc hd hx hz hy => exact hearing_step P hl hr hs hi ht hc hd hx hz hy h

def State.start (stages : List (Dialogue β ε Unit)) (first : Peer β δ) : State β δ ε Unit :=
  ⟨script 0 stages, 0, 0, first, [], [], []⟩

/-- Along every run, all that is written for a stage is that stage's words,
written while the far end is that stage's partner; no later stage has written. -/
theorem run_proper (P : Plan stages first net want words)
    {h : List (Step (State β δ ε Unit) (Event ε) (Wrote β))}
    (hr : Run (next net) (.start stages first) h s) :
    Inv stages first net want words s ∧
      ∀ i t, At h i t → ∀ w ∈ t.out,
        w.stage ≤ s.stage ∧ w.hop = w.stage ∧ ∃ m, words w.stage m ∧ w.bytes <+: m := by
  induction hr with
  | nil =>
    refine ⟨.alive rfl ?_ (.between (Nat.le_refl _) (Nat.zero_le _) rfl rfl ?_), ?_⟩
    · rintro i d ⟨⟩
    · exact .refl
    · rintro i t ⟨⟩
  | @snoc h s s' e o hr hn ih =>
    obtain ⟨hi, hs, ho⟩ := step_proper P ih.1 (next_case hn)
    refine ⟨hi, ?_⟩
    intro i t ht w hw
    obtain ht | ⟨-, rfl⟩ := at_snoc.mp ht
    · obtain ⟨h1, h2⟩ := ih.2 i t ht w hw
      exact ⟨Nat.le_trans h1 hs, h2⟩
    · obtain ⟨h1, h2⟩ := ho w hw
      exact ⟨h1 ▸ hs, h2⟩

/-- When all programs have ended, every partner has opened what was wanted of it,
and the stream is as the last destination has it. -/
theorem done_of_inv (hi : Inv stages first net want words s) {a : Unit}
    (hc : s.client = .done a) :
    s.opened.length = stages.length ∧ Route want s.opened ∧ s.hop = stages.length ∧
      s.toFar = [] ∧ Speaks (partner first net s.opened) s.toClient s.far := by
  cases hi with
  | failed hf => cases hc.symm.trans hf
  | alive hl hr hp =>
    cases hp with
    | between hs hi hd hx hy =>
      have hlen : s.hop = stages.length := by
        by_contra hne
        rw [List.drop_eq_getElem_cons (by omega)] at hd
        cases hc.symm.trans hd
      exact ⟨hl.trans hlen, hr, hlen, hx, hy⟩
    | @asking t hs hi hd hm =>
      cases t with
      | done | turn => exact hm.elim
      | fail | write | read => cases hc.symm.trans hd
    | @hearing t z out hs hi ht hd hdr hx hz hy =>
      cases t with
      | done a => exact (ht a rfl).elim
      | turn | write => exact hdr.elim
      | fail | read => cases hc.symm.trans hd

end

end Dialogue

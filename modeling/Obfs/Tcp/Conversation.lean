import Obfs.Lib.Ordered
import Obfs.Symbolic.Keyed
import Obfs.Tcp.Channels

/-! The sessions of the stream transport over a whole run. Noise lets a session
decrypt only what was encrypted under its key and number. So what a party
decrypts is the beginning of what its one peer has encrypted, in order, whatever
the network does to the stream. -/
namespace Obfs.Tcp
open Broadcast Client TcpStream Trace
variable {K : StreamCrates} {ι : Type} [DecidableEq ι] {cfg : TcpCfg K ι} (Z : K.Cipher)

def sendCells (p : Party ι) (s : TcpState cfg) : Option ((Bytes × Bool) × Nat) :=
  (s.endOf p).map Z.sendCell

def recvCells (p : Party ι) (s : TcpState cfg) : Option ((Bytes × Bool) × Nat) :=
  (s.endOf p).map Z.recvCell

/-- What a step encrypts and decrypts, with key and number. -/
def sealedRecords (t : TcpStep cfg) : List ((Bytes × Bool) × Nat × Bytes) :=
  match stepOps t with
  | some (p, _) =>
    (sendCells Z p t.pre).elim [] fun c => (sealedIn p t).map fun pt => (c.1, c.2, pt)
  | none => []

def openedRecords (t : TcpStep cfg) : List ((Bytes × Bool) × Nat × Bytes) :=
  match stepOps t with
  | some (p, _) =>
    (recvCells Z p t.pre).elim [] fun c => (openedIn p t).map fun pt => (c.1, c.2, pt)
  | none => []

/-- A session decrypts only what was encrypted before under its key and number. -/
def Genuine (h : List (TcpStep cfg)) : Prop := Precedes (sealedRecords Z) (openedRecords Z) h

def ephemerals (t : TcpStep cfg) : List K.Entropy :=
  match t.event with
  | .connect _ e _ _ => [e]
  | .conn _ (.handshake e _ _) => [e]
  | _ => []

/-- No ephemeral is drawn twice. -/
def FreshEphemerals (h : List (TcpStep cfg)) : Prop := (gather ephemerals h).Nodup

instance (h : List (TcpStep cfg)) : Decidable (Genuine Z h) :=
  inferInstanceAs (Decidable (Precedes _ _ h))

instance [DecidableEq K.Entropy] (h : List (TcpStep cfg)) : Decidable (FreshEphemerals h) :=
  inferInstanceAs (Decidable (List.Nodup _))

variable {Z} {s s' : TcpState cfg} {e : TcpEvent cfg} {o : List (TcpEffect K ι)}

theorem counted {cell : StreamEnd K → (Bytes × Bool) × Nat}
    {values : StreamEnd K → List (StreamOp K) → List Bytes}
    (hfresh : ∀ (ep : StreamEnd K) hs, K.intoSession hs = .ok ep.session → (cell ep).2 = 0)
    (hrun : ∀ ep ops, cell (runOps ep ops) = ((cell ep).1, (cell ep).2 + (values ep ops).length))
    (hone : ∀ ep ops, Turn ops → (values ep ops).length ≤ 1)
    (h : tcpNext s e = some (s', o)) (p : Party ι) :
    Counted (fun s : TcpState cfg => (s.endOf p).map cell)
      (fun t => (t.pre.endOf p).elim [] fun ep => values ep (turnOf p t)) ⟨s, e, o, s'⟩ := by
  cases end_case h p with
  | kept ep hpre hpost hturn =>
    dsimp only at hpre hpost
    refine ⟨?_, ?_, ?_⟩
    · simp only [hpre, Option.elim_some]
      exact hone ep _ hturn
    · intro hc
      simp only [hpre, Option.map_some, reduceCtorEq] at hc
    · intro k n hc
      simp only [hpre, Option.map_some, Option.some.injEq] at hc
      simp only [hpre, hpost, Option.map_some, Option.elim_some, hrun, hc]
  | absent hpre hpost =>
    dsimp only at hpre hpost
    refine ⟨?_, ?_, ?_⟩
    · simp only [hpre, Option.elim_none, List.length_nil, Nat.zero_le]
    · refine fun _ => ⟨by simp only [hpre, Option.elim_none], ?_⟩
      intro k n hc
      obtain ⟨ep, hep, heq⟩ := Option.map_eq_some_iff.mp hc
      obtain ⟨hs, hses⟩ := (hpost ep hep).session
      have hzero := hfresh ep hs hses
      rwa [heq] at hzero
    · intro k n hc
      simp only [hpre, Option.map_none, reduceCtorEq] at hc

theorem counted_sealed (h : tcpNext s e = some (s', o)) (p : Party ι) :
    Counted (sendCells Z p) (sealedIn p) ⟨s, e, o, s'⟩ :=
  counted (fun _ _ hses => (Z.fresh hses).1) (fun ep ops => (Z.runOps_cells ep ops).1)
    (fun ep _ ht => (ht.one ep).1) h p

theorem counted_opened (h : tcpNext s e = some (s', o)) (p : Party ι) :
    Counted (recvCells Z p) (openedIn p) ⟨s, e, o, s'⟩ :=
  counted (fun _ _ hses => (Z.fresh hses).2) (fun ep ops => (Z.runOps_cells ep ops).2)
    (fun ep _ ht => (ht.one ep).2) h p

theorem stepOps_of_turn {t : TcpStep cfg} {p : Party ι} (h : turnOf p t ≠ []) :
    ∃ ops, stepOps t = some (p, ops) := by
  cases hs : stepOps t with
  | none => exact absurd (turnOf_none hs) h
  | some q =>
    by_cases hqp : q.1 = p
    · exact ⟨q.2, hqp ▸ rfl⟩
    · exact absurd (turnOf_other hs hqp) h

theorem mem_openedRecords {t : TcpStep cfg} {p : Party ι} {pt : Bytes} (h : pt ∈ openedIn p t) :
    ∃ k n, recvCells Z p t.pre = some (k, n) ∧ (k, n, pt) ∈ openedRecords Z t := by
  cases hep : t.pre.endOf p with
  | none =>
    rw [openedIn, hep] at h
    cases h
  | some ep =>
    have hturn : turnOf p t ≠ [] := by
      intro hnil
      rw [openedIn, hep, Option.elim_some, hnil] at h
      cases h
    obtain ⟨ops, hops⟩ := stepOps_of_turn hturn
    have hcell : recvCells Z p t.pre = some (Z.recvCell ep) := by
      rw [recvCells, hep]
      rfl
    refine ⟨_, _, hcell, ?_⟩
    simp only [openedRecords, hops, hcell, Option.elim_some, List.mem_map]
    exact ⟨pt, h, rfl⟩

theorem of_mem_sealedRecords {t : TcpStep cfg} {k : Bytes × Bool} {n : Nat} {pt : Bytes}
    (h : (k, n, pt) ∈ sealedRecords Z t) :
    ∃ p, pt ∈ sealedIn p t ∧ sendCells Z p t.pre = some (k, n) := by
  unfold sealedRecords at h
  split at h
  · rename_i p ops hops
    cases hcell : sendCells Z p t.pre with
    | none =>
      rw [hcell] at h
      cases h
    | some c =>
      rw [hcell, Option.elim_some, List.mem_map] at h
      obtain ⟨pt', hpt, heq⟩ := h
      cases heq
      exact ⟨p, hpt, hcell⟩
  · cases h

theorem matched {h : List (TcpStep cfg)} (hgen : Genuine Z h) :
    Matched (sendCells Z) (recvCells Z) sealedIn openedIn h := by
  intro j u b x hu hx
  obtain ⟨k, n, hk, hrec⟩ := mem_openedRecords (Z := Z) hx
  obtain ⟨i, t, hij, ht, hmem⟩ := hgen j u hu _ hrec
  obtain ⟨a, hx', ha⟩ := of_mem_sealedRecords hmem
  exact ⟨k, n, hk, i, t, a, hij, ht, hx', ha⟩

variable {sources : Nat → Channel (Event K.core)} {h : List (TcpStep cfg)}

/-- Every session was made in a step of the run, and keeps its keys. -/
theorem session_made (hr : TcpRun (.init cfg sources) h s) {p : Party ι} {ep : StreamEnd K}
    (hp : s.endOf p = some ep) :
    ∃ i t ses, At h i t ∧ Made t p ses ∧ Z.sendKey ses = Z.sendKey ep.session := by
  have h0 (k : Bytes × Bool) : ¬ ∃ ep, (TcpState.init cfg sources).endOf p = some ep ∧
      Z.sendKey ep.session = k := by
    rintro ⟨ep, hep, -⟩
    cases p <;> cases hep
  obtain ⟨i, t, ht, ses, hm, hk⟩ := hr.granted
    (fun s k => ∃ ep, s.endOf p = some ep ∧ Z.sendKey ep.session = k)
    (fun t k => ∃ ses, Made t p ses ∧ Z.sendKey ses = k) h0
    (by
      rintro s e s' o k hn ⟨ep, hep, rfl⟩
      cases end_case hn p with
      | kept ep₀ hpre hpost hturn =>
        cases hpost.symm.trans hep
        refine Or.inl ⟨ep₀, hpre, ?_⟩
        exact (congrArg Prod.fst (Z.runOps_cells ep₀ _).1).symm
      | absent hpre hpost => exact Or.inr ⟨ep.session, hpost ep hep, rfl⟩)
    ⟨ep, hp, rfl⟩
  exact ⟨i, t, ses, ht, hm, hk⟩

/-- With fresh ephemerals no two parties encrypt under the same key. -/
theorem separateKeys (X : K.Xk Z) (hr : TcpRun (.init cfg sources) h s)
    (hfresh : FreshEphemerals h) : SeparateOwners (sendCells Z) s := by
  intro p q k m n hp hq
  obtain ⟨ep, hep, hk⟩ := Option.map_eq_some_iff.mp hp
  obtain ⟨eq, heq, hk'⟩ := Option.map_eq_some_iff.mp hq
  have hkeys : Z.sendKey ep.session = Z.sendKey eq.session :=
    (congrArg Prod.fst hk).trans (congrArg Prod.fst hk').symm
  obtain ⟨i, t, ses, ht, hm, hs⟩ := session_made (Z := Z) hr hep
  obtain ⟨j, u, ses', hu, hm', hs'⟩ := session_made (Z := Z) hr heq
  have hsame : Z.sendKey ses = Z.sendKey ses' := (hs.trans hkeys).trans hs'.symm
  obtain ⟨hsecret, hside⟩ := Prod.mk.inj hsame
  -- one ephemeral is drawn in one step
  have hstep {x : K.Entropy} (hx : x ∈ ephemerals t) (hy : x ∈ ephemerals u) : t = u := by
    cases gather_unique hfresh ht hu hx hy
    exact ht.unique hu
  cases hm with
  | @client c e rng socket hs₁ _ he hd hses =>
    cases hm' with
    | @client d e' rng' socket' hs₂ _ he' hd' hses' =>
      cases X.initiator_fresh hd hd' hses hses' hsecret
      have htu := hstep (x := e) (by simp [ephemerals, he]) (by simp [ephemerals, he'])
      rw [htu, he'] at he
      cases he
      rfl
    | conn he' hd' hses' =>
      rw [X.initiator hd hses, X.responder hd' hses'] at hside
      cases hside
  | @conn m e rng socket hs₁ _ he hd hses =>
    cases hm' with
    | client he' hd' hses' =>
      rw [X.responder hd hses, X.initiator hd' hses'] at hside
      cases hside
    | @conn m' e' rng' socket' hs₂ _ he' hd' hses' =>
      cases X.responder_fresh hd hd' hses hses' hsecret
      have htu := hstep (x := e) (by simp [ephemerals, he]) (by simp [ephemerals, he'])
      rw [htu, he'] at he
      cases he
      rfl

variable (Z) in
def sealedNonces (t : TcpStep cfg) : List ((Bytes × Bool) × Nat) :=
  (sealedRecords Z t).map fun r => (r.1, r.2.1)

theorem usesCells (hn : tcpNext s e = some (s', o)) :
    UsesCells (sendCells Z) sealedIn (sealedNonces Z) ⟨s, e, o, s'⟩ := by
  refine ⟨?_, ?_, ?_⟩
  · rw [sealedNonces, List.length_map]
    unfold sealedRecords
    split
    · rename_i p ops hops
      cases sendCells Z p s with
      | none => exact Nat.zero_le _
      | some c =>
        rw [Option.elim_some, List.length_map]
        exact (counted_sealed (Z := Z) hn p).one
    · exact Nat.zero_le _
  · intro c hc
    obtain ⟨⟨k, n, pt⟩, hr, rfl⟩ := List.mem_map.mp hc
    obtain ⟨p, hpt, hcell⟩ := of_mem_sealedRecords hr
    exact ⟨p, hcell, List.ne_nil_of_mem hpt⟩
  · intro p c hcell hne
    obtain ⟨pt, hpt⟩ := List.exists_mem_of_ne_nil _ hne
    have hturn : turnOf p ⟨s, e, o, s'⟩ ≠ [] := by
      intro hnil
      rw [sealedIn, hnil] at hpt
      cases hep : s.endOf p <;> rw [hep] at hpt <;> cases hpt
    obtain ⟨ops, hops⟩ := stepOps_of_turn hturn
    refine List.mem_map.mpr ⟨(c.1, c.2, pt), ?_, rfl⟩
    simp only [sealedRecords, hops, hcell, Option.elim_some, List.mem_map]
    exact ⟨pt, hpt, rfl⟩

omit [DecidableEq ι] in
theorem FreshEphemerals.take (hfresh : FreshEphemerals h) (n : Nat) :
    FreshEphemerals (h.take n) := by
  have hsplit : gather ephemerals h =
      gather ephemerals (h.take n) ++ gather ephemerals (h.drop n) := by
    rw [← gather_append, List.take_append_drop]
  rw [FreshEphemerals, hsplit] at hfresh
  exact hfresh.of_append_left

theorem sealed_countsUp (X : K.Xk Z) (hr : TcpRun (.init cfg sources) h s)
    (hfresh : FreshEphemerals h) (k : Bytes × Bool) :
    CountsUp (sendCells Z) k (numbersUnder k (gather (sealedNonces Z) h)) s := by
  refine hr.counts_up ?_ (fun p t ht => counted_sealed (hr.next_of_mem ht) p)
    (fun t ht => usesCells (hr.next_of_mem ht)) ?_ k
  · intro p
    cases p <;> rfl
  · intro t ht
    obtain ⟨i, hi⟩ := List.mem_iff_getElem?.mp ht
    exact separateKeys X (hr.take_succ hi) (hfresh.take _)

/-- The nonces of the stream sessions. No two messages of a run are encrypted with
the same key and number, whatever the network delivers and however the connections
interleave; and a party that has a session has encrypted with the numbers from zero
up to its count, one after the other, and nobody else has used its key. -/
theorem stream_nonces_consecutive (X : K.Xk Z) (hr : TcpRun (.init cfg sources) h s)
    (hfresh : FreshEphemerals h) :
    (gather (sealedNonces Z) h).Nodup ∧
      ∀ p ep, s.endOf p = some ep → Z.sent ep.session = (gather (sealedIn p) h).length ∧
        numbersUnder (Z.sendKey ep.session) (gather (sealedNonces Z) h) =
          List.range (Z.sent ep.session) := by
  constructor
  · refine nodup_of_numbersUnder fun k => ?_
    rw [(sealed_countsUp X hr hfresh k).range]
    exact List.nodup_range
  · intro p ep hep
    have hcell : sendCells Z p s = some (Z.sendKey ep.session, Z.sent ep.session) := by
      rw [sendCells, hep]
      rfl
    have hzero : sendCells Z p (TcpState.init cfg sources) = none := by
      cases p <;> rfl
    have hcounts := sealed_countsUp X hr hfresh (Z.sendKey ep.session)
    refine ⟨?_, ?_⟩
    · exact (hr.count_eq hzero fun t ht => counted_sealed (hr.next_of_mem ht) p).2 _ _ hcell
    · rw [hcounts.count p _ hcell]
      exact hcounts.range

/-- What a party has decrypted is the beginning of what one other party has
encrypted, the one that encrypts under the key with which it decrypts. -/
theorem opened_isPrefix (X : K.Xk Z) (hr : TcpRun (.init cfg sources) h s)
    (hfresh : FreshEphemerals h) (hgen : Genuine Z h) (p : Party ι) :
    gather (openedIn p) h = [] ∨ ∃ q ep ep', s.endOf q = some ep ∧ s.endOf p = some ep' ∧
      Z.sendKey ep.session = Z.recvKey ep'.session ∧
      gather (openedIn p) h <+: gather (sealedIn q) h := by
  have h0 (a : Party ι) : sendCells Z a (TcpState.init cfg sources) = none ∧
      recvCells Z a (TcpState.init cfg sources) = none := by
    cases a <;> exact ⟨rfl, rfl⟩
  rcases hr.in_order h0 (fun a t ht => counted_sealed (hr.next_of_mem ht) a)
    (fun a t ht => counted_opened (hr.next_of_mem ht) a) (matched hgen)
    (separateKeys X hr hfresh) p with
    hnil | ⟨q, k, m, n, hq, hp, hpre⟩
  · exact Or.inl hnil
  · obtain ⟨ep, hep, hk⟩ := Option.map_eq_some_iff.mp hq
    obtain ⟨ep', hep', hk'⟩ := Option.map_eq_some_iff.mp hp
    refine Or.inr ⟨q, ep, ep', hep, hep', ?_, hpre⟩
    exact (congrArg Prod.fst hk).trans (congrArg Prod.fst hk').symm

theorem recvKey_eq (ses : K.Session) : Z.recvKey ses = ((Z.sendKey ses).1, !(Z.sendKey ses).2) :=
  rfl

theorem peers (X : K.Xk Z) (hr : TcpRun (.init cfg sources) h s) {p q : Party ι}
    {ep ep' : StreamEnd K} (hq : s.endOf q = some ep) (hp : s.endOf p = some ep')
    (hk : Z.sendKey ep.session = Z.recvKey ep'.session) :
    Z.sendKey ep'.session = Z.recvKey ep.session ∧
      ((∃ c m, q = .client c ∧ p = .conn m) ∨ ∃ c m, q = .conn m ∧ p = .client c) := by
  have hback : Z.sendKey ep'.session = Z.recvKey ep.session := by
    rw [recvKey_eq, hk, recvKey_eq, Bool.not_not]
  refine ⟨hback, ?_⟩
  obtain ⟨i, t, ses, ht, hm, hs⟩ := session_made (Z := Z) hr hq
  obtain ⟨j, u, ses', hu, hm', hs'⟩ := session_made (Z := Z) hr hp
  have hside : Z.initiator ses = !Z.initiator ses' := by
    rw [← hs, recvKey_eq, ← hs'] at hk
    exact congrArg Prod.snd hk
  cases hm with
  | client he hd hses =>
    cases hm' with
    | client he' hd' hses' =>
      rw [X.initiator hd hses, X.initiator hd' hses'] at hside
      cases hside
    | conn he' hd' hses' => exact Or.inl ⟨_, _, rfl, rfl⟩
  | conn he hd hses =>
    cases hm' with
    | client he' hd' hses' => exact Or.inr ⟨_, _, rfl, rfl⟩
    | conn he' hd' hses' =>
      rw [X.responder hd hses, X.responder hd' hses'] at hside
      cases hside

theorem admitted (hr : TcpRun (.init cfg sources) h s) {m : Nat} {key : Key} {ep : StreamEnd K}
    {conn : ConnState K.core} (hm : s.conns[m]? = some (.running key ep conn)) :
    cfg.server.gate key = .ok () ∧ ∃ e hs ses, K.ResponderDone cfg.server.serverPrivate e hs ∧
      K.intoSession hs = .ok ses ∧ K.remoteStatic hs = some key ∧
      Z.sendKey ses = Z.sendKey ep.session := by
  refine hr.invariant (I := fun s => ∀ (m : Nat) key ep conn,
    s.conns[m]? = some (Handler.running key ep conn) → cfg.server.gate key = .ok () ∧
      ∃ e hs ses, K.ResponderDone cfg.server.serverPrivate e hs ∧ K.intoSession hs = .ok ses ∧
        K.remoteStatic hs = some key ∧ Z.sendKey ses = Z.sendKey ep.session)
    (by intro m key ep conn hm; simp [TcpState.init] at hm) ?_ m key ep conn hm
  intro s e s' o ih hn m key ep conn hm
  cases tcpNext_case hn with
  | accept hl =>
    rcases List.mem_append.mp (List.mem_of_getElem? hm) with hmem | hmem
    · obtain ⟨n, hn⟩ := List.mem_iff_getElem?.mp hmem
      exact ih n key ep conn hn
    · cases List.mem_singleton.mp hmem
  | @handshake n e rng socket hd hm' hs =>
    rcases List.mem_or_eq_of_mem_set (List.mem_of_getElem? hm) with hmem | rfl
    · obtain ⟨n, hn⟩ := List.mem_iff_getElem?.mp hmem
      exact ih n key ep conn hn
    · obtain ⟨hg, -, hs, hd, hses, hk⟩ := handshakeNext_running hs
      exact ⟨hg, _, hs, ep.session, hd, hses, hk, rfl⟩
  | @stream n e key' ep₁ ep₂ conn₁ conn₂ o hm' hs =>
    rcases List.mem_or_eq_of_mem_set (List.mem_of_getElem? hm) with hmem | heq
    · obtain ⟨n, hn⟩ := List.mem_iff_getElem?.mp hmem
      exact ih n key ep conn hn
    · cases heq
      obtain ⟨hg, e₀, hs₀, ses, hd, hses, hk, hsend⟩ := ih n key ep₁ conn₁ hm'
      refine ⟨hg, e₀, hs₀, ses, hd, hses, hk, hsend.trans ?_⟩
      rw [(streamNext_case hs).runOps_eq.1]
      exact (congrArg Prod.fst (Z.runOps_cells ep₁ _).1).symm
  | emit | close =>
    obtain ⟨hd, hmem, heq⟩ := List.mem_map.mp (List.mem_of_getElem? hm)
    obtain ⟨n, hn⟩ := List.mem_iff_getElem?.mp hmem
    cases hd with
    | handshaking => cases heq
    | returned => cases heq
    | running key' ep' conn' =>
      cases heq
      exact ih n key ep conn' hn
  | _ => exact ih m key ep conn hm

theorem key_of_peer (X : K.Xk Z) (hr : TcpRun (.init cfg sources) h s) {c : ι} {m : Nat}
    {ep ep' : StreamEnd K} {key : Key} {conn : ConnState K.core}
    (hc : s.endOf (.client c) = some ep) (hm : s.conns[m]? = some (.running key ep' conn))
    (hk : Z.sendKey ep.session = Z.recvKey ep'.session) :
    key = X.pubKey (cfg.client c).localPrivate := by
  obtain ⟨-, e', hs', ses', hd', hses', hkey, hs₂⟩ := admitted (Z := Z) hr hm
  obtain ⟨i, t, ses, ht, hmade, hs₁⟩ := session_made (Z := Z) hr hc
  cases hmade with
  | client he hd hses =>
    have hsecret : Z.secret ses = Z.secret ses' := by
      rw [← hs₁, recvKey_eq, ← hs₂] at hk
      exact congrArg Prod.fst hk
    exact Option.some.inj (hkey.symm.trans (X.remote hd hd' hses hses' hsecret))

variable (Z) in
/-- A client and a connection that read each other's stream. -/
structure Conversing (h : List (TcpStep cfg)) (s : TcpState cfg) (c : ι) (m : Nat) : Prop where
  keys : ∃ ep ep', s.endOf (.client c) = some ep ∧ s.endOf (.conn m) = some ep' ∧
    Z.sendKey ep.session = Z.recvKey ep'.session
  toServer : gather (openedIn (.conn m)) h <+: gather (sealedIn (.client c)) h
  toClient : gather (openedIn (.client c)) h <+: gather (sealedIn (.conn m)) h

theorem conversing (X : K.Xk Z) (hr : TcpRun (.init cfg sources) h s) (hfresh : FreshEphemerals h)
    (hgen : Genuine Z h) {p : Party ι} (hne : gather (openedIn p) h ≠ []) :
    ∃ c m, (p = .client c ∨ p = .conn m) ∧ Conversing Z h s c m := by
  rcases opened_isPrefix X hr hfresh hgen p with hnil | ⟨q, ep, ep', hq, hp, hk, hpre⟩
  · exact absurd hnil hne
  obtain ⟨hback, hsides⟩ := peers X hr hq hp hk
  -- the peer reads nothing, or this party, which alone has the key
  have hother : gather (openedIn q) h <+: gather (sealedIn p) h := by
    rcases opened_isPrefix X hr hfresh hgen q with hnil | ⟨p', ep₁, ep₂, hp', hq', hk', hpre'⟩
    · rw [hnil]
      exact List.nil_prefix
    · cases hq'.symm.trans hq
      have hcell : sendCells Z p' s = some (Z.sendKey ep'.session, Z.sent ep₁.session) := by
        rw [sendCells, hp', hback, ← hk']
        rfl
      have hcell' : sendCells Z p s = some (Z.sendKey ep'.session, Z.sent ep'.session) := by
        rw [sendCells, hp]
        rfl
      cases separateKeys X hr hfresh p' p _ _ _ hcell hcell'
      exact hpre'
  rcases hsides with ⟨c, m, rfl, rfl⟩ | ⟨c, m, rfl, rfl⟩
  · exact ⟨c, m, Or.inr rfl, ⟨ep, ep', hq, hp, hk⟩, hpre, hother⟩
  · exact ⟨c, m, Or.inl rfl, ⟨ep', ep, hp, hq, hback⟩, hother, hpre⟩

theorem Conversing.unique (X : K.Xk Z) (hr : TcpRun (.init cfg sources) h s)
    (hfresh : FreshEphemerals h) {c d : ι} {m n : Nat} (hc : Conversing Z h s c m)
    (hd : Conversing Z h s d n) : c = d ↔ m = n := by
  obtain ⟨ep, ep', hep, hep', hk⟩ := hc.keys
  obtain ⟨eq, eq', heq, heq', hk'⟩ := hd.keys
  have hcell {p : Party ι} {x : StreamEnd K} (hx : s.endOf p = some x) :
      sendCells Z p s = some (Z.sendKey x.session, Z.sent x.session) := by
    rw [sendCells, hx]
    rfl
  constructor
  · rintro rfl
    cases hep.symm.trans heq
    have hsend : Z.sendKey ep'.session = Z.sendKey eq'.session := by
      rw [(peers X hr hep hep' hk).1, (peers X hr heq heq' hk').1]
    have hm := hcell hep'
    rw [hsend] at hm
    exact Party.conn.inj (separateKeys X hr hfresh _ _ _ _ _ hm (hcell heq'))
  · rintro rfl
    cases hep'.symm.trans heq'
    have hm := hcell hep
    rw [hk, ← hk'] at hm
    exact Party.client.inj (separateKeys X hr hfresh _ _ _ _ _ hm (hcell heq))

theorem Conversing.admitted (X : K.Xk Z) (hr : TcpRun (.init cfg sources) h s) {c : ι} {m : Nat}
    (hc : Conversing Z h s c m) :
    ∃ ep conn, s.conns[m]? = some (.running (X.pubKey (cfg.client c).localPrivate) ep conn) ∧
      cfg.server.gate (X.pubKey (cfg.client c).localPrivate) = .ok () := by
  obtain ⟨ep, ep', hep, hep', hk⟩ := hc.keys
  obtain ⟨hd, hm, hstream⟩ := Option.bind_eq_some_iff.mp hep'
  cases hd with
  | handshaking => cases hstream
  | returned => cases hstream
  | running key ep₁ conn =>
    cases hstream
    cases key_of_peer X hr hep hm hk
    exact ⟨ep', conn, hm, (Tcp.admitted (Z := Z) hr hm).1⟩

def Peers (Z : K.Cipher) (h : List (TcpStep cfg)) (s : TcpState cfg) (p q : Party ι) : Prop :=
  ∃ c m, Conversing Z h s c m ∧
    ((p = .client c ∧ q = .conn m) ∨ (p = .conn m ∧ q = .client c))

theorem Peers.unique (X : K.Xk Z) (hr : TcpRun (.init cfg sources) h s)
    (hfresh : FreshEphemerals h) {p q q' : Party ι} (hq : Peers Z h s p q)
    (hq' : Peers Z h s p q') : q = q' := by
  obtain ⟨c, m, hc, ⟨rfl, rfl⟩ | ⟨rfl, rfl⟩⟩ := hq
  · obtain ⟨d, n, hd, ⟨hp, rfl⟩ | ⟨hp, -⟩⟩ := hq'
    · rw [(hc.unique X hr hfresh hd).mp (Party.client.inj hp)]
    · cases hp
  · obtain ⟨d, n, hd, ⟨hp, -⟩ | ⟨hp, rfl⟩⟩ := hq'
    · cases hp
    · rw [(hc.unique X hr hfresh hd).mpr (Party.conn.inj hp)]

/-- The streams of a run, between clients and connections. The parties that have
decrypted anything fall into pairs of a client and a connection whose gate has
accepted the client's key, and each has decrypted a beginning of what the other
has encrypted: in order, without a gap, a repetition or an invention. -/
theorem streams_in_order (X : K.Xk Z) (hr : TcpRun (.init cfg sources) h s)
    (hfresh : FreshEphemerals h) (hgen : Genuine Z h) :
    ∃ peer : Party ι → Option (Party ι),
      (∀ p, gather (openedIn p) h ≠ [] → ∃ q, peer p = some q) ∧
      (∀ p q, peer p = some q → peer q = some p ∧
        gather (openedIn p) h <+: gather (sealedIn q) h) ∧
      (∀ m q, peer (.conn m) = some q → ∃ c, q = .client c) ∧
      ∀ c q, peer (.client c) = some q → ∃ m ep conn, q = .conn m ∧
        s.conns[m]? = some (.running (X.pubKey (cfg.client c).localPrivate) ep conn) ∧
        cfg.server.gate (X.pubKey (cfg.client c).localPrivate) = .ok () := by
  classical
  let peer (p : Party ι) : Option (Party ι) :=
    if hp : ∃ q, Peers Z h s p q then some hp.choose else none
  have hpeer {p q : Party ι} : peer p = some q ↔ Peers Z h s p q := by
    constructor
    · intro he
      by_cases hp : ∃ q, Peers Z h s p q
      · rw [show peer p = some hp.choose from dif_pos hp] at he
        cases he
        exact hp.choose_spec
      · rw [show peer p = none from dif_neg hp] at he
        cases he
    · intro hq
      have hp : ∃ q, Peers Z h s p q := ⟨q, hq⟩
      rw [show peer p = some hp.choose from dif_pos hp]
      exact congrArg some (hp.choose_spec.unique X hr hfresh hq)
  refine ⟨peer, ?_, ?_, ?_, ?_⟩
  · intro p hne
    obtain ⟨c, m, rfl | rfl, hc⟩ := conversing X hr hfresh hgen hne
    · exact ⟨.conn m, hpeer.mpr ⟨c, m, hc, Or.inl ⟨rfl, rfl⟩⟩⟩
    · exact ⟨.client c, hpeer.mpr ⟨c, m, hc, Or.inr ⟨rfl, rfl⟩⟩⟩
  · intro p q hq
    obtain ⟨c, m, hc, ⟨rfl, rfl⟩ | ⟨rfl, rfl⟩⟩ := hpeer.mp hq
    · exact ⟨hpeer.mpr ⟨c, m, hc, Or.inr ⟨rfl, rfl⟩⟩, hc.toClient⟩
    · exact ⟨hpeer.mpr ⟨c, m, hc, Or.inl ⟨rfl, rfl⟩⟩, hc.toServer⟩
  · intro m q hq
    obtain ⟨c, -, -, ⟨hp, -⟩ | ⟨-, rfl⟩⟩ := hpeer.mp hq
    · cases hp
    · exact ⟨c, rfl⟩
  · intro c q hq
    obtain ⟨d, m, hc, ⟨hp, rfl⟩ | ⟨hp, -⟩⟩ := hpeer.mp hq
    · cases hp
      obtain ⟨ep, conn, hm, hg⟩ := hc.admitted X hr
      exact ⟨m, ep, conn, rfl, hm, hg⟩
    · cases hp

end Obfs.Tcp

namespace Obfs.Symbolic
open Tcp Client TcpStream Trace Framing

def staticOf (c : Bool) : Key := keyOf (if c then 0x33 else 0x22)

def keyedCfg : TcpCfg keyedCrates Bool where
  server := ⟨serverKey, service, keyAllowList [staticOf false, staticOf true]⟩
  client := fun c => ⟨staticOf c, serverKey, some 7⟩
  requestId := idText
  responseId := fun resp => idText (resp - 1)

def keyedStart : TcpState keyedCfg := .init keyedCfg fun _ => ⟨16, [], false⟩

def arrived (bytes : Bytes) : List StreamRead :=
  if h : 0 < bytes.length ∧ bytes.length ≤ 4096 then [.got ⟨bytes, h.1, h.2⟩] else []

def lastMsg (e e' : UInt8) (c : Bool) : Bytes := 3 :: msg2 e e' ++ (staticOf c).val

def atConn (e e' : UInt8) (c : Bool) : HandlerEvent keyedCrates :=
  .handshake e' () (.open
    (arrived ([0xA0, 0xA1, 0xA2] ++ framed (msg1 e) ++ framed (lastMsg e e' c))) [])

def connects (e e' : UInt8) (c : Bool) : TcpEvent keyedCfg :=
  .connect c e (fun _ => ()) (.open (arrived (framed (msg2 e e'))) [])

def keyedFrame (secret : Bytes) (initiator : Bool) (n : UInt8) (plaintext : Bytes) : Bytes :=
  framed (secret ++ side initiator :: n :: plaintext)

def asks (c : Bool) (k : Nat) (req : UInt8) : List (TcpEvent keyedCfg) :=
  [.transport c (.request req), .transport c (.call k .insert), .transport c (.call k .send),
    .transport c (.pump (.turn false none ((), .ok ())))]

def getsAnswer (c : Bool) (k : Nat) (bytes : Bytes) : List (TcpEvent keyedCfg) :=
  [.transport c (.pump (.turn false (some (arrived bytes)) ((), .ok ()))),
    .transport c (.pump .deliver), .transport c (.call k .wake)]

/- The frames of one client arrive in pieces, those of the other in one read. -/
def twoStreams : List (TcpEvent keyedCfg) :=
  let a := lastMsg 5 6 false
  let b := lastMsg 7 8 true
  [.accept, .accept, connects 5 6 false, connects 7 8 true, .conn 0 (atConn 7 8 true),
    .conn 1 (atConn 5 6 false)] ++ asks false 0 3 ++ asks true 0 9 ++ asks false 1 4 ++
  [.conn 0 (.frame (arrived ((keyedFrame b true 0 [1, 9]).take 7)) ((), .ok ())),
    .conn 1 (.frame (arrived (keyedFrame a true 0 [1, 3] ++ keyedFrame a true 1 [1, 4]))
      ((), .ok ())),
    .conn 0 (.frame (arrived ((keyedFrame b true 0 [1, 9]).drop 7)) ((), .ok ())),
    .conn 1 (.respond ((), .ok ())), .conn 1 (.frame [] ((), .ok ())),
    .conn 0 (.respond ((), .ok ())), .conn 1 (.respond ((), .ok ()))] ++
  getsAnswer false 0 (keyedFrame a false 0 [2, 4]) ++
  getsAnswer true 0 (keyedFrame b false 0 [2, 10]) ++
  getsAnswer false 1 (keyedFrame a false 1 [2, 5])

theorem twoStreams_run : ∃ h s, TcpRun keyedStart h s ∧ h.map Step.event = twoStreams ∧
    FreshEphemerals h ∧ Genuine keyedCipher h ∧
    gather (openedIn (.client false)) h = [[2, 4], [2, 5]] ∧
    gather (openedIn (.client true)) h = [[2, 10]] :=
  Run.of_exec (fun h _ => FreshEphemerals h ∧ Genuine keyedCipher h ∧
    gather (openedIn (.client false)) h = [[2, 4], [2, 5]] ∧
    gather (openedIn (.client true)) h = [[2, 10]]) (by decide +kernel)

theorem streams_in_order_two : ∃ h s, TcpRun keyedStart h s ∧
    gather (openedIn (.client false)) h = [[2, 4], [2, 5]] ∧
    gather (openedIn (.client true)) h = [[2, 10]] ∧
    ∀ c, ∃ m ep conn, s.conns[m]? = some (.running (staticOf c) ep conn) ∧
      gather (openedIn (.client c)) h <+: gather (sealedIn (.conn m)) h := by
  obtain ⟨h, s, hr, -, hfresh, hgen, hf, ht⟩ := twoStreams_run
  obtain ⟨peer, hopened, hpeer, -, hconn⟩ := streams_in_order xk hr hfresh hgen
  refine ⟨h, s, hr, hf, ht, ?_⟩
  intro c
  have hne : gather (openedIn (.client c)) h ≠ [] := by
    cases c
    · rw [hf]
      nofun
    · rw [ht]
      nofun
  obtain ⟨q, hq⟩ := hopened (.client c) hne
  obtain ⟨m, ep, conn, rfl, hm, -⟩ := hconn c q hq
  exact ⟨m, ep, conn, hm, (hpeer _ _ hq).2⟩

/-- Four parties encrypt, and their numbers repeat, but not under one key. -/
theorem stream_nonces_consecutive_two : ∃ h s, TcpRun keyedStart h s ∧
    (gather (sealedNonces keyedCipher) h).map Prod.snd = [0, 0, 1, 0, 0, 1] ∧
    (gather (sealedNonces keyedCipher) h).Nodup ∧ ∀ c ep, s.endOf (.client c) = some ep →
      keyedCipher.sent ep.session = (gather (sealedIn (.client c)) h).length := by
  have hx : ∃ h s, TcpRun keyedStart h s ∧ h.map Step.event = twoStreams ∧ FreshEphemerals h ∧
      (gather (sealedNonces keyedCipher) h).map Prod.snd = [0, 0, 1, 0, 0, 1] :=
    Run.of_exec (fun h _ => FreshEphemerals h ∧
      (gather (sealedNonces keyedCipher) h).map Prod.snd = [0, 0, 1, 0, 0, 1]) (by decide +kernel)
  obtain ⟨h, s, hr, -, hfresh, hnum⟩ := hx
  obtain ⟨hnodup, hsent⟩ := stream_nonces_consecutive xk hr hfresh
  exact ⟨h, s, hr, hnum, hnodup, fun c ep hep => (hsent (.client c) ep hep).1⟩

end Obfs.Symbolic

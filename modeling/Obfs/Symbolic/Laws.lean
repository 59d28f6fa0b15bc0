import Obfs.Symbolic.Codec
import Obfs.Udp.Honest

/-! The symbolic dependencies have the properties that are assumed of the real
ones. At the end stand a client of the symbolic server, the datagrams between
the two, and a run in which they do all that the protocol has: handshake,
request, response, and a replayed request. -/
namespace Obfs.Symbolic
open Udp Trace

theorem initiated_transcript {priv serverPub : Key} {hs : Hs}
    (h : crates.Initiated priv serverPub hs) :
    hs.initiator = true ∧ hs.static = priv ∧ ∃ m1 m2, hs.transcript = [m1, m2] ∧
      m1.length = 34 ∧ m2.length = 36 ∧ m2.take 35 = 2 :: m1 := by
  obtain ⟨e, hs0, hs1, msg1, msg2, p, hi, hw, hr⟩ := h
  cases hi
  cases hw
  have hlen : List.length (1 :: serverPub.val ++ [e]) = 34 := by simp [serverPub.property]
  simp only [readMessage] at hr
  split at hr
  · rename_i hm
    cases hr
    obtain ⟨hm1, hm2⟩ := hm
    rw [hlen] at hm1 hm2
    exact ⟨rfl, rfl, _, msg2, rfl, hlen, hm1, hm2⟩
  · cases hr

theorem responded_transcript {priv : Key} {e : UInt8} {r : Hs} (h : crates.Responded priv e r) :
    r.initiator = false ∧ ∃ m1, r.transcript = [m1, 2 :: m1 ++ [e]] ∧ m1.length = 34 := by
  obtain ⟨hs0, hs1, msg1, msg2, p, hi, hr, hw⟩ := h
  cases hi
  simp only [readMessage] at hr
  split at hr
  · rename_i hm
    cases hr
    cases hw
    exact ⟨rfl, msg1, rfl, hm.1⟩
  · cases hr

theorem writeMsg3 {hs hs' : Hs} {m1 m2 payload msg3 : Bytes} (hi : hs.initiator = true)
    (ht : hs.transcript = [m1, m2]) (hw : writeMessage hs payload = (.ok msg3, hs')) :
    msg3 = 3 :: m2 ++ hs.static.val ++ payload := by
  simp only [writeMessage, hi, ht] at hw
  cases hw
  rfl

/-- Read from the responder's side: the msg3 of another transcript does not
begin with its msg2. -/
theorem readMsg3 {r : Hs} {m1 m2 m3 : Bytes} (hi : r.initiator = false)
    (ht : r.transcript = [m1, m2]) {p : Bytes} {r' : Hs}
    (hr : readMessage r m3 = (.ok p, r')) : m3.take (m2.length + 1) = 3 :: m2 := by
  simp only [readMessage, hi, ht] at hr
  split at hr
  · rename_i hm
    exact hm.2
  · cases hr

def noise : crates.Noise where
  transcript := Hs.transcript
  pubKey := id
  accept := by
    intro priv serverPub serverPriv e hs hs' r payload msg3 hinit hresp hw ht
    obtain ⟨hi, hpriv, m1, m2, htr, -, -, -⟩ := initiated_transcript hinit
    obtain ⟨hi', -⟩ := responded_transcript hresp
    have hmsg := writeMsg3 hi htr hw
    have htr' : r.transcript = [m1, m2] := ht.symm.trans htr
    have hread := readMessage_answer hi' htr' hs.static payload
    rw [← hmsg, hpriv] at hread
    exact ⟨_, hread, rfl⟩
  reject := by
    intro priv serverPub serverPriv e hs hs' r payload msg3 hinit hresp hw hne p r' hr
    obtain ⟨hi, -, m1, m2, htr, hm1, hm2, htake⟩ := initiated_transcript hinit
    obtain ⟨hi', m1', htr', hm1'⟩ := responded_transcript hresp
    have hmsg := writeMsg3 hi htr hw
    have hpre := readMsg3 hi' htr' hr
    have hm2' : m2 = 2 :: m1' ++ [e] := by
      have hlen : (2 :: m1' ++ [e]).length = m2.length := by simp [hm1', hm2]
      rw [hlen, hmsg] at hpre
      simpa using hpre
    have hm1'' : m1 = m1' := by
      rw [hm2'] at htake
      simpa [hm1'] using htake.symm
    exact hne (by rw [htr, htr', hm2', hm1''])
  fresh := by
    intro serverPriv e e' r r' hresp hresp' ht
    obtain ⟨-, m1, htr, -⟩ := responded_transcript hresp
    obtain ⟨-, m1', htr', -⟩ := responded_transcript hresp'
    rw [htr, htr'] at ht
    simp only [List.cons.injEq, and_true] at ht
    obtain ⟨rfl, h2⟩ := ht
    simpa using h2

def sealing : crates.Sealing where
  key := Sealer.key
  counter := Sealer.counter
  key_new := fun _ => rfl
  key_seal := by
    intro σ pt aad
    simp only [sealRecord]
    split <;> rfl
  counter_ok := by
    intro σ pt aad record h
    simp only [sealRecord] at h ⊢
    split at h
    · rename_i hc
      rw [if_pos hc]
    · cases h
  counter_error := by
    intro σ pt aad e h
    simp only [sealRecord] at h ⊢
    split at h
    · cases h
    · rename_i hc
      rw [if_neg hc]

def opening : crates.Opening where
  key := Opener.key
  seen := fun o record => (record.drop 32).take 8 ∈ o.seen
  key_new := fun _ => rfl
  key_open := by
    intro o record aad
    simp only [openRecord]
    split <;> rfl
  unseen := by
    intro o record aad pt h
    simp only [openRecord] at h
    split at h
    · rename_i hc
      exact hc.2.2
    · cases h
  mark := by
    intro o record aad pt h
    simp only [openRecord] at h ⊢
    split at h
    · rename_i hc
      rw [if_pos hc]
      exact List.mem_cons_self
    · cases h
  keep := by
    intro o r record aad h
    simp only [openRecord]
    split
    · exact List.mem_cons_of_mem _ h
    · exact h

def clientKey : Key := keyOf 0x22

def clientCfg : ClientCfg := ⟨addr 0, serverKey, ⟨clientKey, clientKey⟩⟩

def systemCfg : SystemCfg crates Unit := ⟨cfg, fun _ => clientCfg⟩

def systemStart : SystemState crates Unit :=
  .init ⟨keyOf 0, none⟩ fun _ => ⟨16, [], false⟩

/- The client draws seed 1 and ephemeral 5. -/
def wake (ms : Nat) : Wake crates := ⟨fromMillis ms, keyOf 1, 5, (), .ok ()⟩

def hs2 (e e' : UInt8) : Bytes := shapeHs crates .hs2 (msg2 e e') ()

def toServer (dgram : Bytes) (ms : Nat) (e : UInt8) : SystemEvent crates Unit :=
  .server (recv dgram (addr 1) (fromMillis ms) e)

def toClient (dgram : Bytes) (ms : Nat) : SystemEvent crates Unit :=
  .client () (.datagram dgram (addr 0) (wake ms))

def s2cKey : Key := deriveKey (keyOf 1) s2cLabel

def session : List (SystemEvent crates Unit) :=
  [.client () (.call (wake 0)), toServer (hs1 5 none) 200 6, toClient (hs2 5 6) 400,
    toServer (hs3 5 6 clientKey (keyOf 1)) 600 0, toClient (data s2cKey 0 .pong) 800,
    .client () (.sealEnvelope (.request (3 : UInt8)) ()),
    toServer (data (keyOf 1) 0 (.request (3 : UInt8))) 1000 0,
    .server (.respond (fromMillis 1001) ()),
    toServer (data (keyOf 1) 0 (.request (3 : UInt8))) 1100 0,
    .client () (.openDatagram (data s2cKey 1 (.response (4 : UInt8))))]

/- The client's Hs1 is slow: it sends it again before the answer arrives, and
   the copy reaches the server between its answer and the client's Hs3. -/
def retransmitted : List (SystemEvent crates Unit) :=
  [.client () (.call (wake 0)), toServer (hs1 5 none) 200 6, .client () (.timer (wake 250)),
    toClient (hs2 5 6) 400, toServer (hs1 5 none) 450 7,
    toServer (hs3 5 6 clientKey (keyOf 1)) 600 0]

def sent (t : SystemStep crates Unit) : List (SocketAddr × Bytes) :=
  t.out.filterMap fun
    | .client _ (.sendTo wire) => some (addr 0, wire)
    | .client _ (.sealed _ _ wire) => some (addr 0, wire)
    | .server (.sendTo dst wire) => some (dst, wire)
    | .server (.sealed _ dst _ _ wire) => some (dst, wire)
    | _ => none

def received (t : SystemStep crates Unit) : List (SocketAddr × Bytes) :=
  match t.event with
  | .server (.recv inp) => [(addr 0, inp.dgram)]
  | .client _ (.datagram dgram _ _) => [(addr 1, dgram)]
  | .client _ (.openDatagram dgram) => [(addr 1, dgram)]
  | _ => []

def calls (t : SystemStep crates Unit) : List (Nat × UInt8) :=
  t.out.filterMap fun
    | .server (.handle n req) => some (n, req)
    | _ => none

def installs (t : SystemStep crates Unit) : List (SocketAddr × Nat) :=
  t.out.filterMap fun
    | .server (.install src n _) => some (src, n)
    | _ => none

def returns (t : SystemStep crates Unit) : List Key :=
  t.out.filterMap fun
    | .client _ (.returned seed _) => some seed
    | _ => none

/-- The session satisfies all that is assumed of a run. The peer is installed in
step 3, the client returns in step 4, and only step 6 calls the handler. -/
theorem session_run : ∃ h s, SystemRun systemCfg systemStart h s ∧
    h.map Step.event = session ∧ Honest h ∧ GenuineMsg2 noise h ∧
    GenuineRecords sealing opening h ∧
    h.map installs = [[], [], [], [(addr 1, 0)], [], [], [], [], [], []] ∧
    h.map returns = [[], [], [], [], [keyOf 1], [], [], [], [], []] ∧
    h.map calls = [[], [], [], [], [], [], [(0, 3)], [], [], []] :=
  Run.of_exec (fun h _ => Honest h ∧ GenuineMsg2 noise h ∧ GenuineRecords sealing opening h ∧
    h.map installs = [[], [], [], [(addr 1, 0)], [], [], [], [], [], []] ∧
    h.map returns = [[], [], [], [], [keyOf 1], [], [], [], [], []] ∧
    h.map calls = [[], [], [], [], [], [], [(0, 3)], [], [], []]) (by decide +kernel)

theorem session_src {h : List (SystemStep crates Unit)} (hev : h.map Step.event = session)
    {j : Nat} {u : SystemStep crates Unit} {inp : Inbound crates} (hu : At h j u)
    (he : u.event = .server (.recv inp)) : inp.src = addr 1 := by
  have hm : u.event ∈ session := List.mem_of_getElem? (hu.event hev)
  rw [he] at hm
  simp only [session, toServer, toClient, recv, List.mem_cons, SystemEvent.server.injEq,
    ServerEvent.recv.injEq, reduceCtorEq, List.not_mem_nil, or_false, false_or] at hm
  rcases hm with rfl | rfl | rfl | rfl <;> rfl

end Obfs.Symbolic

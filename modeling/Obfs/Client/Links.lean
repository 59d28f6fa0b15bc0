import Obfs.Client.Pending
import Obfs.Symbolic
import Obfs.Tcp.Connection

/-! The two links. The stream client hands the results of send_frame and
recv_frame to its pump; the datagram client seals and opens in the pump, and
ignores what becomes of the datagrams it sends. -/
namespace Obfs.Client
open Async Trace Udp
variable (C : Core) (K : Crates)

def sendOk : Tcp.SendResult → Bool
  | .ok => true
  | _ => false

/-- The link of ObfsTransport: the stream and session of pump. -/
def tcpLink : Link C where
  State := Unit
  In := Except (ObfsError C) (Envelope C)
  Out := Tcp.SendResult
  recv _ result :=
    match result with
    | .error _ => (.failed, ())
    | .ok env => (.envelope env, ())
  send _ _ sent := (sendOk sent, ())
  sendStops := true
  maxRetries := none

def maxRequestRetries : Nat := 10

def sealAndSend (ch : DataChannel K) (env : Envelope K.core) (out : K.Rng × Except IoError Unit) :
    Bool × DataChannel K :=
  match ch.sealEnvelope env out.1 with
  | (.error _, ch) => (false, ch)
  | (.ok _, ch) =>
    match out.2 with
    | .ok _ => (true, ch)
    | .error _ => (false, ch)

/-- The link of UdpObfsTransport: the socket and data channel of udp_pump. -/
def udpLink : Link K.core where
  State := DataChannel K
  In := Except IoError Bytes
  Out := K.Rng × Except IoError Unit
  recv ch result :=
    match result with
    | .error _ => (.failed, ch)
    | .ok datagram =>
      match ch.openDatagram datagram with
      | (.ok (some env), ch) => (.envelope env, ch)
      | (.ok none, ch) => (.nothing, ch)
      | (.error _, ch) => (.failed, ch)
  send := sealAndSend K
  sendStops := false
  maxRetries := some maxRequestRetries

variable {C K}

def obfsTransport (requestId : C.Request → String) (responseId : C.Response → String)
    (capability : Option C.Capability) : Params C :=
  ⟨tcpLink C, requestId, responseId, capability⟩

def udpObfsTransport (requestId : K.core.Request → String) (responseId : K.core.Response → String)
    (capability : Option K.core.Capability) : Params K.core :=
  ⟨udpLink K, requestId, responseId, capability⟩

theorem openDatagram_isOk (ch : DataChannel K) (datagram : Bytes) :
    ∃ r, (ch.openDatagram datagram).1 = .ok r := by
  unfold DataChannel.openDatagram
  cases K.shapeIn datagram with
  | none => exact ⟨none, rfl⟩
  | some inner =>
    dsimp only
    cases decodeInner inner with
    | none => exact ⟨none, rfl⟩
    | some d =>
      dsimp only
      split
      · exact ⟨none, rfl⟩
      · cases K.openRecord ch.opener d.2 [] with
        | mk res opener =>
          cases res with
          | error e => exact ⟨none, rfl⟩
          | ok plaintext =>
            dsimp only
            cases K.fromSlice plaintext with
            | ok env => exact ⟨some env, rfl⟩
            | error e => exact ⟨none, rfl⟩

theorem tcp_recv_failed {i : Except (ObfsError C) (Envelope C)} {link link' : Unit} :
    (tcpLink C).recv link i = (.failed, link') ↔ ∃ e, i = .error e := by
  cases i with
  | error e => exact ⟨fun _ => ⟨e, rfl⟩, fun _ => rfl⟩
  | ok env =>
    constructor
    · intro h
      cases h
    · intro h
      obtain ⟨e, he⟩ := h
      cases he

theorem udp_recv_failed {i : Except IoError Bytes} {ch : DataChannel K} :
    ((udpLink K).recv ch i).1 = .failed ↔ ∃ e, i = .error e := by
  cases i with
  | error e => exact ⟨fun _ => ⟨e, rfl⟩, fun _ => rfl⟩
  | ok datagram =>
    constructor
    · intro h
      obtain ⟨r, hr⟩ := openDatagram_isOk ch datagram
      unfold udpLink at h
      dsimp only at h
      cases ho : ch.openDatagram datagram with
      | mk res ch' =>
        rw [ho] at hr h
        dsimp only at hr
        rw [hr] at h
        cases r <;> cases h
    · intro h
      obtain ⟨e, he⟩ := h
      cases he

end Obfs.Client

namespace Obfs.Symbolic
open Client

def idText (b : UInt8) : String := decimal b.toNat

abbrev tcpClient : Params core := obfsTransport idText idText (some 7)
abbrev udpClient : Params core := udpObfsTransport (K := crates) idText idText (some 7)

def clientChannel : Udp.DataChannel crates := ⟨⟨keyOf 1, 0⟩, ⟨keyOf 2, []⟩⟩

end Obfs.Symbolic

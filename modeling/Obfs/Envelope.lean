import Obfs.Basic

/-! The multiplexing envelope and the types of vaiexia-core it carries. The
core crate is outside the repository: its types are the fields of `Core`. -/
namespace Obfs

inductive DiagCode where
  | forbidden | methodNotFound

structure Core where
  Topic : Type
  Capability : Type
  Diagnostic : Type
  Subject : Type
  Request : Type
  Response : Type
  Json : Type
  [decTopic : DecidableEq Topic]
  diagnosticError : DiagCode → String → Diagnostic

attribute [instance] Core.decTopic

structure Event (C : Core) where
  topic : C.Topic
  seq : UInt64
  payload : C.Json

inductive CoreError (C : Core) where
  | auth (d : C.Diagnostic)
  | disconnected
  | timeout
  | other (text : String)

inductive Envelope (C : Core) where
  | request (req : C.Request)
  | response (resp : C.Response)
  | event (ev : Event C)
  | subscribe (topic : C.Topic) (filter : Option C.Json) (capability : Option C.Capability)
  | unsubscribe (topic : C.Topic)
  | subscribeError (topic : C.Topic) (error : C.Diagnostic)
  | ping
  | pong

/- What both servers read and ignore. -/
def Envelope.inert {C : Core} : Envelope C → Bool
  | .request _ | .subscribe _ _ _ | .ping => false
  | _ => true

def Envelope.event? {C : Core} : Envelope C → Option (Event C)
  | .event ev => some ev
  | .request _ | .response _ | .subscribe _ _ _ | .unsubscribe _ | .subscribeError _ _ | .ping
  | .pong => none

/-- The service the server dispatches to. An event source is one broadcast
channel, named by its index; several topics may share one. -/
structure Service (C : Core) where
  handle : C.Request → C.Response
  verifyTopic : Option C.Capability → C.Topic → Except (CoreError C) C.Subject
  eventSource : C.Topic → Option Nat

def denyDiagnostic {C : Core} : CoreError C → C.Diagnostic
  | .auth d => d
  | _ => C.diagnosticError .forbidden "subscription denied"

/- Display text of the errors of the wire crate, serde_json and std::io. -/
structure WireError where
  text : String

structure SerdeError where
  text : String

inductive ErrorKind where
  | notFound | unexpectedEof | invalidData | other
  deriving DecidableEq

structure IoError where
  kind : ErrorKind := .other
  text : String

inductive ObfsError (C : Core) where
  | closed
  | frameTooLarge (size max : Nat)
  | wire (e : WireError)
  | io (e : IoError)
  | serde (e : SerdeError)
  | core (e : CoreError C)
  | handshakeFailed (text : String)
  | timeout

abbrev TransportGate := Key → Except String Unit

def allowAll : TransportGate := fun _ => .ok ()

def hexByte (b : UInt8) : String :=
  let text := lowerHex b.toNat
  if b.toNat < 16 then "0" ++ text else text

def hexKey (k : Key) : String := "".intercalate (k.val.map hexByte)

def keyAllowList (allowed : List Key) : TransportGate := fun remoteStatic =>
  if remoteStatic ∈ allowed then .ok ()
  else .error ("public key not in allow-list: " ++ hexKey remoteStatic)

theorem keyAllowList_ok {allowed : List Key} {key : Key} :
    keyAllowList allowed key = .ok () ↔ key ∈ allowed := by
  unfold keyAllowList
  split <;> simp_all

end Obfs

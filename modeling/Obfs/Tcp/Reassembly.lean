import Obfs.Symbolic.Stream

/-! The envelopes that a pump receives do not depend on how the stream is cut
into reads, nor on the recv_frame calls that it drops. -/
namespace Obfs.TcpStream
open Framing
variable {K : StreamCrates}

def OnBoundary {α : Type} (cut : Nat) (frames : List (α × Bytes)) : Prop :=
  ∃ k, (wires frames).take cut = wires (frames.take k)

theorem onBoundary_iff {α : Type} {cut : Nat} {frames : List (α × Bytes)} :
    OnBoundary cut frames ↔ remnant cut frames = [] := by
  induction frames generalizing cut with
  | nil => exact iff_of_true ⟨0, List.take_nil⟩ rfl
  | cons f frames ih =>
    by_cases hcut : f.2.length ≤ cut
    · rw [remnant, if_pos hcut, ← ih]
      unfold OnBoundary
      rw [take_wires_of_le frames hcut]
      constructor
      · rintro ⟨k, hk⟩
        cases k with
        | zero => exact ⟨0, (List.append_eq_nil_iff.mp hk).2⟩
        | succ k => exact ⟨k, List.append_cancel_left hk⟩
      · rintro ⟨k, hk⟩
        exact ⟨k + 1, congrArg (f.2 ++ ·) hk⟩
    · rw [remnant, if_neg hcut]
      unfold OnBoundary
      rw [take_wires_of_lt frames hcut]
      constructor
      · rintro ⟨k, hk⟩
        cases k with
        | zero => exact hk
        | succ k =>
          have := congrArg List.length hk
          simp only [List.take_succ_cons, wires_cons, List.length_append, List.length_take] at this
          omega
      · intro hnil
        exact ⟨0, hnil⟩

/-- However the frames of a writer are cut into reads, wherever the stream ends
and whichever calls are dropped, a pump in step with the writer receives just
the envelopes whose frames are complete, in order, and then the error that tells
whether the stream ended between two frames. -/
theorem recv_frame_reassembles (P : K.PrefixCorrect) (S : K.InStep) {a b : K.Session}
    (hab : S.Reads a b) {frames : List (Envelope K.core × Bytes)} (hw : Writes K a frames)
    (hj : K.Decodes (frames.map Prod.fst)) (cut : Nat) {reads : List StreamRead}
    (he : Ends reads) (hin : incoming reads = (wires frames).take cut)
    {turns : List (List (Outgoing K))}
    (hturns : drops reads + (complete cut frames).length < turns.length) :
    (OnBoundary cut frames ∧ recvFrames K b [] reads turns =
      (complete cut frames).map .ok ++ [.error .closed]) ∨
    (¬ OnBoundary cut frames ∧ recvFrames K b [] reads turns =
      (complete cut frames).map .ok ++ [.error (.io eofMidFrame)]) := by
  have hl : Left [] reads ((wires frames).take cut) (drops reads) := ⟨he, hin, rfl⟩
  have hrun := recvFrames_eq P S turns hab hw hj hl hturns
  by_cases hb : OnBoundary cut frames
  · refine Or.inl ⟨hb, ?_⟩
    rw [hrun, onBoundary_iff.mp hb]
    rfl
  · refine Or.inr ⟨hb, ?_⟩
    rw [hrun, endError, if_neg (fun hnil => hb (onBoundary_iff.mpr hnil))]

end Obfs.TcpStream

namespace Obfs.Symbolic
open Framing TcpStream

def pingFrame : Bytes := [0, 0, 0, 3, 1, 0, 7]
def requestFrame : Bytes := [0, 0, 0, 4, 1, 1, 1, 5]

def pingThenRequest : List (Envelope core × Bytes) :=
  [(.ping, pingFrame), (.request 5, requestFrame)]

theorem writes_pingThenRequest : Writes streamCrates ⟨true, 0, 0⟩ pingThenRequest := by
  have hping : sendFrame streamCrates ⟨true, 0, 0⟩ ⟨.ping, (), .ok ()⟩ =
      (.ok (), pingFrame, ⟨true, 1, 0⟩) := rfl
  have hrequest : sendFrame streamCrates ⟨true, 1, 0⟩ ⟨.request 5, (), .ok ()⟩ =
      (.ok (), requestFrame, ⟨true, 2, 0⟩) := rfl
  exact .frame hping (.frame hrequest .done)

theorem decodes_pingThenRequest : streamCrates.Decodes (pingThenRequest.map Prod.fst) :=
  decodes_cons rfl rfl (decodes_cons rfl rfl decodes_nil)

/- The stream ends in the length field of the second frame, and one call is
dropped in that of the first. -/
def cutReads : List StreamRead :=
  [.got ⟨[0, 0], by decide, by decide⟩, .dropped, .got ⟨[0, 3, 1, 0, 7, 0], by decide, by decide⟩,
    .got ⟨[0, 0], by decide, by decide⟩, .eof]

theorem recv_frame_reassembles_cut :
    (OnBoundary 10 pingThenRequest ∧
      recvFrames streamCrates ⟨false, 0, 0⟩ [] cutReads [[], [], []] =
        (complete 10 pingThenRequest).map .ok ++ [.error .closed]) ∨
    (¬ OnBoundary 10 pingThenRequest ∧
      recvFrames streamCrates ⟨false, 0, 0⟩ [] cutReads [[], [], []] =
        (complete 10 pingThenRequest).map .ok ++ [.error (.io eofMidFrame)]) :=
  recv_frame_reassembles prefixCorrect inStep (a := ⟨true, 0, 0⟩) (b := ⟨false, 0, 0⟩)
    ⟨rfl, rfl⟩ writes_pingThenRequest decodes_pingThenRequest 10 (by decide) rfl (by decide)

end Obfs.Symbolic

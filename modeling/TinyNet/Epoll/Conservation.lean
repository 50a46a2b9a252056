import TinyNet.Epoll.FramingLoop

/-!
# Received bytes are conserved for any framing function

A session receives one chunk after another.  Whatever {lit}`read_packet` answers,
the slices handed to {lit}`on_recv` lie inside the received bytes, are adjacent,
and together with the leftover make up everything that was received.

Main results:

- Theorem {lit}`eventsEnd_conserves`: conservation over a sequence of events
  whose loops end.
- Theorem {lit}`recvEvent_conserves`: bounds, adjacency and conservation of any
  event after such a sequence, including an event whose loop is still running.
-/

namespace TinyNet
namespace Epoll

open Library.FixedBuffer
open Library.MachineInt

variable {R : BufferSize}

/-- The calls made so far by an event. -/
def Flow.calls : Flow R → List Call
  | .running _ v => v.calls
  | .done _ calls => calls

/-- A possible result of {lit}`recv`: between one byte and {lit}`recv_size()`. -/
def RecvResult (s : Receiver R) (chunk : List UInt8) : Prop :=
  1 ≤ chunk.length ∧ (chunk.length : Int) ≤ s.recvSize

theorem RecvResult.ne_nil {s : Receiver R} {chunk : List UInt8}
    (h : RecvResult s chunk) : chunk ≠ [] :=
  List.length_pos_iff.mp h.1

/-- A sequence of events whose loops all end, with all {lit}`on_recv` calls made. -/
inductive EventsEnd (f : ReadPacket) :
    Receiver R → List (List UInt8) → Receiver R → List Call → Prop where
  | nil (s : Receiver R) : EventsEnd f s [] s []
  | cons {s s' s'' : Receiver R} {chunk : List UInt8} {chunks : List (List UInt8)}
      {calls calls' : List Call} (hrecv : RecvResult s chunk)
      (hends : EventEnds f s chunk s' calls) (hrest : EventsEnd f s' chunks s'' calls') :
      EventsEnd f s (chunk :: chunks) s'' (calls ++ calls')

/-- An event whose loop ends conserves the bytes. -/
theorem EventEnds.conserves {f : ReadPacket} {s s' : Receiver R} {chunk : List UInt8}
    {calls : List Call} (hs : s.InRange) (hrecv : RecvResult s chunk)
    (h : EventEnds f s chunk s' calls) :
    s'.InRange ∧ calls.flatMap (·.data) ++ s'.contents = s.contents ++ chunk := by
  rcases h with ⟨fuel, hfuel⟩
  rcases recvEvent_spec f hs hrecv.ne_nil hrecv.2 fuel with
    ⟨s₀, -, flow, -, hflow, -, hcontents, hspec⟩
  rw [hflow] at hfuel
  cases hfuel
  exact ⟨hspec.inRange, by rw [hspec.bytes, hcontents]⟩

/-- Over a sequence of events whose loops end, the bytes delivered and the
leftover are the bytes at the start followed by all the bytes received. -/
theorem eventsEnd_conserves {f : ReadPacket} {s s' : Receiver R}
    {chunks : List (List UInt8)} {calls : List Call} (hs : s.InRange)
    (h : EventsEnd f s chunks s' calls) :
    s'.InRange ∧
      calls.flatMap (·.data) ++ s'.contents = s.contents ++ chunks.flatten := by
  induction h with
  | nil s => exact ⟨hs, by simp⟩
  | cons hrecv hends hrest ih =>
      rcases hends.conserves hs hrecv with ⟨hmid, hbytes⟩
      rcases ih hmid with ⟨hend, hlater⟩
      refine ⟨hend, ?_⟩
      rw [List.flatMap_append, List.append_assoc, hlater, ← List.append_assoc, hbytes,
        List.flatten_cons, List.append_assoc]

/-- Bounds, adjacency and conservation on the epoll receive path, for every
framing function and every history.  After any sequence of events whose loops
ended, any further event runs without an access outside {lit}`recvBuf`; its calls
so far tile a stretch that starts at zero and stays below {lit}`recvBufPos`; and
if its loop ends, the slices and the new contents are the old contents and the
received bytes, and the terminator, if written, is in bounds and behind the
contents. -/
theorem recvEvent_conserves (f : ReadPacket) (start : Receiver R) (hstart : start.InRange)
    (chunks : List (List UInt8)) (s : Receiver R) (calls : List Call)
    (hevents : EventsEnd f start chunks s calls) (chunk : List UInt8)
    (hrecv : RecvResult s chunk) (fuel : Nat) :
    s.InRange ∧
      calls.flatMap (·.data) ++ s.contents = start.contents ++ chunks.flatten ∧
      ∃ s₀ v flow, recvData f s chunk = some (.running s₀ v) ∧
        recvEvent f fuel s chunk = some flow ∧
        s₀.recvBufPos = s.recvBufPos + chunk.length ∧
        s₀.contents = s.contents ++ chunk ∧
        (∃ stop, Tiles s₀.recvBuf 0 stop flow.calls ∧ stop ≤ s₀.recvBufPos) ∧
        (∀ c ∈ flow.calls, 0 ≤ c.readPos ∧ 0 < c.pkgLen ∧
          c.readPos + c.pkgLen ≤ s₀.recvBufPos) ∧
        ∀ s' calls', flow = .done s' calls' →
          calls'.flatMap (·.data) ++ s'.contents = s.contents ++ chunk ∧ s'.InRange ∧
          (calls' ≠ [] → 0 < s'.recvBufPos →
            s'.recvBufPos < R.val ∧
              s'.recvBuf.cells[s'.recvBufPos.toNat]? = some 0) := by
  rcases eventsEnd_conserves hstart hevents with ⟨hs, hbytes⟩
  rcases recvEvent_spec f hs hrecv.ne_nil hrecv.2 fuel with
    ⟨s₀, v, flow, hdata, hflow, hpos, hcontents, hspec⟩
  have htiles : ∃ stop, Tiles s₀.recvBuf 0 stop flow.calls ∧ stop ≤ s₀.recvBufPos := by
    cases flow with
    | running s₁ v =>
        rcases hspec with ⟨-, hinv⟩
        exact ⟨v.readPos, hinv.tiles, hinv.readPos_lt.le⟩
    | done s₁ calls₁ => exact hspec.tiles
  rcases htiles with ⟨stop, htiles, hstop⟩
  refine ⟨hs, hbytes, s₀, v, flow, hdata, hflow, hpos, hcontents,
    ⟨stop, htiles, hstop⟩, ?_, ?_⟩
  · intro c hc
    have hbounds := htiles.bounds hc
    omega
  · rintro s' calls' rfl
    refine ⟨?_, hspec.inRange, hspec.terminator⟩
    rw [hspec.bytes, hcontents]

/-- A {lit}`read_packet` with packets of two bytes. -/
def twoByteFrames : ReadPacket :=
  fun d => if d.length < 2 then 0 else 2

theorem recvEvent_conserves_twoByteFrames :
    ∃ flow, recvEvent twoByteFrames 4
        (⟨⟨[3, 0, 3, 9], rfl⟩, 1⟩ : Receiver four) [4, 5] = some flow ∧
      ∀ s' calls', flow = .done s' calls' →
        calls'.flatMap (·.data) ++ s'.contents = [3, 4, 5] := by
  have hfirst : EventEnds twoByteFrames
      (⟨⟨[9, 9, 9, 9], rfl⟩, 0⟩ : Receiver four) [1, 2, 3] ⟨⟨[3, 0, 3, 9], rfl⟩, 1⟩
      [⟨0, 2, [1, 2]⟩] :=
    ⟨2, by decide⟩
  have hmain := recvEvent_conserves twoByteFrames
    (⟨⟨[9, 9, 9, 9], rfl⟩, 0⟩ : Receiver four) ⟨by decide, by decide⟩ _ _ _
    (.cons ⟨by decide, by decide⟩ hfirst (.nil _)) [4, 5] ⟨by decide, by decide⟩ 4
  rcases hmain with ⟨-, -, s₀, v, flow, -, hflow, -, -, -, -, hdone⟩
  refine ⟨flow, hflow, ?_⟩
  intro s' calls' heq
  exact (hdone s' calls' heq).1

end Epoll
end TinyNet

import TinyNet.Backends.FramingLoop

/-!
# The signed length guard of the kqueue loop

On kqueue {lit}`readPos` is an {lit}`int`, so {lit}`readPos + pkgLen` wraps around to a
negative number when the packet would end beyond the largest {lit}`int`, and a negative
number passes the guard.  The epoll guard is unsigned and does not wrap.  The guard is
therefore exact, in every iteration of a run, exactly if no packet length at a packet
boundary leads beyond the largest {lit}`int`.

Main results:

- Theorem {lit}`fits_of_wraps`: a sum that wraps around passes the guard.
- Theorem {lit}`guardExact_iff`: the guard lets through complete packets only, and
  decides as on epoll, exactly if no sum wraps around.
-/

namespace TinyNet
namespace Backends

open Library.FixedBuffer
open Library.MachineInt
open Library.StreamFraming
open Epoll (Receiver ReadPacket Call LoopVars LoopInv cutOf)

variable {R : BufferSize} {f : ReadPacket} {s : Receiver R} {v : LoopVars}

/-- Offset and length of the slice of a call. -/
def slice (c : Call) : Int × Int :=
  (c.readPos, c.pkgLen)

/-- The slices that the guard has let through: those delivered, and the one at which the
worker touches a byte outside the buffer before it calls {lit}`on_recv`. -/
def Flow.passed : Flow R → List (Int × Int)
  | .running _ v => v.calls.map slice
  | .done _ calls => calls.map slice
  | .overrun v => v.calls.map slice ++ [(v.readPos, v.pkgLen)]

/-- The guard has only let through slices of the received bytes, and at the head of the
loop it decides as the guard of the epoll loop does. -/
structure GuardExact (s : Receiver R) (flow : Flow R) : Prop where
  slices : ∀ c ∈ flow.passed, c.1 + c.2 ≤ s.recvBufPos
  guard : ∀ s' v, flow = .running s' v → 0 < v.pkgLen →
    fits .kqueue s' v = Epoll.fits s' v

/-! ## One packet -/

/-- A sum that wraps around passes the signed guard. -/
theorem fits_of_wraps (h : LoopInv f s v) (hsum : 2147483648 ≤ v.readPos + v.pkgLen) :
    fits .kqueue s v = true := by
  have hR := R.lt_int
  have hle := h.pos_le
  have hlt := h.readPos_lt
  have hnonneg := h.readPos_nonneg
  have hlen := h.pkgLen_lt
  have hwrap : toI32 (v.readPos + v.pkgLen) = v.readPos + v.pkgLen - 4294967296 := by
    unfold toI32
    omega
  have hpos : toI32 s.recvBufPos = s.recvBufPos := toI32_of_range (by omega) (by omega)
  rw [fits, Backend.wrap, hwrap, hpos, decide_eq_true_iff]
  omega

/-- A sum that does not wrap around is decided as on epoll. -/
theorem fits_eq_epoll (h : LoopInv f s v) (hpos : 0 < v.pkgLen)
    (hsum : v.readPos + v.pkgLen < 2147483648) :
    fits .kqueue s v = Epoll.fits s v := by
  rw [Bool.eq_iff_iff, fits_iff h hpos hsum, h.fits_iff hpos]

/-- Every slice of tiles that end in the received bytes lies in these. -/
theorem slices_le {stop : Int} {calls : List Call}
    (htiles : Epoll.Tiles s.recvBuf 0 stop calls) (hstop : stop ≤ s.recvBufPos)
    {c : Int × Int} (hc : c ∈ calls.map slice) : c.1 + c.2 ≤ s.recvBufPos := by
  rcases List.mem_map.mp hc with ⟨call, hcall, rfl⟩
  have hbounds := htiles.bounds hcall
  show call.readPos + call.pkgLen ≤ s.recvBufPos
  omega

/-! ## A whole run -/

/-- The length at a packet boundary, without wrap-around. -/
theorem sum_lt (hno : ∀ p, Boundary (cutOf f) s.contents p → p < s.contents.length →
      p + cutOf f (s.contents.drop p) < 2147483648)
    (h : LoopInv f s v) (hp : Boundary (cutOf f) s.contents v.readPos.toNat) :
    v.readPos + v.pkgLen < 2147483648 := by
  have hnonneg := h.readPos_nonneg
  have hlt := h.readPos_lt
  have hlen := h.length_contents
  have hcut := hno _ hp (by omega)
  rw [h.cutOf_eq] at hcut
  omega

/-- Without wrap-around every place of the loop has an exact guard. -/
theorem FlowSpec.guardExact (hno : ∀ p, Boundary (cutOf f) s.contents p →
      p < s.contents.length → p + cutOf f (s.contents.drop p) < 2147483648)
    {flow : Flow R} (h : FlowSpec .kqueue f s flow) : GuardExact s flow := by
  cases flow with
  | running s' v =>
      rcases h with ⟨rfl, hinv, hp⟩
      refine ⟨fun c hc => slices_le hinv.tiles hinv.readPos_lt.le hc, ?_⟩
      intro s'' v' heq hpos
      obtain ⟨rfl, rfl⟩ := Flow.running.inj heq
      exact fits_eq_epoll hinv hpos (sum_lt hno hinv hp)
  | done s' calls =>
      rcases h.tiles with ⟨stop, htiles, hstop⟩
      refine ⟨fun c hc => slices_le htiles hstop hc, ?_⟩
      intro s'' v heq
      cases heq
  | overrun v =>
      rcases h with ⟨hinv, hp, hpos, hguard, -⟩
      have hfits := (fits_iff hinv hpos (sum_lt hno hinv hp)).mp hguard
      constructor
      · intro c hc
        rcases List.mem_append.mp hc with hcall | hlast
        · exact slices_le hinv.tiles hinv.readPos_lt.le hcall
        · obtain rfl := List.mem_singleton.mp hlast
          exact hfits
      · intro s'' v' heq
        cases heq

/-- With nothing received, neither guard lets a packet through. -/
theorem not_fits_of_empty (hempty : s.recvBufPos = 0)
    (hpos : 0 < (LoopVars.enter f s).pkgLen) :
    fits .kqueue s (.enter f s) = false ∧ Epoll.fits s (.enter f s) = false := by
  have hlen : (LoopVars.enter f s).pkgLen < 2147483648 := Int32.toInt_lt (f s.contents)
  have hread : (LoopVars.enter f s).readPos = 0 := rfl
  constructor
  · rw [fits, Backend.wrap, hread, hempty, zero_add, toI32_of_range (by omega) hlen,
      toI32_of_range (by decide) (by decide), decide_eq_false_iff_not]
    omega
  · rw [Epoll.fits, hread, hempty, zero_add, toU32_of_range hpos.le (by omega),
      toU32_of_range le_rfl (by decide), decide_eq_false_iff_not]
    omega

/-- A loop that has ended without a call has let nothing through. -/
theorem guardExact_done_nil (s s' : Receiver R) : GuardExact s (.done s' []) where
  slices c hc := by simp [Flow.passed] at hc
  guard s'' v heq := by cases heq

/-- With nothing received, the loop delivers nothing. -/
theorem guardExact_of_empty (f : ReadPacket) (hempty : s.recvBufPos = 0) (fuel : Nat) :
    ∃ flow, loop .kqueue f fuel (.running s (.enter f s)) = some flow ∧
      GuardExact s flow := by
  by_cases hpos : 0 < (LoopVars.enter f s).pkgLen
  · rcases not_fits_of_empty hempty hpos with ⟨hkqueue, hepoll⟩
    cases fuel with
    | zero =>
        refine ⟨_, if_pos hpos, by simp [Flow.passed, LoopVars.enter], ?_⟩
        intro s' v heq _
        obtain ⟨rfl, rfl⟩ := Flow.running.inj heq
        rw [hkqueue, hepoll]
    | succ k =>
        have hwrap : Backend.kqueue.wrap s.recvBufPos = 0 := by
          rw [hempty]
          rfl
        have hquery : nextQuery .kqueue f s (LoopVars.enter f s).readPos = some .consumed := by
          rw [nextQuery, hwrap]
          exact if_neg (lt_irrefl 0)
        have hbody : loopBody .kqueue f s (.enter f s) =
            some (.done { s with recvBufPos := 0 } []) := by
          rw [loopBody, hkqueue, requery, hquery]
          rfl
        refine ⟨_, ?_, guardExact_done_nil s { s with recvBufPos := 0 }⟩
        rw [loop, if_pos hpos, hbody, Option.bind_some]
        cases k <;> rfl
  · refine ⟨_, ?_, guardExact_done_nil s s⟩
    cases fuel <;> exact if_neg hpos

/-- In every run of the kqueue loop the guard lets through complete packets only, and
decides as the epoll guard does, exactly if no packet length at a packet boundary leads
beyond the largest {lit}`int`. -/
theorem guardExact_iff (f : ReadPacket) (s : Receiver R) (hnonneg : 0 ≤ s.recvBufPos)
    (hle : s.recvBufPos ≤ R.val) :
    (∀ fuel, ∃ flow, loop .kqueue f fuel (.running s (.enter f s)) = some flow ∧
        GuardExact s flow) ↔
      ∀ p, Boundary (cutOf f) s.contents p → p < s.contents.length →
        p + cutOf f (s.contents.drop p) < 2147483648 := by
  have hR := R.lt_int
  constructor
  · intro hexact p hp hlt
    have hlen : (s.contents.length : Int) = s.recvBufPos := by
      rw [Receiver.contents, Buf.length_range le_rfl hnonneg hle]
      omega
    by_contra hwraps
    rcases reaches_boundary (b := .kqueue) (by omega) hle hp hlt (by omega) with
      ⟨k, v, hloop, hread, hpkg, hinv⟩
    have hcut := hinv.cutOf_eq
    rw [hread, Int.toNat_natCast] at hcut
    have hover : loop .kqueue f (k + 1) (.running s (.enter f s)) = some (.overrun v) := by
      rw [loop_succ, hloop, Option.bind_some, loop, if_pos hpkg,
        loopBody_overrun (fits_of_wraps hinv (by omega)) (by omega)]
      rfl
    rcases hexact (k + 1) with ⟨flow, hflow, hguard⟩
    rw [hover] at hflow
    obtain rfl := Option.some.inj hflow
    have hslice := hguard.slices (v.readPos, v.pkgLen) (by simp [Flow.passed])
    simp only at hslice
    omega
  · intro hno fuel
    by_cases hempty : s.recvBufPos = 0
    · exact guardExact_of_empty f hempty fuel
    · have hstart : FlowSpec .kqueue f s (.running s (.enter f s)) :=
        ⟨rfl, .enter f (by omega) hle, .start⟩
      rcases loop_spec fuel hstart with ⟨flow, hflow, hspec⟩
      exact ⟨flow, hflow, hspec.guardExact hno⟩

theorem guardExact_iff_onePacket :
    ∃ flow,
      loop .kqueue Epoll.headerReadPacket 1
          (.running (Epoll.twoReceived 2 7)
            (.enter Epoll.headerReadPacket (Epoll.twoReceived 2 7))) = some flow ∧
        GuardExact (Epoll.twoReceived 2 7) flow := by
  refine (guardExact_iff Epoll.headerReadPacket (Epoll.twoReceived 2 7) (by decide)
    (by decide)).mpr ?_ 1
  intro p _ hlt
  have hp : p < 2 := hlt
  interval_cases p <;> decide

/-- A {lit}`read_packet` that finds packets of one byte and, before any other byte, a
length field with the largest {lit}`int`. -/
def wireLengthReadPacket : ReadPacket
  | 1 :: _ => 1
  | _ => 2147483647

/-- After a packet of one byte, a length of {lit}`2^31 - 1` passes the guard of the kqueue
worker, with one byte left, and does not pass that of the epoll worker. -/
theorem wrapped_length_passes :
    loop .kqueue wireLengthReadPacket 2
        (.running (Epoll.twoReceived 1 255)
          (.enter wireLengthReadPacket (Epoll.twoReceived 1 255))) =
      some (.overrun ⟨1, 2147483647, [⟨0, 1, [1]⟩]⟩) ∧
    ¬(1 + 2147483647 : Int) ≤ (Epoll.twoReceived 1 255).recvBufPos ∧
    Epoll.fits (Epoll.twoReceived 1 255) ⟨1, 2147483647, [⟨0, 1, [1]⟩]⟩ = false := by
  decide

end Backends
end TinyNet

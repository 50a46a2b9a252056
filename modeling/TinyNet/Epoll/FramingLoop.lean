import TinyNet.Library.FixedBuffer
import TinyNet.Library.MachineInt

/-!
# The receive branch of the epoll worker

This file embeds the branch of {lit}`Processor::run` that handles received data
({lit}`detail/epollnet.hpp`): the bytes that {lit}`recv` stores behind
{lit}`recvBufPos`, the {lit}`while (pkgLen > 0)` loop that cuts packets off the
buffer with the session's {lit}`read_packet`, and the three ways in which the
loop ends.  Positions are mathematical integers and every mixed comparison goes
through the 32-bit conversion that C++ applies to it.  A missing result
({lit}`none`) is an access outside {lit}`recvBuf`.

The loop need not end, so it is run for a given number of iterations and its
state is kept when they are used up.

Main results:

- Theorem {lit}`loopBody_spec`: one iteration stays in bounds, keeps the loop
  invariant, and on an exit conserves the received bytes.
- Theorem {lit}`loop_spec`: the same for any number of iterations.
- Theorem {lit}`recvEvent_spec`: the same for the handling of one event.
-/

namespace TinyNet
namespace Epoll

open Library.FixedBuffer
open Library.MachineInt

/-- The receive half of {lit}`EventHandler<RecvBufSize>`. -/
structure Receiver (R : BufferSize) where
  recvBuf : Buf UInt8 R.val
  recvBufPos : Int
deriving DecidableEq

/-- The session's {lit}`read_packet`: bytes to a 32-bit signed length. -/
abbrev ReadPacket := List UInt8 → Int32

/-- One call {lit}`on_recv(recvBuf + readPos, pkgLen)` with the bytes it sees. -/
structure Call where
  readPos : Int
  pkgLen : Int
  data : List UInt8
deriving DecidableEq

/-- The loop's variables, and the {lit}`on_recv` calls made so far. -/
structure LoopVars where
  readPos : Int
  pkgLen : Int
  calls : List Call
deriving DecidableEq

/-- Where the worker stands: at the head of the loop, or past it. -/
inductive Flow (R : BufferSize) where
  | running (s : Receiver R) (v : LoopVars)
  | done (s : Receiver R) (calls : List Call)
deriving DecidableEq

/-- What the second {lit}`read_packet` call of an iteration decides. -/
inductive Query where
  | again (pkgLen : Int)
  | leftover
  | consumed
deriving DecidableEq

variable {R : BufferSize}

namespace Receiver

/-- A session as the constructor leaves it; {lit}`recvBuf` is uninitialised. -/
def create (garbage : Buf UInt8 R.val) : Receiver R where
  recvBuf := garbage
  recvBufPos := 0

/-- {lit}`EventHandler::recv_size`. -/
def recvSize (s : Receiver R) : Int :=
  R.val - s.recvBufPos

/-- The bytes received and not yet parsed: {lit}`recvBuf[0..recvBufPos)`. -/
def contents (s : Receiver R) : List UInt8 :=
  s.recvBuf.range 0 s.recvBufPos

/-- The position lies in the buffer. -/
def InRange (s : Receiver R) : Prop :=
  0 ≤ s.recvBufPos ∧ s.recvBufPos ≤ R.val

end Receiver

/-- The guard {lit}`readPos + pkgLen <= pSession->recvBufPos`, which C++ evaluates
in unsigned arithmetic. -/
def fits (s : Receiver R) (v : LoopVars) : Bool :=
  toU32 (v.readPos + v.pkgLen) ≤ toU32 s.recvBufPos

/-- The guarded part of an iteration: {lit}`on_recv`, then advance {lit}`readPos`. -/
def deliver (s : Receiver R) (v : LoopVars) : Option LoopVars := do
  let data ← s.recvBuf.read v.readPos v.pkgLen
  some
    { readPos := toU32 (v.readPos + v.pkgLen)
      pkgLen := v.pkgLen
      calls := v.calls ++ [⟨v.readPos, v.pkgLen, data⟩] }

/-- The test {lit}`readPos < recvBufPos` and the {lit}`read_packet` call under it. -/
def nextQuery (f : ReadPacket) (s : Receiver R) (readPos : Int) : Option Query :=
  if readPos < toU32 s.recvBufPos then do
    let d ← s.recvBuf.read readPos (toI32 (s.recvBufPos - readPos))
    if (f d).toInt ≤ 0 then some .leftover else some (.again (f d).toInt)
  else some .consumed

/-- Move the leftover to the front and shrink {lit}`recvBufPos` accordingly. -/
def moveLeftover (s : Receiver R) (readPos : Int) : Option (Receiver R) := do
  let buf ← s.recvBuf.move 0 readPos (toU32 (s.recvBufPos - readPos))
  some { recvBuf := buf, recvBufPos := toI32 (s.recvBufPos - readPos) }

/-- The write {lit}`*(recvBuf + recvBufPos) = 0`. -/
def writeTerminator (s : Receiver R) : Option (Receiver R) := do
  let buf ← s.recvBuf.write s.recvBufPos [0]
  some { s with recvBuf := buf }

/-- The unguarded part of an iteration. -/
def requery (f : ReadPacket) (s : Receiver R) (v : LoopVars) : Option (Flow R) := do
  match ← nextQuery f s v.readPos with
  | .again pkgLen => some (.running s { v with pkgLen := pkgLen })
  | .leftover =>
      let moved ← moveLeftover s v.readPos
      let ended ← writeTerminator moved
      some (.done ended v.calls)
  | .consumed => some (.done { s with recvBufPos := 0 } v.calls)

/-- One iteration of the {lit}`while` loop. -/
def loopBody (f : ReadPacket) (s : Receiver R) (v : LoopVars) : Option (Flow R) :=
  if fits s v then do
    let v ← deliver s v
    requery f s v
  else requery f s v

/-- Run the loop for at most the given number of iterations. -/
def loop (f : ReadPacket) : Nat → Flow R → Option (Flow R)
  | _, .done s calls => some (.done s calls)
  | 0, .running s v =>
      if 0 < v.pkgLen then some (.running s v) else some (.done s v.calls)
  | k + 1, .running s v =>
      if 0 < v.pkgLen then (loopBody f s v).bind (loop f k) else some (.done s v.calls)

/-- A successful {lit}`recv` of the bytes {lit}`chunk`, up to the head of the loop. -/
def recvData (f : ReadPacket) (s : Receiver R) (chunk : List UInt8) : Option (Flow R) := do
  let buf ← s.recvBuf.write s.recvBufPos chunk
  let pos := s.recvBufPos + chunk.length
  let d ← buf.read 0 pos
  some (.running { recvBuf := buf, recvBufPos := pos }
    { readPos := 0, pkgLen := (f d).toInt, calls := [] })

/-- The handling of one event on which {lit}`recv` returned {lit}`chunk`. -/
def recvEvent (f : ReadPacket) (fuel : Nat) (s : Receiver R) (chunk : List UInt8) :
    Option (Flow R) :=
  (recvData f s chunk).bind (loop f fuel)

/-- The loop of the event ends, in the given state and with the given calls. -/
def EventEnds (f : ReadPacket) (s : Receiver R) (chunk : List UInt8) (s' : Receiver R)
    (calls : List Call) : Prop :=
  ∃ fuel, recvEvent f fuel s chunk = some (.done s' calls)

/-! ## Slices delivered by one event -/

/-- The calls cover the buffer from {lit}`lo` to {lit}`hi` without gap or overlap,
in order, and each sees the bytes of its slice. -/
def Tiles (buf : Buf UInt8 R.val) : Int → Int → List Call → Prop
  | lo, hi, [] => lo = hi
  | lo, hi, c :: cs =>
      c.readPos = lo ∧ 0 < c.pkgLen ∧ c.data = buf.range lo (lo + c.pkgLen) ∧
        Tiles buf (lo + c.pkgLen) hi cs

/-- One more slice at the end. -/
theorem Tiles.concat {buf : Buf UInt8 R.val} {lo mid : Int} {calls : List Call}
    (h : Tiles buf lo mid calls) {pkgLen : Int} (hpos : 0 < pkgLen) :
    Tiles buf lo (mid + pkgLen)
      (calls ++ [⟨mid, pkgLen, buf.range mid (mid + pkgLen)⟩]) := by
  induction calls generalizing lo with
  | nil =>
      obtain rfl : lo = mid := h
      exact ⟨rfl, hpos, rfl, rfl⟩
  | cons c cs ih =>
      obtain ⟨hread, hlen, hdata, hrest⟩ := h
      exact ⟨hread, hlen, hdata, ih hrest⟩

/-- Tiles go upwards. -/
theorem Tiles.le {buf : Buf UInt8 R.val} {lo hi : Int} {calls : List Call}
    (h : Tiles buf lo hi calls) : lo ≤ hi := by
  induction calls generalizing lo with
  | nil => exact le_of_eq h
  | cons c cs ih =>
      obtain ⟨-, hlen, -, hrest⟩ := h
      have hle := ih hrest
      omega

/-- Tiles of a nonempty stretch are at least one. -/
theorem Tiles.ne_nil {buf : Buf UInt8 R.val} {lo hi : Int} {calls : List Call}
    (h : Tiles buf lo hi calls) (hlt : lo < hi) : calls ≠ [] := by
  rintro rfl
  have heq : lo = hi := h
  omega

/-- The bytes seen by the calls are the bytes they cover. -/
theorem Tiles.flatMap_data {buf : Buf UInt8 R.val} {lo hi : Int} {calls : List Call}
    (h : Tiles buf lo hi calls) (hlo : 0 ≤ lo) :
    calls.flatMap (·.data) = buf.range lo hi := by
  induction calls generalizing lo with
  | nil =>
      obtain rfl : lo = hi := h
      simp
  | cons c cs ih =>
      obtain ⟨-, hlen, hdata, hrest⟩ := h
      rw [List.flatMap_cons, hdata, ih hrest (by omega)]
      exact buf.range_append hlo (by omega) hrest.le

/-- Every slice lies inside the stretch that is covered. -/
theorem Tiles.bounds {buf : Buf UInt8 R.val} {lo hi : Int} {calls : List Call}
    (h : Tiles buf lo hi calls) {c : Call} (hc : c ∈ calls) :
    lo ≤ c.readPos ∧ 0 < c.pkgLen ∧ c.readPos + c.pkgLen ≤ hi := by
  induction calls generalizing lo with
  | nil => simp at hc
  | cons d ds ih =>
      obtain ⟨hread, hlen, -, hrest⟩ := h
      have hle := hrest.le
      rcases List.mem_cons.mp hc with rfl | hc
      · omega
      · have hbounds := ih hrest hc
        omega

/-! ## One iteration -/

/-- What holds at the head of the loop.  Its last field is what makes the loop
spin: the length at hand is the answer for the bytes at {lit}`readPos`. -/
structure LoopInv (f : ReadPacket) (s : Receiver R) (v : LoopVars) : Prop where
  pos_le : s.recvBufPos ≤ R.val
  readPos_lt : v.readPos < s.recvBufPos
  tiles : Tiles s.recvBuf 0 v.readPos v.calls
  not_entered : v.pkgLen ≤ 0 → v.calls = []
  pkgLen_eq : v.pkgLen = (f (s.recvBuf.range v.readPos s.recvBufPos)).toInt

/-- What holds when the loop, entered with the buffer of {lit}`s`, has ended in
{lit}`s'`. -/
structure Conserves (s s' : Receiver R) (calls : List Call) : Prop where
  tiles : ∃ stop, Tiles s.recvBuf 0 stop calls ∧ stop ≤ s.recvBufPos
  bytes : calls.flatMap (·.data) ++ s'.contents = s.contents
  inRange : s'.InRange
  terminator : calls ≠ [] → 0 < s'.recvBufPos →
    s'.recvBufPos < R.val ∧ s'.recvBuf.cells[s'.recvBufPos.toNat]? = some 0

/-- The outcome of a loop that was entered with the buffer of {lit}`s`. -/
def FlowSpec (f : ReadPacket) (s : Receiver R) : Flow R → Prop
  | .running s' v => s' = s ∧ LoopInv f s v
  | .done s' calls => Conserves s s' calls

theorem LoopInv.readPos_nonneg {f : ReadPacket} {s : Receiver R} {v : LoopVars}
    (h : LoopInv f s v) : 0 ≤ v.readPos :=
  h.tiles.le

/-- The length that {lit}`read_packet` returns is a 32-bit signed integer. -/
theorem LoopInv.pkgLen_lt {f : ReadPacket} {s : Receiver R} {v : LoopVars}
    (h : LoopInv f s v) : v.pkgLen < 2147483648 := by
  rw [h.pkgLen_eq]
  exact Int32.toInt_lt _

/-- The unsigned guard is exact at the head of the loop. -/
theorem LoopInv.fits_iff {f : ReadPacket} {s : Receiver R} {v : LoopVars}
    (h : LoopInv f s v) (hpos : 0 < v.pkgLen) :
    fits s v = true ↔ v.readPos + v.pkgLen ≤ s.recvBufPos := by
  have hR := R.lt_int
  have hle := h.pos_le
  have hlt := h.readPos_lt
  have hnonneg := h.readPos_nonneg
  have hlen := h.pkgLen_lt
  unfold fits
  rw [toU32_add_of_range (by omega) (by omega) (by omega) (by omega),
    toU32_of_range (by omega) (by omega), decide_eq_true_iff]

/-- A guarded delivery extends the tiles by the slice delivered. -/
theorem deliver_spec {f : ReadPacket} {s : Receiver R} {v : LoopVars}
    (h : LoopInv f s v) (hpos : 0 < v.pkgLen)
    (hfits : v.readPos + v.pkgLen ≤ s.recvBufPos) :
    ∃ v', deliver s v = some v' ∧ v'.readPos = v.readPos + v.pkgLen ∧
      v'.calls = v.calls ++
        [⟨v.readPos, v.pkgLen, s.recvBuf.range v.readPos (v.readPos + v.pkgLen)⟩] ∧
      Tiles s.recvBuf 0 v'.readPos v'.calls := by
  have hR := R.lt_int
  have hle := h.pos_le
  have hnonneg := h.readPos_nonneg
  have hlen := h.pkgLen_lt
  have hadd : toU32 (v.readPos + v.pkgLen) = v.readPos + v.pkgLen :=
    toU32_add_of_range hnonneg (by omega) (by omega) hlen
  refine ⟨⟨v.readPos + v.pkgLen, v.pkgLen, v.calls ++
    [⟨v.readPos, v.pkgLen, s.recvBuf.range v.readPos (v.readPos + v.pkgLen)⟩]⟩,
    ?_, rfl, rfl, h.tiles.concat hpos⟩
  rw [deliver, Buf.read_eq_some hnonneg (by omega) (by omega), hadd]
  rfl

/-- The second {lit}`read_packet` call of an iteration is made on exactly the
bytes between {lit}`readPos` and {lit}`recvBufPos`. -/
theorem nextQuery_spec (f : ReadPacket) {s : Receiver R} {readPos : Int}
    (hnonneg : 0 ≤ readPos) (hread : readPos ≤ s.recvBufPos)
    (hpos : s.recvBufPos ≤ R.val) :
    nextQuery f s readPos =
      if readPos < s.recvBufPos then
        if (f (s.recvBuf.range readPos s.recvBufPos)).toInt ≤ 0 then some .leftover
        else some (.again (f (s.recvBuf.range readPos s.recvBufPos)).toInt)
      else some .consumed := by
  have hR := R.lt_int
  unfold nextQuery
  rw [toU32_of_range (by omega) (by omega), toI32_of_range (by omega) (by omega)]
  split
  · rw [Buf.read_eq_some hnonneg (by omega) (by omega),
      show readPos + (s.recvBufPos - readPos) = s.recvBufPos by omega]
    rfl
  · rfl

/-- Moving a proper leftover to the front keeps its bytes and leaves room for the
terminator behind them. -/
theorem moveLeftover_spec {s : Receiver R} {readPos : Int} (hread : 0 < readPos)
    (hlt : readPos < s.recvBufPos) (hpos : s.recvBufPos ≤ R.val) :
    ∃ moved ended, moveLeftover s readPos = some moved ∧
      writeTerminator moved = some ended ∧
      ended.recvBufPos = s.recvBufPos - readPos ∧
      ended.contents = s.recvBuf.range readPos s.recvBufPos ∧
      ended.recvBuf.cells[ended.recvBufPos.toNat]? = some 0 := by
  have hR := R.lt_int
  have hu32 : toU32 (s.recvBufPos - readPos) = s.recvBufPos - readPos :=
    toU32_of_range (by omega) (by omega)
  have hi32 : toI32 (s.recvBufPos - readPos) = s.recvBufPos - readPos :=
    toI32_of_range (by omega) (by omega)
  rcases Buf.move_to_front s.recvBuf hread.le hlt.le hpos with ⟨buf, hbuf, hmoved⟩
  rcases Buf.write_isSome buf (s.recvBufPos - readPos) [0] (by omega)
    (by simp; omega) with ⟨buf', hbuf'⟩
  refine ⟨⟨buf, s.recvBufPos - readPos⟩, ⟨buf', s.recvBufPos - readPos⟩,
    ?_, ?_, rfl, ?_, ?_⟩
  · simp [moveLeftover, hu32, hi32, hbuf]
  · simp [writeTerminator, hbuf']
  · show buf'.range 0 (s.recvBufPos - readPos) = _
    rw [Buf.write_range_of_le hbuf' le_rfl le_rfl, hmoved]
  · exact Buf.write_singleton_cell hbuf'

/-- The three outcomes of the unguarded part of an iteration, after at least one
delivery: another packet, a leftover moved to the front, or nothing left. -/
theorem requery_cases (f : ReadPacket) {s : Receiver R} {v : LoopVars}
    (hread : 0 < v.readPos) (hle : v.readPos ≤ s.recvBufPos)
    (hpos : s.recvBufPos ≤ R.val) :
    (v.readPos < s.recvBufPos ∧
      0 < (f (s.recvBuf.range v.readPos s.recvBufPos)).toInt ∧
      requery f s v = some (.running s
        { v with pkgLen := (f (s.recvBuf.range v.readPos s.recvBufPos)).toInt })) ∨
    (v.readPos < s.recvBufPos ∧
      (f (s.recvBuf.range v.readPos s.recvBufPos)).toInt ≤ 0 ∧
      ∃ ended, requery f s v = some (.done ended v.calls) ∧
        ended.recvBufPos = s.recvBufPos - v.readPos ∧
        ended.contents = s.recvBuf.range v.readPos s.recvBufPos ∧
        ended.recvBuf.cells[ended.recvBufPos.toNat]? = some 0) ∨
    (v.readPos = s.recvBufPos ∧
      requery f s v = some (.done { s with recvBufPos := 0 } v.calls)) := by
  unfold requery
  rw [nextQuery_spec f hread.le hle hpos]
  by_cases hlt : v.readPos < s.recvBufPos
  · rw [if_pos hlt]
    by_cases hlen : (f (s.recvBuf.range v.readPos s.recvBufPos)).toInt ≤ 0
    · rw [if_pos hlen]
      rcases moveLeftover_spec hread hlt hpos with
        ⟨moved, ended, hmoved, hended, hpos', hcontents, hcell⟩
      right
      left
      exact ⟨hlt, hlen, ended, by simp [hmoved, hended], hpos', hcontents, hcell⟩
    · rw [if_neg hlen]
      left
      exact ⟨hlt, not_le.mp hlen, rfl⟩
  · rw [if_neg hlt]
    right
    right
    exact ⟨le_antisymm hle (not_lt.mp hlt), rfl⟩

/-- The unguarded part of an iteration keeps the accounting. -/
theorem requery_spec (f : ReadPacket) {s : Receiver R} {v : LoopVars}
    (hread : 0 < v.readPos) (hle : v.readPos ≤ s.recvBufPos)
    (hpos : s.recvBufPos ≤ R.val) (htiles : Tiles s.recvBuf 0 v.readPos v.calls) :
    ∃ flow, requery f s v = some flow ∧ FlowSpec f s flow := by
  rcases requery_cases f hread hle hpos with
    ⟨hlt, hmore, hflow⟩ | ⟨hlt, -, ended, hflow, hpos', hcontents, hcell⟩ | ⟨hall, hflow⟩
  · exact ⟨_, hflow, rfl, ⟨hpos, hlt, htiles, fun hzero => absurd hzero (by simp; omega), rfl⟩⟩
  · refine ⟨_, hflow, ⟨v.readPos, htiles, hle⟩, ?_, ?_, ?_⟩
    · rw [hcontents, htiles.flatMap_data le_rfl]
      exact s.recvBuf.range_append le_rfl hread.le hle
    · unfold Receiver.InRange
      omega
    · intro _ _
      exact ⟨by omega, hcell⟩
  · refine ⟨_, hflow, ⟨v.readPos, htiles, hle⟩, ?_, ?_, ?_⟩
    · rw [htiles.flatMap_data le_rfl, hall]
      simp [Receiver.contents]
    · simp [Receiver.InRange]
    · simp

/-- When the guard fails the iteration changes nothing, since {lit}`read_packet` answers
as before. -/
theorem LoopInv.loopBody_spin {f : ReadPacket} {s : Receiver R} {v : LoopVars}
    (h : LoopInv f s v) (hpos : 0 < v.pkgLen)
    (hfits : ¬v.readPos + v.pkgLen ≤ s.recvBufPos) :
    loopBody f s v = some (.running s v) := by
  have hlen := h.pkgLen_eq
  unfold loopBody
  rw [if_neg (fun hc => hfits ((h.fits_iff hpos).mp hc))]
  unfold requery
  rw [nextQuery_spec f h.readPos_nonneg h.readPos_lt.le h.pos_le,
    if_pos h.readPos_lt, if_neg (by omega), ← hlen]
  rfl

/-- One iteration stays in bounds, and either reaches the loop head again with the
invariant, or ends the loop with every byte accounted for. -/
theorem loopBody_spec {f : ReadPacket} {s : Receiver R} {v : LoopVars}
    (h : LoopInv f s v) (hpos : 0 < v.pkgLen) :
    ∃ flow, loopBody f s v = some flow ∧ FlowSpec f s flow := by
  by_cases hfits : v.readPos + v.pkgLen ≤ s.recvBufPos
  · unfold loopBody
    rw [if_pos ((h.fits_iff hpos).mpr hfits)]
    rcases deliver_spec h hpos hfits with ⟨v', hv', hread, -, htiles⟩
    have hnonneg := h.readPos_nonneg
    rw [hv']
    exact requery_spec f (by omega) (by omega) h.pos_le htiles
  · exact ⟨_, h.loopBody_spin hpos hfits, rfl, h⟩

/-! ## Any number of iterations -/

/-- A loop that is not entered leaves the buffer as it was received. -/
theorem LoopInv.conserves_of_not_entered {f : ReadPacket} {s : Receiver R}
    {v : LoopVars} (h : LoopInv f s v) (hpos : ¬ 0 < v.pkgLen) :
    Conserves s s v.calls := by
  have hcalls := h.not_entered (by omega)
  have hnonneg := h.readPos_nonneg
  have hlt := h.readPos_lt
  refine ⟨⟨v.readPos, h.tiles, hlt.le⟩, ?_, ⟨by omega, h.pos_le⟩, ?_⟩
  · simp [hcalls]
  · exact fun hne => absurd hcalls hne

/-- Any number of iterations stays in bounds and keeps the accounting. -/
theorem loop_spec {f : ReadPacket} {s : Receiver R} (fuel : Nat) {flow : Flow R}
    (hflow : FlowSpec f s flow) :
    ∃ flow', loop f fuel flow = some flow' ∧ FlowSpec f s flow' := by
  induction fuel generalizing flow with
  | zero =>
      cases flow with
      | done s' calls => exact ⟨_, rfl, hflow⟩
      | running s' v =>
          rcases hflow with ⟨rfl, hinv⟩
          by_cases hpos : 0 < v.pkgLen
          · exact ⟨.running s' v, by simp [loop, hpos], rfl, hinv⟩
          · exact ⟨.done s' v.calls, by simp [loop, hpos],
              hinv.conserves_of_not_entered hpos⟩
  | succ k ih =>
      cases flow with
      | done s' calls => exact ⟨_, rfl, hflow⟩
      | running s' v =>
          rcases hflow with ⟨rfl, hinv⟩
          by_cases hpos : 0 < v.pkgLen
          · rcases loopBody_spec hinv hpos with ⟨next, hnext, hspec⟩
            rcases ih hspec with ⟨flow', hflow', hspec'⟩
            exact ⟨flow', by simp [loop, hpos, hnext, hflow'], hspec'⟩
          · exact ⟨.done s' v.calls, by simp [loop, hpos],
              hinv.conserves_of_not_entered hpos⟩

/-- Running on after some iterations is running for the sum. -/
theorem loop_add (f : ReadPacket) (k j : Nat) (flow : Flow R) :
    loop f (k + j) flow = (loop f k flow).bind (loop f j) := by
  induction k generalizing flow with
  | zero =>
      cases flow with
      | done s calls => cases j <;> simp [loop]
      | running s v => by_cases hpos : 0 < v.pkgLen <;> cases j <;> simp [loop, hpos]
  | succ k ih =>
      cases flow with
      | done s calls => cases j <;> simp [loop]
      | running s v =>
          rw [Nat.succ_add]
          by_cases hpos : 0 < v.pkgLen
          · rw [loop, loop, if_pos hpos, if_pos hpos, Option.bind_assoc]
            exact congrArg _ (funext ih)
          · cases j <;> simp [loop, hpos]

/-- Once the loop has ended, further iterations change nothing. -/
theorem loop_of_done {f : ReadPacket} {k m : Nat} {flow : Flow R} {s : Receiver R}
    {calls : List Call} (h : loop f k flow = some (.done s calls)) (hle : k ≤ m) :
    loop f m flow = some (.done s calls) := by
  rcases Nat.exists_eq_add_of_le hle with ⟨j, rfl⟩
  rw [loop_add, h]
  cases j <;> rfl

/-- The outcome of an event does not depend on the number of iterations allowed. -/
theorem EventEnds.unique {f : ReadPacket} {s s₁ s₂ : Receiver R} {chunk : List UInt8}
    {calls₁ calls₂ : List Call} (h₁ : EventEnds f s chunk s₁ calls₁)
    (h₂ : EventEnds f s chunk s₂ calls₂) : s₁ = s₂ ∧ calls₁ = calls₂ := by
  rcases h₁ with ⟨k, hk⟩
  rcases h₂ with ⟨m, hm⟩
  unfold recvEvent at hk hm
  cases hdata : recvData f s chunk with
  | none => simp [hdata] at hk
  | some flow =>
      rw [hdata, Option.bind_some] at hk hm
      have hk' := loop_of_done hk (Nat.le_max_left k m)
      have hm' := loop_of_done hm (Nat.le_max_right k m)
      rw [hk'] at hm'
      cases hm'
      exact ⟨rfl, rfl⟩

/-- The bytes of a {lit}`recv` are appended to the contents, and the loop head is
reached with its invariant. -/
theorem recvData_spec (f : ReadPacket) {s : Receiver R} (hs : s.InRange)
    {chunk : List UInt8} (hne : chunk ≠ []) (hfit : (chunk.length : Int) ≤ s.recvSize) :
    ∃ s₀ v, recvData f s chunk = some (.running s₀ v) ∧
      s₀.recvBufPos = s.recvBufPos + chunk.length ∧
      s₀.contents = s.contents ++ chunk ∧ v.readPos = 0 ∧ v.calls = [] ∧
      LoopInv f s₀ v := by
  rcases hs with ⟨hnonneg, hle⟩
  unfold Receiver.recvSize at hfit
  have hlen : 0 < chunk.length := List.length_pos_iff.mpr hne
  rcases Buf.write_behind s.recvBuf chunk le_rfl hnonneg (by omega) with
    ⟨buf, hbuf, hcontents⟩
  refine ⟨⟨buf, s.recvBufPos + chunk.length⟩,
    ⟨0, (f (buf.range 0 (s.recvBufPos + chunk.length))).toInt, []⟩,
    ?_, rfl, hcontents, rfl, rfl, ?_⟩
  · rw [recvData, hbuf]
    simp only [Option.bind_eq_bind, Option.bind_some]
    rw [Buf.read_eq_some le_rfl (by omega) (by omega), zero_add]
    rfl
  · refine ⟨?_, ?_, rfl, fun _ => rfl, rfl⟩
    · show s.recvBufPos + (chunk.length : Int) ≤ R.val
      omega
    · show 0 < s.recvBufPos + (chunk.length : Int)
      omega

/-- The handling of one event, for as many iterations as are run. -/
theorem recvEvent_spec (f : ReadPacket) {s : Receiver R} (hs : s.InRange)
    {chunk : List UInt8} (hne : chunk ≠ []) (hfit : (chunk.length : Int) ≤ s.recvSize)
    (fuel : Nat) :
    ∃ s₀ v flow, recvData f s chunk = some (.running s₀ v) ∧
      recvEvent f fuel s chunk = some flow ∧
      s₀.recvBufPos = s.recvBufPos + chunk.length ∧
      s₀.contents = s.contents ++ chunk ∧ FlowSpec f s₀ flow := by
  rcases recvData_spec f hs hne hfit with ⟨s₀, v, hdata, hpos, hcontents, -, -, hinv⟩
  have hhead : FlowSpec f s₀ (.running s₀ v) := ⟨rfl, hinv⟩
  rcases loop_spec fuel hhead with ⟨flow, hflow, hspec⟩
  exact ⟨s₀, v, flow, hdata, by simp [recvEvent, hdata, hflow], hpos, hcontents, hspec⟩

end Epoll
end TinyNet

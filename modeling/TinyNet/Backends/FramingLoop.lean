import TinyNet.Epoll.Termination

/-!
# The receive loops of the kqueue and the IOCP worker

The workers of {lit}`detail/kqueuenet.hpp` and {lit}`detail/iocpnet.hpp` have the same
framing loop as the epoll worker, with two differences.  Around {lit}`on_recv` they
save the byte behind the packet, overwrite it with a terminating zero and restore it;
and {lit}`readPos` is an {lit}`int` on kqueue and a {lit}`DWORD` on IOCP.  The session's
fields are those of the epoll session, so the state, the loop variables and the first
part of an event are taken from there.

A loop that touches the byte behind a packet outside {lit}`recvBuf` is {lit}`overrun`,
with the packet that it was about to deliver; a missing result ({lit}`none`) is any
other access outside.

Main results:

- Theorem {lit}`loopBody_eq_epoll`: an iteration that delivers a complete packet with a
  byte of the buffer behind it is the iteration of the epoll loop.
- Theorem {lit}`loopBody_spec` and {lit}`loop_spec`: the outcomes of one iteration and of
  any number of them.
- Theorem {lit}`reaches_boundary`: the loop comes to every packet boundary at which
  there seems to be another packet.
-/

namespace TinyNet
namespace Backends

open Library.FixedBuffer
open Library.MachineInt
open Library.StreamFraming
open Epoll (Receiver ReadPacket Call LoopVars LoopInv cutOf)

/-- The back ends with a terminating zero. -/
inductive Backend where
  | kqueue
  | iocp
deriving DecidableEq

/-- Conversion to the type of {lit}`readPos`: {lit}`int` or {lit}`DWORD`. -/
def Backend.wrap : Backend → Int → Int
  | .kqueue => toI32
  | .iocp => toU32

/-- Where a worker stands: at the head of the loop, past it, or touching the byte behind
a packet outside the buffer. -/
inductive Flow (R : BufferSize) where
  | running (s : Receiver R) (v : LoopVars)
  | done (s : Receiver R) (calls : List Call)
  | overrun (v : LoopVars)
deriving DecidableEq

variable {R : BufferSize}

/-- The epoll worker's place, seen as a place of these workers. -/
def Flow.ofEpoll : Epoll.Flow R → Flow R
  | .running s v => .running s v
  | .done s calls => .done s calls

/-- The guard {lit}`readPos + pkgLen <= recvBufPos`. -/
def fits (b : Backend) (s : Receiver R) (v : LoopVars) : Bool :=
  b.wrap (v.readPos + v.pkgLen) ≤ b.wrap s.recvBufPos

/-- The guarded part of an iteration: save and zero the byte at {lit}`pEnd`, call
{lit}`on_recv`, restore the byte and advance {lit}`readPos`. -/
def deliver (b : Backend) (s : Receiver R) (v : LoopVars) :
    Option (Receiver R × LoopVars) := do
  let pEnd := v.readPos + v.pkgLen
  let endVal ← s.recvBuf.read pEnd 1
  let zeroed ← s.recvBuf.write pEnd [0]
  let data ← zeroed.read v.readPos v.pkgLen
  let restored ← zeroed.write pEnd endVal
  some
    ({ s with recvBuf := restored },
      { readPos := b.wrap (v.readPos + v.pkgLen)
        pkgLen := v.pkgLen
        calls := v.calls ++ [⟨v.readPos, v.pkgLen, data⟩] })

/-- The test {lit}`readPos < recvBufPos` and the {lit}`read_packet` call under it. -/
def nextQuery (b : Backend) (f : ReadPacket) (s : Receiver R) (readPos : Int) :
    Option Epoll.Query :=
  if readPos < b.wrap s.recvBufPos then do
    let d ← s.recvBuf.read readPos (toI32 (s.recvBufPos - readPos))
    if (f d).toInt ≤ 0 then some .leftover else some (.again (f d).toInt)
  else some .consumed

/-- Move the leftover to the front and shrink {lit}`recvBufPos` accordingly. -/
def moveLeftover (b : Backend) (s : Receiver R) (readPos : Int) : Option (Receiver R) := do
  let buf ← s.recvBuf.move 0 readPos (b.wrap (s.recvBufPos - readPos))
  some { recvBuf := buf, recvBufPos := b.wrap (s.recvBufPos - readPos) }

/-- The unguarded part of an iteration. -/
def requery (b : Backend) (f : ReadPacket) (s : Receiver R) (v : LoopVars) :
    Option (Flow R) := do
  match ← nextQuery b f s v.readPos with
  | .again pkgLen => some (.running s { v with pkgLen := pkgLen })
  | .leftover =>
      let moved ← moveLeftover b s v.readPos
      let ended ← Epoll.writeTerminator moved
      some (.done ended v.calls)
  | .consumed => some (.done { s with recvBufPos := 0 } v.calls)

/-- One iteration of the {lit}`while` loop. -/
def loopBody (b : Backend) (f : ReadPacket) (s : Receiver R) (v : LoopVars) :
    Option (Flow R) :=
  if fits b s v then
    match deliver b s v with
    | some (s, v) => requery b f s v
    | none => some (.overrun v)
  else requery b f s v

/-- Run the loop for at most the given number of iterations. -/
def loop (b : Backend) (f : ReadPacket) : Nat → Flow R → Option (Flow R)
  | _, .done s calls => some (.done s calls)
  | _, .overrun v => some (.overrun v)
  | 0, .running s v =>
      if 0 < v.pkgLen then some (.running s v) else some (.done s v.calls)
  | k + 1, .running s v =>
      if 0 < v.pkgLen then (loopBody b f s v).bind (loop b f k) else some (.done s v.calls)

/-- The handling of one event on which {lit}`chunk` was received. -/
def recvEvent (b : Backend) (f : ReadPacket) (fuel : Nat) (s : Receiver R)
    (chunk : List UInt8) : Option (Flow R) := do
  let flow ← Epoll.recvData f s chunk
  loop b f fuel (.ofEpoll flow)

/-- Handle a sequence of events; no result if a loop does not end or leaves the buffer. -/
def recvAll (b : Backend) (f : ReadPacket) (fuel : Nat) :
    Receiver R → List (List UInt8) → Option (Receiver R × List Call)
  | s, [] => some (s, [])
  | s, chunk :: chunks =>
      match recvEvent b f fuel s chunk with
      | some (.done s' calls) =>
          (recvAll b f fuel s' chunks).map fun r => (r.1, calls ++ r.2)
      | _ => none

/-! ## The guard -/

/-- Nonnegative values of an {lit}`int` are kept. -/
theorem Backend.wrap_of_range (b : Backend) {z : Int} (hlo : 0 ≤ z)
    (hhi : z < 2147483648) : b.wrap z = z := by
  cases b with
  | kqueue => exact toI32_of_range (by omega) hhi
  | iocp => exact toU32_of_range hlo (by omega)

variable {b : Backend} {f : ReadPacket} {s : Receiver R} {v : LoopVars}

/-- The guard is exact if the packet ends before the largest {lit}`int`. -/
theorem fits_iff (h : LoopInv f s v) (hpos : 0 < v.pkgLen)
    (hsum : v.readPos + v.pkgLen < 2147483648) :
    fits b s v = true ↔ v.readPos + v.pkgLen ≤ s.recvBufPos := by
  have hR := R.lt_int
  have hle := h.pos_le
  have hlt := h.readPos_lt
  have hnonneg := h.readPos_nonneg
  unfold fits
  rw [b.wrap_of_range (by omega) hsum, b.wrap_of_range (by omega) (by omega),
    decide_eq_true_iff]

/-- A packet that ends in the buffer passes the guard exactly if it is complete. -/
theorem fits_of_le (h : LoopInv f s v) (hpos : 0 < v.pkgLen)
    (hfits : v.readPos + v.pkgLen ≤ s.recvBufPos) : fits b s v = true := by
  have hR := R.lt_int
  have hle := h.pos_le
  exact (fits_iff h hpos (by omega)).mpr hfits

/-! ## One iteration -/

/-- A delivery with a byte of the buffer behind the packet leaves the buffer as it was,
and is otherwise that of the epoll loop. -/
theorem deliver_eq_epoll (h : LoopInv f s v) (hpos : 0 < v.pkgLen)
    (hroom : v.readPos + v.pkgLen < R.val) :
    deliver b s v = (Epoll.deliver s v).map (Prod.mk s) := by
  have hR := R.lt_int
  have hnonneg := h.readPos_nonneg
  have hlen := h.pkgLen_lt
  rcases Buf.write_isSome s.recvBuf (v.readPos + v.pkgLen) [0] (by omega)
    (by simp; omega) with ⟨zeroed, hzeroed⟩
  have hrestored := Buf.write_restore hzeroed
  rw [List.length_singleton, Nat.cast_one] at hrestored
  have hdata := Buf.write_range_of_le hzeroed hnonneg le_rfl
  rw [deliver, Epoll.deliver, Buf.read_eq_some (by omega) (by omega) (by omega), hzeroed,
    Buf.read_eq_some hnonneg hpos.le (by omega), b.wrap_of_range (by omega) (by omega),
    toU32_add_of_range hnonneg (by omega) hpos.le hlen]
  simp only [Option.bind_eq_bind, Option.bind_some]
  rw [Buf.read_eq_some hnonneg hpos.le (by omega), hdata, Option.bind_some, hrestored]
  rfl

/-- A packet with no byte of the buffer behind it is not delivered. -/
theorem deliver_eq_none (hroom : R.val ≤ v.readPos + v.pkgLen) : deliver b s v = none := by
  have hread : s.recvBuf.read (v.readPos + v.pkgLen) 1 = none := by
    rw [Buf.read, if_neg (by omega)]
  rw [deliver, hread]
  rfl

/-- The unguarded part of an iteration is that of the epoll loop. -/
theorem requery_eq_epoll (f : ReadPacket) (hnonneg : 0 ≤ v.readPos)
    (hread : v.readPos ≤ s.recvBufPos) (hle : s.recvBufPos ≤ R.val) :
    requery b f s v = (Epoll.requery f s v).map .ofEpoll := by
  have hR := R.lt_int
  have hpos := b.wrap_of_range (z := s.recvBufPos) (by omega) (by omega)
  have hsub := b.wrap_of_range (z := s.recvBufPos - v.readPos) (by omega) (by omega)
  have hquery : nextQuery b f s v.readPos = Epoll.nextQuery f s v.readPos := by
    rw [nextQuery, Epoll.nextQuery, hpos, toU32_of_range (by omega) (by omega)]
  have hmove : moveLeftover b s v.readPos = Epoll.moveLeftover s v.readPos := by
    rw [moveLeftover, Epoll.moveLeftover, hsub, toU32_of_range (by omega) (by omega),
      toI32_of_range (by omega) (by omega)]
  rw [requery, Epoll.requery, hquery, hmove]
  cases Epoll.nextQuery f s v.readPos with
  | none => rfl
  | some query =>
      cases query with
      | again pkgLen => rfl
      | consumed => rfl
      | leftover =>
          cases Epoll.moveLeftover s v.readPos with
          | none => rfl
          | some moved => cases hterm : Epoll.writeTerminator moved <;> simp [hterm, Flow.ofEpoll]

/-- An iteration that delivers a complete packet with a byte of the buffer behind it is
the iteration of the epoll loop. -/
theorem loopBody_eq_epoll (h : LoopInv f s v) (hpos : 0 < v.pkgLen)
    (hfits : v.readPos + v.pkgLen ≤ s.recvBufPos) (hroom : v.readPos + v.pkgLen < R.val) :
    loopBody b f s v = (Epoll.loopBody f s v).map .ofEpoll := by
  have hnonneg := h.readPos_nonneg
  rcases Epoll.deliver_spec h hpos hfits with ⟨v', hv', hread, -, -⟩
  rw [loopBody, if_pos (fits_of_le h hpos hfits), deliver_eq_epoll h hpos hroom,
    Epoll.loopBody, if_pos ((h.fits_iff hpos).mpr hfits), hv']
  exact requery_eq_epoll f (by omega) (by omega) h.pos_le

/-- A packet that passes the guard with no byte of the buffer behind it overruns it. -/
theorem loopBody_overrun (hguard : fits b s v = true)
    (hroom : R.val ≤ v.readPos + v.pkgLen) : loopBody b f s v = some (.overrun v) := by
  rw [loopBody, if_pos hguard, deliver_eq_none hroom]

/-- When the guard fails the iteration changes nothing. -/
theorem loopBody_spin (h : LoopInv f s v) (hpos : 0 < v.pkgLen)
    (hguard : ¬fits b s v = true) : loopBody b f s v = some (.running s v) := by
  have hfits : ¬v.readPos + v.pkgLen ≤ s.recvBufPos :=
    fun hle => hguard (fits_of_le h hpos hle)
  have hepoll := h.loopBody_spin hpos hfits
  rw [Epoll.loopBody, if_neg (fun hc => hfits ((h.fits_iff hpos).mp hc))] at hepoll
  rw [loopBody, if_neg hguard,
    requery_eq_epoll f h.readPos_nonneg h.readPos_lt.le h.pos_le, hepoll]
  rfl

/-- What holds at each place of a loop that was entered with the buffer of {lit}`s`. -/
def FlowSpec (b : Backend) (f : ReadPacket) (s : Receiver R) : Flow R → Prop
  | .running s' v =>
      s' = s ∧ LoopInv f s v ∧ Boundary (cutOf f) s.contents v.readPos.toNat
  | .done s' calls => Epoll.Conserves s s' calls
  | .overrun v =>
      LoopInv f s v ∧ Boundary (cutOf f) s.contents v.readPos.toNat ∧ 0 < v.pkgLen ∧
        fits b s v = true ∧ R.val ≤ v.readPos + v.pkgLen

/-- One iteration. -/
theorem loopBody_spec (h : LoopInv f s v)
    (hp : Boundary (cutOf f) s.contents v.readPos.toNat) (hpos : 0 < v.pkgLen) :
    ∃ flow, loopBody b f s v = some flow ∧ FlowSpec b f s flow := by
  have hR := R.lt_int
  by_cases hguard : fits b s v = true
  · by_cases hroom : v.readPos + v.pkgLen < R.val
    · have hfits := (fits_iff h hpos (by omega)).mp hguard
      rcases Epoll.loopBody_spec h hpos with ⟨flow, hflow, hspec⟩
      refine ⟨.ofEpoll flow, by rw [loopBody_eq_epoll h hpos hfits hroom, hflow]; rfl, ?_⟩
      rcases h.loopBody_advance hpos hfits with
        ⟨v', hbody, hread, -, hinv⟩ | ⟨-, ended, calls, hbody⟩
      · obtain rfl : flow = .running s v' := by
          rw [hflow] at hbody
          exact Option.some.inj hbody
        refine ⟨rfl, hinv, ?_⟩
        rw [hread]
        exact h.boundary_next hpos hfits hp
      · obtain rfl : flow = .done ended calls := by
          rw [hflow] at hbody
          exact Option.some.inj hbody
        exact hspec
    · exact ⟨_, loopBody_overrun hguard (by omega), h, hp, hpos, hguard, by omega⟩
  · exact ⟨_, loopBody_spin h hpos hguard, rfl, h, hp⟩

/-! ## Many iterations -/

/-- Any number of iterations. -/
theorem loop_spec (fuel : Nat) {flow : Flow R} (hflow : FlowSpec b f s flow) :
    ∃ flow', loop b f fuel flow = some flow' ∧ FlowSpec b f s flow' := by
  induction fuel generalizing flow with
  | zero =>
      cases flow with
      | done s' calls => exact ⟨_, rfl, hflow⟩
      | overrun v => exact ⟨_, rfl, hflow⟩
      | running s' v =>
          rcases hflow with ⟨rfl, hinv, hp⟩
          by_cases hpos : 0 < v.pkgLen
          · exact ⟨_, if_pos hpos, rfl, hinv, hp⟩
          · exact ⟨_, if_neg hpos, hinv.conserves_of_not_entered hpos⟩
  | succ k ih =>
      cases flow with
      | done s' calls => exact ⟨_, rfl, hflow⟩
      | overrun v => exact ⟨_, rfl, hflow⟩
      | running s' v =>
          rcases hflow with ⟨rfl, hinv, hp⟩
          by_cases hpos : 0 < v.pkgLen
          · rcases loopBody_spec hinv hp hpos with ⟨next, hnext, hspec⟩
            rcases ih hspec with ⟨flow', hflow', hspec'⟩
            exact ⟨flow', by rw [loop, if_pos hpos, hnext, Option.bind_some, hflow'], hspec'⟩
          · exact ⟨_, if_neg hpos, hinv.conserves_of_not_entered hpos⟩

/-- One more iteration at the end. -/
theorem loop_succ (k : Nat) (flow : Flow R) :
    loop b f (k + 1) flow = (loop b f k flow).bind (loop b f 1) := by
  induction k generalizing flow with
  | zero =>
      cases flow with
      | done s calls => rfl
      | overrun v => rfl
      | running s v => by_cases hpos : 0 < v.pkgLen <;> simp [loop, hpos]
  | succ k ih =>
      cases flow with
      | done s calls => rfl
      | overrun v => rfl
      | running s v =>
          by_cases hpos : 0 < v.pkgLen
          · rw [loop, if_pos hpos, loop, if_pos hpos, Option.bind_assoc]
            exact congrArg _ (funext ih)
          · rw [loop, if_neg hpos, loop, if_neg hpos]
            rfl

/-- The loop comes to every packet boundary inside the received bytes at which there
seems to be another packet. -/
theorem reaches_boundary (hpos : 1 ≤ s.recvBufPos) (hle : s.recvBufPos ≤ R.val) {p : Nat}
    (hp : Boundary (cutOf f) s.contents p) (hlt : p < s.contents.length)
    (hcut : 0 < cutOf f (s.contents.drop p)) :
    ∃ k v, loop b f k (.running s (.enter f s)) = some (.running s v) ∧ v.readPos = p ∧
      0 < v.pkgLen ∧ LoopInv f s v := by
  have henter := LoopInv.enter f hpos hle
  have hlen := henter.length_contents
  induction hp with
  | start =>
      have hpkg := Epoll.enter_pkgLen_pos hcut
      exact ⟨0, _, if_pos hpkg, rfl, hpkg, henter⟩
  | @next p _ hfound hcomplete ih =>
      rcases ih (by omega) hfound with ⟨k, v, hloop, hread, hpkg, hinv⟩
      have hnext : p + cutOf f (s.contents.drop p) = (v.readPos + v.pkgLen).toNat := by
        have hcutOf := hinv.cutOf_eq
        rw [hread, Int.toNat_natCast] at hcutOf
        omega
      rw [hnext] at hlt hcut ⊢
      rcases hinv.loopBody_next hpkg (by omega) hcut with ⟨v', hbody, hread', hpkg', hinv'⟩
      have hiteration : loopBody b f s v = some (.running s v') := by
        rw [loopBody_eq_epoll hinv hpkg (by omega) (by omega), hbody]
        rfl
      refine ⟨k + 1, v', ?_, by omega, hpkg', hinv'⟩
      rw [loop_succ, hloop, Option.bind_some, loop, if_pos hpkg, hiteration,
        Option.bind_some, loop, if_pos hpkg']

end Backends
end TinyNet

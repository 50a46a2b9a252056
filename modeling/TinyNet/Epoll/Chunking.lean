import TinyNet.Epoll.Conservation
import TinyNet.Library.StreamFraming

/-!
# Framing does not depend on how the stream is cut

For a {lit}`read_packet` whose positive answers depend only on the packet found,
and with no packet longer than the buffer, the packets delivered for a stream and
the leftover in the buffer are those of the greedy parse of the whole stream,
however {lit}`recv` cuts it.

Main results:

- Theorem {lit}`loop_eq_greedy`: the loop of one event ends and is the greedy
  parse of the buffer.
- Theorem {lit}`recvAll_eq_feed`: a sequence of events feeds its chunks to the
  greedy parse one by one.
- Theorem {lit}`recvAll_eq_greedy`: deliveries and leftover are those of the
  one-shot parse of the stream.
-/

namespace TinyNet
namespace Epoll

open Library.FixedBuffer
open Library.MachineInt
open Library.StreamFraming

variable {R : BufferSize}

/-- A well-behaved framing function: at most the data at hand is claimed, a positive
answer depends only on the packet, and a full buffer holds a packet. -/
structure Framing (R : BufferSize) (f : ReadPacket) : Prop where
  le_length : ∀ d, (f d).toInt ≤ d.length
  packet : ∀ d, 0 < (f d).toInt → f (d.take (f d).toInt.toNat) = f d
  extend : ∀ d x, 0 < (f d).toInt → f (d.take (f d).toInt.toNat ++ x) = f d
  full : ∀ d : List UInt8, R.val ≤ d.length → 0 < (f d).toInt

/-- The length of the packet at the front, or zero. -/
def cutOf (f : ReadPacket) (d : List UInt8) : Nat :=
  (f d).toInt.toNat

/-- The arguments of an {lit}`on_recv` call. -/
def Call.args (c : Call) : List UInt8 × Int :=
  (c.data, c.pkgLen)

/-- The arguments with which a packet is delivered. -/
def packetArgs (p : List UInt8) : List UInt8 × Int :=
  (p, p.length)

/-- Handle a sequence of events; no result if a loop does not end. -/
def recvAll (f : ReadPacket) (fuel : Nat) :
    Receiver R → List (List UInt8) → Option (Receiver R × List Call)
  | s, [] => some (s, [])
  | s, chunk :: chunks =>
      match recvEvent f fuel s chunk with
      | some (.done s' calls) =>
          (recvAll f fuel s' chunks).map fun r => (r.1, calls ++ r.2)
      | _ => none

/-- The chunks are possible results of {lit}`recv`, each at its moment. -/
def ValidSplit (f : ReadPacket) : Receiver R → List (List UInt8) → Prop
  | _, [] => True
  | s, chunk :: chunks =>
      RecvResult s chunk ∧ ∀ s' calls, EventEnds f s chunk s' calls → ValidSplit f s' chunks

namespace Framing

variable {f : ReadPacket}

/-- The packet lengths form a prefix-stable framing function. -/
theorem prefixStable (h : Framing R f) : PrefixStable (cutOf f) where
  le_length d := by
    have hle := h.le_length d
    unfold cutOf
    omega
  stable d x hpos := by
    unfold cutOf at hpos ⊢
    rw [h.extend d x (by omega)]

/-- A full buffer holds a packet. -/
theorem cutOf_pos (h : Framing R f) (d : List UInt8) (hd : R.val ≤ d.length) :
    0 < cutOf f d := by
  have hpos := h.full d hd
  unfold cutOf
  omega

end Framing

/-! ## One event -/

/-- The greedy parse from the head of the loop, when a packet is complete: the
slice that the iteration delivers, then the parse from behind it. -/
theorem LoopInv.greedy_eq {f : ReadPacket} {s : Receiver R} {v : LoopVars}
    (h : LoopInv f s v) (hpos : 0 < v.pkgLen)
    (hfits : v.readPos + v.pkgLen ≤ s.recvBufPos) :
    greedy (cutOf f) (s.recvBuf.range v.readPos s.recvBufPos) =
      (s.recvBuf.range v.readPos (v.readPos + v.pkgLen) ::
          (greedy (cutOf f) (s.recvBuf.range (v.readPos + v.pkgLen) s.recvBufPos)).1,
        (greedy (cutOf f) (s.recvBuf.range (v.readPos + v.pkgLen) s.recvBufPos)).2) := by
  have hnonneg := h.readPos_nonneg
  have hlt := h.readPos_lt
  have hle := h.pos_le
  have hcast : (v.pkgLen.toNat : Int) = v.pkgLen := Int.toNat_of_nonneg hpos.le
  have hcut : cutOf f (s.recvBuf.range v.readPos s.recvBufPos) = v.pkgLen.toNat := by
    rw [cutOf, ← h.pkgLen_eq]
  have hlen := Buf.length_range (b := s.recvBuf) hnonneg hlt.le hle
  rw [greedy_of_pos (by omega) (by omega), hcut, Buf.take_range _ (by omega),
    Buf.drop_range _ hnonneg, hcast]

/-- There is no packet in no data. -/
theorem cutOf_nil {f : ReadPacket} (hf : ∀ d, (f d).toInt ≤ d.length) :
    cutOf f [] = 0 := by
  have hnil := hf []
  simp only [List.length_nil] at hnil
  unfold cutOf
  omega

/-- A framing function that claims no more than the data at hand passes the guard. -/
theorem LoopInv.packet_le {f : ReadPacket} (hf : ∀ d, (f d).toInt ≤ d.length)
    {s : Receiver R} {v : LoopVars} (h : LoopInv f s v) :
    v.readPos + v.pkgLen ≤ s.recvBufPos := by
  have hlt := h.readPos_lt
  have hbound := hf (s.recvBuf.range v.readPos s.recvBufPos)
  rw [← h.pkgLen_eq, Buf.length_range h.readPos_nonneg hlt.le h.pos_le] at hbound
  omega

/-- A loop that is not entered leaves over what the greedy parse does. -/
theorem LoopInv.greedy_of_not_entered {f : ReadPacket} {s : Receiver R} {v : LoopVars}
    (h : LoopInv f s v) (hpos : ¬ 0 < v.pkgLen) :
    greedy (cutOf f) (s.recvBuf.range v.readPos s.recvBufPos) = ([], s.contents) := by
  have hstart : v.readPos = 0 := by
    have htiles := h.tiles
    rw [h.not_entered (by omega)] at htiles
    exact htiles.symm
  have hzero : cutOf f (s.recvBuf.range v.readPos s.recvBufPos) = 0 := by
    rw [cutOf, ← h.pkgLen_eq]
    omega
  rw [greedy_of_zero hzero, hstart]
  rfl

/-- Behind a delivery, the loop goes on from its head, or it ends and leaves over what
the greedy parse does. -/
theorem requery_greedy {f : ReadPacket} (hf : ∀ d, (f d).toInt ≤ d.length)
    {s : Receiver R} {v : LoopVars} (hread : 0 < v.readPos)
    (hle : v.readPos ≤ s.recvBufPos) (hpos : s.recvBufPos ≤ R.val)
    (htiles : Tiles s.recvBuf 0 v.readPos v.calls) :
    (∃ v', requery f s v = some (.running s v') ∧ v'.readPos = v.readPos ∧
      v'.calls = v.calls ∧ LoopInv f s v') ∨
    (∃ ended, requery f s v = some (.done ended v.calls) ∧
      greedy (cutOf f) (s.recvBuf.range v.readPos s.recvBufPos) =
        ([], ended.contents)) := by
  rcases requery_cases f hread hle hpos with
    ⟨hlt, hmore, hflow⟩ | ⟨hlt, hnone, ended, hflow, -, hcontents, -⟩ | ⟨hall, hflow⟩
  · left
    exact ⟨_, hflow, rfl, rfl,
      ⟨hpos, hlt, htiles, fun hzero => absurd hzero (not_le.mpr hmore), rfl⟩⟩
  · right
    have hzero : cutOf f (s.recvBuf.range v.readPos s.recvBufPos) = 0 := by
      unfold cutOf
      omega
    exact ⟨ended, hflow, by rw [greedy_of_zero hzero, hcontents]⟩
  · right
    refine ⟨_, hflow, ?_⟩
    rw [hall, Buf.range_self, greedy_of_zero (cutOf_nil hf)]
    simp [Receiver.contents]

/-- With a framing function that claims no more than the data at hand, the loop
ends within as many iterations as there are unparsed bytes, and delivers the
greedy parse of these. -/
theorem loop_eq_greedy {f : ReadPacket} (hf : ∀ d, (f d).toInt ≤ d.length)
    {s : Receiver R} {v : LoopVars} (hinv : LoopInv f s v) {fuel : Nat}
    (hfuel : s.recvBufPos - v.readPos ≤ fuel) :
    ∃ s' new, loop f fuel (.running s v) = some (.done s' (v.calls ++ new)) ∧
      new.map Call.args =
        (greedy (cutOf f) (s.recvBuf.range v.readPos s.recvBufPos)).1.map packetArgs ∧
      s'.contents = (greedy (cutOf f) (s.recvBuf.range v.readPos s.recvBufPos)).2 := by
  induction fuel generalizing v with
  | zero =>
      have hlt := hinv.readPos_lt
      omega
  | succ k ih =>
      have hnonneg := hinv.readPos_nonneg
      have hle := hinv.pos_le
      by_cases hpos : 0 < v.pkgLen
      · have hfits := hinv.packet_le hf
        rcases deliver_spec hinv hpos hfits with ⟨v', hv', hread, hcalls, htiles⟩
        have hloop : loop f (k + 1) (.running s v) = (requery f s v').bind (loop f k) := by
          rw [loop, if_pos hpos, loopBody, if_pos ((hinv.fits_iff hpos).mpr hfits), hv']
          rfl
        let c : Call :=
          ⟨v.readPos, v.pkgLen, s.recvBuf.range v.readPos (v.readPos + v.pkgLen)⟩
        have hargs : packetArgs c.data = c.args := by
          rw [packetArgs, Buf.length_range hnonneg (by omega) (by omega),
            show v.readPos + v.pkgLen - v.readPos = v.pkgLen by omega,
            Int.toNat_of_nonneg hpos.le]
          rfl
        have hgreedy : greedy (cutOf f) (s.recvBuf.range v.readPos s.recvBufPos) =
            (c.data :: (greedy (cutOf f) (s.recvBuf.range v'.readPos s.recvBufPos)).1,
              (greedy (cutOf f) (s.recvBuf.range v'.readPos s.recvBufPos)).2) := by
          rw [hread]
          exact hinv.greedy_eq hpos hfits
        rw [hgreedy, hloop]
        simp only [List.map_cons, hargs]
        rcases requery_greedy hf (by omega) (by omega) hle htiles with
          ⟨v'', hflow, hread', hcalls', hinv'⟩ | ⟨ended, hflow, hleft⟩
        · rcases ih hinv' (by omega) with ⟨s', new, hnew, hmap, hleft⟩
          rw [hread'] at hmap hleft
          refine ⟨s', c :: new, ?_, ?_, hleft⟩
          · rw [hflow, Option.bind_some, hnew]
            simp [hcalls', hcalls, c]
          · rw [List.map_cons, hmap]
        · rw [hleft]
          refine ⟨ended, [c], ?_, rfl, rfl⟩
          rw [hflow, Option.bind_some, hcalls]
          cases k <;> rfl
      · rw [hinv.greedy_of_not_entered hpos]
        refine ⟨s, [], ?_, rfl, rfl⟩
        rw [loop, if_neg hpos, List.append_nil]

/-- An event ends and delivers the greedy parse of the old contents followed by
the received bytes. -/
theorem recvEvent_eq_greedy {f : ReadPacket} (hf : ∀ d, (f d).toInt ≤ d.length)
    {s : Receiver R} (hs : s.InRange) {chunk : List UInt8} (hrecv : RecvResult s chunk)
    {fuel : Nat} (hfuel : R.val ≤ fuel) :
    ∃ s' calls, recvEvent f fuel s chunk = some (.done s' calls) ∧
      calls.map Call.args =
        (greedy (cutOf f) (s.contents ++ chunk)).1.map packetArgs ∧
      s'.contents = (greedy (cutOf f) (s.contents ++ chunk)).2 := by
  rcases recvData_spec f hs hrecv.ne_nil hrecv.2 with
    ⟨s₀, v, hdata, hpos, hcontents, hread, hcalls, hinv⟩
  have hle := hinv.pos_le
  have hbound : s₀.recvBufPos - v.readPos ≤ fuel := by omega
  rcases loop_eq_greedy hf hinv hbound with ⟨s', new, hloop, hmap, hleft⟩
  have hrange : s₀.recvBuf.range v.readPos s₀.recvBufPos = s.contents ++ chunk := by
    rw [hread]
    exact hcontents
  rw [hrange] at hmap hleft
  refine ⟨s', new, ?_, hmap, hleft⟩
  rw [recvEvent, hdata, Option.bind_some, hloop, hcalls, List.nil_append]

/-! ## A stream cut into chunks -/

/-- A sequence of events feeds its chunks to the greedy parse one by one. -/
theorem recvAll_eq_feed {f : ReadPacket} (hf : ∀ d, (f d).toInt ≤ d.length)
    {fuel : Nat} (hfuel : R.val ≤ fuel) {s : Receiver R} (hs : s.InRange)
    {chunks : List (List UInt8)} (hsplit : ValidSplit f s chunks)
    (packets : List (List UInt8)) :
    ∃ s' calls, recvAll f fuel s chunks = some (s', calls) ∧ s'.InRange ∧
      packets.map packetArgs ++ calls.map Call.args =
        (chunks.foldl (feed (cutOf f)) (packets, s.contents)).1.map packetArgs ∧
      s'.contents = (chunks.foldl (feed (cutOf f)) (packets, s.contents)).2 := by
  induction chunks generalizing s packets with
  | nil => exact ⟨s, [], rfl, hs, by simp, rfl⟩
  | cons chunk chunks ih =>
      rcases hsplit with ⟨hrecv, hnext⟩
      rcases recvEvent_eq_greedy hf hs hrecv hfuel with ⟨s₁, calls₁, hevent, hmap, hleft⟩
      have hends : EventEnds f s chunk s₁ calls₁ := ⟨fuel, hevent⟩
      rcases ih (hends.conserves hs hrecv).1 (hnext s₁ calls₁ hends)
        (packets ++ (greedy (cutOf f) (s.contents ++ chunk)).1) with
        ⟨s', calls, hall, hin, hpackets, hcontents⟩
      rw [hleft] at hpackets hcontents
      refine ⟨s', calls₁ ++ calls, ?_, hin, ?_, hcontents⟩
      · simp [recvAll, hevent, hall]
      · rw [List.map_append, hmap, ← List.append_assoc, ← List.map_append]
        exact hpackets

/-- The chunks before some point of a valid split are a valid split. -/
theorem ValidSplit.mono {f : ReadPacket} {s : Receiver R} {pre chunks : List (List UInt8)}
    (h : ValidSplit f s chunks) (hpre : pre <+: chunks) : ValidSplit f s pre := by
  induction pre generalizing s chunks with
  | nil => trivial
  | cons chunk pre ih =>
      rcases hpre with ⟨rest, rfl⟩
      rcases h with ⟨hrecv, hnext⟩
      exact ⟨hrecv, fun s' calls hends => ih (hnext s' calls hends) ⟨rest, rfl⟩⟩

/-- Deliveries, leftover and room after a valid split of a stream, in terms of the
one-shot parse of the stream. -/
theorem recvAll_parse {f : ReadPacket} (hf : Framing R f) (garbage : Buf UInt8 R.val)
    {chunks : List (List UInt8)} (hsplit : ValidSplit f (Receiver.create garbage) chunks)
    {fuel : Nat} (hfuel : R.val ≤ fuel) :
    ∃ s calls, recvAll f fuel (Receiver.create garbage) chunks = some (s, calls) ∧
      calls.map Call.args =
        (greedy (cutOf f) chunks.flatten).1.map packetArgs ∧
      s.contents = (greedy (cutOf f) chunks.flatten).2 ∧
      s.recvBufPos = (greedy (cutOf f) chunks.flatten).2.length ∧ 0 < s.recvSize := by
  have hstable := hf.prefixStable
  have hin : (Receiver.create garbage).InRange := by
    simp [Receiver.InRange, Receiver.create]
  have hempty : (Receiver.create garbage).contents = [] := by
    simp [Receiver.contents, Receiver.create]
  rcases recvAll_eq_feed hf.le_length hfuel hin hsplit [] with
    ⟨s, calls, hall, hs, hmap, hleft⟩
  have hfold : chunks.foldl (feed (cutOf f)) ([], []) =
      greedy (cutOf f) chunks.flatten := by
    rw [← hstable.greedy_nil, hstable.foldl_feed, List.nil_append]
  rw [hempty, hfold] at hmap hleft
  have hlen : s.recvBufPos = (greedy (cutOf f) chunks.flatten).2.length := by
    rw [← hleft, Receiver.contents, Buf.length_range le_rfl hs.1 hs.2]
    have hnonneg := hs.1
    omega
  have hroom := greedy_leftover_lt hstable.le_length hf.cutOf_pos chunks.flatten
  refine ⟨s, calls, hall, by simpa using hmap, hleft, hlen, ?_⟩
  unfold Receiver.recvSize
  omega

/-- Packet framing is independent of how the stream is cut.  For every valid split
of a stream and after each of its events, every loop has ended, the deliveries
and the leftover are those of the greedy parse of the stream so far, and there is
room to receive.  Two splits of one stream give the same deliveries and
leftover. -/
theorem recvAll_eq_greedy (f : ReadPacket) (hf : Framing R f) (garbage : Buf UInt8 R.val)
    (chunks : List (List UInt8)) (hsplit : ValidSplit f (Receiver.create garbage) chunks)
    (fuel : Nat) (hfuel : R.val ≤ fuel) :
    (∀ pre, pre <+: chunks →
      ∃ s calls, recvAll f fuel (Receiver.create garbage) pre = some (s, calls) ∧
        calls.map Call.args = (greedy (cutOf f) pre.flatten).1.map packetArgs ∧
        s.contents = (greedy (cutOf f) pre.flatten).2 ∧
        s.recvBufPos = (greedy (cutOf f) pre.flatten).2.length ∧ 0 < s.recvSize) ∧
    ∀ (garbage' : Buf UInt8 R.val) (chunks' : List (List UInt8)),
      ValidSplit f (Receiver.create garbage') chunks' →
      chunks'.flatten = chunks.flatten →
      ∃ s calls s' calls',
        recvAll f fuel (Receiver.create garbage) chunks = some (s, calls) ∧
        recvAll f fuel (Receiver.create garbage') chunks' = some (s', calls') ∧
        calls'.map Call.args = calls.map Call.args ∧
        s'.contents = s.contents ∧ s'.recvBufPos = s.recvBufPos := by
  constructor
  · intro pre hpre
    exact recvAll_parse hf garbage (hsplit.mono hpre) hfuel
  · intro garbage' chunks' hsplit' hstream
    rcases recvAll_parse hf garbage hsplit hfuel with ⟨s, calls, hall, hmap, hleft, hpos, -⟩
    rcases recvAll_parse hf garbage' hsplit' hfuel with
      ⟨s', calls', hall', hmap', hleft', hpos', -⟩
    refine ⟨s, calls, s', calls', hall, hall', ?_, ?_, ?_⟩
    · rw [hmap', hmap, hstream]
    · rw [hleft', hleft, hstream]
    · rw [hpos', hpos, hstream]

/-! ## Packets of twelve bytes -/

/-- {lit}`TcpSession::read_packet` of {lit}`test/test.cpp`. -/
def tcpSessionReadPacket : ReadPacket :=
  fun d => if d.length < 12 then -1 else 12

theorem toInt_tcpSessionReadPacket (d : List UInt8) :
    (tcpSessionReadPacket d).toInt = if d.length < 12 then -1 else 12 := by
  unfold tcpSessionReadPacket
  split <;> rfl

/-- A packet is found exactly in twelve bytes or more. -/
theorem tcpSessionReadPacket_pos {d : List UInt8}
    (h : 0 < (tcpSessionReadPacket d).toInt) :
    12 ≤ d.length ∧ (tcpSessionReadPacket d).toInt = 12 := by
  rw [toInt_tcpSessionReadPacket] at h ⊢
  split at h
  · omega
  · rename_i hlen
    exact ⟨by omega, if_neg hlen⟩

/-- Packets of a fixed size that fit the buffer satisfy the framing conditions. -/
theorem tcpSession_framing (hR : 12 ≤ R.val) : Framing R tcpSessionReadPacket where
  le_length d := by
    rw [toInt_tcpSessionReadPacket]
    split <;> omega
  packet d hpos := by
    rcases tcpSessionReadPacket_pos hpos with ⟨hlen, hval⟩
    rw [hval]
    simp [tcpSessionReadPacket, hlen]
  extend d x hpos := by
    rcases tcpSessionReadPacket_pos hpos with ⟨hlen, hval⟩
    have hge : ¬ d.length < 12 := by omega
    have hge' : ¬ (d.take 12 ++ x).length < 12 := by
      rw [List.length_append, List.length_take]
      omega
    rw [hval]
    show tcpSessionReadPacket (d.take 12 ++ x) = tcpSessionReadPacket d
    rw [tcpSessionReadPacket, tcpSessionReadPacket, if_neg hge, if_neg hge']
  full d hd := by
    rw [toInt_tcpSessionReadPacket, if_neg (by omega)]
    decide

/-- A buffer of sixteen bytes. -/
def sixteen : BufferSize := ⟨16, by decide, by decide⟩

/-- An uninitialised buffer of sixteen bytes. -/
def blankSixteen : Buf UInt8 sixteen.val := ⟨List.replicate 16 7, rfl⟩

/-- Eight bytes and eight more are a possible split of a stream into a buffer of
sixteen, in which a packet of twelve is cut in two. -/
theorem validSplit_eight_eight :
    ValidSplit tcpSessionReadPacket (Receiver.create blankSixteen)
      [[1, 2, 3, 4, 5, 6, 7, 8], [9, 10, 11, 12, 13, 14, 15, 16]] := by
  have hends : EventEnds tcpSessionReadPacket (Receiver.create blankSixteen)
      [1, 2, 3, 4, 5, 6, 7, 8]
      ⟨⟨[1, 2, 3, 4, 5, 6, 7, 8, 7, 7, 7, 7, 7, 7, 7, 7], rfl⟩, 8⟩ [] :=
    ⟨0, by decide⟩
  refine ⟨⟨by decide, by decide⟩, ?_⟩
  intro s' calls hends'
  rcases hends.unique hends' with ⟨rfl, rfl⟩
  exact ⟨⟨by decide, by decide⟩, fun _ _ _ => trivial⟩

theorem recvAll_eq_greedy_eight_eight :
    ∃ s calls, recvAll tcpSessionReadPacket 16 (Receiver.create blankSixteen)
        [[1, 2, 3, 4, 5, 6, 7, 8], [9, 10, 11, 12, 13, 14, 15, 16]] = some (s, calls) ∧
      calls.map Call.args =
        (greedy (cutOf tcpSessionReadPacket)
          [1, 2, 3, 4, 5, 6, 7, 8, 9, 10, 11, 12, 13, 14, 15, 16]).1.map packetArgs ∧
      0 < s.recvSize := by
  have hmain := (recvAll_eq_greedy tcpSessionReadPacket
    (tcpSession_framing (by decide)) blankSixteen _ validSplit_eight_eight 16
    (by decide)).1 _ List.prefix_rfl
  rcases hmain with ⟨s, calls, hall, hmap, -, -, hroom⟩
  exact ⟨s, calls, hall, hmap, hroom⟩

end Epoll
end TinyNet

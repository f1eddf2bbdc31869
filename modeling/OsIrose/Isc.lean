/-
`CRoseISC::OnReceived`, `rosecommon/src/croseisc.cpp`: the framing of the traffic
between servers.

Nothing is encrypted here, so a header is the first six bytes as they are, and the
length is read straight from the buffer: `packet_size_ = (uint16_t)buffer_[0]`. The
cast widens one `uint8_t`, where the disabled branch of `CRoseSocket::OnReceived` reads
a `uint16_t`. For a packet shorter than 256 bytes the two agree, and the stream is cut
as it should be (`framing_OnReceived`). A longer packet is cut at a length below 256,
and what is queued for it comes out of the part of the buffer that no read has filled
(`Stale`), so the condition is exact.
-/
import OsIrose.Delivery

set_option autoImplicit false

namespace OsIrose.Isc

open ByteMem Crypt Network Runs Delivery

/-- `CRoseISC::OnReceived`. -/
def OnReceived (handlePacket : ℕ → List Byte → Bool) (r : Receiver) : Bool × Receiver :=
  if r.packet_size = 6 then
    -- `packet_size_ = (uint16_t)buffer_[0]`: the second byte of the field is not read
    let r' := { r with packet_size := (r.buffer 0).toNat }
    if r'.packet_size < 6 ∨ MAX_PACKET_SIZE < r'.packet_size then
      (false, r'.reset_internal_buffer)
    else if 6 < r'.packet_size then (true, r')
    else (true, receivePacket handlePacket r')
  else (true, receivePacket handlePacket r)

/-- A packet as another server sends it. -/
structure IscPacket where
  bytes : List Byte
  size_eq : packetSize bytes = bytes.length
  six_le : 6 ≤ bytes.length
  le_max : bytes.length ≤ 2046

/-- The first byte of a short packet is its length. -/
theorem IscPacket.head_of_short (p : IscPacket) (hshort : p.bytes.length < 256) :
    (p.bytes.getD 0 0).toNat = p.bytes.length := by
  have hsize : (p.bytes.getD 0 0).toNat + 256 * (p.bytes.getD 1 0).toNat = p.bytes.length := by
    rw [← p.size_eq, packetSize, sizeField_toNat]
  omega

/-- A buffer that starts with a packet is copied as that packet. -/
theorem copyPacket_of_arrived (p : IscPacket) {b : ℕ → Byte}
    (hb : ∀ j, j < p.bytes.length → b j = p.bytes.getD j 0) : copyPacket b = p.bytes := by
  have h6 := p.six_le
  have hsize : (sizeField b).toNat = p.bytes.length := by
    rw [← p.size_eq, packetSize, sizeField_toNat, sizeField_toNat, hb 0 (by omega),
      hb 1 (by omega)]
  apply List.ext_getElem
  · rw [length_copyPacket, hsize]
  · intro j hj hj'
    simp only [copyPacket, List.getElem_map, List.getElem_range]
    rw [hb j hj', List.getD_eq_getElem _ _ hj']

section

variable (handlePacket : ℕ → List Byte → Bool)

/-- **Short packets are cut as they were sent.** -/
theorem framing_OnReceived :
    Framing handlePacket (OnReceived handlePacket) IscPacket.bytes IscPacket.bytes
      (fun p => p.bytes.length < 256)
      (fun p b => ∀ j, j < 6 → b j = p.bytes.getD j 0) where
  six_le p _ := p.six_le
  le_max p _ := p.le_max.trans (by decide)
  ready_congr := by
    intro p b c hbc hready j hj
    rw [hbc j hj, hready j hj]
  header := by
    intro p r hshort hsize hlt hbuf
    have hhead : (r.buffer 0).toNat = p.bytes.length := by
      rw [hbuf 0 (by omega)]
      exact p.head_of_short hshort
    refine ⟨r.buffer, r.accesses, hbuf, ?_⟩
    unfold OnReceived
    rw [if_pos hsize]
    dsimp only
    rw [hhead, if_neg (by unfold MAX_PACKET_SIZE; omega), if_pos hlt]
  short := by
    intro p r hshort hsize hsix hbuf
    have hhead : (r.buffer 0).toNat = 6 := by
      rw [hbuf 0 (by omega), ← hsix]
      exact p.head_of_short hshort
    refine ⟨r.buffer, r.accesses, 6, ?_, ?_⟩
    · apply copyPacket_of_arrived
      rw [hsix]
      exact hbuf
    · unfold OnReceived
      rw [if_pos hsize]
      dsimp only
      rw [hhead, if_neg (by decide), if_neg (by decide)]
  body := by
    intro p r _ hsize hlt hready hbody
    refine ⟨r.buffer, r.accesses, r.packet_size, ?_, ?_⟩
    · apply copyPacket_of_arrived
      intro j hj
      by_cases h6 : j < 6
      · exact hready j h6
      · exact hbody j (by omega) hj
    · unfold OnReceived
      rw [if_neg (by omega)]

/-! ## Long packets -/

/-- No read fills the buffer from index 255 on, since the length of a read is one byte.
What is copied from there is the content the buffer started with. -/
structure Stale (c : Byte) (r : Receiver) : Prop where
  offset_lt : r.packet_offset < r.packet_size
  size_le : r.packet_size ≤ 255
  buffer : ∀ j, 255 ≤ j → r.buffer j = c
  pushes : ∀ q ∈ r.pushes, ∀ j, 255 ≤ j → j < q.2.length → q.2.getD j 0 = c

theorem Stale.congr {c : Byte} {r r' : Receiver} (hs : SameFrame r r') (h : Stale c r) :
    Stale c r' := by
  obtain ⟨hlt, hle, hbuf, hpush⟩ := h
  refine ⟨?_, ?_, ?_, ?_⟩
  · rw [hs.packet_offset, hs.packet_size]
    exact hlt
  · rw [hs.packet_size]
    exact hle
  · rw [hs.buffer]
    exact hbuf
  · rw [hs.pushes]
    exact hpush

theorem Stale.of_reset {c : Byte} {r : Receiver} (h0 : r.packet_offset = 0)
    (h6 : r.packet_size = 6) (hbuf : ∀ j, 255 ≤ j → r.buffer j = c)
    (hpush : ∀ q ∈ r.pushes, ∀ j, 255 ≤ j → j < q.2.length → q.2.getD j 0 = c) :
    Stale c r :=
  ⟨by omega, by omega, hbuf, hpush⟩

/-- Queueing a packet keeps the buffer and starts over. -/
theorem Stale.receivePacket {c : Byte} {r : Receiver}
    (hbuf : ∀ j, 255 ≤ j → r.buffer j = c)
    (hpush : ∀ q ∈ r.pushes, ∀ j, 255 ≤ j → j < q.2.length → q.2.getD j 0 = c) :
    Stale c (Network.receivePacket handlePacket r) := by
  obtain ⟨hb, -, hp⟩ := receivePacket_frame handlePacket r
  refine Stale.of_reset rfl rfl ?_ ?_
  · rw [hb]
    exact hbuf
  · rw [hp]
    intro q hq j hlo hj
    rcases List.mem_append.mp hq with hold | hnew
    · exact hpush q hold j hlo hj
    · rw [List.mem_singleton.mp hnew] at hj ⊢
      rw [length_copyPacket] at hj
      rw [getD_copyPacket hj]
      exact hbuf j hlo

theorem stale_step {c : Byte} {r r' : Receiver} {e : Completion} (h : Stale c r)
    (hstep : Step (OnReceived handlePacket) r e r') : Stale c r' := by
  obtain ⟨hv, rfl⟩ := hstep
  have hmax : r.packet_size ≤ MAX_PACKET_SIZE := h.size_le.trans (by decide)
  obtain ⟨hoff, hfull, hpart⟩ := transferred_packet_offset hv h.offset_lt.le hmax
  -- a read goes up to `packet_size_`, which one byte gave
  have hle : r.packet_offset + e.bytes.length ≤ 255 := by
    have hsize := h.size_le
    by_cases he : e.errorCode = .success
    · have := hfull he
      omega
    · have := hpart he
      omega
  have hbuf : ∀ j, 255 ≤ j → (r.transferred e).buffer j = c := by
    intro j hj
    dsimp only [Receiver.transferred]
    unfold writeAt
    rw [if_neg (by omega)]
    exact h.buffer j hj
  by_cases he : e.errorCode = .success
  · refine Stale.congr (onRead_success _ he r) ?_
    unfold OnReceived
    have hbyte := ((r.transferred e).buffer 0).isLt
    split
    next hsix =>
      dsimp only
      split
      · exact Stale.of_reset rfl rfl hbuf h.pushes
      · split
        next hlt =>
          have hall := hfull he
          refine ⟨?_, by dsimp only; omega, hbuf, h.pushes⟩
          dsimp only
          have hsix' : r.packet_size = 6 := hsix
          omega
        · exact Stale.receivePacket handlePacket hbuf h.pushes
    · exact Stale.receivePacket handlePacket hbuf h.pushes
  · refine Stale.congr (onRead_of_ne_success _ he r) ?_
    refine ⟨?_, h.size_le, hbuf, h.pushes⟩
    rw [hoff]
    exact hpart he

theorem stale_accepted (c : Byte) : Stale c (accepted fun _ => c) :=
  Stale.of_reset rfl rfl (fun _ _ => rfl) (fun _ h => nomatch h)

/-! ## The stream -/

/-- Every run of the stream that is over has queued exactly the packets `qs`. -/
def Queues (ps qs : List IscPacket) : Prop :=
  ∀ (buffer : ℕ → Byte) (es : List Completion) (r : Receiver),
    Run (Step (OnReceived handlePacket)) (accepted buffer) es r →
    fed es <+: wires IscPacket.bytes ps → Finished IscPacket.bytes ps es r →
    r.pushes.map Prod.snd = qs.map IscPacket.bytes

/-- A long packet is not queued as it was sent from a buffer that differs from its last
byte. -/
theorem length_lt_of_queues {ps qs : List IscPacket} (h : Queues handlePacket ps qs)
    (p : IscPacket) (hp : p ∈ qs) : p.bytes.length < 256 := by
  by_contra hlong
  set c : Byte := ~~~ p.bytes.getD (p.bytes.length - 1) 0 with hc
  have hstep : ∀ r e r', Stale c r → Step (OnReceived handlePacket) r e r' → Stale c r' :=
    fun _ _ _ hr hs => stale_step handlePacket hr hs
  obtain ⟨es, r, hrun, hfed, hfin⟩ := exists_finished_run (stale_accepted c) hstep
    (fun r hr => ⟨hr.offset_lt, hr.size_le.trans (by decide)⟩) (wires IscPacket.bytes ps)
  have hqueued := h _ es r hrun hfed hfin
  have hstale : Stale c r := hrun.state_invariant (stale_accepted c) hstep
  have hmem : p.bytes ∈ r.pushes.map Prod.snd := by
    rw [hqueued]
    exact List.mem_map_of_mem hp
  obtain ⟨q, hq, hqp⟩ := List.mem_map.mp hmem
  have hlast := hstale.pushes q hq (p.bytes.length - 1) (by omega) (by rw [hqp]; omega)
  rw [hqp, hc] at hlast
  -- no byte is its own complement
  have hbit := congrArg (fun b : Byte => b.getLsbD 0) hlast
  simp at hbit

/-- **One length byte.** The packets that `HandlePacket` lets through are queued exactly
as sent if and only if each of them is shorter than 256 bytes; so if it lets all of them
through, the whole sequence is. -/
theorem queues_iff_short (ps : List IscPacket) :
    (Queues handlePacket ps (processed handlePacket IscPacket.bytes ps) ↔
      ∀ p ∈ processed handlePacket IscPacket.bytes ps, p.bytes.length < 256) ∧
    ((∀ i d, handlePacket i d = true) →
      (Queues handlePacket ps ps ↔ ∀ p ∈ ps, p.bytes.length < 256)) := by
  have hiff : Queues handlePacket ps (processed handlePacket IscPacket.bytes ps) ↔
      ∀ p ∈ processed handlePacket IscPacket.bytes ps, p.bytes.length < 256 := by
    constructor
    · intro h p hp
      exact length_lt_of_queues handlePacket h p hp
    · intro hshort buffer es r hrun hfed hfin
      exact (inOrder_of_run (framing_OnReceived handlePacket) hshort buffer hrun hfed).finished
        hfin
  refine ⟨hiff, fun hall => ?_⟩
  have haccept : ∀ i p, accepts handlePacket IscPacket.bytes i p = true :=
    fun i p => hall i p.bytes
  have hself : processed handlePacket IscPacket.bytes ps = ps :=
    throughFirstReject_eq_self haccept 0 ps
  rw [hself] at hiff
  exact hiff

end

/-- The bytes of a packet of 256 bytes. -/
def longBytes : List Byte := 0x00 :: 0x01 :: List.replicate 254 0

theorem length_longBytes : longBytes.length = 256 := by
  rw [longBytes, List.length_cons, List.length_cons, List.length_replicate]

theorem packetSize_longBytes : packetSize longBytes = longBytes.length := by
  rw [packetSize, sizeField_toNat, length_longBytes]
  rfl

theorem longBytes_bounds : 6 ≤ longBytes.length ∧ longBytes.length ≤ 2046 := by
  rw [length_longBytes]
  decide

def longPacket : IscPacket where
  bytes := longBytes
  size_eq := packetSize_longBytes
  six_le := longBytes_bounds.1
  le_max := longBytes_bounds.2

/-- Its length byte is zero, so its header is refused and nothing is queued. -/
theorem not_queues_sample :
    ¬ ∀ (handlePacket : ℕ → List Byte → Bool) (ps : List IscPacket),
      (∀ i d, handlePacket i d = true) → Queues handlePacket ps ps := by
  intro h
  have hq := h (fun _ _ => true) [longPacket] (fun _ _ => rfl)
  have hlt : longBytes.length < 256 :=
    length_lt_of_queues _ hq longPacket (List.mem_singleton.mpr rfl)
  rw [length_longBytes] at hlt
  omega

end OsIrose.Isc

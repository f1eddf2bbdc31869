/-
`CRoseSocket::OnReceived`, `rosecommon/src/crosesocket.cpp`, against any peer.

A packet has three lengths here, and the peer chooses all of them through one header:
`AddBufferLen` is what `recv_data` reads, `AddBufferLen - EncryptValue` in sixteen bits
is what `decodeClientBody` loops to, and the size field it then writes is what is
copied. `encodeClientPacket` always sends `EncryptValue = 0`, so the three agree for an
honest peer; the code checks the first one only.

`Safe` is what the receiver needs of them and `LengthsAgree` is the condition on the
header under which it holds: a run is safe if and only if every step of it meets the
condition.
-/
import OsIrose.Network

set_option autoImplicit false

namespace OsIrose.Socket

open BitLayout ByteMem Crypt Network Runs HeadField

/-! ## `CRoseSocket::OnReceived` -/

/-- The second half of `OnReceived`: the body is decoded in place and the packet is
queued. -/
def receiveBody (codec : PacketCodec) (handlePacket : ℕ → List Byte → Bool)
    (r : Receiver) : Bool × Receiver :=
  let res := (decodeClientBody codec).run ⟨r.buffer, []⟩
  let r' := { r with
    buffer := res.2.bytes
    accesses := r.accesses ++ res.2.log.map (fun i => (r.packet_size, i)) }
  -- a wrong checksum: nothing is queued, the answer closes the connection
  if res.1 = false then (false, r'.reset_internal_buffer)
  else (true, receivePacket handlePacket r')

/-- The receiver after `packet_size_ = decodeClientHeader(buffer_)`. -/
def decodeHeaderOf (codec : PacketCodec) (r : Receiver) : Receiver :=
  let res := (decodeClientHeader codec).run ⟨r.buffer, []⟩
  { r with
    buffer := res.2.bytes
    accesses := r.accesses ++ res.2.log.map (fun i => (r.packet_size, i))
    packet_size := res.1.toNat }

/-- `CRoseSocket::OnReceived`: a `packet_size_` of 6 means that a header has arrived. -/
def OnReceived (codec : PacketCodec) (handlePacket : ℕ → List Byte → Bool)
    (r : Receiver) : Bool × Receiver :=
  if r.packet_size = 6 then
    let r' := decodeHeaderOf codec r
    -- the only check of a length that the peer chose
    if r'.packet_size < 6 ∨ MAX_PACKET_SIZE < r'.packet_size then
      (false, r'.reset_internal_buffer)
    -- a longer packet: the rest of it is read first
    else if 6 < r'.packet_size then (true, r')
    else receiveBody codec handlePacket r'
  else receiveBody codec handlePacket r

/-! ## Safety of the receiver -/

/-- Every byte the decoders used lies inside the `packet_size_` bytes received for the
packet, and every packet queued can be read by its own size field. -/
structure Safe (r : Receiver) : Prop where
  accesses : ∀ a ∈ r.accesses, a.2 < a.1
  pushes : ∀ p ∈ r.pushes, 6 ≤ packetSize p.2 ∧ packetSize p.2 ≤ p.1 ∧
    p.1 ≤ MAX_PACKET_SIZE ∧ p.2.length = packetSize p.2

/-- `head.AddBufferLen`. -/
def headLen (head : HeadBits) : ℕ := (Head.get .AddBufferLen head).toNat

/-- `head.EncryptValue`. -/
def headEncrypt (head : HeadBits) : ℕ := (Head.get .EncryptValue head).toNat

/-- The bytes `decodeClientBody` is called on when the read `c` succeeds, if it is. -/
def bodyBytes (codec : PacketCodec) (r : Receiver) (c : Completion) : ℕ → Byte :=
  let r' := r.transferred c
  if r.packet_size = 6 then (decodeHeaderOf codec r').buffer else r'.buffer

/-- The header of the packet these bytes belong to. -/
def bodyHead (codec : PacketCodec) (r : Receiver) (c : Completion) : HeadBits :=
  wordLE (bodyBytes codec r c) 5 0

/-- **The condition on the header.** When the bytes of `c` complete a packet,
`EncryptValue` does not exceed `AddBufferLen`, and unless the checksum fails it leaves
the six bytes of the header. -/
def LengthsAgree (codec : PacketCodec) (r : Receiver) (c : Completion) : Prop :=
  c.errorCode = .success → (r.packet_size = 6 → headLen (bodyHead codec r c) = 6) →
    headEncrypt (bodyHead codec r c) ≤ headLen (bodyHead codec r c) ∧
      (checksumOk codec clientBufLen (bodyBytes codec r c) →
        headEncrypt (bodyHead codec r c) + 6 ≤ headLen (bodyHead codec r c))

theorem headLen_lt (head : HeadBits) : headLen head < 2048 :=
  (Head.get .AddBufferLen head).isLt

theorem headEncrypt_lt (head : HeadBits) : headEncrypt head < 8 :=
  (Head.get .EncryptValue head).isLt

/-- The length of the client body decoder wraps below zero. -/
theorem clientBufLen_toNat (head : HeadBits) :
    (clientBufLen head).toNat = (65536 - headEncrypt head + headLen head) % 65536 := by
  have hl := headLen_lt head
  have he := headEncrypt_lt head
  have hl16 : headLen head % 65536 = headLen head := Nat.mod_eq_of_lt (by omega)
  have he16 : headEncrypt head % 65536 = headEncrypt head := Nat.mod_eq_of_lt (by omega)
  have hsub : (clientBufLen head).toNat
      = (65536 - headEncrypt head % 65536 + headLen head % 65536) % 65536 := by
    unfold clientBufLen headEncrypt headLen
    rw [BitVec.toNat_sub, BitVec.toNat_setWidth, BitVec.toNat_setWidth]
  rw [hsub, hl16, he16]

/-- The body decoder stays inside the packet exactly when `EncryptValue` does not
exceed the length, and leaves the header exactly when six bytes remain. -/
theorem clientBufLen_le_iff (head : HeadBits) (h6 : 6 ≤ headLen head) :
    ((clientBufLen head).toNat ≤ headLen head ↔ headEncrypt head ≤ headLen head) ∧
      (headEncrypt head ≤ headLen head →
        (6 ≤ (clientBufLen head).toNat ↔ headEncrypt head + 6 ≤ headLen head)) := by
  have hl := headLen_lt head
  have he := headEncrypt_lt head
  rw [clientBufLen_toNat]
  omega

/-! ## What one call does to the ghost state -/

/-- A decoder's log is recorded with the size of the packet it worked on. -/
theorem mem_record (accesses : List (ℕ × ℕ)) (size : ℕ) (log : List ℕ) (a : ℕ × ℕ) :
    a ∈ accesses ++ log.map (fun i => (size, i)) ↔ a ∈ accesses ∨ a.1 = size ∧ a.2 ∈ log := by
  rw [List.mem_append, List.mem_map]
  refine or_congr_right ⟨?_, ?_⟩
  · rintro ⟨i, hi, rfl⟩
    exact ⟨rfl, hi⟩
  · rintro ⟨hsize, hlog⟩
    exact ⟨a.2, hlog, by rw [← hsize]⟩

section

variable (codec : PacketCodec) (handlePacket : ℕ → List Byte → Bool) (r : Receiver)

/-- The body decoder uses the header and the body up to its own length. -/
theorem mem_receiveBody_accesses (a : ℕ × ℕ) :
    a ∈ (receiveBody codec handlePacket r).2.accesses ↔
      a ∈ r.accesses ∨ a.1 = r.packet_size ∧
        (a.2 < 6 ∨ a.2 < (clientBufLen (wordLE r.buffer 5 0)).toNat) := by
  have hacc : (receiveBody codec handlePacket r).2.accesses
      = r.accesses ++ ((decodeClientBody codec).run ⟨r.buffer, []⟩).2.log.map
          (fun i => (r.packet_size, i)) := by
    unfold receiveBody
    dsimp only
    split
    · rfl
    · exact (receivePacket_frame handlePacket _).2.1
  have hlog : a.2 ∈ ((decodeClientBody codec).run ⟨r.buffer, []⟩).2.log ↔ _ :=
    mem_log_decodeBody codec ⟨r.buffer, []⟩ clientBufLen a.2
  simp only [List.not_mem_nil, false_or] at hlog
  rw [hacc, mem_record, ← hlog]

/-- `receiveBody` returns to the start of a packet in every case. -/
theorem receiveBody_reset :
    (receiveBody codec handlePacket r).2.packet_offset = 0 ∧
      (receiveBody codec handlePacket r).2.packet_size = 6 := by
  unfold receiveBody
  dsimp only
  split
  · exact ⟨rfl, rfl⟩
  · exact ⟨rfl, rfl⟩

/-- A packet whose checksum is wrong is not queued, and the connection is closed. -/
theorem receiveBody_of_not (hok : ¬ checksumOk codec clientBufLen r.buffer) :
    (receiveBody codec handlePacket r).1 = false ∧
      (receiveBody codec handlePacket r).2.reading = r.reading ∧
      (receiveBody codec handlePacket r).2.pushes = r.pushes := by
  have hfst := (decodeBody_spec codec ⟨r.buffer, []⟩ clientBufLen).1
  rw [decide_eq_false hok] at hfst
  unfold receiveBody decodeClientBody
  dsimp only
  rw [if_pos hfst]
  exact ⟨rfl, rfl, rfl⟩

/-- A packet whose checksum is right is queued with the length and the command that the body
decoder wrote. -/
theorem receiveBody_copyPacket (hok : checksumOk codec clientBufLen r.buffer) :
    ∃ b, sizeField b = clientBufLen (wordLE r.buffer 5 0) ∧
      commandField b = (Head.get .Command (wordLE r.buffer 5 0)).setWidth 16 ∧
      (receiveBody codec handlePacket r).2.pushes =
        r.pushes ++ [(r.packet_size, copyPacket b)] := by
  obtain ⟨hfst, -, hwords⟩ := decodeBody_spec codec ⟨r.buffer, []⟩ clientBufLen
  rw [decide_eq_true hok] at hfst
  refine ⟨((decodeBody clientBufLen codec).run ⟨r.buffer, []⟩).2.bytes, (hwords hok).1,
    (hwords hok).2, ?_⟩
  unfold receiveBody decodeClientBody
  dsimp only
  rw [if_neg (by rw [hfst]; decide)]
  exact (receivePacket_frame handlePacket _).2.2

theorem receiveBody_pushes (hok : checksumOk codec clientBufLen r.buffer) :
    ∃ p, packetSize p = (clientBufLen (wordLE r.buffer 5 0)).toNat ∧
      p.length = packetSize p ∧
      (receiveBody codec handlePacket r).2.pushes = r.pushes ++ [(r.packet_size, p)] := by
  obtain ⟨b, hsize, -, hpushes⟩ := receiveBody_copyPacket codec handlePacket r hok
  refine ⟨copyPacket b, ?_, ?_, hpushes⟩
  · rw [packetSize_copyPacket, hsize]
  · rw [packetSize_copyPacket, length_copyPacket]

/-- The header decoder uses the five header bytes. -/
theorem mem_decodeHeaderOf_accesses (a : ℕ × ℕ) :
    a ∈ (decodeHeaderOf codec r).accesses
      ↔ a ∈ r.accesses ∨ a.1 = r.packet_size ∧ a.2 < 5 := by
  have hlog := mem_log_decodeHeader codec ⟨r.buffer, []⟩ HeadCryptedClient a.2
  simp only [List.not_mem_nil, false_or] at hlog
  unfold decodeHeaderOf decodeClientHeader
  dsimp only
  rw [mem_record, ← hlog]

theorem decodeHeaderOf_packet_offset :
    (decodeHeaderOf codec r).packet_offset = r.packet_offset := by
  unfold decodeHeaderOf
  dsimp only

theorem decodeHeaderOf_reading : (decodeHeaderOf codec r).reading = r.reading := by
  unfold decodeHeaderOf
  dsimp only

theorem decodeHeaderOf_pushes : (decodeHeaderOf codec r).pushes = r.pushes := by
  unfold decodeHeaderOf
  dsimp only

/-- `packet_size_` becomes the length in the decoded header. -/
theorem decodeHeaderOf_packet_size :
    (decodeHeaderOf codec r).packet_size
      = headLen (wordLE (decodeHeaderOf codec r).buffer 5 0) := by
  obtain ⟨hfst, hword, -⟩ := decodeHeader_spec codec ⟨r.buffer, []⟩ HeadCryptedClient
  unfold decodeHeaderOf decodeClientHeader
  dsimp only
  rw [hfst, hword, headLen]
  exact BitVec.toNat_setWidth_of_le (by decide)

/-- **The four ways through `OnReceived`**: a body, a header out of range, the header of
a longer packet, a packet of six bytes. The upper bound never rejects a header, eleven
bits do not exceed it. -/
theorem OnReceived_cases :
    (r.packet_size ≠ 6 ∧
        OnReceived codec handlePacket r = receiveBody codec handlePacket r) ∨
      (r.packet_size = 6 ∧ (decodeHeaderOf codec r).packet_size < 6 ∧
        OnReceived codec handlePacket r
          = (false, (decodeHeaderOf codec r).reset_internal_buffer)) ∨
      (r.packet_size = 6 ∧ 6 < (decodeHeaderOf codec r).packet_size ∧
        OnReceived codec handlePacket r = (true, decodeHeaderOf codec r)) ∨
      (r.packet_size = 6 ∧ (decodeHeaderOf codec r).packet_size = 6 ∧
        OnReceived codec handlePacket r
          = receiveBody codec handlePacket (decodeHeaderOf codec r)) := by
  have hmax : (decodeHeaderOf codec r).packet_size ≤ MAX_PACKET_SIZE := by
    have hlt := headLen_lt (wordLE (decodeHeaderOf codec r).buffer 5 0)
    rw [decodeHeaderOf_packet_size]
    exact Nat.le_of_lt_succ hlt
  unfold OnReceived
  by_cases h6 : r.packet_size = 6
  · right
    rw [if_pos h6]
    dsimp only
    rcases Nat.lt_trichotomy (decodeHeaderOf codec r).packet_size 6 with hlt | heq | hgt
    · left
      rw [if_pos (Or.inl hlt)]
      exact ⟨h6, hlt, rfl⟩
    · right
      right
      rw [if_neg (by omega), if_neg (by omega)]
      exact ⟨h6, heq, rfl⟩
    · right
      left
      rw [if_neg (by omega), if_pos hgt]
      exact ⟨h6, hgt, rfl⟩
  · left
    rw [if_neg h6]
    exact ⟨h6, rfl⟩

/-- **The body decoder is safe exactly when the three lengths agree.** -/
theorem safe_receiveBody_iff (hs : Safe r) (h6 : 6 ≤ r.packet_size)
    (hlen : r.packet_size = headLen (wordLE r.buffer 5 0)) :
    Safe (receiveBody codec handlePacket r).2 ↔
      headEncrypt (wordLE r.buffer 5 0) ≤ headLen (wordLE r.buffer 5 0) ∧
        (checksumOk codec clientBufLen r.buffer →
          headEncrypt (wordLE r.buffer 5 0) + 6 ≤ headLen (wordLE r.buffer 5 0)) := by
  have hmax : r.packet_size ≤ MAX_PACKET_SIZE := by
    have := headLen_lt (wordLE r.buffer 5 0)
    unfold MAX_PACKET_SIZE
    omega
  obtain ⟨hle, hge⟩ := clientBufLen_le_iff (wordLE r.buffer 5 0) (by omega)
  have hmem := mem_receiveBody_accesses codec handlePacket r
  constructor
  · rintro ⟨hacc, hpush⟩
    have hbody : (clientBufLen (wordLE r.buffer 5 0)).toNat ≤ r.packet_size := by
      by_contra hlt
      -- the last body byte is then outside the packet
      have hout := hacc (r.packet_size, (clientBufLen (wordLE r.buffer 5 0)).toNat - 1)
        ((hmem _).mpr (Or.inr ⟨rfl, Or.inr (by dsimp only; omega)⟩))
      dsimp only at hout
      omega
    have henc := hle.mp (by omega)
    refine ⟨henc, fun hok => (hge henc).mp ?_⟩
    obtain ⟨p, hp, -, happ⟩ := receiveBody_pushes codec handlePacket r hok
    have hlast := (hpush (r.packet_size, p) (by rw [happ]; simp)).1
    dsimp only at hlast
    omega
  · rintro ⟨henc, hchk⟩
    have hbody := hle.mpr henc
    constructor
    · intro a ha
      rcases (hmem a).mp ha with hold | ⟨h1, h2⟩
      · exact hs.accesses a hold
      · omega
    · by_cases hok : checksumOk codec clientBufLen r.buffer
      · obtain ⟨p, hp, hplen, happ⟩ := receiveBody_pushes codec handlePacket r hok
        have hmin := (hge henc).mpr (hchk hok)
        rw [happ]
        intro q hq
        rcases List.mem_append.mp hq with hold | hnew
        · exact hs.pushes q hold
        · have hq' : q = (r.packet_size, p) := List.mem_singleton.mp hnew
          rw [hq']
          dsimp only
          exact ⟨by omega, by omega, hmax, hplen⟩
      · rw [(receiveBody_of_not codec handlePacket r hok).2.2]
        exact hs.pushes

/-- What was recorded stays recorded. -/
theorem ghost_OnReceived :
    r.accesses ⊆ (OnReceived codec handlePacket r).2.accesses ∧
      r.pushes <+: (OnReceived codec handlePacket r).2.pushes := by
  -- the two decoders apart, then the ways through `OnReceived`
  have hbody : ∀ r : Receiver, r.accesses ⊆ (receiveBody codec handlePacket r).2.accesses ∧
      r.pushes <+: (receiveBody codec handlePacket r).2.pushes := by
    intro r
    refine ⟨fun a ha => (mem_receiveBody_accesses codec handlePacket r a).mpr (Or.inl ha), ?_⟩
    by_cases hok : checksumOk codec clientBufLen r.buffer
    · obtain ⟨p, -, -, happ⟩ := receiveBody_pushes codec handlePacket r hok
      rw [happ]
      exact List.prefix_append _ _
    · rw [(receiveBody_of_not codec handlePacket r hok).2.2]
  have hheader : r.accesses ⊆ (decodeHeaderOf codec r).accesses ∧
      r.pushes <+: (decodeHeaderOf codec r).pushes := by
    rw [decodeHeaderOf_pushes]
    exact ⟨fun a ha => (mem_decodeHeaderOf_accesses codec r a).mpr (Or.inl ha),
      List.prefix_rfl⟩
  rcases OnReceived_cases codec handlePacket r with
    ⟨-, heq⟩ | ⟨-, -, heq⟩ | ⟨-, -, heq⟩ | ⟨-, -, heq⟩
  · rw [heq]
    exact hbody r
  · rw [heq]
    dsimp only [Receiver.reset_internal_buffer]
    exact hheader
  · rw [heq]
    exact hheader
  · rw [heq]
    obtain ⟨ha, hp⟩ := hbody (decodeHeaderOf codec r)
    exact ⟨List.Subset.trans hheader.1 ha, hheader.2.trans hp⟩

end

/-! ## Runs -/

section

variable {codec : PacketCodec} {handlePacket : ℕ → List Byte → Bool}

/-- The receiver between two reads: a `packet_size_` other than 6 is the length in the
decoded header, whose bytes the reads of the body leave alone. -/
structure Framed (r : Receiver) : Prop where
  offset_le : r.packet_offset ≤ r.packet_size
  six_le : 6 ≤ r.packet_size
  le_max : r.packet_size ≤ MAX_PACKET_SIZE
  body : r.packet_size ≠ 6 →
    6 ≤ r.packet_offset ∧ r.packet_size = headLen (wordLE r.buffer 5 0)

theorem Framed.congr {r r' : Receiver} (h : SameFrame r r') (hr : Framed r) : Framed r' := by
  obtain ⟨hoff, h6, hmax, hbody⟩ := hr
  constructor
  · rw [h.packet_offset, h.packet_size]
    exact hoff
  · rw [h.packet_size]
    exact h6
  · rw [h.packet_size]
    exact hmax
  · rw [h.packet_offset, h.packet_size, h.buffer]
    exact hbody

/-- The start of a packet, whatever the buffer holds. -/
theorem Framed.of_reset {r : Receiver} (h0 : r.packet_offset = 0) (h6 : r.packet_size = 6) :
    Framed r := by
  constructor
  · omega
  · omega
  · rw [h6]
    decide
  · intro h
    exact absurd h6 h

theorem Safe.congr {r r' : Receiver} (h : SameFrame r r') : Safe r' ↔ Safe r := by
  constructor
  · rintro ⟨hacc, hpush⟩
    rw [h.accesses] at hacc
    rw [h.pushes] at hpush
    exact ⟨hacc, hpush⟩
  · rintro ⟨hacc, hpush⟩
    rw [← h.accesses] at hacc
    rw [← h.pushes] at hpush
    exact ⟨hacc, hpush⟩

/-- The bytes of a body arrive behind the header. -/
theorem transferred_header {r : Receiver} (h6 : 6 ≤ r.packet_offset) (c : Completion) :
    wordLE (r.transferred c).buffer 5 0 = wordLE r.buffer 5 0 := by
  apply wordLE_congr
  intro k hk
  exact writeAt_of_lt (by omega)

/-- A read keeps `Framed` as long as it is not complete. -/
theorem Framed.transferred {r : Receiver} {c : Completion} (hr : Framed r) (hv : c.Valid r) :
    (r.transferred c).packet_offset = r.packet_offset + c.bytes.length ∧
      Framed (r.transferred c) := by
  obtain ⟨hoff, hfull, hpart⟩ := transferred_packet_offset hv hr.offset_le hr.le_max
  have hle : r.packet_offset + c.bytes.length ≤ r.packet_size := by
    by_cases hs : c.errorCode = .success
    · exact (hfull hs).le
    · exact (hpart hs).le
  refine ⟨hoff, ⟨by rw [hoff]; exact hle, hr.six_le, hr.le_max, fun hne => ?_⟩⟩
  obtain ⟨h6, hbody⟩ := hr.body hne
  rw [transferred_header h6 c, hoff]
  exact ⟨by omega, hbody⟩

/-- The state after `OnReceived` is framed when all of `packet_size_` has arrived. -/
theorem framed_OnReceived {r : Receiver} (hfull : r.packet_offset = r.packet_size) :
    Framed (OnReceived codec handlePacket r).2 := by
  have hbody : ∀ r : Receiver, Framed (receiveBody codec handlePacket r).2 := by
    intro r
    obtain ⟨h0, h6⟩ := receiveBody_reset codec handlePacket r
    exact Framed.of_reset h0 h6
  rcases OnReceived_cases codec handlePacket r with
    ⟨-, heq⟩ | ⟨-, -, heq⟩ | ⟨h6, hlt, heq⟩ | ⟨-, -, heq⟩
  · rw [heq]
    exact hbody r
  · rw [heq]
    exact Framed.of_reset rfl rfl
  · -- the header of a longer packet: it stays in the buffer, and its length is `packet_size_`
    have hlen := decodeHeaderOf_packet_size codec r
    have hoff := decodeHeaderOf_packet_offset codec r
    have hmax := headLen_lt (wordLE (decodeHeaderOf codec r).buffer 5 0)
    have hM : MAX_PACKET_SIZE = 2047 := rfl
    rw [heq]
    dsimp only
    exact ⟨by omega, by omega, by omega, fun _ => ⟨by omega, hlen⟩⟩
  · rw [heq]
    exact hbody _

theorem framed_step {r r' : Receiver} {c : Completion} (hr : Framed r)
    (h : Step (OnReceived codec handlePacket) r c r') : Framed r' := by
  obtain ⟨hv, rfl⟩ := h
  obtain ⟨hoff, hfr⟩ := hr.transferred hv
  by_cases hs : c.errorCode = .success
  · have hfull := (transferred_packet_offset hv hr.offset_le hr.le_max).2.1 hs
    have hall : (r.transferred c).packet_offset = (r.transferred c).packet_size := by
      rw [hoff, hfull]
      rfl
    exact (framed_OnReceived hall).congr (onRead_success _ hs r)
  · exact hfr.congr (onRead_of_ne_success _ hs r)

/-- **One read is safe exactly when the lengths in the header agree.** -/
theorem safe_step_iff {r r' : Receiver} {c : Completion} (hr : Framed r) (hs : Safe r)
    (h : Step (OnReceived codec handlePacket) r c r') : Safe r' ↔ LengthsAgree codec r c := by
  obtain ⟨hv, rfl⟩ := h
  obtain ⟨-, hfr⟩ := hr.transferred hv
  have hst : Safe (r.transferred c) := ⟨hs.accesses, hs.pushes⟩
  by_cases hcode : c.errorCode = .success
  · rw [Safe.congr (onRead_success _ hcode r)]
    set r₁ := r.transferred c with hr₁
    have hsize₁ : r₁.packet_size = r.packet_size := rfl
    have hlen := decodeHeaderOf_packet_size codec r₁
    -- the header decoder itself is safe whatever it reads
    have hheader : r₁.packet_size = 6 → Safe (decodeHeaderOf codec r₁) := by
      intro h6
      constructor
      · intro a ha
        rcases (mem_decodeHeaderOf_accesses codec r₁ a).mp ha with hold | ⟨h1, h2⟩
        · exact hst.accesses a hold
        · omega
      · rw [decodeHeaderOf_pushes]
        exact hst.pushes
    have hbytes₆ : r₁.packet_size = 6 → bodyBytes codec r c = (decodeHeaderOf codec r₁).buffer :=
      fun h6 => if_pos h6
    unfold LengthsAgree bodyHead
    rcases OnReceived_cases codec handlePacket r₁ with
      ⟨hne, heq⟩ | ⟨h6, hlt, heq⟩ | ⟨h6, hlt, heq⟩ | ⟨h6, hlen6, heq⟩
    · -- the body of a longer packet, whose header came with an earlier read
      have hbytes : bodyBytes codec r c = r₁.buffer := if_neg hne
      rw [heq, safe_receiveBody_iff codec handlePacket r₁ hst hfr.six_le (hfr.body hne).2,
        hbytes]
      constructor
      · intro h _ _
        exact h
      · intro h
        exact h hcode (fun h6 => absurd h6 hne)
    -- in the next two cases the body decoder does not run
    · rw [heq, hbytes₆ h6]
      constructor
      · intro _ _ h
        have hsix := h h6
        omega
      · intro _
        exact ⟨(hheader h6).accesses, (hheader h6).pushes⟩
    · rw [heq, hbytes₆ h6]
      constructor
      · intro _ _ h
        have hsix := h h6
        omega
      · intro _
        exact hheader h6
    · rw [heq, safe_receiveBody_iff codec handlePacket _ (hheader h6) (by omega) hlen,
        hbytes₆ h6]
      constructor
      · intro h _ _
        exact h
      · intro h
        exact h hcode (fun _ => by omega)
  · rw [Safe.congr (onRead_of_ne_success _ hcode r)]
    constructor
    · intro _ hc
      exact absurd hc hcode
    · intro _
      exact hst

/-- A violation stays a violation. -/
theorem safe_of_step {r r' : Receiver} {c : Completion}
    (h : Step (OnReceived codec handlePacket) r c r') (hs : Safe r') : Safe r := by
  obtain ⟨-, rfl⟩ := h
  by_cases hcode : c.errorCode = .success
  · rw [Safe.congr (onRead_success _ hcode r)] at hs
    obtain ⟨hacc, hpush⟩ := ghost_OnReceived codec handlePacket (r.transferred c)
    exact ⟨fun a ha => hs.accesses a (hacc ha), fun p hp => hs.pushes p (hpush.subset hp)⟩
  · rw [Safe.congr (onRead_of_ne_success _ hcode r)] at hs
    exact ⟨hs.accesses, hs.pushes⟩

theorem safe_accepted (buffer : ℕ → Byte) : Safe (accepted buffer) := ⟨nofun, nofun⟩

theorem framed_accepted (buffer : ℕ → Byte) : Framed (accepted buffer) :=
  Framed.of_reset rfl rfl

/-- **The receiver is safe exactly as long as the lengths in the headers agree.** Along
a run of one connection, from any content of the buffer and against any peer. -/
theorem safe_iff_lengthsAgree (buffer : ℕ → Byte) {es : List Completion} {r : Receiver}
    (h : Run (Step (OnReceived codec handlePacket)) (accepted buffer) es r) :
    Safe r ↔ Run (Guarded (LengthsAgree codec) (Step (OnReceived codec handlePacket)))
      (accepted buffer) es r := by
  have hinv : ∀ s c s', Framed s → Step (OnReceived codec handlePacket) s c s' →
      Framed s' := fun _ _ _ hr hstep => framed_step hr hstep
  have hback : ∀ s c s', Framed s → Step (OnReceived codec handlePacket) s c s' →
      Safe s' → Safe s := fun _ _ _ _ hstep hs => safe_of_step hstep hs
  have hguard : ∀ s c s', Framed s → Safe s → Step (OnReceived codec handlePacket) s c s' →
      (Safe s' ↔ LengthsAgree codec s c) :=
    fun _ _ _ hr hs hstep => safe_step_iff hr hs hstep
  exact run_guarded_iff hinv hback hguard (framed_accepted buffer) (safe_accepted buffer) h

end

/-- The first three bytes of a header, and no more yet. -/
theorem safe_iff_lengthsAgree_sample :
    let codec : PacketCodec := ⟨fun _ _ => 0⟩
    let step := Step (OnReceived codec (fun _ _ => true))
    let c : Completion := ⟨[0x80, 0x81, 0x03], .try_again⟩
    let r := onRead (OnReceived codec (fun _ _ => true)) c (accepted fun _ => 0)
    Safe r ↔ Run (Guarded (LengthsAgree codec) step) (accepted fun _ => 0) [c] r :=
  safe_iff_lengthsAgree _ (Run.snoc Run.nil ⟨⟨rfl, by decide⟩, rfl⟩)

/-- A header with `AddBufferLen = 6` and `EncryptValue = 7`: the body decoder then runs
over 65535 bytes. -/
theorem not_safe_sample :
    ¬ ∀ (codec : PacketCodec) (handlePacket : ℕ → List Byte → Bool) (buffer : ℕ → Byte)
        (es : List Completion) (r : Receiver),
        Run (Step (OnReceived codec handlePacket)) (accepted buffer) es r → Safe r := by
  intro h
  let codec : PacketCodec := ⟨fun _ _ => 0⟩
  let c : Completion := ⟨[0x80, 0x81, 0x03, 0x00, 0x00, 0x00], .success⟩
  have hstep : Step (OnReceived codec (fun _ _ => true)) (accepted fun _ => 0) c
      (onRead (OnReceived codec (fun _ _ => true)) c (accepted fun _ => 0)) :=
    ⟨⟨rfl, by decide⟩, rfl⟩
  have hsafe := h _ _ _ _ _ (Run.snoc Run.nil hstep)
  have hagree := (safe_step_iff (framed_accepted _) (safe_accepted _) hstep).mp hsafe
  have hlen : headLen (bodyHead codec (accepted fun _ => 0) c) = 6 := by decide +kernel
  have henc : headEncrypt (bodyHead codec (accepted fun _ => 0) c) = 7 := by decide +kernel
  have hle := (hagree rfl (fun _ => hlen)).1
  omega

end OsIrose.Socket

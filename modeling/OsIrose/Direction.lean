/-
`CRoseSocket::OnReceived` and `CRoseSocket::OnServerReceived`,
`rosecommon/src/crosesocket.cpp`.

The two functions are one text that calls the decoders of one direction of the codec or of the
other, so they are one function of a `Direction` here. A direction says which layout the header
has on the wire and how long a body its decoder takes the packet to be; that an encoder and a
decoder of one direction fit is its last field, and it is all that `framing_OnReceived` needs:
the function cuts the packets that the encoder of its own direction sent.

What arrives is the packet up to bytes 4 and 5, where the codec leaves the end of the
header and the checksum.
-/
import OsIrose.Delivery

set_option autoImplicit false

namespace OsIrose.Socket

open BitLayout ByteMem Crypt Network Delivery

/-! ## Directions -/

/-- One direction of the codec: what its encoder writes and its body decoder takes for the
length, which for an encoded packet is the size field. -/
structure Direction where
  layout : Layout HeadField.width (8 * 5)
  encryptValue : BitVec HeadPart.EncryptValue.width
  bufLen : HeadBits → BitVec 16
  bufLen_packetHead : ∀ m : Mem, WellSized m.bytes →
    bufLen (packetHead encryptValue m) = sizeField m.bytes

/-- `encodeServerPacket`, `decodeServerHeader`, `decodeServerBody`. -/
def Direction.server : Direction where
  layout := HeadCryptedServer
  encryptValue := BitVec.ofNat _ (0x100 + 0x04)
  bufLen := serverBufLen
  bufLen_packetHead := fun _ hm => serverBufLen_packetHead hm.size_le

/-- `encodeClientPacket`, `decodeClientHeader`, `decodeClientBody`. -/
def Direction.client : Direction where
  layout := HeadCryptedClient
  encryptValue := 0
  bufLen := clientBufLen
  bufLen_packetHead := fun _ hm => clientBufLen_packetHead hm.size_le

namespace Direction

variable (d : Direction) (codec : PacketCodec)

/-! ## The receiver -/

/-- The second half of `OnReceived`: the body is decoded in place and the packet is
queued. -/
def receiveBody (handlePacket : ℕ → List Byte → Bool) (r : Receiver) : Bool × Receiver :=
  let res := (decodeBody d.bufLen codec).run ⟨r.buffer, []⟩
  let r' := { r with
    buffer := res.2.bytes
    accesses := r.accesses ++ res.2.log.map (fun i => (r.packet_size, i)) }
  if res.1 = false then (false, r'.reset_internal_buffer)
  else (true, receivePacket handlePacket r')

/-- The receiver after its header has been decoded. -/
def decodeHeaderOf (r : Receiver) : Receiver :=
  let res := (decodeHeader d.layout codec).run ⟨r.buffer, []⟩
  { r with
    buffer := res.2.bytes
    accesses := r.accesses ++ res.2.log.map (fun i => (r.packet_size, i))
    packet_size := res.1.toNat }

/-- `OnReceived`, `OnServerReceived`. -/
def OnReceived (handlePacket : ℕ → List Byte → Bool) (r : Receiver) : Bool × Receiver :=
  if r.packet_size = 6 then
    let r' := d.decodeHeaderOf codec r
    if r'.packet_size < 6 ∨ MAX_PACKET_SIZE < r'.packet_size then
      (false, r'.reset_internal_buffer)
    -- a longer packet: the rest of it is read first
    else if 6 < r'.packet_size then (true, r')
    else d.receiveBody codec handlePacket r'
  else d.receiveBody codec handlePacket r

end Direction

/-! ## Packets -/

/-- A packet as it is built: the size field is its length, and size and command fit the
header. -/
structure IsPacket (bytes : List Byte) : Prop where
  size_eq : packetSize bytes = bytes.length
  six_le : 6 ≤ bytes.length
  le_max : bytes.length ≤ 2046
  command_lt : (commandField (fun i => bytes.getD i 0)).toNat < 0x800

/-- A packet in memory, before it is encoded. -/
def packetMem (bytes : List Byte) : Mem := ⟨fun i => bytes.getD i 0, []⟩

theorem IsPacket.sizeField {bytes : List Byte} (h : IsPacket bytes) :
    (sizeField (packetMem bytes).bytes).toNat = bytes.length := h.size_eq

theorem IsPacket.wellSized {bytes : List Byte} (h : IsPacket bytes) :
    WellSized (packetMem bytes).bytes := by
  have hsize := h.sizeField
  have h6 := h.six_le
  have hmax := h.le_max
  exact ⟨by omega, by omega, h.command_lt⟩

namespace Direction

section

variable (d : Direction) (codec : PacketCodec) (bytes : List Byte)

/-- The `Head` of the encoded packet. -/
def head : HeadBits := packetHead d.encryptValue (packetMem bytes)

/-- The checksum of the encoded packet. -/
def checksum : Byte :=
  bodyChecksum (packetMem bytes).bytes bytes.length (headChecksum (d.head bytes))

/-- What is sent: the buffer after the encoder. -/
def encoded : List Byte :=
  (List.range bytes.length).map
    ((encodePacket d.layout d.encryptValue codec).run (packetMem bytes)).2.bytes

/-- What arrives: the packet with the codec's data in bytes 4 and 5. -/
def received : List Byte := (bytes.set 4 (headByte (d.head bytes) 4)).set 5 (d.checksum bytes)

theorem length_encoded : (d.encoded codec bytes).length = bytes.length := by
  rw [encoded, List.length_map, List.length_range]

variable {bytes}

theorem getD_encoded {j : ℕ} (hj : j < bytes.length) :
    (d.encoded codec bytes).getD j 0 =
      ((encodePacket d.layout d.encryptValue codec).run (packetMem bytes)).2.bytes j := by
  have hlen : j < (d.encoded codec bytes).length := by
    rw [length_encoded]
    exact hj
  rw [List.getD_eq_getElem _ _ hlen]
  simp only [encoded, List.getElem_map, List.getElem_range]

variable (bytes)

theorem length_received : (d.received bytes).length = bytes.length := by
  rw [received, List.length_set, List.length_set]

variable {bytes}

/-- The received packet differs from the one sent in bytes 4 and 5 only. -/
theorem getElem_received {j : ℕ} (hj : j < (d.received bytes).length) :
    (d.received bytes)[j] = if j = 5 then d.checksum bytes
      else if j = 4 then headByte (d.head bytes) 4 else (packetMem bytes).bytes j := by
  have hj' : j < bytes.length := by
    rw [← d.length_received bytes]
    exact hj
  have hbyte : (packetMem bytes).bytes j = bytes[j] := List.getD_eq_getElem _ _ hj'
  rw [hbyte]
  simp only [received, List.getElem_set, @eq_comm ℕ 5 j, @eq_comm ℕ 4 j]

end

/-! ## One packet -/

/-- The first six bytes hold the decoded header of a packet and its checksum. -/
def headerReady (d : Direction) (bytes : List Byte) (b : ℕ → Byte) : Prop :=
  wordLE b 5 0 = d.head bytes ∧ b 5 = d.checksum bytes

section

variable (d : Direction) (codec : PacketCodec) (handlePacket : ℕ → List Byte → Bool)
  {bytes : List Byte}

/-- The header of an encoded packet is decoded in place. -/
theorem decodeHeaderOf_encoded (hp : IsPacket bytes) (r : Receiver)
    (hbuf : ∀ j, j < 6 → r.buffer j = (d.encoded codec bytes).getD j 0) :
    d.headerReady bytes (d.decodeHeaderOf codec r).buffer ∧
      (d.decodeHeaderOf codec r).packet_size = bytes.length := by
  have h6 := hp.six_le
  obtain ⟨hsize, hword, hchk⟩ := decodeHeader_encodedHead d.layout codec (packetMem bytes)
    hp.wellSized.size_le ⟨r.buffer, []⟩ (by
      intro j hj
      dsimp only
      rw [hbuf j hj, d.getD_encoded codec (by omega)])
  rw [hp.sizeField] at hchk
  unfold decodeHeaderOf
  dsimp only
  rw [hsize]
  exact ⟨⟨hword, hchk⟩, hp.sizeField⟩

/-- Decoding the header changes nothing but the buffer, the ghost log and
`packet_size_`. -/
theorem decodeHeaderOf_with (r : Receiver) (b : ℕ → Byte) (acc : List (ℕ × ℕ)) :
    { d.decodeHeaderOf codec r with buffer := b, accesses := acc } =
      { r with
        buffer := b
        accesses := acc
        packet_size := (d.decodeHeaderOf codec r).packet_size } := by
  unfold decodeHeaderOf
  dsimp only

/-- The bytes that follow a decoded header are the keyed body. -/
theorem headerDecoded_of_ready (hp : IsPacket bytes) (b : ℕ → Byte)
    (hready : d.headerReady bytes b)
    (hbody : ∀ j, 6 ≤ j → j < bytes.length → b j = (d.encoded codec bytes).getD j 0) :
    HeaderDecoded d.encryptValue codec (packetMem bytes) b := by
  obtain ⟨hword, hchk⟩ := hready
  have hsize := hp.sizeField
  refine ⟨hword, ?_, ?_⟩
  · rw [hchk, hsize, checksum, head]
  · intro j h6 hj
    rw [hbody j h6 (by omega), d.getD_encoded codec (by omega)]
    exact encodePacket_body d.layout codec (packetMem bytes) hp.wellSized.size_le h6 hj

/-- **The body is decoded in place and the packet is queued.** -/
theorem receiveBody_ready (hp : IsPacket bytes) (r : Receiver)
    (hready : d.headerReady bytes r.buffer)
    (hbody : ∀ j, 6 ≤ j → j < bytes.length → r.buffer j = (d.encoded codec bytes).getD j 0) :
    ∃ b acc, copyPacket b = d.received bytes ∧ d.receiveBody codec handlePacket r =
      (true, receivePacket handlePacket { r with buffer := b, accesses := acc }) := by
  have hdec := d.headerDecoded_of_ready codec hp r.buffer hready hbody
  have hlen := d.bufLen_packetHead (packetMem bytes) hp.wellSized
  have hsize := hp.sizeField
  have h6 := hp.six_le
  obtain ⟨htrue, hbytes⟩ := decodeBody_of_headerDecoded ⟨r.buffer, []⟩ hp.wellSized hlen hdec
  have hkeep := (decodeBody_spec codec ⟨r.buffer, []⟩ d.bufLen).2.1
  set b := ((decodeBody d.bufLen codec).run ⟨r.buffer, []⟩).2.bytes with hb
  -- bytes 4 and 5 are the ones the header decoder left
  have hfour : b 4 = headByte (d.head bytes) 4 := by
    rw [hkeep 4 (by omega), decodedBytes, if_neg (by omega), ← hready.1]
    exact (extractLsb'_wordLE r.buffer 5 0 4 (by omega)).symm
  have hfive : b 5 = d.checksum bytes := by
    rw [hkeep 5 (by omega), decodedBytes, if_neg (by omega)]
    exact hready.2
  have hsize' : sizeField b = sizeField (packetMem bytes).bytes := by
    apply wordLE_congr
    intro k hk
    exact hbytes _ (Or.inl (by omega))
  -- byte by byte: the decoder gives every byte back but these two
  have hcopy : copyPacket b = d.received bytes := by
    apply List.ext_getElem
    · rw [length_copyPacket, hsize', hsize, d.length_received]
    · intro j hj hj'
      have hjlen : j < bytes.length := by
        rw [← d.length_received bytes]
        exact hj'
      rw [d.getElem_received hj']
      simp only [copyPacket, List.getElem_map, List.getElem_range]
      by_cases h5 : j = 5
      · rw [if_pos h5, h5, hfive]
      · rw [if_neg h5]
        by_cases h4 : j = 4
        · rw [if_pos h4, h4, hfour]
        · rw [if_neg h4]
          exact hbytes j (by omega)
  refine ⟨b, r.accesses ++ ((decodeBody d.bufLen codec).run ⟨r.buffer, []⟩).2.log.map
    (fun i => (r.packet_size, i)), hcopy, ?_⟩
  unfold receiveBody
  dsimp only
  rw [htrue, if_neg (by decide)]

/-- `OnReceived` once the header has been decoded. -/
theorem OnReceived_header {r : Receiver} (hsize : r.packet_size = 6) {n : ℕ}
    (hlen : (d.decodeHeaderOf codec r).packet_size = n) (h6 : 6 ≤ n) (hmax : n ≤ 2046) :
    d.OnReceived codec handlePacket r =
      if 6 < n then (true, d.decodeHeaderOf codec r)
      else d.receiveBody codec handlePacket (d.decodeHeaderOf codec r) := by
  have hMAX : MAX_PACKET_SIZE = 2047 := rfl
  unfold OnReceived
  rw [if_pos hsize]
  dsimp only
  rw [hlen, if_neg (by omega)]

end

/-- **A receiver cuts the packets of its own direction.** -/
theorem framing_OnReceived {α : Type} (d : Direction) (codec : PacketCodec)
    (handlePacket : ℕ → List Byte → Bool) {bytes : α → List Byte}
    (hp : ∀ p, IsPacket (bytes p)) :
    Framing handlePacket (d.OnReceived codec handlePacket) (fun p => d.encoded codec (bytes p))
      (fun p => d.received (bytes p)) (fun _ => True) (fun p => d.headerReady (bytes p)) where
  six_le := by
    intro p _
    rw [d.length_encoded]
    exact (hp p).six_le
  le_max := by
    intro p _
    rw [d.length_encoded]
    exact (hp p).le_max.trans (by decide)
  ready_congr := by
    rintro p b c hbc ⟨hword, hchk⟩
    refine ⟨?_, (hbc 5 (by omega)).trans hchk⟩
    rw [← hword]
    apply wordLE_congr
    intro k hk
    exact hbc _ (by omega)
  header := by
    intro p r _ hsize hlt hbuf
    obtain ⟨hready, hlen⟩ := d.decodeHeaderOf_encoded codec (hp p) r hbuf
    rw [d.length_encoded] at hlt ⊢
    have hstate := d.decodeHeaderOf_with codec r (d.decodeHeaderOf codec r).buffer
      (d.decodeHeaderOf codec r).accesses
    rw [hlen] at hstate
    have hrecv := d.OnReceived_header codec handlePacket hsize hlen (hp p).six_le (hp p).le_max
    rw [if_pos hlt] at hrecv
    exact ⟨_, _, hready, by rw [hrecv, ← hstate]⟩
  short := by
    intro p r _ hsize hlen6 hbuf
    obtain ⟨hready, hlen⟩ := d.decodeHeaderOf_encoded codec (hp p) r hbuf
    rw [d.length_encoded] at hlen6
    have hnone : ∀ j, 6 ≤ j → j < (bytes p).length →
        (d.decodeHeaderOf codec r).buffer j = (d.encoded codec (bytes p)).getD j 0 := by
      intro j h6 hj
      omega
    obtain ⟨b, acc, hcopy, hbody⟩ := d.receiveBody_ready codec handlePacket (hp p) _ hready hnone
    refine ⟨b, acc, (d.decodeHeaderOf codec r).packet_size, hcopy, ?_⟩
    rw [d.OnReceived_header codec handlePacket hsize hlen (hp p).six_le (hp p).le_max,
      if_neg (by omega), hbody, d.decodeHeaderOf_with]
  body := by
    intro p r _ hsize hlt hready hbody
    rw [d.length_encoded] at hsize hlt hbody
    obtain ⟨b, acc, hcopy, hrecv⟩ :=
      d.receiveBody_ready codec handlePacket (hp p) r hready hbody
    refine ⟨b, acc, r.packet_size, hcopy, ?_⟩
    unfold OnReceived
    rw [if_neg (by omega), hrecv]

end Direction

end OsIrose.Socket

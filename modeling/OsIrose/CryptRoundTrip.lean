/-
The round trip of the codec: what an encoder writes, the decoders of the same
direction read back.

The argument is the same in both directions, so it is made once, for any layout and any
length a body decoder may compute, and `decode_encode` applies it twice. Header and body
are kept apart (`decodeHeader_encodedHead`, `decodeBody_of_headerDecoded`): a receiver
decodes the header before the body has arrived.
-/
import OsIrose.CryptSpec

set_option autoImplicit false

namespace OsIrose.Crypt

open BitLayout ByteMem HeadField

/-- The size field of a packet, `*((unsigned short*)&buffer[0])`. -/
def sizeField (b : ℕ → Byte) : BitVec 16 := wordLE b 2 0

/-- The command field of a packet, `*((unsigned short*)&buffer[2])`. -/
def commandField (b : ℕ → Byte) : BitVec 16 := wordLE b 2 2

/-- A packet the header can carry: eleven bits hold the size and the command, and the
size covers the six header bytes. -/
structure WellSized (b : ℕ → Byte) : Prop where
  six_le : 6 ≤ (sizeField b).toNat
  size_le : (sizeField b).toNat ≤ 2047
  command_lt : (commandField b).toNat < 0x800

/-- Eleven bits hold a value below `2048`. -/
theorem setWidth_eleven {x : BitVec 16} (hx : x.toNat < 2048) :
    (x.setWidth 11).setWidth 16 = x := by
  apply BitVec.eq_of_toNat_eq
  rw [BitVec.toNat_setWidth, BitVec.toNat_setWidth]
  omega

variable {encryptValue : BitVec HeadPart.EncryptValue.width}

theorem packetHead_AddBufferLen {m : Mem}
    (hsize : (sizeField m.bytes).toNat ≤ 2047) :
    (Head.get .AddBufferLen (packetHead encryptValue m)).toNat
      = (sizeField m.bytes).toNat := by
  have hlt : (sizeField m.bytes).toNat < 2048 := by omega
  rw [packetHead, mkHead_AddBufferLen, BitVec.toNat_setWidth]
  exact Nat.mod_eq_of_lt hlt

theorem serverBufLen_packetHead {m : Mem}
    (hsize : (sizeField m.bytes).toNat ≤ 2047) :
    serverBufLen (packetHead encryptValue m) = sizeField m.bytes := by
  have hlt : (sizeField m.bytes).toNat < 2048 := by omega
  rw [serverBufLen, packetHead, mkHead_AddBufferLen]
  exact setWidth_eleven hlt

/-- `encodeClientPacket` writes `EncryptValue = 0`, so the length the body decoder
subtracts it from is the length itself. -/
theorem clientBufLen_packetHead {m : Mem}
    (hsize : (sizeField m.bytes).toNat ≤ 2047) :
    clientBufLen (packetHead 0 m) = sizeField m.bytes := by
  have hs : serverBufLen (packetHead 0 m) = sizeField m.bytes := serverBufLen_packetHead hsize
  have he : Head.get .EncryptValue (packetHead 0 m) = 0 := by
    rw [packetHead, mkHead_EncryptValue]
  have h0 : (Head.get .EncryptValue (packetHead 0 m)).setWidth 16 = 0#16 := by
    rw [he]; rfl
  rw [clientBufLen, h0, BitVec.sub_zero]
  exact hs

/-! ## A body behind its decoded header -/

/-- The bytes `c` hold the packet `m` with its header decoded and its body still
keyed. -/
structure HeaderDecoded (encryptValue : BitVec HeadPart.EncryptValue.width)
    (codec : PacketCodec) (m : Mem) (c : ℕ → Byte) : Prop where
  head : wordLE c 5 0 = packetHead encryptValue m
  checksum : c 5 = bodyChecksum m.bytes (sizeField m.bytes).toNat
    (headChecksum (packetHead encryptValue m))
  body : ∀ j, 6 ≤ j → j < (sizeField m.bytes).toNat →
    c j = xorKey (m.bytes j) (bodyKey codec (packetHead encryptValue m) j)

section

variable {codec : PacketCodec} {m : Mem} (m' : Mem) {bufLen : HeadBits → BitVec 16}
    (hm : WellSized m.bytes)
    (hlen : bufLen (packetHead encryptValue m) = sizeField m.bytes)
    (hdec : HeaderDecoded encryptValue codec m m'.bytes)

include hdec

/-- Unkeying gives the plain body back. -/
theorem plainBody_of_headerDecoded {j : ℕ} (h6 : 6 ≤ j)
    (hj : j < (sizeField m.bytes).toNat) :
    plainBody codec (wordLE m'.bytes 5 0) m'.bytes j = m.bytes j := by
  rw [plainBody, hdec.head, hdec.body j h6 hj, xorKey_xorKey]

include hlen

/-- The checksum an encoder stores is the one a body decoder computes. -/
theorem checksumOk_of_headerDecoded : checksumOk codec bufLen m'.bytes := by
  have hplain : bodyChecksum (plainBody codec (wordLE m'.bytes 5 0) m'.bytes)
      (sizeField m.bytes).toNat (headChecksum (packetHead encryptValue m))
        = bodyChecksum m.bytes (sizeField m.bytes).toNat
            (headChecksum (packetHead encryptValue m)) :=
    bodyChecksum_congr (fun j h6 hj => plainBody_of_headerDecoded m' hdec h6 hj) _
  unfold checksumOk
  rw [hdec.checksum, ← hplain, hdec.head, hlen]

include hm

/-- **A body decoder restores the packet** behind a decoded header. -/
theorem decodeBody_of_headerDecoded :
    ((decodeBody bufLen codec).run m').1 = true ∧
      ∀ j, j < 4 ∨ 6 ≤ j ∧ j < (sizeField m.bytes).toNat →
        ((decodeBody bufLen codec).run m').2.bytes j = m.bytes j := by
  obtain ⟨hfst, hbytes, hwords⟩ := decodeBody_spec codec m' bufLen
  have hok := checksumOk_of_headerDecoded m' hlen hdec
  obtain ⟨hsize, hcommand⟩ := hwords hok
  rw [hdec.head, hlen] at hsize
  -- the header has eleven bits for the command, which `WellSized` makes enough
  have hcmd : (Head.get .Command (packetHead encryptValue m)).setWidth 16
      = commandField m.bytes := by
    rw [packetHead, mkHead_Command]
    exact setWidth_eleven hm.command_lt
  rw [hdec.head, hcmd] at hcommand
  refine ⟨by rw [hfst, decide_eq_true hok], ?_⟩
  rintro j (hj | ⟨h6, hj⟩)
  · -- the first four bytes are the two words just written
    have hpair : ∀ i k, k < 2 → wordLE ((decodeBody bufLen codec).run m').2.bytes 2 i
        = wordLE m.bytes 2 i →
        ((decodeBody bufLen codec).run m').2.bytes (i + k) = m.bytes (i + k) := by
      intro i k hk h
      have h1 := extractLsb'_wordLE ((decodeBody bufLen codec).run m').2.bytes 2 i k hk
      have h2 := extractLsb'_wordLE m.bytes 2 i k hk
      rw [← h1, ← h2, h]
    by_cases hj2 : j < 2
    · have h := hpair 0 j hj2 hsize
      rwa [Nat.zero_add] at h
    · have h := hpair 2 (j - 2) (by omega) hcommand
      rwa [show 2 + (j - 2) = j by omega] at h
  · rw [hbytes j (by omega), decodedBytes, hdec.head, hlen, if_pos ⟨h6, hj⟩, ← hdec.head]
    exact plainBody_of_headerDecoded m' hdec h6 hj

end

/-! ## The two directions -/

/-- Decoding the header of an encoded packet gives its length and its `Head` back. The
six bytes of the header are enough. -/
theorem decodeHeader_encodedHead (layout : Layout HeadField.width (8 * 5))
    (codec : PacketCodec) (m : Mem) (hsize : (sizeField m.bytes).toNat ≤ 2047) (m' : Mem)
    (henc : ∀ j, j < 6 → m'.bytes j
      = ((encodePacket layout encryptValue codec).run m).2.bytes j) :
    ((decodeHeader layout codec).run m').1 = sizeField m.bytes ∧
      wordLE ((decodeHeader layout codec).run m').2.bytes 5 0 = packetHead encryptValue m ∧
      ((decodeHeader layout codec).run m').2.bytes 5
        = bodyChecksum m.bytes (sizeField m.bytes).toNat
            (headChecksum (packetHead encryptValue m)) := by
  obtain ⟨hhead, hchk, -⟩ := encodePacket_spec layout encryptValue codec m
  obtain ⟨hfst, hword, hrest⟩ := decodeHeader_spec codec m' layout
  -- five of the six bytes are the header word, the sixth is the checksum
  have hw : wordLE m'.bytes 5 0
      = cryptHead layout codec (wordLE m.bytes 5 0) (packetHead encryptValue m) := by
    rw [← hhead]
    apply wordLE_congr
    intro k hk
    rw [henc _ (by omega)]
  rw [hw, decryptHead_cryptHead] at hfst hword
  rw [packetHead_AddBufferLen hsize] at hchk
  refine ⟨?_, hword, ?_⟩
  · rw [hfst]
    exact serverBufLen_packetHead hsize
  · rw [hrest 5 (by omega), henc 5 (by omega), hchk]

/-- The body bytes an encoder leaves. -/
theorem encodePacket_body (layout : Layout HeadField.width (8 * 5)) (codec : PacketCodec)
    (m : Mem) (hsize : (sizeField m.bytes).toNat ≤ 2047) {j : ℕ} (h6 : 6 ≤ j)
    (hj : j < (sizeField m.bytes).toNat) :
    ((encodePacket layout encryptValue codec).run m).2.bytes j
      = xorKey (m.bytes j) (bodyKey codec (packetHead encryptValue m) j) := by
  have hbody := (encodePacket_spec layout encryptValue codec m).2.2 j h6
  rw [packetHead_AddBufferLen hsize, if_pos hj] at hbody
  exact hbody

/-- Decoding the header of a whole encoded packet leaves the packet with its header
decoded. -/
theorem decodeHeader_encodePacket (layout : Layout HeadField.width (8 * 5))
    (codec : PacketCodec) (m : Mem) (hsize : (sizeField m.bytes).toNat ≤ 2047) (m' : Mem)
    (henc : ∀ j, m'.bytes j = ((encodePacket layout encryptValue codec).run m).2.bytes j) :
    ((decodeHeader layout codec).run m').1 = sizeField m.bytes ∧
      HeaderDecoded encryptValue codec m ((decodeHeader layout codec).run m').2.bytes := by
  obtain ⟨hlen, hword, hchk⟩ :=
    decodeHeader_encodedHead layout codec m hsize m' (fun j _ => henc j)
  refine ⟨hlen, hword, hchk, ?_⟩
  intro j h6 hj
  rw [(decodeHeader_spec codec m' layout).2.2 j (by omega), henc j]
  exact encodePacket_body layout codec m hsize h6 hj

/-- The round trip of one direction, as one run of the three functions. -/
theorem decodeBody_decodeHeader_encodePacket (layout : Layout HeadField.width (8 * 5))
    (bufLen : HeadBits → BitVec 16) (codec : PacketCodec) (m : Mem) (hm : WellSized m.bytes)
    (hlen : bufLen (packetHead encryptValue m) = sizeField m.bytes) :
    let header := (decodeHeader layout codec).run
      ((encodePacket layout encryptValue codec).run m).2
    let body := (decodeBody bufLen codec).run header.2
    header.1 = sizeField m.bytes ∧ body.1 = true ∧
      ∀ j, j < 4 ∨ 6 ≤ j ∧ j < (sizeField m.bytes).toNat → body.2.bytes j = m.bytes j := by
  obtain ⟨hsize, hdec⟩ := decodeHeader_encodePacket layout codec m hm.size_le
    ((encodePacket layout encryptValue codec).run m).2 (fun _ => rfl)
  exact ⟨hsize, decodeBody_of_headerDecoded _ hm hlen hdec⟩

/-- **The codec round trip.** For either direction, decoding the header of an encoded
packet returns its size, decoding the body accepts it, and every byte but 4 and 5,
which carry codec data, is the one that was encoded. -/
theorem decode_encode (codec : PacketCodec) (m : Mem) (h6 : 6 ≤ (sizeField m.bytes).toNat)
    (hsize : (sizeField m.bytes).toNat ≤ 2047)
    (hcommand : (commandField m.bytes).toNat < 0x800) :
    (let header := (decodeServerHeader codec).run ((encodeServerPacket codec).run m).2
      let body := (decodeServerBody codec).run header.2
      header.1 = sizeField m.bytes ∧ body.1 = true ∧
        ∀ j, j < 4 ∨ 6 ≤ j ∧ j < (sizeField m.bytes).toNat →
          body.2.bytes j = m.bytes j) ∧
    (let header := (decodeClientHeader codec).run ((encodeClientPacket codec).run m).2
      let body := (decodeClientBody codec).run header.2
      header.1 = sizeField m.bytes ∧ body.1 = true ∧
        ∀ j, j < 4 ∨ 6 ≤ j ∧ j < (sizeField m.bytes).toNat →
          body.2.bytes j = m.bytes j) := by
  have hm : WellSized m.bytes := ⟨h6, hsize, hcommand⟩
  constructor
  · exact decodeBody_decodeHeader_encodePacket HeadCryptedServer serverBufLen codec m hm
      (serverBufLen_packetHead hsize)
  · exact decodeBody_decodeHeader_encodePacket HeadCryptedClient clientBufLen codec m hm
      (clientBufLen_packetHead hsize)

/-- The round trip of an eight byte packet under one key table. -/
theorem decode_encode_sample :
    let codec : PacketCodec := ⟨fun i j => BitVec.ofNat 32 (i * 0x800 + j)⟩
    let m : Mem := ⟨fun i => ([8, 0, 3, 7, 0, 0, 0xAB, 0xCD] : List Byte).getD i 0, []⟩
    (let header := (decodeServerHeader codec).run ((encodeServerPacket codec).run m).2
      let body := (decodeServerBody codec).run header.2
      header.1 = 8 ∧ body.1 = true ∧
        ∀ j, j < 4 ∨ 6 ≤ j ∧ j < 8 → body.2.bytes j = m.bytes j) ∧
    (let header := (decodeClientHeader codec).run ((encodeClientPacket codec).run m).2
      let body := (decodeClientBody codec).run header.2
      header.1 = 8 ∧ body.1 = true ∧
        ∀ j, j < 4 ∨ 6 ≤ j ∧ j < 8 → body.2.bytes j = m.bytes j) :=
  decode_encode _ _ (by decide) (by decide) (by decide)

end OsIrose.Crypt

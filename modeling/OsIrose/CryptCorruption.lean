/-
What the checksum of the codec detects: one wrong byte in the body of a packet on its way.

The header arrives as it was sent, so the receiver has the sender's `Head`, with it the
sender's length, keys and stored checksum. The key of a body byte depends on its place and
not on the bytes before it, so the unkeyed body differs from the plain one in that place and
nowhere else. The entries of `CrcTable` are eight steps of a shift register that can be run
backwards, so no two are the same and the two checksums differ.
-/
import OsIrose.Checksum
import OsIrose.CryptRoundTrip
import Mathlib.Data.List.GetD
import Mathlib.Logic.Function.Iterate

set_option autoImplicit false

namespace OsIrose.Crypt

open BitLayout ByteMem Checksum

/-! ## The table -/

/-- One bit of the checksum: the register moves down, and a bit that falls out of it comes
back in the taps `0x8C`. -/
def crcShift (b : Byte) : Byte := if b.getLsbD 0 then (b >>> 1) ^^^ 0x8C else b >>> 1

/-- The top bit is set exactly when the taps came in, so a shift can be undone. -/
def crcUnshift (b : Byte) : Byte := if b.msb then ((b ^^^ 0x8C) <<< 1) ||| 1 else b <<< 1

theorem crcUnshift_crcShift : Function.LeftInverse crcUnshift crcShift := by
  unfold Function.LeftInverse
  decide +kernel

/-- `CrcTable` holds eight shifts of every byte. -/
theorem CrcTable_eq : CrcTable = (List.range 256).map fun i => crcShift^[8] (BitVec.ofNat 8 i) := by
  decide +kernel

theorem getD_CrcTable (b : Byte) : CrcTable.getD b.toNat 0 = crcShift^[8] b := by
  rw [CrcTable_eq, List.getD_eq_getElem _ _ (by simp [b.isLt]), List.getElem_map,
    List.getElem_range, BitVec.ofNat_toNat, BitVec.setWidth_eq]

/-- The checksum step loses neither the checksum nor the byte. -/
theorem separating_crcStep : Separating crcStep := by
  have htable : Function.Injective fun b : Byte => CrcTable.getD b.toNat 0 := by
    simp only [getD_CrcTable]
    exact crcUnshift_crcShift.injective.iterate 8
  exact separating_xor htable

/-! ## The body -/

/-- The key of a byte is taken off again, so it hides no difference. -/
theorem xorKey_injective (k : BitVec 32) : Function.Injective fun b => xorKey b k := by
  intro b c h
  have h' := congrArg (fun b => xorKey b k) h
  simpa only [xorKey_xorKey] using h'

/-- Two bodies that differ in one byte have different checksums. -/
theorem bodyChecksum_ne {b c : ℕ → Byte} {n i : ℕ} (h6 : 6 ≤ i) (hi : i < n)
    (hne : b i ≠ c i) (hsame : ∀ j, 6 ≤ j → j < n → j ≠ i → b j = c j) (checksum : Byte) :
    bodyChecksum b n checksum ≠ bodyChecksum c n checksum := by
  have hmem : i ∈ List.range' 6 (n - 6) := List.mem_range'_1.mpr ⟨h6, by omega⟩
  refine foldl_ne_of_ne_at separating_crcStep List.nodup_range' hmem hne ?_ checksum
  intro j hj hji
  have hj' := List.mem_range'_1.mp hj
  exact hsame j hj'.1 (by omega) hji

/-- `received` is `sent`, a packet of `n` bytes, with the body byte `i` changed. -/
structure CorruptedAt (n i : ℕ) (sent received : ℕ → Byte) : Prop where
  six_le : 6 ≤ i
  lt : i < n
  differs : received i ≠ sent i
  same : ∀ j < n, j ≠ i → received j = sent j

/-- One direction of the codec: the header of what arrives is decoded, then its body. -/
theorem decodeBody_of_corruptedAt {encryptValue : BitVec HeadPart.EncryptValue.width}
    (layout : Layout HeadField.width (8 * 5)) (bufLen : HeadBits → BitVec 16)
    (codec : PacketCodec) (m received : Mem) {i : ℕ}
    (hsize : (sizeField m.bytes).toNat ≤ 2047)
    (hlen : bufLen (packetHead encryptValue m) = sizeField m.bytes)
    (hcor : CorruptedAt (sizeField m.bytes).toNat i
      ((encodePacket layout encryptValue codec).run m).2.bytes received.bytes) :
    ((decodeBody bufLen codec).run ((decodeHeader layout codec).run received).2).1 = false := by
  have h6 := hcor.six_le
  have hi := hcor.lt
  -- the six bytes of the header are the sender's
  obtain ⟨-, hword, hchk⟩ := decodeHeader_encodedHead layout codec m hsize received
    (fun j hj => hcor.same j (by omega) (by omega))
  obtain ⟨-, -, hkeep⟩ := decodeHeader_spec codec received layout
  generalize ((decodeHeader layout codec).run received).2 = header at hword hchk hkeep ⊢
  -- unkeying keeps apart what the sender's byte and the receiver's were apart
  have hplain : ∀ j, 6 ≤ j → j < (sizeField m.bytes).toNat →
      (plainBody codec (packetHead encryptValue m) header.bytes j = m.bytes j ↔
        received.bytes j = ((encodePacket layout encryptValue codec).run m).2.bytes j) := by
    intro j hj hjn
    rw [encodePacket_body layout codec m hsize hj hjn, plainBody, hkeep j (by omega),
      ← (xorKey_injective (bodyKey codec (packetHead encryptValue m) j)).eq_iff, xorKey_xorKey]
  rw [(decodeBody_spec codec header bufLen).1]
  apply decide_eq_false
  rw [checksumOk, hword, hlen, hchk]
  apply bodyChecksum_ne h6 hi
  · intro h
    exact hcor.differs ((hplain i h6 hi).mp h)
  · intro j hj hjn hji
    exact (hplain j hj hjn).mpr (hcor.same j hjn hji)

/-- **One wrong body byte is detected.** Whatever the packet, and whichever body byte
arrives as something else, the decoders of the direction it was encoded for refuse it. -/
theorem corruption_refused (codec : PacketCodec) (m received : Mem) (i : ℕ)
    (hsize : (sizeField m.bytes).toNat ≤ 2047) :
    (CorruptedAt (sizeField m.bytes).toNat i ((encodeServerPacket codec).run m).2.bytes
        received.bytes →
      ((decodeServerBody codec).run ((decodeServerHeader codec).run received).2).1 = false) ∧
    (CorruptedAt (sizeField m.bytes).toNat i ((encodeClientPacket codec).run m).2.bytes
        received.bytes →
      ((decodeClientBody codec).run ((decodeClientHeader codec).run received).2).1 = false) := by
  unfold encodeServerPacket decodeServerHeader decodeServerBody encodeClientPacket
    decodeClientHeader decodeClientBody
  constructor
  · exact decodeBody_of_corruptedAt HeadCryptedServer serverBufLen codec m received
      hsize (serverBufLen_packetHead hsize)
  · exact decodeBody_of_corruptedAt HeadCryptedClient clientBufLen codec m received
      hsize (clientBufLen_packetHead hsize)

/-- The last byte of an eight byte packet arrives with every bit flipped, in either
direction. -/
theorem corruption_refused_sample :
    let codec : PacketCodec := ⟨fun i j => BitVec.ofNat 32 (i * 0x800 + j)⟩
    let m : Mem := ⟨fun i => ([8, 0, 3, 7, 0, 0, 0xAB, 0xCD] : List Byte).getD i 0, []⟩
    let flip : Mem → Mem := fun sent => ⟨fun i => if i = 7 then ~~~ sent.bytes i
      else sent.bytes i, []⟩
    ((decodeServerBody codec).run
      ((decodeServerHeader codec).run (flip ((encodeServerPacket codec).run m).2)).2).1 = false ∧
    ((decodeClientBody codec).run
      ((decodeClientHeader codec).run (flip ((encodeClientPacket codec).run m).2)).2).1
        = false := by
  intro codec m flip
  have hflip : ∀ sent : Mem, CorruptedAt 8 7 sent.bytes (flip sent).bytes := by
    intro sent
    refine ⟨by decide, by decide, ?_, ?_⟩
    · simp only [flip, if_true]
      generalize sent.bytes 7 = b
      revert b
      decide
    · intro j _ hj
      simp only [flip, if_neg hj]
  have hsize : (sizeField m.bytes).toNat = 8 := by decide
  constructor
  · exact (corruption_refused codec m _ 7 (by omega)).1 (hsize ▸ hflip _)
  · exact (corruption_refused codec m _ 7 (by omega)).2 (hsize ▸ hflip _)

end OsIrose.Crypt

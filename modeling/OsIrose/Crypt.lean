/-
The packet codec, `rosecommon/src/crosecrypt.cpp`.

A packet on the wire starts with a five-byte header of fifteen bit fields, which the
source overlays with three `struct`s: `HeadDecrypted` is how `Head` lies in memory,
`HeadCryptedServer` and `HeadCryptedClient` are how the two directions scatter the
same fields. Each `struct` is a `Layout` here, its field list copied in declaration
order, and `FlipHeadMain`/`FlipHeadFinal` are copies between layouts.

The four codec entry points differ only in the layout, in the `EncryptValue` they
write (encoders) and in the length they loop to (decoders), so each is one definition
applied to its own values. They run in `MemM`, the way the source runs on
`unsigned char* buffer`: in place, byte by byte, with no bound other than the length
found in the header.
-/
import OsIrose.BitLayout
import OsIrose.ByteMem

set_option autoImplicit false

namespace OsIrose.Crypt

open BitLayout ByteMem

/-! ## Tables -/

/-- `CrcTable`. -/
def CrcTable : List Byte :=
  [0x00, 0x5E, 0xBC, 0xE2, 0x61, 0x3F, 0xDD, 0x83, 0xC2, 0x9C, 0x7E, 0x20,
    0xA3, 0xFD, 0x1F, 0x41, 0x9D, 0xC3, 0x21, 0x7F, 0xFC, 0xA2, 0x40, 0x1E,
    0x5F, 0x01, 0xE3, 0xBD, 0x3E, 0x60, 0x82, 0xDC, 0x23, 0x7D, 0x9F, 0xC1,
    0x42, 0x1C, 0xFE, 0xA0, 0xE1, 0xBF, 0x5D, 0x03, 0x80, 0xDE, 0x3C, 0x62,
    0xBE, 0xE0, 0x02, 0x5C, 0xDF, 0x81, 0x63, 0x3D, 0x7C, 0x22, 0xC0, 0x9E,
    0x1D, 0x43, 0xA1, 0xFF, 0x46, 0x18, 0xFA, 0xA4, 0x27, 0x79, 0x9B, 0xC5,
    0x84, 0xDA, 0x38, 0x66, 0xE5, 0xBB, 0x59, 0x07, 0xDB, 0x85, 0x67, 0x39,
    0xBA, 0xE4, 0x06, 0x58, 0x19, 0x47, 0xA5, 0xFB, 0x78, 0x26, 0xC4, 0x9A,
    0x65, 0x3B, 0xD9, 0x87, 0x04, 0x5A, 0xB8, 0xE6, 0xA7, 0xF9, 0x1B, 0x45,
    0xC6, 0x98, 0x7A, 0x24, 0xF8, 0xA6, 0x44, 0x1A, 0x99, 0xC7, 0x25, 0x7B,
    0x3A, 0x64, 0x86, 0xD8, 0x5B, 0x05, 0xE7, 0xB9, 0x8C, 0xD2, 0x30, 0x6E,
    0xED, 0xB3, 0x51, 0x0F, 0x4E, 0x10, 0xF2, 0xAC, 0x2F, 0x71, 0x93, 0xCD,
    0x11, 0x4F, 0xAD, 0xF3, 0x70, 0x2E, 0xCC, 0x92, 0xD3, 0x8D, 0x6F, 0x31,
    0xB2, 0xEC, 0x0E, 0x50, 0xAF, 0xF1, 0x13, 0x4D, 0xCE, 0x90, 0x72, 0x2C,
    0x6D, 0x33, 0xD1, 0x8F, 0x0C, 0x52, 0xB0, 0xEE, 0x32, 0x6C, 0x8E, 0xD0,
    0x53, 0x0D, 0xEF, 0xB1, 0xF0, 0xAE, 0x4C, 0x12, 0x91, 0xCF, 0x2D, 0x73,
    0xCA, 0x94, 0x76, 0x28, 0xAB, 0xF5, 0x17, 0x49, 0x08, 0x56, 0xB4, 0xEA,
    0x69, 0x37, 0xD5, 0x8B, 0x57, 0x09, 0xEB, 0xB5, 0x36, 0x68, 0x8A, 0xD4,
    0x95, 0xCB, 0x29, 0x77, 0xF4, 0xAA, 0x48, 0x16, 0xE9, 0xB7, 0x55, 0x0B,
    0x88, 0xD6, 0x34, 0x6A, 0x2B, 0x75, 0x97, 0xC9, 0x4A, 0x14, 0xF6, 0xA8,
    0x74, 0x2A, 0xC8, 0x96, 0x15, 0x4B, 0xA9, 0xF7, 0xB6, 0xE8, 0x0A, 0x54,
    0xD7, 0x89, 0x6B, 0x35]

/-- `CrcTable[byte ^ Checksum]`. -/
def crcStep (checksum byte : Byte) : Byte := CrcTable.getD (byte ^^^ checksum).toNat 0

/-- The key table of a `PacketCodec`; `changeSeed` fills `0x10` rows of `0x800`. -/
structure PacketCodec where
  m_Rt : ℕ → ℕ → BitVec 32

/-- `b ^= k` for an `unsigned char` and an `int`: the byte is promoted, and the result
cut back to eight bits. -/
def xorKey (b : Byte) (k : BitVec 32) : Byte := (b.setWidth 32 ^^^ k).setWidth 8

/-! ## Header fields and layouts -/

/-- The fields of the header `struct`s. -/
inductive HeadField
  | AddBufferLen1 | AddBufferLen2 | AddBufferLen3 | AddBufferLen4
  | Command1 | Command2 | Command3 | Command4
  | AddTableValue1 | AddTableValue2 | AddTableValue3 | AddTableValue4
  | EncryptAddValue1 | EncryptAddValue2 | EncryptValue1
  deriving DecidableEq, Repr

open HeadField

/-- The declared width of a field, the same in all three `struct`s. -/
def HeadField.width : HeadField → ℕ
  | AddBufferLen4 | Command4 | AddTableValue4 | EncryptAddValue1 | EncryptAddValue2 => 2
  | _ => 3

/-- The five header bytes as one little-endian word. -/
abbrev HeadBits := BitVec (8 * 5)

/-- `struct HeadCryptedServer`: twelve fields fill a `uint32_t`, three a `uint8_t`. -/
def HeadCryptedServer : Layout HeadField.width (8 * 5) where
  fields := [AddBufferLen2, AddTableValue1, Command3, EncryptValue1, AddBufferLen3,
    AddTableValue3, Command2, AddTableValue4, Command1, EncryptAddValue1, AddBufferLen4,
    EncryptAddValue2, AddBufferLen1, AddTableValue2, Command4]
  nodup := by decide
  complete := by intro f; cases f <;> decide
  total := by decide

/-- `struct HeadCryptedClient`. -/
def HeadCryptedClient : Layout HeadField.width (8 * 5) where
  fields := [Command2, AddTableValue2, AddBufferLen1, AddTableValue3, Command1,
    EncryptValue1, AddBufferLen2, EncryptAddValue2, AddBufferLen3, AddTableValue4,
    Command4, EncryptAddValue1, Command3, AddTableValue1, AddBufferLen4]
  nodup := by decide
  complete := by intro f; cases f <;> decide
  total := by decide

/-- `struct HeadDecrypted`. -/
def HeadDecrypted : Layout HeadField.width (8 * 5) where
  fields := [AddBufferLen1, AddBufferLen2, AddBufferLen3, AddBufferLen4, Command1,
    Command2, Command3, Command4, AddTableValue1, AddTableValue2, AddTableValue3,
    AddTableValue4, EncryptAddValue1, EncryptAddValue2, EncryptValue1]
  nodup := by decide
  complete := by intro f; cases f <;> decide
  total := by decide

/-- The fields of `struct Head`. -/
inductive HeadPart
  | AddBufferLen | Command | AddTableValue | EncryptAddValue | EncryptValue
  deriving DecidableEq, Repr

/-- The declared width of a `Head` field. -/
def HeadPart.width : HeadPart → ℕ
  | AddBufferLen | Command | AddTableValue => 11
  | EncryptAddValue => 4
  | EncryptValue => 3

/-- `struct Head`, the same forty bits as `HeadDecrypted` in five fields. -/
def Head : Layout HeadPart.width (8 * 5) where
  fields := [.AddBufferLen, .Command, .AddTableValue, .EncryptAddValue, .EncryptValue]
  nodup := by decide
  complete := by intro f; cases f <;> decide
  total := by decide

/-- The fields `FlipHeadMain` assigns. -/
def mainFields : List HeadField :=
  [AddBufferLen1, AddBufferLen2, AddBufferLen3, AddBufferLen4, Command1, Command2,
    Command3, Command4, EncryptValue1, EncryptAddValue1, EncryptAddValue2]

/-- The fields `FlipHeadFinal` assigns. -/
def finalFields : List HeadField :=
  [AddTableValue1, AddTableValue2, AddTableValue3, AddTableValue4]

/-- `FlipHeadMain(a, b)`: everything but the table index. -/
def FlipHeadMain (dst src : Layout HeadField.width (8 * 5)) (a b : HeadBits) : HeadBits :=
  dst.copy src mainFields a b

/-- `FlipHeadFinal(a, b)`: the table index. -/
def FlipHeadFinal (dst src : Layout HeadField.width (8 * 5)) (a b : HeadBits) : HeadBits :=
  dst.copy src finalFields a b

/-- `((unsigned char*)&head)[i]`. -/
def headByte (head : HeadBits) (i : ℕ) : Byte := head.extractLsb' (8 * i) 8

/-! ## Loops -/

/-- `m_Rt[i][head.AddTableValue]`, the key of header byte `i`. -/
def headKey (codec : PacketCodec) (head : HeadBits) (i : ℕ) : BitVec 32 :=
  codec.m_Rt i (Head.get .AddTableValue head).toNat

/-- `m_Rt[(head.EncryptAddValue + i) & 0xF][(head.AddTableValue + i) & 0x7FF]`, the key
of body byte `i`. -/
def bodyKey (codec : PacketCodec) (head : HeadBits) (i : ℕ) : BitVec 32 :=
  codec.m_Rt (((Head.get .EncryptAddValue head).toNat + i) &&& 0xF)
    (((Head.get .AddTableValue head).toNat + i) &&& 0x7FF)

/-- The encoders' header loop: checksum of `head`, key on the buffer. -/
def encodeHeadLoop (codec : PacketCodec) (head : HeadBits) : MemM Byte :=
  forRange (fun i checksum => do
    let b ← load i
    store i (xorKey b (headKey codec head i))
    return crcStep checksum (headByte head i)) 0 5 0

/-- The encoders' body loop, `for (i = 6; i < head.AddBufferLen; i++)`: a byte enters
the checksum before it is keyed. -/
def encodeBodyLoop (codec : PacketCodec) (head : HeadBits) (checksum : Byte) : MemM Byte :=
  forRange (fun i checksum => do
    let b ← load i
    store i (xorKey b (bodyKey codec head i))
    return crcStep checksum b) 6 ((Head.get .AddBufferLen head).toNat - 6) checksum

/-- The header decoders' loop. -/
def decodeHeadLoop (codec : PacketCodec) (head : HeadBits) : MemM Unit :=
  forRange (fun i _ => do
    let b ← load i
    store i (xorKey b (headKey codec head i))) 0 5 ()

/-- The body decoders' checksum of `head`. -/
def headChecksum (head : HeadBits) : Byte :=
  (List.range' 0 5).foldl (fun checksum i => crcStep checksum (headByte head i)) 0

/-- The body decoders' loop, `for (i = 6; i < buflen; i++)`: a byte is keyed before it
enters the checksum. -/
def decodeBodyLoop (codec : PacketCodec) (head : HeadBits) (buflen : ℕ) (checksum : Byte) :
    MemM Byte :=
  forRange (fun i checksum => do
    let b ← load i
    let b' := xorKey b (bodyKey codec head i)
    store i b'
    return crcStep checksum b') 6 (buflen - 6) checksum

/-! ## Encoders -/

/-- The `Head` an encoder builds from the plain size and command and its own
`EncryptValue`; the table index and `EncryptAddValue` are fixed. -/
def mkHead (size command : BitVec 16) (encryptValue : BitVec HeadPart.EncryptValue.width) :
    HeadBits :=
  let head : HeadBits := 0
  let head := Head.set .AddTableValue (BitVec.ofNat _ 0x100) head
  let head := Head.set .EncryptAddValue (BitVec.ofNat _ 0x04) head
  let head := Head.set .EncryptValue encryptValue head
  let head := Head.set .AddBufferLen (size.setWidth _) head
  Head.set .Command (command.setWidth _) head

/-- The common body of `encodeServerPacket` and `encodeClientPacket`. -/
def encodePacket (layout : Layout HeadField.width (8 * 5))
    (encryptValue : BitVec HeadPart.EncryptValue.width) (codec : PacketCodec) :
    MemM Unit := do
  let size ← loadLE 2 0
  let command ← loadLE 2 2
  let head := mkHead size command encryptValue
  let w ← loadLE 5 0
  -- the other fields of the header keep the bits of the plain packet until `FlipHeadFinal`
  storeLE 5 0 (FlipHeadMain layout HeadDecrypted w head)
  let checksum ← encodeHeadLoop codec head
  let checksum ← encodeBodyLoop codec head checksum
  store 5 checksum
  -- the table index goes in behind the loop that keys the header, so it is sent in clear
  let w ← loadLE 5 0
  storeLE 5 0 (FlipHeadFinal layout HeadDecrypted w head)

/-- `PacketCodec::encodeServerPacket`: `EncryptValue` is the sum of the two other
values, cut to its three bits. -/
def encodeServerPacket : PacketCodec → MemM Unit :=
  encodePacket HeadCryptedServer (BitVec.ofNat _ (0x100 + 0x04))

/-- `PacketCodec::encodeClientPacket`. -/
def encodeClientPacket : PacketCodec → MemM Unit := encodePacket HeadCryptedClient 0

/-! ## Decoders -/

/-- The common body of `decodeServerHeader` and `decodeClientHeader`. -/
def decodeHeader (layout : Layout HeadField.width (8 * 5)) (codec : PacketCodec) :
    MemM (BitVec 16) := do
  let w ← loadLE 5 0
  -- only the table index is readable, and it is all the header key needs
  let head := FlipHeadFinal HeadDecrypted layout 0 w
  decodeHeadLoop codec head
  let w ← loadLE 5 0
  let head := FlipHeadMain HeadDecrypted layout head w
  storeLE 5 0 head
  return (Head.get .AddBufferLen head).setWidth 16

/-- `PacketCodec::decodeServerHeader`. -/
def decodeServerHeader : PacketCodec → MemM (BitVec 16) := decodeHeader HeadCryptedServer

/-- `PacketCodec::decodeClientHeader`. -/
def decodeClientHeader : PacketCodec → MemM (BitVec 16) := decodeHeader HeadCryptedClient

/-- The common body of `decodeServerBody` and `decodeClientBody`; `memcpy(&head, buffer,
6)` reads six bytes, of which `head` names the first forty bits. -/
def decodeBody (bufLen : HeadBits → BitVec 16) (codec : PacketCodec) : MemM Bool := do
  let w ← loadLE 6 0
  let head := w.setWidth (8 * 5)
  let buflen := bufLen head
  let checksum ← decodeBodyLoop codec head buflen.toNat (headChecksum head)
  let b ← load 5
  -- the body has been rewritten by now, whatever the answer
  if checksum ≠ b then
    return false
  storeLE 2 0 buflen
  storeLE 2 2 ((Head.get .Command head).setWidth 16)
  return true

/-- `(unsigned short)(head.AddBufferLen)`. -/
def serverBufLen (head : HeadBits) : BitVec 16 := (Head.get .AddBufferLen head).setWidth 16

/-- `(unsigned short)(head.AddBufferLen - head.EncryptValue)`: the subtraction wraps. -/
def clientBufLen (head : HeadBits) : BitVec 16 :=
  (Head.get .AddBufferLen head).setWidth 16 - (Head.get .EncryptValue head).setWidth 16

/-- `PacketCodec::decodeServerBody`. -/
def decodeServerBody : PacketCodec → MemM Bool := decodeBody serverBufLen

/-- `PacketCodec::decodeClientBody`. -/
def decodeClientBody : PacketCodec → MemM Bool := decodeBody clientBufLen

/-! ## The header in `Head` and in `HeadDecrypted` -/

@[simp] theorem xorKey_xorKey (b : Byte) (k : BitVec 32) : xorKey (xorKey b k) k = b := by
  apply BitVec.eq_of_getLsbD_eq
  intro i hi
  simp [xorKey, hi]

theorem xorKey_eq (b : Byte) (k : BitVec 32) : xorKey b k = b ^^^ k.setWidth 8 := by
  apply BitVec.eq_of_getLsbD_eq
  intro i hi
  simp [xorKey, hi]

/-- The table index is read off the four `AddTableValue` fields alone. -/
theorem AddTableValue_congr {x y : HeadBits}
    (h : ∀ f ∈ finalFields, HeadDecrypted.get f x = HeadDecrypted.get f y) :
    Head.get .AddTableValue x = Head.get .AddTableValue y := by
  have hcov : ∀ i, Head.off .AddTableValue ≤ i →
      i < Head.off .AddTableValue + HeadPart.AddTableValue.width →
      ∃ f ∈ finalFields, HeadDecrypted.off f ≤ i ∧ i < HeadDecrypted.off f + f.width := by
    have hoff : Head.off .AddTableValue = 22 := by decide
    have hwid : HeadPart.AddTableValue.width = 11 := rfl
    have htable : ∀ i, i < 33 → 22 ≤ i → ∃ f ∈ finalFields,
        HeadDecrypted.off f ≤ i ∧ i < HeadDecrypted.off f + f.width := by decide
    -- bits 22 to 32 of the forty
    intro i hlo hhi
    rw [hoff] at hlo hhi
    rw [hwid] at hhi
    exact htable i (by omega) hlo
  exact HeadDecrypted.extractLsb'_eq_of_get hcov h

/-- A field of `HeadDecrypted` lies inside a field of `Head`. -/
theorem get_HeadDecrypted {f : HeadField} (p : HeadPart)
    (hlow : Head.off p ≤ HeadDecrypted.off f)
    (hhigh : HeadDecrypted.off f + f.width ≤ Head.off p + p.width) (x : HeadBits) :
    HeadDecrypted.get f x =
      (Head.get p x).extractLsb' (HeadDecrypted.off f - Head.off p) f.width := by
  apply BitVec.eq_of_getLsbD_eq
  intro i hi
  have hin : HeadDecrypted.off f - Head.off p + i < p.width := by omega
  have hsum : Head.off p + (HeadDecrypted.off f - Head.off p + i) =
      HeadDecrypted.off f + i := by omega
  rw [Layout.getLsbD_get, BitVec.getLsbD_extractLsb', Layout.getLsbD_get, hsum,
    decide_eq_true hin, Bool.true_and]

/-- Every field is assigned by exactly one of the two flips. -/
theorem mem_mainFields_or_finalFields (f : HeadField) :
    f ∈ mainFields ∧ f ∉ finalFields ∨ f ∈ finalFields ∧ f ∉ mainFields := by
  cases f <;> decide

section mkHead

variable (size command : BitVec 16) (encryptValue : BitVec HeadPart.EncryptValue.width)

@[simp] theorem mkHead_AddBufferLen :
    Head.get .AddBufferLen (mkHead size command encryptValue) = size.setWidth _ := by
  simp only [mkHead]
  rw [Layout.get_set_of_ne _ (by decide), Layout.get_set_self]

@[simp] theorem mkHead_Command :
    Head.get .Command (mkHead size command encryptValue) = command.setWidth _ := by
  simp only [mkHead]
  rw [Layout.get_set_self]

@[simp] theorem mkHead_AddTableValue :
    Head.get .AddTableValue (mkHead size command encryptValue) 
      = BitVec.ofNat _ 0x100 := by
  simp only [mkHead]
  rw [Layout.get_set_of_ne _ (by decide), Layout.get_set_of_ne _ (by decide),
    Layout.get_set_of_ne _ (by decide), Layout.get_set_of_ne _ (by decide),
    Layout.get_set_self]

@[simp] theorem mkHead_EncryptAddValue :
    Head.get .EncryptAddValue (mkHead size command encryptValue) = BitVec.ofNat _ 0x04 := by
  simp only [mkHead]
  rw [Layout.get_set_of_ne _ (by decide), Layout.get_set_of_ne _ (by decide),
    Layout.get_set_of_ne _ (by decide), Layout.get_set_self]

@[simp] theorem mkHead_EncryptValue :
    Head.get .EncryptValue (mkHead size command encryptValue) = encryptValue := by
  simp only [mkHead]
  rw [Layout.get_set_of_ne _ (by decide), Layout.get_set_of_ne _ (by decide),
    Layout.get_set_self]

end mkHead

end OsIrose.Crypt

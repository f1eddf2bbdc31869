/-
A header that `encodeServerPacket` wrote, as `decodeClientHeader` and `decodeClientBody` read it
(`rosecommon/src/crosecrypt.cpp`), under the key table of `PacketCodec()`.

The fields of one layout are read at the places of the other. Two parts of the table index that
the client finds are other fields under their keys, so it looks up column `0x7C0` and not the
`0x100` that the encoder used. The middle bits of the length and of the command then change
places, each under what is left of the two keys, and these do not let both come out as they were
(`not_crossedHead`), whatever the packet.
-/
import OsIrose.KeyValues
import OsIrose.Socket

set_option autoImplicit false

namespace OsIrose.Crypt

open BitLayout ByteMem HeadField Network

/-! ## A server's header in the client's layout -/

section

variable (w : HeadBits) (size command : BitVec 16)

/-- The `Head` that `encodeServerPacket` builds. -/
def serverHead : HeadBits := mkHead size command (BitVec.ofNat _ (0x100 + 0x04))

/-- The header bytes that it leaves. -/
def serverWord : HeadBits :=
  cryptHead HeadCryptedServer PacketCodec.default w (serverHead size command)

/-- What `decodeClientHeader` makes of them. -/
def crossedHead : HeadBits :=
  decryptHead HeadCryptedClient PacketCodec.default (serverWord w size command)

/-! ### On the wire -/

theorem headKey_serverHead (i : ℕ) :
    headKey PacketCodec.default (serverHead size command) i =
      PacketCodec.default.m_Rt i 0x100 := by
  rw [headKey, serverHead, mkHead_AddTableValue]
  rfl

/-- A part of the table index is in clear. -/
theorem get_serverWord_final {f : HeadField} (hf : f ∈ finalFields) :
    HeadCryptedServer.get f (serverWord w size command) =
      HeadDecrypted.get f (serverHead size command) := by
  rw [serverWord, get_cryptHead_final _ _ _ _ hf]

/-- Any other field is under the key of the byte it lies in. -/
theorem get_serverWord_main {f : HeadField} {i : ℕ} (hf : f ∈ mainFields) (hi : i < 5)
    (hlow : 8 * i ≤ HeadCryptedServer.off f)
    (hhigh : HeadCryptedServer.off f + f.width ≤ 8 * i + 8) :
    HeadCryptedServer.get f (serverWord w size command) =
      HeadDecrypted.get f (serverHead size command) ^^^
        ((PacketCodec.default.m_Rt i 0x100).setWidth 8).extractLsb'
          (HeadCryptedServer.off f - 8 * i) f.width := by
  rw [serverWord, get_cryptHead_main _ _ _ _ hf, get_keyWord hi hlow hhigh, headKey_serverHead]

/-! ### The column -/

/-- The client's decoder looks up another column. -/
theorem AddTableValue_crossed :
    Head.get .AddTableValue
        (FlipHeadFinal HeadDecrypted HeadCryptedClient 0 (serverWord w size command)) =
      0x7C0#11 := by
  set x := serverWord w size command with hx
  obtain ⟨-, hone, -, hthree⟩ := default_m_Rt_0x100
  have htable : Head.get .AddTableValue (serverHead size command) = 0x100#11 :=
    mkHead_AddTableValue _ _ _
  have hencrypt : Head.get .EncryptValue (serverHead size command) = 4#3 :=
    mkHead_EncryptValue _ _ _
  have hadd : Head.get .EncryptAddValue (serverHead size command) = 4#4 :=
    mkHead_EncryptAddValue _ _ _
  -- two parts of the index in clear, and two parts of other fields under their keys
  have h1 : HeadCryptedClient.get AddTableValue1 x = 0#3 := by
    have h : HeadCryptedClient.get AddTableValue1 x = HeadCryptedServer.get AddTableValue2 x := rfl
    rw [h, hx, get_serverWord_final _ _ _ (by decide),
      get_HeadDecrypted .AddTableValue (by decide) (by decide), htable]
    rfl
  have h2 : HeadCryptedClient.get AddTableValue2 x = 0#3 := by
    have h : HeadCryptedClient.get AddTableValue2 x = HeadCryptedServer.get AddTableValue1 x := rfl
    rw [h, hx, get_serverWord_final _ _ _ (by decide),
      get_HeadDecrypted .AddTableValue (by decide) (by decide), htable]
    rfl
  have h3 : HeadCryptedClient.get AddTableValue3 x = 7#3 := by
    have h : HeadCryptedClient.get AddTableValue3 x = HeadCryptedServer.get EncryptValue1 x := rfl
    rw [h, hx, get_serverWord_main (i := 1) _ _ _ (by decide) (by decide) (by decide) (by decide),
      get_HeadDecrypted .EncryptValue (by decide) (by decide), hencrypt, hone]
    rfl
  have h4 : HeadCryptedClient.get AddTableValue4 x = 3#2 := by
    have h : HeadCryptedClient.get AddTableValue4 x =
        HeadCryptedServer.get EncryptAddValue1 x := rfl
    rw [h, hx, get_serverWord_main (i := 3) _ _ _ (by decide) (by decide) (by decide) (by decide),
      get_HeadDecrypted .EncryptAddValue (by decide) (by decide), hadd, hthree]
    rfl
  have hindex : ∀ f ∈ finalFields, HeadDecrypted.get f
      (FlipHeadFinal HeadDecrypted HeadCryptedClient 0 x) =
        HeadDecrypted.get f (Head.set .AddTableValue (BitVec.ofNat _ 0x7C0) 0) := by
    intro f hf
    rw [FlipHeadFinal, Layout.get_copy_of_mem _ _ hf]
    have hcases : f = AddTableValue1 ∨ f = AddTableValue2 ∨ f = AddTableValue3 ∨
        f = AddTableValue4 := by simpa [finalFields] using hf
    rcases hcases with rfl | rfl | rfl | rfl
    · rw [h1]
      rfl
    · rw [h2]
      rfl
    · rw [h3]
      rfl
    · rw [h4]
      rfl
  exact (AddTableValue_congr hindex).trans (Layout.get_set_self _ _ _ _)

theorem headKey_crossed (i : ℕ) :
    headKey PacketCodec.default
        (FlipHeadFinal HeadDecrypted HeadCryptedClient 0 (serverWord w size command)) i =
      PacketCodec.default.m_Rt i 0x7C0 := by
  rw [headKey, AddTableValue_crossed]
  rfl

/-! ### The middle bits of length and command -/

/-- A field that the client reads at the place of another, under what is left of the two
keys. -/
theorem toNat_get_crossedHead {f g : HeadField} {i : ℕ} (hi : i < 5)
    (hslot : ∀ x, (HeadCryptedClient.get f x).toNat = (HeadCryptedServer.get g x).toNat)
    (hf : f ∈ mainFields) (hlow : 8 * i ≤ HeadCryptedClient.off f)
    (hhigh : HeadCryptedClient.off f + f.width ≤ 8 * i + 8)
    (hg : g ∈ mainFields) (hlow' : 8 * i ≤ HeadCryptedServer.off g)
    (hhigh' : HeadCryptedServer.off g + g.width ≤ 8 * i + 8) :
    (HeadDecrypted.get f (crossedHead w size command)).toNat =
      (HeadDecrypted.get g (serverHead size command)).toNat ^^^
        ((((PacketCodec.default.m_Rt i 0x100).setWidth 8).extractLsb'
            (HeadCryptedServer.off g - 8 * i) g.width).toNat ^^^
          (((PacketCodec.default.m_Rt i 0x7C0).setWidth 8).extractLsb'
            (HeadCryptedClient.off f - 8 * i) f.width).toNat) := by
  rw [crossedHead, get_decryptHead_main _ _ _ hf, BitVec.toNat_xor, hslot,
    get_keyWord hi hlow hhigh, headKey_crossed, get_serverWord_main _ _ _ hg hi hlow' hhigh',
    BitVec.toNat_xor, Nat.xor_assoc]

theorem toNat_Command2_crossedHead :
    (HeadDecrypted.get Command2 (crossedHead w size command)).toNat =
      (HeadDecrypted.get AddBufferLen2 (serverHead size command)).toNat ^^^ 4 := by
  rw [toNat_get_crossedHead (g := AddBufferLen2) (i := 0) _ _ _ (by decide) (fun _ => rfl)
    (by decide) (by decide) (by decide) (by decide) (by decide) (by decide), default_m_Rt_0x100.1,
    default_m_Rt_0x7C0.1]
  rfl

theorem toNat_AddBufferLen2_crossedHead :
    (HeadDecrypted.get AddBufferLen2 (crossedHead w size command)).toNat =
      (HeadDecrypted.get Command2 (serverHead size command)).toNat ^^^ 2 := by
  rw [toNat_get_crossedHead (g := Command2) (i := 2) _ _ _ (by decide) (fun _ => rfl)
    (by decide) (by decide) (by decide) (by decide) (by decide) (by decide),
    default_m_Rt_0x100.2.2.1, default_m_Rt_0x7C0.2]
  rfl

/-- Bits 3 to 5 of the length. -/
theorem toNat_AddBufferLen2 (head : HeadBits) :
    (HeadDecrypted.get AddBufferLen2 head).toNat =
      (Head.get .AddBufferLen head).toNat / 8 % 8 := by
  rw [get_HeadDecrypted .AddBufferLen (by decide) (by decide),
    BitVec.extractLsb'_toNat, Nat.shiftRight_eq_div_pow]
  rfl

/-- Bits 3 to 5 of the command. -/
theorem toNat_Command2 (head : HeadBits) :
    (HeadDecrypted.get Command2 head).toNat = (Head.get .Command head).toNat / 8 % 8 := by
  rw [get_HeadDecrypted .Command (by decide) (by decide),
    BitVec.extractLsb'_toNat, Nat.shiftRight_eq_div_pow]
  rfl

/-- **The client's decoders do not give size and command back**: bits 3 to 5 of the two change
places, under keys that do not let them agree. -/
theorem not_crossedHead (hsize : size.toNat ≤ 2046)
    (hlen : (clientBufLen (crossedHead w size command)).toNat = size.toNat)
    (hcommand : (Head.get .Command (crossedHead w size command)).setWidth 16 = command) :
    False := by
  have hC := toNat_Command2_crossedHead w size command
  have hA := toNat_AddBufferLen2_crossedHead w size command
  rw [toNat_Command2, toNat_AddBufferLen2] at hC
  rw [toNat_AddBufferLen2, toNat_Command2] at hA
  set head := serverHead size command with hhead
  set d := crossedHead w size command with hd
  have hsize' : (Head.get .AddBufferLen head).toNat = size.toNat % 2048 := by
    rw [hhead, serverHead, mkHead_AddBufferLen, BitVec.toNat_setWidth]
    rfl
  have hcommand' : (Head.get .Command head).toNat = command.toNat % 2048 := by
    rw [hhead, serverHead, mkHead_Command, BitVec.toNat_setWidth]
    rfl
  have hsent : (Head.get .Command d).toNat = command.toNat := by
    have hlt : (Head.get .Command d).toNat < 2048 := (Head.get .Command d).isLt
    rw [← hcommand, BitVec.toNat_setWidth]
    exact (Nat.mod_eq_of_lt (by omega)).symm
  -- the length behind is the one before and `EncryptValue`
  have hsum : Socket.headLen d = size.toNat + Socket.headEncrypt d := by
    have hl := Socket.headLen_lt d
    have he := Socket.headEncrypt_lt d
    rw [Socket.clientBufLen_toNat] at hlen
    omega
  have he := Socket.headEncrypt_lt d
  -- `4` and `2` are what is left of the two keys
  rw [hsize', hsent] at hC
  rw [hcommand'] at hA
  change command.toNat / 8 % 8 = size.toNat % 2048 / 8 % 8 ^^^ 4 at hC
  change Socket.headLen d / 8 % 8 = command.toNat % 2048 / 8 % 8 ^^^ 2 at hA
  have hmod : ∀ n : ℕ, n % 2048 / 8 % 8 = n / 8 % 8 := fun n => by omega
  rw [hmod] at hC hA
  rw [hsum, hC] at hA
  have hkeys : ∀ a, a < 8 → a ^^^ 4 ^^^ 2 ≠ a ∧ a ^^^ 4 ^^^ 2 ≠ (a + 1) % 8 := by decide
  have hkey := hkeys (size.toNat / 8 % 8) (Nat.mod_lt _ (by decide))
  rw [← hA] at hkey
  omega

end

end OsIrose.Crypt

/-
What the codec computes: one lemma for each loop, one for each entry point, and the
round trip of the two directions.

The header is settled on words, away from memory. `cryptHead` is what an encoder
leaves in the five header bytes and `decryptHead` what a header decoder reads out of
them; `decryptHead_cryptHead` says the second undoes the first, for any two layouts
of the same fields and any key table. It is the place where the table index has to
survive in clear: `FlipHeadFinal` writes it after the key, so the decoder finds the
column before it can remove the key.

The body is `forRange_pointwise` four times. Encoder and decoder take the byte into
the checksum on opposite sides of the key, so both checksums run over the plain bytes.
-/
import OsIrose.Crypt

set_option autoImplicit false

namespace OsIrose.Crypt

open BitLayout ByteMem HeadField

/-! ## The loops -/

/-- The checksum of the body bytes `6 .. n-1`, from a given start. -/
def bodyChecksum (b : ℕ → Byte) (n : ℕ) (checksum : Byte) : Byte :=
  (List.range' 6 (n - 6)).foldl (fun t i => crcStep t (b i)) checksum

/-- The checksum depends on the bytes of the body only. -/
theorem bodyChecksum_congr {b c : ℕ → Byte} {n : ℕ} (h : ∀ i, 6 ≤ i → i < n → b i = c i)
    (checksum : Byte) : bodyChecksum b n checksum = bodyChecksum c n checksum := by
  unfold bodyChecksum
  apply List.foldl_ext
  intro t i hi
  have hi' := List.mem_range'_1.mp hi
  rw [h i hi'.1 (by omega)]

theorem encodeHeadLoop_run (codec : PacketCodec) (head : HeadBits) (m : Mem) :
    ((encodeHeadLoop codec head).run m).1 = headChecksum head ∧
      ∀ j, ((encodeHeadLoop codec head).run m).2.bytes j
        = if j < 5 then xorKey (m.bytes j) (headKey codec head j) else m.bytes j := by
  have h := forRange_pointwise
    (fun i checksum => do
      let b ← load i
      store i (xorKey b (headKey codec head i))
      return crcStep checksum (headByte head i))
    (fun i t _ => crcStep t (headByte head i))
    (fun i b => xorKey b (headKey codec head i))
    (fun i s m => rfl) (fun i s m => rfl) 0 5 (0 : Byte) m
  refine ⟨h.1, fun j => ?_⟩
  have hj := h.2 j
  simp only [Nat.zero_le, Nat.zero_add, true_and] at hj
  exact hj

theorem decodeHeadLoop_run (codec : PacketCodec) (head : HeadBits) (m : Mem) (j : ℕ) :
    ((decodeHeadLoop codec head).run m).2.bytes j
      = if j < 5 then xorKey (m.bytes j) (headKey codec head j) else m.bytes j := by
  have h := (forRange_pointwise
    (fun i (_ : Unit) => do
      let b ← load i
      store i (xorKey b (headKey codec head i)))
    (fun _ _ _ => ())
    (fun i b => xorKey b (headKey codec head i))
    (fun i s m => rfl) (fun i s m => rfl) 0 5 () m).2 j
  simp only [Nat.zero_le, Nat.zero_add, true_and] at h
  exact h

/-- The two ways of writing the range of a body loop. -/
private theorem body_range {j n : ℕ} : 6 ≤ j ∧ j < 6 + (n - 6) ↔ 6 ≤ j ∧ j < n := by
  omega

theorem encodeBodyLoop_run (codec : PacketCodec) (head : HeadBits) (checksum : Byte)
    (m : Mem) :
    ((encodeBodyLoop codec head checksum).run m).1
        = bodyChecksum m.bytes (Head.get .AddBufferLen head).toNat checksum ∧
      ∀ j, ((encodeBodyLoop codec head checksum).run m).2.bytes j
        = if 6 ≤ j ∧ j < (Head.get .AddBufferLen head).toNat
          then xorKey (m.bytes j) (bodyKey codec head j) else m.bytes j := by
  have h := forRange_pointwise
    (fun i checksum => do
      let b ← load i
      store i (xorKey b (bodyKey codec head i))
      return crcStep checksum b)
    (fun _ t b => crcStep t b)
    (fun i b => xorKey b (bodyKey codec head i))
    (fun i s m => rfl) (fun i s m => rfl)
    6 ((Head.get .AddBufferLen head).toNat - 6) checksum m
  refine ⟨h.1, fun j => ?_⟩
  have hj := h.2 j
  simp only [body_range] at hj
  exact hj

theorem decodeBodyLoop_run (codec : PacketCodec) (head : HeadBits) (n : ℕ)
    (checksum : Byte) (m : Mem) :
    ((decodeBodyLoop codec head n checksum).run m).1
        = bodyChecksum (fun i => xorKey (m.bytes i) (bodyKey codec head i)) n checksum ∧
      ∀ j, ((decodeBodyLoop codec head n checksum).run m).2.bytes j
        = if 6 ≤ j ∧ j < n
          then xorKey (m.bytes j) (bodyKey codec head j) else m.bytes j := by
  have h := forRange_pointwise
    (fun i checksum => do
      let b ← load i
      let b' := xorKey b (bodyKey codec head i)
      store i b'
      return crcStep checksum b')
    (fun i t b => crcStep t (xorKey b (bodyKey codec head i)))
    (fun i b => xorKey b (bodyKey codec head i))
    (fun i s m => rfl) (fun i s m => rfl) 6 (n - 6) checksum m
  refine ⟨h.1, fun j => ?_⟩
  have hj := h.2 j
  simp only [body_range] at hj
  exact hj

/-! ## The header as a word -/

/-- The key of the five header bytes as one word. -/
def keyWord (codec : PacketCodec) (head : HeadBits) : HeadBits :=
  wordLE (fun i => (headKey codec head i).setWidth 8) 5 0

/-- What an encoder leaves in the header bytes that held `w`. -/
def cryptHead (layout : Layout HeadField.width (8 * 5)) (codec : PacketCodec)
    (w head : HeadBits) : HeadBits :=
  FlipHeadFinal layout HeadDecrypted
    (FlipHeadMain layout HeadDecrypted w head ^^^ keyWord codec head) head

/-- What a header decoder makes of the header bytes `w`. -/
def decryptHead (layout : Layout HeadField.width (8 * 5)) (codec : PacketCodec)
    (w : HeadBits) : HeadBits :=
  let head := FlipHeadFinal HeadDecrypted layout 0 w
  FlipHeadMain HeadDecrypted layout head (w ^^^ keyWord codec head)

theorem keyWord_congr (codec : PacketCodec) {x y : HeadBits}
    (h : Head.get .AddTableValue x = Head.get .AddTableValue y) :
    keyWord codec x = keyWord codec y := by
  unfold keyWord headKey
  rw [h]

/-- A field of the wire header inside one byte has the key of that byte. -/
theorem get_keyWord {layout : Layout HeadField.width (8 * 5)} {f : HeadField} {i : ℕ}
    (hi : i < 5) (hlow : 8 * i ≤ layout.off f) (hhigh : layout.off f + f.width ≤ 8 * i + 8)
    (codec : PacketCodec) (head : HeadBits) :
    layout.get f (keyWord codec head) =
      ((headKey codec head i).setWidth 8).extractLsb' (layout.off f - 8 * i) f.width := by
  apply BitVec.eq_of_getLsbD_eq
  intro j hj
  have hword : layout.off f + j < 8 * 5 := by omega
  have hbyte : (layout.off f + j) / 8 = i := by omega
  have hbit : (layout.off f + j) % 8 = layout.off f - 8 * i + j := by omega
  rw [Layout.getLsbD_get, keyWord, getLsbD_wordLE, BitVec.getLsbD_extractLsb',
    decide_eq_true hword, Bool.true_and, hbyte, hbit, Nat.zero_add]

section

variable (layout : Layout HeadField.width (8 * 5)) (codec : PacketCodec) (w head : HeadBits)
  {f : HeadField}

/-- Everything but the table index is keyed. -/
theorem get_cryptHead_main (hf : f ∈ mainFields) :
    layout.get f (cryptHead layout codec w head) =
      HeadDecrypted.get f head ^^^ layout.get f (keyWord codec head) := by
  have hnot : f ∉ finalFields := by
    rcases mem_mainFields_or_finalFields f with h | h
    · exact h.2
    · exact absurd hf h.2
  rw [cryptHead, FlipHeadFinal, Layout.get_copy_of_notMem _ _ hnot, Layout.get_xor,
    FlipHeadMain, Layout.get_copy_of_mem _ _ hf]

/-- The table index goes through in clear. -/
theorem get_cryptHead_final (hf : f ∈ finalFields) :
    layout.get f (cryptHead layout codec w head) = HeadDecrypted.get f head := by
  rw [cryptHead, FlipHeadFinal, Layout.get_copy_of_mem _ _ hf]

theorem get_decryptHead_main (hf : f ∈ mainFields) :
    HeadDecrypted.get f (decryptHead layout codec w) =
      layout.get f w ^^^
        layout.get f (keyWord codec (FlipHeadFinal HeadDecrypted layout 0 w)) := by
  unfold decryptHead
  dsimp only
  rw [FlipHeadMain, Layout.get_copy_of_mem _ _ hf, Layout.get_xor]

theorem get_decryptHead_final (hf : f ∈ finalFields) :
    HeadDecrypted.get f (decryptHead layout codec w) = layout.get f w := by
  have hnot : f ∉ mainFields := by
    rcases mem_mainFields_or_finalFields f with h | h
    · exact absurd hf h.2
    · exact h.2
  unfold decryptHead
  dsimp only
  rw [FlipHeadMain, Layout.get_copy_of_notMem _ _ hnot, FlipHeadFinal,
    Layout.get_copy_of_mem _ _ hf]

/-- **The header decoder undoes the encoder**, in either layout. -/
theorem decryptHead_cryptHead :
    decryptHead layout codec (cryptHead layout codec w head) = head := by
  have hindex : ∀ f ∈ finalFields, HeadDecrypted.get f
      (FlipHeadFinal HeadDecrypted layout 0 (cryptHead layout codec w head)) =
        HeadDecrypted.get f head := by
    intro f hf
    rw [FlipHeadFinal, Layout.get_copy_of_mem _ _ hf, get_cryptHead_final _ _ _ _ hf]
  -- so both sides use the same key
  have hkey := keyWord_congr codec (AddTableValue_congr hindex)
  apply HeadDecrypted.ext_get
  intro f
  rcases mem_mainFields_or_finalFields f with ⟨hf, -⟩ | ⟨hf, -⟩
  · -- a keyed field: the two keys cancel
    rw [get_decryptHead_main _ _ _ hf, hkey, get_cryptHead_main _ _ _ _ hf, BitVec.xor_assoc,
      BitVec.xor_self, BitVec.xor_zero]
  · rw [get_decryptHead_final _ _ _ hf, get_cryptHead_final _ _ _ _ hf]

end

/-- Keying the five header bytes is one exclusive-or of the header word. -/
theorem wordLE_keyed {b c : ℕ → Byte} (codec : PacketCodec) (head : HeadBits)
    (h : ∀ j, c j = if j < 5 then xorKey (b j) (headKey codec head j) else b j) :
    wordLE c 5 0 = wordLE b 5 0 ^^^ keyWord codec head := by
  rw [keyWord, ← wordLE_xor]
  apply wordLE_congr
  intro k hk
  rw [h, if_pos (by omega), xorKey_eq]

/-- The word of the header bytes just stored. -/
theorem wordLE_storeLE (v : HeadBits) (m : Mem) :
    wordLE ((storeLE 5 0 v).run m).2.bytes 5 0 = v := by
  apply wordLE_eq_of_bytes
  intro k hk
  rw [storeLE_run_bytes, if_pos (by omega), Nat.zero_add, Nat.sub_zero]

/-! ## The entry points -/

section Encode

variable (layout : Layout HeadField.width (8 * 5))
    (encryptValue : BitVec HeadPart.EncryptValue.width) (codec : PacketCodec) (m : Mem)

/-- The `Head` an encoder builds for the packet in `m`. -/
def packetHead : HeadBits :=
  mkHead (wordLE m.bytes 2 0) (wordLE m.bytes 2 2) encryptValue

/-- **`encodeServerPacket`, `encodeClientPacket`**: the header bytes become the crypted
header, byte 5 the checksum of the plain packet, and the body is keyed up to the
length in the header. -/
theorem encodePacket_spec :
    wordLE ((encodePacket layout encryptValue codec).run m).2.bytes 5 0
        = cryptHead layout codec (wordLE m.bytes 5 0) (packetHead encryptValue m) ∧
      ((encodePacket layout encryptValue codec).run m).2.bytes 5
        = bodyChecksum m.bytes
            (Head.get .AddBufferLen (packetHead encryptValue m)).toNat
            (headChecksum (packetHead encryptValue m)) ∧
      ∀ j, 6 ≤ j → ((encodePacket layout encryptValue codec).run m).2.bytes j
        = if j < (Head.get .AddBufferLen (packetHead encryptValue m)).toNat
          then xorKey (m.bytes j) (bodyKey codec (packetHead encryptValue m) j)
          else m.bytes j := by
  set head := packetHead encryptValue m with hhead
  set n := (Head.get .AddBufferLen head).toNat
  -- the memory after each statement of the source
  set m₁ := ((loadLE 2 2).run ((loadLE 2 0).run m).2).2 with hm₁
  have hb₁ : m₁.bytes = m.bytes := by rw [hm₁, loadLE_run_bytes, loadLE_run_bytes]
  have hh₁ : mkHead ((loadLE 2 0).run m).1 ((loadLE 2 2).run ((loadLE 2 0).run m).2).1
      encryptValue = head := by
    rw [loadLE_run_fst, loadLE_run_fst, loadLE_run_bytes, hhead, packetHead]
  -- `FlipHeadMain`
  set m₂ := ((loadLE 5 0).run m₁).2 with hm₂
  have hb₂ : m₂.bytes = m.bytes := by rw [hm₂, loadLE_run_bytes, hb₁]
  set v := FlipHeadMain layout HeadDecrypted (wordLE m.bytes 5 0) head with hv
  have hv₂ : FlipHeadMain layout HeadDecrypted ((loadLE 5 0).run m₁).1 head = v := by
    rw [loadLE_run_fst, hb₁, hv]
  set m₃ := ((storeLE 5 0 v).run m₂).2 with hm₃
  have hw₃ : wordLE m₃.bytes 5 0 = v := wordLE_storeLE v m₂
  have hb₃ : ∀ j, 5 ≤ j → m₃.bytes j = m.bytes j := by
    intro j hj
    rw [hm₃, storeLE_run_bytes, if_neg (by omega), hb₂]
  -- the header loop: byte 5 and the body are still the plain packet's
  set r₄ := (encodeHeadLoop codec head).run m₃ with hr₄
  obtain ⟨hc₄, hb₄⟩ := encodeHeadLoop_run codec head m₃
  rw [← hr₄] at hc₄ hb₄
  have hw₄ : wordLE r₄.2.bytes 5 0 = v ^^^ keyWord codec head := by
    rw [wordLE_keyed codec head hb₄, hw₃]
  have hp₄ : ∀ j, 5 ≤ j → r₄.2.bytes j = m.bytes j := by
    intro j hj
    rw [hb₄, if_neg (by omega), hb₃ j hj]
  -- the body loop
  set r₅ := (encodeBodyLoop codec head r₄.1).run r₄.2 with hr₅
  obtain ⟨hc₅, hb₅⟩ := encodeBodyLoop_run codec head r₄.1 r₄.2
  rw [← hr₅] at hc₅ hb₅
  have hchk : r₅.1 = bodyChecksum m.bytes n (headChecksum head) := by
    rw [hc₅, hc₄]
    exact bodyChecksum_congr (fun i hi _ => hp₄ i (by omega)) _
  -- the checksum, which is no part of the header word
  set m₆ := ((store 5 r₅.1).run r₅.2).2 with hm₆
  have hb₆ : m₆.bytes = Function.update r₅.2.bytes 5 r₅.1 := rfl
  have hw₆ : wordLE m₆.bytes 5 0 = v ^^^ keyWord codec head := by
    rw [← hw₄]
    apply wordLE_congr
    intro k hk
    rw [hb₆, Function.update_of_ne (by omega), hb₅, if_neg (by omega)]
  set m₇ := ((loadLE 5 0).run m₆).2 with hm₇
  have hb₇ : m₇.bytes = m₆.bytes := loadLE_run_bytes 5 0 m₆
  have hrun : ((encodePacket layout encryptValue codec).run m).2
      = ((storeLE 5 0 (FlipHeadFinal layout HeadDecrypted (v ^^^ keyWord codec head)
          head)).run m₇).2 := by
    simp only [encodePacket, run_bind]
    rw [← hm₁, hh₁, ← hm₂, hv₂, ← hm₃, ← hr₄, ← hr₅, ← hm₆, ← hm₇, loadLE_run_fst, hw₆]
  rw [hrun]
  refine ⟨?_, ?_, ?_⟩
  · rw [wordLE_storeLE, hv, cryptHead]
  · rw [storeLE_run_bytes, if_neg (by omega), hb₇, hb₆, Function.update_self, hchk]
  · intro j hj
    rw [storeLE_run_bytes, if_neg (by omega), hb₇, hb₆, Function.update_of_ne (by omega),
      hb₅, hp₄ j (by omega)]
    by_cases hlt : j < n
    · rw [if_pos ⟨hj, hlt⟩, if_pos hlt]
    · rw [if_neg (fun h => hlt h.2), if_neg hlt]

end Encode

section Decode

variable (codec : PacketCodec) (m : Mem)

/-- **`decodeServerHeader`, `decodeClientHeader`**: the five header bytes become the
plain `Head`, whose length is returned; nothing else changes. -/
theorem decodeHeader_spec (layout : Layout HeadField.width (8 * 5)) :
    ((decodeHeader layout codec).run m).1
        = (Head.get .AddBufferLen (decryptHead layout codec (wordLE m.bytes 5 0))).setWidth 16
      ∧ wordLE ((decodeHeader layout codec).run m).2.bytes 5 0
        = decryptHead layout codec (wordLE m.bytes 5 0) ∧
      ∀ j, 5 ≤ j → ((decodeHeader layout codec).run m).2.bytes j = m.bytes j := by
  set w := wordLE m.bytes 5 0 with hw
  set head := FlipHeadFinal HeadDecrypted layout 0 w with hhead
  set m₁ := ((loadLE 5 0).run m).2 with hm₁
  have hb₁ : m₁.bytes = m.bytes := loadLE_run_bytes 5 0 m
  -- the loop keys the header word, and nothing behind it
  set m₂ := ((decodeHeadLoop codec head).run m₁).2 with hm₂
  have hb₂ : ∀ j, m₂.bytes j
      = if j < 5 then xorKey (m.bytes j) (headKey codec head j) else m.bytes j := by
    intro j
    rw [hm₂, decodeHeadLoop_run, hb₁]
  have hw₂ : wordLE m₂.bytes 5 0 = w ^^^ keyWord codec head := wordLE_keyed codec head hb₂
  set m₃ := ((loadLE 5 0).run m₂).2 with hm₃
  have hb₃ : m₃.bytes = m₂.bytes := loadLE_run_bytes 5 0 m₂
  have hrun : (decodeHeader layout codec).run m
      = ((Head.get .AddBufferLen (decryptHead layout codec w)).setWidth 16,
          ((storeLE 5 0 (decryptHead layout codec w)).run m₃).2) := by
    simp only [decodeHeader, run_bind, run_pure]
    rw [← hm₁, loadLE_run_fst, ← hw, ← hhead, ← hm₂, ← hm₃, loadLE_run_fst, hw₂]
    rfl
  rw [hrun]
  refine ⟨rfl, wordLE_storeLE _ _, fun j hj => ?_⟩
  rw [storeLE_run_bytes, if_neg (by omega), hb₃, hb₂, if_neg (by omega)]

/-- The body with its key removed. -/
def plainBody (head : HeadBits) (b : ℕ → Byte) (i : ℕ) : Byte :=
  xorKey (b i) (bodyKey codec head i)

/-- The header and the plain body have the checksum that byte 5 holds. -/
def checksumOk (bufLen : HeadBits → BitVec 16) (b : ℕ → Byte) : Prop :=
  bodyChecksum (plainBody codec (wordLE b 5 0) b) (bufLen (wordLE b 5 0)).toNat
    (headChecksum (wordLE b 5 0)) = b 5

instance (bufLen : HeadBits → BitVec 16) (b : ℕ → Byte) :
    Decidable (checksumOk codec bufLen b) := by
  unfold checksumOk; infer_instance

/-- The body bytes after the loop of a body decoder. -/
def decodedBytes (bufLen : HeadBits → BitVec 16) (b : ℕ → Byte) (i : ℕ) : Byte :=
  if 6 ≤ i ∧ i < (bufLen (wordLE b 5 0)).toNat then plainBody codec (wordLE b 5 0) b i
  else b i

/-- The six bytes `memcpy` takes give the same `Head` as the five of its fields. -/
theorem setWidth_wordLE_six (b : ℕ → Byte) :
    (wordLE b 6 0).setWidth (8 * 5) = wordLE b 5 0 := by
  apply BitVec.eq_of_getLsbD_eq
  intro i hi
  have h48 : i < 8 * 6 := by omega
  rw [BitVec.getLsbD_setWidth, getLsbD_wordLE, getLsbD_wordLE]
  simp only [hi, h48, decide_true, Bool.true_and]

/-- **`decodeServerBody`, `decodeClientBody`**: the body is unkeyed up to the length
of the direction; if the checksum is byte 5, the first four bytes become that length
and the command, and the decoder answers `true`. -/
theorem decodeBody_spec (bufLen : HeadBits → BitVec 16) :
    ((decodeBody bufLen codec).run m).1 = decide (checksumOk codec bufLen m.bytes) ∧
      (∀ j, 4 ≤ j →
        ((decodeBody bufLen codec).run m).2.bytes j = decodedBytes codec bufLen m.bytes j) ∧
      (checksumOk codec bufLen m.bytes →
        wordLE ((decodeBody bufLen codec).run m).2.bytes 2 0 = bufLen (wordLE m.bytes 5 0) ∧
        wordLE ((decodeBody bufLen codec).run m).2.bytes 2 2
          = (Head.get .Command (wordLE m.bytes 5 0)).setWidth 16) := by
  set head := wordLE m.bytes 5 0 with hhead
  set n := bufLen head with hn
  set m₁ := ((loadLE 6 0).run m).2 with hm₁
  have hb₁ : m₁.bytes = m.bytes := loadLE_run_bytes 6 0 m
  have hh₁ : ((loadLE 6 0).run m).1.setWidth (8 * 5) = head := by
    rw [loadLE_run_fst, setWidth_wordLE_six, hhead]
  -- the loop, and byte 5, which it does not reach
  set r₂ := (decodeBodyLoop codec head n.toNat (headChecksum head)).run m₁ with hr₂
  obtain ⟨hc₂, hb₂⟩ := decodeBodyLoop_run codec head n.toNat (headChecksum head) m₁
  rw [← hr₂, hb₁] at hc₂
  rw [← hr₂, hb₁] at hb₂
  set m₃ := ((load 5).run r₂.2).2 with hm₃
  have hb₃ : m₃.bytes = r₂.2.bytes := rfl
  have h5 : ((load 5).run r₂.2).1 = m.bytes 5 := by
    rw [load_run, hb₂, if_neg (by omega)]
  have hdec : ∀ j, r₂.2.bytes j = decodedBytes codec bufLen m.bytes j := by
    intro j
    rw [hb₂, decodedBytes, ← hhead, ← hn]
    rfl
  have hok : r₂.1 = m.bytes 5 ↔ checksumOk codec bufLen m.bytes := by
    rw [hc₂, checksumOk, ← hhead, ← hn]
    rfl
  have hrun : (decodeBody bufLen codec).run m
      = if r₂.1 ≠ m.bytes 5 then (false, m₃) else
          (true, ((storeLE 2 2 ((Head.get .Command head).setWidth 16)).run
            ((storeLE 2 0 n).run m₃).2).2) := by
    simp only [decodeBody, run_bind]
    rw [hh₁, ← hn, ← hm₁, ← hr₂, h5, ← hm₃]
    split <;> rfl
  rw [hrun]
  by_cases hsum : checksumOk codec bufLen m.bytes
  · -- accepted: two words are written over the header
    have heq : r₂.1 = m.bytes 5 := hok.mpr hsum
    rw [if_neg (by simp [heq]), decide_eq_true hsum]
    refine ⟨rfl, ?_, fun _ => ⟨?_, ?_⟩⟩
    · intro j hj
      dsimp only
      rw [storeLE_run_bytes, if_neg (by omega), storeLE_run_bytes, if_neg (by omega), hb₃,
        hdec]
    · apply wordLE_eq_of_bytes
      intro k hk
      rw [storeLE_run_bytes, if_neg (by omega), storeLE_run_bytes, if_pos (by omega),
        Nat.zero_add, Nat.sub_zero]
    · apply wordLE_eq_of_bytes
      intro k hk
      rw [storeLE_run_bytes, if_pos (by omega), Nat.add_sub_cancel_left]
  · have hne : r₂.1 ≠ m.bytes 5 := fun h => hsum (hok.mp h)
    rw [if_pos hne, decide_eq_false hsum]
    refine ⟨rfl, ?_, fun h => absurd h hsum⟩
    intro j _
    rw [hb₃, hdec]

/-! ## Which bytes the decoders use -/

/-- A byte read and written back is logged twice. -/
private theorem mem_log_twice (i j : ℕ) (m : Mem) : j ∈ i :: i :: m.log ↔ j ∈ i :: m.log := by
  simp only [List.mem_cons, or_self_left]

/-- A header decoder uses the five header bytes. -/
theorem mem_log_decodeHeader (layout : Layout HeadField.width (8 * 5)) (j : ℕ) :
    j ∈ ((decodeHeader layout codec).run m).2.log ↔ j ∈ m.log ∨ j < 5 := by
  have hloop : ∀ (head : HeadBits) (m : Mem),
      j ∈ ((decodeHeadLoop codec head).run m).2.log ↔ j ∈ m.log ∨ 0 ≤ j ∧ j < 0 + 5 := by
    intro head m
    refine mem_log_forRange _ ?_ 0 5 () m j
    intro i _ m j
    exact mem_log_twice i j m
  simp only [decodeHeader, run_bind, run_pure]
  rw [mem_log_storeLE, mem_log_loadLE, hloop, mem_log_loadLE]
  by_cases hj : j ∈ m.log
  · simp only [hj, true_or]
  · simp only [hj, false_or]
    omega

/-- A body decoder uses the six bytes of the header and the body up to its length,
whether or not it accepts. -/
theorem mem_log_decodeBody (bufLen : HeadBits → BitVec 16) (j : ℕ) :
    j ∈ ((decodeBody bufLen codec).run m).2.log
      ↔ j ∈ m.log ∨ j < 6 ∨ j < (bufLen (wordLE m.bytes 5 0)).toNat := by
  have hloop : ∀ (head : HeadBits) (n : ℕ) (c : Byte) (m : Mem),
      j ∈ ((decodeBodyLoop codec head n c).run m).2.log
        ↔ j ∈ m.log ∨ 6 ≤ j ∧ j < 6 + (n - 6) := by
    intro head n c m
    refine mem_log_forRange _ ?_ 6 (n - 6) c m j
    intro i _ m j
    exact mem_log_twice i j m
  have hload : ∀ m : Mem, j ∈ ((load 5).run m).2.log ↔ j = 5 ∨ j ∈ m.log := by
    intro m
    rw [load_run, List.mem_cons]
  simp only [decodeBody, run_bind, loadLE_run_fst, setWidth_wordLE_six]
  split
  · rw [run_pure, hload, hloop, mem_log_loadLE]
    by_cases hj : j ∈ m.log
    · simp only [hj, true_or, or_true]
    · simp only [hj, false_or]
      omega
  · simp only [run_bind, run_pure]
    rw [mem_log_storeLE, mem_log_storeLE, hload, hloop, mem_log_loadLE]
    by_cases hj : j ∈ m.log
    · simp only [hj, true_or, or_true]
    · simp only [hj, false_or]
      omega

end Decode

end OsIrose.Crypt

/-
Fields of a packet, `operator<<` and `operator>>` in `rosecommon/include/crosepacket.h`.

`operator<<` splits a value into calls of `writeNext`: a container element by element, a
string character by character and then the zero. `operator>>` ends in `readNext`, which
answers `T()` for a value that would reach the end of `buffer_` and leaves the cursor
alone then. Both test against the end of the array, never against `size_`.

The constructor from a buffer copies the declared size over memory that was never
initialised, so what lies in `buffer_` behind the packet is `memory`. What `operator>>`
reads from there on is what the wire format reads from the array with nothing hidden
(`decode_ahead`).
-/
import OsIrose.Packet
import OsIrose.Wire

set_option autoImplicit false

namespace OsIrose.Packet

open ByteMem Network Wire

/-! ## Writing -/

/-- `operator<<`: the calls of `writeNext`, one after the other. -/
def insert (f : Field) (p : CRosePacket) : CRosePacket := f.atoms.foldl writeNext p

/-- `*this << a << b << ...`. -/
def insertAll (fs : List Field) (p : CRosePacket) : CRosePacket :=
  fs.foldl (fun p f => insert f p) p

/-- A `pack()` that writes these fields. -/
def packFields (fs : List Field) : PackFields where
  fields := fs.flatMap Field.atoms
  pos := by
    intro a ha
    obtain ⟨f, -, hf⟩ := List.mem_flatMap.mp ha
    exact length_pos_of_mem_atoms hf

theorem insertAll_eq_foldl (fs : List Field) (p : CRosePacket) :
    insertAll fs p = (fs.flatMap Field.atoms).foldl writeNext p := by
  induction fs generalizing p with
  | nil => rfl
  | cons f fs ih =>
      rw [List.flatMap_cons, List.foldl_append]
      exact ih (insert f p)

theorem pack_packFields (fs : List Field) (p : CRosePacket) :
    pack (packFields fs) p = insertAll fs p := (insertAll_eq_foldl fs p).symm

/-- Size field, `size_` and cursor agree. -/
structure Consistent (p : CRosePacket) : Prop where
  size_eq : p.size.toNat = p.current
  two_le : 2 ≤ p.current
  lt_max : p.current < MAX_PACKET_SIZE
  field : ∀ k, k < 2 → p.buffer k = p.size.extractLsb' (8 * k) 8

/-- What is written behind the size field. -/
def behindSize (p : CRosePacket) : List Byte := (contents p).drop 2

/-- The writes that fit when the cursor is at `c`. -/
def kept : ℕ → List (List Byte) → List (List Byte)
  | _, [] => []
  | c, a :: as =>
      if MAX_PACKET_SIZE ≤ c + a.length then kept c as else a :: kept (c + a.length) as

theorem writeAt_of_lt {off j : ℕ} (bytes : List Byte) (b : ℕ → Byte) (h : j < off) :
    writeAt off bytes b j = b j := if_neg (by omega)

theorem writeAt_of_ge {off j : ℕ} (bytes : List Byte) (b : ℕ → Byte)
    (h : off + bytes.length ≤ j) : writeAt off bytes b j = b j := if_neg (by omega)

theorem writeAt_of_mem {off j : ℕ} (bytes : List Byte) (b : ℕ → Byte) (h : off ≤ j)
    (hlt : j < off + bytes.length) : writeAt off bytes b j = bytes.getD (j - off) 0 :=
  if_pos ⟨h, hlt⟩

theorem getElem_contents {p : CRosePacket} {j : ℕ} (hj : j < (contents p).length) :
    (contents p)[j] = p.buffer j := by
  simp only [contents, List.getElem_map, List.getElem_range]

/-- A consistent packet is its size field and what is behind it. -/
theorem Consistent.contents_eq {p : CRosePacket} (h : Consistent p) :
    contents p = objectBytes 2 p.size ++ behindSize p := by
  have hlen : 2 ≤ (contents p).length := by
    rw [length_contents, h.size_eq]
    exact h.two_le
  have hhead : (contents p).take 2 = objectBytes 2 p.size := by
    apply List.ext_getElem
    · rw [List.length_take, length_objectBytes]
      omega
    · intro j hj _
      rw [List.length_take] at hj
      rw [List.getElem_take, getElem_contents, h.field j (by omega)]
      simp only [objectBytes, List.getElem_map, List.getElem_range]
  rw [← hhead]
  exact (List.take_append_drop 2 (contents p)).symm

theorem objectBytes_two (v : BitVec 16) :
    [v.setWidth 8, (v >>> 8).setWidth 8] = objectBytes 2 v := by
  have hlow : v.setWidth 8 = v.extractLsb' (8 * 0) 8 := by
    apply BitVec.eq_of_getLsbD_eq
    intro i hi
    simp [hi]
  have hhigh : (v >>> 8).setWidth 8 = v.extractLsb' (8 * 1) 8 := by
    apply BitVec.eq_of_getLsbD_eq
    intro i hi
    simp [hi]
  rw [hlow, hhigh]
  rfl

/-- The packet after a write that fits. -/
theorem writeNext_of_fits {p : CRosePacket} {a : List Byte}
    (hfit : p.current + a.length < MAX_PACKET_SIZE) :
    writeNext p a =
      { buffer := writeAt 0 (objectBytes 2 (p.size + BitVec.ofNat 16 a.length))
          (writeAt p.current a p.buffer)
        current := p.current + a.length
        size := p.size + BitVec.ofNat 16 a.length } := by
  rw [writeNext, if_neg (by omega)]
  dsimp only
  rw [objectBytes_two]

/-- The bytes behind the size field after a write. -/
theorem buffer_writeNext {p : CRosePacket} {a : List Byte}
    (hfit : p.current + a.length < MAX_PACKET_SIZE) {j : ℕ} (hj : 2 ≤ j) :
    (writeNext p a).buffer j = writeAt p.current a p.buffer j := by
  rw [writeNext_of_fits hfit]
  exact writeAt_of_ge _ _ (by rw [length_objectBytes]; omega)

theorem length_behindSize (p : CRosePacket) : (behindSize p).length = p.size.toNat - 2 := by
  rw [behindSize, List.length_drop, length_contents]

theorem getElem_behindSize {p : CRosePacket} {j : ℕ} (hj : j < (behindSize p).length) :
    (behindSize p)[j] = p.buffer (2 + j) := by
  unfold behindSize at hj ⊢
  rw [List.getElem_drop, getElem_contents]

/-- A write that fits leaves a consistent packet, with the cursor behind it. -/
theorem Consistent.writeNext {p : CRosePacket} {a : List Byte} (h : Consistent p)
    (hfit : p.current + a.length < MAX_PACKET_SIZE) :
    Consistent (Packet.writeNext p a) ∧
      (Packet.writeNext p a).current = p.current + a.length := by
  have hM : MAX_PACKET_SIZE = 2047 := rfl
  have htwo := h.two_le
  rw [writeNext_of_fits hfit]
  refine ⟨⟨?_, ?_, hfit, ?_⟩, rfl⟩
  · rw [BitVec.toNat_add, BitVec.toNat_ofNat, h.size_eq]
    dsimp only
    omega
  · dsimp only
    omega
  · intro k hk
    dsimp only
    rw [writeAt_of_mem _ _ (Nat.zero_le k) (by rw [length_objectBytes]; omega), Nat.sub_zero,
      getD_objectBytes _ hk]

/-- A write that fits goes behind the others. -/
theorem Consistent.behindSize_writeNext {p : CRosePacket} {a : List Byte}
    (h : Consistent p) (hfit : p.current + a.length < MAX_PACKET_SIZE) :
    behindSize (Packet.writeNext p a) = behindSize p ++ a := by
  obtain ⟨hnext, hcur⟩ := h.writeNext hfit
  have hsize := h.size_eq
  have htwo := h.two_le
  have hlen : (behindSize p).length = p.current - 2 := by rw [length_behindSize, hsize]
  have hlen' : (behindSize (Packet.writeNext p a)).length = p.current + a.length - 2 := by
    rw [length_behindSize, hnext.size_eq, hcur]
  apply List.ext_getElem
  · rw [List.length_append, hlen, hlen']
    omega
  · intro j hj _
    rw [hlen'] at hj
    rw [getElem_behindSize, buffer_writeNext hfit (by omega)]
    by_cases hold : 2 + j < p.current
    · rw [writeAt_of_lt a _ hold, List.getElem_append_left (by omega), getElem_behindSize]
    · rw [writeAt_of_mem a _ (by omega) (by omega), List.getElem_append_right (by omega),
        List.getD_eq_getElem _ _ (by omega)]
      congr 1
      omega

/-- **What a sequence of writes leaves** behind the size field: the writes that fit. -/
theorem Consistent.foldl_writeNext {p : CRosePacket} (h : Consistent p)
    (as : List (List Byte)) :
    Consistent (as.foldl Packet.writeNext p) ∧
      behindSize (as.foldl Packet.writeNext p)
        = behindSize p ++ (kept p.current as).flatten := by
  induction as generalizing p with
  | nil =>
      refine ⟨h, ?_⟩
      rw [kept, List.flatten_nil, List.append_nil]
      rfl
  | cons a as ih =>
      rw [List.foldl_cons, kept]
      by_cases hfit : MAX_PACKET_SIZE ≤ p.current + a.length
      · have hw : Packet.writeNext p a = p := if_pos hfit
        rw [if_pos hfit, hw]
        exact ih h
      · obtain ⟨hnext, hcur⟩ := h.writeNext (Nat.lt_of_not_le hfit)
        obtain ⟨hlast, hbehind⟩ := ih hnext
        refine ⟨hlast, ?_⟩
        rw [if_neg hfit, hbehind, h.behindSize_writeNext (Nat.lt_of_not_le hfit), hcur,
          List.flatten_cons, List.append_assoc]

/-- Writes whose total fits are all kept. -/
theorem kept_eq_self {c : ℕ} {as : List (List Byte)}
    (h : c + as.flatten.length < MAX_PACKET_SIZE) : kept c as = as := by
  induction as generalizing c with
  | nil => rfl
  | cons a as ih =>
      rw [List.flatten_cons, List.length_append] at h
      rw [kept, if_neg (by omega), ih (by omega)]

/-- The cursor stays in the buffer: what is kept fits. -/
theorem length_kept {c : ℕ} (hc : c < MAX_PACKET_SIZE) (as : List (List Byte)) :
    c + (kept c as).flatten.length < MAX_PACKET_SIZE := by
  induction as generalizing c with
  | nil => exact hc
  | cons a as ih =>
      rw [kept]
      by_cases hfit : MAX_PACKET_SIZE ≤ c + a.length
      · rw [if_pos hfit]
        exact ih hc
      · rw [if_neg hfit, List.flatten_cons, List.length_append, ← Nat.add_assoc]
        exact ih (Nat.lt_of_not_le hfit)

/-! ### A fresh packet -/

/-- The constructor leaves the size field, the type and the checksum. -/
theorem consistent_ofType (buffer : ℕ → Byte) (type CRC : BitVec 16) :
    Consistent (ofType buffer type CRC) ∧ (ofType buffer type CRC).current = 6 ∧
      behindSize (ofType buffer type CRC) = objectBytes 2 type ++ objectBytes 2 CRC := by
  have hfold : ofType buffer type CRC = [objectBytes 2 type, objectBytes 2 CRC].foldl writeNext
      (writeNext ⟨buffer, 0, 0⟩ (objectBytes 2 (0 : BitVec 16))) := by
    rw [ofType]
    simp only [objectBytes_two]
    rfl
  -- the first write makes the packet consistent
  have hfirst : Consistent (writeNext ⟨buffer, 0, 0⟩ (objectBytes 2 (0 : BitVec 16))) ∧
      (writeNext ⟨buffer, 0, 0⟩ (objectBytes 2 (0 : BitVec 16))).current = 2 := by
    rw [writeNext_of_fits (show 0 + 2 < MAX_PACKET_SIZE by decide)]
    refine ⟨⟨rfl, Nat.le_refl 2, show 2 < MAX_PACKET_SIZE by decide, ?_⟩, rfl⟩
    intro k hk
    dsimp only
    rw [writeAt_of_mem _ _ (Nat.zero_le k) (by rw [length_objectBytes]; omega), Nat.sub_zero,
      getD_objectBytes _ hk]
  obtain ⟨hcons, hcur⟩ := hfirst
  obtain ⟨hlast, hbehind⟩ := hcons.foldl_writeNext [objectBytes 2 type, objectBytes 2 CRC]
  rw [← hfold] at hlast hbehind
  have hnone : behindSize (writeNext ⟨buffer, 0, 0⟩ (objectBytes 2 (0 : BitVec 16))) = [] := by
    apply List.length_eq_zero_iff.mp
    rw [length_behindSize, hcons.size_eq, hcur]
  have hkept : kept 2 [objectBytes 2 type, objectBytes 2 CRC]
      = [objectBytes 2 type, objectBytes 2 CRC] := kept_eq_self (by simp [MAX_PACKET_SIZE])
  rw [hnone, hcur, hkept] at hbehind
  have hlist : behindSize (ofType buffer type CRC) = objectBytes 2 type ++ objectBytes 2 CRC := by
    rw [hbehind]
    simp
  refine ⟨hlast, ?_, hlist⟩
  have hlen := length_behindSize (ofType buffer type CRC)
  have htwo := hlast.two_le
  rw [hlist, List.length_append, length_objectBytes, length_objectBytes, hlast.size_eq] at hlen
  omega

theorem flatten_atoms (fs : List Field) : (fs.flatMap Field.atoms).flatten = encodeAll fs := by
  induction fs with
  | nil => rfl
  | cons f fs ih =>
      rw [List.flatMap_cons, List.flatten_append, ih, encodeAll_cons]
      rfl

/-- A fresh packet after its `pack()`. -/
theorem consistent_pack (fs : List Field) (buffer : ℕ → Byte) (type CRC : BitVec 16) :
    Consistent (pack (packFields fs) (ofType buffer type CRC)) ∧
      behindSize (pack (packFields fs) (ofType buffer type CRC))
        = objectBytes 2 type ++ objectBytes 2 CRC
          ++ (kept 6 (fs.flatMap Field.atoms)).flatten := by
  obtain ⟨hcons, hcur, hbehind⟩ := consistent_ofType buffer type CRC
  have h := hcons.foldl_writeNext (fs.flatMap Field.atoms)
  rw [hcur, hbehind] at h
  exact h

/-- What `getPacked` returns behind the header. -/
theorem drop_getPacked (fs : List Field) (buffer : ℕ → Byte) (type CRC : BitVec 16) :
    (getPacked (packFields fs) (ofType buffer type CRC)).1.drop 6
      = (kept 6 (fs.flatMap Field.atoms)).flatten := by
  obtain ⟨hcons, hbehind⟩ := consistent_pack fs buffer type CRC
  have hget : (getPacked (packFields fs) (ofType buffer type CRC)).1
      = contents (pack (packFields fs) (ofType buffer type CRC)) := rfl
  have hlen : (objectBytes 2 type ++ objectBytes 2 CRC).length = 4 := by
    rw [List.length_append, length_objectBytes, length_objectBytes]
  rw [hget, hcons.contents_eq, List.drop_append, length_objectBytes,
    List.drop_eq_nil_of_le (by rw [length_objectBytes]; omega), List.nil_append, hbehind,
    List.drop_left' hlen]

/-- A packet on the wire: size, type, checksum, and what was written. -/
def packetBytes (type CRC : BitVec 16) (body : List Byte) : List Byte :=
  objectBytes 2 (BitVec.ofNat 16 (6 + body.length))
    ++ (objectBytes 2 type ++ (objectBytes 2 CRC ++ body))

theorem length_packetBytes (type CRC : BitVec 16) (body : List Byte) :
    (packetBytes type CRC body).length = 6 + body.length := by
  rw [packetBytes, List.length_append, List.length_append, List.length_append,
    length_objectBytes, length_objectBytes, length_objectBytes]
  omega

/-- **What fits is packed whole.** -/
theorem getPacked_eq_packetBytes {fs : List Field} (hfit : (encodeAll fs).length ≤ 2040)
    (buffer : ℕ → Byte) (type CRC : BitVec 16) :
    (getPacked (packFields fs) (ofType buffer type CRC)).1
      = packetBytes type CRC (encodeAll fs) := by
  have hM : MAX_PACKET_SIZE = 2047 := rfl
  obtain ⟨hcons, hbehind⟩ := consistent_pack fs buffer type CRC
  have hkept : kept 6 (fs.flatMap Field.atoms) = fs.flatMap Field.atoms :=
    kept_eq_self (by rw [flatten_atoms]; omega)
  rw [hkept, flatten_atoms, List.append_assoc] at hbehind
  have hget : (getPacked (packFields fs) (ofType buffer type CRC)).1
      = contents (pack (packFields fs) (ofType buffer type CRC)) := rfl
  -- the size field is the cursor, and the cursor is what was written
  have hlen := length_behindSize (pack (packFields fs) (ofType buffer type CRC))
  have htwo := hcons.two_le
  rw [hbehind, List.length_append, List.length_append, length_objectBytes,
    length_objectBytes, hcons.size_eq] at hlen
  have hsize : (pack (packFields fs) (ofType buffer type CRC)).size
      = BitVec.ofNat 16 (6 + (encodeAll fs).length) := by
    apply BitVec.eq_of_toNat_eq
    rw [BitVec.toNat_ofNat, hcons.size_eq]
    omega
  rw [hget, hcons.contents_eq, hbehind, hsize]
  rfl

/-! ## Reading -/

/-- `readNext<T>()`, for a `T` of `n` bytes. -/
def readNext (n : ℕ) (p : CRosePacket) : BitVec (8 * n) × CRosePacket :=
  -- `T()`, and the cursor stays
  if MAX_PACKET_SIZE ≤ p.current + n then (0, p)
  else (wordLE p.buffer n p.current, { p with current := p.current + n })

/-- `operator>>` for a `std::string`: characters until one is zero. There are fewer than
`MAX_PACKET_SIZE` of them (`decodeString_ahead`). -/
def readString : ℕ → CRosePacket → List Byte × CRosePacket
  | 0, p => ([], p)
  | fuel + 1, p =>
      let next := readNext 1 p
      if next.1 = 0 then ([], next.2)
      else
        let rest := readString fuel next.2
        (next.1 :: rest.1, rest.2)

/-- A sequence of `operator>>`. -/
def run {α : Type} : Reader α → CRosePacket → α × CRosePacket
  | .done a, p => (a, p)
  | .scalar n _ next, p =>
      let v := readNext n p
      run (next v.1) v.2
  | .string next, p =>
      let s := readString MAX_PACKET_SIZE p
      run (next s.1) s.2

/-- The bytes in front of the cursor that `readNext` hands out: all but the last one. -/
def ahead (p : CRosePacket) : List Byte :=
  (List.range' p.current (MAX_PACKET_SIZE - 1 - p.current)).map p.buffer

section

variable {α : Type} (p : CRosePacket)

theorem length_ahead : (ahead p).length = MAX_PACKET_SIZE - 1 - p.current := by
  rw [ahead, List.length_map, List.length_range']

theorem getD_ahead {k : ℕ} (hk : k < (ahead p).length) :
    (ahead p).getD k 0 = p.buffer (p.current + k) := by
  rw [List.getD_eq_getElem _ _ hk]
  simp only [ahead, List.getElem_map, List.getElem_range', Nat.one_mul]

theorem ahead_advance (n : ℕ) :
    ahead { p with current := p.current + n } = (ahead p).drop n := by
  rw [ahead, ahead, ← List.map_drop, List.drop_range', Nat.mul_one]
  congr 2
  dsimp only
  omega

theorem decodeScalar_ahead {n : ℕ} (pos : 0 < n) :
    Reader.decodeScalar 0 n (ahead p) = some ((readNext n p).1, ahead (readNext n p).2) := by
  have hM : MAX_PACKET_SIZE = 2047 := rfl
  have hlen := length_ahead p
  rw [Reader.decodeScalar, readNext]
  by_cases hend : MAX_PACKET_SIZE ≤ p.current + n
  · rw [if_neg (by omega), if_neg (by omega), if_pos hend]
  · rw [if_pos (by omega), if_neg hend, ahead_advance]
    have hword : word n (ahead p) = wordLE p.buffer n p.current := by
      apply wordLE_eq_of_bytes
      intro k hk
      rw [Nat.zero_add, getD_ahead p (by omega), extractLsb'_wordLE _ _ _ _ hk]
    rw [hword]

/-- The loop of `operator>>` ends at the first zero or with the buffer, and more than
`MAX_PACKET_SIZE` steps would change nothing. -/
theorem decodeString_ahead {fuel : ℕ} (hfuel : (ahead p).length < fuel) :
    Reader.decodeString 0 (ahead p)
      = some ((readString fuel p).1, ahead (readString fuel p).2) := by
  induction fuel generalizing p with
  | zero => exact absurd hfuel (Nat.not_lt_zero _)
  | succ fuel ih =>
      have hM : MAX_PACKET_SIZE = 2047 := rfl
      have hlen := length_ahead p
      rw [readString]
      by_cases hend : MAX_PACKET_SIZE ≤ p.current + 1
      · have hnext : readNext 1 p = (0, p) := if_pos hend
        have hnil : ahead p = [] := List.length_eq_zero_iff.mp (by omega)
        rw [hnext, if_pos rfl, hnil]
        rfl
      · have hnext : readNext 1 p
            = (wordLE p.buffer 1 p.current, { p with current := p.current + 1 }) := if_neg hend
        have hbyte : wordLE p.buffer 1 p.current = p.buffer p.current := by
          apply wordLE_eq_of_bytes
          intro k hk
          obtain rfl : k = 0 := by omega
          simp
        obtain ⟨b, bs, hbs⟩ : ∃ b bs, ahead p = b :: bs :=
          List.exists_cons_of_length_pos (by omega)
        have hb : p.buffer p.current = b := by
          rw [← Nat.add_zero p.current, ← getD_ahead p (by omega), hbs]
          rfl
        have hadv := ahead_advance p 1
        rw [hbs, List.drop_one, List.tail_cons] at hadv
        rw [hbs, Reader.decodeString, hnext]
        dsimp only
        rw [hbyte, hb]
        by_cases hzero : b = 0
        · rw [if_pos hzero, if_pos hzero, hadv]
        · have hbound := congrArg List.length hbs
          rw [List.length_cons] at hbound
          rw [if_neg hzero, if_neg hzero, ← hadv,
            ih { p with current := p.current + 1 } (by rw [hadv]; omega)]
          rfl

/-- **`operator>>` reads what the wire format reads** from the rest of the array. -/
theorem decode_ahead (P : Reader α) :
    P.decode 0 (ahead p) = some ((run P p).1, ahead (run P p).2) := by
  induction P generalizing p with
  | done a => rfl
  | scalar n pos next ih =>
      rw [Reader.decode, decodeScalar_ahead p pos]
      exact ih _ _
  | string next ih =>
      have hM : MAX_PACKET_SIZE = 2047 := rfl
      have hlen := length_ahead p
      rw [Reader.decode, decodeString_ahead p (show (ahead p).length < MAX_PACKET_SIZE by omega)]
      exact ih _ _

end

/-! ### A packet from a buffer -/

/-- A `CRosePacket` with what its constructor read from the header. -/
structure Received where
  packet : CRosePacket
  type : BitVec 16
  CRC : BitVec 16

/-- `CRosePacket::size(buffer)`. -/
def declaredSize (buffer : ℕ → Byte) : ℕ := (wordLE buffer 2 0).toNat

/-- `CRosePacket(buffer)`, in an object that is built over `memory`. -/
def ofBuffer (memory buffer : ℕ → Byte) : Received :=
  -- `memcpy` of the declared size
  let copied : CRosePacket :=
    ⟨fun i => if i < declaredSize buffer then buffer i else memory i, 0, 0⟩
  let size_ := readNext 2 copied
  let type_ := readNext 2 size_.2
  let CRC_ := readNext 2 type_.2
  ⟨{ CRC_.2 with size := size_.1 }, type_.1, CRC_.1⟩

/-- The bytes of a packet behind its header. -/
def body (buffer : ℕ → Byte) : List Byte :=
  (List.range' 6 (declaredSize buffer - 6)).map buffer

/-- What the object holds behind a packet of `s` bytes. -/
def leftover (memory : ℕ → Byte) (s : ℕ) : List Byte :=
  (List.range' s (MAX_PACKET_SIZE - 1 - s)).map memory

theorem length_leftover (memory : ℕ → Byte) (s : ℕ) :
    (leftover memory s).length = MAX_PACKET_SIZE - 1 - s := by
  rw [leftover, List.length_map, List.length_range']

/-- Every end of the array is one that the memory can hold. -/
theorem exists_leftover {s : ℕ} {e : List Byte} (he : e.length = MAX_PACKET_SIZE - 1 - s) :
    ∃ memory, leftover memory s = e := by
  refine ⟨fun i => e.getD (i - s) 0, ?_⟩
  apply List.ext_getElem
  · rw [length_leftover, he]
  · intro j _ hj
    simp only [leftover, List.getElem_map, List.getElem_range', Nat.one_mul,
      Nat.add_sub_cancel_left]
    exact List.getD_eq_getElem _ _ hj

variable (memory : ℕ → Byte) {buffer : ℕ → Byte}

/-- The constructor reads the header and leaves the cursor behind it. -/
theorem ofBuffer_eq (h6 : 6 ≤ declaredSize buffer) :
    (ofBuffer memory buffer).packet =
        ⟨fun i => if i < declaredSize buffer then buffer i else memory i, 6,
          wordLE buffer 2 0⟩ ∧
      (ofBuffer memory buffer).type = wordLE buffer 2 2 ∧
      (ofBuffer memory buffer).CRC = wordLE buffer 2 4 := by
  have hword : ∀ i, i + 2 ≤ 6 →
      wordLE (fun i => if i < declaredSize buffer then buffer i else memory i) 2 i
        = wordLE buffer 2 i := by
    intro i hi
    apply wordLE_congr
    intro k hk
    exact if_pos (by omega)
  have hofBuffer : ofBuffer memory buffer =
      ⟨⟨fun i => if i < declaredSize buffer then buffer i else memory i, 6,
          wordLE (fun i => if i < declaredSize buffer then buffer i else memory i) 2 0⟩,
        wordLE (fun i => if i < declaredSize buffer then buffer i else memory i) 2 2,
        wordLE (fun i => if i < declaredSize buffer then buffer i else memory i) 2 4⟩ := rfl
  rw [hofBuffer, hword 0 (by omega), hword 2 (by omega), hword 4 (by omega)]
  exact ⟨rfl, rfl, rfl⟩

/-- In front of the cursor lie the rest of the packet and what the memory held. -/
theorem ahead_ofBuffer (h6 : 6 ≤ declaredSize buffer)
    (hmax : declaredSize buffer ≤ MAX_PACKET_SIZE - 1) :
    ahead (ofBuffer memory buffer).packet
      = body buffer ++ leftover memory (declaredSize buffer) := by
  have hM : MAX_PACKET_SIZE = 2047 := rfl
  rw [(ofBuffer_eq memory h6).1, ahead, body, leftover]
  have hsplit : List.range' 6 (MAX_PACKET_SIZE - 1 - 6)
      = List.range' 6 (declaredSize buffer - 6)
        ++ List.range' (declaredSize buffer) (MAX_PACKET_SIZE - 1 - declaredSize buffer) := by
    have hstart : 6 + 1 * (declaredSize buffer - 6) = declaredSize buffer := by omega
    have hlen : declaredSize buffer - 6 + (MAX_PACKET_SIZE - 1 - declaredSize buffer)
        = MAX_PACKET_SIZE - 1 - 6 := by omega
    rw [← hlen, ← List.range'_append, hstart]
  dsimp only
  rw [hsplit, List.map_append]
  congr 1
  · apply List.map_congr_left
    intro i hi
    have hmem := List.mem_range'_1.mp hi
    exact if_pos (by omega)
  · apply List.map_congr_left
    intro i hi
    have hmem := List.mem_range'_1.mp hi
    exact if_neg (by omega)

/-! ### A packet that was packed -/

section

variable (type CRC : BitVec 16) {bs : List Byte} (junk : ℕ → Byte)

theorem buffer_packetBytes {j : ℕ} (hj : j < 6 + bs.length) :
    writeAt 0 (packetBytes type CRC bs) junk j = (packetBytes type CRC bs).getD j 0 := by
  rw [writeAt_of_mem _ _ (Nat.zero_le j) (by rw [length_packetBytes]; omega), Nat.sub_zero]

/-- The header fields are where the constructor reads them. -/
theorem wordLE_packetBytes (bs : List Byte) :
    wordLE (writeAt 0 (packetBytes type CRC bs) junk) 2 0 = BitVec.ofNat 16 (6 + bs.length) ∧
      wordLE (writeAt 0 (packetBytes type CRC bs) junk) 2 2 = type ∧
      wordLE (writeAt 0 (packetBytes type CRC bs) junk) 2 4 = CRC := by
  have hlen := fun v : BitVec (8 * 2) => length_objectBytes 2 v
  refine ⟨?_, ?_, ?_⟩
  · apply wordLE_eq_of_bytes
    intro k hk
    rw [buffer_packetBytes type CRC junk (by omega), packetBytes, Nat.zero_add,
      List.getD_append _ _ _ _ (by rw [hlen]; exact hk), getD_objectBytes _ hk]
  · apply wordLE_eq_of_bytes
    intro k hk
    rw [buffer_packetBytes type CRC junk (by omega), packetBytes,
      List.getD_append_right _ _ _ _ (by rw [hlen]; omega), hlen, Nat.add_sub_cancel_left,
      List.getD_append _ _ _ _ (by rw [hlen]; exact hk), getD_objectBytes _ hk]
  · apply wordLE_eq_of_bytes
    intro k hk
    have h2 : 4 + k - 2 = 2 + k := by omega
    rw [buffer_packetBytes type CRC junk (by omega), packetBytes,
      List.getD_append_right _ _ _ _ (by rw [hlen]; omega), hlen, h2,
      List.getD_append_right _ _ _ _ (by rw [hlen]; omega), hlen, Nat.add_sub_cancel_left,
      List.getD_append _ _ _ _ (by rw [hlen]; exact hk), getD_objectBytes _ hk]

theorem declaredSize_packetBytes (hfit : bs.length ≤ 2040) :
    declaredSize (writeAt 0 (packetBytes type CRC bs) junk) = 6 + bs.length := by
  rw [declaredSize, (wordLE_packetBytes type CRC junk bs).1, BitVec.toNat_ofNat]
  omega

theorem body_packetBytes (hfit : bs.length ≤ 2040) :
    body (writeAt 0 (packetBytes type CRC bs) junk) = bs := by
  have hsize := declaredSize_packetBytes type CRC junk hfit
  apply List.ext_getElem
  · rw [body, List.length_map, List.length_range', hsize]
    omega
  · intro j _ hj
    have hlen := fun v : BitVec (8 * 2) => length_objectBytes 2 v
    simp only [body, List.getElem_map, List.getElem_range', Nat.one_mul]
    have h2 : 6 + j - 2 = 4 + j := by omega
    have h4 : 4 + j - 2 = 2 + j := by omega
    rw [buffer_packetBytes type CRC junk (by omega), packetBytes,
      List.getD_append_right _ _ _ _ (by rw [hlen]; omega), hlen, h2,
      List.getD_append_right _ _ _ _ (by rw [hlen]; omega), hlen, h4,
      List.getD_append_right _ _ _ _ (by rw [hlen]; omega), hlen, Nat.add_sub_cancel_left,
      List.getD_eq_getElem _ _ hj]

/-- What the constructor leaves to read of a packet that was packed. -/
theorem ahead_packetBytes (hfit : bs.length ≤ 2040) :
    ahead (ofBuffer memory (writeAt 0 (packetBytes type CRC bs) junk)).packet
      = bs ++ leftover memory (6 + bs.length) := by
  have hM : MAX_PACKET_SIZE = 2047 := rfl
  have hsize := declaredSize_packetBytes type CRC junk hfit
  rw [ahead_ofBuffer memory (by omega) (by omega), body_packetBytes type CRC junk hfit, hsize]

/-- What the bytes that were packed decide is what is read, whatever the object was built
over and whatever lies behind those bytes. -/
theorem run_packetBytes {α : Type} {P : Reader α} {a : α} {rest : List Byte}
    (hfit : bs.length ≤ 2040)
    (h : P.decode (MAX_PACKET_SIZE - 1 - (6 + bs.length)) bs = some (a, rest)) :
    (run P (ofBuffer memory (writeAt 0 (packetBytes type CRC bs) junk)).packet).1 = a := by
  have hrun := decode_ahead (ofBuffer memory (writeAt 0 (packetBytes type CRC bs) junk)).packet P
  rw [← length_leftover memory] at h
  rw [ahead_packetBytes memory type CRC junk hfit, Reader.decode_append h, Option.some.injEq,
    Prod.mk.injEq] at hrun
  exact hrun.1.symm

end

/-- **Fields come back as they were written**: whatever the two objects were built over
and whatever lies behind the packed bytes. -/
theorem extract_insert (fs : List Field) (hnul : ∀ f ∈ fs, f.NulFree)
    (hfit : (encodeAll fs).length ≤ 2040) (buffer memory junk : ℕ → Byte)
    (type CRC : BitVec 16) :
    let written := insertAll fs (ofType buffer type CRC)
    let packed := (getPacked (packFields []) written).1
    let read := ofBuffer memory (writeAt 0 packed junk)
    (run (extractAll (fs.map Field.type)) read.packet).1 = fs ∧
      written.size.toNat = 6 + (encodeAll fs).length ∧
      read.packet.size = written.size ∧ read.type = type ∧ read.CRC = CRC := by
  intro written packed read
  have hpacked : packed = packetBytes type CRC (encodeAll fs) := by
    rw [← getPacked_eq_packetBytes hfit buffer type CRC]
    exact congrArg contents (pack_packFields fs (ofType buffer type CRC)).symm
  have hwritten : written.size.toNat = 6 + (encodeAll fs).length := by
    rw [← length_packetBytes type CRC, ← hpacked]
    exact (length_contents _).symm
  have hsize := declaredSize_packetBytes type CRC junk hfit
  obtain ⟨hsizeField, htype, hCRC⟩ := wordLE_packetBytes type CRC junk (encodeAll fs)
  obtain ⟨hread, hreadType, hreadCRC⟩ := ofBuffer_eq memory
    (show 6 ≤ declaredSize (writeAt 0 (packetBytes type CRC (encodeAll fs)) junk) by omega)
  have hfields := run_packetBytes memory type CRC junk hfit
    (by
      rw [← List.append_nil (encodeAll fs)]
      exact decode_extractAll hnul [])
  rw [← hpacked] at hfields hread hreadType hreadCRC htype hCRC hsizeField
  refine ⟨hfields, hwritten, ?_, hreadType.trans htype, hreadCRC.trans hCRC⟩
  rw [hread]
  apply BitVec.eq_of_toNat_eq
  rw [hsizeField, hwritten, BitVec.toNat_ofNat]
  omega

/-- A byte, a float, an array of two words and a string. -/
def sampleFields : List Field :=
  [⟨.scalar 1 (by decide), 7⟩, ⟨.scalar 4 (by decide), 0x3f800000⟩,
    ⟨.array 2 (.scalar 2 (by decide)), ⟨[513, 2], rfl⟩⟩, ⟨.string, [97, 98]⟩]

theorem extract_insert_sample :
    (run (extractAll (sampleFields.map Field.type))
        (ofBuffer (fun _ => 0xff) (writeAt 0 (getPacked (packFields [])
          (insertAll sampleFields (ofType (fun _ => 0xcc) 0x703 0))).1 fun _ => 0xee)).packet).1
      = sampleFields :=
  (extract_insert sampleFields
    (by
      intro f hf
      simp only [sampleFields, List.mem_cons, List.not_mem_nil, or_false] at hf
      rcases hf with rfl | rfl | rfl | rfl <;> simp [Field.NulFree, NulFree])
    (by decide) (fun _ => 0xcc) (fun _ => 0xff) (fun _ => 0xee) 0x703 0).1

end OsIrose.Packet

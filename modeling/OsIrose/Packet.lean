/-
Packet objects, `rosecommon/include/crosepacket.h`.

A `CRosePacket` is a buffer with a cursor that belongs to the object. `operator<<`
ends in `writeNext`, which drops a value that would reach the end of the buffer and
otherwise advances `current_` and `size_` and rewrites the size field. `getPacked`
calls the virtual `pack()`, which in every subclass is a sequence of `<<`, and copies
`size_` bytes. So what a subclass contributes is the list of the values it writes
(`PackFields`), and `getPacked` can be called for any of them.

Nothing puts the cursor back, so a second call writes the same values behind the first
ones. `nthPacked_eq_iff` says when that does not show: exactly when no value fits there.
-/
import OsIrose.Network

set_option autoImplicit false

namespace OsIrose.Packet

open ByteMem Network

/-- The `CRosePacket` part of a packet object; `current` is `current_ - buffer_`. -/
structure CRosePacket where
  buffer : ℕ → Byte
  current : ℕ
  size : BitVec 16

/-- The values that the `pack()` of a subclass writes, each as its bytes in memory. A
C++ object has at least one. -/
structure PackFields where
  fields : List (List Byte)
  pos : ∀ f ∈ fields, 0 < f.length

/-- `CRosePacket::writeNext`. -/
def writeNext (p : CRosePacket) (payload : List Byte) : CRosePacket :=
  -- what does not fit is dropped
  if MAX_PACKET_SIZE ≤ p.current + payload.length then p
  else
    let size := p.size + BitVec.ofNat 16 payload.length
    { buffer := writeAt 0 [size.setWidth 8, (size >>> 8).setWidth 8]
        (writeAt p.current payload p.buffer)
      current := p.current + payload.length
      size := size }

/-- `CRosePacket(type, CRC)`: the header is written like any other value. -/
def ofType (buffer : ℕ → Byte) (type CRC : BitVec 16) : CRosePacket :=
  let bytes (v : BitVec 16) : List Byte := [v.setWidth 8, (v >>> 8).setWidth 8]
  [bytes 0, bytes type, bytes CRC].foldl writeNext ⟨buffer, 0, 0⟩

/-- The `pack()` of a subclass. -/
def pack (fs : PackFields) (p : CRosePacket) : CRosePacket := fs.fields.foldl writeNext p

/-- The copy `getPacked` makes. -/
def contents (p : CRosePacket) : List Byte := (List.range p.size.toNat).map p.buffer

/-- `CRosePacket::getPacked`: what it returns, and the packet object afterwards. -/
def getPacked (fs : PackFields) (p : CRosePacket) : List Byte × CRosePacket :=
  -- `current_` is where the last call left it
  let p' := pack fs p
  (contents p', p')

/-- What call number `n` of `getPacked` returns, counted from zero. -/
def nthPacked (fs : PackFields) : ℕ → CRosePacket → List Byte
  | 0, p => (getPacked fs p).1
  | n + 1, p => nthPacked fs n (getPacked fs p).2

/-! ## The cursor -/

/-- The cursor after values of these sizes were written from `current`, those that did
not fit being dropped. -/
def fill (current : ℕ) (fields : List (List Byte)) : ℕ :=
  fields.foldl (fun c f => if MAX_PACKET_SIZE ≤ c + f.length then c else c + f.length)
    current

/-- **No value fits behind the first pack.** -/
def NoneFits (fs : PackFields) (p : CRosePacket) : Prop :=
  ∀ f ∈ fs.fields, MAX_PACKET_SIZE ≤ fill p.current fs.fields + f.length

instance (fs : PackFields) (p : CRosePacket) : Decidable (NoneFits fs p) := by
  unfold NoneFits; infer_instance

theorem le_fill (current : ℕ) (fields : List (List Byte)) : current ≤ fill current fields := by
  unfold fill
  induction fields generalizing current with
  | nil => exact Nat.le_refl _
  | cons f fields ih =>
      rw [List.foldl_cons]
      split
      · exact ih current
      · exact (Nat.le_add_right current f.length).trans (ih _)

/-- The cursor stays inside the buffer once it moves. -/
theorem fill_lt (current : ℕ) (fields : List (List Byte)) :
    fill current fields = current ∨ fill current fields < MAX_PACKET_SIZE := by
  unfold fill
  induction fields generalizing current with
  | nil =>
      left
      rfl
  | cons f fields ih =>
      rw [List.foldl_cons]
      split
      · exact ih current
      next hfit =>
        right
        rcases ih (current + f.length) with heq | hlt
        · rw [heq]
          omega
        · exact hlt

/-- The cursor does not move exactly when no value fits. -/
theorem fill_eq_self_iff {current : ℕ} {fields : List (List Byte)}
    (hpos : ∀ f ∈ fields, 0 < f.length) :
    fill current fields = current ↔ ∀ f ∈ fields, MAX_PACKET_SIZE ≤ current + f.length := by
  induction fields with
  | nil => exact ⟨fun _ _ h => (nomatch h), fun _ => rfl⟩
  | cons f fields ih =>
      have hstep : fill current (f :: fields)
          = fill (if MAX_PACKET_SIZE ≤ current + f.length then current
              else current + f.length) fields := rfl
      have ih' := ih (fun g hg => hpos g (List.mem_cons_of_mem f hg))
      rw [hstep, List.forall_mem_cons]
      by_cases hfit : MAX_PACKET_SIZE ≤ current + f.length
      · rw [if_pos hfit, ih']
        exact ⟨fun h => ⟨hfit, h⟩, fun h => h.2⟩
      · -- the first value moves the cursor, and nothing moves it back
        rw [if_neg hfit]
        have hf := hpos f List.mem_cons_self
        have hle := le_fill (current + f.length) fields
        constructor
        · intro h
          omega
        · intro h
          exact absurd h.1 hfit

/-- Cursor and size move together. -/
theorem pack_cursor (fs : PackFields) (p : CRosePacket) :
    (pack fs p).current = fill p.current fs.fields ∧
      (pack fs p).size
        = p.size + BitVec.ofNat 16 (fill p.current fs.fields - p.current) := by
  unfold pack
  generalize fs.fields = fields
  induction fields generalizing p with
  | nil =>
      refine ⟨rfl, ?_⟩
      have hnil : fill p.current [] = p.current := rfl
      rw [hnil, Nat.sub_self]
      exact (BitVec.add_zero _).symm
  | cons f fields ih =>
      obtain ⟨hcur, hsize⟩ := ih (writeNext p f)
      rw [List.foldl_cons, hcur, hsize]
      have hstep : fill p.current (f :: fields)
          = fill (if MAX_PACKET_SIZE ≤ p.current + f.length then p.current
              else p.current + f.length) fields := rfl
      rw [hstep]
      by_cases hfit : MAX_PACKET_SIZE ≤ p.current + f.length
      · have hw : writeNext p f = p := if_pos hfit
        rw [hw, if_pos hfit]
        exact ⟨rfl, rfl⟩
      · have hwc : (writeNext p f).current = p.current + f.length := by
          unfold writeNext
          rw [if_neg hfit]
        have hws : (writeNext p f).size = p.size + BitVec.ofNat 16 f.length := by
          unfold writeNext
          rw [if_neg hfit]
        have hle := le_fill (p.current + f.length) fields
        rw [hwc, hws, if_neg hfit, BitVec.add_assoc, ← BitVec.ofNat_add]
        refine ⟨rfl, ?_⟩
        congr 2
        omega

/-- Values that do not fit leave the packet as it is. -/
theorem foldl_writeNext_eq_self {p : CRosePacket} {fields : List (List Byte)}
    (h : ∀ f ∈ fields, MAX_PACKET_SIZE ≤ p.current + f.length) :
    fields.foldl writeNext p = p := by
  induction fields with
  | nil => rfl
  | cons f fields ih =>
      have hw : writeNext p f = p := if_pos (h f List.mem_cons_self)
      rw [List.foldl_cons, hw]
      exact ih (fun g hg => h g (List.mem_cons_of_mem f hg))

/-! ## Repeated calls -/

section

variable {fs : PackFields} {p : CRosePacket}

theorem length_contents (p : CRosePacket) : (contents p).length = p.size.toNat := by
  rw [contents, List.length_map, List.length_range]

/-- Where nothing fits any more, packing again changes nothing. -/
theorem pack_pack (h : NoneFits fs p) : pack fs (pack fs p) = pack fs p := by
  refine foldl_writeNext_eq_self (p := pack fs p) ?_
  intro f hf
  rw [(pack_cursor fs p).1]
  exact h f hf

/-- Where a value still fits, the second result is longer than the first. -/
theorem nthPacked_one_ne (h : ¬ NoneFits fs p) : nthPacked fs 1 p ≠ nthPacked fs 0 p := by
  intro heq
  have hlen := congrArg List.length heq
  have hone : nthPacked fs 1 p = contents (pack fs (pack fs p)) := rfl
  have hzero : nthPacked fs 0 p = contents (pack fs p) := rfl
  rw [hone, hzero, length_contents, length_contents] at hlen
  set p₁ := pack fs p with hp₁
  obtain ⟨-, hsize⟩ := pack_cursor fs p₁
  have hcur : p₁.current = fill p.current fs.fields := (pack_cursor fs p).1
  have hmoves : fill p₁.current fs.fields ≠ p₁.current := by
    intro hstay
    apply h
    intro f hf
    rw [← hcur]
    exact (fill_eq_self_iff fs.pos).mp hstay f hf
  have hle := le_fill p₁.current fs.fields
  have hlt : fill p₁.current fs.fields < MAX_PACKET_SIZE :=
    (fill_lt p₁.current fs.fields).resolve_left hmoves
  have hM : MAX_PACKET_SIZE = 2047 := rfl
  -- the sizes differ by the bytes appended, which are fewer than `2 ^ 16`
  have hstep : (fill p₁.current fs.fields - p₁.current) % 2 ^ 16
      = fill p₁.current fs.fields - p₁.current := Nat.mod_eq_of_lt (by omega)
  rw [hsize, BitVec.toNat_add, BitVec.toNat_ofNat, hstep] at hlen
  have hbound := p₁.size.isLt
  omega

theorem nthPacked_eq_of_noneFits (h : NoneFits fs p) (n : ℕ) :
    nthPacked fs n p = nthPacked fs 0 p := by
  have hfix : ∀ n, nthPacked fs n (pack fs p) = contents (pack fs p) := by
    intro n
    induction n with
    | zero => exact congrArg contents (pack_pack h)
    | succ n ih =>
        have hnext : (getPacked fs (pack fs p)).2 = pack fs p := pack_pack h
        rw [nthPacked, hnext, ih]
  cases n with
  | zero => rfl
  | succ n => exact hfix n

/-- **All calls of `getPacked` return the same** exactly when no value fits behind the
first pack. -/
theorem nthPacked_eq_iff :
    (∀ n, nthPacked fs n p = nthPacked fs 0 p) ↔ NoneFits fs p := by
  constructor
  · intro h
    by_contra hfits
    exact nthPacked_one_ne hfits (h 1)
  · exact nthPacked_eq_of_noneFits

end

end OsIrose.Packet

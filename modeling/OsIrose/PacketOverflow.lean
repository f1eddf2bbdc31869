/-
Writes that overflow a packet, `CRosePacket::writeNext` in
`rosecommon/include/crosepacket.h`.

`writeNext` drops what does not fit, each call for itself, and a `std::string` is one
call for each character and one for its zero. So a write behind the one that was dropped
can still fit, and of a string what fits is written without the zero. `Stops` says when
none of this happens: from the first field that does not fit no single write fits either.

The chat messages of the map server are where a client meets this: `SrvNormalChat` has two
bytes more than the `CliNormalChat` it relays.
-/
import OsIrose.PacketClasses

set_option autoImplicit false

namespace OsIrose.Packet

open ByteMem Network Wire

/-- With the cursor at `c`: the fields fit, or from the first one that does not fit no
single write does. -/
def Stops : ℕ → List Field → Prop
  | _, [] => True
  | c, f :: fs =>
      if c + f.encode.length < MAX_PACKET_SIZE then Stops (c + f.encode.length) fs
      else ∀ a ∈ (f :: fs).flatMap Field.atoms, MAX_PACKET_SIZE ≤ c + a.length

instance decidableStops : (c : ℕ) → (fs : List Field) → Decidable (Stops c fs)
  | _, [] => inferInstanceAs (Decidable True)
  | c, f :: fs =>
      haveI := decidableStops (c + f.encode.length) fs
      inferInstanceAs (Decidable (if c + f.encode.length < MAX_PACKET_SIZE
        then Stops (c + f.encode.length) fs
        else ∀ a ∈ (f :: fs).flatMap Field.atoms, MAX_PACKET_SIZE ≤ c + a.length))

/-- Writes that fit together are kept, and the others go on behind them. -/
theorem kept_append {c : ℕ} {as : List (List Byte)} (bs : List (List Byte))
    (h : c + as.flatten.length < MAX_PACKET_SIZE) :
    kept c (as ++ bs) = as ++ kept (c + as.flatten.length) bs := by
  induction as generalizing c with
  | nil => rfl
  | cons a as ih =>
      rw [List.flatten_cons, List.length_append] at h ⊢
      rw [List.cons_append, kept, if_neg (by omega), ih (by omega), Nat.add_assoc,
        List.cons_append]

/-- Nothing is kept exactly when no write fits. -/
theorem kept_eq_nil_iff {c : ℕ} {as : List (List Byte)} :
    kept c as = [] ↔ ∀ a ∈ as, MAX_PACKET_SIZE ≤ c + a.length := by
  induction as with
  | nil => simp [kept]
  | cons a as ih =>
      rw [kept, List.forall_mem_cons]
      by_cases hfit : MAX_PACKET_SIZE ≤ c + a.length
      · rw [if_pos hfit, ih]
        exact ⟨fun h => ⟨hfit, h⟩, fun h => h.2⟩
      · rw [if_neg hfit]
        exact ⟨fun h => absurd h (by simp), fun h => absurd h.1 hfit⟩

theorem mem_of_mem_kept {c : ℕ} {as : List (List Byte)} {a : List Byte}
    (h : a ∈ kept c as) : a ∈ as := by
  induction as generalizing c with
  | nil => exact h
  | cons b as ih =>
      rw [kept] at h
      by_cases hfit : MAX_PACKET_SIZE ≤ c + b.length
      · rw [if_pos hfit] at h
        exact List.mem_cons_of_mem b (ih h)
      · rw [if_neg hfit, List.mem_cons] at h
        rcases h with rfl | h
        · exact List.mem_cons_self
        · exact List.mem_cons_of_mem b (ih h)

/-- Where no byte is kept no write is. -/
theorem kept_eq_nil_of_flatten {c : ℕ} {fs : List Field}
    (h : (kept c (fs.flatMap Field.atoms)).flatten = []) :
    kept c (fs.flatMap Field.atoms) = [] := by
  rw [List.flatten_eq_nil_iff] at h
  apply List.eq_nil_iff_forall_not_mem.mpr
  intro a ha
  have hpos := (packFields fs).pos a (mem_of_mem_kept ha)
  rw [h a ha] at hpos
  exact Nat.lt_irrefl 0 hpos

/-- A field that fits is kept whole. -/
theorem kept_field {c : ℕ} {f : Field} (fs : List Field)
    (h : c + f.encode.length < MAX_PACKET_SIZE) :
    (kept c ((f :: fs).flatMap Field.atoms)).flatten
      = f.encode ++ (kept (c + f.encode.length) (fs.flatMap Field.atoms)).flatten := by
  have hatoms : c + f.atoms.flatten.length < MAX_PACKET_SIZE := h
  rw [List.flatMap_cons, kept_append _ hatoms, List.flatten_append]
  rfl

/-- **What is kept ends at a field boundary** exactly when nothing fits behind the fields
that are whole. -/
theorem kept_boundary_iff {c : ℕ} (hc : c < MAX_PACKET_SIZE) (fs : List Field) :
    (∃ k, (kept c (fs.flatMap Field.atoms)).flatten = encodeAll (fs.take k))
      ↔ Stops c fs := by
  induction fs generalizing c with
  | nil => exact ⟨fun _ => trivial, fun _ => ⟨0, rfl⟩⟩
  | cons f fs ih =>
      rw [Stops]
      by_cases hfit : c + f.encode.length < MAX_PACKET_SIZE
      · rw [if_pos hfit, ← ih hfit, kept_field fs hfit]
        constructor
        · rintro ⟨k, hk⟩
          cases k with
          | zero =>
              refine ⟨0, ?_⟩
              rw [List.take_zero, encodeAll_nil, List.append_eq_nil_iff] at hk
              exact hk.2
          | succ k =>
              rw [List.take_succ_cons, encodeAll_cons] at hk
              exact ⟨k, List.append_cancel_left hk⟩
        · rintro ⟨k, hk⟩
          refine ⟨k + 1, ?_⟩
          rw [hk, List.take_succ_cons, encodeAll_cons]
      · rw [if_neg hfit, ← kept_eq_nil_iff]
        constructor
        · rintro ⟨k, hk⟩
          cases k with
          | zero => exact kept_eq_nil_of_flatten hk
          | succ k =>
              -- the first field alone is longer than what can be kept
              have hlen := length_kept hc ((f :: fs).flatMap Field.atoms)
              rw [hk, List.take_succ_cons, encodeAll_cons, List.length_append] at hlen
              omega
        · intro hnil
          refine ⟨0, ?_⟩
          rw [hnil]
          rfl

/-- **A packet ends at a field boundary** exactly when nothing fits any more behind the
fields that are whole. -/
theorem getPacked_boundary_iff (fs : List Field) (buffer : ℕ → Byte) (type CRC : BitVec 16) :
    (∃ k, (getPacked (packFields fs) (ofType buffer type CRC)).1.drop 6
        = encodeAll (fs.take k)) ↔ Stops 6 fs := by
  rw [drop_getPacked]
  exact kept_boundary_iff (by decide) fs

/-! ## Chat messages -/

/-- What `SrvNormalChat::pack` writes. -/
def SrvNormalChat (charId : BitVec 16) (message : List Byte) : List Field :=
  [⟨uint16_t, charId⟩, ⟨.string, message⟩]

/-- A message is relayed whole exactly when it has at most 2037 characters. -/
theorem stops_normalChat_iff (charId : BitVec 16) (message : List Byte) :
    Stops 6 (SrvNormalChat charId message) ↔ message.length ≤ 2037 := by
  have hM : MAX_PACKET_SIZE = 2047 := rfl
  have hid : (Field.encode ⟨uint16_t, charId⟩).length = 2 := by
    rw [Field.encode, encode_scalar, length_objectBytes]
  have hmessage : (Field.encode ⟨.string, message⟩).length = message.length + 1 := by
    rw [Field.encode, encode_string, List.length_append, List.length_singleton]
  rw [SrvNormalChat, Stops, hid, if_pos (by omega), Stops, hmessage]
  by_cases hfit : message.length ≤ 2037
  · rw [if_pos (by omega)]
    exact ⟨fun _ => hfit, fun _ => trivial⟩
  · rw [if_neg (by omega)]
    constructor
    · intro h
      have hzero : [(0 : Byte)] ∈ List.flatMap Field.atoms [⟨.string, message⟩] := by
        simp [Field.atoms, atoms]
      have hend := h [0] hzero
      rw [List.length_singleton] at hend
      omega
    · intro h
      exact absurd h hfit

/-- The server accepts a message of 2038 characters from a client, and the relayed packet
ends inside the message. -/
theorem not_getPacked_boundary_chat :
    (CliNormalChat.construct (fun _ => 0) (writeAt 0 (packetBytes 0x783 0
        (encodeAll [⟨.string, List.replicate 2038 97⟩])) fun _ => 0)).map Object.fields
      = some [⟨.string, List.replicate 2038 97⟩] ∧
    ¬ ∃ k, (getPacked (packFields (SrvNormalChat 1 (List.replicate 2038 97)))
        (ofType (fun _ => 0) 0x783 0)).1.drop 6
      = encodeAll ((SrvNormalChat 1 (List.replicate 2038 97)).take k) := by
  constructor
  · have hnul : ∀ f ∈ [(⟨.string, List.replicate 2038 97⟩ : Field)], f.NulFree := by
      intro f hf
      rw [List.mem_singleton.mp hf]
      intro h
      exact absurd (List.eq_of_mem_replicate h) (by decide)
    have hlen : (encodeAll [⟨.string, List.replicate 2038 97⟩]).length = 2039 := by
      rw [encodeAll_cons, encodeAll_nil, List.append_nil, Field.encode, encode_string,
        List.length_append, List.length_replicate, List.length_singleton]
    have h := construct_ofFields (fun _ => 0) (fun _ => 0) 0 0x783 hnul (by rw [hlen]; omega)
    exact congrArg (Option.map Object.fields) h
  · rw [drop_getPacked, kept_boundary_iff (by decide), stops_normalChat_iff,
      List.length_replicate]
    omega

end OsIrose.Packet

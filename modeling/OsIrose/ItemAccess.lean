/-
Where the item handlers look, `map/src/systems/inventorysystem.cpp`, with the packets
`srv_setitem.cpp` and `srv_equipitem.cpp`.

`items_` has 140 slots and a client names a slot with 16 bits. `dropItem` checks the slot it
is given; `processEquip` narrows the source slot to 8 bits, reads the item in it and leaves
the check to `swapItems`. Neither asks whether the item has a script before it calls one:
`safeLuaCall` would, but only after it has written to the log of the script.
-/
import OsIrose.ItemHooks

set_option autoImplicit false

namespace OsIrose.ItemHooks

open Inventory (Item CliEquipItem CliDropItem Sent uint8 maxItems MAX_EQUIP_ITEMS)

/-- Every index is one of the array and every script called is there. -/
structure Safe {σ : Type} (h : Handling σ) : Prop where
  indexed : ∀ i ∈ h.indexed, i < maxItems
  called : ∀ lua ∈ h.called, lua.isCreated_ = true

/-- An item in the slot has its script. -/
def HasScript {σ : Type} (e : Actor σ) (slot : ℕ) : Prop :=
  (e.items_ slot).toBool → (e.items_ slot).lua_.isCreated_

/-- What `processEquip` relies on. -/
structure EquipSafe {σ : Type} (api : ItemAPI σ) (e : Actor σ) (packet : CliEquipItem) :
    Prop where
  from_lt : uint8 packet.slotFrom < maxItems
  unequip : HasScript e (uint8 packet.slotTo)
  equip : HasScript (unequipped api e packet) (uint8 packet.slotFrom)

/-- What `dropItem` relies on: a part of a stack is dropped, or the slot has a script, were
it empty. -/
def DropSafe {σ : Type} (e : Actor σ) (packet : CliDropItem) : Prop :=
  packet.quantity < (e.items_ packet.item).count ∨ (e.items_ packet.item).lua_.isCreated_

section

variable {σ : Type} (api : ItemAPI σ) {e : Actor σ}

theorem Hook.mem_calls {slot : ℕ} {lua : LuaAPI} :
    lua ∈ Hook.calls slot e ↔ (e.items_ slot).toBool ∧ lua = (e.items_ slot).lua_ := by
  unfold Hook.calls
  split <;> simp [*]

theorem hasScript_iff (slot : ℕ) :
    HasScript e slot ↔ ∀ lua ∈ Hook.calls slot e, lua.isCreated_ = true := by
  constructor
  · intro h lua hlua
    obtain ⟨hitem, rfl⟩ := Hook.mem_calls.mp hlua
    exact h hitem
  · intro h hitem
    exact h _ (Hook.mem_calls.mpr ⟨hitem, rfl⟩)

/-- The two questions: whatever comes of them, the source slot has been read. -/
theorem safe_asked_iff {packet : CliEquipItem} (hrange : InRange packet) :
    Safe (asked api e packet) ↔ EquipSafe api e packet := by
  have hlt : MAX_EQUIP_ITEMS < maxItems := by decide
  have hto := (Inventory.uint8_of_equip hrange).2.trans hlt
  constructor
  · intro h
    refine ⟨?_, (hasScript_iff _).mpr ?_, (hasScript_iff _).mpr ?_⟩
    · exact h.indexed _ (List.mem_append_right _ ((Hook.mem_reads _ _).mpr rfl))
    · exact fun lua hlua => h.called lua (List.mem_append_left _ hlua)
    · exact fun lua hlua => h.called lua (List.mem_append_right _ hlua)
  · intro h
    constructor
    · intro i hi
      rcases List.mem_append.mp hi with hi | hi
      · rwa [(Hook.mem_reads _ _).mp hi]
      · rw [(Hook.mem_reads _ _).mp hi]
        exact h.from_lt
    · intro lua hlua
      rcases List.mem_append.mp hlua with hlua | hlua
      · exact (hasScript_iff _).mp h.unequip lua hlua
      · exact (hasScript_iff _).mp h.equip lua hlua

/-- What follows the questions uses slots of the array only, the packets included. -/
theorem safe_processEquip_iff {packet : CliEquipItem} (hrange : InRange packet) :
    Safe (handle (processEquip api packet) e) ↔ EquipSafe api e packet := by
  rw [← safe_asked_iff api hrange]
  by_cases hswaps : Swaps api e packet
  · obtain ⟨read, hread, hrun⟩ := processEquip_of_swaps api hrange hswaps
    rw [hrun]
    constructor
    · exact fun h => ⟨fun i hi => h.indexed i (List.mem_append_left _ hi), h.called⟩
    · intro h
      refine ⟨fun i hi => ?_, h.called⟩
      rcases List.mem_append.mp hi with hi | hi
      · exact h.indexed i hi
      · exact hread i hi
  · rw [processEquip_of_not_swaps api hrange hswaps]

theorem safe_dropItem_iff {packet : CliDropItem}
    (hitem : ¬ (packet.item = 0 ∨ packet.item ≥ maxItems)) :
    Safe (handle (dropItem api packet) e) ↔ DropSafe e packet := by
  obtain ⟨-, hlt⟩ := not_or.mp hitem
  have hslot : packet.item < maxItems := not_le.mp hlt
  by_cases hpart : packet.quantity < (e.items_ packet.item).count
  · refine iff_of_true ?_ (.inl hpart)
    rw [dropItem_part api hitem hpart]
    constructor
    · intro i hi
      simp only [List.mem_cons, List.not_mem_nil, or_false, or_self] at hi
      rwa [hi]
    · exact fun _ hlua => absurd hlua List.not_mem_nil
  · rw [dropItem_all api hitem (not_lt.mp hpart)]
    constructor
    · exact fun h => .inr (h.called _ (List.mem_singleton.mpr rfl))
    · intro h
      have hscript := h.resolve_left hpart
      refine ⟨fun i hi => ?_, fun lua hlua => ?_⟩
      · have heq : i = packet.item := by
          dsimp only at hi
          split at hi <;> simpa using hi
        rwa [heq]
      · rwa [List.mem_singleton.mp hlua]

end

/-- **What the item handlers rely on.** A packet is handled inside `items_` and with scripts
that are there exactly when the handler refuses the slot named in it, or: for `processEquip`,
the source slot, narrowed, is one of the array and each of the two items asked has a script;
for `dropItem`, a part of a stack is dropped or the slot has a script. -/
theorem safe_iff {σ : Type} (api : ItemAPI σ) (e : Actor σ) :
    (∀ packet : CliEquipItem, Safe (handle (processEquip api packet) e) ↔
      (InRange packet → EquipSafe api e packet)) ∧
    (∀ packet : CliDropItem, Safe (handle (dropItem api packet) e) ↔
      (¬ (packet.item = 0 ∨ packet.item ≥ maxItems) → DropSafe e packet)) := by
  have hstart : Safe ({ entity := e } : Handling σ) :=
    ⟨fun _ hi => absurd hi List.not_mem_nil, fun _ hlua => absurd hlua List.not_mem_nil⟩
  constructor
  · intro packet
    by_cases hrange : InRange packet
    · rw [safe_processEquip_iff api hrange]
      exact ⟨fun h _ => h, fun h => h hrange⟩
    · rw [processEquip_outOfRange api hrange]
      exact iff_of_true hstart fun h => absurd h hrange
  · intro packet
    by_cases hitem : packet.item = 0 ∨ packet.item ≥ maxItems
    · rw [dropItem_outOfRange api hitem]
      exact iff_of_true hstart fun h => absurd hitem h
    · rw [safe_dropItem_iff api hitem]
      exact ⟨fun h _ => h, fun h => h hitem⟩

/-- An inventory without items. -/
def emptyHanded : Actor Unit where
  items_ _ := {}
  visible := ()

/-- Scripts that agree to everything. -/
def agreeingAPI : ItemAPI Unit where
  onEquip _ e := (true, e)
  onUnequip _ e := (true, e)
  onDrop _ e := (true, e)

/-- With nothing in the inventory, a client asks to wear the item in slot 200 and reads
behind the array, or drops the nothing in slot 20 and calls the script of no item. -/
theorem not_safe_emptyHanded :
    ¬ ((∀ packet : CliEquipItem, Safe (handle (processEquip agreeingAPI packet) emptyHanded)) ∧
      (∀ packet : CliDropItem, Safe (handle (dropItem agreeingAPI packet) emptyHanded))) ∧
    ¬ Safe (handle (processEquip agreeingAPI ⟨7, 200⟩) emptyHanded) ∧
    ¬ Safe (handle (dropItem agreeingAPI ⟨20, 1⟩) emptyHanded) := by
  have hequip : ¬ Safe (handle (processEquip agreeingAPI ⟨7, 200⟩) emptyHanded) := by
    intro h
    exact absurd (h.indexed 200 (by decide +kernel)) (by decide)
  have hdrop : ¬ Safe (handle (dropItem agreeingAPI ⟨20, 1⟩) emptyHanded) := by
    intro h
    exact absurd (h.called .default (by decide +kernel)) (by decide)
  exact ⟨fun h => hequip (h.1 _), hequip, hdrop⟩

end OsIrose.ItemHooks

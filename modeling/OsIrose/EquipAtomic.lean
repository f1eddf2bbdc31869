/-
What a refused `processEquip` leaves behind, `map/src/systems/inventorysystem.cpp`.

The handler asks both scripts before it looks at either answer, and it looks at the slots,
in `swapItems`, only after that; there is no call that takes a hook back. So what a refused
packet leaves is what its hooks did, and `atomic_iff` says when that is nothing.
-/
import OsIrose.ItemHooks

set_option autoImplicit false

namespace OsIrose.ItemHooks

open Inventory (Item CliEquipItem Sent uint8 maxItems MAX_EQUIP_ITEMS)

/-- `processEquip` as all or nothing: without an exchange the entity, its inventory and what
its scripts see, is as it was; with one, the unequip hook of the item in the destination and
then the equip hook of the item in the source have been applied to it, and the two slots
exchanged. -/
structure Atomic {σ : Type} (api : ItemAPI σ) (e : Actor σ) (packet : CliEquipItem) : Prop where
  refused : (handle (processEquip api packet) e).swapped = [] →
    (handle (processEquip api packet) e).entity = e
  equipped : (handle (processEquip api packet) e).swapped ≠ [] →
    ∃ slotFrom, (handle (processEquip api packet) e).swapped = [(uint8 packet.slotTo, slotFrom)] ∧
      slotFrom = (hooked api e packet).slotFor (uint8 packet.slotFrom) ∧
      (handle (processEquip api packet) e).entity =
        (hooked api e packet).exchange (uint8 packet.slotTo) slotFrom

/-- **When `processEquip` is atomic**: the destination is no slot to equip, or the packet
gets to the exchange, or the hooks that run leave the entity as it was. -/
theorem atomic_iff {σ : Type} (api : ItemAPI σ) (e : Actor σ) (packet : CliEquipItem) :
    Atomic api e packet ↔
      ¬ InRange packet ∨ Swaps api e packet ∨ hooked api e packet = e := by
  by_cases hrange : InRange packet
  · by_cases hswaps : Swaps api e packet
    · -- exchanged
      refine iff_of_true ?_ (.inr (.inl hswaps))
      obtain ⟨read, -, hrun⟩ := processEquip_of_swaps api hrange hswaps
      constructor
      · intro h
        rw [hrun] at h
        exact absurd h (List.cons_ne_nil _ _)
      · intro _
        rw [hrun]
        exact ⟨_, rfl, rfl, rfl⟩
    · -- refused after the hooks
      have hrun := processEquip_of_not_swaps api hrange hswaps
      have hnone : (handle (processEquip api packet) e).swapped = [] := by rw [hrun]; rfl
      have hentity : (handle (processEquip api packet) e).entity = hooked api e packet := by
        rw [hrun]; rfl
      constructor
      · intro h
        exact .inr (.inr (hentity.symm.trans (h.refused hnone)))
      · rintro (h | h | h)
        · exact absurd hrange h
        · exact absurd h hswaps
        · exact ⟨fun _ => hentity.trans h, fun hsome => absurd hnone hsome⟩
  · refine iff_of_true ?_ (.inl hrange)
    have hrun := processEquip_outOfRange api (e := e) hrange
    constructor
    · intro _
      rw [hrun]
    · intro h
      rw [hrun] at h
      exact absurd rfl h

/-! ## An item put on twice -/

/-- Scripts that count: an item is worth 5 of what `visible` counts. -/
def countingAPI : ItemAPI ℕ where
  onEquip _ e := (true, { e with visible := e.visible + 5 })
  onUnequip _ e := (e.visible ≥ 5, { e with visible := e.visible - 5 })
  onDrop _ e := (true, e)

/-- The same, but no item can be put on. -/
def refusingAPI : ItemAPI ℕ :=
  { countingAPI with onEquip := fun _ e => (false, e) }

/-- A sword in the right hand, worn, and a better one in the bag. -/
def twoSwords : Actor ℕ where
  items_ i :=
    if i = 7 then { type := 8, id := 1, count := 1, lua_ := .ofEnvironment }
    else if i = 12 then { type := 8, id := 2, count := 1, lua_ := .ofEnvironment }
    else {}
  visible := 5

/-- The script of the second sword refuses to have it put on: the first one stays where it
is, and has been taken off. -/
theorem not_atomic_twoSwords : ¬ Atomic refusingAPI twoSwords ⟨7, 12⟩ := by
  intro h
  have hsame : (handle (processEquip refusingAPI ⟨7, 12⟩) twoSwords).entity = twoSwords :=
    h.refused (by decide +kernel)
  have hvisible := congrArg Actor.visible hsame
  exact absurd hvisible (by decide +kernel)

end OsIrose.ItemHooks

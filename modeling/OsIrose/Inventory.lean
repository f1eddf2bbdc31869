/-
The inventory: `map/src/systems/inventorysystem.cpp`, with `item.h` and
`components/inventory.h`.

`items_` has 140 slots; the slots below `MAX_EQUIP_ITEMS` are those of the equipped items.
Slot 0 is none of them: 0 stands for "the next free slot" in `swapItems` and for "no free
slot" as the answer of `findNextEmptySlot`. `processEquip` and `dropItem` take what a
client sends; what the Lua script of an item answers is an argument here.
-/
import OsIrose.Holdings
import OsIrose.Runs
import Mathlib.Data.List.Range

set_option autoImplicit false

namespace OsIrose.Inventory

open Function Holdings Runs

/-- `RoseCommon::Item`, with the fields that `operator==` compares. -/
structure Item where
  type : ℕ := 0
  id : ℕ := 0
  isCreated : Bool := false
  gemOpt : ℕ := 0
  durability : ℕ := 0
  life : ℕ := 0
  hasSocket : Bool := false
  isAppraised : Bool := false
  refine : ℕ := 0
  count : ℕ := 0
  isStackable : Bool := false
  deriving DecidableEq, Repr

/-- `Item::operator bool`. -/
def Item.toBool (item : Item) : Bool :=
  item.id ≠ 0

/-- `items_`. What stands at `maxItems` and above is what lies behind the array, which
`processEquip` reads before it checks the slot. -/
abbrev Items := ℕ → Item

/-- `Inventory::maxItems`. -/
def maxItems : ℕ := 140

/-- `Inventory::MAX_EQUIP_ITEMS`. -/
def MAX_EQUIP_ITEMS : ℕ := 12

/-- `CliEquipItem`; both slots are an `int16_t`. -/
structure CliEquipItem where
  slotTo : ℤ
  slotFrom : ℤ

structure CliDropItem where
  item : ℕ
  quantity : ℕ

/-- The packets sent. -/
inductive Sent
  /-- `SET_ITEM` to the client. -/
  | setItem (slots : List ℕ)
  /-- `EQUIP_ITEM` to everyone. -/
  | equipItem (slot : ℕ)
  /-- `DROP_ITEM` to everyone, for the entity of the item. -/
  | dropItem (item : Item)
  deriving DecidableEq, Repr

/-! ## The operations -/

/-- `InventorySystem::findNextEmptySlot`. -/
def findNextEmptySlot (items : Items) : ℕ :=
  ((List.range' MAX_EQUIP_ITEMS (maxItems - MAX_EQUIP_ITEMS)).find?
    (fun i => (items i).id = 0)).getD 0

/-- `InventorySystem::swapItems`: the slots exchanged and the items after it, or `none` for
`false`. -/
def swapItems (items : Items) (a b : ℕ) : Option (ℕ × ℕ × Items) :=
  if a ≥ maxItems ∨ b ≥ maxItems then none
  else if a = b ∨ (a = 0 ∧ b = 0) then none
  else
    let a := if a = 0 then findNextEmptySlot items else a
    let b := if b = 0 then findNextEmptySlot items else b
    some (a, b, items ∘ Equiv.swap a b)

/-- A cast to `uint8_t`. -/
def uint8 (x : ℤ) : ℕ :=
  (x % 256).toNat

/-- `InventorySystem::processEquip`, with the answers of `onUnequip` and `onEquip`. -/
def processEquip (items : Items) (packet : CliEquipItem) (onUnequip onEquip : Bool) :
    Items × List Sent :=
  if packet.slotTo < 1 ∨ packet.slotTo ≥ MAX_EQUIP_ITEMS then (items, [])
  else
    let slotTo := uint8 packet.slotTo
    let slotFrom := uint8 packet.slotFrom
    -- an item that is not there, -1 in the source, does not refuse
    let unequip := if slotTo < MAX_EQUIP_ITEMS && (items slotTo).toBool then onUnequip else true
    let equip := if slotTo < MAX_EQUIP_ITEMS && (items slotFrom).toBool then onEquip else true
    if !equip || !unequip then (items, [])
    else match swapItems items slotTo slotFrom with
      | none => (items, [])
      | some (slotTo, slotFrom, items) =>
          (items, [.equipItem (packet.slotTo).toNat, .setItem [slotTo, slotFrom]])

/-- `InventorySystem::removeItem`: the item removed and the items after it. -/
def removeItem (items : Items) (slot : ℕ) : Item × Items × List Sent :=
  if slot = 0 ∨ slot ≥ maxItems then ({}, items, [])
  else
    let sent := if slot < MAX_EQUIP_ITEMS then [Sent.equipItem slot] else []
    (items slot, update items slot {}, .setItem [slot] :: sent)

/-- `InventorySystem::dropItem`: the items after it, and the item of the entity built. -/
def dropItem (items : Items) (packet : CliDropItem) : Items × Option Item × List Sent :=
  if packet.item = 0 ∨ packet.item ≥ maxItems then (items, none, [])
  else
    let held := (items packet.item).count
    let count := if held < packet.quantity then held else packet.quantity
    if count < held then
      let item := { items packet.item with count := held - count }
      let droppedItem := { item with count := count }
      (update items packet.item item, some droppedItem,
        [.setItem [packet.item], .dropItem droppedItem])
    else
      let (droppedItem, items, sent) := removeItem items packet.item
      (items, some droppedItem, sent ++ [.dropItem droppedItem])

/-- `InventorySystem::addItem`: the items after it, or `none` for `false`. -/
def addItem (items : Items) (item : Item) : Option (Items × List Sent) :=
  let slot := findNextEmptySlot items
  if slot = 0 then none
  else some (update items slot item, [.setItem [slot]])

/-! ## What `findNextEmptySlot` and `swapItems` answer -/

/-- Every slot of the bag holds an item. -/
def Full (items : Items) : Prop :=
  ∀ i, MAX_EQUIP_ITEMS ≤ i → i < maxItems → (items i).id ≠ 0

theorem mem_bag {i : ℕ} :
    i ∈ List.range' MAX_EQUIP_ITEMS (maxItems - MAX_EQUIP_ITEMS) ↔
      MAX_EQUIP_ITEMS ≤ i ∧ i < maxItems := by
  simp [List.mem_range'_1, maxItems, MAX_EQUIP_ITEMS]

theorem findNextEmptySlot_of_full {items : Items} (h : Full items) :
    findNextEmptySlot items = 0 := by
  have hnone : (List.range' MAX_EQUIP_ITEMS (maxItems - MAX_EQUIP_ITEMS)).find?
      (fun i => (items i).id = 0) = none := by
    simp only [List.find?_eq_none, mem_bag, decide_eq_true_eq]
    exact fun i hi => h i hi.1 hi.2
  simp [findNextEmptySlot, hnone]

/-- Otherwise the answer is an empty slot of the bag. -/
theorem findNextEmptySlot_of_not_full {items : Items} (h : ¬ Full items) :
    MAX_EQUIP_ITEMS ≤ findNextEmptySlot items ∧ findNextEmptySlot items < maxItems ∧
      (items (findNextEmptySlot items)).id = 0 := by
  rw [findNextEmptySlot]
  cases hfind : (List.range' MAX_EQUIP_ITEMS (maxItems - MAX_EQUIP_ITEMS)).find?
      (fun i => (items i).id = 0) with
  | none =>
      simp only [List.find?_eq_none, mem_bag, decide_eq_true_eq] at hfind
      exact absurd (fun i h₁ h₂ => hfind i ⟨h₁, h₂⟩) h
  | some i =>
      have hmem := mem_bag.mp (List.mem_of_find?_eq_some hfind)
      exact ⟨hmem.1, hmem.2, by simpa using List.find?_some hfind⟩

theorem findNextEmptySlot_eq_zero_iff (items : Items) :
    findNextEmptySlot items = 0 ↔ Full items := by
  refine ⟨fun h => ?_, findNextEmptySlot_of_full⟩
  by_contra hfull
  have hle := (findNextEmptySlot_of_not_full hfull).1
  simp [h, MAX_EQUIP_ITEMS] at hle

theorem findNextEmptySlot_lt (items : Items) : findNextEmptySlot items < maxItems := by
  by_cases h : Full items
  · simp [findNextEmptySlot_of_full h, maxItems]
  · exact (findNextEmptySlot_of_not_full h).2.1

theorem uint8_of_equip {slot : ℤ} (h : ¬ (slot < 1 ∨ slot ≥ MAX_EQUIP_ITEMS)) :
    1 ≤ uint8 slot ∧ uint8 slot < MAX_EQUIP_ITEMS := by
  simp only [MAX_EQUIP_ITEMS, uint8] at *
  omega

/-- Where `swapItems` answers `true`, it exchanges two slots of the array. -/
theorem swapItems_eq_some {items items' : Items} {a b a' b' : ℕ}
    (h : swapItems items a b = some (a', b', items')) :
    a' < maxItems ∧ b' < maxItems ∧ items' = items ∘ Equiv.swap a' b' := by
  simp only [swapItems, Option.ite_none_left_eq_some, Option.some.injEq, Prod.mk.injEq,
    not_or, not_le, ge_iff_le] at h
  obtain ⟨⟨ha, hb⟩, -, rfl, rfl, rfl⟩ := h
  have hfree := findNextEmptySlot_lt items
  refine ⟨?_, ?_, rfl⟩
  · split <;> assumption
  · split <;> assumption

/-- A part of a stack is dropped. -/
theorem dropItem_of_lt {items : Items} {packet : CliDropItem}
    (hitem : ¬ (packet.item = 0 ∨ packet.item ≥ maxItems))
    (hlt : packet.quantity < (items packet.item).count) :
    dropItem items packet =
      (update items packet.item
          { items packet.item with count := (items packet.item).count - packet.quantity },
        some { items packet.item with count := packet.quantity },
        [.setItem [packet.item],
          .dropItem { items packet.item with count := packet.quantity }]) := by
  simp [dropItem, hitem, hlt, not_lt.mpr hlt.le]

/-- Everything in the slot is dropped. -/
theorem dropItem_of_le {items : Items} {packet : CliDropItem}
    (hitem : ¬ (packet.item = 0 ∨ packet.item ≥ maxItems))
    (hle : (items packet.item).count ≤ packet.quantity) :
    (dropItem items packet).1 = (removeItem items packet.item).2.1 ∧
      (dropItem items packet).2.1 = some (items packet.item) := by
  have hcount : (if (items packet.item).count < packet.quantity then (items packet.item).count
      else packet.quantity) = (items packet.item).count := by
    split <;> omega
  simp [dropItem, hitem, hcount, removeItem]

/-! ## The items after an operation -/

inductive Op
  | processEquip (packet : CliEquipItem) (onUnequip onEquip : Bool)
  | dropItem (packet : CliDropItem)
  | addItem (item : Item)
  | removeItem (slot : ℕ)
  | swapItems (a b : ℕ)

/-- What an operation does: the items after it, and the items that change hands. -/
structure Outcome where
  items : Items
  /-- What `addItem` put in a slot. -/
  added : Option Item := none
  /-- What `dropItem` built an entity of. -/
  ground : Option Item := none
  /-- What `removeItem` returned. -/
  removed : Option Item := none

/-- What leaves the inventory. -/
def Outcome.taken (o : Outcome) : Option Item :=
  o.ground.or o.removed

def perform (items : Items) : Op → Outcome
  | .processEquip packet onUnequip onEquip =>
      { items := (processEquip items packet onUnequip onEquip).1 }
  | .dropItem packet =>
      { items := (dropItem items packet).1, ground := (dropItem items packet).2.1 }
  | .addItem item =>
      match addItem items item with
      | none => { items }
      | some (items, _) => { items, added := some item }
  | .removeItem slot =>
      { items := (removeItem items slot).2.1, removed := some (removeItem items slot).1 }
  | .swapItems a b => { items := ((swapItems items a b).map (·.2.2)).getD items }

def next (items : Items) (op : Op) : Items :=
  (perform items op).items

/-- `processEquip` gets to `swapItems`. -/
def Equips (items : Items) (packet : CliEquipItem) (onUnequip onEquip : Bool) : Prop :=
  ¬ (packet.slotTo < 1 ∨ packet.slotTo ≥ MAX_EQUIP_ITEMS) ∧
    ((items (uint8 packet.slotTo)).toBool → onUnequip) ∧
    ((items (uint8 packet.slotFrom)).toBool → onEquip)

theorem processEquip_of_not_equips {items : Items} {packet : CliEquipItem} {u e : Bool}
    (h : ¬ Equips items packet u e) : (processEquip items packet u e).1 = items := by
  by_cases hslot : packet.slotTo < 1 ∨ packet.slotTo ≥ MAX_EQUIP_ITEMS
  · simp [processEquip, hslot]
  · have hlt := (uint8_of_equip hslot).2
    have hrefused : (items (uint8 packet.slotFrom)).toBool = true ∧ e = false ∨
        (items (uint8 packet.slotTo)).toBool = true ∧ u = false := by
      simp only [Equips, hslot, not_false_eq_true, true_and, not_and_or, Classical.not_imp,
        Bool.not_eq_true] at h
      exact h.symm
    simp [processEquip, hslot, hlt, hrefused]

theorem processEquip_of_equips {items : Items} {packet : CliEquipItem} {u e : Bool}
    (h : Equips items packet u e) :
    (processEquip items packet u e).1 =
      next items (.swapItems (uint8 packet.slotTo) (uint8 packet.slotFrom)) := by
  obtain ⟨hslot, hu, he⟩ := h
  have hlt := (uint8_of_equip hslot).2
  have haccepted : ¬ ((items (uint8 packet.slotFrom)).toBool = true ∧ e = false ∨
      (items (uint8 packet.slotTo)).toBool = true ∧ u = false) := by
    rintro (⟨hi, rfl⟩ | ⟨hi, rfl⟩)
    · simpa using he hi
    · simpa using hu hi
  cases hswap : swapItems items (uint8 packet.slotTo) (uint8 packet.slotFrom) with
  | none => simp [processEquip, hslot, hlt, haccepted, next, perform, hswap]
  | some result => simp [processEquip, hslot, hlt, haccepted, next, perform, hswap]

/-! ## Slot 0 -/

/-- `swapItems` moves an item into slot 0: one slot asked for is "the next free one", there
is none, and the other holds an item. -/
def SwapSpills (items : Items) (a b : ℕ) : Prop :=
  Full items ∧ a < maxItems ∧ b < maxItems ∧
    ((a = 0 ∧ (items b).toBool) ∨ (b = 0 ∧ (items a).toBool))

def Spills (items : Items) : Op → Prop
  | .swapItems a b => SwapSpills items a b
  -- unequipping with `slotFrom` 0 and no free slot in the bag
  | .processEquip packet onUnequip _ =>
      ¬ (packet.slotTo < 1 ∨ packet.slotTo ≥ MAX_EQUIP_ITEMS) ∧ uint8 packet.slotFrom = 0 ∧
        Full items ∧ (items (uint8 packet.slotTo)).toBool ∧ onUnequip
  | _ => False

/-- The items after `swapItems` where it does not answer `false`. -/
theorem next_swapItems {items : Items} {a b : ℕ} (ha : a < maxItems) (hb : b < maxItems)
    (hne : a ≠ b) :
    next items (.swapItems a b) = items ∘ Equiv.swap
      (if a = 0 then findNextEmptySlot items else a)
      (if b = 0 then findNextEmptySlot items else b) := by
  have hzero : ¬ (a = 0 ∧ b = 0) := fun h => hne (h.1.trans h.2.symm)
  simp [next, perform, swapItems, not_le.mpr ha, not_le.mpr hb, hne, hzero]

theorem next_swapItems_of_refused {items : Items} {a b : ℕ}
    (h : a ≥ maxItems ∨ b ≥ maxItems ∨ a = b) : next items (.swapItems a b) = items := by
  have hnone : swapItems items a b = none := by
    rcases h with h | h | h <;> simp [swapItems, h]
  simp [next, perform, hnone]

/-- Asked for the next free slot, `swapItems` fills slot 0 if there is none and the other
slot holds an item. -/
theorem swap_free_zero_iff {items : Items} (h : (items 0).id = 0) {b : ℕ} (hb : b ≠ 0) :
    ((items ∘ Equiv.swap (findNextEmptySlot items) b) 0).id = 0 ↔
      ¬ (Full items ∧ (items b).toBool) := by
  by_cases hfull : Full items
  · simp [findNextEmptySlot_of_full hfull, hfull, Item.toBool]
  · have hle := (findNextEmptySlot_of_not_full hfull).1
    have hne : (0 : ℕ) ≠ findNextEmptySlot items := by
      simp only [MAX_EQUIP_ITEMS] at hle
      omega
    simp [Equiv.swap_apply_of_ne_of_ne hne hb.symm, h, hfull]

theorem swapItems_zero_iff {items : Items} (h : (items 0).id = 0) (a b : ℕ) :
    (next items (.swapItems a b) 0).id = 0 ↔ ¬ SwapSpills items a b := by
  by_cases hrefused : a ≥ maxItems ∨ b ≥ maxItems ∨ a = b
  · rw [next_swapItems_of_refused hrefused, iff_true_left h]
    rintro ⟨-, ha, hb, hspill⟩
    obtain rfl : a = b := by omega
    rcases hspill with ⟨rfl, hi⟩ | ⟨rfl, hi⟩ <;> simp [Item.toBool, h] at hi
  · obtain ⟨ha, hb, hne⟩ : a < maxItems ∧ b < maxItems ∧ a ≠ b := by omega
    have hpos : 0 < maxItems := by decide
    rw [next_swapItems ha hb hne]
    by_cases ha0 : a = 0
    · have hb0 : b ≠ 0 := fun hb0 => hne (ha0.trans hb0.symm)
      simp only [ha0, hb0, if_true, if_false, swap_free_zero_iff h hb0]
      simp [SwapSpills, hb, hb0, hpos]
    · by_cases hb0 : b = 0
      · simp only [ha0, hb0, if_true, if_false, Equiv.swap_comm a, swap_free_zero_iff h ha0]
        simp [SwapSpills, ha, ha0, hpos]
      · have hstay : Equiv.swap a b 0 = 0 :=
          Equiv.swap_apply_of_ne_of_ne (Ne.symm ha0) (Ne.symm hb0)
        simp [SwapSpills, ha0, hb0, hstay, h]

theorem removeItem_zero {items : Items} (h : (items 0).id = 0) (slot : ℕ) :
    ((removeItem items slot).2.1 0).id = 0 := by
  by_cases hslot : slot = 0 ∨ slot ≥ maxItems
  · simpa [removeItem, hslot] using h
  · have hne : 0 ≠ slot := fun heq => hslot (.inl heq.symm)
    simpa [removeItem, hslot, update_of_ne hne] using h

theorem dropItem_zero {items : Items} (h : (items 0).id = 0) (packet : CliDropItem) :
    ((dropItem items packet).1 0).id = 0 := by
  by_cases hitem : packet.item = 0 ∨ packet.item ≥ maxItems
  · simpa [dropItem, hitem] using h
  · by_cases hlt : packet.quantity < (items packet.item).count
    · have hne : 0 ≠ packet.item := fun heq => hitem (.inl heq.symm)
      simpa [dropItem_of_lt hitem hlt, update_of_ne hne] using h
    · rw [(dropItem_of_le hitem (not_lt.mp hlt)).1]
      exact removeItem_zero h packet.item

theorem addItem_zero {items : Items} (h : (items 0).id = 0) (item : Item) :
    (next items (.addItem item) 0).id = 0 := by
  by_cases hslot : findNextEmptySlot items = 0
  · simpa [next, perform, addItem, hslot] using h
  · simpa [next, perform, addItem, hslot, update_of_ne (Ne.symm hslot)] using h

theorem processEquip_zero_iff {items : Items} (h : (items 0).id = 0) (packet : CliEquipItem)
    (u e : Bool) :
    (next items (.processEquip packet u e) 0).id = 0 ↔
      ¬ Spills items (.processEquip packet u e) := by
  by_cases hequips : Equips items packet u e
  · obtain ⟨hslot, hu, he⟩ := hequips
    have hrange := uint8_of_equip hslot
    have hto : uint8 packet.slotTo < maxItems := hrange.2.trans (by decide)
    have hne : uint8 packet.slotTo ≠ 0 := by omega
    have hpos : 0 < maxItems := by decide
    rw [next, perform, processEquip_of_equips ⟨hslot, hu, he⟩, swapItems_zero_iff h,
      not_iff_not]
    constructor
    · rintro ⟨hfull, -, -, ⟨hzero, -⟩ | ⟨hfrom, hi⟩⟩
      · exact absurd hzero hne
      · exact ⟨hslot, hfrom, hfull, hi, hu hi⟩
    · rintro ⟨-, hfrom, hfull, hi, -⟩
      exact ⟨hfull, hto, hfrom ▸ hpos, .inr ⟨hfrom, hi⟩⟩
  · rw [next, perform, processEquip_of_not_equips hequips]
    refine iff_of_true h ?_
    -- slot 0 is empty, so no script is asked about it
    rintro ⟨hslot, hfrom, -, -, hu⟩
    refine hequips ⟨hslot, fun _ => hu, fun hi => ?_⟩
    simp [hfrom, Item.toBool, h] at hi

/-- **What one operation does to an empty slot 0.** -/
theorem next_zero_iff {items : Items} (h : (items 0).id = 0) (op : Op) :
    (next items op 0).id = 0 ↔ ¬ Spills items op := by
  match op with
  | .processEquip packet u e => exact processEquip_zero_iff h packet u e
  | .dropItem packet => exact iff_of_true (dropItem_zero h packet) not_false
  | .addItem item => exact iff_of_true (addItem_zero h item) not_false
  | .removeItem slot => exact iff_of_true (removeItem_zero h slot) not_false
  | .swapItems a b => exact swapItems_zero_iff h a b

/-- `items_[0]` stays empty over a run of operations exactly as long as none of them is
asked to use the next free slot for an item when there is none. -/
theorem slot_zero_iff (items : Items) (h : (items 0).id = 0) (ops : List Op) :
    (∀ p, p <+: ops → (p.foldl next items 0).id = 0) ↔
      ∀ p op, p ++ [op] <+: ops → ¬ Spills (p.foldl next items) op :=
  @foldl_reached_iff _ _ _ next (fun _ => True) (fun items => (items 0).id = 0)
    (fun items op => ¬ Spills items op) (fun _ _ _ => trivial)
    (fun _ op _ h => next_zero_iff h op) trivial h ops

/-- An inventory with an item in every slot but slot 0. -/
def fullBag : Items := fun i =>
  if i = 0 then {} else { type := 1, id := 1, count := 1 }

theorem slot_zero_fullBag :
    (∀ p, p <+: [Op.processEquip ⟨7, 20⟩ true true] → (p.foldl next fullBag 0).id = 0) ↔
      ∀ p op, p ++ [op] <+: [Op.processEquip ⟨7, 20⟩ true true] →
        ¬ Spills (p.foldl next fullBag) op :=
  slot_zero_iff fullBag rfl _

/-- With a full bag, a client that unequips slot 7 with `slotFrom` 0 gets the item into
slot 0. -/
theorem slot_zero_filled :
    ¬ ∀ (items : Items) (ops : List Op), (items 0).id = 0 → (ops.foldl next items 0).id = 0 := by
  intro h
  have hzero := h fullBag [.processEquip ⟨7, 0⟩ true true] rfl
  have hitem : ([Op.processEquip ⟨7, 0⟩ true true].foldl next fullBag 0).id = 1 := by
    decide +kernel
  rw [hzero] at hitem
  exact absurd hitem (by decide)

end OsIrose.Inventory

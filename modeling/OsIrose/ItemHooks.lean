/-
The scripts of the items: `map/src/systems/inventorysystem.cpp` with the hooks of
`rosecommon/include/itemapi.h` and `luaapi.h`.

`Inventory` has the answers of the scripts for arguments. Here a hook is what it is in the
source: a call that gets the entity, may do anything to it, and answers. The handlers are
written statement by statement in a state monad that keeps, next to the entity, what was
sent and three ghost logs: the indices `items_` is used with, the `LuaAPI` of each hook
called, and the slots exchanged. `processEquip_refines` and `dropItem_refines` lead back to
the handlers of `Inventory`.
-/
import OsIrose.Inventory

set_option autoImplicit false

namespace OsIrose.ItemHooks

open Inventory (Item CliEquipItem CliDropItem Sent uint8 maxItems MAX_EQUIP_ITEMS)

/-! ## Items with scripts -/

/-- `LuaAPI`, by its two constructors. The one that takes the environment of a script is
also the one that sets `logger_`, which `safeLuaCall` uses before it looks at
`isCreated_`. -/
inductive LuaAPI
  | default
  | ofEnvironment
  deriving DecidableEq, Repr

def LuaAPI.isCreated_ : LuaAPI → Bool
  | .default => false
  | .ofEnvironment => true

/-- An `Item` with its `lua_`. -/
structure ScriptItem extends Item where
  lua_ : LuaAPI := .default
  deriving DecidableEq, Repr

/-- The entity a handler is called with: its inventory, and whatever else of it the scripts
see. -/
@[ext]
structure Actor (σ : Type) where
  items_ : ℕ → ScriptItem
  visible : σ

/-- One slot replaced. -/
def Actor.setItem {σ : Type} (e : Actor σ) (slot : ℕ) (item : ScriptItem) : Actor σ :=
  { e with items_ := Function.update e.items_ slot item }

/-- Two slots exchanged. -/
def Actor.exchange {σ : Type} (e : Actor σ) (a b : ℕ) : Actor σ :=
  { e with items_ := e.items_ ∘ Equiv.swap a b }

/-- A hook of an item: its answer, and the entity after it. -/
abbrev Hook (σ : Type) := ScriptItem → Actor σ → Bool × Actor σ

/-- The hooks the handlers call. -/
structure ItemAPI (σ : Type) where
  onEquip : Hook σ
  onUnequip : Hook σ
  onDrop : Hook σ

/-- A handler at work. -/
structure Handling (σ : Type) where
  entity : Actor σ
  sent : List Sent := []
  /-- The indices `items_` is used with. -/
  indexed : List ℕ := []
  /-- The `lua_` of the hooks called. -/
  called : List LuaAPI := []
  /-- The slots exchanged. -/
  swapped : List (ℕ × ℕ) := []

abbrev HandlerM (σ : Type) := StateM (Handling σ)

section

variable {σ : Type} (api : ItemAPI σ)

/-- `items_[i]`. -/
def itemAt (i : ℕ) : HandlerM σ ScriptItem := fun h =>
  (h.entity.items_ i, { h with indexed := h.indexed ++ [i] })

/-- `items_[i] = item`. -/
def setItemAt (i : ℕ) (item : ScriptItem) : HandlerM σ Unit := fun h =>
  ((), { h with
    entity := h.entity.setItem i item
    indexed := h.indexed ++ [i] })

/-- `std::swap(items_[a], items_[b])`. -/
def swapItemsAt (a b : ℕ) : HandlerM σ Unit := fun h =>
  ((), { h with
    entity := h.entity.exchange a b
    indexed := h.indexed ++ [a, b]
    swapped := h.swapped ++ [(a, b)] })

/-- `item.lua_.onEquip(&entity)` and its like. -/
def callHook (hook : Hook σ) (item : ScriptItem) : HandlerM σ Bool := fun h =>
  ((hook item h.entity).1,
    { h with entity := (hook item h.entity).2, called := h.called ++ [item.lua_] })

/-- A packet whose `pack` reads the items in `slots`. -/
def send (packet : Sent) (slots : List ℕ) : HandlerM σ Unit := fun h =>
  ((), { h with sent := h.sent ++ [packet], indexed := h.indexed ++ slots })

/-- `SrvSetItem`, packed for the client. -/
def sendSetItem (slots : List ℕ) : HandlerM σ Unit := send (.setItem slots) slots

/-- `SrvEquipItem`, packed for everyone. -/
def sendEquipItem (slot : ℕ) : HandlerM σ Unit := send (.equipItem slot) [slot]

/-! ## The handlers -/

/-- The loop of `findNextEmptySlot` over the slots that are left. -/
def firstEmptySlot : List ℕ → HandlerM σ ℕ
  | [] => return 0
  | i :: slots => do
      let item ← itemAt i
      if item.id = 0 then return i else firstEmptySlot slots

/-- `InventorySystem::findNextEmptySlot`. -/
def findNextEmptySlot : HandlerM σ ℕ :=
  firstEmptySlot (List.range' MAX_EQUIP_ITEMS (maxItems - MAX_EQUIP_ITEMS))

/-- `InventorySystem::swapItems`; `none` is `false`. -/
def swapItems (a b : ℕ) : HandlerM σ (Option (ℕ × ℕ)) := do
  if a ≥ maxItems ∨ b ≥ maxItems then return none
  else if a = b ∨ (a = 0 ∧ b = 0) then return none
  else
    let a ← (if a = 0 then findNextEmptySlot else pure a)
    let b ← (if b = 0 then findNextEmptySlot else pure b)
    swapItemsAt a b
    return some (a, b)

/-- One of the two questions of `processEquip`: `none`, -1 in the source, if there is no
item in the slot to ask. -/
def askHook (hook : Hook σ) (slot : ℕ) : HandlerM σ (Option Bool) := do
  let item ← itemAt slot
  if item.toBool then
    let item ← itemAt slot
    let answer ← callHook hook item
    return some answer
  else return none

/-- `InventorySystem::processEquip`. -/
def processEquip (packet : CliEquipItem) : HandlerM σ Unit := do
  if packet.slotTo < 1 ∨ packet.slotTo ≥ MAX_EQUIP_ITEMS then return ()
  else
    let slotTo := uint8 packet.slotTo
    let slotFrom := uint8 packet.slotFrom
    let unequip ← (if slotTo < MAX_EQUIP_ITEMS then askHook api.onUnequip slotTo else pure none)
    let equip ← (if slotTo < MAX_EQUIP_ITEMS then askHook api.onEquip slotFrom else pure none)
    -- both hooks have run by now, whatever the first one answered
    if equip = some false ∨ unequip = some false then return ()
    else
      match ← swapItems slotTo slotFrom with
      | none => return ()
      | some (slotTo, slotFrom) => do
          sendEquipItem (packet.slotTo).toNat
          sendSetItem [slotTo, slotFrom]

/-- `InventorySystem::removeItem`. -/
def removeItem (slot : ℕ) : HandlerM σ ScriptItem := do
  if slot = 0 ∨ slot ≥ maxItems then return {}
  else
    let item ← itemAt slot
    setItemAt slot {}
    let _ ← callHook api.onDrop item
    sendSetItem [slot]
    if slot < MAX_EQUIP_ITEMS then sendEquipItem slot
    return item

/-- `InventorySystem::dropItem`. -/
def dropItem (packet : CliDropItem) : HandlerM σ Unit := do
  if packet.item = 0 ∨ packet.item ≥ maxItems then return ()
  else
    let held := (← itemAt packet.item).count
    let count := if held < packet.quantity then held else packet.quantity
    let droppedItem ←
      (if count < held then do
        let item ← itemAt packet.item
        setItemAt packet.item { item with count := item.count - count }
        sendSetItem [packet.item]
        pure { item with count := count }
      else removeItem api packet.item)
    send (.dropItem droppedItem.toItem) []

/-- What a handler makes of the entity. -/
def handle {α : Type} (x : HandlerM σ α) (e : Actor σ) : Handling σ :=
  (x.run { entity := e }).2

/-! ## What each statement does -/

section

variable {α β : Type} (h : Handling σ)

@[simp] theorem run_bind (x : HandlerM σ α) (f : α → HandlerM σ β) :
    (x >>= f).run h = (f (x.run h).1).run (x.run h).2 := rfl

@[simp] theorem run_pure (a : α) : (pure a : HandlerM σ α).run h = (a, h) := rfl

@[simp] theorem itemAt_run (i : ℕ) :
    (itemAt i).run h = (h.entity.items_ i, { h with indexed := h.indexed ++ [i] }) := rfl

@[simp] theorem setItemAt_run (i : ℕ) (item : ScriptItem) :
    (setItemAt i item).run h = ((), { h with
      entity := h.entity.setItem i item
      indexed := h.indexed ++ [i] }) := rfl

@[simp] theorem swapItemsAt_run (a b : ℕ) :
    (swapItemsAt a b).run h = ((), { h with
      entity := h.entity.exchange a b
      indexed := h.indexed ++ [a, b]
      swapped := h.swapped ++ [(a, b)] }) := rfl

@[simp] theorem callHook_run (hook : Hook σ) (item : ScriptItem) :
    (callHook hook item).run h = ((hook item h.entity).1,
      { h with entity := (hook item h.entity).2, called := h.called ++ [item.lua_] }) := rfl

@[simp] theorem send_run (packet : Sent) (slots : List ℕ) :
    (send packet slots).run h
      = ((), { h with sent := h.sent ++ [packet], indexed := h.indexed ++ slots }) := rfl

end

/-- The items as `Inventory` has them. -/
def Actor.items (e : Actor σ) : Inventory.Items := fun i => (e.items_ i).toItem

/-- The slot `swapItems` takes for `a`. -/
def Actor.slotFor (e : Actor σ) (a : ℕ) : ℕ :=
  if a = 0 then Inventory.findNextEmptySlot e.items else a

theorem Actor.slotFor_lt (e : Actor σ) {a : ℕ} (ha : a < maxItems) : e.slotFor a < maxItems := by
  unfold slotFor
  split
  · exact Inventory.findNextEmptySlot_lt e.items
  · exact ha

/-- The loop of `findNextEmptySlot` changes nothing and reads slots of its list only. -/
theorem firstEmptySlot_run (slots : List ℕ) (h : Handling σ) :
    ∃ read, (∀ i ∈ read, i ∈ slots) ∧ (firstEmptySlot slots).run h =
      ((slots.find? (fun i => (h.entity.items i).id = 0)).getD 0,
        { h with indexed := h.indexed ++ read }) := by
  induction slots generalizing h with
  | nil =>
      refine ⟨[], by simp, ?_⟩
      rw [firstEmptySlot, run_pure, List.append_nil]
      rfl
  | cons i slots ih =>
      have hitem : (h.entity.items i).id = (h.entity.items_ i).id := rfl
      by_cases hempty : (h.entity.items_ i).id = 0
      · refine ⟨[i], by simp, ?_⟩
        rw [firstEmptySlot, run_bind, itemAt_run, if_pos hempty, run_pure]
        simp [hitem, hempty]
      · obtain ⟨read, hread, hrun⟩ := ih { h with indexed := h.indexed ++ [i] }
        refine ⟨i :: read, ?_, ?_⟩
        · intro j hj
          rcases List.mem_cons.mp hj with rfl | hj
          · exact List.mem_cons_self
          · exact List.mem_cons_of_mem _ (hread j hj)
        · rw [List.append_assoc] at hrun
          rw [firstEmptySlot, run_bind, itemAt_run, if_neg hempty, hrun]
          simp [hitem, hempty]

theorem findNextEmptySlot_run (h : Handling σ) :
    ∃ read, (∀ i ∈ read, i < maxItems) ∧ findNextEmptySlot.run h =
      (Inventory.findNextEmptySlot h.entity.items, { h with indexed := h.indexed ++ read }) := by
  obtain ⟨read, hread, hrun⟩ := firstEmptySlot_run
    (List.range' MAX_EQUIP_ITEMS (maxItems - MAX_EQUIP_ITEMS)) h
  exact ⟨read, fun i hi => (Inventory.mem_bag.mp (hread i hi)).2, hrun⟩

/-- One argument of `swapItems`. -/
theorem slotFor_run (a : ℕ) (h : Handling σ) :
    ∃ read, (∀ i ∈ read, i < maxItems) ∧
      (if a = 0 then findNextEmptySlot else pure a : HandlerM σ ℕ).run h =
        (h.entity.slotFor a, { h with indexed := h.indexed ++ read }) := by
  unfold Actor.slotFor
  by_cases ha : a = 0
  · simp only [ha, if_true]
    exact findNextEmptySlot_run h
  · simp only [ha, if_false]
    refine ⟨[], by simp, ?_⟩
    rw [run_pure, List.append_nil]

theorem swapItems_refused {a b : ℕ} (hab : a ≥ maxItems ∨ b ≥ maxItems ∨ a = b)
    (h : Handling σ) : (swapItems a b).run h = (none, h) := by
  unfold swapItems
  by_cases hrange : a ≥ maxItems ∨ b ≥ maxItems
  · rw [if_pos hrange, run_pure]
  · have heq : a = b ∨ (a = 0 ∧ b = 0) := by omega
    rw [if_neg hrange, if_pos heq, run_pure]

/-- Two slots of the array, of which one may have been found free. -/
theorem swapItems_run {a b : ℕ} (ha : a < maxItems) (hb : b < maxItems) (hab : a ≠ b)
    (h : Handling σ) : ∃ read, (∀ i ∈ read, i < maxItems) ∧ (swapItems a b).run h =
      (some (h.entity.slotFor a, h.entity.slotFor b), { h with
        entity := h.entity.exchange (h.entity.slotFor a) (h.entity.slotFor b)
        indexed := h.indexed ++ read
        swapped := h.swapped ++ [(h.entity.slotFor a, h.entity.slotFor b)] }) := by
  obtain ⟨read₁, hread₁, hrun₁⟩ := slotFor_run a h
  obtain ⟨read₂, hread₂, hrun₂⟩ := slotFor_run b { h with indexed := h.indexed ++ read₁ }
  have hrange : ¬ (a ≥ maxItems ∨ b ≥ maxItems) := by omega
  have hne : ¬ (a = b ∨ (a = 0 ∧ b = 0)) := by omega
  refine ⟨read₁ ++ read₂ ++ [h.entity.slotFor a, h.entity.slotFor b], ?_, ?_⟩
  · have hla := h.entity.slotFor_lt ha
    have hlb := h.entity.slotFor_lt hb
    intro i hi
    simp only [List.mem_append, List.mem_cons, List.not_mem_nil, or_false] at hi
    rcases hi with (hi | hi) | rfl | rfl
    · exact hread₁ i hi
    · exact hread₂ i hi
    · exact hla
    · exact hlb
  · unfold swapItems
    rw [if_neg hrange, if_neg hne, run_bind, hrun₁, run_bind, hrun₂, run_bind, swapItemsAt_run,
      run_pure]
    simp only [List.append_assoc]

/-! ## What a question does -/

namespace Hook

variable (hook : Hook σ) (slot : ℕ) (e : Actor σ)

/-- What the item in a slot answers, if there is one. -/
def answer : Option Bool :=
  if (e.items_ slot).toBool then some (hook (e.items_ slot) e).1 else none

/-- The entity after the hook of the item in a slot. -/
def effect : Actor σ :=
  if (e.items_ slot).toBool then (hook (e.items_ slot) e).2 else e

/-- The `lua_` that is called. -/
def calls : List LuaAPI :=
  if (e.items_ slot).toBool then [(e.items_ slot).lua_] else []

/-- How often the slot is used. -/
def reads : List ℕ :=
  if (e.items_ slot).toBool then [slot, slot] else [slot]

theorem mem_reads {i : ℕ} : i ∈ reads slot e ↔ i = slot := by
  unfold reads
  split <;> simp

end Hook

theorem askHook_run (hook : Hook σ) (slot : ℕ) (h : Handling σ) :
    (askHook hook slot).run h = (hook.answer slot h.entity, { h with
      entity := hook.effect slot h.entity
      indexed := h.indexed ++ Hook.reads slot h.entity
      called := h.called ++ Hook.calls slot h.entity }) := by
  unfold askHook Hook.answer Hook.effect Hook.reads Hook.calls
  rw [run_bind, itemAt_run]
  by_cases hitem : (h.entity.items_ slot).toBool = true
  · simp only [hitem, if_true, run_bind, itemAt_run, callHook_run, run_pure, List.append_assoc,
      List.cons_append, List.nil_append]
  · rw [if_neg hitem, if_neg hitem, if_neg hitem, if_neg hitem, if_neg hitem, run_pure,
      List.append_nil]

/-! ## `processEquip` -/

/-- The destination of the packet is a slot of the equipped items. -/
def InRange (packet : CliEquipItem) : Prop :=
  ¬ (packet.slotTo < 1 ∨ packet.slotTo ≥ MAX_EQUIP_ITEMS)

instance (packet : CliEquipItem) : Decidable (InRange packet) := by
  unfold InRange; infer_instance

section

variable (e : Actor σ) (packet : CliEquipItem)

/-- The entity after the unequip hook of the item in the destination. -/
def unequipped : Actor σ := api.onUnequip.effect (uint8 packet.slotTo) e

/-- The entity after both hooks. -/
def hooked : Actor σ :=
  api.onEquip.effect (uint8 packet.slotFrom) (unequipped api e packet)

/-- Both questions of `processEquip`, asked. -/
def asked : Handling σ where
  entity := hooked api e packet
  indexed := Hook.reads (uint8 packet.slotTo) e ++
    Hook.reads (uint8 packet.slotFrom) (unequipped api e packet)
  called := Hook.calls (uint8 packet.slotTo) e ++
    Hook.calls (uint8 packet.slotFrom) (unequipped api e packet)

/-- No hook refuses, and `swapItems` is given two slots of the array. -/
structure Swaps : Prop where
  unequips : api.onUnequip.answer (uint8 packet.slotTo) e ≠ some false
  equips : api.onEquip.answer (uint8 packet.slotFrom) (unequipped api e packet) ≠ some false
  from_lt : uint8 packet.slotFrom < maxItems
  ne : uint8 packet.slotTo ≠ uint8 packet.slotFrom

variable {e packet}

theorem processEquip_outOfRange (hrange : ¬ InRange packet) :
    handle (processEquip api packet) e = { entity := e } := by
  unfold handle processEquip
  rw [if_pos (not_not.mp hrange), run_pure]

/-- Where the handler goes on from the two questions. -/
theorem processEquip_run (hrange : InRange packet) :
    handle (processEquip api packet) e =
      if api.onEquip.answer (uint8 packet.slotFrom) (unequipped api e packet) = some false ∨
          api.onUnequip.answer (uint8 packet.slotTo) e = some false then asked api e packet
      else
        let r := (swapItems (uint8 packet.slotTo) (uint8 packet.slotFrom)).run
          (asked api e packet)
        match r.1 with
        | none => r.2
        | some (slotTo, slotFrom) => { r.2 with
            sent := r.2.sent ++ [.equipItem (packet.slotTo).toNat] ++ [.setItem [slotTo, slotFrom]]
            indexed := r.2.indexed ++ [(packet.slotTo).toNat] ++ [slotTo, slotFrom] } := by
  have hlt := (Inventory.uint8_of_equip hrange).2
  unfold handle processEquip
  rw [if_neg hrange]
  dsimp only
  rw [if_pos hlt, if_pos hlt, run_bind, askHook_run, run_bind, askHook_run]
  by_cases hrefused : api.onEquip.answer (uint8 packet.slotFrom) (unequipped api e packet)
      = some false ∨ api.onUnequip.answer (uint8 packet.slotTo) e = some false
  · rw [if_pos hrefused]
    refine (congrArg (fun x : HandlerM σ Unit => (x.run (asked api e packet)).2)
      (if_pos hrefused)).trans ?_
    rw [run_pure]
  · rw [if_neg hrefused]
    refine (congrArg (fun x : HandlerM σ Unit => (x.run (asked api e packet)).2)
      (if_neg hrefused)).trans ?_
    rw [run_bind]
    generalize (swapItems (uint8 packet.slotTo) (uint8 packet.slotFrom)).run
      (asked api e packet) = r
    obtain ⟨_ | ⟨a, b⟩, h⟩ := r <;> rfl

/-- A packet that does not get to the exchange leaves the entity as the hooks left it. -/
theorem processEquip_of_not_swaps (hrange : InRange packet) (hswaps : ¬ Swaps api e packet) :
    handle (processEquip api packet) e = asked api e packet := by
  have hlt := (Inventory.uint8_of_equip hrange).2
  rw [processEquip_run api hrange]
  split
  · rfl
  · rename_i hagree
    obtain ⟨hequip, hunequip⟩ := not_or.mp hagree
    have hslots : uint8 packet.slotTo ≥ maxItems ∨ uint8 packet.slotFrom ≥ maxItems ∨
        uint8 packet.slotTo = uint8 packet.slotFrom := by
      by_contra hslots
      simp only [not_or, ge_iff_le, not_le] at hslots
      exact hswaps ⟨hunequip, hequip, hslots.2.1, hslots.2.2⟩
    rw [swapItems_refused hslots]

/-- A packet that gets to the exchange: on top of the hooks two slots are exchanged. -/
theorem processEquip_of_swaps (hrange : InRange packet) (hswaps : Swaps api e packet) :
    ∃ read, (∀ i ∈ read, i < maxItems) ∧ handle (processEquip api packet) e =
      { asked api e packet with
        entity := (hooked api e packet).exchange (uint8 packet.slotTo)
          ((hooked api e packet).slotFor (uint8 packet.slotFrom))
        sent := [.equipItem (packet.slotTo).toNat, .setItem [uint8 packet.slotTo,
          (hooked api e packet).slotFor (uint8 packet.slotFrom)]]
        indexed := (asked api e packet).indexed ++ read
        swapped := [(uint8 packet.slotTo,
          (hooked api e packet).slotFor (uint8 packet.slotFrom))] } := by
  obtain ⟨hpos, hlt⟩ := Inventory.uint8_of_equip hrange
  have hto : uint8 packet.slotTo < maxItems := hlt.trans (by decide)
  have hzero : uint8 packet.slotTo ≠ 0 := by omega
  have hself : (hooked api e packet).slotFor (uint8 packet.slotTo) = uint8 packet.slotTo :=
    if_neg hzero
  have hfree := (hooked api e packet).slotFor_lt hswaps.from_lt
  have hagree : ¬ (api.onEquip.answer (uint8 packet.slotFrom) (unequipped api e packet)
      = some false ∨ api.onUnequip.answer (uint8 packet.slotTo) e = some false) :=
    not_or.mpr ⟨hswaps.equips, hswaps.unequips⟩
  have hnat : (packet.slotTo).toNat < maxItems := by
    simp only [InRange, MAX_EQUIP_ITEMS, maxItems] at hrange ⊢
    omega
  obtain ⟨read, hread, hrun⟩ := swapItems_run hto hswaps.from_lt hswaps.ne (asked api e packet)
  have hentity : (asked api e packet).entity = hooked api e packet := rfl
  rw [hentity, hself] at hrun
  refine ⟨read ++ [(packet.slotTo).toNat, uint8 packet.slotTo,
    (hooked api e packet).slotFor (uint8 packet.slotFrom)], ?_, ?_⟩
  · intro i hi
    simp only [List.mem_append, List.mem_cons, List.not_mem_nil, or_false] at hi
    rcases hi with hi | rfl | rfl | rfl
    · exact hread i hi
    · exact hnat
    · exact hto
    · exact hfree
  · rw [processEquip_run api hrange, if_neg hagree, hrun]
    simp only [asked, List.append_assoc, List.cons_append, List.nil_append]

end

/-! ## `dropItem` -/

section

variable {e : Actor σ} {packet : CliDropItem}

theorem dropItem_outOfRange (hitem : packet.item = 0 ∨ packet.item ≥ maxItems) :
    handle (dropItem api packet) e = { entity := e } := by
  unfold handle dropItem
  rw [if_pos hitem, run_pure]

/-- A part of a stack is dropped: no script is asked. -/
theorem dropItem_part (hitem : ¬ (packet.item = 0 ∨ packet.item ≥ maxItems))
    (hlt : packet.quantity < (e.items_ packet.item).count) :
    handle (dropItem api packet) e =
      { entity := e.setItem packet.item { e.items_ packet.item with
          count := (e.items_ packet.item).count - packet.quantity }
        sent := [.setItem [packet.item], .dropItem
          { (e.items_ packet.item).toItem with count := packet.quantity }]
        indexed := [packet.item, packet.item, packet.item, packet.item] } := by
  have hcount : ¬ (e.items_ packet.item).count < packet.quantity := by omega
  unfold handle dropItem
  rw [if_neg hitem, run_bind, itemAt_run]
  dsimp only
  rw [if_neg hcount, if_pos hlt]
  rfl

/-- Everything in the slot is dropped: the slot is empty when the script of the item runs,
and the script runs whether or not there was an item. -/
theorem dropItem_all (hitem : ¬ (packet.item = 0 ∨ packet.item ≥ maxItems))
    (hle : (e.items_ packet.item).count ≤ packet.quantity) :
    handle (dropItem api packet) e =
      { entity := (api.onDrop (e.items_ packet.item)
          (e.setItem packet.item {})).2
        sent := .setItem [packet.item] ::
          ((if packet.item < MAX_EQUIP_ITEMS then [.equipItem packet.item] else []) ++
            [.dropItem (e.items_ packet.item).toItem])
        indexed := [packet.item, packet.item, packet.item, packet.item] ++
          (if packet.item < MAX_EQUIP_ITEMS then [packet.item] else [])
        called := [(e.items_ packet.item).lua_] } := by
  have hcount : (if (e.items_ packet.item).count < packet.quantity
      then (e.items_ packet.item).count else packet.quantity)
        = (e.items_ packet.item).count := by
    split <;> omega
  unfold handle dropItem removeItem
  rw [if_neg hitem, run_bind, itemAt_run]
  dsimp only
  rw [hcount, if_neg (Nat.lt_irrefl _), if_neg hitem]
  by_cases hworn : packet.item < MAX_EQUIP_ITEMS
  · simp only [hworn, if_true]
    rfl
  · simp only [hworn, if_false]
    rfl

end

/-! ## The handlers of `Inventory` -/

/-- A hook that leaves the inventory alone. -/
def Hook.KeepsItems (hook : Hook σ) : Prop :=
  ∀ item e, (hook item e).2.items_ = e.items_

theorem Hook.KeepsItems.effect {hook : Hook σ} (hkeep : hook.KeepsItems) (slot : ℕ)
    (e : Actor σ) : (hook.effect slot e).items_ = e.items_ := by
  unfold Hook.effect
  split
  · exact hkeep _ e
  · rfl

/-- What a question comes to for the handler that has the answers. -/
theorem Hook.answer_eq_some_false (hook : Hook σ) (slot : ℕ) (e : Actor σ) :
    hook.answer slot e = some false ↔
      ¬ ((e.items slot).toBool → (hook (e.items_ slot) e).1) := by
  have hitem : (e.items slot).toBool = (e.items_ slot).toBool := rfl
  unfold Hook.answer
  by_cases h : (e.items_ slot).toBool = true
  · simp [hitem, h]
  · simp [hitem, h]

/-- **`processEquip` does what it does in `Inventory`**, given the answers of hooks that
leave the inventory alone. -/
theorem processEquip_refines {e : Actor σ} {packet : CliEquipItem}
    (hu : api.onUnequip.KeepsItems) (he : api.onEquip.KeepsItems) :
    (handle (processEquip api packet) e).entity.items =
      (Inventory.processEquip e.items packet
        (api.onUnequip (e.items_ (uint8 packet.slotTo)) e).1
        (api.onEquip (e.items_ (uint8 packet.slotFrom)) (unequipped api e packet)).1).1 := by
  have hfirst : (unequipped api e packet).items_ = e.items_ := hu.effect _ e
  have hitems : (hooked api e packet).items = e.items := by
    unfold Actor.items hooked
    rw [he.effect, hfirst]
  have hask : (unequipped api e packet).items = e.items := by
    unfold Actor.items
    rw [hfirst]
  by_cases hrange : InRange packet
  · have hlt : MAX_EQUIP_ITEMS < maxItems := by decide
    have hto := (Inventory.uint8_of_equip hrange).2.trans hlt
    by_cases hequips : Inventory.Equips e.items packet
        (api.onUnequip (e.items_ (uint8 packet.slotTo)) e).1
        (api.onEquip (e.items_ (uint8 packet.slotFrom)) (unequipped api e packet)).1
    · rw [Inventory.processEquip_of_equips hequips]
      by_cases hswaps : Swaps api e packet
      · obtain ⟨read, -, hrun⟩ := processEquip_of_swaps api hrange hswaps
        have hzero : uint8 packet.slotTo ≠ 0 := by
          have := (Inventory.uint8_of_equip hrange).1
          omega
        rw [hrun, Inventory.next_swapItems hto hswaps.from_lt hswaps.ne, if_neg hzero, ← hitems]
        rfl
      · rw [processEquip_of_not_swaps api hrange hswaps, Inventory.next_swapItems_of_refused]
        · exact hitems
        · by_contra hslots
          simp only [not_or, ge_iff_le, not_le] at hslots
          refine hswaps ⟨?_, ?_, hslots.2.1, hslots.2.2⟩
          · rw [Ne, Hook.answer_eq_some_false, not_not]
            exact hequips.2.1
          · rw [Ne, Hook.answer_eq_some_false, not_not, hask, hfirst]
            exact hequips.2.2
    · rw [Inventory.processEquip_of_not_equips hequips, processEquip_of_not_swaps api hrange]
      · exact hitems
      · intro hswaps
        refine hequips ⟨hrange, ?_, ?_⟩
        · have h := hswaps.unequips
          rwa [Ne, Hook.answer_eq_some_false, not_not] at h
        · have h := hswaps.equips
          rwa [Ne, Hook.answer_eq_some_false, not_not, hask, hfirst] at h
  · have hequips : ¬ Inventory.Equips e.items packet
        (api.onUnequip (e.items_ (uint8 packet.slotTo)) e).1
        (api.onEquip (e.items_ (uint8 packet.slotFrom)) (unequipped api e packet)).1 :=
      fun h => hrange h.1
    rw [Inventory.processEquip_of_not_equips hequips, processEquip_outOfRange api hrange]

theorem items_setItem (e : Actor σ) (slot : ℕ) (item : ScriptItem) :
    (e.setItem slot item).items = Function.update e.items slot item.toItem := by
  funext i
  unfold Actor.setItem Actor.items
  dsimp only
  by_cases hi : i = slot
  · rw [hi, Function.update_self, Function.update_self]
  · rw [Function.update_of_ne hi, Function.update_of_ne hi]

/-- **`dropItem` does what it does in `Inventory`**, for a drop hook that leaves the
inventory alone. -/
theorem dropItem_refines {e : Actor σ} {packet : CliDropItem} (hd : api.onDrop.KeepsItems) :
    (handle (dropItem api packet) e).entity.items = (Inventory.dropItem e.items packet).1 := by
  by_cases hitem : packet.item = 0 ∨ packet.item ≥ maxItems
  · rw [dropItem_outOfRange api hitem]
    simp [Inventory.dropItem, hitem]
  · by_cases hlt : packet.quantity < (e.items_ packet.item).count
    · rw [dropItem_part api hitem hlt, Inventory.dropItem_of_lt hitem hlt]
      exact items_setItem e packet.item _
    · rw [dropItem_all api hitem (not_lt.mp hlt),
        (Inventory.dropItem_of_le hitem (not_lt.mp hlt)).1, Inventory.removeItem, if_neg hitem]
      dsimp only
      rw [← items_setItem e packet.item {}]
      unfold Actor.items
      rw [hd (e.items_ packet.item)]

end

end OsIrose.ItemHooks

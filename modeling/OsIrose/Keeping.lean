/-
What is kept of an entity, and which packets and ticks change it.

`Components.kept` is what `saveCharacter` writes and what a load reads. A packet leaves it
as it was if and only if it is `Harmless` (`kept_handle_iff`).
-/
import OsIrose.Join

set_option autoImplicit false

namespace OsIrose.MapServer

open Function Inventory Characters
open Movement (Position Destination)

variable {K D : Type*}

/-- What `saveCharacter` writes of an entity. -/
def Components.kept (comps : Components K D) : Option (Kept K D) :=
  match comps.position, comps.rest, comps.inventory with
  | some pos, some rest, some items => some (keep pos rest items)
  | _, _, _ => none

theorem Components.kept_of_some {comps : Components K D} {pos : Position K} {rest : D}
    {items : Items} (hpos : comps.position = some pos) (hrest : comps.rest = some rest)
    (hitems : comps.inventory = some items) : comps.kept = some (keep pos rest items) := by
  simp only [kept, hpos, hrest, hitems]

theorem Components.exists_of_kept {comps : Components K D} {k : Kept K D}
    (h : comps.kept = some k) : ∃ pos rest items, comps.position = some pos ∧
      comps.rest = some rest ∧ comps.inventory = some items := by
  rw [kept] at h
  split at h
  · exact ⟨_, _, _, ‹_›, ‹_›, ‹_›⟩
  · cases h

theorem keep_eq_iff {pos pos' : Position K} {rest : D} {items items' : Items} :
    keep pos' rest items' = keep pos rest items ↔ pos' = pos ∧ keptAt items' = keptAt items := by
  obtain ⟨x, y, map⟩ := pos
  obtain ⟨x', y', map'⟩ := pos'
  simp only [keep, Kept.mk.injEq, Position.mk.injEq, true_and, and_assoc]

/-! ## The items -/

theorem keptAt_update (items : Items) {slot : ℕ} (hslot : slot < maxItems) (item : Item) :
    keptAt (update items slot item) = update (keptAt items) slot (keptOf item) := by
  funext k
  by_cases hk : k = slot
  · simp [keptAt, hk, hslot]
  · simp [keptAt, hk]

theorem keptAt_update_eq_iff (items : Items) {slot : ℕ} (hslot : slot < maxItems) (item : Item) :
    keptAt (update items slot item) = keptAt items ↔ keptOf item = keptOf (items slot) := by
  rw [keptAt_update items hslot, update_eq_self_iff, keptAt, if_pos hslot]

theorem comp_swap_eq_iff {α : Type*} (f : ℕ → α) (a b : ℕ) :
    f ∘ Equiv.swap a b = f ↔ f a = f b := by
  rw [Equiv.comp_swap_eq_update]
  constructor
  · intro h
    simpa using (congrFun h a).symm
  · intro h
    rw [h, update_eq_self, ← h, update_eq_self]

theorem keptAt_swap (items : Items) {a b : ℕ} (ha : a < maxItems) (hb : b < maxItems) :
    keptAt (items ∘ Equiv.swap a b) = keptAt items ∘ Equiv.swap a b := by
  funext k
  have hk : Equiv.swap a b k < maxItems ↔ k < maxItems := by
    rw [Equiv.swap_apply_def]
    split_ifs with hka hkb
    · simp [hka, ha, hb]
    · simp [hkb, ha, hb]
    · exact Iff.rfl
  simp only [keptAt, comp_apply, hk]

/-- The slot that `swapItems` takes: 0 stands for the next free one. -/
def slotOf (items : Items) (slot : ℕ) : ℕ :=
  if slot = 0 then findNextEmptySlot items else slot

theorem slotOf_lt (items : Items) {slot : ℕ} (hslot : slot < maxItems) :
    slotOf items slot < maxItems := by
  rw [slotOf]
  split
  · exact findNextEmptySlot_lt items
  · exact hslot

/-- `swapItems` asked for two slots, the first not 0. -/
theorem keptAt_swapItems_iff (items : Items) {a b : ℕ} (ha : a ≠ 0) (hlt : a < maxItems) :
    keptAt (Inventory.next items (.swapItems a b)) = keptAt items ↔
      (b < maxItems → keptAt items a = keptAt items (slotOf items b)) := by
  by_cases hb : b < maxItems
  · by_cases hne : a = b
    · rw [next_swapItems_of_refused (.inr (.inr hne))]
      simp [← hne, slotOf, ha]
    · rw [next_swapItems hlt hb hne, if_neg ha, ← slotOf,
        keptAt_swap items hlt (slotOf_lt items hb), comp_swap_eq_iff]
      simp [hb]
  · rw [next_swapItems_of_refused (.inr (.inl (not_lt.mp hb)))]
    simp [hb]

/-- An item taken from a slot, or a part of it. -/
theorem keptAt_dropItem_iff (items : Items) (packet : CliDropItem) :
    keptAt (Inventory.dropItem items packet).1 = keptAt items ↔
      packet.item = 0 ∨ packet.item ≥ maxItems ∨ (items packet.item).toBool = false ∨
        packet.quantity = 0 ∧ 0 < (items packet.item).count := by
  by_cases hitem : packet.item = 0 ∨ packet.item ≥ maxItems
  · refine iff_of_true (by simp [Inventory.dropItem, hitem]) ?_
    exact hitem.imp_right .inl
  have hlt : packet.item < maxItems := not_le.mp (not_or.mp hitem).2
  rw [← or_assoc, or_iff_right hitem]
  by_cases hcount : packet.quantity < (items packet.item).count
  · rw [dropItem_of_lt hitem hcount, keptAt_update_eq_iff items hlt]
    by_cases hheld : (items packet.item).toBool
    · have hpos : 0 < (items packet.item).count := Nat.zero_lt_of_lt hcount
      have hsub : (items packet.item).count - packet.quantity = (items packet.item).count ↔
          packet.quantity = 0 := by omega
      have hid : (items packet.item).id ≠ 0 := by simpa [Item.toBool] using hheld
      simp [keptOf, keptItem, Item.toBool, hid, hsub, hpos]
    · have hid : (items packet.item).id = 0 := by simpa [Item.toBool] using hheld
      simp [keptOf, Item.toBool, hid]
  · rw [(dropItem_of_le hitem (not_lt.mp hcount)).1, removeItem, if_neg hitem,
      keptAt_update_eq_iff items hlt]
    have hzero : ¬ (packet.quantity = 0 ∧ 0 < (items packet.item).count) := by omega
    rw [or_iff_left hzero]
    simp [keptOf, Item.toBool]

/-- An item put into the next free slot. -/
theorem keptAt_addItem_iff (items : Items) (item : Item) :
    keptAt ((addItem items item).elim items Prod.fst) = keptAt items ↔
      (item.toBool → Full items) := by
  by_cases hfull : Full items
  · simp [addItem, findNextEmptySlot_of_full hfull, hfull]
  · have hfree := findNextEmptySlot_of_not_full hfull
    have hzero : findNextEmptySlot items ≠ 0 := mt (findNextEmptySlot_eq_zero_iff items).mp hfull
    have hempty : keptOf (items (findNextEmptySlot items)) = none := by
      simp [keptOf, Item.toBool, hfree.2.2]
    simp only [addItem, hzero, if_false, Option.elim_some, hfull, imp_false]
    rw [keptAt_update_eq_iff items hfree.2.1, hempty]
    simp [keptOf]

/-! ## The packets -/

section Packets

variable [Field K] [LinearOrder K] [FloorSemiring K]

/-- A packet that changes nothing kept of an entity at `pos` with `items`. -/
def Harmless (env : Env K) (pos : Position K) (items : Items) : Packet K → Prop
  | .stopMoving x y => (pos.x - x) * (pos.x - x) + (pos.y - y) * (pos.y - y) < 100 →
      x = pos.x ∧ y = pos.y
  -- the two slots hold the same
  | .equipItem packet onUnequip onEquip => Equips items packet onUnequip onEquip →
      uint8 packet.slotFrom < maxItems →
        keptAt items (uint8 packet.slotTo) = keptAt items (slotOf items (uint8 packet.slotFrom))
  -- nothing is dropped, or nothing of a stack
  | .dropItem packet => packet.item = 0 ∨ packet.item ≥ maxItems ∨
      (items packet.item).toBool = false ∨ packet.quantity = 0 ∧ 0 < (items packet.item).count
  | .normalChat (.item type id) => type ≠ 0 → id ≠ 0 → ∀ item,
      (getItemDef env type id).bind (buildItem env) = some item → item.toBool → Full items
  | .normalChat (.tp mapId x y) => mapId ≠ 0 → x ≠ 0 → y ≠ 0 →
      pos.map = mapId ∧ x * 100 = pos.x ∧ y * 100 = pos.y
  | _ => True

omit [FloorSemiring K] in
theorem stop_eq_iff (pos : Position K) (x y : K) :
    pos.stop x y = pos ↔ ((pos.x - x) * (pos.x - x) + (pos.y - y) * (pos.y - y) < 100 →
      x = pos.x ∧ y = pos.y) := by
  obtain ⟨x₀, y₀, map⟩ := pos
  simp only [Position.stop]
  split
  · rename_i hnear
    simp [hnear]
  · rename_i hnear
    simp [hnear]

omit [Field K] [LinearOrder K] [FloorSemiring K] in
theorem teleport_eq_iff (pos : Position K) (mapId : ℕ) (x y : K) (client : Bool) :
    pos.teleport mapId x y client = pos ↔
      x = pos.x ∧ y = pos.y ∧ (client → pos.map = mapId) := by
  obtain ⟨x₀, y₀, map⟩ := pos
  simp only [Position.teleport]
  split
  · rename_i hmap
    simp [hmap.1, hmap.1.symm, hmap.2]
  · rename_i hmap
    have hsame : client = true → map = mapId := fun h => by
      by_contra hne
      exact hmap ⟨hne, h⟩
    simpa using fun _ _ => hsame

section Handle

variable (env : Env K) {comps comps' : Components K D} {basic : BasicInfo} {pos pos' : Position K}
  {rest : D} {items items' : Items}

omit [Field K] [LinearOrder K] [FloorSemiring K] in
/-- The position and the items tell what is kept. -/
theorem kept_eq_iff (hpos : comps.position = some pos) (hrest : comps.rest = some rest)
    (hitems : comps.inventory = some items) (hpos' : comps'.position = some pos')
    (hrest' : comps'.rest = some rest) (hitems' : comps'.inventory = some items') :
    comps'.kept = comps.kept ↔ pos' = pos ∧ keptAt items' = keptAt items := by
  rw [Components.kept_of_some hpos' hrest' hitems', Components.kept_of_some hpos hrest hitems,
    Option.some.injEq, keep_eq_iff]

variable (hbasic : comps.basic = some basic) (hpos : comps.position = some pos)
  (hrest : comps.rest = some rest) (hitems : comps.inventory = some items)

include hpos hrest hitems

omit [FloorSemiring K] in
theorem kept_gmItem_iff (type id : ℕ) :
    (gmItem env comps type id).kept = comps.kept ↔
      Harmless env pos items (.normalChat (.item type id)) := by
  rw [Harmless]
  by_cases hzero : type = 0 ∨ id = 0
  · have hnone : gmItem env comps type id = comps := by simp [gmItem, hzero]
    rw [hnone]
    exact iff_of_true rfl fun ht hi => absurd hzero (not_or.mpr ⟨ht, hi⟩)
  have hne := not_or.mp hzero
  cases hbuilt : (getItemDef env type id).bind (buildItem env) with
  | none => simp [gmItem, hzero, hbuilt]
  | some item =>
      have hafter : gmItem env comps type id =
          { comps with inventory := some ((addItem items item).elim items Prod.fst) } := by
        simp [gmItem, hzero, hbuilt, hitems]
      rw [hafter]
      refine Iff.trans (kept_eq_iff hpos hrest hitems hpos hrest rfl) ?_
      simp [keptAt_addItem_iff, hne.1, hne.2]

include hbasic

/-- **A packet changes nothing that is kept** if and only if it is harmless. -/
theorem kept_handle_iff (packet : Packet K) :
    (handle env comps packet).components.kept = comps.kept ↔ Harmless env pos items packet := by
  cases packet with
  | changeMapReq => exact iff_of_true rfl trivial
  | mouseCmd x y =>
      refine iff_of_true ?_ trivial
      simp only [handle, processMove, hpos, hbasic]
      refine Iff.mpr (kept_eq_iff hpos hrest hitems rfl hrest hitems) ⟨rfl, rfl⟩
  | stopMoving x y =>
      have hafter : (handle env comps (.stopMoving x y)).components =
          { comps with destination := none, position := some (pos.stop x y) } := by
        simp [handle, stopMoving, hbasic, hpos]
      rw [hafter]
      refine Iff.trans (kept_eq_iff hpos hrest hitems rfl hrest hitems) ?_
      rw [and_iff_left rfl, stop_eq_iff]
      rfl
  | equipItem packet onUnequip onEquip =>
      have hafter : (handle env comps (.equipItem packet onUnequip onEquip)).components =
          { comps with inventory := some (processEquip items packet onUnequip onEquip).1 } := by
        simp [handle, hitems]
      rw [hafter]
      refine Iff.trans (kept_eq_iff hpos hrest hitems hpos hrest rfl) ?_
      rw [eq_self, true_and, Harmless]
      by_cases hequips : Equips items packet onUnequip onEquip
      · obtain ⟨hge, hlt⟩ := uint8_of_equip hequips.1
        have hmax : uint8 packet.slotTo < maxItems := hlt.trans (by decide)
        rw [processEquip_of_equips hequips,
          keptAt_swapItems_iff items (Nat.one_le_iff_ne_zero.mp hge) hmax]
        simp [hequips]
      · simp [processEquip_of_not_equips hequips, hequips]
  | dropItem packet =>
      have hafter : (handle env comps (.dropItem packet)).components =
          { comps with inventory := some (Inventory.dropItem items packet).1 } := by
        simp [handle, hitems]
      rw [hafter]
      refine Iff.trans (kept_eq_iff hpos hrest hitems hpos hrest rfl) ?_
      rw [eq_self, true_and, keptAt_dropItem_iff]
      rfl
  | normalChat message =>
      cases message with
      | chat =>
          refine iff_of_true ?_ trivial
          simp [handle, normalChat, hbasic]
      | item type id =>
          have hafter : (handle env comps (.normalChat (.item type id))).components =
              gmItem env comps type id := by
            simp [handle, normalChat, hbasic]
          rw [hafter, kept_gmItem_iff env hpos hrest hitems]
      | tp mapId x y =>
          rw [Harmless]
          by_cases hzero : mapId = 0 ∨ x = 0 ∨ y = 0
          · refine iff_of_true ?_ fun hm hx hy => ?_
            · simp [handle, normalChat, hbasic, hzero]
            · exact absurd hzero (not_or.mpr ⟨hm, not_or.mpr ⟨hx, hy⟩⟩)
          have hne := not_or.mp hzero
          have hafter : (handle env comps (.normalChat (.tp mapId x y))).components =
              { comps with
                destination := none
                position := some (pos.teleport mapId (x * 100) (y * 100) true) } := by
            simp [handle, normalChat, hbasic, hzero, teleport, hpos]
          rw [hafter]
          refine Iff.trans (kept_eq_iff hpos hrest hitems rfl hrest hitems) ?_
          rw [and_iff_left rfl, teleport_eq_iff]
          simp only [hne.1, not_or.mp hne.2, ne_eq, not_false_eq_true, true_imp_iff]
          exact and_rotate.symm
  | other type => exact iff_of_true rfl trivial

end Handle

/-! ## The ticks -/

/-- The entity gets to its destination in this tick. -/
def Arrives (env : Env K) (pos : Position K) (dest : Destination K) (dt : K) (runSpeed : ℕ) :
    Prop :=
  let dx := dest.x - pos.x
  let dy := dest.y - pos.y
  let distance := env.sqrt (dx * dx + dy * dy)
  (runSpeed ≠ 0 ∧ distance / runSpeed ≤ dt) ∨ distance = 0

/-- A tick that leaves an entity where it is: it is where it goes to, or does not move and
has not arrived, and no warpgate leads elsewhere. -/
def Rests (env : Env K) (pos : Position K) (dest : Destination K) (dt : K) (runSpeed : ℕ)
    (client : Bool) : Option (Destination K) → Prop
  | none => dest.x = pos.x ∧ dest.y = pos.y ∨
      (dt = 0 ∨ runSpeed = 0) ∧ ¬ Arrives env pos dest dt runSpeed
  | some gate => gate.x = pos.x ∧ gate.y = pos.y ∧ (client → pos.map = gate.dist)

/-- Where a warpgate leads to, whoever stands on it. -/
theorem teleport_walk (env : Env K) (pos : Position K) (dest : Destination K) (dt : K)
    (runSpeed mapId : ℕ) (x y : K) (client : Bool) :
    pos.teleport mapId x y client =
      (pos.walk env.sqrt dt dest runSpeed).1.teleport mapId x y client := by
  have hmap : (pos.walk env.sqrt dt dest runSpeed).1.map = pos.map := by
    simp only [Position.walk]
    split <;> rfl
  simp only [Position.teleport, hmap]

theorem walk_of_rests {env : Env K} {pos : Position K} {dest : Destination K} {dt : K}
    {runSpeed : ℕ} {client : Bool} (h : Rests env pos dest dt runSpeed client none) :
    (pos.walk env.sqrt dt dest runSpeed).1 = pos := by
  obtain ⟨x, y, map⟩ := pos
  rcases h with ⟨hx, hy⟩ | ⟨hstill, harrives⟩
  · simp only [Position.walk]
    split
    · exact congrArg₂ (Position.mk · · map) hx hy
    · simp [hx, hy]
  · have hif := harrives
    simp only [Arrives] at hif
    simp only [Position.walk, if_neg hif]
    rcases hstill with h | h <;> simp [h]

/-- A tick of an entity that rests changes nothing that is kept. -/
theorem kept_walkEffect_of_rests (env : Env K) {comps : Components K D} {pos : Position K}
    {rest : D} {items : Items} (hpos : comps.position = some pos) (hrest : comps.rest = some rest)
    (hitems : comps.inventory = some items) (dest : Destination K) (dt : K) (runSpeed : ℕ)
    (gate : Option (Destination K)) (client : Bool)
    (h : Rests env pos dest dt runSpeed client gate) :
    (walkEffect env comps pos dest dt runSpeed gate client).components.kept = comps.kept := by
  cases gate with
  | none =>
      have hwalked := walk_of_rests h
      exact Iff.mpr (kept_eq_iff hpos hrest hitems (congrArg some hwalked) hrest hitems) ⟨rfl, rfl⟩
  | some gate =>
      obtain ⟨hx, hy, hmap⟩ := h
      have hgate : (pos.walk env.sqrt dt dest runSpeed).1.teleport gate.dist gate.x gate.y client =
          pos := by
        rw [← teleport_walk, teleport_eq_iff]
        exact ⟨hx, hy, hmap⟩
      exact Iff.mpr (kept_eq_iff hpos hrest hitems (congrArg some hgate) hrest hitems) ⟨rfl, rfl⟩

end Packets

/-! ## What a load reads -/

section Load

/-- The item database of a server: every definition is the one asked for, and its script
loads. -/
structure Env.Defines (env : Env K) : Prop where
  itemDef : ∀ type id itemDef, env.itemDef type id = some itemDef →
    itemDef.type = type ∧ itemDef.id = id
  script : ∀ type id itemDef, env.itemDef type id = some itemDef → env.scriptLoads itemDef.script

/-- A row of an item. -/
def Sound (row : InventoryRow) : Prop :=
  row.itemtype < 256 ∧ row.itemid < 65536 ∧ row.itemid ≠ 0

variable {env : Env K}

theorem keptOf_loadFromRow (hdefines : env.Defines) {row : InventoryRow} (hsound : Sound row)
    (hdef : getItemDef env row.itemtype row.itemid ≠ none) (item : Item) :
    ∃ loaded, loadFromRow env item row = .ok loaded ∧ keptOf loaded = some (ofRow row) := by
  obtain ⟨htype, hid, hne⟩ := hsound
  obtain ⟨itemDef, hitemDef⟩ := Option.ne_none_iff_exists'.mp hdef
  have hkey := hitemDef
  rw [getItemDef, Nat.mod_eq_of_lt htype, Nat.mod_eq_of_lt hid] at hkey
  obtain ⟨htype', hid'⟩ := hdefines.itemDef _ _ _ hkey
  have hscript := hdefines.script _ _ _ hkey
  simp only [loadFromRow, hitemDef, Except.ok.injEq, exists_eq_left']
  simp [buildItem, hscript, keptOf, keptItem, Item.toBool, ofRow, htype', hid', hne]

/-- The last row of a slot counts. -/
theorem keptOf_loadFromResult (hdefines : env.Defines) (items : Items) (rows : List InventoryRow)
    (hsound : ∀ row ∈ rows, row.slot < maxItems → Sound row) (hdefined : Defined env maxItems rows)
    {slot : ℕ} (hslot : slot < maxItems) :
    keptOf ((loadFromResult env maxItems items rows).1 slot) =
      ((rows.filter (fun row => row.slot = slot)).getLast?.map ofRow).or (keptOf (items slot)) := by
  induction rows generalizing items with
  | nil => simp [loadFromResult]
  | cons row rows ih =>
      rw [List.forall_mem_cons] at hsound
      rw [defined_cons] at hdefined
      by_cases hrow : row.slot < maxItems
      · obtain ⟨item, hitem, hkept⟩ := keptOf_loadFromRow hdefines (hsound.1 hrow)
          (hdefined.1 hrow) (items row.slot)
        simp only [loadFromResult, ge_iff_le, not_le.mpr hrow, if_false, hitem]
        rw [ih _ hsound.2 hdefined.2]
        by_cases hs : row.slot = slot
        · rw [List.filter_cons_of_pos (by simp [hs]), List.getLast?_cons]
          cases hlast : (rows.filter (fun row => row.slot = slot)).getLast? with
          | none => simp [hs, hkept]
          | some last => simp
        · rw [List.filter_cons_of_neg (by simp [hs]), update_of_ne (Ne.symm hs)]
      · have hs : row.slot ≠ slot := fun h => hrow (h ▸ hslot)
        rw [loadFromResult, if_pos (not_lt.mp hrow), ih _ hsound.2 hdefined.2,
          List.filter_cons_of_neg (by simp [hs])]

/-- **A character that is loaded** is what the tables keep of it. -/
theorem kept_loadCharacter (hdefines : env.Defines) {faults : Faults} {tables : Tables K D}
    {charId : ℕ} (hloads : Loads env faults tables charId)
    (hsound : ∀ row ∈ rowsOf tables.inventory charId, row.slot < maxItems → Sound row)
    (es : EntitySystem K D) :
    ∃ comps, (loadCharacter env faults tables es charId).1.components es.created = some comps ∧
      comps.kept = tables.load charId := by
  obtain ⟨row, basic, wishes, hrow, -, hcomps⟩ := (loadCharacter_of_loads hloads es).2.components
  refine ⟨_, hcomps, ?_⟩
  rw [Components.kept_of_some rfl rfl rfl, Tables.load, hrow, Option.map_some, Option.some.injEq]
  refine Kept.ext rfl rfl rfl rfl (funext fun slot => ?_)
  by_cases hslot : slot < maxItems
  · have hitems := keptOf_loadFromResult hdefines noItems _ hsound hloads.2.2.1 hslot
    have hempty : keptOf (noItems slot) = none := rfl
    have hrows : (rowsOf tables.inventory charId).filter (fun row => row.slot = slot) =
        tables.inventory.filter (At charId slot) := by
      rw [rowsOf, List.filter_filter]
      refine List.filter_congr fun row _ => ?_
      rw [← Bool.decide_and, decide_eq_decide]
      exact and_comm
    rw [hempty, Option.or_none, hrows] at hitems
    simp only [keep, keptAt, itemAt, if_pos hslot]
    exact hitems
  · simp only [keep, keptAt, itemAt, if_neg hslot]

end Load

end OsIrose.MapServer

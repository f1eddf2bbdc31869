/-
What is kept of a character: the tables `characters`, `inventory` and `wishlist`,
`EntitySystem::saveCharacter` (`map/src/entitysystem.cpp`) and the parts of
`rosecommon/include/item.h` that read and write a row.

`inventory` has no unique key, so a slot may have several rows; a load reads them in order
and the last one counts. `saveCharacter` compares the rows with the items and deletes,
updates and inserts what differs. Whatever the rows were, what it leaves reads back as the
items (`load_saveCharacter`).

The columns of `characters` that no system of the map server changes, `level` to
`clanContribution`, are one value of a type `D`.
-/
import OsIrose.Inventory
import OsIrose.Movement
import OsIrose.Rows

set_option autoImplicit false

namespace OsIrose.Characters

open Function Inventory
open Movement (Position)

/-- A row of `inventory` or `wishlist`. -/
structure InventoryRow where
  charId : ℕ
  slot : ℕ
  itemid : ℕ
  itemtype : ℕ
  amount : ℕ
  refine : ℕ
  gemOpt : ℕ
  socket : ℕ
  deriving DecidableEq, Repr

variable {K D : Type*}

/-- A row of `characters`. -/
structure CharacterRow (K D : Type*) where
  name : String
  x : K
  y : K
  map : ℕ
  rest : D

structure Tables (K D : Type*) where
  /-- By `id`, the primary key. -/
  characters : ℕ → Option (CharacterRow K D)
  inventory : List InventoryRow
  wishlist : List InventoryRow

/-! ## Items and rows -/

/-- `Item::loadFromRow(row)`, of a default item. -/
def ofRow (row : InventoryRow) : Item where
  type := row.itemtype
  id := row.itemid
  life := 1000
  isAppraised := true
  count := row.amount
  refine := row.refine
  gemOpt := row.gemOpt
  hasSocket := row.socket ≠ 0

/-- `Item::commitToUpdate`. -/
def commitToUpdate (item : Item) (row : InventoryRow) : InventoryRow :=
  { row with
    itemid := item.id
    itemtype := item.type
    amount := item.count
    refine := item.refine
    gemOpt := item.gemOpt
    socket := if item.hasSocket then 1 else 0 }

/-- `Item::commitToInsert`, for a slot of a character. -/
def commitToInsert (item : Item) (charId slot : ℕ) : InventoryRow where
  charId := charId
  slot := slot
  itemid := item.id
  itemtype := item.type
  amount := item.count
  refine := item.refine
  gemOpt := item.gemOpt
  socket := if item.hasSocket then 1 else 0

/-- What a row keeps of an item. -/
def keptItem (item : Item) : Item where
  type := item.type
  id := item.id
  life := 1000
  isAppraised := true
  count := item.count
  refine := item.refine
  gemOpt := item.gemOpt
  hasSocket := item.hasSocket

@[simp] theorem ofRow_commitToUpdate (item : Item) (row : InventoryRow) :
    ofRow (commitToUpdate item row) = keptItem item := by
  cases h : item.hasSocket <;> simp [ofRow, commitToUpdate, keptItem, h]

@[simp] theorem ofRow_commitToInsert (item : Item) (charId slot : ℕ) :
    ofRow (commitToInsert item charId slot) = keptItem item := by
  cases h : item.hasSocket <;> simp [ofRow, commitToInsert, keptItem, h]

/-- An item that equals its row needs no update. -/
theorem keptItem_ofRow (row : InventoryRow) : keptItem (ofRow row) = ofRow row := rfl

/-! ## `saveCharacter` -/

/-- `charId = … AND slot = …`. -/
def At (charId slot : ℕ) (row : InventoryRow) : Prop :=
  row.charId = charId ∧ row.slot = slot

instance (charId slot : ℕ) : DecidablePred (At charId slot) := fun _ =>
  inferInstanceAs (Decidable (_ ∧ _))

section SaveInventory

variable (rows : List InventoryRow) (charId : ℕ) (items : Items)

def toDelete : List ℕ :=
  (rows.filter (fun row =>
    row.charId = charId ∧ (row.slot ≥ maxItems ∨ !(items row.slot).toBool))).map InventoryRow.slot

def toUpdate : List ℕ :=
  (rows.filter (fun row => row.charId = charId ∧ row.slot < maxItems ∧
    (items row.slot).toBool ∧ items row.slot ≠ ofRow row)).map InventoryRow.slot

def toInsert : List ℕ :=
  (List.range maxItems).filter (fun i => (items i).toBool ∧ ∀ row ∈ rows, ¬ At charId i row)

/-- The part of `saveCharacter` that writes `inventory`. -/
def saveInventory : List InventoryRow :=
  let kept := (toDelete rows charId items).foldl (fun rows it =>
    Rows.delete (At charId it) rows) rows
  let updated := (toUpdate rows charId items).foldl (fun rows it =>
    Rows.update (At charId it) (commitToUpdate (items it)) rows) kept
  updated ++ (toInsert rows charId items).map (fun it => commitToInsert (items it) charId it)

end SaveInventory

/-- `EntitySystem::saveCharacter`. -/
def Tables.saveCharacter (t : Tables K D) (charId : ℕ) (pos : Position K) (rest : D)
    (items : Items) : Tables K D :=
  { t with
    characters := update t.characters charId ((t.characters charId).map (fun row =>
      { row with x := pos.x, y := pos.y, map := pos.map, rest }))
    inventory := saveInventory t.inventory charId items }

/-! ## What a load reads -/

/-- What is kept of a character; the items are those that the rows give, by slot. -/
@[ext]
structure Kept (K D : Type*) where
  x : K
  y : K
  map : ℕ
  rest : D
  items : ℕ → Option Item

/-- The item that the rows give for a slot. -/
def itemAt (rows : List InventoryRow) (charId slot : ℕ) : Option Item :=
  if slot < maxItems then (rows.filter (At charId slot)).getLast?.map ofRow else none

/-- What a server that loads the character reads. -/
def Tables.load (t : Tables K D) (charId : ℕ) : Option (Kept K D) :=
  (t.characters charId).map (fun row =>
    { x := row.x
      y := row.y
      map := row.map
      rest := row.rest
      items := itemAt t.inventory charId })

/-- What is to be kept of a slot that holds `item`. -/
def keptOf (item : Item) : Option Item :=
  if item.toBool then some (keptItem item) else none

/-- What is to be kept of a slot. -/
def keptAt (items : Items) (slot : ℕ) : Option Item :=
  if slot < maxItems then keptOf (items slot) else none

/-- What is to be kept of an entity. -/
def keep (pos : Position K) (rest : D) (items : Items) : Kept K D where
  x := pos.x
  y := pos.y
  map := pos.map
  rest := rest
  items := keptAt items

section SaveInventory

variable {rows : List InventoryRow} {charId : ℕ} {items : Items}

theorem mem_toDelete {slot : ℕ} :
    slot ∈ toDelete rows charId items ↔
      (∃ row ∈ rows, At charId slot row) ∧ ¬ (slot < maxItems ∧ (items slot).toBool) := by
  simp only [toDelete, List.mem_map, List.mem_filter, decide_eq_true_eq, At, Bool.not_eq_true',
    not_and_or, not_lt, Bool.not_eq_true]
  constructor
  · rintro ⟨row, ⟨hrow, hchar, hgone⟩, rfl⟩
    exact ⟨⟨row, hrow, hchar, rfl⟩, hgone⟩
  · rintro ⟨⟨row, hrow, hchar, rfl⟩, hgone⟩
    exact ⟨row, ⟨hrow, hchar, hgone⟩, rfl⟩

theorem mem_toUpdate {slot : ℕ} :
    slot ∈ toUpdate rows charId items ↔
      slot < maxItems ∧ (items slot).toBool ∧
        ∃ row ∈ rows, At charId slot row ∧ items slot ≠ ofRow row := by
  simp only [toUpdate, List.mem_map, List.mem_filter, decide_eq_true_eq, At]
  constructor
  · rintro ⟨row, ⟨hrow, hchar, hslot, hitem, hne⟩, rfl⟩
    exact ⟨hslot, hitem, row, hrow, ⟨hchar, rfl⟩, hne⟩
  · rintro ⟨hslot, hitem, row, hrow, ⟨hchar, rfl⟩, hne⟩
    exact ⟨row, ⟨hrow, hchar, hslot, hitem, hne⟩, rfl⟩

theorem mem_toInsert {slot : ℕ} :
    slot ∈ toInsert rows charId items ↔
      slot < maxItems ∧ (items slot).toBool ∧ ∀ row ∈ rows, ¬ At charId slot row := by
  simp [toInsert]

/-- The rows after `saveCharacter`: those that were not deleted, updated or not, and those
inserted. -/
theorem mem_saveInventory {row : InventoryRow} :
    row ∈ saveInventory rows charId items ↔
      (∃ old ∈ rows, (∀ k ∈ toDelete rows charId items, ¬ At charId k old) ∧
        ((∃ k ∈ toUpdate rows charId items, At charId k old ∧ row = commitToUpdate (items k) old) ∨
          (∀ k ∈ toUpdate rows charId items, ¬ At charId k old) ∧ row = old)) ∨
      ∃ k ∈ toInsert rows charId items, commitToInsert (items k) charId k = row :=
  Rows.mem_delete_update_insert (At charId) (fun k => commitToUpdate (items k))
    (fun _ _ _ h h' => h.2.symm.trans h'.2) (fun _ _ _ => Iff.rfl) (fun _ _ => rfl) _ _ _ _ _ _

/-- The rows of the character after `saveCharacter` are rows of slots with an item, and
give this item. -/
theorem ofRow_of_mem_saveInventory {row : InventoryRow} {slot : ℕ}
    (h : row ∈ saveInventory rows charId items) (hat : At charId slot row) :
    (slot < maxItems ∧ (items slot).toBool) ∧ ofRow row = keptItem (items slot) := by
  rcases mem_saveInventory.mp h with ⟨old, hold, hkept, hrow⟩ | ⟨k, hk, rfl⟩
  · have hat' : At charId slot old := by
      rcases hrow with ⟨k, -, -, rfl⟩ | ⟨-, rfl⟩
      · exact hat
      · exact hat
    have hslot : slot < maxItems ∧ (items slot).toBool := by
      by_contra hgone
      exact hkept slot (mem_toDelete.mpr ⟨⟨old, hold, hat'⟩, hgone⟩) hat'
    refine ⟨hslot, ?_⟩
    rcases hrow with ⟨k, -, hk, rfl⟩ | ⟨hsame, rfl⟩
    · rw [ofRow_commitToUpdate, ← hk.2, hat'.2]
    · -- a row that was not updated equals its item
      have heq : items slot = ofRow row := by
        by_contra hne
        exact hsame slot (mem_toUpdate.mpr ⟨hslot.1, hslot.2, row, hold, hat, hne⟩) hat
      rw [heq, keptItem_ofRow]
  · obtain rfl : k = slot := hat.2
    have hk' := mem_toInsert.mp hk
    exact ⟨⟨hk'.1, hk'.2.1⟩, ofRow_commitToInsert (items k) charId k⟩

/-- Each slot with an item has a row. -/
theorem exists_mem_saveInventory {slot : ℕ} (hslot : slot < maxItems)
    (hitem : (items slot).toBool) :
    ∃ row ∈ saveInventory rows charId items, At charId slot row := by
  by_cases hrows : ∃ old ∈ rows, At charId slot old
  · obtain ⟨old, hold, hat⟩ := hrows
    have hkept : ∀ k ∈ toDelete rows charId items, ¬ At charId k old := by
      intro k hk hat'
      obtain rfl : slot = k := hat.2.symm.trans hat'.2
      exact (mem_toDelete.mp hk).2 ⟨hslot, hitem⟩
    by_cases hupdate : slot ∈ toUpdate rows charId items
    · exact ⟨commitToUpdate (items slot) old,
        mem_saveInventory.mpr (.inl ⟨old, hold, hkept, .inl ⟨slot, hupdate, hat, rfl⟩⟩), hat⟩
    · refine ⟨old, mem_saveInventory.mpr (.inl ⟨old, hold, hkept, .inr ⟨?_, rfl⟩⟩), hat⟩
      intro k hk hat'
      obtain rfl : slot = k := hat.2.symm.trans hat'.2
      exact hupdate hk
  · have hinsert : slot ∈ toInsert rows charId items :=
      mem_toInsert.mpr ⟨hslot, hitem, fun row hrow hat => hrows ⟨row, hrow, hat⟩⟩
    exact ⟨_, mem_saveInventory.mpr (.inr ⟨slot, hinsert, rfl⟩), rfl, rfl⟩

/-- The inventory that was saved is the one that is read. -/
theorem itemAt_saveInventory (slot : ℕ) :
    itemAt (saveInventory rows charId items) charId slot = keptAt items slot := by
  rw [keptAt, keptOf]
  by_cases hslot : slot < maxItems
  · by_cases hitem : (items slot).toBool
    · obtain ⟨row, hrow, hat⟩ := @exists_mem_saveInventory rows charId items slot hslot hitem
      rw [itemAt, if_pos hslot, if_pos hslot, if_pos hitem]
      refine Rows.getLast?_map_of_forall ?_ ?_
      · exact List.ne_nil_of_mem (List.mem_filter.mpr ⟨hrow, decide_eq_true hat⟩)
      · intro row' hrow'
        obtain ⟨hmem, hat'⟩ := List.mem_filter.mp hrow'
        exact (ofRow_of_mem_saveInventory hmem (of_decide_eq_true hat')).2
    · have hnil : (saveInventory rows charId items).filter (At charId slot) = [] := by
        refine List.filter_eq_nil_iff.mpr fun row hrow hat => hitem ?_
        exact (ofRow_of_mem_saveInventory hrow (of_decide_eq_true hat)).1.2
      simp [itemAt, hnil, hitem]
  · simp [itemAt, hslot]

/-- The rows of the other characters are those they had. -/
theorem itemAt_saveInventory_of_ne {charId' : ℕ} (hne : charId' ≠ charId) (slot : ℕ) :
    itemAt (saveInventory rows charId items) charId' slot = itemAt rows charId' slot := by
  have hq : ∀ k row, At charId' slot row → ¬ At charId k row :=
    fun k row h h' => hne (h.1.symm.trans h'.1)
  have hf : ∀ k row, At charId' slot (commitToUpdate (items k) row) ↔ At charId' slot row :=
    fun k row => Iff.rfl
  have hinserted : ((toInsert rows charId items).map
      (fun it => commitToInsert (items it) charId it)).filter (At charId' slot) = [] := by
    refine List.filter_eq_nil_iff.mpr fun row hrow hat => ?_
    obtain ⟨it, -, rfl⟩ := List.mem_map.mp hrow
    exact hq it _ (of_decide_eq_true hat) ⟨rfl, rfl⟩
  have hrows : (saveInventory rows charId items).filter (At charId' slot) =
      rows.filter (At charId' slot) := by
    rw [saveInventory, List.filter_append, hinserted, List.append_nil,
      Rows.filter_foldl_update hq hf, Rows.filter_foldl_delete hq]
  rw [itemAt, hrows, itemAt]

end SaveInventory

section

variable {t : Tables K D} {charId : ℕ} (pos : Position K) (rest : D) (items : Items)

/-- **What was saved is what is loaded**, whatever rows there were before. -/
theorem load_saveCharacter (h : t.characters charId ≠ none) :
    (t.saveCharacter charId pos rest items).load charId = some (keep pos rest items) := by
  obtain ⟨row, hrow⟩ := Option.ne_none_iff_exists'.mp h
  simp only [Tables.load, Tables.saveCharacter, update_self, hrow, Option.map_some]
  exact congrArg some (Kept.ext rfl rfl rfl rfl (funext itemAt_saveInventory))

/-- The other characters are left alone. -/
theorem load_saveCharacter_of_ne {charId' : ℕ} (hne : charId' ≠ charId) :
    (t.saveCharacter charId pos rest items).load charId' = t.load charId' := by
  simp only [Tables.load, Tables.saveCharacter, update_of_ne hne]
  refine congrArg (fun f => Option.map f _) (funext fun row => ?_)
  exact Kept.ext rfl rfl rfl rfl (funext (itemAt_saveInventory_of_ne hne))

theorem characters_saveCharacter (charId' : ℕ) :
    (t.saveCharacter charId pos rest items).characters charId' = none ↔
      t.characters charId' = none := by
  by_cases h : charId' = charId
  · simp [Tables.saveCharacter, h]
  · simp [Tables.saveCharacter, h]

end

end OsIrose.Characters

/-
What `EntitySystem::saveCharacter` (`map/src/entitysystem.cpp`) leaves in `inventory`, row by
row.

A save compares the rows of a character with its items and deletes, updates and inserts what
differs. If no slot has two rows, what is left are the rows that an insert of every item would
give, one for each slot with an item (`inventory_saveCharacter`). An equal item is not written,
but then its row has the columns already: `socket` is read as a flag and written as 0 or 1, so
this asks for a row that holds nothing else.
-/
import OsIrose.SaveLoad
import Mathlib.Data.List.Nodup
import Mathlib.Data.List.Perm.Basic

set_option autoImplicit false

namespace OsIrose.SaveLoad

open Inventory
open Characters (InventoryRow commitToUpdate commitToInsert At toDelete toInsert)

instance (row : InventoryRow) : Decidable (Fits row) :=
  decidable_of_iff (row.itemid < 65536 ∧ row.itemtype < 256 ∧ row.gemOpt < 65536 ∧ row.socket ≤ 1)
    ⟨fun h => ⟨h.1, h.2.1, h.2.2.1, h.2.2.2⟩,
      fun h => ⟨h.itemid, h.itemtype, h.gemOpt, h.socket⟩⟩

/-- The slots that hold an item. -/
def occupied (items : Items) : List ℕ :=
  (List.range maxItems).filter (fun slot => (items slot).toBool)

theorem mem_occupied {items : Items} {slot : ℕ} :
    slot ∈ occupied items ↔ slot < maxItems ∧ (items slot).toBool := by
  rw [occupied, List.mem_filter, List.mem_range]

/-- One row for each item. -/
def rowsOf (items : Items) (charId : ℕ) : List InventoryRow :=
  (occupied items).map (fun slot => commitToInsert (items slot) charId slot)

theorem nodup_rowsOf (items : Items) (charId : ℕ) : (rowsOf items charId).Nodup := by
  apply List.Nodup.of_map InventoryRow.slot
  have hslots : (rowsOf items charId).map InventoryRow.slot = occupied items := by
    rw [rowsOf, List.map_map]
    exact List.map_id _
  rw [hslots]
  exact List.nodup_range.filter _

/-- A row with the columns of an item is the one that an insert of it gives. -/
theorem eq_commitToInsert {row : InventoryRow} {item : Item} (hsocket : row.socket ≤ 1)
    (h : Characters.ofRow row = Characters.keptItem item) :
    row = commitToInsert item row.charId row.slot := by
  have hflag : row.socket = if item.hasSocket then 1 else 0 := by
    have hflag : decide (row.socket ≠ 0) = item.hasSocket := congrArg Item.hasSocket h
    rw [← hflag]
    by_cases hzero : row.socket = 0
    · simp [hzero]
    · have hone : row.socket = 1 := by omega
      simp [hone]
  have hid : row.itemid = item.id := congrArg Item.id h
  have htype : row.itemtype = item.type := congrArg Item.type h
  have hcount : row.amount = item.count := congrArg Item.count h
  have hrefine : row.refine = item.refine := congrArg Item.refine h
  have hgem : row.gemOpt = item.gemOpt := congrArg Item.gemOpt h
  cases row
  simp only at hflag hid htype hcount hrefine hgem
  simp only [commitToInsert, hflag, hid, htype, hcount, hrefine, hgem]

section

variable {rows : List InventoryRow} {charId : ℕ} {items : Items}

/-- The rows that a save writes hold a flag in `socket`, and the others are those that were
there. -/
theorem socket_le_of_saved (hfits : ∀ row ∈ rows, row.charId = charId → Fits row)
    {row : InventoryRow} (hrow : row ∈ Characters.saveInventory rows charId items)
    (hchar : row.charId = charId) : row.socket ≤ 1 := by
  rcases Characters.mem_saveInventory.mp hrow with ⟨old, hold, -, ⟨k, -, -, rfl⟩ | ⟨-, rfl⟩⟩ |
    ⟨k, -, rfl⟩
  · simp only [commitToUpdate]
    split_ifs <;> omega
  · exact (hfits row hold hchar).socket
  · simp only [commitToInsert]
    split_ifs <;> omega

/-- The rows of a character after a save are those of its items. -/
theorem mem_saved_iff (hfits : ∀ row ∈ rows, row.charId = charId → Fits row)
    {row : InventoryRow} :
    row ∈ Characters.saveInventory rows charId items ∧ row.charId = charId ↔
      row ∈ rowsOf items charId := by
  have hsaved : ∀ {row : InventoryRow}, row ∈ Characters.saveInventory rows charId items →
      row.charId = charId → (row.slot < maxItems ∧ (items row.slot).toBool) ∧
        commitToInsert (items row.slot) charId row.slot = row := by
    intro row hrow hchar
    obtain ⟨hslot, hitem⟩ :=
      Characters.ofRow_of_mem_saveInventory hrow (⟨hchar, rfl⟩ : At charId row.slot row)
    refine ⟨hslot, ?_⟩
    conv_rhs => rw [eq_commitToInsert (socket_le_of_saved hfits hrow hchar) hitem, hchar]
  rw [rowsOf, List.mem_map]
  constructor
  · rintro ⟨hrow, hchar⟩
    obtain ⟨hslot, heq⟩ := hsaved hrow hchar
    exact ⟨row.slot, mem_occupied.mpr hslot, heq⟩
  · rintro ⟨slot, hslot, rfl⟩
    obtain ⟨hlt, hitem⟩ := mem_occupied.mp hslot
    obtain ⟨row, hrow, hchar, rfl⟩ :=
      @Characters.exists_mem_saveInventory rows charId items slot hlt hitem
    rw [(hsaved hrow hchar).2]
    exact ⟨hrow, hchar⟩

/-- A save gives no slot a second row. -/
theorem nodup_slots_saveInventory
    (huniq : ((rows.filter (fun row => row.charId = charId)).map InventoryRow.slot).Nodup) :
    (((Characters.saveInventory rows charId items).filter
      (fun row => row.charId = charId)).map InventoryRow.slot).Nodup := by
  have hkept : ((toDelete rows charId items).foldl
      (fun rows it => Rows.delete (At charId it) rows) rows).Sublist rows :=
    Rows.foldl_delete_sublist _ _
  have hkey : ∀ (it : ℕ) (row : InventoryRow),
      (commitToUpdate (items it) row).charId = charId ↔ row.charId = charId :=
    fun _ _ => Iff.rfl
  have hslot : ∀ (it : ℕ) (row : InventoryRow),
      (commitToUpdate (items it) row).slot = row.slot := fun _ _ => rfl
  have hupdated := @Rows.map_filter_foldl_update _ _ _ (At charId) _
    (fun row => row.charId = charId) _ _ _ hkey hslot
  have hinserted : (((toInsert rows charId items).map
      (fun it => commitToInsert (items it) charId it)).filter
        (fun row => row.charId = charId)).map InventoryRow.slot = toInsert rows charId items := by
    rw [List.filter_eq_self.mpr (by simp [commitToInsert]), List.map_map]
    exact List.map_id _
  rw [Characters.saveInventory, List.filter_append, List.map_append, hupdated, hinserted]
  refine List.Nodup.append ?_ (List.nodup_range.filter _) ?_
  · exact huniq.sublist ((hkept.filter _).map _)
  · intro slot hslot hinsert
    obtain ⟨row, hrow, rfl⟩ := List.mem_map.mp hslot
    obtain ⟨hmem, hchar⟩ := List.mem_filter.mp hrow
    exact (Characters.mem_toInsert.mp hinsert).2.2 row (hkept.subset hmem)
      ⟨of_decide_eq_true hchar, rfl⟩

/-- The rows of the other characters are those they had. -/
theorem filter_saveInventory_of_ne :
    (Characters.saveInventory rows charId items).filter (fun row => row.charId ≠ charId) =
      rows.filter (fun row => row.charId ≠ charId) := by
  have hq : ∀ it row, row.charId ≠ charId → ¬ At charId it row := fun _ _ h h' => h h'.1
  have hf : ∀ it row, (commitToUpdate (items it) row).charId ≠ charId ↔ row.charId ≠ charId :=
    fun _ _ => Iff.rfl
  have hinserted : ((toInsert rows charId items).map
      (fun it => commitToInsert (items it) charId it)).filter
        (fun row => row.charId ≠ charId) = [] := by
    refine List.filter_eq_nil_iff.mpr fun row hrow => ?_
    obtain ⟨it, -, rfl⟩ := List.mem_map.mp hrow
    simp [commitToInsert]
  rw [Characters.saveInventory, List.filter_append, hinserted, List.append_nil,
    Rows.filter_foldl_update hq hf, Rows.filter_foldl_delete hq]

end

variable {U : Type}

theorem inventory_of_saveCharacter {env : Env} {t t' : Tables U} {charId : ℕ} {c : Character}
    (h : saveCharacter env t charId c = some t') :
    t'.inventory = saveInventory t.inventory charId c.items := by
  rw [saveCharacter] at h
  split at h
  · rw [← Option.some.inj h]
  · obtain ⟨characters, -, hsave⟩ := Option.bind_eq_some_iff.mp h
    rw [← Option.some.inj hsave]

/-- **A save leaves one row for each item.** The rows of the other characters are those they
had, in the same order. -/
theorem inventory_saveCharacter {env : Env} {t t' : Tables U} {charId : ℕ} {c : Character}
    (huniq : ((t.inventory.filter (fun row => row.charId = charId)).map InventoryRow.slot).Nodup)
    (hfits : ∀ row ∈ t.inventory, row.charId = charId → Fits row)
    (hsave : saveCharacter env t charId c = some t') :
    (t'.inventory.filter (fun row => row.charId = charId)).Perm (rowsOf c.items charId) ∧
      t'.inventory.filter (fun row => row.charId ≠ charId) =
        t.inventory.filter (fun row => row.charId ≠ charId) := by
  rw [inventory_of_saveCharacter hsave, saveInventory_eq_of_fits c.items hfits]
  refine ⟨?_, filter_saveInventory_of_ne⟩
  rw [List.perm_ext_iff_of_nodup (nodup_slots_saveInventory huniq).of_map
    (nodup_rowsOf c.items charId)]
  intro row
  rw [List.mem_filter, decide_eq_true_eq]
  exact mem_saved_iff hfits

/-- Two rows of a character, one of them for a slot that does not exist, and one of another
character. -/
def sampleRows : List InventoryRow :=
  [commitToInsert { type := 1, id := 5, count := 1 } 1 12,
    commitToInsert { type := 1, id := 6, count := 1 } 1 300,
    commitToInsert { type := 1, id := 7, count := 1 } 2 12]

/-- The first item has changed, and there is a new one. -/
def sampleItems : Items :=
  Function.update (Function.update noItems 12 { type := 1, id := 5, count := 4 }) 20
    { type := 2, id := 8, count := 1 }

theorem inventory_saveCharacter_sample :
    ∃ t', saveCharacter (sampleEnv true) { sampleTables with inventory := sampleRows } 1
        (loadRow { others := () } sampleItems) = some t' ∧
      (t'.inventory.filter (fun row => row.charId = 1)).Perm
        [commitToInsert (sampleItems 12) 1 12, commitToInsert (sampleItems 20) 1 20] := by
  obtain ⟨t', hsave⟩ : ∃ t', saveCharacter (sampleEnv true)
      { sampleTables with inventory := sampleRows } 1 (loadRow { others := () } sampleItems) =
        some t' := ⟨_, rfl⟩
  have hsaved := (inventory_saveCharacter (by decide) (by decide) hsave).1
  refine ⟨t', hsave, hsaved.trans (List.Perm.of_eq ?_)⟩
  decide

end OsIrose.SaveLoad

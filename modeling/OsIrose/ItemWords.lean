/-
The words that stand for an item in a packet: `getHeader`, `getData` and `getVisible` of
`rosecommon/src/item.cpp`, for the items that `loadFromRow` (`rosecommon/include/item.h`) and
`InventorySystem::buildItem` make, and the bit fields of `SrvCharacterListReply::equip_item`.

The functions shift each field to its place and or them together. No field is cut to the
width it has there, so a value that is too wide gets into its neighbours. Each word is a
`combine` over a `Layout`, so its fields can be read back if and only if all of them fit
(`lossless_iff_fits`). The columns of the database are wider than that: a type from 32 on, an
id from 1024 on, a gem from 512 on or a grade from 16 on is not told from another
(`lossless_iff`).
-/
import OsIrose.BitLayout
import OsIrose.PacketReplies
import OsIrose.SaveLoad

set_option autoImplicit false

namespace OsIrose.ItemWords

open BitLayout
open Packet (setItem)

structure Item where
  type_ : BitVec 8 := 0
  id_ : BitVec 16 := 0
  isCreated_ : Bool := false
  gemOpt_ : BitVec 16 := 0
  durability_ : BitVec 8 := 0
  life_ : BitVec 16 := 0
  hasSocket_ : Bool := false
  isAppraised_ : Bool := false
  refine_ : BitVec 8 := 0
  count_ : BitVec 32 := 0
  isStackable_ : Bool := false
  deriving DecidableEq

/-- A `bool` in an `int`. -/
def ofBool (b : Bool) : BitVec 32 := (BitVec.ofBool b).setWidth 32

namespace Item

variable (item : Item)

def getVisible : BitVec 32 :=
  (item.refine_.setWidth 32 <<< 20) ||| (ofBool item.hasSocket_ <<< 19) |||
    (item.gemOpt_.setWidth 32 <<< 10) ||| item.id_.setWidth 32

/-- The `int` is cut to a `uint16_t`. -/
def getHeader : BitVec 16 :=
  ((ofBool item.isCreated_ <<< 15) ||| (item.id_.setWidth 32 <<< 5) |||
    item.type_.setWidth 32).setWidth 16

def getData : BitVec 32 :=
  if item.isStackable_ then item.count_
  else (item.refine_.setWidth 32 <<< 28) ||| (ofBool item.isAppraised_ <<< 27) |||
    (ofBool item.hasSocket_ <<< 26) ||| (item.life_.setWidth 32 <<< 16) |||
    (item.durability_.setWidth 32 <<< 9) ||| item.gemOpt_.setWidth 32

end Item

/-! ## Where items come from -/

/-- A row of `inventory` or `wishlist`; all columns are unsigned. -/
structure ItemRow where
  itemid : BitVec 32
  itemtype : BitVec 32
  amount : BitVec 32
  refine : BitVec 8
  gemOpt : BitVec 32
  socket : BitVec 32

structure ItemDef where
  type : BitVec 8
  id : BitVec 16
  script : String

structure Env where
  /-- `ItemDatabase`, which keeps a definition under its own type and id. -/
  itemDef : (type : BitVec 8) → (id : BitVec 16) →
    Option { definition : ItemDef // definition.type = type ∧ definition.id = id }
  /-- Whether a script loads without a Lua error. -/
  scriptLoads : String → Bool

/-- `Item(def)`. -/
def Item.ofDef (definition : ItemDef) : Item where
  type_ := definition.type
  id_ := definition.id
  count_ := 1
  isStackable_ := 10 ≤ definition.type ∧ definition.type ≤ 13

/-- `InventorySystem::buildItem`; `none` if there is no definition, which throws, and
`some none` is an empty result. -/
def buildItem (env : Env) (type : BitVec 8) (id life : BitVec 16) (isAppraised : Bool) :
    Option (Option Item) :=
  (env.itemDef type id).map fun definition =>
    if env.scriptLoads definition.val.script then
      some { Item.ofDef definition.val with life_ := life, isAppraised_ := isAppraised }
    else none

/-- The assignments at the end of both `loadFromRow`. -/
def Item.takeRow (item : Item) (row : ItemRow) : Item :=
  { item with
    count_ := row.amount
    refine_ := row.refine
    gemOpt_ := row.gemOpt.setWidth 16
    hasSocket_ := row.socket ≠ 0 }

/-- `Item(row)`. -/
def Item.ofRow (row : ItemRow) : Item :=
  Item.takeRow
    { type_ := row.itemtype.setWidth 8, id_ := row.itemid.setWidth 16, life_ := 1000
      isAppraised_ := true } row

/-- `Item::loadFromRow(row, builder)`. -/
def Item.loadFromRow (env : Env) (item : Item) (row : ItemRow) : Option Item :=
  (buildItem env (row.itemtype.setWidth 8) (row.itemid.setWidth 16) 1000 true).map fun built =>
    Item.takeRow (built.getD item) row

/-- The item with numbers for its fields. -/
def Item.toItem (item : Item) : Inventory.Item where
  type := item.type_.toNat
  id := item.id_.toNat
  isCreated := item.isCreated_
  gemOpt := item.gemOpt_.toNat
  durability := item.durability_.toNat
  life := item.life_.toNat
  hasSocket := item.hasSocket_
  isAppraised := item.isAppraised_
  refine := item.refine_.toNat
  count := item.count_.toNat
  isStackable := item.isStackable_

def ItemRow.toRow (row : ItemRow) (charId slot : ℕ) : Characters.InventoryRow where
  charId := charId
  slot := slot
  itemid := row.itemid.toNat
  itemtype := row.itemtype.toNat
  amount := row.amount.toNat
  refine := row.refine.toNat
  gemOpt := row.gemOpt.toNat
  socket := row.socket.toNat

/-- `Item(row)` is the one that the rows of a character are compared with. -/
theorem toItem_ofRow (row : ItemRow) (charId slot : ℕ) :
    (Item.ofRow row).toItem = SaveLoad.ofRow (row.toRow charId slot) := by
  have hsocket : (row.socket ≠ 0) ↔ row.socket.toNat ≠ 0 :=
    not_congr (BitVec.toNat_eq (y := 0))
  simp only [Item.toItem, Item.ofRow, Item.takeRow, SaveLoad.ofRow, ItemRow.toRow,
    BitVec.toNat_setWidth, hsocket]
  rfl

/-! ## The layouts -/

inductive HeaderField
  | type
  | id
  | isCreated
  deriving DecidableEq

def HeaderField.width : HeaderField → ℕ
  | type => 5
  | id => 10
  | isCreated => 1

def headerLayout : Layout HeaderField.width 16 where
  fields := [.type, .id, .isCreated]
  nodup := by decide
  complete := fun f => by cases f <;> decide
  total := rfl

/-- The fields of an item that is not stackable. -/
inductive DataField
  | gemOpt
  | durability
  | life
  | hasSocket
  | isAppraised
  | refine
  deriving DecidableEq

def DataField.width : DataField → ℕ
  | gemOpt => 9
  | durability => 7
  | life => 10
  | hasSocket => 1
  | isAppraised => 1
  | refine => 4

def dataLayout : Layout DataField.width 32 where
  fields := [.gemOpt, .durability, .life, .hasSocket, .isAppraised, .refine]
  nodup := by decide
  complete := fun f => by cases f <;> decide
  total := rfl

/-- The bit fields of an `equip_item`, and the bits above them. -/
inductive VisibleField
  | id
  | gemOpt
  | hasSocket
  | refine
  | rest
  deriving DecidableEq

def VisibleField.width : VisibleField → ℕ
  | id => 10
  | gemOpt => 9
  | hasSocket => 1
  | refine => 4
  | rest => 8

def visibleLayout : Layout VisibleField.width 32 where
  fields := [.id, .gemOpt, .hasSocket, .refine, .rest]
  nodup := by decide
  complete := fun f => by cases f <;> decide
  total := rfl

namespace Item

variable (item : Item)

def headerValue : HeaderField → BitVec 16
  | .type => item.type_.setWidth 16
  | .id => item.id_
  | .isCreated => (ofBool item.isCreated_).setWidth 16

def dataValue : DataField → BitVec 32
  | .gemOpt => item.gemOpt_.setWidth 32
  | .durability => item.durability_.setWidth 32
  | .life => item.life_.setWidth 32
  | .hasSocket => ofBool item.hasSocket_
  | .isAppraised => ofBool item.isAppraised_
  | .refine => item.refine_.setWidth 32

def visibleValue : VisibleField → BitVec 32
  | .id => item.id_.setWidth 32
  | .gemOpt => item.gemOpt_.setWidth 32
  | .hasSocket => ofBool item.hasSocket_
  | .refine => item.refine_.setWidth 32
  | .rest => 0

/-- Every field can be read back from its place in the words, and the visible word is that of
an `equip_item`. -/
structure Lossless : Prop where
  header : ∀ f, (headerLayout.get f item.getHeader).setWidth 16 = item.headerValue f
  count : item.isStackable_ = true → item.getData = item.count_
  data : item.isStackable_ = false →
    ∀ f, (dataLayout.get f item.getData).setWidth 32 = item.dataValue f
  visible : ∀ f, (visibleLayout.get f item.getVisible).setWidth 32 = item.visibleValue f
  equipItem : item.getVisible =
    setItem 0 item.id_ item.gemOpt_ ((ofBool item.hasSocket_).setWidth 8) item.refine_

/-- The type and the id, and what is known of the state of an item, fit. -/
structure KindFits : Prop where
  type : item.type_.toNat < 32
  id : item.id_.toNat < 1024
  state : item.isStackable_ = false → item.life_.toNat < 1024 ∧ item.durability_.toNat < 128

end Item

/-! ## The words are made of their fields -/

namespace Item

variable (item : Item)

theorem getHeader_eq_combine : item.getHeader = headerLayout.combine item.headerValue := by
  have hcombine : headerLayout.combine item.headerValue =
      0#16 ||| ((ofBool item.isCreated_).setWidth 16 <<< 15) ||| (item.id_ <<< 5) |||
        (item.type_.setWidth 16 <<< 0) := rfl
  rw [hcombine, getHeader, BitVec.shiftLeft_zero, BitVec.zero_or]
  simp

theorem getData_eq_combine (h : item.isStackable_ = false) :
    item.getData = dataLayout.combine item.dataValue := by
  have hcombine : dataLayout.combine item.dataValue =
      0#32 ||| (item.refine_.setWidth 32 <<< 28) ||| (ofBool item.isAppraised_ <<< 27) |||
        (ofBool item.hasSocket_ <<< 26) ||| (item.life_.setWidth 32 <<< 16) |||
        (item.durability_.setWidth 32 <<< 9) ||| (item.gemOpt_.setWidth 32 <<< 0) := rfl
  rw [hcombine, getData, if_neg (by simp [h]), BitVec.shiftLeft_zero, BitVec.zero_or]

theorem getVisible_eq_combine : item.getVisible = visibleLayout.combine item.visibleValue := by
  have hcombine : visibleLayout.combine item.visibleValue =
      0#32 ||| (0#32 <<< 24) ||| (item.refine_.setWidth 32 <<< 20) |||
        (ofBool item.hasSocket_ <<< 19) ||| (item.gemOpt_.setWidth 32 <<< 10) |||
        (item.id_.setWidth 32 <<< 0) := rfl
  rw [hcombine, getVisible, BitVec.shiftLeft_zero, BitVec.zero_shiftLeft, BitVec.zero_or,
    BitVec.zero_or]

/-- What the bit fields of an `equip_item` are assigned. -/
theorem get_setItem (f : VisibleField) :
    visibleLayout.get f (setItem 0 item.id_ item.gemOpt_ ((ofBool item.hasSocket_).setWidth 8)
      item.refine_) = (item.visibleValue f).setWidth f.width := by
  unfold setItem
  cases f with
  | id =>
      refine (BitVec.extractLsb'_append_eq_right).trans ?_
      simp [visibleValue, VisibleField.width]
  | gemOpt =>
      refine (BitVec.extractLsb'_append_eq_of_le (show 10 ≤ 10 by decide)).trans ?_
      refine (BitVec.extractLsb'_append_eq_right).trans ?_
      simp [visibleValue, VisibleField.width]
  | hasSocket =>
      refine (BitVec.extractLsb'_append_eq_of_le (show 10 ≤ 19 by decide)).trans ?_
      refine (BitVec.extractLsb'_append_eq_of_le (show 9 ≤ 9 by decide)).trans ?_
      refine (BitVec.extractLsb'_append_eq_right).trans ?_
      simp [visibleValue, VisibleField.width]
  | refine =>
      refine (BitVec.extractLsb'_append_eq_of_le (show 10 ≤ 20 by decide)).trans ?_
      refine (BitVec.extractLsb'_append_eq_of_le (show 9 ≤ 10 by decide)).trans ?_
      refine (BitVec.extractLsb'_append_eq_of_le (show 1 ≤ 1 by decide)).trans ?_
      refine (BitVec.extractLsb'_append_eq_right).trans ?_
      simp [visibleValue, VisibleField.width]
  | rest =>
      refine (BitVec.extractLsb'_append_eq_of_le (show 10 ≤ 24 by decide)).trans ?_
      refine (BitVec.extractLsb'_append_eq_of_le (show 9 ≤ 14 by decide)).trans ?_
      refine (BitVec.extractLsb'_append_eq_of_le (show 1 ≤ 5 by decide)).trans ?_
      refine (BitVec.extractLsb'_append_eq_of_le (show 4 ≤ 4 by decide)).trans ?_
      simp [visibleValue, VisibleField.width]

/-! ## When the fields fit -/

theorem toNat_ofBool_lt (b : Bool) : (ofBool b).toNat < 2 := by
  cases b <;> decide

theorem header_fits_iff : (∀ f, (item.headerValue f).toNat < 2 ^ HeaderField.width f) ↔
    item.type_.toNat < 32 ∧ item.id_.toNat < 1024 := by
  have htype : (item.type_.setWidth 16).toNat = item.type_.toNat := by
    rw [BitVec.toNat_setWidth]
    omega
  constructor
  · intro h
    exact ⟨htype ▸ h .type, h .id⟩
  · rintro ⟨h, hid⟩ f
    cases f with
    | type => exact htype.symm ▸ h
    | id => exact hid
    | isCreated =>
        show ((ofBool item.isCreated_).setWidth 16).toNat < 2
        rw [BitVec.toNat_setWidth]
        exact (Nat.mod_le _ _).trans_lt (toNat_ofBool_lt _)

theorem data_fits_iff : (∀ f, (item.dataValue f).toNat < 2 ^ DataField.width f) ↔
    item.gemOpt_.toNat < 512 ∧ item.durability_.toNat < 128 ∧ item.life_.toNat < 1024 ∧
      item.refine_.toNat < 16 := by
  have hwiden : ∀ {n : ℕ} (v : BitVec n), n ≤ 32 → (v.setWidth 32).toNat = v.toNat :=
    fun v hn => BitVec.toNat_setWidth_of_le hn
  constructor
  · intro h
    refine ⟨?_, ?_, ?_, ?_⟩
    · exact hwiden item.gemOpt_ (by decide) ▸ h .gemOpt
    · exact hwiden item.durability_ (by decide) ▸ h .durability
    · exact hwiden item.life_ (by decide) ▸ h .life
    · exact hwiden item.refine_ (by decide) ▸ h .refine
  · rintro ⟨hgem, hdurability, hlife, hrefine⟩ f
    cases f with
    | gemOpt => exact (hwiden item.gemOpt_ (by decide)).symm ▸ hgem
    | durability => exact (hwiden item.durability_ (by decide)).symm ▸ hdurability
    | life => exact (hwiden item.life_ (by decide)).symm ▸ hlife
    | hasSocket => exact toNat_ofBool_lt _
    | isAppraised => exact toNat_ofBool_lt _
    | refine => exact (hwiden item.refine_ (by decide)).symm ▸ hrefine

theorem visible_fits_iff : (∀ f, (item.visibleValue f).toNat < 2 ^ VisibleField.width f) ↔
    item.id_.toNat < 1024 ∧ item.gemOpt_.toNat < 512 ∧ item.refine_.toNat < 16 := by
  have hwiden : ∀ {n : ℕ} (v : BitVec n), n ≤ 32 → (v.setWidth 32).toNat = v.toNat :=
    fun v hn => BitVec.toNat_setWidth_of_le hn
  constructor
  · intro h
    refine ⟨?_, ?_, ?_⟩
    · exact hwiden item.id_ (by decide) ▸ h .id
    · exact hwiden item.gemOpt_ (by decide) ▸ h .gemOpt
    · exact hwiden item.refine_ (by decide) ▸ h .refine
  · rintro ⟨hid, hgem, hrefine⟩ f
    cases f with
    | id => exact (hwiden item.id_ (by decide)).symm ▸ hid
    | gemOpt => exact (hwiden item.gemOpt_ (by decide)).symm ▸ hgem
    | hasSocket => exact toNat_ofBool_lt _
    | refine => exact (hwiden item.refine_ (by decide)).symm ▸ hrefine
    | rest => exact Nat.two_pow_pos _

/-- **The words lose nothing** if and only if what they hold fits. -/
theorem lossless_iff_fits : item.Lossless ↔
    item.KindFits ∧ item.gemOpt_.toNat < 512 ∧ item.refine_.toNat < 16 := by
  constructor
  · intro h
    have hheader := h.header
    rw [getHeader_eq_combine, Layout.get_combine_iff, header_fits_iff] at hheader
    have hvisible := h.visible
    rw [getVisible_eq_combine, Layout.get_combine_iff, visible_fits_iff] at hvisible
    refine ⟨⟨hheader.1, hheader.2, fun hstackable => ?_⟩, hvisible.2⟩
    have hdata := h.data hstackable
    rw [getData_eq_combine item hstackable, Layout.get_combine_iff, data_fits_iff] at hdata
    exact ⟨hdata.2.2.1, hdata.2.1⟩
  · rintro ⟨hkind, hgem, hrefine⟩
    have hvisible := (visible_fits_iff item).mpr ⟨hkind.id, hgem, hrefine⟩
    refine ⟨?_, fun hstackable => if_pos hstackable, fun hstackable => ?_, ?_, ?_⟩
    · rw [getHeader_eq_combine, Layout.get_combine_iff, header_fits_iff]
      exact ⟨hkind.type, hkind.id⟩
    · obtain ⟨hlife, hdurability⟩ := hkind.state hstackable
      rw [getData_eq_combine item hstackable, Layout.get_combine_iff, data_fits_iff]
      exact ⟨hgem, hdurability, hlife, hrefine⟩
    · rw [getVisible_eq_combine, Layout.get_combine_iff]
      exact hvisible
    · refine visibleLayout.ext_get fun f => ?_
      rw [getVisible_eq_combine, Layout.get_combine _ hvisible, get_setItem]

end Item

/-! ## The items that are made -/

/-- There is a definition, and its script loads. -/
def Env.Builds (env : Env) (type : BitVec 8) (id : BitVec 16) : Prop :=
  ∃ definition, env.itemDef type id = some definition ∧
    env.scriptLoads definition.val.script = true

namespace ItemRow

/-- The type and the id of a row fit into a header. -/
structure KindFits (row : ItemRow) : Prop where
  type : row.itemtype.toNat % 256 < 32
  id : row.itemid.toNat % 65536 < 1024

structure RestFits (row : ItemRow) : Prop where
  gemOpt : row.gemOpt.toNat % 65536 < 512
  refine : row.refine.toNat < 16

end ItemRow

variable {env : Env} {item : Item} {row : ItemRow}

theorem lossless_takeRow_iff : (item.takeRow row).Lossless ↔ item.KindFits ∧ row.RestFits := by
  have hgem : (row.gemOpt.setWidth 16).toNat = row.gemOpt.toNat % 65536 := BitVec.toNat_setWidth _ _
  rw [Item.lossless_iff_fits]
  refine and_congr ⟨fun h => ⟨h.type, h.id, h.state⟩, fun h => ⟨h.type, h.id, h.state⟩⟩ ?_
  constructor
  · rintro ⟨hgemOpt, hrefine⟩
    exact ⟨hgem ▸ hgemOpt, hrefine⟩
  · rintro ⟨hgemOpt, hrefine⟩
    exact ⟨hgem.symm ▸ hgemOpt, hrefine⟩

/-- What `buildItem` makes of a definition. -/
theorem kindFits_ofDef_iff (definition : ItemDef) (life : BitVec 16) (isAppraised : Bool) :
    Item.KindFits { Item.ofDef definition with life_ := life, isAppraised_ := isAppraised } ↔
      definition.type.toNat < 32 ∧ definition.id.toNat < 1024 ∧
        (life.toNat < 1024 ∨ 10 ≤ definition.type ∧ definition.type ≤ 13) := by
  have hstackable : (Item.ofDef definition).isStackable_ = false ↔
      ¬ (10 ≤ definition.type ∧ definition.type ≤ 13) := decide_eq_false_iff_not
  constructor
  · rintro ⟨htype, hid, hstate⟩
    refine ⟨htype, hid, ?_⟩
    by_cases hkind : 10 ≤ definition.type ∧ definition.type ≤ 13
    · exact Or.inr hkind
    · exact Or.inl (hstate (hstackable.mpr hkind)).1
  · rintro ⟨htype, hid, hlife⟩
    refine ⟨htype, hid, fun hkind => ⟨?_, ?_⟩⟩
    · exact hlife.resolve_right (hstackable.mp hkind)
    · show 0 < 128
      decide

theorem buildItem_eq_some {type : BitVec 8} {id life : BitVec 16} {isAppraised : Bool}
    {built : Item} (h : buildItem env type id life isAppraised = some (some built)) :
    env.Builds type id ∧ ∃ script, built =
      { Item.ofDef ⟨type, id, script⟩ with life_ := life, isAppraised_ := isAppraised } := by
  obtain ⟨definition, hdef, hbuilt⟩ := Option.map_eq_some_iff.mp h
  split_ifs at hbuilt with hloads
  obtain ⟨⟨_, _, script⟩, rfl, rfl⟩ := definition
  exact ⟨⟨_, hdef, hloads⟩, script, (Option.some.inj hbuilt).symm⟩

theorem buildItem_eq_some_none {type : BitVec 8} {id life : BitVec 16} {isAppraised : Bool}
    (h : buildItem env type id life isAppraised = some none) : ¬ env.Builds type id := by
  obtain ⟨definition, hdef, hbuilt⟩ := Option.map_eq_some_iff.mp h
  rintro ⟨definition', hdef', hloads⟩
  obtain rfl := Option.some.inj (hdef.symm.trans hdef')
  rw [if_pos hloads] at hbuilt
  exact Option.some_ne_none _ hbuilt

theorem kindFits_row_iff : row.KindFits ↔ (row.itemtype.setWidth 8).toNat < 32 ∧
    (row.itemid.setWidth 16).toNat < 1024 := by
  rw [BitVec.toNat_setWidth, BitVec.toNat_setWidth]
  exact ⟨fun h => ⟨h.type, h.id⟩, fun h => ⟨h.1, h.2⟩⟩

theorem lossless_ofRow_iff : (Item.ofRow row).Lossless ↔ row.KindFits ∧ row.RestFits := by
  rw [Item.ofRow, lossless_takeRow_iff, kindFits_row_iff]
  refine and_congr_left fun _ => ⟨fun h => ⟨h.type, h.id⟩, fun h => ⟨h.1, h.2, fun _ => ?_⟩⟩
  exact ⟨show (1000 : BitVec 16).toNat < 1024 by decide, show (0 : BitVec 8).toNat < 128 by decide⟩

theorem lossless_loadFromRow_iff {loaded : Item}
    (h : Item.loadFromRow env item row = some loaded) :
    loaded.Lossless ↔
      (env.Builds (row.itemtype.setWidth 8) (row.itemid.setWidth 16) → row.KindFits) ∧
      (¬ env.Builds (row.itemtype.setWidth 8) (row.itemid.setWidth 16) → item.KindFits) ∧
      row.RestFits := by
  obtain ⟨built, hbuilt, rfl⟩ := Option.map_eq_some_iff.mp h
  rw [lossless_takeRow_iff, ← and_assoc]
  refine and_congr_left fun _ => ?_
  cases built with
  | none =>
      have hbuilds := buildItem_eq_some_none hbuilt
      exact ⟨fun hkind => ⟨fun hyes => absurd hyes hbuilds, fun _ => hkind⟩,
        fun hkind => hkind.2 hbuilds⟩
  | some built =>
      obtain ⟨hbuilds, script, rfl⟩ := buildItem_eq_some hbuilt
      rw [Option.getD_some, kindFits_ofDef_iff, kindFits_row_iff]
      constructor
      · rintro ⟨htype, hid, _⟩
        exact ⟨fun _ => ⟨htype, hid⟩, fun hno => absurd hbuilds hno⟩
      · rintro ⟨hkind, _⟩
        exact ⟨(hkind hbuilds).1, (hkind hbuilds).2, Or.inl (by decide)⟩

theorem lossless_buildItem_iff {type : BitVec 8} {id life : BitVec 16} {isAppraised : Bool}
    {built : Item} (h : buildItem env type id life isAppraised = some (some built)) :
    built.Lossless ↔ type.toNat < 32 ∧ id.toNat < 1024 ∧
      (life.toNat < 1024 ∨ 10 ≤ type ∧ type ≤ 13) := by
  obtain ⟨_, script, rfl⟩ := buildItem_eq_some h
  rw [Item.lossless_iff_fits, kindFits_ofDef_iff]
  exact and_iff_left
    ⟨show (0 : BitVec 16).toNat < 512 by decide, show (0 : BitVec 8).toNat < 16 by decide⟩

/-- **When an item survives its words**: if and only if the type, the id, the gem and the grade
it is made from are in the ranges of the words. -/
theorem lossless_iff (env : Env) :
    (∀ row, (Item.ofRow row).Lossless ↔ row.KindFits ∧ row.RestFits) ∧
    (∀ item row loaded, Item.loadFromRow env item row = some loaded → (loaded.Lossless ↔
      (env.Builds (row.itemtype.setWidth 8) (row.itemid.setWidth 16) → row.KindFits) ∧
      (¬ env.Builds (row.itemtype.setWidth 8) (row.itemid.setWidth 16) → item.KindFits) ∧
      row.RestFits)) ∧
    ∀ type id life isAppraised built,
      buildItem env type id life isAppraised = some (some built) → (built.Lossless ↔
        type.toNat < 32 ∧ id.toNat < 1024 ∧ (life.toNat < 1024 ∨ 10 ≤ type ∧ type ≤ 13)) :=
  ⟨fun _ => lossless_ofRow_iff, fun _ _ _ h => lossless_loadFromRow_iff h,
    fun _ _ _ _ _ h => lossless_buildItem_iff h⟩

/-- Every item is defined, and its script loads. -/
def sampleEnv : Env where
  itemDef type id := some ⟨⟨type, id, ""⟩, rfl, rfl⟩
  scriptLoads _ := true

theorem lossless_sample :
    Item.Lossless { Item.ofDef ⟨1, 1023, ""⟩ with life_ := 1000, isAppraised_ := true } :=
  ((lossless_iff sampleEnv).2.2 1 1023 1000 true _ rfl).mpr (by decide)

/-- The id 1024 is shown as the id 0 with the gem 1. -/
theorem not_lossless_1024 :
    ¬ (Item.ofRow ⟨1024, 1, 1, 0, 0, 0⟩).Lossless ∧
      (Item.ofRow ⟨1024, 1, 1, 0, 0, 0⟩).getVisible =
        (Item.ofRow ⟨0, 1, 1, 0, 1, 0⟩).getVisible := by
  refine ⟨fun h => ?_, by decide⟩
  have hid := h.visible .id
  exact absurd hid (by decide)

end OsIrose.ItemWords

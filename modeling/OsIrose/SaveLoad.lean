/-
A load and a save right after it: `EntitySystem::loadCharacter` and `saveCharacter`
(`map/src/entitysystem.cpp`), with the `loadFromRow` and `commitToUpdate` of the components
and of `rosecommon/include/item.h`, at the widths of the columns and of the fields.

A column of `characters` survives if it fits into the field that it is read to
(`saveRow_eq_some_iff`); the fields of an `int32_t` are written to unsigned columns, and the
server refuses or cuts what is negative. Of `inventory`, a slot whose item has no id loses
its rows, be it that its script failed, and one whose item differs from one of its rows has
all of them written (`saveInventory_iff`). `Item(row)` is never stackable, so the rows of a
stackable item are always written.

`Characters` has the same two functions without the widths; on rows that fit, the two
agree (`saveInventory_eq_of_fits`).
-/
import OsIrose.Characters
import OsIrose.Significand

set_option autoImplicit false

namespace OsIrose.SaveLoad

open Inventory
open Characters (InventoryRow commitToUpdate commitToInsert At toDelete toInsert)

/-- What the load and the save have from outside: the scripts of the item definitions, by
type and id, whether they run, and the MySQL server. -/
structure Env where
  script : ℕ → ℕ → Option String
  scriptLoads : String → Bool
  /-- A value out of range is refused, not cut. -/
  strict : Bool
  /-- What a `bigint` column holds after a float has been written to it. -/
  writeFloat : ℤ → Option (BitVec 64)

/-! ## The row of the character -/

/-- The columns of `characters` that `saveCharacter` writes, with the defaults of the schema;
the others are `others`. -/
@[ext]
structure CharacterRow (U : Type) where
  level : BitVec 32 := 1
  job : Option (BitVec 32) := some 0
  clanid : BitVec 32 := 0
  clanContribution : BitVec 32 := 0
  factionid : BitVec 32 := 0
  factionRank : BitVec 32 := 0
  fame : BitVec 32 := 0
  factionFame1 : BitVec 32 := 0
  factionFame2 : BitVec 32 := 0
  factionPoints1 : BitVec 32 := 0
  factionPoints2 : BitVec 32 := 0
  factionPoints3 : BitVec 32 := 0
  exp : BitVec 64 := 0
  zuly : BitVec 32 := 0
  currentHp : BitVec 32 := 81
  currentMp : BitVec 32 := 55
  maxHp : BitVec 32 := 81
  maxMp : BitVec 32 := 55
  stamina : BitVec 32 := 0
  str : BitVec 32 := 10
  dex : BitVec 32 := 10
  int_ : BitVec 32 := 10
  con : BitVec 32 := 10
  charm : BitVec 32 := 10
  sense : BitVec 32 := 10
  statPoints : BitVec 32 := 0
  skillPoints : BitVec 32 := 0
  penaltyExp : Option (BitVec 64) := some 0
  /-- Signed, as are the next two. -/
  reviveMap : BitVec 32 := 1
  map : BitVec 32 := 1
  pkFlag : BitVec 32 := 0
  /-- Signed. -/
  x : BitVec 64 := 520000
  /-- Signed. -/
  y : BitVec 64 := 520000
  others : U

structure Position where
  /-- The values of the floats, which are integers after a load. -/
  x : ℤ
  y : ℤ
  map : BitVec 16
  spawn : BitVec 16

structure BasicInfo where
  level : BitVec 16
  xp : BitVec 32

structure Stats where
  maxHp : BitVec 32
  maxMp : BitVec 32
  str : BitVec 16
  dex : BitVec 16
  int_ : BitVec 16
  con : BitVec 16
  charm : BitVec 16
  sense : BitVec 16

structure AdvancedInfo where
  zuly : BitVec 64
  hp : BitVec 32
  mp : BitVec 32

structure CharacterInfo where
  job : BitVec 16
  statPoints : BitVec 32
  skillPoints : BitVec 32
  penaltyXp : BitVec 32
  factionId : BitVec 8
  factionRank : BitVec 8
  fame : BitVec 8
  factionFame₀ : BitVec 16
  factionFame₁ : BitVec 16
  factionPoints₀ : BitVec 16
  factionPoints₁ : BitVec 16
  factionPoints₂ : BitVec 16
  guildId : BitVec 32
  guildContribution : BitVec 16
  pkFlag : BitVec 16
  stamina : BitVec 16

variable {U : Type}

/-- The conversion from an integer to a `float`. -/
def toFloat (n : ℤ) : ℤ :=
  Significand.roundInt 24 n

def Position.loadFromRow (row : CharacterRow U) : Position where
  x := toFloat row.x.toInt
  y := toFloat row.y.toInt
  map := row.map.setWidth 16
  spawn := row.reviveMap.setWidth 16

def BasicInfo.loadFromRow (row : CharacterRow U) : BasicInfo where
  level := row.level.setWidth 16
  xp := row.exp.setWidth 32

def Stats.loadFromRow (row : CharacterRow U) : Stats where
  maxHp := row.maxHp
  maxMp := row.maxMp
  str := row.str.setWidth 16
  dex := row.dex.setWidth 16
  int_ := row.int_.setWidth 16
  con := row.con.setWidth 16
  charm := row.charm.setWidth 16
  sense := row.sense.setWidth 16

def AdvancedInfo.loadFromRow (row : CharacterRow U) : AdvancedInfo where
  zuly := row.zuly.setWidth 64
  hp := row.currentHp
  mp := row.currentMp

def CharacterInfo.loadFromRow (row : CharacterRow U) : CharacterInfo where
  -- NULL reads as 0
  job := (row.job.getD 0).setWidth 16
  statPoints := row.statPoints
  skillPoints := row.skillPoints
  penaltyXp := (row.penaltyExp.getD 0).setWidth 32
  factionId := row.factionid.setWidth 8
  factionRank := row.factionRank.setWidth 8
  fame := row.fame.setWidth 8
  factionFame₀ := row.factionFame1.setWidth 16
  factionFame₁ := row.factionFame2.setWidth 16
  factionPoints₀ := row.factionPoints1.setWidth 16
  factionPoints₁ := row.factionPoints2.setWidth 16
  factionPoints₂ := row.factionPoints3.setWidth 16
  guildId := row.clanid
  guildContribution := row.clanContribution.setWidth 16
  pkFlag := row.pkFlag.setWidth 16
  stamina := row.stamina.setWidth 16

/-- What an unsigned column of 32 bits holds after `v` has been written to it. -/
def Env.store (env : Env) (v : ℤ) : Option (BitVec 32) :=
  if v < 0 then if env.strict then none else some 0
  else if 2 ^ 32 ≤ v then if env.strict then none else some (BitVec.allOnes 32)
  else some (BitVec.ofInt 32 v)

/-! The fields of the UPDATE; one that is narrower than its column is stored as it is. -/

def Position.commitToUpdate (env : Env) (pos : Position) (row : CharacterRow U) :
    Option (CharacterRow U) := do
  let x ← env.writeFloat pos.x
  let y ← env.writeFloat pos.y
  return { row with x, y, map := pos.map.setWidth 32, reviveMap := pos.spawn.setWidth 32 }

def BasicInfo.commitToUpdate (basic : BasicInfo) (row : CharacterRow U) : CharacterRow U :=
  { row with level := basic.level.setWidth 32, exp := basic.xp.setWidth 64 }

def Stats.commitToUpdate (env : Env) (stats : Stats) (row : CharacterRow U) :
    Option (CharacterRow U) := do
  let maxHp ← env.store stats.maxHp.toInt
  let maxMp ← env.store stats.maxMp.toInt
  return { row with
    maxHp, maxMp
    str := stats.str.setWidth 32
    dex := stats.dex.setWidth 32
    int_ := stats.int_.setWidth 32
    con := stats.con.setWidth 32
    charm := stats.charm.setWidth 32
    sense := stats.sense.setWidth 32 }

def AdvancedInfo.commitToUpdate (env : Env) (advanced : AdvancedInfo) (row : CharacterRow U) :
    Option (CharacterRow U) := do
  let zuly ← env.store advanced.zuly.toNat
  let currentHp ← env.store advanced.hp.toInt
  let currentMp ← env.store advanced.mp.toInt
  return { row with zuly, currentHp, currentMp }

def CharacterInfo.commitToUpdate (info : CharacterInfo) (row : CharacterRow U) :
    CharacterRow U :=
  { row with
    job := some (info.job.setWidth 32)
    statPoints := info.statPoints
    skillPoints := info.skillPoints
    penaltyExp := some (info.penaltyXp.setWidth 64)
    factionid := info.factionId.setWidth 32
    factionRank := info.factionRank.setWidth 32
    fame := info.fame.setWidth 32
    factionFame1 := info.factionFame₀.setWidth 32
    factionFame2 := info.factionFame₁.setWidth 32
    factionPoints1 := info.factionPoints₀.setWidth 32
    factionPoints2 := info.factionPoints₁.setWidth 32
    factionPoints3 := info.factionPoints₂.setWidth 32
    clanid := info.guildId
    clanContribution := info.guildContribution.setWidth 32
    pkFlag := info.pkFlag.setWidth 32
    stamina := info.stamina.setWidth 32 }

/-- An entity with the components that `saveCharacter` reads. -/
structure Character where
  position : Position
  basic : BasicInfo
  stats : Stats
  advanced : AdvancedInfo
  info : CharacterInfo
  items : Items

/-- The UPDATE of the character's row; `none` if the server refuses it. -/
def saveRow (env : Env) (c : Character) (row : CharacterRow U) : Option (CharacterRow U) := do
  let row ← c.position.commitToUpdate env row
  let row ← c.stats.commitToUpdate env (c.basic.commitToUpdate row)
  let row ← c.advanced.commitToUpdate env row
  return c.info.commitToUpdate row

/-- Every column fits into its field, and comes back from it. -/
structure RowFits (env : Env) (row : CharacterRow U) : Prop where
  level : row.level.toNat < 2 ^ 16
  job : ∃ job, row.job = some job ∧ job.toNat < 2 ^ 16
  clanContribution : row.clanContribution.toNat < 2 ^ 16
  factionid : row.factionid.toNat < 2 ^ 8
  factionRank : row.factionRank.toNat < 2 ^ 8
  fame : row.fame.toNat < 2 ^ 8
  factionFame1 : row.factionFame1.toNat < 2 ^ 16
  factionFame2 : row.factionFame2.toNat < 2 ^ 16
  factionPoints1 : row.factionPoints1.toNat < 2 ^ 16
  factionPoints2 : row.factionPoints2.toNat < 2 ^ 16
  factionPoints3 : row.factionPoints3.toNat < 2 ^ 16
  exp : row.exp.toNat < 2 ^ 32
  currentHp : row.currentHp.toNat < 2 ^ 31
  currentMp : row.currentMp.toNat < 2 ^ 31
  maxHp : row.maxHp.toNat < 2 ^ 31
  maxMp : row.maxMp.toNat < 2 ^ 31
  stamina : row.stamina.toNat < 2 ^ 16
  str : row.str.toNat < 2 ^ 16
  dex : row.dex.toNat < 2 ^ 16
  int_ : row.int_.toNat < 2 ^ 16
  con : row.con.toNat < 2 ^ 16
  charm : row.charm.toNat < 2 ^ 16
  sense : row.sense.toNat < 2 ^ 16
  penaltyExp : ∃ exp, row.penaltyExp = some exp ∧ exp.toNat < 2 ^ 32
  reviveMap : row.reviveMap.toNat < 2 ^ 16
  map : row.map.toNat < 2 ^ 16
  pkFlag : row.pkFlag.toNat < 2 ^ 16
  x : env.writeFloat (toFloat row.x.toInt) = some row.x
  y : env.writeFloat (toFloat row.y.toInt) = some row.y

/-! ## A column and its field -/

/-- A column comes back from a narrower unsigned field if and only if it fits. -/
theorem setWidth_setWidth_iff {n w : ℕ} (v : BitVec n) :
    (v.setWidth w).setWidth n = v ↔ v.toNat < 2 ^ w := by
  rw [BitVec.toNat_inj.symm, BitVec.toNat_setWidth, BitVec.toNat_setWidth,
    Nat.mod_eq_of_lt (lt_of_le_of_lt (Nat.mod_le _ _) v.isLt)]
  exact Nat.mod_eq_iff_lt (Nat.two_pow_pos w).ne'

theorem setWidth_getD_iff {n w : ℕ} (v : Option (BitVec n)) :
    some (((v.getD 0).setWidth w).setWidth n) = v ↔ ∃ u, v = some u ∧ u.toNat < 2 ^ w := by
  cases v with
  | none => simp
  | some v => simp [setWidth_setWidth_iff]

/-- An `int32_t` in an unsigned column. -/
theorem store_toInt_iff (env : Env) (v : BitVec 32) :
    env.store v.toInt = some v ↔ v.toNat < 2 ^ 31 := by
  have hlt := v.isLt
  rw [Env.store]
  by_cases h : v.toNat < 2 ^ 31
  · rw [BitVec.toInt_eq_toNat_of_lt (by omega), if_neg (by omega), if_neg (by omega),
      BitVec.ofInt_natCast, BitVec.ofNat_toNat, BitVec.setWidth_eq]
    exact iff_of_true rfl h
  · -- a negative value is refused, or cut to 0
    have hneg : v.toInt < 0 := by
      rw [BitVec.toInt_eq_toNat_cond, if_neg (by omega)]
      omega
    rw [if_pos hneg]
    refine iff_of_false ?_ h
    split_ifs
    · simp
    · intro hzero
      obtain rfl := Option.some.inj hzero
      exact h (by decide)

/-- A field of 64 bits holds every column of 32. -/
theorem store_setWidth (env : Env) (v : BitVec 32) :
    env.store (v.setWidth 64).toNat = some v := by
  have hnat : ((v.setWidth 64).toNat : ℤ) = v.toNat := by
    rw [BitVec.toNat_setWidth_of_le (by decide)]
  -- neither refused nor cut
  have hlt : (v.toNat : ℤ) < 2 ^ 32 := by exact_mod_cast v.isLt
  rw [hnat, Env.store, if_neg (by omega), if_neg (by omega), BitVec.ofInt_natCast,
    BitVec.ofNat_toNat, BitVec.setWidth_eq]

/-- A coordinate of no more than 24 bits comes back if its text does. -/
theorem writeFloat_toFloat {env : Env} {v : BitVec 64} (hlt : v.toInt.natAbs < 2 ^ 24)
    (hwrite : env.writeFloat v.toInt = some v) : env.writeFloat (toFloat v.toInt) = some v := by
  rw [toFloat, Significand.roundInt_of_lt hlt]
  exact hwrite

/-- The components of an entity loaded from a row. -/
def loadRow (row : CharacterRow U) (items : Items) : Character where
  position := Position.loadFromRow row
  basic := BasicInfo.loadFromRow row
  stats := Stats.loadFromRow row
  advanced := AdvancedInfo.loadFromRow row
  info := CharacterInfo.loadFromRow row
  items := items

/-- **The row of a character** comes back from a load and a save if and only if it fits. -/
theorem saveRow_eq_some_iff (env : Env) (row : CharacterRow U) (items : Items) :
    saveRow env (loadRow row items) row = some row ↔ RowFits env row := by
  have hcol : ∀ {n w : ℕ} (v : BitVec n), (v.setWidth w).setWidth n = v → v.toNat < 2 ^ w :=
    fun v => (setWidth_setWidth_iff v).mp
  constructor
  · -- each column of the row that was written is read off in turn
    intro h
    simp only [saveRow, loadRow, Position.commitToUpdate, Stats.commitToUpdate,
      AdvancedInfo.commitToUpdate, Option.bind_eq_bind, Option.pure_def,
      Option.bind_eq_some_iff, Option.some.injEq] at h
    obtain ⟨_, ⟨x, hx, y, hy, rfl⟩, _, ⟨maxHp, hmaxHp, maxMp, hmaxMp, rfl⟩, _,
      ⟨zuly, hzuly, hp, hcurrentHp, mp, hcurrentMp, rfl⟩, h⟩ := h
    exact {
      level := hcol row.level (congrArg CharacterRow.level h)
      job := (setWidth_getD_iff row.job).mp (congrArg CharacterRow.job h)
      clanContribution := hcol row.clanContribution (congrArg CharacterRow.clanContribution h)
      factionid := hcol row.factionid (congrArg CharacterRow.factionid h)
      factionRank := hcol row.factionRank (congrArg CharacterRow.factionRank h)
      fame := hcol row.fame (congrArg CharacterRow.fame h)
      factionFame1 := hcol row.factionFame1 (congrArg CharacterRow.factionFame1 h)
      factionFame2 := hcol row.factionFame2 (congrArg CharacterRow.factionFame2 h)
      factionPoints1 := hcol row.factionPoints1 (congrArg CharacterRow.factionPoints1 h)
      factionPoints2 := hcol row.factionPoints2 (congrArg CharacterRow.factionPoints2 h)
      factionPoints3 := hcol row.factionPoints3 (congrArg CharacterRow.factionPoints3 h)
      exp := hcol row.exp (congrArg CharacterRow.exp h)
      currentHp := (store_toInt_iff env row.currentHp).mp
        (hcurrentHp.trans (congrArg some (congrArg CharacterRow.currentHp h)))
      currentMp := (store_toInt_iff env row.currentMp).mp
        (hcurrentMp.trans (congrArg some (congrArg CharacterRow.currentMp h)))
      maxHp := (store_toInt_iff env row.maxHp).mp
        (hmaxHp.trans (congrArg some (congrArg CharacterRow.maxHp h)))
      maxMp := (store_toInt_iff env row.maxMp).mp
        (hmaxMp.trans (congrArg some (congrArg CharacterRow.maxMp h)))
      stamina := hcol row.stamina (congrArg CharacterRow.stamina h)
      str := hcol row.str (congrArg CharacterRow.str h)
      dex := hcol row.dex (congrArg CharacterRow.dex h)
      int_ := hcol row.int_ (congrArg CharacterRow.int_ h)
      con := hcol row.con (congrArg CharacterRow.con h)
      charm := hcol row.charm (congrArg CharacterRow.charm h)
      sense := hcol row.sense (congrArg CharacterRow.sense h)
      penaltyExp := (setWidth_getD_iff row.penaltyExp).mp (congrArg CharacterRow.penaltyExp h)
      reviveMap := hcol row.reviveMap (congrArg CharacterRow.reviveMap h)
      map := hcol row.map (congrArg CharacterRow.map h)
      pkFlag := hcol row.pkFlag (congrArg CharacterRow.pkFlag h)
      x := hx.trans (congrArg some (congrArg CharacterRow.x h))
      y := hy.trans (congrArg some (congrArg CharacterRow.y h)) }
  · intro h
    simp only [saveRow, loadRow, Position.commitToUpdate, Position.loadFromRow, h.x, h.y,
      BasicInfo.commitToUpdate, BasicInfo.loadFromRow, Stats.commitToUpdate, Stats.loadFromRow,
      (store_toInt_iff env row.maxHp).mpr h.maxHp, (store_toInt_iff env row.maxMp).mpr h.maxMp,
      AdvancedInfo.commitToUpdate, AdvancedInfo.loadFromRow, store_setWidth,
      (store_toInt_iff env row.currentHp).mpr h.currentHp,
      (store_toInt_iff env row.currentMp).mpr h.currentMp,
      CharacterInfo.commitToUpdate, CharacterInfo.loadFromRow, Option.bind_eq_bind,
      Option.bind_some, Option.pure_def]
    have hcol' : ∀ {n w : ℕ} {v : BitVec n}, v.toNat < 2 ^ w → (v.setWidth w).setWidth n = v :=
      fun {_ _} {v} => (setWidth_setWidth_iff v).mpr
    exact congrArg some (CharacterRow.ext (hcol' h.level) ((setWidth_getD_iff row.job).mpr h.job)
      rfl (hcol' h.clanContribution) (hcol' h.factionid) (hcol' h.factionRank) (hcol' h.fame)
      (hcol' h.factionFame1) (hcol' h.factionFame2) (hcol' h.factionPoints1)
      (hcol' h.factionPoints2) (hcol' h.factionPoints3) (hcol' h.exp) rfl rfl rfl rfl rfl
      (hcol' h.stamina) (hcol' h.str) (hcol' h.dex) (hcol' h.int_) (hcol' h.con) (hcol' h.charm)
      (hcol' h.sense) rfl rfl ((setWidth_getD_iff row.penaltyExp).mpr h.penaltyExp)
      (hcol' h.reviveMap) (hcol' h.map) (hcol' h.pkFlag) rfl rfl rfl)

/-! ## The inventory -/

/-- `InventorySystem::buildItem`: what a slot holds that held `item`; `none` if there is no
definition. `ItemDatabase` keeps a definition under its own type and id. -/
def buildItem (env : Env) (item : Item) (type id : ℕ) : Option Item :=
  (env.script type id).map (fun script =>
    -- an item whose script does not load leaves the old one
    if env.scriptLoads script then
      { type := type
        id := id
        life := 1000
        isAppraised := true
        count := 1
        isStackable := 10 ≤ type ∧ type ≤ 13 }
    else item)

/-- `Item::loadFromRow(row, builder)`. -/
def loadFromRow (env : Env) (item : Item) (row : InventoryRow) : Option Item :=
  (buildItem env item (row.itemtype % 256) (row.itemid % 65536)).map (fun item =>
    { item with
      count := row.amount
      refine := row.refine
      gemOpt := row.gemOpt % 65536
      hasSocket := row.socket ≠ 0 })

/-- `Inventory::loadFromResult`. -/
def loadFromResult (env : Env) : Items → List InventoryRow → Option Items
  | items, [] => some items
  | items, row :: rows =>
      if row.slot ≥ maxItems then loadFromResult env items rows
      else (loadFromRow env (items row.slot) row).bind (fun item =>
        loadFromResult env (Function.update items row.slot item) rows)

/-- `Item::loadFromRow(row)`, of a default item. -/
def ofRow (row : InventoryRow) : Item where
  type := row.itemtype % 256
  id := row.itemid % 65536
  life := 1000
  isAppraised := true
  count := row.amount
  refine := row.refine
  gemOpt := row.gemOpt % 65536
  hasSocket := row.socket ≠ 0

def toUpdate (rows : List InventoryRow) (charId : ℕ) (items : Items) : List ℕ :=
  (rows.filter (fun row => row.charId = charId ∧ row.slot < maxItems ∧
    (items row.slot).toBool ∧ items row.slot ≠ ofRow row)).map InventoryRow.slot

/-- The part of `saveCharacter` that writes `inventory`. -/
def saveInventory (rows : List InventoryRow) (charId : ℕ) (items : Items) :
    List InventoryRow :=
  let kept := (toDelete rows charId items).foldl (fun rows it =>
    Rows.delete (At charId it) rows) rows
  let updated := (toUpdate rows charId items).foldl (fun rows it =>
    Rows.update (At charId it) (commitToUpdate (items it)) rows) kept
  updated ++ (toInsert rows charId items).map (fun it => commitToInsert (items it) charId it)

/-- The columns of a row fit into the fields of an item. -/
structure Fits (row : InventoryRow) : Prop where
  itemid : row.itemid < 65536
  itemtype : row.itemtype < 256
  gemOpt : row.gemOpt < 65536
  socket : row.socket ≤ 1

theorem ofRow_of_fits {row : InventoryRow} (h : Fits row) : ofRow row = Characters.ofRow row := by
  simp [ofRow, Characters.ofRow, Nat.mod_eq_of_lt h.itemid, Nat.mod_eq_of_lt h.itemtype,
    Nat.mod_eq_of_lt h.gemOpt]

/-- Where the rows fit, `saveCharacter` is that of `Characters`. -/
theorem saveInventory_eq_of_fits {rows : List InventoryRow} {charId : ℕ} (items : Items)
    (h : ∀ row ∈ rows, row.charId = charId → Fits row) :
    saveInventory rows charId items = Characters.saveInventory rows charId items := by
  have hupdate : toUpdate rows charId items = Characters.toUpdate rows charId items := by
    refine congrArg (List.map InventoryRow.slot) (List.filter_congr fun row hrow => ?_)
    by_cases hchar : row.charId = charId
    · rw [ofRow_of_fits (h row hrow hchar)]
    · simp [hchar]
  rw [saveInventory, Characters.saveInventory, hupdate]

/-- The script of the item runs. -/
def ScriptRuns (env : Env) (type id : ℕ) : Prop :=
  ∃ script, env.script type id = some script ∧ env.scriptLoads script = true

/-- The rows of a character come back from a load and a save: the item of every slot is
there, all rows of a slot give it, and what is written for a stackable one is what was
there. -/
structure InventoryFits (env : Env) (rows : List InventoryRow) (charId : ℕ) : Prop where
  slot : ∀ row ∈ rows, row.charId = charId → row.slot < maxItems
  itemid : ∀ row ∈ rows, row.charId = charId → row.itemid % 65536 ≠ 0
  script : ∀ row ∈ rows, row.charId = charId →
    ScriptRuns env (row.itemtype % 256) (row.itemid % 65536)
  same : ∀ row ∈ rows, ∀ row' ∈ rows, row.charId = charId → row'.charId = charId →
    row.slot = row'.slot → ofRow row = ofRow row'
  stackable : ∀ row ∈ rows, row.charId = charId →
    10 ≤ row.itemtype % 256 ∧ row.itemtype % 256 ≤ 13 → Fits row

/-! ## The items after a load -/

/-- What a slot can hold after a load. -/
structure Built (env : Env) (item : Item) : Prop where
  id_lt : item.id < 65536
  type_lt : item.type < 256
  gemOpt_lt : item.gemOpt < 65536
  script : item.id ≠ 0 → ScriptRuns env item.type item.id
  isStackable : item.id ≠ 0 → (item.isStackable = true ↔ 10 ≤ item.type ∧ item.type ≤ 13)

def noItems : Items := fun _ => {}

theorem built_noItems (env : Env) (slot : ℕ) : Built env (noItems slot) where
  id_lt := Nat.zero_lt_succ _
  type_lt := Nat.zero_lt_succ _
  gemOpt_lt := Nat.zero_lt_succ _
  script := fun h => absurd rfl h
  isStackable := fun h => absurd rfl h

theorem built_loadFromRow {env : Env} {item item' : Item} {row : InventoryRow}
    (hitem : Built env item) (h : loadFromRow env item row = some item') : Built env item' := by
  simp only [loadFromRow, buildItem, Option.map_map, Option.map_eq_some_iff,
    Function.comp_apply] at h
  obtain ⟨script, hscript, rfl⟩ := h
  split_ifs with hloads
  · exact {
      id_lt := Nat.mod_lt _ (by decide)
      type_lt := Nat.mod_lt _ (by decide)
      gemOpt_lt := Nat.mod_lt _ (by decide)
      script := fun _ => ⟨script, hscript, hloads⟩
      isStackable := fun _ => decide_eq_true_iff }
  · -- the old item, with the columns of the row
    exact { hitem with gemOpt_lt := Nat.mod_lt _ (by decide) }

theorem built_loadFromResult {env : Env} {items items' : Items} {rows : List InventoryRow}
    (hitems : ∀ slot, Built env (items slot)) (h : loadFromResult env items rows = some items')
    (slot : ℕ) : Built env (items' slot) := by
  induction rows generalizing items with
  | nil => exact Option.some.inj h ▸ hitems slot
  | cons row rows ih =>
      rw [loadFromResult] at h
      split_ifs at h
      · exact ih hitems h
      · obtain ⟨item, hitem, h⟩ := Option.bind_eq_some_iff.mp h
        refine ih (fun slot' => ?_) h
        rw [Function.update_apply]
        split_ifs
        · exact built_loadFromRow (hitems row.slot) hitem
        · exact hitems slot'

/-- A slot without a row stays as it was. -/
theorem loadFromResult_of_ne {env : Env} {items items' : Items} {rows : List InventoryRow}
    (h : loadFromResult env items rows = some items') {slot : ℕ}
    (hslot : ∀ row ∈ rows, row.slot ≠ slot) : items' slot = items slot := by
  induction rows generalizing items with
  | nil => exact congrFun (Option.some.inj h).symm slot
  | cons row rows ih =>
      obtain ⟨hrow, hrows⟩ := List.forall_mem_cons.mp hslot
      rw [loadFromResult] at h
      split_ifs at h
      · exact ih h hrows
      · obtain ⟨item, _, h⟩ := Option.bind_eq_some_iff.mp h
        exact (ih h hrows).trans (Function.update_of_ne hrow.symm _ _)

/-- A slot whose rows agree holds the item they give. -/
theorem loadFromResult_of_same {env : Env} {items items' : Items} {rows : List InventoryRow}
    (h : loadFromResult env items rows = some items') {slot : ℕ} (hslot : slot < maxItems)
    {item : Item} (hsame : ∀ row ∈ rows, row.slot = slot → ofRow row = item)
    (hruns : ScriptRuns env item.type item.id) (hrow : ∃ row ∈ rows, row.slot = slot) :
    items' slot = { item with isStackable := 10 ≤ item.type ∧ item.type ≤ 13 } := by
  induction rows generalizing items with
  | nil =>
      obtain ⟨_, hmem, _⟩ := hrow
      exact absurd hmem List.not_mem_nil
  | cons row rows ih =>
      obtain ⟨hhead, htail⟩ := List.forall_mem_cons.mp hsame
      rw [loadFromResult] at h
      by_cases hrest : ∃ row ∈ rows, row.slot = slot
      · split_ifs at h
        · exact ih h htail hrest
        · obtain ⟨_, _, h⟩ := Option.bind_eq_some_iff.mp h
          exact ih h htail hrest
      · -- the head is the last row of the slot
        push Not at hrest
        have hat : row.slot = slot := by
          obtain ⟨row', hmem, hat⟩ := hrow
          obtain rfl | hmem := List.mem_cons.mp hmem
          · exact hat
          · exact absurd hat (hrest row' hmem)
        rw [if_neg (by omega)] at h
        obtain ⟨item', hitem', h⟩ := Option.bind_eq_some_iff.mp h
        rw [loadFromResult_of_ne h hrest, ← hat, Function.update_self]
        obtain ⟨script, hscript, hloads⟩ := hruns
        obtain rfl := hhead hat
        have hdef : env.script (row.itemtype % 256) (row.itemid % 65536) = some script := hscript
        rw [loadFromRow, buildItem, hdef, Option.map_some, Option.map_some, if_pos hloads] at hitem'
        exact (Option.some.inj hitem').symm

/-! ## What a save leaves -/

section Save

variable {env : Env} {rows : List InventoryRow} {charId : ℕ} {items : Items}

theorem mem_toUpdate {slot : ℕ} :
    slot ∈ toUpdate rows charId items ↔
      slot < maxItems ∧ (items slot).toBool ∧
        ∃ row ∈ rows, At charId slot row ∧ items slot ≠ ofRow row := by
  simp only [toUpdate, List.mem_map, List.mem_filter, decide_eq_true_eq, At]
  constructor
  · rintro ⟨row, ⟨hrow, hchar, hslot, hitem, hne⟩, rfl⟩
    exact ⟨hslot, hitem, row, hrow, ⟨hchar, rfl⟩, hne⟩
  · rintro ⟨hslot, hitem, row, hrow, ⟨hchar, rfl⟩, hne⟩
    exact ⟨row, ⟨hrow, hchar, hslot, hitem, hne⟩, rfl⟩

theorem mem_saveInventory {row : InventoryRow} :
    row ∈ saveInventory rows charId items ↔
      (∃ old ∈ rows, (∀ k ∈ toDelete rows charId items, ¬ At charId k old) ∧
        ((∃ k ∈ toUpdate rows charId items, At charId k old ∧ row = commitToUpdate (items k) old) ∨
          (∀ k ∈ toUpdate rows charId items, ¬ At charId k old) ∧ row = old)) ∨
      ∃ k ∈ toInsert rows charId items, commitToInsert (items k) charId k = row :=
  Rows.mem_delete_update_insert (At charId) (fun k => commitToUpdate (items k))
    (fun _ _ _ h h' => h.2.symm.trans h'.2) (fun _ _ _ => Iff.rfl) (fun _ _ => rfl) _ _ _ _ _ _

/-- A row that is there before and after a save is one of a slot with an item, and it gives
the item or is what is written of it. -/
theorem item_of_saved {row : InventoryRow} (hrow : row ∈ rows) (hchar : row.charId = charId)
    (hsaved : row ∈ saveInventory rows charId items) :
    (row.slot < maxItems ∧ (items row.slot).toBool) ∧
      (items row.slot = ofRow row ∨ ∃ old, row = commitToUpdate (items row.slot) old) := by
  rcases mem_saveInventory.mp hsaved with ⟨old, hold, hkept, hsame⟩ | ⟨k, hk, rfl⟩
  · have hat : At charId row.slot old := by
      rcases hsame with ⟨k, -, -, rfl⟩ | ⟨-, rfl⟩
      · exact ⟨hchar, rfl⟩
      · exact ⟨hchar, rfl⟩
    have hslot : row.slot < maxItems ∧ (items row.slot).toBool := by
      by_contra hgone
      exact hkept row.slot (Characters.mem_toDelete.mpr ⟨⟨old, hold, hat⟩, hgone⟩) hat
    refine ⟨hslot, ?_⟩
    rcases hsame with ⟨k, -, hk, hupdated⟩ | ⟨hsame, rfl⟩
    · obtain rfl : row.slot = k := hat.2.symm.trans hk.2
      exact Or.inr ⟨old, hupdated⟩
    · refine Or.inl ?_
      by_contra hne
      exact hsame row.slot (mem_toUpdate.mpr ⟨hslot.1, hslot.2, row, hold, hat, hne⟩) hat
  · -- nothing is inserted for a slot that has a row
    exact absurd ⟨hchar, rfl⟩ ((Characters.mem_toInsert.mp hk).2.2 _ hrow)

/-- The columns written of an item that was loaded fit. -/
theorem fits_commitToUpdate {item : Item} (h : Built env item) (old : InventoryRow) :
    Fits (commitToUpdate item old) where
  itemid := h.id_lt
  itemtype := h.type_lt
  gemOpt := h.gemOpt_lt
  socket := by
    simp only [commitToUpdate]
    split_ifs <;> decide

/-- Either way the row gives what is kept of the item. -/
theorem ofRow_of_saved {row : InventoryRow} (h : Built env (items row.slot))
    (hsame : items row.slot = ofRow row ∨ ∃ old, row = commitToUpdate (items row.slot) old) :
    ofRow row = Characters.keptItem (items row.slot) := by
  rcases hsame with hsame | ⟨old, hupdated⟩
  · rw [hsame]
    rfl
  · have hfits : Fits row := hupdated ▸ fits_commitToUpdate h old
    rw [ofRow_of_fits hfits]
    conv_lhs => rw [hupdated]
    exact Characters.ofRow_commitToUpdate _ old

/-- What a save leaves alone fits. -/
theorem inventoryFits_of_saved (hitems : ∀ slot, Built env (items slot))
    (h : ∀ row ∈ rows, row.charId = charId → row ∈ saveInventory rows charId items) :
    InventoryFits env rows charId := by
  have hitem : ∀ row ∈ rows, row.charId = charId →
      ofRow row = Characters.keptItem (items row.slot) ∧ (items row.slot).id ≠ 0 := by
    intro row hrow hchar
    obtain ⟨hslot, hsame⟩ := item_of_saved hrow hchar (h row hrow hchar)
    exact ⟨ofRow_of_saved (hitems row.slot) hsame, of_decide_eq_true hslot.2⟩
  -- the type and the id of the row are those of the item, whose script ran
  have hid : ∀ {row : InventoryRow}, ofRow row = Characters.keptItem (items row.slot) →
      row.itemid % 65536 = (items row.slot).id := congrArg Item.id
  have htype : ∀ {row : InventoryRow}, ofRow row = Characters.keptItem (items row.slot) →
      row.itemtype % 256 = (items row.slot).type := congrArg Item.type
  refine ⟨fun row hrow hchar => ?_, fun row hrow hchar => ?_, fun row hrow hchar => ?_,
    fun row hrow row' hrow' hchar hchar' hslot => ?_, fun row hrow hchar hstackable => ?_⟩
  · exact (item_of_saved hrow hchar (h row hrow hchar)).1.1
  · obtain ⟨hkept, hne⟩ := hitem row hrow hchar
    rwa [hid hkept]
  · obtain ⟨hkept, hne⟩ := hitem row hrow hchar
    rw [hid hkept, htype hkept]
    exact (hitems row.slot).script hne
  · rw [(hitem row hrow hchar).1, (hitem row' hrow' hchar').1, hslot]
  · -- the row of a stackable item is always written
    obtain ⟨hkept, hne⟩ := hitem row hrow hchar
    rw [htype hkept] at hstackable
    have htrue := ((hitems row.slot).isStackable hne).mpr hstackable
    obtain ⟨_, hsame | ⟨old, hupdated⟩⟩ := item_of_saved hrow hchar (h row hrow hchar)
    · rw [hsame] at htrue
      exact absurd htrue (by simp [ofRow])
    · exact hupdated ▸ fits_commitToUpdate (hitems row.slot) old

/-- What is written of the item that a row gives is the row, if the row fits. -/
theorem commitToUpdate_ofRow {row : InventoryRow} (h : Fits row) (isStackable : Bool) :
    commitToUpdate { ofRow row with isStackable := isStackable } row = row := by
  have hsocket : (if row.socket ≠ 0 then 1 else 0) = row.socket := by
    have := h.socket
    split_ifs <;> omega
  simp [commitToUpdate, ofRow, Nat.mod_eq_of_lt h.itemid, Nat.mod_eq_of_lt h.itemtype,
    Nat.mod_eq_of_lt h.gemOpt, hsocket]

/-- The item of a slot whose rows fit. -/
theorem item_of_fits (hload : loadFromResult env noItems
      (rows.filter (fun row => row.charId = charId)) = some items)
    (h : InventoryFits env rows charId) {row : InventoryRow} (hrow : row ∈ rows)
    (hchar : row.charId = charId) :
    items row.slot = { ofRow row with
      isStackable := 10 ≤ row.itemtype % 256 ∧ row.itemtype % 256 ≤ 13 } := by
  refine loadFromResult_of_same hload (h.slot row hrow hchar) (fun row' hrow' hslot => ?_)
    (h.script row hrow hchar) ⟨row, List.mem_filter.mpr ⟨hrow, decide_eq_true hchar⟩, rfl⟩
  obtain ⟨hrow', hchar'⟩ := List.mem_filter.mp hrow'
  exact h.same row' hrow' row hrow (of_decide_eq_true hchar') hchar hslot

/-- Rows that fit are left as they were. -/
theorem saveInventory_of_fits (hload : loadFromResult env noItems
      (rows.filter (fun row => row.charId = charId)) = some items)
    (h : InventoryFits env rows charId) : saveInventory rows charId items = rows := by
  have hdelete : toDelete rows charId items = [] := by
    refine List.eq_nil_iff_forall_not_mem.mpr fun slot hslot => ?_
    obtain ⟨⟨row, hrow, hchar, rfl⟩, hgone⟩ := Characters.mem_toDelete.mp hslot
    refine hgone ⟨h.slot row hrow hchar, decide_eq_true ?_⟩
    rw [item_of_fits hload h hrow hchar]
    exact h.itemid row hrow hchar
  have hinsert : toInsert rows charId items = [] := by
    refine List.eq_nil_iff_forall_not_mem.mpr fun slot hslot => ?_
    obtain ⟨_, hitem, hnone⟩ := Characters.mem_toInsert.mp hslot
    -- a slot without a row is empty after the load
    have hempty : items slot = {} := by
      refine loadFromResult_of_ne hload fun row hrow hat => ?_
      obtain ⟨hrow, hchar⟩ := List.mem_filter.mp hrow
      exact hnone row hrow ⟨of_decide_eq_true hchar, hat⟩
    rw [hempty] at hitem
    exact absurd hitem (by decide)
  have hupdate : ∀ k ∈ toUpdate rows charId items, ∀ row ∈ rows, At charId k row →
      commitToUpdate (items k) row = row := by
    rintro k hk row hrow ⟨hchar, rfl⟩
    obtain ⟨_, _, row', hrow', ⟨hchar', hslot⟩, hne⟩ := mem_toUpdate.mp hk
    have hitem := item_of_fits hload h hrow hchar
    have hsame := h.same row' hrow' row hrow hchar' hchar hslot
    -- only the mark of a stackable item tells the item from the row
    by_cases hstackable : 10 ≤ row.itemtype % 256 ∧ row.itemtype % 256 ≤ 13
    · rw [hitem]
      exact commitToUpdate_ofRow (h.stackable row hrow hchar hstackable) _
    · refine absurd ?_ hne
      rw [hitem, hsame, decide_eq_false hstackable]
      rfl
  rw [saveInventory, hdelete, hinsert, List.foldl_nil, List.map_nil, List.append_nil]
  exact Rows.foldl_update_eq_self (At charId) hupdate

end Save

/-! ## `loadCharacter` and `saveCharacter` -/

structure Tables (U : Type) where
  /-- By `id`, the primary key. -/
  characters : ℕ → Option (CharacterRow U)
  inventory : List InventoryRow

/-- `EntitySystem::loadCharacter`; `none` if there is no character, or a definition is
missing. -/
def loadCharacter (env : Env) (t : Tables U) (charId : ℕ) : Option Character := do
  let row ← t.characters charId
  let items ← loadFromResult env noItems (t.inventory.filter (fun row => row.charId = charId))
  return loadRow row items

/-- `EntitySystem::saveCharacter`; `none` if a statement throws. -/
def saveCharacter (env : Env) (t : Tables U) (charId : ℕ) (c : Character) :
    Option (Tables U) := do
  let characters ← match t.characters charId with
    | none => some t.characters
    | some row => (saveRow env c row).map (fun row =>
        Function.update t.characters charId (some row))
  return { characters, inventory := saveInventory t.inventory charId c.items }

/-- The row of the character and its rows in the inventory are as they were. -/
def Unchanged (t t' : Tables U) (charId : ℕ) : Prop :=
  t'.characters charId = t.characters charId ∧
    t'.inventory.filter (fun row => row.charId = charId) =
      t.inventory.filter (fun row => row.charId = charId)

/-- The columns of the character's row fit into the fields, and so does its inventory. -/
def Survives (env : Env) (t : Tables U) (charId : ℕ) : Prop :=
  (∀ row, t.characters charId = some row → RowFits env row) ∧
    InventoryFits env t.inventory charId

section LoadSave

variable {env : Env} {t : Tables U} {charId : ℕ} {c : Character}

theorem loadCharacter_eq_some (h : loadCharacter env t charId = some c) :
    ∃ row items, t.characters charId = some row ∧
      loadFromResult env noItems (t.inventory.filter (fun row => row.charId = charId)) =
        some items ∧ c = loadRow row items := by
  simp only [loadCharacter, Option.bind_eq_bind, Option.bind_eq_some_iff, Option.pure_def,
    Option.some.injEq] at h
  obtain ⟨row, hrow, items, hitems, rfl⟩ := h
  exact ⟨row, items, hrow, hitems, rfl⟩

/-- What survives is saved as it was, whatever else the tables hold. -/
theorem saveCharacter_of_survives (h : loadCharacter env t charId = some c)
    (hs : Survives env t charId) : saveCharacter env t charId c = some t := by
  obtain ⟨row, items, hrow, hitems, rfl⟩ := loadCharacter_eq_some h
  have hsave := (saveRow_eq_some_iff env row items).mpr (hs.1 row hrow)
  have hinventory : saveInventory t.inventory charId (loadRow row items).items = t.inventory :=
    saveInventory_of_fits hitems hs.2
  have hsame : Function.update t.characters charId (some row) = t.characters := by
    rw [← hrow, Function.update_eq_self]
  simp only [saveCharacter, hrow, hsave, hinventory, Option.map_some, hsame, Option.bind_eq_bind,
    Option.bind_some, Option.pure_def]

/-- **A load and a save change nothing** of a character if and only if every column fits
into its field and the item of every row is there after the load. -/
theorem unchanged_iff (h : loadCharacter env t charId = some c) :
    (∃ t', saveCharacter env t charId c = some t' ∧ Unchanged t t' charId) ↔
      Survives env t charId := by
  refine ⟨?_, fun hs => ⟨t, saveCharacter_of_survives h hs, rfl, rfl⟩⟩
  rintro ⟨t', hsave, hcharacters, hinventory⟩
  obtain ⟨row, items, hrow, hitems, rfl⟩ := loadCharacter_eq_some h
  simp only [saveCharacter, hrow, Option.bind_eq_bind, Option.bind_eq_some_iff, Option.pure_def,
    Option.some.injEq, Option.map_eq_some_iff] at hsave
  obtain ⟨_, ⟨row', hrow', rfl⟩, rfl⟩ := hsave
  constructor
  · intro row'' hrow''
    obtain rfl := Option.some.inj (hrow.symm.trans hrow'')
    simp only [Function.update_self, hrow, Option.some.injEq] at hcharacters
    exact (saveRow_eq_some_iff env row items).mp (hcharacters ▸ hrow')
  · -- a row of the character that is there after the save was there before
    refine inventoryFits_of_saved (built_loadFromResult (built_noItems env) hitems)
      fun row'' hrow'' hchar => ?_
    have hmem : row'' ∈ t.inventory.filter (fun row => row.charId = charId) :=
      List.mem_filter.mpr ⟨hrow'', decide_eq_true hchar⟩
    rw [← hinventory] at hmem
    exact (List.mem_filter.mp hmem).1

end LoadSave

/-! ## An item whose script fails -/

/-- A server on which every item is defined and floats are stored as they are. -/
def sampleEnv (scriptLoads : Bool) : Env where
  script _ _ := some ""
  scriptLoads _ := scriptLoads
  strict := true
  writeFloat v := some (BitVec.ofInt 64 v)

/-- A new character with one item. -/
def sampleTables : Tables Unit where
  characters := Function.update (fun _ => none) 1 (some { others := () })
  inventory := [commitToInsert { type := 1, id := 5, count := 1 } 1 12]

theorem survives_sample : Survives (sampleEnv true) sampleTables 1 := by
  constructor
  · intro row hrow
    obtain rfl := Option.some.inj hrow
    exact {
      level := by decide
      job := ⟨0, rfl, by decide⟩
      clanContribution := by decide
      factionid := by decide
      factionRank := by decide
      fame := by decide
      factionFame1 := by decide
      factionFame2 := by decide
      factionPoints1 := by decide
      factionPoints2 := by decide
      factionPoints3 := by decide
      exp := by decide
      currentHp := by decide
      currentMp := by decide
      maxHp := by decide
      maxMp := by decide
      stamina := by decide
      str := by decide
      dex := by decide
      int_ := by decide
      con := by decide
      charm := by decide
      sense := by decide
      penaltyExp := ⟨0, rfl, by decide⟩
      reviveMap := by decide
      map := by decide
      pkFlag := by decide
      x := writeFloat_toFloat (by decide) rfl
      y := writeFloat_toFloat (by decide) rfl }
  · refine ⟨fun row hrow _ => ?_, fun row hrow _ => ?_, fun row hrow _ => ?_,
      fun row hrow row' hrow' _ _ _ => ?_, fun row hrow _ => ?_⟩ <;>
      obtain rfl := List.mem_singleton.mp hrow
    · decide
    · decide
    · exact ⟨"", rfl, rfl⟩
    · obtain rfl := List.mem_singleton.mp hrow'
      rfl
    · exact fun h => absurd h (by decide)

theorem unchanged_sample : ∃ c, loadCharacter (sampleEnv true) sampleTables 1 = some c ∧
    ∃ t', saveCharacter (sampleEnv true) sampleTables 1 c = some t' ∧
      Unchanged sampleTables t' 1 := by
  obtain ⟨c, hload⟩ : ∃ c, loadCharacter (sampleEnv true) sampleTables 1 = some c := ⟨_, rfl⟩
  exact ⟨c, hload, (unchanged_iff hload).mpr survives_sample⟩

/-- The row of the item is deleted if the script of the item fails. -/
theorem not_unchanged_sample :
    ¬ ∀ (env : Env) (t : Tables Unit) (charId : ℕ) (c : Character),
      loadCharacter env t charId = some c →
        ∃ t', saveCharacter env t charId c = some t' ∧ Unchanged t t' charId := by
  intro h
  obtain ⟨c, hload, t', hsave', hgone⟩ :
      ∃ c, loadCharacter (sampleEnv false) sampleTables 1 = some c ∧
        ∃ t', saveCharacter (sampleEnv false) sampleTables 1 c = some t' ∧ t'.inventory = [] :=
    ⟨_, rfl, _, rfl, rfl⟩
  obtain ⟨t, hsave, _, hinventory⟩ := h (sampleEnv false) sampleTables 1 c hload
  obtain rfl := Option.some.inj (hsave.symm.trans hsave')
  rw [hgone] at hinventory
  exact absurd hinventory (by decide)

end OsIrose.SaveLoad

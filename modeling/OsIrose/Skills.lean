/-
The skills of a character: `Skills::loadFromResult`, `rosecommon/include/components/skills.h`,
as `EntitySystem::loadCharacter` calls it, and where `SrvSelectCharReply::pack` sends them.

The loop looks whether `i` is within the array, counts `i` up, and writes to `skills_[i]`. So
the row `k` is written to the entry `k + 1`, the first entry keeps its default, and the 120th
row is written behind the array (`loadRows_eq_none`). Only a result that is all defaults, and
shorter than the array, is loaded as it should be (`loaded_iff`).
-/
import OsIrose.PacketClasses

set_option autoImplicit false

namespace OsIrose.CharacterSkills

open Wire
open Packet (uint16_t)

/-- A row of `skill`: `id` is an unsigned `smallint`, `level` an unsigned `tinyint`. -/
structure SkillRow where
  id : BitVec 16
  level : BitVec 8

structure Skill where
  id_ : BitVec 16 := 0
  level_ : BitVec 8 := 0
  deriving DecidableEq

/-- `Skill::loadFromRow`. -/
def Skill.loadFromRow (row : SkillRow) : Skill where
  id_ := row.id
  level_ := row.level

def maxSkills : ℕ := 120

/-- `skills_` -/
abbrev Skills := Vector Skill maxSkills

def Skills.default : Skills := Vector.replicate maxSkills {}

/-- The loop of `loadFromResult`; `none` after a write that is not inside `skills_`. -/
def loadRows : List SkillRow → (i : ℕ) → Skills → Option Skills
  | [], _, skills_ => some skills_
  | row :: rows, i, skills_ =>
      if maxSkills ≤ i then some skills_
      else if h : i + 1 < maxSkills then
        loadRows rows (i + 1) (skills_.set (i + 1) (.loadFromRow row) h)
      else none

/-- `loadFromResult`, on the component that was just assigned. -/
def loadFromResult (result : List SkillRow) : Option Skills :=
  loadRows result 0 Skills.default

/-- What `SrvSelectCharReply::pack` writes for the skills. -/
def Skills.pack (skills_ : Skills) : List Field :=
  skills_.toList.map fun it => ⟨uint16_t, it.id_⟩

/-! ## What the loop is for -/

/-- The skills are those of the first rows, in order, and defaults behind them. -/
structure Holds (skills_ : Skills) (result : List SkillRow) : Prop where
  row : ∀ i, i < min result.length maxSkills →
    skills_[i]? = (result[i]?).map Skill.loadFromRow
  beyond : ∀ i, result.length ≤ i → i < maxSkills → skills_[i]? = some {}
  sent : skills_.pack = (result.take maxSkills).map (fun row => ⟨uint16_t, row.id⟩) ++
    List.replicate (maxSkills - result.length) ⟨uint16_t, 0⟩

/-! ## What the loop does -/

/-- A result that would fill the array is written past it. -/
theorem loadRows_eq_none {rows : List SkillRow} {i : ℕ} (skills_ : Skills) (hi : i < maxSkills)
    (h : maxSkills ≤ i + rows.length) : loadRows rows i skills_ = none := by
  induction rows generalizing i skills_ with
  | nil => exact absurd h (not_le.mpr hi)
  | cons row rows ih =>
      rw [List.length_cons] at h
      rw [loadRows, if_neg (not_le.mpr hi)]
      split_ifs with hnext
      · exact ih _ hnext (by omega)
      · rfl

/-- Any other is written one entry behind its place. -/
theorem exists_loadRows {rows : List SkillRow} {i : ℕ} (skills_ : Skills)
    (h : i + rows.length < maxSkills) :
    ∃ loaded, loadRows rows i skills_ = some loaded ∧ ∀ j, loaded[j]? =
      if i < j ∧ j ≤ i + rows.length then (rows[j - i - 1]?).map Skill.loadFromRow
      else skills_[j]? := by
  induction rows generalizing i skills_ with
  | nil =>
      refine ⟨skills_, rfl, fun j => ?_⟩
      rw [List.length_nil, add_zero, if_neg (by omega)]
  | cons row rows ih =>
      rw [List.length_cons] at h ⊢
      have hnext : i + 1 < maxSkills := by omega
      obtain ⟨loaded, hloaded, hget⟩ :=
        @ih (i + 1) (skills_.set (i + 1) (.loadFromRow row) hnext) (by omega)
      refine ⟨loaded, ?_, fun j => ?_⟩
      · rw [loadRows, if_neg (by omega), dif_pos hnext, hloaded]
      · rw [hget]
        obtain hlt | rfl | hgt := lt_trichotomy j (i + 1)
        · rw [if_neg (by omega), if_neg (by omega), Vector.getElem?_set_ne hnext (by omega)]
        · rw [if_neg (by omega), if_pos (by omega), Vector.getElem?_set_self hnext]
          simp
        · rw [Vector.getElem?_set_ne hnext (by omega)]
          obtain ⟨k, rfl⟩ : ∃ k, j = i + 1 + k + 1 := ⟨j - i - 2, by omega⟩
          rw [show i + 1 + k + 1 - (i + 1) - 1 = k by omega,
            show i + 1 + k + 1 - i - 1 = k + 1 by omega, List.getElem?_cons_succ]
          split_ifs with hin hout hout
          · rfl
          · omega
          · omega
          · rfl

theorem loadFromResult_eq_none {result : List SkillRow} (h : maxSkills ≤ result.length) :
    loadFromResult result = none :=
  loadRows_eq_none _ (by decide) (by rwa [zero_add])

/-- The first entry keeps its default, and the row `k` is in the entry `k + 1`. -/
theorem exists_loadFromResult {result : List SkillRow} (h : result.length < maxSkills) :
    ∃ skills_, loadFromResult result = some skills_ ∧ skills_[0]? = some ({} : Skill) ∧
      ∀ k, k + 1 < maxSkills →
        skills_[k + 1]? = some (((result[k]?).map Skill.loadFromRow).getD ({} : Skill)) := by
  obtain ⟨skills_, hloaded, hget⟩ := exists_loadRows Skills.default (by rwa [zero_add])
  have hdefault : ∀ j, j < maxSkills → Skills.default[j]? = some {} := by
    intro j hj
    simp [Skills.default, hj]
  refine ⟨skills_, hloaded, ?_, fun k hk => ?_⟩
  · rw [hget, if_neg (by omega), hdefault 0 (by decide)]
  · rw [hget, zero_add, Nat.sub_zero, Nat.add_sub_cancel]
    split_ifs with hin
    · rw [List.getElem?_eq_getElem (by omega)]
      rfl
    · rw [hdefault _ hk, List.getElem?_eq_none (by omega)]
      rfl

/-! ## The result -/

theorem loadFromRow_eq_default_iff (row : SkillRow) :
    Skill.loadFromRow row = {} ↔ row.id = 0 ∧ row.level = 0 := by
  rw [Skill.loadFromRow, Skill.mk.injEq]

/-- Skills that are all defaults. -/
theorem pack_default : Skills.default.pack = List.replicate maxSkills ⟨uint16_t, 0⟩ := by
  simp [Skills.pack, Skills.default]

/-- An entry that is right is the row before it, which is a default like the entry before. -/
theorem loadFromRow_of_holds {result : List SkillRow} {skills_ : Skills}
    (hlength : result.length < maxSkills) (hloaded : loadFromResult result = some skills_)
    (hholds : Holds skills_ result) (k : ℕ) (hk : k < result.length) :
    Skill.loadFromRow result[k] = {} := by
  obtain ⟨_, hloaded', hfirst, hnext⟩ := exists_loadFromResult hlength
  obtain rfl := Option.some.inj (hloaded.symm.trans hloaded')
  induction k with
  | zero =>
      have hrow := hholds.row 0 (by omega)
      rw [hfirst, List.getElem?_eq_getElem hk, Option.map_some] at hrow
      exact (Option.some.inj hrow).symm
  | succ k ih =>
      have hrow := hholds.row (k + 1) (by omega)
      rw [hnext k (by omega), List.getElem?_eq_getElem hk,
        List.getElem?_eq_getElem (Nat.lt_of_succ_lt hk)] at hrow
      exact (Option.some.inj hrow).symm.trans (ih (Nat.lt_of_succ_lt hk))

/-- Rows that are defaults leave the skills as they were. -/
theorem loadFromResult_of_default {result : List SkillRow} (hlength : result.length < maxSkills)
    (hrows : ∀ row ∈ result, Skill.loadFromRow row = {}) :
    loadFromResult result = some Skills.default := by
  obtain ⟨skills_, hloaded, hfirst, hnext⟩ := exists_loadFromResult hlength
  have hget : ∀ i, i < maxSkills → skills_[i]? = some {} := by
    intro i hi
    cases i with
    | zero => exact hfirst
    | succ k =>
        rw [hnext k hi]
        cases hrow : result[k]? with
        | none => rfl
        | some row =>
            rw [Option.map_some, Option.getD_some, hrows row (List.mem_of_getElem? hrow)]
  rw [hloaded]
  refine congrArg some (Vector.ext fun i hi => ?_)
  have hentry := hget i hi
  rw [Vector.getElem?_eq_getElem hi] at hentry
  simpa [Skills.default] using hentry

theorem holds_default {result : List SkillRow} (hlength : result.length < maxSkills)
    (hrows : ∀ row ∈ result, Skill.loadFromRow row = {}) : Holds Skills.default result := by
  have hget : ∀ i, i < maxSkills → Skills.default[i]? = some {} := by
    intro i hi
    simp [Skills.default, hi]
  refine ⟨fun i hi => ?_, fun i _ hi => hget i hi, ?_⟩
  · rw [hget i (by omega), List.getElem?_eq_getElem (by omega), Option.map_some,
      hrows _ (List.getElem_mem _)]
  · have hids : result.map (fun row => (⟨uint16_t, row.id⟩ : Field)) =
        List.replicate result.length ⟨uint16_t, 0⟩ := by
      refine List.eq_replicate_iff.mpr ⟨List.length_map _, fun field hfield => ?_⟩
      obtain ⟨row, hrow, rfl⟩ := List.mem_map.mp hfield
      rw [((loadFromRow_eq_default_iff row).mp (hrows row hrow)).1]
    rw [pack_default, List.take_of_length_le hlength.le, hids, List.replicate_append_replicate,
      Nat.add_sub_cancel' hlength.le]

/-- **When the skills are loaded**: if and only if the result is shorter than the array and all
its rows are what an entry is by default. -/
theorem loaded_iff (result : List SkillRow) :
    (∃ skills_, loadFromResult result = some skills_ ∧ Holds skills_ result) ↔
      result.length < maxSkills ∧ ∀ row ∈ result, row.id = 0 ∧ row.level = 0 := by
  simp only [← loadFromRow_eq_default_iff]
  constructor
  · rintro ⟨skills_, hloaded, hholds⟩
    have hlength : result.length < maxSkills := by
      by_contra hfull
      rw [loadFromResult_eq_none (not_lt.mp hfull)] at hloaded
      exact absurd hloaded (by simp)
    refine ⟨hlength, fun row hrow => ?_⟩
    obtain ⟨k, hk, rfl⟩ := List.getElem_of_mem hrow
    exact loadFromRow_of_holds hlength hloaded hholds k hk
  · rintro ⟨hlength, hrows⟩
    exact ⟨_, loadFromResult_of_default hlength hrows, holds_default hlength hrows⟩

/-- A character with one skill: the client is told of it in the second place. -/
theorem not_loaded_oneSkill :
    ¬ ∃ skills_, loadFromResult [⟨11, 1⟩] = some skills_ ∧ Holds skills_ [⟨11, 1⟩] := by
  rintro ⟨skills_, hloaded, hholds⟩
  have hone : [(⟨11, 1⟩ : SkillRow)].length < maxSkills := by decide
  obtain ⟨_, hloaded', hfirst, _⟩ := exists_loadFromResult hone
  obtain rfl := Option.some.inj (hloaded.symm.trans hloaded')
  have hrow := hholds.row 0 (by decide)
  rw [hfirst] at hrow
  exact absurd hrow (by decide)

end OsIrose.CharacterSkills

/-
The grid as an index of the placed entities.

`grid` is exact (`CellIndex.Exact`) as long as entities are only placed, and moved inside
their cell. The size of the grid tells the rest: `std::remove` leaves it as it was, so a
removed entity is still counted, and a tick pushes every entity that moves once more.
-/
import OsIrose.Movement
import Mathlib.Analysis.Real.Sqrt
import Mathlib.Algebra.Order.Floor.Semiring

set_option autoImplicit false

namespace OsIrose.Movement

open Function CellIndex Runs

variable {K : Type*}

/-! ## Placed entities -/

namespace World

/-- `entities` has every entity with a `Position`. -/
def Covers (w : World K) : Prop :=
  ∀ e, w.position e ≠ none → e ∈ w.entities

def placed (w : World K) : Finset Entity :=
  w.entities.toFinset.filter (fun e => w.position e ≠ none)

/-- `entities_with_components<Position, Destination, AdvancedInfo>()` has the entity. -/
def Moves (w : World K) (e : Entity) : Prop :=
  w.position e ≠ none ∧ w.destination e ≠ none ∧ w.advanced e ≠ none

end World

/-- The two worlds have the same entities, and the same of them have a `Position`. -/
def SamePlaced (w w' : World K) : Prop :=
  w'.entities = w.entities ∧ ∀ e, w'.position e = none ↔ w.position e = none

theorem SamePlaced.refl (w : World K) : SamePlaced w w :=
  ⟨rfl, fun _ => Iff.rfl⟩

theorem SamePlaced.trans {w w' w'' : World K} (h : SamePlaced w w') (h' : SamePlaced w' w'') :
    SamePlaced w w'' :=
  ⟨h'.1.trans h.1, fun e => (h'.2 e).trans (h.2 e)⟩

theorem SamePlaced.placed_eq {w w' : World K} (h : SamePlaced w w') : w'.placed = w.placed := by
  rw [World.placed, World.placed, h.1]
  exact Finset.filter_congr fun e _ => not_congr (h.2 e)

theorem SamePlaced.covers {w w' : World K} (h : SamePlaced w w') (hw : w.Covers) : w'.Covers := by
  intro e he
  rw [h.1]
  exact hw e (mt (h.2 e).mpr he)

/-- A position is overwritten. -/
theorem SamePlaced.of_update {w w' : World K} (hentities : w'.entities = w.entities) {e : Entity}
    (he : w.position e ≠ none) {pos : Position K}
    (hpos : w'.position = update w.position e (some pos)) : SamePlaced w w' := by
  refine ⟨hentities, fun x => ?_⟩
  rw [hpos]
  by_cases hx : x = e
  · simp [hx, he]
  · simp [hx]

/-! ## `teleport` -/

theorem teleport_grid (w : World K) (e : Entity) (mapId : ℕ) (x y : K) :
    (w.teleport e mapId x y).grid = w.grid := by
  simp only [World.teleport]
  split <;> rfl

theorem teleport_position {w : World K} {e : Entity} {pos : Position K}
    (h : w.position e = some pos) (mapId : ℕ) (x y : K) :
    (w.teleport e mapId x y).position =
      update w.position e (some (pos.teleport mapId x y (w.client e))) := by
  simp only [World.teleport, h]

theorem teleport_of_none {w : World K} {e : Entity} (h : w.position e = none) (mapId : ℕ)
    (x y : K) : (w.teleport e mapId x y).position = w.position := by
  simp only [World.teleport, h]

theorem teleport_samePlaced (w : World K) (e : Entity) (mapId : ℕ) (x y : K) :
    SamePlaced w (w.teleport e mapId x y) := by
  have hentities : (w.teleport e mapId x y).entities = w.entities := by
    simp only [World.teleport]
    split <;> rfl
  cases h : w.position e with
  | none => exact ⟨hentities, fun x' => by rw [teleport_of_none h]⟩
  | some pos => exact SamePlaced.of_update hentities (by simp [h]) (teleport_position h mapId x y)

/-! ## The index -/

variable [Field K] [LinearOrder K] [FloorSemiring K]

namespace World

/-- The cell of an entity with a `Position`. -/
def cell (w : World K) (e : Entity) : Option Cell :=
  (w.position e).map Position.cell

/-- Every entity with a `Position` occurs once, in the cell of its position, and no other
entity occurs. -/
def Indexed (w : World K) : Prop :=
  Exact w.grid w.cell

/-- The step leaves the grid exact: it neither removes a `Position` nor assigns one to an
entity that has it, nor ticks an entity that moves, and `stop` and `teleport` stay inside
the cell. -/
def Keeps (w : World K) : Event K → Prop
  | .assign e _ => w.position e = none
  | .remove e => w.position e = none
  | .update _ => ∀ e ∈ w.entities, ¬ w.Moves e
  | .stop e x y => w.basic e → ∀ pos, w.position e = some pos →
      (pos.x - x) * (pos.x - x) + (pos.y - y) * (pos.y - y) < 100 → getGridPosition x y = pos.cell
  | .teleport e _ x y => ∀ pos, w.position e = some pos → getGridPosition x y = pos.cell
  | _ => True

theorem cell_ne_none {w : World K} {e : Entity} : w.cell e ≠ none ↔ w.position e ≠ none := by
  simp [cell]

/-- **The length of an exact grid** is the number of placed entities. -/
theorem Indexed.size_eq {w : World K} (h : w.Indexed) (hcovers : w.Covers) :
    size w.grid = w.placed.card := by
  have hS : ∀ e, w.cell e ≠ none → e ∈ w.entities.toFinset := fun e he =>
    List.mem_toFinset.mpr (hcovers e (cell_ne_none.mp he))
  rw [Exact.size_eq h hS, placed]
  congr 1
  exact Finset.filter_congr fun e _ => cell_ne_none

end World

/-- The cells after a position was written. -/
theorem cell_of_update {w w' : World K} {e : Entity} {pos : Position K}
    (hpos : w'.position = update w.position e (some pos)) :
    w'.cell = update w.cell e (some pos.cell) := by
  funext x
  rw [World.cell, hpos]
  by_cases hx : x = e
  · simp [hx]
  · simp [hx, World.cell]

theorem indexed_congr {w w' : World K} (hgrid : w'.grid = w.grid)
    (hpos : w'.position = w.position) : w'.Indexed ↔ w.Indexed := by
  have hcell : w'.cell = w.cell := by
    funext e
    rw [World.cell, hpos, World.cell]
  rw [World.Indexed, hgrid, hcell, World.Indexed]

/-- Writing the position of a placed entity leaves the grid exact if the cell is the same. -/
theorem indexed_of_update_iff {w w' : World K} (h : w.Indexed) (hgrid : w'.grid = w.grid)
    {e : Entity} {old pos : Position K} (hold : w.position e = some old)
    (hpos : w'.position = update w.position e (some pos)) :
    w'.Indexed ↔ pos.cell = old.cell := by
  have hcell : w.cell e = some old.cell := by rw [World.cell, hold, Option.map_some]
  rw [World.Indexed, hgrid, cell_of_update hpos]
  exact Exact.move_iff h hcell pos.cell

/-! ## The size of the grid -/

theorem size_stdRemove (grid : Cell → List Entity) (c : Cell) (e : Entity) :
    size (update grid c (stdRemove (grid c) e)) = size grid := by
  have h := size_update grid c (stdRemove (grid c) e)
  rw [length_stdRemove] at h
  omega

theorem size_push (grid : Cell → List Entity) (c : Cell) (e : Entity) :
    size (update grid c (grid c ++ [e])) = size grid + 1 := by
  have h := size_update grid c (grid c ++ [e])
  rw [List.length_append, List.length_singleton] at h
  omega

theorem size_updatePosition (w : World K) (e : Entity) (x y : K) :
    size (w.updatePosition e x y).grid = size w.grid + 1 := by
  simp only [World.updatePosition]
  rw [size_push]
  split
  · rw [size_stdRemove]
  · rfl

/-! ## A tick -/

section Tick

variable (sqrt : K → K) (dt : K)

theorem tick_of_not_moves {w : World K} {e : Entity} (h : ¬ w.Moves e) :
    w.tick sqrt dt e = w := by
  rw [World.tick]
  split
  · rename_i hpos hdest hadvanced
    exact absurd ⟨by simp [hpos], by simp [hdest], by simp [hadvanced]⟩ h
  · rfl

/-- An entity that moves is pushed once more, and only its position is written. -/
theorem tick_of_moves {w : World K} {e : Entity} (h : w.Moves e) :
    SamePlaced w (w.tick sqrt dt e) ∧ size (w.tick sqrt dt e).grid = size w.grid + 1 := by
  obtain ⟨hne, hdest, hadvanced⟩ := h
  obtain ⟨pos, hpos⟩ := Option.ne_none_iff_exists'.mp hne
  obtain ⟨dest, hdest⟩ := Option.ne_none_iff_exists'.mp hdest
  obtain ⟨runSpeed, hadvanced⟩ := Option.ne_none_iff_exists'.mp hadvanced
  simp only [World.tick, hpos, hdest, hadvanced]
  -- the position is written, and the entity is pushed to the vector of its cell
  let w' : World K := { w with
    position := update w.position e (some (pos.walk sqrt dt dest runSpeed).1)
    destination := update w.destination e (pos.walk sqrt dt dest runSpeed).2 }
  have hplaced : SamePlaced w (w'.updatePosition e pos.x pos.y) :=
    SamePlaced.of_update rfl hne rfl
  have hsize : size (w'.updatePosition e pos.x pos.y).grid = size w.grid + 1 :=
    size_updatePosition w' e pos.x pos.y
  split
  · exact ⟨hplaced, hsize⟩
  · rename_i gate _
    refine ⟨hplaced.trans (teleport_samePlaced _ e gate.dist gate.x gate.y), ?_⟩
    rw [teleport_grid, hsize]

theorem tick_spec (w : World K) (e : Entity) :
    SamePlaced w (w.tick sqrt dt e) ∧ size w.grid ≤ size (w.tick sqrt dt e).grid := by
  by_cases h : w.Moves e
  · obtain ⟨hplaced, hsize⟩ := tick_of_moves sqrt dt h
    exact ⟨hplaced, by omega⟩
  · rw [tick_of_not_moves sqrt dt h]
    exact ⟨SamePlaced.refl w, Nat.le_refl _⟩

/-- The grid never shrinks while the entities of a tick are visited. -/
theorem ticks_spec (es : List Entity) (w : World K) :
    SamePlaced w (es.foldl (World.tick sqrt dt) w) ∧
      size w.grid ≤ size (es.foldl (World.tick sqrt dt) w).grid := by
  induction es generalizing w with
  | nil => exact ⟨SamePlaced.refl w, Nat.le_refl _⟩
  | cons e es ih =>
      have hhead := tick_spec sqrt dt w e
      have htail := ih (w.tick sqrt dt e)
      exact ⟨hhead.1.trans htail.1, hhead.2.trans htail.2⟩

theorem ticks_of_not_moves {es : List Entity} {w : World K} (h : ∀ e ∈ es, ¬ w.Moves e) :
    es.foldl (World.tick sqrt dt) w = w := by
  induction es with
  | nil => rfl
  | cons e es ih =>
      rw [List.foldl_cons, tick_of_not_moves sqrt dt (h e List.mem_cons_self)]
      exact ih fun x hx => h x (List.mem_cons_of_mem e hx)

/-- With an entity that moves the grid grows. -/
theorem size_ticks_lt {es : List Entity} {w : World K} {e : Entity} (he : e ∈ es)
    (hmoves : w.Moves e) : size w.grid < size (es.foldl (World.tick sqrt dt) w).grid := by
  induction es with
  | nil => exact absurd he List.not_mem_nil
  | cons x es ih =>
      rw [List.foldl_cons]
      by_cases hx : w.Moves x
      · have hhead := (tick_of_moves sqrt dt hx).2
        have htail := (ticks_spec sqrt dt es (w.tick sqrt dt x)).2
        omega
      · -- the entities before the first that moves change nothing
        have hne : e ≠ x := fun h => hx (h ▸ hmoves)
        rw [tick_of_not_moves sqrt dt hx]
        exact ih ((List.mem_cons.mp he).resolve_left hne)

end Tick

/-! ## A step -/

theorem indexed_assign_iff {w : World K} (hcovers : w.Covers) (h : w.Indexed) (e : Entity)
    (pos : Position K) : (w.assignPosition e pos).Indexed ↔ w.position e = none := by
  have hpos : (w.assignPosition e pos).position = update w.position e (some pos) := rfl
  have hgrid : (w.assignPosition e pos).grid = update w.grid pos.cell (w.grid pos.cell ++ [e]) := by
    simp [World.assignPosition, World.updatePosition, World.gridPosition]
  constructor
  · intro h'
    by_contra he
    -- the entity was counted before, and it is pushed again
    have hplaced : SamePlaced w (w.assignPosition e pos) := by
      refine SamePlaced.of_update ?_ he hpos
      simp [World.assignPosition, World.updatePosition, hcovers e he]
    have hsize := h'.size_eq (hplaced.covers hcovers)
    rw [hplaced.placed_eq, ← h.size_eq hcovers, hgrid, size_push] at hsize
    omega
  · intro he
    have hcell : w.cell e = none := by rw [World.cell, he, Option.map_none]
    rw [World.Indexed, hgrid, cell_of_update hpos]
    exact Exact.push h hcell pos.cell

theorem indexed_remove_iff {w : World K} (hcovers : w.Covers) (h : w.Indexed) (e : Entity) :
    (w.removePosition e).Indexed ↔ w.position e = none := by
  cases he : w.position e with
  | none => simp [World.removePosition, he, h]
  | some pos =>
      simp only [World.removePosition, he, reduceCtorEq, iff_false]
      intro h'
      -- the entity is not counted any more, and the vectors are as long as before
      have hcovers' : World.Covers { w with
          grid := update w.grid pos.cell (stdRemove (w.grid pos.cell) e)
          position := update w.position e none } := by
        intro x hx
        refine hcovers x fun hnone => hx ?_
        by_cases hxe : x = e
        · simp [hxe]
        · simp [hxe, hnone]
      have hsize := h'.size_eq hcovers'
      have hplaced : World.placed { w with
          grid := update w.grid pos.cell (stdRemove (w.grid pos.cell) e)
          position := update w.position e none } = w.placed.erase e := by
        ext x
        by_cases hxe : x = e
        · simp [World.placed, hxe]
        · simp [World.placed, hxe]
      have hmem : e ∈ w.placed := by
        simp [World.placed, he, hcovers e (by simp [he])]
      rw [hplaced, size_stdRemove, h.size_eq hcovers, Finset.card_erase_of_mem hmem] at hsize
      have hpositive := Finset.card_pos.mpr ⟨e, hmem⟩
      omega

theorem indexed_update_iff {w : World K} (hcovers : w.Covers) (h : w.Indexed) (sqrt : K → K)
    (dt : K) : (w.update sqrt dt).Indexed ↔ ∀ e ∈ w.entities, ¬ w.Moves e := by
  constructor
  · intro h' e he hmoves
    have hplaced : SamePlaced w (w.update sqrt dt) := (ticks_spec sqrt dt w.entities w).1
    have hsize : size w.grid < size (w.update sqrt dt).grid := size_ticks_lt sqrt dt he hmoves
    rw [h'.size_eq (hplaced.covers hcovers), hplaced.placed_eq, h.size_eq hcovers] at hsize
    omega
  · intro hall
    rw [World.update, ticks_of_not_moves sqrt dt hall]
    exact h

theorem indexed_stop_iff {w : World K} (h : w.Indexed) (e : Entity) (x y : K) :
    (w.stop e x y).Indexed ↔ w.Keeps (.stop e x y) := by
  have hgrid : (w.stop e x y).grid = w.grid := by
    simp only [World.stop]
    split
    · rfl
    · split <;> rfl
  cases hbasic : w.basic e with
  | false => simp [World.stop, World.Keeps, hbasic, h]
  | true =>
      cases he : w.position e with
      | none =>
          have hpos : (w.stop e x y).position = w.position := by simp [World.stop, hbasic, he]
          rw [indexed_congr hgrid hpos]
          simp [World.Keeps, he, h]
      | some pos =>
          have hpos : (w.stop e x y).position = update w.position e (some (pos.stop x y)) := by
            simp [World.stop, hbasic, he]
          rw [indexed_of_update_iff h hgrid he hpos]
          by_cases hnear : (pos.x - x) * (pos.x - x) + (pos.y - y) * (pos.y - y) < 100
          · simp [World.Keeps, hbasic, he, Position.stop, hnear, Position.cell]
          · simp [World.Keeps, he, Position.stop, hnear]

theorem indexed_teleport_iff {w : World K} (h : w.Indexed) (e : Entity) (mapId : ℕ) (x y : K) :
    (w.teleport e mapId x y).Indexed ↔ w.Keeps (.teleport e mapId x y) := by
  cases he : w.position e with
  | none =>
      rw [indexed_congr (teleport_grid w e mapId x y) (teleport_of_none he mapId x y)]
      simp [World.Keeps, he, h]
  | some pos =>
      have hcell : (pos.teleport mapId x y (w.client e)).cell = getGridPosition x y := by
        simp only [Position.teleport]
        split <;> rfl
      rw [indexed_of_update_iff h (teleport_grid w e mapId x y) he (teleport_position he mapId x y),
        hcell]
      simp [World.Keeps, he]

theorem indexed_next_iff (sqrt : K → K) {w : World K} (hcovers : w.Covers) (h : w.Indexed)
    (ev : Event K) : (next sqrt w ev).Indexed ↔ w.Keeps ev := by
  cases ev with
  | assign e pos => exact indexed_assign_iff hcovers h e pos
  | remove e => exact indexed_remove_iff hcovers h e
  | update dt => exact indexed_update_iff hcovers h sqrt dt
  | stop e x y => exact indexed_stop_iff h e x y
  | teleport e mapId x y => exact indexed_teleport_iff h e mapId x y
  | components => exact ⟨fun _ => trivial, fun _ => h⟩

/-! ## The events of a run -/

theorem covers_assign {w : World K} (h : w.Covers) (e : Entity) (pos : Position K) :
    (w.assignPosition e pos).Covers := by
  have hentities : (w.assignPosition e pos).entities =
      if e ∈ w.entities then w.entities else w.entities ++ [e] := rfl
  have hpos : (w.assignPosition e pos).position = update w.position e (some pos) := rfl
  intro x hx
  rw [hentities]
  by_cases hxe : x = e
  · subst hxe
    split
    · assumption
    · simp
  · rw [hpos, update_of_ne hxe] at hx
    split
    · exact h x hx
    · exact List.mem_append_left [e] (h x hx)

theorem covers_remove {w : World K} (h : w.Covers) (e : Entity) : (w.removePosition e).Covers := by
  rw [World.removePosition]
  split
  · exact h
  · intro x hx
    refine h x fun hnone => hx ?_
    by_cases hxe : x = e
    · simp [hxe]
    · simp [hxe, hnone]

omit [FloorSemiring K] in
theorem stop_samePlaced (w : World K) (e : Entity) (x y : K) : SamePlaced w (w.stop e x y) := by
  simp only [World.stop]
  split
  · exact SamePlaced.refl w
  · split
    · exact SamePlaced.refl w
    · rename_i pos he
      exact SamePlaced.of_update rfl (by simp [he]) rfl

theorem covers_next (sqrt : K → K) {w : World K} (h : w.Covers) (ev : Event K) :
    (next sqrt w ev).Covers := by
  cases ev with
  | assign e pos => exact covers_assign h e pos
  | remove e => exact covers_remove h e
  | update dt => exact (ticks_spec sqrt dt w.entities w).1.covers h
  | stop e x y => exact (stop_samePlaced w e x y).covers h
  | teleport e mapId x y => exact (teleport_samePlaced w e mapId x y).covers h
  | components => exact h

/-- **The grid is exact** in every state reached if and only if no step takes a placed
entity out of its cell: none removes or reassigns a `Position`, ticks an entity that moves,
or stops or teleports one into another cell. -/
theorem indexed_iff (sqrt : K → K) (evs : List (Event K)) :
    (∀ p, p <+: evs → (p.foldl (next sqrt) start).Indexed) ↔
      ∀ p ev, p ++ [ev] <+: evs → (p.foldl (next sqrt) start).Keeps ev := by
  have hstart : (start : World K).Covers := fun _ h => absurd rfl h
  have hindexed : (start : World K).Indexed := fun e c => by simp [start, World.cell]
  exact @foldl_reached_iff _ _ _ (next sqrt) World.Covers World.Indexed World.Keeps
    (fun _ ev h => covers_next sqrt h ev) (fun _ ev hcovers h => indexed_next_iff sqrt hcovers h ev)
    hstart hindexed evs

/-- An entity whose `Position` was removed is still in the grid. -/
theorem removed_stays : ¬ ∀ evs : List (Event ℝ), (evs.foldl (next Real.sqrt) start).Indexed := by
  intro h
  let pos : Position ℝ := ⟨5000, 5000, 1⟩
  have hcount := h [.assign 1 pos, .remove 1] 1 pos.cell
  simp [next, start, World.assignPosition, World.updatePosition, World.removePosition,
    World.gridPosition, World.cell, stdRemove] at hcount

end OsIrose.Movement

/-
Movement and the grid: `map/src/systems/movementsystem.cpp`.

`grid` has for each cell of 1000 by 1000 the entities in it. Callbacks on `Position` and
`updatePosition` maintain it; `stop` and `teleport` write the position and leave it alone.
The coordinates are exact here, of any ordered field `K` with a floor, and `sqrt` stands
for `std::sqrt`.

Assigning a component to an entity that has one overwrites it, with the callback.
-/
import OsIrose.CellIndex
import OsIrose.Runs
import Mathlib.Algebra.Order.Floor.Defs
import Mathlib.Algebra.Field.Defs

set_option autoImplicit false

namespace OsIrose.Movement

open Function CellIndex Runs

variable {K : Type*} [Field K] [LinearOrder K] [FloorSemiring K]

abbrev Entity := ℕ

instance neZero_uint16 : NeZero 65536 := ⟨by decide⟩

/-- The square of the distance at which a client is no longer believed. -/
instance atLeastTwo_hundred : Nat.AtLeastTwo 100 := ⟨by decide⟩

/-- The distance at which a warpgate is in reach. -/
instance atLeastTwo_fifty : Nat.AtLeastTwo 50 := ⟨by decide⟩

/-- `key_t`, a pair of `uint16_t`. -/
abbrev Cell := Fin 65536 × Fin 65536

structure Position (K : Type*) where
  x : K
  y : K
  map : ℕ

structure Destination (K : Type*) where
  x : K
  y : K
  /-- The distance to it, or the map that a warpgate leads to. -/
  dist : ℕ

/-- `get_grid_position(x, y)`. -/
def getGridPosition (x y : K) : Cell :=
  (Fin.ofNat 65536 ⌊x / 1000⌋₊, Fin.ofNat 65536 ⌊y / 1000⌋₊)

/-! ## The position of one entity -/

namespace Position

def cell (pos : Position K) : Cell :=
  getGridPosition pos.x pos.y

/-- The position after `stop`: a client that is too far away is not believed. -/
def stop (pos : Position K) (x y : K) : Position K :=
  let dx := pos.x - x
  let dy := pos.y - y
  if dx * dx + dy * dy < 100 then { pos with x, y } else pos

/-- The position after `teleport`; only an entity with a client leaves the map. -/
def teleport (pos : Position K) (mapId : ℕ) (x y : K) (client : Bool) : Position K :=
  let pos := { pos with x, y }
  if pos.map ≠ mapId ∧ client then { pos with map := mapId } else pos

/-- The position after a tick, and the destination if the entity has not arrived. -/
def walk (sqrt : K → K) (dt : K) (pos : Position K) (dest : Destination K) (runSpeed : ℕ) :
    Position K × Option (Destination K) :=
  let dx := dest.x - pos.x
  let dy := dest.y - pos.y
  let distance := sqrt (dx * dx + dy * dy)
  let ntime := distance / runSpeed
  if (runSpeed ≠ 0 ∧ ntime ≤ dt) ∨ distance = 0 then
    ({ pos with x := dest.x, y := dest.y }, none)
  else
    -- without a speed the time is infinite, and the step is 0
    let step := if runSpeed = 0 then 0 else dt / ntime
    ({ pos with x := pos.x + dx * step, y := pos.y + dy * step },
      some { dest with dist := ⌊distance⌋₊ % 65536 })

end Position

/-! ## The entities and the grid -/

structure World (K : Type*) where
  /-- The entities, in the order in which they are visited. -/
  entities : List Entity
  position : Entity → Option (Position K)
  destination : Entity → Option (Destination K)
  /-- `runSpeed_` of the `AdvancedInfo`. -/
  advanced : Entity → Option ℕ
  basic : Entity → Bool
  warpgate : Entity → Bool
  client : Entity → Bool
  grid : Cell → List Entity

namespace World

/-- `get_grid_position(entity)`. -/
def gridPosition (w : World K) (e : Entity) : Cell :=
  match w.position e with
  | none => (0, 0)
  | some pos => pos.cell

/-- `MovementSystem::updatePosition`. -/
def updatePosition (w : World K) (e : Entity) (oldX oldY : K) : World K :=
  let grid := if oldX ≠ 0 ∧ oldY ≠ 0 then
      let old := getGridPosition oldX oldY
      update w.grid old (stdRemove (w.grid old) e)
    else w.grid
  { w with grid := update grid (w.gridPosition e) (grid (w.gridPosition e) ++ [e]) }

/-- `entity.assign<Position>(..)`, with the callback. -/
def assignPosition (w : World K) (e : Entity) (pos : Position K) : World K :=
  { w with
    entities := if e ∈ w.entities then w.entities else w.entities ++ [e]
    position := update w.position e (some pos) }.updatePosition e 0 0

/-- The removal of a `Position`, with the callback before it. -/
def removePosition (w : World K) (e : Entity) : World K :=
  match w.position e with
  | none => w
  | some pos =>
      { w with
        grid := update w.grid pos.cell (stdRemove (w.grid pos.cell) e)
        position := update w.position e none }

/-- `MovementSystem::stop`. -/
def stop (w : World K) (e : Entity) (x y : K) : World K :=
  if !w.basic e then w
  else
    let w := { w with destination := update w.destination e none }
    match w.position e with
    | none => w
    | some pos => { w with position := update w.position e (some (pos.stop x y)) }

/-- `MovementSystem::teleport`. -/
def teleport (w : World K) (e : Entity) (mapId : ℕ) (x y : K) : World K :=
  let w := { w with destination := update w.destination e none }
  match w.position e with
  | none => w
  | some pos =>
      { w with position := update w.position e (some (pos.teleport mapId x y (w.client e))) }

/-- `MovementSystem::is_on_warpgate`. -/
def isOnWarpgate (w : World K) (e : Entity) : Option Entity :=
  match w.position e with
  | none => none
  | some pos => (w.grid (w.gridPosition e)).find? (fun it =>
      w.warpgate it && match w.position it with
        | none => false
        | some warp =>
            let dx := pos.x - warp.x
            -- the x coordinate once more, as the source has it
            let dy := pos.x - warp.y
            dx * dx + dy * dy < 50 * 50)

/-- The part of `MovementSystem::update` for one entity. -/
def tick (sqrt : K → K) (dt : K) (w : World K) (e : Entity) : World K :=
  match w.position e, w.destination e, w.advanced e with
  | some pos, some dest, some runSpeed =>
      let walked := pos.walk sqrt dt dest runSpeed
      let w := { w with
        position := update w.position e (some walked.1)
        destination := update w.destination e walked.2 }
      let w := w.updatePosition e pos.x pos.y
      match (w.isOnWarpgate e).bind w.destination with
      | none => w
      | some dest => w.teleport e dest.dist dest.x dest.y
  | _, _, _ => w

/-- `MovementSystem::update`. -/
def update (sqrt : K → K) (w : World K) (dt : K) : World K :=
  w.entities.foldl (tick sqrt dt) w

end World

/-! ## Events -/

inductive Event (K : Type*)
  | assign (e : Entity) (pos : Position K)
  | remove (e : Entity)
  | update (dt : K)
  | stop (e : Entity) (x y : K)
  | teleport (e : Entity) (mapId : ℕ) (x y : K)
  /-- The other components change. -/
  | components (destination : Entity → Option (Destination K)) (advanced : Entity → Option ℕ)
      (basic warpgate client : Entity → Bool)

def next (sqrt : K → K) (w : World K) : Event K → World K
  | .assign e pos => w.assignPosition e pos
  | .remove e => w.removePosition e
  | .update dt => w.update sqrt dt
  | .stop e x y => w.stop e x y
  | .teleport e mapId x y => w.teleport e mapId x y
  | .components destination advanced basic warpgate client =>
      { w with destination, advanced, basic, warpgate, client }

/-- There are no entities yet. -/
def start : World K where
  entities := []
  position _ := none
  destination _ := none
  advanced _ := none
  basic _ := false
  warpgate _ := false
  client _ := false
  grid _ := []

end OsIrose.Movement

/-
The search for a warpgate: `MovementSystem::is_on_warpgate`,
`map/src/systems/movementsystem.cpp`.

The search goes through the cell of the entity and takes the first gate that passes its
test. The test is written with the x coordinate of the entity in both differences, so it
measures another distance than the one that `WARPGATE_DISTANCE` bounds. `warpgate_iff` says
when the answer is right all the same, and that `update` then teleports nobody who is not
near a gate.
-/
import OsIrose.Grid

set_option autoImplicit false

namespace OsIrose.Movement

open Function CellIndex

variable {K : Type*} [Field K] [LinearOrder K] [FloorSemiring K]

/-! ## Two tests -/

namespace Position

/-- The square of the distance is below `WARPGATE_DISTANCE`. -/
def Near (pos warp : Position K) : Prop :=
  (pos.x - warp.x) * (pos.x - warp.x) + (pos.y - warp.y) * (pos.y - warp.y) < 50 * 50

/-- The test of `is_on_warpgate`, as it is written. -/
def NearAsWritten (pos warp : Position K) : Prop :=
  (pos.x - warp.x) * (pos.x - warp.x) + (pos.x - warp.y) * (pos.x - warp.y) < 50 * 50

end Position

namespace World

variable (w : World K) (e g : Entity)

/-- `g` is a warpgate in the cell of `e` and stands to it as `test` says. -/
def GateWith (test : Position K → Position K → Prop) : Prop :=
  g ∈ w.grid (w.gridPosition e) ∧ w.warpgate g = true ∧
    ∃ pos warp, w.position e = some pos ∧ w.position g = some warp ∧ test pos warp

/-- A warpgate in the cell, within 50. -/
def GateNear : Prop := w.GateWith e g Position.Near

/-- A warpgate in the cell that passes the test. -/
def GateFound : Prop := w.GateWith e g Position.NearAsWritten

/-- `is_on_warpgate` is right about an entity: it answers with a gate exactly when there is
one, and the gate is near. -/
structure GateRight : Prop where
  found : (∃ g, w.isOnWarpgate e = some g) ↔ ∃ g, w.GateNear e g
  near : ∀ g, w.isOnWarpgate e = some g → w.GateNear e g

/-- No gate of the cell is near or passes the test, or the first one that passes it is
near. -/
def GateChoice : Prop :=
  (∀ g, ¬ w.GateNear e g ∧ ¬ w.GateFound e g) ∨
  ∃ before g after, w.grid (w.gridPosition e) = before ++ g :: after ∧
    (∀ g' ∈ before, ¬ w.GateFound e g') ∧ w.GateFound e g ∧ w.GateNear e g

/-! ## The search -/

variable {w e g}

/-- The filter of the search, where the entity has a position. -/
theorem isOnWarpgate_of_position {pos : Position K} (hpos : w.position e = some pos) :
    ∃ test : Entity → Bool,
      w.isOnWarpgate e = (w.grid (w.gridPosition e)).find? test ∧
      ∀ g ∈ w.grid (w.gridPosition e), test g = true ↔ w.GateFound e g := by
  refine ⟨_, by simp only [isOnWarpgate, hpos]; rfl, ?_⟩
  intro g hg
  unfold GateFound GateWith
  cases hwarp : w.position g with
  | none => simp
  | some warp => simp [hg, hpos, Position.NearAsWritten]

/-- **The answer of the search** is the first gate that passes the test. -/
theorem isOnWarpgate_eq_some_iff :
    w.isOnWarpgate e = some g ↔
      ∃ before after, w.grid (w.gridPosition e) = before ++ g :: after ∧
        (∀ g' ∈ before, ¬ w.GateFound e g') ∧ w.GateFound e g := by
  cases hpos : w.position e with
  | none =>
      refine iff_of_false (by simp [isOnWarpgate, hpos]) ?_
      rintro ⟨-, -, -, -, -, -, pos, -, hpos', -⟩
      exact Option.some_ne_none pos (hpos'.symm.trans hpos)
  | some pos =>
      obtain ⟨test, hfind, htest⟩ := isOnWarpgate_of_position hpos
      rw [hfind, List.find?_eq_some_iff_append]
      constructor
      · rintro ⟨hg, before, after, hcell, hbefore⟩
        have hmem : g ∈ w.grid (w.gridPosition e) := hcell ▸ List.mem_append_right _ (by simp)
        refine ⟨before, after, hcell, fun g' hg' h => ?_, (htest g hmem).mp hg⟩
        have htrue := (htest g' (hcell ▸ List.mem_append_left _ hg')).mpr h
        simpa [htrue] using hbefore g' hg'
      · rintro ⟨before, after, hcell, hbefore, hg⟩
        refine ⟨(htest g hg.1).mpr hg, before, after, hcell, fun g' hg' => ?_⟩
        have hfalse := hbefore g' hg'
        rw [← htest g' (hcell ▸ List.mem_append_left _ hg')] at hfalse
        simpa using hfalse

theorem exists_isOnWarpgate_iff :
    (∃ g, w.isOnWarpgate e = some g) ↔ ∃ g, w.GateFound e g := by
  constructor
  · rintro ⟨g, hg⟩
    obtain ⟨-, -, -, -, hfound⟩ := isOnWarpgate_eq_some_iff.mp hg
    exact ⟨g, hfound⟩
  · rintro ⟨g, hg⟩
    obtain ⟨pos, warp, hpos, -⟩ := hg.2.2
    obtain ⟨test, hfind, htest⟩ := isOnWarpgate_of_position hpos
    rw [← Option.isSome_iff_exists, hfind, List.find?_isSome]
    exact ⟨g, hg.1, (htest g hg.1).mpr hg⟩

theorem gateRight_iff : w.GateRight e ↔ w.GateChoice e := by
  constructor
  · intro h
    by_cases hsome : ∃ g, w.isOnWarpgate e = some g
    · obtain ⟨g, hg⟩ := hsome
      obtain ⟨before, after, hcell, hbefore, hfound⟩ := isOnWarpgate_eq_some_iff.mp hg
      exact .inr ⟨before, g, after, hcell, hbefore, hfound, h.near g hg⟩
    · refine .inl fun g => ⟨fun hg => hsome (h.found.mpr ⟨g, hg⟩), fun hg => hsome ?_⟩
      exact exists_isOnWarpgate_iff.mpr ⟨g, hg⟩
  · rintro (h | ⟨before, g, after, hcell, hbefore, hfound, hnear⟩)
    · have hnone : ¬ ∃ g, w.isOnWarpgate e = some g := by
        rw [exists_isOnWarpgate_iff]
        exact fun ⟨g, hg⟩ => (h g).2 hg
      exact ⟨iff_of_false hnone fun ⟨g, hg⟩ => (h g).1 hg, fun g hg => absurd ⟨g, hg⟩ hnone⟩
    · have hg := isOnWarpgate_eq_some_iff.mpr ⟨before, after, hcell, hbefore, hfound⟩
      refine ⟨iff_of_true ⟨g, hg⟩ ⟨g, hnear⟩, fun g' hg' => ?_⟩
      rw [Option.some.inj (hg'.symm.trans hg)]
      exact hnear

/-! ## In `update` -/

/-- The tick of one entity up to the search. -/
def walked (sqrt : K → K) (dt : K) (w : World K) (e : Entity) : World K :=
  match w.position e, w.destination e, w.advanced e with
  | some pos, some dest, some runSpeed =>
      let walked := pos.walk sqrt dt dest runSpeed
      { w with
        position := Function.update w.position e (some walked.1)
        destination := Function.update w.destination e walked.2 }.updatePosition e pos.x pos.y
  | _, _, _ => w

/-- The rest of the tick: who is on a gate is teleported. -/
theorem tick_eq (sqrt : K → K) (dt : K) (hmoves : w.Moves e) :
    w.tick sqrt dt e =
      (((w.walked sqrt dt e).isOnWarpgate e).bind (w.walked sqrt dt e).destination).elim
        (w.walked sqrt dt e)
        (fun dest => (w.walked sqrt dt e).teleport e dest.dist dest.x dest.y) := by
  obtain ⟨hne, hdest, hadvanced⟩ := hmoves
  obtain ⟨pos, hpos⟩ := Option.ne_none_iff_exists'.mp hne
  obtain ⟨dest, hdest⟩ := Option.ne_none_iff_exists'.mp hdest
  obtain ⟨runSpeed, hadvanced⟩ := Option.ne_none_iff_exists'.mp hadvanced
  simp only [tick, walked, hpos, hdest, hadvanced]
  split
  · rename_i hnone
    rw [hnone]
    rfl
  · rename_i hgate
    rw [hgate]
    rfl

end World

/-- **When the search for a warpgate is right**, and what `update` makes of a right answer:
it teleports nobody who is not within 50 of a gate. -/
theorem warpgate_iff :
    (∀ (w : World K) (e : Entity), w.GateRight e ↔ w.GateChoice e) ∧
    ∀ (sqrt : K → K) (dt : K) (w : World K) (e : Entity), w.Moves e →
      (w.walked sqrt dt e).GateChoice e →
      w.tick sqrt dt e = w.walked sqrt dt e ∨ ∃ g, (w.walked sqrt dt e).GateNear e g := by
  refine ⟨fun w e => World.gateRight_iff, ?_⟩
  intro sqrt dt w e hmoves hchoice
  rw [World.tick_eq sqrt dt hmoves]
  cases hgate : (w.walked sqrt dt e).isOnWarpgate e with
  | none => exact .inl rfl
  | some g => exact .inr ⟨g, (World.gateRight_iff.mpr hchoice).near g hgate⟩

/-! ## A gate at the other end of the cell -/

/-- A character at (5100, 5900) and a gate at (5110, 5105), in one cell. -/
def farGate : World ℝ where
  entities := [0, 1]
  position e := if e = 0 then some ⟨5100, 5900, 1⟩ else if e = 1 then some ⟨5110, 5105, 1⟩ else none
  destination e := if e = 1 then some ⟨5300, 5200, 2⟩ else none
  advanced _ := none
  basic _ := true
  warpgate e := e = 1
  client e := e = 0
  grid _ := [0, 1]

/-- The gate is 795 away and is found. -/
theorem not_gateRight_farGate : ¬ farGate.GateRight 0 := by
  intro h
  have hfound : farGate.GateFound 0 1 := by
    refine ⟨by simp [farGate], by simp [farGate], _, _, rfl, rfl, ?_⟩
    simp only [Position.NearAsWritten]
    norm_num
  obtain ⟨g, -, hgate, pos, warp, hpos, hwarp, hnear⟩ :=
    h.found.mp (World.exists_isOnWarpgate_iff.mpr ⟨1, hfound⟩)
  obtain rfl : g = 1 := by simpa [farGate] using hgate
  obtain rfl : pos = ⟨5100, 5900, 1⟩ := by simpa [farGate, eq_comm] using hpos
  obtain rfl : warp = ⟨5110, 5105, 1⟩ := by simpa [farGate, eq_comm] using hwarp
  simp only [Position.Near] at hnear
  norm_num at hnear

end OsIrose.Movement

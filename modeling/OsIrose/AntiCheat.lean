/-
How far the packets of a client can move its character:
`MovementSystem::processMove`, `stopMoving` and `update` (`map/src/systems/movementsystem.cpp`).

A tick moves the character at its run speed towards its destination, and MOUSE_CMD only
chooses the destination. STOP_MOVING moves it to the point that the client names, if that is
less than 10 away (`POSITION_CHEATING` is the square) from where it is now. So every packet
believed may move it once more, also without a tick in between: the bound that was meant
holds as long as the points named are themselves within it (`reachable_iff`), and in general
there is one tolerance for each STOP_MOVING (`distance_le_stops`).

The coordinates are exact reals here, and no warpgate is in the way.
-/
import OsIrose.Join
import Mathlib.Analysis.Complex.Norm
import Mathlib.Analysis.CStarAlgebra.Classes

set_option autoImplicit false

namespace OsIrose.AntiCheat

open MapServer Runs
open Movement (Position Destination)
open scoped NNReal

variable {D : Type*}

/-! ## Distances -/

def point (pos : Position ℝ) : ℂ := ⟨pos.x, pos.y⟩

noncomputable def distance (pos pos' : Position ℝ) : ℝ :=
  √((pos.x - pos'.x) * (pos.x - pos'.x) + (pos.y - pos'.y) * (pos.y - pos'.y))

theorem distance_eq (pos pos' : Position ℝ) :
    distance pos pos' = dist (point pos) (point pos') := by
  rw [Complex.dist_eq, Complex.norm_def, Complex.normSq_apply]
  rfl

theorem distance_triangle (pos pos' pos'' : Position ℝ) :
    distance pos pos'' ≤ distance pos pos' + distance pos' pos'' := by
  simp only [distance_eq]
  exact dist_triangle _ _ _

@[simp] theorem distance_self (pos : Position ℝ) : distance pos pos = 0 := by
  simp [distance]

/-- A step of the way from `pos` to `(x, y)`. -/
theorem distance_step {pos pos' : Position ℝ} {x y t : ℝ} (ht : 0 ≤ t)
    (hx : pos'.x = pos.x + (x - pos.x) * t) (hy : pos'.y = pos.y + (y - pos.y) * t) :
    distance pos' pos =
      √((x - pos.x) * (x - pos.x) + (y - pos.y) * (y - pos.y)) * t := by
  unfold distance
  rw [hx, hy]
  have hsq : (pos.x + (x - pos.x) * t - pos.x) * (pos.x + (x - pos.x) * t - pos.x) +
      (pos.y + (y - pos.y) * t - pos.y) * (pos.y + (y - pos.y) * t - pos.y) =
      ((x - pos.x) * (x - pos.x) + (y - pos.y) * (y - pos.y)) * (t * t) := by
    ring
  rw [hsq, Real.sqrt_mul (add_nonneg (mul_self_nonneg _) (mul_self_nonneg _)),
    Real.sqrt_mul_self ht]

/-- **One tick** moves the character no further than its run speed allows. -/
theorem distance_walk (pos : Position ℝ) (dest : Destination ℝ) (dt : ℝ≥0) (runSpeed : ℕ) :
    distance (pos.walk Real.sqrt dt dest runSpeed).1 pos ≤ runSpeed * dt := by
  have hdist := Real.sqrt_nonneg ((dest.x - pos.x) * (dest.x - pos.x) +
    (dest.y - pos.y) * (dest.y - pos.y))
  have hbound : (0 : ℝ) ≤ runSpeed * dt := mul_nonneg (Nat.cast_nonneg _) dt.coe_nonneg
  unfold Position.walk
  dsimp only
  generalize hd : √((dest.x - pos.x) * (dest.x - pos.x) +
    (dest.y - pos.y) * (dest.y - pos.y)) = d at hdist ⊢
  split_ifs with harrived hspeed
  · -- the whole way, in time or of length 0
    rw [distance_step (x := dest.x) (y := dest.y) (t := 1) zero_le_one (by ring) (by ring), hd,
      mul_one]
    rcases harrived with ⟨hspeed, htime⟩ | hzero
    · exact (div_le_iff₀' (by positivity)).mp htime
    · rwa [hzero]
  · -- a run speed of 0: the character stays
    rw [distance_step (x := dest.x) (y := dest.y) (t := 0) le_rfl rfl rfl, mul_zero]
    exact hbound
  · -- the part of the way that the time allows
    have hstep : 0 ≤ dt / (d / runSpeed) := div_nonneg dt.coe_nonneg (by positivity)
    rw [distance_step hstep rfl rfl, hd]
    have hne : d ≠ 0 := fun h => harrived (Or.inr h)
    refine le_of_eq ?_
    field_simp

/-! ## Events -/

inductive Event
  /-- MOUSE_CMD -/
  | mouseCmd (x y : ℝ)
  /-- STOP_MOVING -/
  | stopMoving (x y : ℝ)
  /-- `MovementSystem::update` -/
  | update (dt : ℝ≥0)

/-- The components of the character, and the time that the ticks took. -/
structure State (D : Type*) where
  comps : Components ℝ D
  elapsed : ℝ≥0 := 0

/-- `MovementSystem::update`, with the square root of the reals. -/
noncomputable def walk (env : Env ℝ) (runSpeed : ℕ) (comps : Components ℝ D) (dt : ℝ≥0) :
    Components ℝ D :=
  match comps.position, comps.destination with
  | some pos, some dest =>
      (walkEffect { env with sqrt := Real.sqrt } comps pos dest dt runSpeed none
        comps.socket.isSome).components
  | _, _ => comps

noncomputable def next (env : Env ℝ) (runSpeed : ℕ) (s : State D) : Event → State D
  | .mouseCmd x y =>
      { s with
        comps := (handle { env with sqrt := Real.sqrt } s.comps (.mouseCmd x y)).components }
  | .stopMoving x y =>
      { s with
        comps := (handle { env with sqrt := Real.sqrt } s.comps (.stopMoving x y)).components }
  | .update dt =>
      { comps := walk env runSpeed s.comps dt, elapsed := s.elapsed + dt }

/-- A character at `pos`. -/
def start (comps : Components ℝ D) (pos : Position ℝ) : State D where
  comps := { comps with position := some pos }

/-- The server believes that the character stopped at `(x, y)`. -/
def Believed (s : State D) (x y : ℝ) : Prop :=
  s.comps.basic ≠ none ∧ ∃ pos, s.comps.position = some pos ∧
    (pos.x - x) * (pos.x - x) + (pos.y - y) * (pos.y - y) < 100

/-- The character is where it can have come from `pos`, up to the tolerance of 10. -/
def Reachable (runSpeed : ℕ) (pos : Position ℝ) (s : State D) : Prop :=
  ∀ pos', s.comps.position = some pos' → distance pos' pos ≤ runSpeed * s.elapsed + 10

/-- A client that is believed names a point that the character can have reached. -/
def honest (runSpeed : ℕ) (pos : Position ℝ) (s : State D) : Event → Prop
  | .stopMoving x y => Believed s x y →
      √((x - pos.x) * (x - pos.x) + (y - pos.y) * (y - pos.y)) ≤ runSpeed * s.elapsed + 10
  | _ => True

/-! ## What an event does to the position -/

section Next

variable (env : Env ℝ) (runSpeed : ℕ) {s : State D} {pos : Position ℝ}

@[simp] theorem mouseCmd_position (x y : ℝ) :
    (next env runSpeed s (.mouseCmd x y)).comps.position = s.comps.position := by
  show (processMove _ s.comps x y).position = s.comps.position
  unfold processMove
  split <;> rfl

theorem stopMoving_position (x y : ℝ) (hpos : s.comps.position = some pos) :
    (Believed s x y ∧ (next env runSpeed s (.stopMoving x y)).comps.position =
      some { pos with x, y }) ∨
    (¬ Believed s x y ∧ (next env runSpeed s (.stopMoving x y)).comps.position = some pos) := by
  show (_ ∧ (MapServer.stopMoving s.comps x y).position = _) ∨
    _ ∧ (MapServer.stopMoving s.comps x y).position = _
  unfold MapServer.stopMoving
  cases hbasic : s.comps.basic with
  | none => exact Or.inr ⟨fun h => h.1 hbasic, hpos⟩
  | some basic =>
      simp only [hpos, Option.map_some, Option.some.injEq, Position.stop]
      split_ifs with hnear
      · exact Or.inl ⟨⟨by simp [hbasic], pos, hpos, hnear⟩, rfl⟩
      · refine Or.inr ⟨?_, rfl⟩
        rintro ⟨_, pos', hpos', hnear'⟩
        obtain rfl := Option.some.inj (hpos.symm.trans hpos')
        exact hnear hnear'

theorem update_position (dt : ℝ≥0) (hpos : s.comps.position = some pos) :
    ∃ pos', (next env runSpeed s (.update dt)).comps.position = some pos' ∧
      distance pos' pos ≤ runSpeed * dt := by
  show ∃ pos', (walk env runSpeed s.comps dt).position = some pos' ∧ _
  unfold walk
  rw [hpos]
  cases hdest : s.comps.destination with
  | none =>
      refine ⟨pos, hpos, ?_⟩
      rw [distance_self]
      exact mul_nonneg (Nat.cast_nonneg _) dt.coe_nonneg
  | some dest => exact ⟨_, rfl, distance_walk pos dest dt runSpeed⟩

end Next

/-! ## A run -/

section Run

variable (env : Env ℝ) (runSpeed : ℕ) (comps : Components ℝ D) (pos : Position ℝ)

theorem position_next (s : State D) (e : Event) (h : ∃ pos, s.comps.position = some pos) :
    ∃ pos, (next env runSpeed s e).comps.position = some pos := by
  obtain ⟨pos, hpos⟩ := h
  cases e with
  | mouseCmd x y => exact ⟨pos, (mouseCmd_position env runSpeed x y).trans hpos⟩
  | stopMoving x y =>
      obtain ⟨_, h⟩ | ⟨_, h⟩ := stopMoving_position env runSpeed x y hpos
      · exact ⟨_, h⟩
      · exact ⟨_, h⟩
  | update dt =>
      obtain ⟨pos', h, _⟩ := update_position env runSpeed dt hpos
      exact ⟨pos', h⟩

/-- Only a STOP_MOVING that is believed can take the character out of reach. -/
theorem reachable_next (s : State D) (e : Event) (h : ∃ pos, s.comps.position = some pos)
    (hs : Reachable runSpeed pos s) :
    Reachable runSpeed pos (next env runSpeed s e) ↔ honest runSpeed pos s e := by
  obtain ⟨now, hnow⟩ := h
  have hdist : distance now pos ≤ runSpeed * s.elapsed + 10 := hs now hnow
  cases e with
  | mouseCmd x y =>
      -- MOUSE_CMD leaves the position and the time alone
      refine iff_of_true (fun pos' hpos' => ?_) trivial
      exact hs pos' ((mouseCmd_position env runSpeed x y).symm.trans hpos')
  | stopMoving x y =>
      unfold Reachable honest
      obtain ⟨hbelieved, hposition⟩ | ⟨hbelieved, hposition⟩ :=
        stopMoving_position env runSpeed x y hnow
      · -- believed: the new position is the point named, so the two sides are one bound
        simp only [hposition, Option.some.injEq, forall_eq', hbelieved, forall_const]
        rfl
      · -- not believed: it stays, and the guard asks nothing
        refine iff_of_true (fun pos' hpos' => ?_) (fun h => absurd h hbelieved)
        exact Option.some.inj (hposition.symm.trans hpos') ▸ hdist
  | update dt =>
      refine iff_of_true (fun pos' hpos' => ?_) trivial
      obtain ⟨pos'', hposition, hwalk⟩ := update_position env runSpeed dt hnow
      obtain rfl := Option.some.inj (hposition.symm.trans hpos')
      -- the tick adds to the bound what the walk adds to the distance
      calc distance pos'' pos ≤ distance pos'' now + distance now pos := distance_triangle _ _ _
        _ ≤ runSpeed * dt + (runSpeed * s.elapsed + 10) := add_le_add hwalk hdist
        _ = runSpeed * ((s.elapsed + dt : ℝ≥0) : ℝ) + 10 := by
          rw [NNReal.coe_add]
          ring

/-- One STOP_MOVING that is believed moves the character by less than the tolerance. -/
theorem distance_stop {now : Position ℝ} {x y : ℝ} {s : State D} (h : Believed s x y)
    (hnow : s.comps.position = some now) : distance { now with x, y } now ≤ 10 := by
  obtain ⟨_, pos, hpos, hnear⟩ := h
  obtain rfl := Option.some.inj (hnow.symm.trans hpos)
  refine Real.sqrt_le_iff.mpr ⟨by norm_num, ?_⟩
  have hswap : (x - now.x) * (x - now.x) + (y - now.y) * (y - now.y) =
      (now.x - x) * (now.x - x) + (now.y - y) * (now.y - y) := by
    ring
  rw [hswap]
  norm_num
  exact hnear.le

/-- The number of STOP_MOVING packets. -/
def stops (es : List Event) : ℕ :=
  es.countP (fun | .stopMoving _ _ => true | _ => false)

/-- **What the check is worth**: there is one tolerance of 10 for each STOP_MOVING. -/
theorem distance_le_stops (es : List Event) :
    ∃ now, (es.foldl (next env runSpeed) (start comps pos)).comps.position = some now ∧
      distance now pos ≤
        runSpeed * (es.foldl (next env runSpeed) (start comps pos)).elapsed + 10 * stops es := by
  -- the last event is what adds to the distance so far
  induction es using List.reverseRecOn with
  | nil => exact ⟨pos, rfl, by simp [start, stops]⟩
  | append_singleton es e ih =>
      obtain ⟨now, hnow, hdist⟩ := ih
      have hstops : stops (es ++ [e]) = stops es + stops [e] := List.countP_append
      rw [List.foldl_append, List.foldl_cons, List.foldl_nil, hstops, Nat.cast_add]
      generalize es.foldl (next env runSpeed) (start comps pos) = s at hnow hdist ⊢
      cases e with
      | mouseCmd x y =>
          refine ⟨now, (mouseCmd_position env runSpeed x y).trans hnow, ?_⟩
          simpa [stops, next] using hdist
      | stopMoving x y =>
          have hone : stops [.stopMoving x y] = 1 := rfl
          have helapsed : (next env runSpeed s (.stopMoving x y)).elapsed = s.elapsed := rfl
          rw [hone, Nat.cast_one, helapsed]
          obtain ⟨hbelieved, hposition⟩ | ⟨_, hposition⟩ :=
            stopMoving_position env runSpeed x y hnow
          · refine ⟨_, hposition, ?_⟩
            have htriangle := distance_triangle { now with x, y } now pos
            linarith [distance_stop hbelieved hnow]
          · exact ⟨now, hposition, by linarith⟩
      | update dt =>
          obtain ⟨now', hposition, hwalk⟩ :=
            update_position env runSpeed dt hnow
          have hzero : stops [.update dt] = 0 := rfl
          have helapsed : (next env runSpeed s (.update dt)).elapsed = s.elapsed + dt := rfl
          rw [hzero, helapsed, NNReal.coe_add, Nat.cast_zero, mul_add]
          refine ⟨now', hposition, ?_⟩
          linarith [distance_triangle now' now pos]

end Run

/-! ## Two STOP_MOVING -/

/-- A server with no item definitions, with exact coordinates. -/
noncomputable def sampleEnv : Env ℝ where
  mysql := Database.plainMysql
  config := { ip := [], clientPort := 0 }
  itemDef _ _ := none
  scriptLoads _ := true
  front := World.sampleEnv.front
  front_mem := World.sampleEnv.front_mem
  sqrt := Real.sqrt

/-- A character. -/
def character : Components ℝ Unit where
  basic := some { id := 1 }

def origin : Position ℝ := ⟨0, 0, 1⟩

/-- The character stands still, and the client says twice that it stopped 9 further on. -/
def twoStops : List Event :=
  [.stopMoving 9 0, .stopMoving 18 0]

end OsIrose.AntiCheat

/-
Movement and the length of the ticks: `MovementSystem::update`,
`map/src/systems/movementsystem.cpp`.

A tick computes the rest of the way from where the entity is now. `walk_point` says that
this is straight travel at constant speed, so the ticks add up (`Travel.travel_travel`) and
`tick_splitting` gives the position after any sequence of them. Around it stands what one
call of `update` does to one entity among the others: nothing before its turn and nothing
after it.
-/
import OsIrose.AntiCheat
import OsIrose.Travel
import OsIrose.Warpgates
import Mathlib.Analysis.InnerProductSpace.Basic

set_option autoImplicit false

namespace OsIrose.Movement

open AntiCheat (point)
open Travel

/-! ## One walk -/

/-- Where a destination is. -/
def target (dest : Destination ℝ) : ℂ := ⟨dest.x, dest.y⟩

theorem dist_target (pos : Position ℝ) (dest : Destination ℝ) :
    dist (point pos) (target dest) =
      √((dest.x - pos.x) * (dest.x - pos.x) + (dest.y - pos.y) * (dest.y - pos.y)) := by
  rw [dist_comm, Complex.dist_eq, Complex.norm_def, Complex.normSq_apply]
  rfl

theorem lineMap_target (pos : Position ℝ) (dest : Destination ℝ) (t : ℝ) :
    AffineMap.lineMap (point pos) (target dest) t =
      point { pos with
        x := pos.x + (dest.x - pos.x) * t, y := pos.y + (dest.y - pos.y) * t } := by
  rw [AffineMap.lineMap_apply_module']
  apply Complex.ext
  · simp [point, target]
    ring
  · simp [point, target]
    ring

variable {pos : Position ℝ} {dest : Destination ℝ} {runSpeed : ℕ} {dt : ℝ}

/-- The walk ends exactly when the time is enough for the rest of the way. -/
theorem remaining_le_iff (hspeed : 0 < runSpeed) (hdt : 0 ≤ dt) (d : ℝ) :
    ((runSpeed ≠ 0 ∧ d / runSpeed ≤ dt) ∨ d = 0) ↔ d ≤ runSpeed * dt := by
  have hpos : (0 : ℝ) < runSpeed := Nat.cast_pos.mpr hspeed
  rw [div_le_iff₀' hpos]
  constructor
  · rintro (⟨-, h⟩ | rfl)
    · exact h
    · exact mul_nonneg hpos.le hdt
  · exact fun h => .inl ⟨hspeed.ne', h⟩

/-- **A walk is straight travel** at the run speed. -/
theorem walk_point (hspeed : 0 < runSpeed) (hdt : 0 ≤ dt) :
    point (pos.walk Real.sqrt dt dest runSpeed).1 =
      travel runSpeed (point pos) (target dest) dt := by
  have hpos : (0 : ℝ) < runSpeed := Nat.cast_pos.mpr hspeed
  unfold Position.walk
  dsimp only
  rw [← dist_target]
  simp only [remaining_le_iff hspeed hdt]
  split_ifs with harrives hzero
  · rw [travel_of_le harrives]
    rfl
  · exact absurd hzero hspeed.ne'
  · have hlt := not_le.mp harrives
    rw [travel_of_lt hlt (mul_nonneg hpos.le hdt), lineMap_target, div_div_eq_mul_div,
      mul_comm dt]

theorem walk_map : (pos.walk Real.sqrt dt dest runSpeed).1.map = pos.map := by
  unfold Position.walk
  dsimp only
  split <;> rfl

/-- The destination after a walk: gone, or the same place. -/
theorem walk_destination (hspeed : 0 < runSpeed) (hdt : 0 ≤ dt) :
    (dist (point pos) (target dest) ≤ runSpeed * dt ∧
      (pos.walk Real.sqrt dt dest runSpeed).2 = none) ∨
    (runSpeed * dt < dist (point pos) (target dest) ∧
      ∃ d, (pos.walk Real.sqrt dt dest runSpeed).2 = some { dest with dist := d }) := by
  unfold Position.walk
  dsimp only
  rw [← dist_target]
  simp only [remaining_le_iff hspeed hdt]
  split_ifs with harrives hzero
  · exact .inl ⟨harrives, rfl⟩
  · exact .inr ⟨not_le.mp harrives, _, rfl⟩
  · exact .inr ⟨not_le.mp harrives, _, rfl⟩

/-! ## One entity among the others -/

namespace World

/-- The same position and destination of `e`. -/
def SameFor (e : Entity) (w w' : World ℝ) : Prop :=
  w'.position e = w.position e ∧ w'.destination e = w.destination e

variable {w : World ℝ} {e e' : Entity} {dt : ℝ}

theorem teleport_sameFor (hne : e' ≠ e) (mapId : ℕ) (x y : ℝ) :
    SameFor e w (w.teleport e' mapId x y) := by
  unfold teleport
  dsimp only
  split
  · exact ⟨rfl, Function.update_of_ne hne.symm _ _⟩
  · exact ⟨Function.update_of_ne hne.symm _ _, Function.update_of_ne hne.symm _ _⟩

theorem walked_sameFor (hne : e' ≠ e) : SameFor e w (w.walked Real.sqrt dt e') := by
  unfold walked
  split
  · exact ⟨Function.update_of_ne hne.symm _ _, Function.update_of_ne hne.symm _ _⟩
  · exact ⟨rfl, rfl⟩

/-- The tick of another entity. -/
theorem tick_sameFor (hne : e' ≠ e) : SameFor e w (w.tick Real.sqrt dt e') := by
  by_cases hmoves : w.Moves e'
  · rw [tick_eq Real.sqrt dt hmoves]
    have hwalked : SameFor e w (w.walked Real.sqrt dt e') := walked_sameFor hne
    cases ((w.walked Real.sqrt dt e').isOnWarpgate e').bind _ with
    | none => exact hwalked
    | some dest =>
        have hteleport : SameFor e (w.walked Real.sqrt dt e')
            ((w.walked Real.sqrt dt e').teleport e' dest.dist dest.x dest.y) :=
          teleport_sameFor hne dest.dist dest.x dest.y
        exact ⟨hteleport.1.trans hwalked.1, hteleport.2.trans hwalked.2⟩
  · rw [tick_of_not_moves Real.sqrt dt hmoves]
    exact ⟨rfl, rfl⟩

/-- The same entities, run speeds and gates. -/
def SameFrame (w w' : World ℝ) : Prop :=
  w'.entities = w.entities ∧ w'.advanced = w.advanced ∧ w'.warpgate = w.warpgate

theorem SameFrame.trans {w w' w'' : World ℝ} (h : SameFrame w w') (h' : SameFrame w' w'') :
    SameFrame w w'' :=
  ⟨h'.1.trans h.1, h'.2.1.trans h.2.1, h'.2.2.trans h.2.2⟩

theorem walked_frame : SameFrame w (w.walked Real.sqrt dt e) := by
  unfold walked
  split <;> exact ⟨rfl, rfl, rfl⟩

theorem tick_frame : SameFrame w (w.tick Real.sqrt dt e) := by
  by_cases hmoves : w.Moves e
  · rw [tick_eq Real.sqrt dt hmoves]
    have hwalked : SameFrame w (w.walked Real.sqrt dt e) := walked_frame
    cases ((w.walked Real.sqrt dt e).isOnWarpgate e).bind _ with
    | none => exact hwalked
    | some dest =>
        refine hwalked.trans ?_
        rw [Option.elim_some, teleport]
        dsimp only
        split <;> exact ⟨rfl, rfl, rfl⟩
  · rw [tick_of_not_moves Real.sqrt dt hmoves]
    exact ⟨rfl, rfl, rfl⟩

theorem ticks_frame (es : List Entity) : SameFrame w (es.foldl (tick Real.sqrt dt) w) := by
  induction es generalizing w with
  | nil => exact ⟨rfl, rfl, rfl⟩
  | cons x es ih => exact tick_frame.trans ih

/-- The ticks of other entities. -/
theorem ticks_sameFor {es : List Entity} (he : e ∉ es) :
    SameFor e w (es.foldl (tick Real.sqrt dt) w) := by
  induction es generalizing w with
  | nil => exact ⟨rfl, rfl⟩
  | cons x es ih =>
      obtain ⟨hx, hes⟩ := List.ne_and_not_mem_of_not_mem_cons he
      have hhead : SameFor e w (w.tick Real.sqrt dt x) := tick_sameFor hx.symm
      have htail := @ih (w.tick Real.sqrt dt x) hes
      exact ⟨htail.1.trans hhead.1, htail.2.trans hhead.2⟩

/-- The world when `update` comes to `e`. -/
noncomputable def atTurn (dt : ℝ) (w : World ℝ) (e : Entity) : World ℝ :=
  (w.entities.takeWhile (· ≠ e)).foldl (tick Real.sqrt dt) w

/-- `update`, cut at the turn of an entity. -/
theorem update_eq (dt : ℝ) (hnodup : w.entities.Nodup) (he : e ∈ w.entities) :
    ∃ before after : List Entity, e ∉ before ∧ e ∉ after ∧
      w.atTurn dt e = before.foldl (tick Real.sqrt dt) w ∧
      w.update Real.sqrt dt =
        after.foldl (tick Real.sqrt dt) ((w.atTurn dt e).tick Real.sqrt dt e) := by
  obtain ⟨before, after, hsplit⟩ := List.append_of_mem he
  rw [hsplit] at hnodup
  obtain ⟨-, htail, hdisj⟩ := List.nodup_append.mp hnodup
  have hbefore : e ∉ before := fun h => hdisj e h e List.mem_cons_self rfl
  have hturn : w.atTurn dt e = before.foldl (tick Real.sqrt dt) w := by
    unfold atTurn
    rw [hsplit, List.takeWhile_append_of_pos, List.takeWhile_cons_of_neg, List.append_nil]
    · simp
    · intro x hx
      have hxe : x ≠ e := fun h => hbefore (h ▸ hx)
      simpa using hxe
  refine ⟨before, after, hbefore, (List.nodup_cons.mp htail).1, hturn, ?_⟩
  rw [hturn, update, hsplit, List.foldl_append, List.foldl_cons]

/-- **`update` for an entity that is on its way**, where the search for a warpgate finds
nothing. -/
theorem update_walks {pos : Position ℝ} {dest : Destination ℝ} {runSpeed : ℕ}
    (hnodup : w.entities.Nodup) (he : e ∈ w.entities) (hpos : w.position e = some pos)
    (hdest : w.destination e = some dest) (hadvanced : w.advanced e = some runSpeed)
    (hgate : ((w.atTurn dt e).walked Real.sqrt dt e).isOnWarpgate e = none) :
    (w.update Real.sqrt dt).position e = some (pos.walk Real.sqrt dt dest runSpeed).1 ∧
      (w.update Real.sqrt dt).destination e = (pos.walk Real.sqrt dt dest runSpeed).2 := by
  obtain ⟨before, after, hbefore, hafter, hturn, hupdate⟩ := update_eq dt hnodup he
  have hfirst : SameFor e w (w.atTurn dt e) := hturn ▸ ticks_sameFor hbefore
  have hpos' : (w.atTurn dt e).position e = some pos := hfirst.1.trans hpos
  have hdest' : (w.atTurn dt e).destination e = some dest := hfirst.2.trans hdest
  have hadvanced' : (w.atTurn dt e).advanced e = some runSpeed := by
    rw [hturn, (ticks_frame before).2.1, hadvanced]
  have hmoves : (w.atTurn dt e).Moves e := by simp [Moves, hpos', hdest', hadvanced']
  have hlast : SameFor e ((w.atTurn dt e).tick Real.sqrt dt e) (w.update Real.sqrt dt) :=
    hupdate ▸ ticks_sameFor hafter
  have htick : (w.atTurn dt e).tick Real.sqrt dt e = (w.atTurn dt e).walked Real.sqrt dt e := by
    rw [tick_eq Real.sqrt dt hmoves, hgate]
    rfl
  rw [hlast.1, hlast.2, htick]
  unfold walked
  simp only [hpos', hdest', hadvanced']
  exact ⟨Function.update_self _ _ _, Function.update_self _ _ _⟩

/-- `update` for an entity that has arrived. -/
theorem update_rests (hnodup : w.entities.Nodup) (he : e ∈ w.entities)
    (hdest : w.destination e = none) : SameFor e w (w.update Real.sqrt dt) := by
  obtain ⟨before, after, hbefore, hafter, hturn, hupdate⟩ := update_eq dt hnodup he
  have hfirst : SameFor e w (w.atTurn dt e) := hturn ▸ ticks_sameFor hbefore
  have hmoves : ¬ (w.atTurn dt e).Moves e := fun h => h.2.1 (hfirst.2.trans hdest)
  have hlast : SameFor e ((w.atTurn dt e).tick Real.sqrt dt e) (w.update Real.sqrt dt) :=
    hupdate ▸ ticks_sameFor hafter
  rw [tick_of_not_moves Real.sqrt dt hmoves] at hlast
  exact ⟨hlast.1.trans hfirst.1, hlast.2.trans hfirst.2⟩

end World

/-! ## A sequence of ticks -/

/-- An entity that has been sent to `dest`. -/
structure OnTheWay (w : World ℝ) (e : Entity) (pos : Position ℝ) (dest : Destination ℝ)
    (runSpeed : ℕ) : Prop where
  nodup : w.entities.Nodup
  mem : e ∈ w.entities
  position : w.position e = some pos
  destination : w.destination e = some dest
  advanced : w.advanced e = some runSpeed
  speed_pos : 0 < runSpeed

/-- The world after the ticks. -/
noncomputable def after (w : World ℝ) (ticks : List ℝ) : World ℝ :=
  ticks.foldl (World.update Real.sqrt) w

theorem after_concat (w : World ℝ) (ticks : List ℝ) (dt : ℝ) :
    after w (ticks ++ [dt]) = (after w ticks).update Real.sqrt dt := by
  unfold after
  rw [List.foldl_append, List.foldl_cons, List.foldl_nil]

/-- Whenever a tick has moved the entity, the search for a warpgate finds nothing. -/
def NoGateInReach (w : World ℝ) (e : Entity) (ticks : List ℝ) : Prop :=
  ∀ p dt, p ++ [dt] <+: ticks → (after w p).destination e ≠ none →
    (((after w p).atTurn dt e).walked Real.sqrt dt e).isOnWarpgate e = none

theorem after_frame (w : World ℝ) (ticks : List ℝ) : World.SameFrame w (after w ticks) := by
  induction ticks using List.reverseRecOn with
  | nil => exact ⟨rfl, rfl, rfl⟩
  | append_singleton ticks dt ih =>
      rw [after_concat]
      exact ih.trans (World.ticks_frame _)

/-- A world without gates. -/
theorem noGateInReach_of_no_gates {w : World ℝ} (hw : ∀ g, w.warpgate g = false) (e : Entity)
    (ticks : List ℝ) : NoGateInReach w e ticks := by
  intro p dt _ _
  have hframe : World.SameFrame w (((after w p).atTurn dt e).walked Real.sqrt dt e) :=
    ((after_frame w p).trans (World.ticks_frame _)).trans World.walked_frame
  apply Option.eq_none_iff_forall_ne_some.mpr
  intro g hg
  obtain ⟨-, -, -, -, -, hgate, -⟩ := World.isOnWarpgate_eq_some_iff.mp hg
  rw [hframe.2.2, hw g] at hgate
  exact Bool.false_ne_true hgate

/-- Where the entity is after a time `t`. -/
noncomputable def placeAt (pos : Position ℝ) (dest : Destination ℝ) (runSpeed : ℕ) (t : ℝ) :
    Position ℝ :=
  let D := √((dest.x - pos.x) * (dest.x - pos.x) + (dest.y - pos.y) * (dest.y - pos.y))
  { pos with
    x := pos.x + (dest.x - pos.x) * min 1 (runSpeed * t / D)
    y := pos.y + (dest.y - pos.y) * min 1 (runSpeed * t / D) }

theorem point_placeAt (pos : Position ℝ) (dest : Destination ℝ) (runSpeed : ℕ) (t : ℝ) :
    point (placeAt pos dest runSpeed t) = travel runSpeed (point pos) (target dest) t := by
  rw [travel, dist_target, lineMap_target]
  rfl

/-- Positions on one map are points. -/
theorem position_ext {pos pos' : Position ℝ} (hmap : pos.map = pos'.map)
    (hpoint : point pos = point pos') : pos = pos' := by
  obtain ⟨x, y, map⟩ := pos
  obtain ⟨x', y', map'⟩ := pos'
  obtain ⟨hx, hy⟩ := Complex.mk.injEq .. ▸ hpoint
  simp_all

section Run

variable {w : World ℝ} {e : Entity} {pos : Position ℝ} {dest : Destination ℝ} {runSpeed : ℕ}

/-- What holds after a sequence of ticks. -/
structure Progress (w : World ℝ) (e : Entity) (pos : Position ℝ) (dest : Destination ℝ)
    (runSpeed : ℕ) (ticks : List ℝ) : Prop where
  position : (after w ticks).position e = some (placeAt pos dest runSpeed ticks.sum)
  destination :
    ((after w ticks).destination e = none ∧ ticks ≠ [] ∧
      dist (point pos) (target dest) ≤ runSpeed * ticks.sum) ∨
    ((∃ d, (after w ticks).destination e = some { dest with dist := d }) ∧
      (ticks = [] ∨ runSpeed * ticks.sum < dist (point pos) (target dest)))

theorem progress_nil (h : OnTheWay w e pos dest runSpeed) : Progress w e pos dest runSpeed [] where
  position := by
    refine h.position.trans (congrArg some (position_ext rfl ?_))
    rw [point_placeAt, List.sum_nil, travel_zero]
  destination := .inr ⟨⟨dest.dist, h.destination⟩, .inl rfl⟩

/-- **One more tick.** -/
theorem progress_concat (h : OnTheWay w e pos dest runSpeed) {ticks : List ℝ} {dt : ℝ}
    (hsum : 0 ≤ ticks.sum) (hdt : 0 ≤ dt) (hp : Progress w e pos dest runSpeed ticks)
    (hgate : (after w ticks).destination e ≠ none →
      (((after w ticks).atTurn dt e).walked Real.sqrt dt e).isOnWarpgate e = none) :
    Progress w e pos dest runSpeed (ticks ++ [dt]) := by
  have hspeed : (0 : ℝ) < runSpeed := Nat.cast_pos.mpr h.speed_pos
  have htime : 0 ≤ runSpeed * ticks.sum := mul_nonneg hspeed.le hsum
  have hstep : 0 ≤ runSpeed * dt := mul_nonneg hspeed.le hdt
  have htotal : (ticks ++ [dt]).sum = ticks.sum + dt := by simp
  have hmul : runSpeed * (ticks.sum + dt) = runSpeed * ticks.sum + runSpeed * dt := mul_add _ _ _
  obtain ⟨hentities, hadvanced, -⟩ := after_frame w ticks
  have hnodup : (after w ticks).entities.Nodup := hentities ▸ h.nodup
  have hmem : e ∈ (after w ticks).entities := hentities ▸ h.mem
  rcases hp.destination with ⟨hnone, -, hdone⟩ | ⟨⟨d, hsome⟩, hway⟩
  · -- arrived before: nothing moves it any more
    have hrests := @World.update_rests (after w ticks) e dt hnodup hmem hnone
    have hdone' : dist (point pos) (target dest) ≤ runSpeed * (ticks.sum + dt) := by linarith
    refine ⟨?_, .inl ⟨?_, by simp, htotal ▸ hdone'⟩⟩
    · rw [after_concat, hrests.1, hp.position, htotal]
      refine congrArg some (position_ext rfl ?_)
      rw [point_placeAt, point_placeAt, travel_of_le hdone, travel_of_le hdone']
    · rw [after_concat, hrests.2, hnone]
  · -- on the way: the rest of it is what the time so far has left
    have hrest : runSpeed * ticks.sum ≤ dist (point pos) (target dest) := by
      rcases hway with rfl | hlt
      · rw [List.sum_nil, mul_zero]
        exact dist_nonneg
      · exact hlt.le
    have hleft := dist_travel hrest htime
    have hspeed' : (after w ticks).advanced e = some runSpeed := by rw [hadvanced, h.advanced]
    obtain ⟨hpos', hdest'⟩ := World.update_walks hnodup hmem hp.position hsome hspeed'
      (hgate (by simp [hsome]))
    have htarget : target { dest with dist := d } = target dest := rfl
    refine ⟨?_, ?_⟩
    · rw [after_concat, hpos', htotal]
      refine congrArg some (position_ext walk_map ?_)
      rw [walk_point h.speed_pos hdt, htarget, point_placeAt, point_placeAt,
        travel_travel htime hstep]
    · rw [after_concat, hdest', htotal]
      rcases @walk_destination (placeAt pos dest runSpeed ticks.sum) { dest with dist := d }
        runSpeed dt h.speed_pos hdt with ⟨hle, hnone⟩ | ⟨hlt, d', hsome'⟩
      · rw [htarget, point_placeAt, hleft] at hle
        exact .inl ⟨hnone, by simp, by linarith⟩
      · rw [htarget, point_placeAt, hleft] at hlt
        exact .inr ⟨⟨d', hsome'⟩, .inr (by linarith)⟩

/-- **After every part of the ticks.** -/
theorem progress_of_prefix (h : OnTheWay w e pos dest runSpeed) {ticks : List ℝ}
    (hticks : ∀ dt ∈ ticks, 0 ≤ dt) (hgate : NoGateInReach w e ticks) (p : List ℝ)
    (hp : p <+: ticks) : Progress w e pos dest runSpeed p := by
  induction p using List.reverseRecOn with
  | nil => exact progress_nil h
  | append_singleton p dt ih =>
      have hshort : p <+: ticks := (List.prefix_append p [dt]).trans hp
      have hsum : 0 ≤ p.sum := List.sum_nonneg fun t ht => hticks t (hshort.subset ht)
      have hdt : 0 ≤ dt := hticks dt (hp.subset (by simp))
      exact progress_concat h hsum hdt (ih hshort) (hgate p dt hp)

end Run

/-- One character on its way over 10 at a run speed of 5, and no gates. -/
def onePlayer : World ℝ where
  entities := [0]
  position e := if e = 0 then some ⟨3001, 3001, 1⟩ else none
  destination e := if e = 0 then some ⟨3007, 3009, 0⟩ else none
  advanced e := if e = 0 then some 5 else none
  basic _ := true
  warpgate _ := false
  client _ := true
  grid _ := []

end OsIrose.Movement

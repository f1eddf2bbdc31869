/-
Straight travel at constant speed, in any real normed space.

`travel s a b t` is where one is who set out from `a` to `b` at speed `s`, after the time
`t`: on the segment, and at `b` once the way is done. Travelling for `t` and setting out
again from there for `u` is travelling for `t + u` (`travel_travel`), so how a time is cut
into pieces does not matter.
-/
import Mathlib.Analysis.Normed.Affine.AddTorsor

set_option autoImplicit false

namespace OsIrose.Travel

open AffineMap (lineMap)

variable {E : Type*} [NormedAddCommGroup E] [NormedSpace ℝ E] {s : ℝ} {a b : E} {t u : ℝ}

/-- The point reached from `a` towards `b` at speed `s` after the time `t`. -/
noncomputable def travel (s : ℝ) (a b : E) (t : ℝ) : E := lineMap a b (min 1 (s * t / dist a b))

/-- The way is done. -/
theorem travel_of_le (h : dist a b ≤ s * t) : travel s a b t = b := by
  unfold travel
  rcases eq_or_lt_of_le (dist_nonneg (x := a) (y := b)) with hzero | hpos
  · have hab : a = b := dist_eq_zero.mp hzero.symm
    rw [hab, AffineMap.lineMap_same, AffineMap.const_apply]
  · have hone : 1 ≤ s * t / dist a b := (one_le_div hpos).mpr h
    rw [min_eq_left hone, AffineMap.lineMap_apply_one]

/-- On the way. -/
theorem travel_of_lt (h : s * t < dist a b) (ht : 0 ≤ s * t) :
    travel s a b t = lineMap a b (s * t / dist a b) := by
  have hone : s * t / dist a b ≤ 1 := (div_le_one (ht.trans_lt h)).mpr h.le
  rw [travel, min_eq_right hone]

theorem travel_zero : travel s a b 0 = a := by
  rw [travel, mul_zero, zero_div, min_eq_right zero_le_one, AffineMap.lineMap_apply_zero]

/-- What is left of the way. -/
theorem dist_travel (h : s * t ≤ dist a b) (ht : 0 ≤ s * t) :
    dist (travel s a b t) b = dist a b - s * t := by
  rcases eq_or_lt_of_le h with heq | hlt
  · rw [travel_of_le heq.ge, dist_self, heq, sub_self]
  · have hpos : 0 < dist a b := ht.trans_lt hlt
    have hone : s * t / dist a b ≤ 1 := (div_le_one hpos).mpr h
    rw [travel_of_lt hlt ht, dist_lineMap_right, Real.norm_of_nonneg (by linarith)]
    field_simp

/-- **Setting out again on the way.** -/
theorem travel_travel (ht : 0 ≤ s * t) (hu : 0 ≤ s * u) :
    travel s (travel s a b t) b u = travel s a b (t + u) := by
  have hsum : s * (t + u) = s * t + s * u := mul_add s t u
  by_cases h : dist a b ≤ s * t
  · -- already there
    have hafter : dist a b ≤ s * (t + u) := by linarith
    rw [travel_of_le h, travel_of_le hafter, travel, AffineMap.lineMap_same,
      AffineMap.const_apply]
  · have hlt : s * t < dist a b := not_le.mp h
    have hrest := dist_travel hlt.le ht
    by_cases hdone : dist a b ≤ s * (t + u)
    · have hdone' : dist (travel s a b t) b ≤ s * u := by linarith
      rw [travel_of_le hdone, travel_of_le hdone']
    · -- the fraction of the rest is the fraction of the whole way
      have hlt' : s * (t + u) < dist a b := not_le.mp hdone
      have hu' : s * u < dist (travel s a b t) b := by linarith
      rw [travel_of_lt hu' hu, hrest, travel_of_lt hlt' (by linarith), travel_of_lt hlt ht,
        AffineMap.lineMap_lineMap_left]
      have hpos : dist a b ≠ 0 := (ht.trans_lt hlt).ne'
      have hrestpos : dist a b - s * t ≠ 0 := by linarith
      congr 1
      field_simp
      ring

end OsIrose.Travel

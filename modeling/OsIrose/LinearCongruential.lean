/-
Drawing numbers from a generator until one will do, and linear congruential generators.

A generator is a step on its state. `drawWhile` is the loop that draws once, and again as long
as the number is refused; it is run with a bound on the number of draws, which does not matter
once some number in its reach will do (`drawWhile_eq`). `drawWithin` tells whether the bound was
reached.

A step `x ↦ a * x + c` modulo `2 ^ k` with `a` one more than a multiple of four and `c` odd goes
through all `2 ^ k` states, from whatever it starts (`exists_iterate_next`), so such a loop ends
if any state will do. The reason is that `2 ^ k` steps add `2 ^ k` to the state, up to a multiple
of `2 ^ (k + 1)` (`exists_iterate_two_pow`).
-/
import Mathlib.Data.Nat.ModEq
import Mathlib.Logic.Function.Iterate
import Mathlib.Tactic.Ring

set_option autoImplicit false

namespace OsIrose.LinearCongruential

open Function

/-! ## Drawing -/

section Draw

variable {σ τ : Type*}

/-- `do s = step(s); while (again(s));`, at most `fuel` times more than once. -/
def drawWhile (step : σ → σ) (again : σ → Bool) : (fuel : ℕ) → σ → σ
  | 0, s => step s
  | fuel + 1, s => if again (step s) then drawWhile step again fuel (step s) else step s

variable {step : σ → σ} {again : σ → Bool}

/-- What is drawn is a state after a step. -/
theorem exists_drawWhile_eq (step : σ → σ) (again : σ → Bool) (fuel : ℕ) (s : σ) :
    ∃ s', drawWhile step again fuel s = step s' := by
  induction fuel generalizing s with
  | zero => exact ⟨s, rfl⟩
  | succ fuel ih =>
      rw [drawWhile]
      split_ifs
      · exact ih (step s)
      · exact ⟨s, rfl⟩

/-- The loop stops at the first state that will do. -/
theorem drawWhile_eq {fuel m : ℕ} {s : σ} (hm : m ≤ fuel)
    (hagain : ∀ i, i < m → again (step^[i + 1] s) = true)
    (hstop : again (step^[m + 1] s) = false) :
    drawWhile step again fuel s = step^[m + 1] s := by
  induction m generalizing fuel s with
  | zero =>
      rw [zero_add, iterate_one] at hstop ⊢
      cases fuel with
      | zero => rfl
      | succ fuel => rw [drawWhile, hstop, if_neg (by decide)]
  | succ m ih =>
      obtain ⟨fuel, rfl⟩ : ∃ n, fuel = n + 1 := ⟨fuel - 1, by omega⟩
      have hfirst : again (step s) = true := hagain 0 (by omega)
      rw [drawWhile, if_pos hfirst, iterate_succ_apply]
      refine ih (by omega) (fun i hi => ?_) ?_
      · rw [← iterate_succ_apply]
        exact hagain (i + 1) (by omega)
      · rw [← iterate_succ_apply]
        exact hstop

/-- There is a first one, if there is one. -/
theorem exists_first {n : ℕ} {s : σ} (h : again (step^[n + 1] s) = false) :
    ∃ m, m ≤ n ∧ (∀ i, i < m → again (step^[i + 1] s) = true) ∧
      again (step^[m + 1] s) = false := by
  have hex : ∃ m, again (step^[m + 1] s) = false := ⟨n, h⟩
  refine ⟨Nat.find hex, Nat.find_min' hex h, fun i hi => ?_, Nat.find_spec hex⟩
  rw [← Bool.not_eq_false]
  exact Nat.find_min hex hi

/-- A state that will do is drawn, if there is one in reach. -/
theorem again_drawWhile {fuel n : ℕ} {s : σ} (hn : n ≤ fuel)
    (h : again (step^[n + 1] s) = false) : again (drawWhile step again fuel s) = false := by
  obtain ⟨m, hm, hagain, hstop⟩ := exists_first h
  rw [drawWhile_eq (hm.trans hn) hagain hstop]
  exact hstop

/-- The loop with at most `fuel` draws; `none` if it has not ended by then. -/
def drawWithin (step : σ → σ) (again : σ → Bool) : (fuel : ℕ) → σ → Option σ
  | 0, _ => none
  | fuel + 1, s =>
      if again (step s) then drawWithin step again fuel (step s) else some (step s)

/-- It ends if some state in reach will do. -/
theorem exists_drawWithin {fuel n : ℕ} {s : σ} (hn : n < fuel)
    (h : again (step^[n + 1] s) = false) :
    ∃ s', drawWithin step again fuel s = some s' ∧ again s' = false := by
  induction fuel generalizing n s with
  | zero => exact absurd hn (Nat.not_lt_zero n)
  | succ fuel ih =>
      rw [drawWithin]
      by_cases hfirst : again (step s) = true
      · rw [if_pos hfirst]
        -- the state that will do is a later one
        cases n with
        | zero =>
            rw [zero_add, iterate_one, hfirst] at h
            exact absurd h Bool.true_eq_false.mp
        | succ n => exact ih (Nat.lt_of_succ_lt_succ hn) h
      · rw [if_neg hfirst]
        exact ⟨step s, rfl, Bool.eq_false_of_not_eq_true hfirst⟩

/-- A bound that is not reached makes no difference. -/
theorem drawWhile_of_drawWithin {fuel : ℕ} {s s' : σ}
    (h : drawWithin step again fuel s = some s') : drawWhile step again fuel s = s' := by
  induction fuel generalizing s with
  | zero => exact absurd h (by simp [drawWithin])
  | succ fuel ih =>
      rw [drawWithin] at h
      rw [drawWhile]
      split_ifs at h ⊢ with hfirst
      · exact ih h
      · exact Option.some.inj h

/-- Two generators of which one simulates the other draw the same. -/
theorem drawWhile_map {step' : τ → τ} {again' : τ → Bool} {abs : τ → σ}
    (hstep : ∀ t, step (abs t) = abs (step' t))
    (hagain : ∀ t, again (abs (step' t)) = again' (step' t))
    (fuel : ℕ) (t : τ) :
    drawWhile step again fuel (abs t) = abs (drawWhile step' again' fuel t) := by
  induction fuel generalizing t with
  | zero => exact hstep t
  | succ fuel ih =>
      rw [drawWhile, drawWhile, hstep, hagain, ih, apply_ite abs]

end Draw

/-! ## Linear congruential generators -/

/-- A step without the modulus. -/
def affine (a c x : ℕ) : ℕ := a * x + c

/-- A step of the generator. -/
def next (a c m x : ℕ) : ℕ := (a * x + c) % m

/-- Numbers that agree modulo `m` and not modulo `2 * m` differ by `m` there. -/
theorem modEq_add_half {m u v : ℕ} (hm : 0 < m) (h : u ≡ v [MOD m])
    (hne : ¬ u ≡ v [MOD m * 2]) : u + m ≡ v [MOD m * 2] := by
  rw [Nat.ModEq, Nat.mod_mul, Nat.mod_mul] at hne ⊢
  rw [Nat.ModEq] at h
  rw [Nat.add_mod_right, Nat.add_div_right u hm, h]
  rw [h] at hne
  have hbit : u / m % 2 ≠ v / m % 2 := fun heq => hne (by rw [heq])
  have hflip : (u / m + 1) % 2 = v / m % 2 := by omega
  rw [← hflip]

section Period

variable {a c : ℕ}

theorem next_lt {m : ℕ} (hm : 0 < m) (x : ℕ) : next a c m x < m := Nat.mod_lt _ hm

theorem iterate_next_modEq (m n x : ℕ) : (next a c m)^[n] x ≡ (affine a c)^[n] x [MOD m] := by
  induction n with
  | zero => rfl
  | succ n ih =>
      rw [iterate_succ_apply', iterate_succ_apply', next, affine]
      exact (Nat.mod_modEq _ m).trans ((ih.mul_left a).add_right c)

variable (ha : a % 4 = 1) (hc : c % 2 = 1)

include ha hc

/-- `2 ^ k` steps are one affine step, whose coefficients are known up to a power of two. -/
theorem exists_iterate_two_pow (k : ℕ) :
    ∃ s t, ∀ x, (affine a c)^[2 ^ k] x = x + 2 ^ k * (2 * s + 1) + 2 ^ (k + 2) * (t * x) := by
  induction k with
  | zero =>
      refine ⟨c / 2, a / 4, fun x => ?_⟩
      have ha' : a = 1 + 4 * (a / 4) := by omega
      have hc' : c = 2 * (c / 2) + 1 := by omega
      rw [pow_zero, iterate_one, affine]
      conv_lhs => rw [ha', hc']
      ring
  | succ k ih =>
      -- twice the half
      obtain ⟨s, t, h⟩ := ih
      refine ⟨s + 2 ^ k * t * (2 * s + 1), t + 2 ^ (k + 1) * t * t, fun x => ?_⟩
      rw [pow_succ, mul_two, iterate_add_apply, h, h]
      ring

/-- `2 ^ k` steps add `2 ^ k`, modulo `2 ^ (k + 1)`. -/
theorem iterate_two_pow_modEq (k x : ℕ) :
    (affine a c)^[2 ^ k] x ≡ x + 2 ^ k [MOD 2 ^ (k + 1)] := by
  obtain ⟨s, t, h⟩ := exists_iterate_two_pow ha hc k
  have hsum : (affine a c)^[2 ^ k] x = x + 2 ^ k + 2 ^ (k + 1) * (s + 2 * (t * x)) := by
    rw [h]
    ring
  rw [hsum]
  exact (Nat.modEq_zero_iff_dvd.mpr (dvd_mul_right _ _)).add_left (x + 2 ^ k)

/-- Every residue is met within the first `2 ^ k` states. -/
theorem exists_iterate_modEq (k x y : ℕ) :
    ∃ n, n < 2 ^ k ∧ (affine a c)^[n] x ≡ y [MOD 2 ^ k] := by
  induction k with
  | zero => exact ⟨0, by decide, by rw [pow_zero]; exact Nat.modEq_one⟩
  | succ k ih =>
      obtain ⟨n, hn, hmod⟩ := ih
      rw [pow_succ]
      -- the bit in front is right, or it is after `2 ^ k` steps more
      by_cases hbit : (affine a c)^[n] x ≡ y [MOD 2 ^ (k + 1)]
      · exact ⟨n, by omega, by rw [← pow_succ]; exact hbit⟩
      · refine ⟨2 ^ k + n, by omega, ?_⟩
        rw [pow_succ] at hbit
        have hother := modEq_add_half (Nat.two_pow_pos k) hmod hbit
        rw [← pow_succ] at hother
        rw [iterate_add_apply, ← pow_succ]
        exact (iterate_two_pow_modEq ha hc k _).trans hother

/-- **All states are met**, whatever the first one is. -/
theorem exists_iterate_next {k x y : ℕ} (hy : y < 2 ^ k) :
    ∃ n, n < 2 ^ k ∧ (next a c (2 ^ k))^[n + 1] x = y := by
  obtain ⟨n, hn, hmod⟩ := exists_iterate_modEq ha hc k (affine a c x) y
  refine ⟨n, hn, ?_⟩
  rw [← iterate_succ_apply] at hmod
  have heq := (iterate_next_modEq (2 ^ k) (n + 1) x).trans hmod
  rw [iterate_succ_apply'] at heq ⊢
  rwa [Nat.ModEq, Nat.mod_eq_of_lt hy, Nat.mod_eq_of_lt (next_lt (Nat.two_pow_pos k) _)] at heq

end Period

end OsIrose.LinearCongruential

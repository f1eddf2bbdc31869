/-
A state behind a mutex that is not recursive.

A computation ends with a state or never ends (`none`). What takes the mutex never ends where
the mutex is held already, as it is all the while inside of `locked`. So a loop inside of
`locked` ends if and only if no round of it takes the mutex, wherever it has got to
(`isSome_foldlM_iff`).
-/
import Mathlib.Data.List.Basic
import Mathlib.Data.Option.Basic

set_option autoImplicit false

namespace OsIrose

/-- A state, and whether its mutex is held. -/
structure Mutex (σ : Type*) where
  val : σ
  held : Bool := false

namespace Mutex

variable {σ ε : Type*}

/-- `std::lock_guard` around a computation. -/
def locked (f : Mutex σ → Option (Mutex σ)) (m : Mutex σ) : Option (Mutex σ) :=
  if m.held then none
  else (f { m with held := true }).map (fun m => { m with held := false })

/-- A computation that does not look at the mutex. -/
def modify (f : σ → σ) (m : Mutex σ) : Option (Mutex σ) :=
  some { m with val := f m.val }

variable {f : Mutex σ → Option (Mutex σ)} {m : Mutex σ}

theorem locked_of_held (h : m.held = true) : locked f m = none :=
  if_pos h

theorem locked_of_free (h : m.held = false) : locked f m =
    (f { m with held := true }).map (fun m => { m with held := false }) := by
  simp [locked, h]

theorem isSome_locked_iff (h : m.held = false) :
    (locked f m).isSome ↔ (f { m with held := true }).isSome := by
  rw [locked_of_free h, Option.isSome_map]

theorem locked_modify (h : m.held = false) (g : σ → σ) :
    locked (modify g) m = some { m with val := g m.val } := by
  rw [locked_of_free h, modify, Option.map_some, ← h]

/-! ## Loops inside -/

section Loop

variable {step : Mutex σ → ε → Option (Mutex σ)} {guard : σ → ε → Prop} {next : σ → ε → σ}

/-- The rounds that end. -/
structure Rounds (step : Mutex σ → ε → Option (Mutex σ)) (guard : σ → ε → Prop)
    (next : σ → ε → σ) : Prop where
  ends : ∀ m e, m.held = true → guard m.val e → step m e = some { m with val := next m.val e }
  never : ∀ m e, m.held = true → ¬ guard m.val e → step m e = none

theorem Rounds.eq_of_isSome (h : Rounds step guard next) {es : List ε} (hm : m.held = true)
    (hsome : (es.foldlM step m).isSome) :
    es.foldlM step m = some { m with val := es.foldl next m.val } := by
  induction es generalizing m with
  | nil => rfl
  | cons e es ih =>
      rw [List.foldlM_cons] at hsome ⊢
      by_cases hguard : guard m.val e
      · rw [h.ends m e hm hguard] at hsome ⊢
        exact ih hm hsome
      · rw [h.never m e hm hguard] at hsome
        exact absurd hsome (by simp)

/-- **A loop ends** if and only if every round of it does. -/
theorem Rounds.isSome_foldlM_iff (h : Rounds step guard next) {es : List ε}
    (hm : m.held = true) : (es.foldlM step m).isSome ↔
      ∀ l e l', es = l ++ e :: l' → guard (l.foldl next m.val) e := by
  induction es generalizing m with
  | nil => exact iff_of_true rfl fun l e l' hes => by simp at hes
  | cons e es ih =>
      rw [List.foldlM_cons]
      by_cases hguard : guard m.val e
      · rw [h.ends m e hm hguard]
        refine (ih (m := { m with val := next m.val e }) hm).trans ⟨fun hall => ?_, fun hall => ?_⟩
        · intro l e' l' hes
          cases l with
          | nil =>
              obtain ⟨rfl, rfl⟩ := List.cons.inj hes
              exact hguard
          | cons e'' l =>
              obtain ⟨rfl, rfl⟩ := List.cons.inj hes
              exact hall l e' l' rfl
        · rintro l e' l' rfl
          exact hall (e :: l) e' l' rfl
      · rw [h.never m e hm hguard]
        exact iff_of_false (by simp) fun hall => hguard (hall [] e es rfl)

end Loop

end Mutex

end OsIrose

/-
Places that hold things.

Each place of a finite set holds a value; some values are `vacant`, and some can be split
in two (`Goods`). A `Move` is anything that loses nothing: two places are exchanged, a
value is put in a vacant place, the value of a place is taken out, or a part of it is.
Nothing else may be written over a value. For every weight that counts vacant values as
nothing and a split value as its two parts (`Weighs`), a move changes the total weight by
what it puts in and what it takes out (`Move.total`).
-/
import Mathlib.Algebra.BigOperators.Group.Finset.Basic
import Mathlib.Algebra.BigOperators.Group.Finset.Piecewise
import Mathlib.Logic.Equiv.Basic
import Mathlib.Logic.Function.Basic

set_option autoImplicit false

namespace OsIrose.Holdings

open Function

variable {ι α M : Type*} [DecidableEq ι] [AddCancelCommMonoid M]

/-! ## The weight of all places -/

/-- The weight of what the places of `S` hold. -/
def total (w : α → M) (S : Finset ι) (f : ι → α) : M :=
  ∑ i ∈ S, w (f i)

theorem total_update (w : α → M) {S : Finset ι} (f : ι → α) {i : ι} (hi : i ∈ S) (x : α) :
    total w S (update f i x) + w (f i) = total w S f + w x := by
  have hrest : ∑ j ∈ S.erase i, w (update f i x j) = ∑ j ∈ S.erase i, w (f j) :=
    Finset.sum_congr rfl (fun j hj => by rw [update_of_ne (Finset.ne_of_mem_erase hj)])
  simp only [total, ← Finset.add_sum_erase S _ hi, update_self, hrest]
  rw [add_right_comm, add_comm (w x), add_right_comm]

theorem total_swap (w : α → M) {S : Finset ι} (f : ι → α) {a b : ι} (ha : a ∈ S) (hb : b ∈ S) :
    total w S (f ∘ Equiv.swap a b) = total w S f := by
  refine Finset.sum_equiv (Equiv.swap a b) (fun i => ?_) (fun i _ => rfl)
  by_cases hia : i = a
  · simp [hia, ha, hb]
  · by_cases hib : i = b
    · simp [hib, ha, hb]
    · rw [Equiv.swap_apply_of_ne_of_ne hia hib]

/-! ## Moves -/

/-- What can be held: the vacant values, one of which is left where something is taken
out, and how a value splits into what remains and what is taken. -/
structure Goods (α : Type*) where
  vacant : α → Prop
  empty : α
  vacant_empty : vacant empty
  splits : α → α → α → Prop

/-- A weight that fits the goods. -/
structure Goods.Weighs (g : Goods α) (w : α → M) : Prop where
  vacant : ∀ x, g.vacant x → w x = 0
  splits : ∀ x rest part, g.splits x rest part → w x = w rest + w part

/-- What happens to the places, with what is put in and what is taken out. -/
inductive Move (g : Goods α) (S : Finset ι) (f : ι → α) :
    Option α → Option α → (ι → α) → Prop
  | stay : Move g S f none none f
  /-- Nothing is taken. -/
  | nothing : Move g S f none (some g.empty) f
  | swap {a b : ι} (ha : a ∈ S) (hb : b ∈ S) : Move g S f none none (f ∘ Equiv.swap a b)
  | put {i : ι} (hi : i ∈ S) (x : α) (hvacant : g.vacant (f i)) :
      Move g S f (some x) none (update f i x)
  | take {i : ι} (hi : i ∈ S) : Move g S f none (some (f i)) (update f i g.empty)
  | part {i : ι} (hi : i ∈ S) {rest part : α} (hsplits : g.splits (f i) rest part) :
      Move g S f none (some part) (update f i rest)

/-- The weight of what may be there. -/
def weight? (w : α → M) (x : Option α) : M :=
  (x.map w).getD 0

@[simp] theorem weight?_none (w : α → M) : weight? w none = 0 := rfl

@[simp] theorem weight?_some (w : α → M) (x : α) : weight? w (some x) = w x := rfl

variable {g : Goods α} {w : α → M} {S : Finset ι} {f f' : ι → α} {put taken : Option α}

/-- **A move loses nothing.** -/
theorem Move.total (hw : g.Weighs w) (h : Move g S f put taken f') :
    total w S f' + weight? w taken = total w S f + weight? w put := by
  cases h with
  | stay => rfl
  | nothing => simp [hw.vacant _ g.vacant_empty]
  | swap ha hb => simp [total_swap w f ha hb]
  | put hi x hvacant => simpa [hw.vacant _ hvacant] using total_update w f hi x
  | take hi => simpa [hw.vacant _ g.vacant_empty] using total_update w f hi g.empty
  | @part i hi rest part hsplits =>
      -- what the place loses is the part taken
      have hupdate := total_update w f hi rest
      rw [hw.splits _ _ _ hsplits, add_comm (w rest), ← add_assoc] at hupdate
      simpa using add_right_cancel hupdate

end OsIrose.Holdings

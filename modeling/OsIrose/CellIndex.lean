/-
An index of entities by cell.

Each cell has a vector of the entities in it. The index is `Exact` for the cells the
entities belong to if each entity stands once in its cell and nowhere else. The total
length of the vectors is then the number of entities that have a cell (`Exact.size_eq`).
`std::remove` without an `erase` moves what is kept to the front and leaves the length as
it was, so an index that is maintained with it cannot forget an entity.
-/
import OsIrose.Holdings
import Mathlib.Algebra.BigOperators.Group.Finset.Sigma
import Mathlib.Data.Fintype.Basic

set_option autoImplicit false

namespace OsIrose.CellIndex

open Function

variable {κ ε : Type*} [DecidableEq κ] [DecidableEq ε]

/-- `std::remove(l.begin(), l.end(), e)`: the elements behind the new end keep the values
they had. -/
def stdRemove (l : List ε) (e : ε) : List ε :=
  l.filter (· ≠ e) ++ l.drop (l.filter (· ≠ e)).length

@[simp] theorem length_stdRemove (l : List ε) (e : ε) : (stdRemove l e).length = l.length := by
  have hle : (l.filter (· ≠ e)).length ≤ l.length := List.length_filter_le _ _
  simp only [stdRemove, List.length_append, List.length_drop]
  omega

/-- Every entity stands once in its cell and in no other; entities without a cell stand
nowhere. -/
def Exact (grid : κ → List ε) (cell : ε → Option κ) : Prop :=
  ∀ e c, (grid c).count e = if cell e = some c then 1 else 0

variable {grid : κ → List ε} {cell : ε → Option κ}

theorem Exact.mem_iff (h : Exact grid cell) {e : ε} {c : κ} : e ∈ grid c ↔ cell e = some c := by
  rw [← List.count_pos_iff, h e c]
  split <;> simp_all

/-- A new entity is pushed to the vector of its cell. -/
theorem Exact.push (h : Exact grid cell) {e : ε} (hnew : cell e = none) (c : κ) :
    Exact (update grid c (grid c ++ [e])) (update cell e (some c)) := by
  intro x d
  by_cases hx : x = e
  · subst hx
    by_cases hd : d = c
    · simp [hd, h x c, hnew]
    · simp [hd, h x d, hnew, Ne.symm hd]
  · by_cases hd : d = c
    · simp [hx, hd, h x c, Ne.symm hx]
    · simp [hx, hd, h x d]

/-- An entity that changes its cell without the index being told is at the wrong place. -/
theorem Exact.move_iff (h : Exact grid cell) {e : ε} {c : κ} (he : cell e = some c) (c' : κ) :
    Exact grid (update cell e (some c')) ↔ c' = c := by
  constructor
  · intro h'
    have hcount := h' e c
    rw [h e c, if_pos he] at hcount
    by_contra hne
    simp [hne] at hcount
  · rintro rfl
    rwa [← he, update_eq_self]

section Size

variable [Fintype κ]

/-- The total length of the vectors. -/
def size (grid : κ → List ε) : ℕ :=
  ∑ c, (grid c).length

omit [DecidableEq ε] in
theorem size_update (grid : κ → List ε) (c : κ) (l : List ε) :
    size (update grid c l) + (grid c).length = size grid + l.length :=
  Holdings.total_update List.length grid (Finset.mem_univ c) l

omit [Fintype κ] in
theorem Exact.length_eq (h : Exact grid cell) {S : Finset ε} (hS : ∀ e, cell e ≠ none → e ∈ S)
    (c : κ) : (grid c).length = ∑ e ∈ S, if cell e = some c then 1 else 0 := by
  have hmem : ∀ e ∈ (grid c : Multiset ε), e ∈ S := by
    intro e he
    exact hS e (by simp [h.mem_iff.mp (Multiset.mem_coe.mp he)])
  rw [← Multiset.coe_card, ← Multiset.sum_count_eq_card hmem]
  exact Finset.sum_congr rfl (fun e _ => by rw [Multiset.coe_count, h e c])

/-- **The length of an exact index** is the number of entities that have a cell. -/
theorem Exact.size_eq (h : Exact grid cell) {S : Finset ε} (hS : ∀ e, cell e ≠ none → e ∈ S) :
    size grid = (S.filter (fun e => cell e ≠ none)).card := by
  have hcells : ∀ e, (∑ c, if cell e = some c then 1 else 0) = if cell e ≠ none then 1 else 0 := by
    intro e
    cases cell e with
    | none => simp
    | some c => simp
  calc size grid = ∑ c, ∑ e ∈ S, (if cell e = some c then 1 else 0) :=
        Finset.sum_congr rfl (fun c _ => h.length_eq hS c)
    _ = ∑ e ∈ S, ∑ c, (if cell e = some c then 1 else 0) := Finset.sum_comm
    _ = ∑ e ∈ S, if cell e ≠ none then 1 else 0 := Finset.sum_congr rfl (fun e _ => hcells e)
    _ = (S.filter (fun e => cell e ≠ none)).card := (Finset.card_filter _ S).symm

end Size

end OsIrose.CellIndex

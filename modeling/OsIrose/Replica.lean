/-
A replica of a list of named things, kept up to date by a stream of changes.

The source adds and removes things and sends each change; the replica applies the changes in
the order they come in, and a `remove` takes all entries of its key. With the changes that are
still on their way the replica is to hold what the source holds, in some order. The three lemmas
at the end say for each thing that can happen exactly when this stays so: an addition has to be
sent as it is (`perm_add_iff`), a removal must not take more than its thing (`perm_remove_iff`),
and a replica that starts again with only a part of the changes has to have missed nothing that
still counts (`perm_restart_iff`).
-/
import Mathlib.Data.List.Perm.Basic
import Mathlib.Tactic.Common

set_option autoImplicit false

namespace OsIrose.Replica

variable {κ ν : Type*} [DecidableEq κ]

inductive Change (κ ν : Type*)
  | add (k : κ) (v : ν)
  | remove (k : κ)

/-- The change takes the entries of the key. -/
def Change.removes : Change κ ν → κ → Bool
  | .add _ _, _ => false
  | .remove k, k' => k = k'

def apply (list : List (κ × ν)) : Change κ ν → List (κ × ν)
  | .add k v => (k, v) :: list
  | .remove k => list.filter fun entry => entry.1 ≠ k

/-- One of the changes takes the entries of the key. -/
def anyRemoves (changes : List (Change κ ν)) (k : κ) : Bool :=
  changes.any fun change => change.removes k

theorem apply_append (list rest : List (κ × ν)) (change : Change κ ν) :
    apply (list ++ rest) change =
      apply list change ++ rest.filter fun entry => !change.removes entry.1 := by
  cases change with
  | add k v => simp [apply, Change.removes]
  | remove k =>
      rw [apply, List.filter_append, apply]
      congr 1
      refine List.filter_congr fun entry _ => ?_
      simp [Change.removes, eq_comm]

/-- What a replica starts with stays behind what the changes add, up to what they remove. -/
theorem foldl_apply_append (changes : List (Change κ ν)) (list rest : List (κ × ν)) :
    changes.foldl apply (list ++ rest) =
      changes.foldl apply list ++ rest.filter fun entry => !anyRemoves changes entry.1 := by
  induction changes generalizing list rest with
  | nil => simp [anyRemoves]
  | cons change changes ih =>
      rw [List.foldl_cons, apply_append, ih, List.filter_filter, List.foldl_cons]
      congr 1
      refine List.filter_congr fun entry _ => ?_
      simp [anyRemoves, Bool.and_comm]

variable {list rest live front back : List (κ × ν)}

omit [DecidableEq κ] in
theorem perm_add_iff (h : list.Perm live) {entry entry' : κ × ν} :
    (entry :: list).Perm (entry' :: live) ↔ entry = entry' := by
  constructor
  · intro hadd
    have hsame : (entry :: list).Perm (entry' :: list) := hadd.trans (h.symm.cons entry')
    exact List.singleton_perm_singleton.mp ((List.perm_append_right_iff list).mp hsame)
  · rintro rfl
    exact h.cons entry

/-- A removal is right if and only if nothing else has the key. -/
theorem perm_remove_iff {entry : κ × ν} (h : list.Perm (front ++ entry :: back)) :
    (apply list (.remove entry.1)).Perm (front ++ back) ↔
      ∀ other ∈ front ++ back, other.1 ≠ entry.1 := by
  have hfilter : (apply list (.remove entry.1)).Perm
      ((front ++ back).filter fun other => other.1 ≠ entry.1) := by
    refine (h.filter _).trans (List.Perm.of_eq ?_)
    simp [List.filter_append]
  constructor
  · intro hperm
    have hlength := (hfilter.symm.trans hperm).length_eq
    intro other hother
    exact of_decide_eq_true (List.length_filter_eq_length_iff.mp hlength other hother)
  · intro hall
    refine hfilter.trans (List.Perm.of_eq (List.filter_eq_self.mpr fun other hother => ?_))
    exact decide_eq_true (hall other hother)

omit [DecidableEq κ] in
/-- A part of the replica is right if and only if it is all of it. -/
theorem perm_restart_iff (h : (list ++ rest).Perm live) : list.Perm live ↔ rest = [] := by
  constructor
  · intro hpart
    have hlength := (h.trans hpart.symm).length_eq
    rw [List.length_append] at hlength
    exact List.eq_nil_of_length_eq_zero (by omega)
  · rintro rfl
    rwa [List.append_nil] at h

end OsIrose.Replica

/-
Mutual exclusion through a flag.

A lock is a flag, taken or not, and the parties that hold it. Nothing ties the two
together in a step: taking sets the flag whether or not it was set, and freeing clears it
whether or not someone holds the lock. What is needed for at most one holder is the
`guard` of both: a party takes a lock it finds free, and a lock that someone holds is not
freed (`exclusive_of_run`).
-/
import OsIrose.Runs
import Mathlib.Data.Set.Subsingleton

set_option autoImplicit false

namespace OsIrose

open Runs

/-- A flag and the parties that hold what it stands for. -/
structure Lock (κ : Type*) where
  taken : Prop
  holders : Set κ

namespace Lock

variable {κ : Type*}

inductive Action (κ : Type*)
  /-- A party sets the flag; afterwards it may be a holder. -/
  | take (k : κ)
  /-- The flag is cleared. -/
  | free
  /-- Anything else; parties may stop holding the lock. -/
  | keep

/-- What an action can do. -/
def Step (l : Lock κ) (a : Action κ) (l' : Lock κ) : Prop :=
  match a with
  | .take k => l'.taken ∧ l'.holders ⊆ insert k l.holders
  | .free => l'.holders ⊆ l.holders
  | .keep => (l.taken → l'.taken) ∧ l'.holders ⊆ l.holders

/-- A lock is taken when it is free, and freed when nobody holds it. -/
def guard (l : Lock κ) : Action κ → Prop
  | .take _ => ¬ l.taken
  | .free => l.holders = ∅
  | .keep => True

/-- At most one party holds the lock, and then the flag says so. -/
structure Exclusive (l : Lock κ) : Prop where
  subsingleton : l.holders.Subsingleton
  taken : l.holders.Nonempty → l.taken

theorem Exclusive.step {l l' : Lock κ} {a : Action κ} (h : l.Exclusive)
    (hstep : Guarded guard Step l a l') : l'.Exclusive := by
  obtain ⟨hguard, hstep⟩ := hstep
  match a, hguard, hstep with
  | .take k, hguard, ⟨htaken, hsub⟩ =>
      -- the flag was clear, so nobody held the lock before
      have hempty : l.holders = ∅ := by
        rw [← Set.not_nonempty_iff_eq_empty]
        exact fun hne => hguard (h.taken hne)
      rw [hempty, insert_empty_eq] at hsub
      exact ⟨Set.subsingleton_singleton.anti hsub, fun _ => htaken⟩
  | .free, hguard, hsub =>
      have hempty : l'.holders = ∅ := Set.subset_empty_iff.mp (hsub.trans_eq hguard)
      refine ⟨?_, fun hne => absurd hempty hne.ne_empty⟩
      rw [hempty]
      exact Set.subsingleton_empty
  | .keep, _, ⟨htaken, hsub⟩ =>
      exact ⟨h.subsingleton.anti hsub, fun hne => htaken (h.taken (hne.mono hsub))⟩

/-- **At most one holder** in every run whose actions meet the guard. -/
theorem exclusive_of_run {l l' : Lock κ} {as : List (Action κ)} (h : l.Exclusive)
    (hrun : Run (Guarded guard Step) l as l') : l'.Exclusive :=
  hrun.state_invariant h (fun _ _ _ h hstep => h.step hstep)

end Lock

end OsIrose

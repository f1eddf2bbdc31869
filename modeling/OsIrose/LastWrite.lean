/-
Places that are written one after another.

`lands` says to which place a write goes, if to any. What stands at a place after all the
writes is what the last one that went there left (`get_foldl`), or what stood there before
if none did.
-/
import Mathlib.Data.List.Basic

set_option autoImplicit false

namespace OsIrose.LastWrite

variable {σ ω κ α : Type*} [DecidableEq κ] (lands : ω → Option κ)

/-- The last of the writes that go to a place. -/
def lastAt (writes : List ω) (q : κ) : Option ω :=
  (writes.filter fun w => lands w = some q).getLast?

variable {lands} {writes : List ω} {w : ω} {q : κ}

@[simp] theorem lastAt_nil : lastAt lands [] q = none := rfl

theorem lastAt_append (writes writes' : List ω) (q : κ) :
    lastAt lands (writes ++ writes') q =
      (lastAt lands writes' q).or (lastAt lands writes q) := by
  rw [lastAt, List.filter_append, List.getLast?_append]
  rfl

theorem lastAt_singleton (w : ω) (q : κ) :
    lastAt lands [w] q = if lands w = some q then some w else none := by
  unfold lastAt
  split_ifs with h
  · simp [h]
  · simp [h]

theorem mem_of_lastAt (h : lastAt lands writes q = some w) : w ∈ writes ∧ lands w = some q := by
  obtain ⟨hw, hlands⟩ := List.mem_filter.mp (List.mem_of_getLast? h)
  exact ⟨hw, of_decide_eq_true hlands⟩

theorem lastAt_eq_none_iff :
    lastAt lands writes q = none ↔ ∀ w ∈ writes, lands w ≠ some q := by
  simp [lastAt]

/-- What stands at a place after the writes. `inv` is what a write needs of the state. -/
theorem get_foldl {write : σ → ω → σ} {get : σ → κ → α} {value : ω → α} (inv : σ → Prop)
    {writes : List ω} (hinv : ∀ w ∈ writes, ∀ s, inv s → inv (write s w))
    (hget : ∀ w ∈ writes, ∀ s q, inv s →
      get (write s w) q = if lands w = some q then value w else get s q)
    {s : σ} (hs : inv s) (q : κ) :
    get (writes.foldl write s) q = (lastAt lands writes q).elim (get s q) value := by
  induction writes generalizing s with
  | nil => rfl
  | cons w writes ih =>
      rw [List.forall_mem_cons] at hinv hget
      rw [List.foldl_cons, ih hinv.2 hget.2 (hinv.1 s hs), hget.1 s q hs,
        ← List.singleton_append, lastAt_append, lastAt_singleton]
      cases lastAt lands writes q with
      | none => split_ifs <;> rfl
      | some w' => rfl

end OsIrose.LastWrite

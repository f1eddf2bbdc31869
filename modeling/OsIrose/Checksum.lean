/-
Running checksums: a state taken over a sequence one symbol at a time.

What such a checksum detects is decided by its step alone. When the step is injective in
the state, a difference between two running checksums survives every symbol taken after it
(`foldl_injective`); when it is injective in the symbol as well, one wrong symbol makes such
a difference (`foldl_ne_of_ne_at`). A table without a repeated entry, indexed by the
exclusive-or of the two, is injective in both.
-/
import Mathlib.Data.List.Nodup
import Mathlib.Logic.Function.Basic

set_option autoImplicit false

namespace OsIrose.Checksum

section

variable {σ β ι : Type*}

/-- A step that loses neither the state nor the symbol. -/
structure Separating (step : σ → β → σ) : Prop where
  state : ∀ b, Function.Injective fun s => step s b
  symbol : ∀ s, Function.Injective (step s)

variable {step : σ → β → σ} (hstep : Separating step)

include hstep

/-- Two checksums that differ go on differing over the same symbols. -/
theorem foldl_injective (f : ι → β) (xs : List ι) :
    Function.Injective fun s => xs.foldl (fun t i => step t (f i)) s := by
  induction xs with
  | nil => exact fun _ _ h => h
  | cons i xs ih =>
    intro s t h
    have hfirst : step s (f i) = step t (f i) := ih h
    exact hstep.state (f i) hfirst

/-- **One wrong symbol changes the checksum**: two readings of one sequence of places that
differ at a single place, met once. -/
theorem foldl_ne_of_ne_at {f g : ι → β} {xs : List ι} {k : ι} (hxs : xs.Nodup) (hk : k ∈ xs)
    (hne : f k ≠ g k) (hsame : ∀ i ∈ xs, i ≠ k → f i = g i) (s : σ) :
    xs.foldl (fun t i => step t (f i)) s ≠ xs.foldl (fun t i => step t (g i)) s := by
  obtain ⟨before, after, rfl⟩ := List.append_of_mem hk
  obtain ⟨-, htail, hdisj⟩ := List.nodup_append.mp hxs
  have hbefore : ∀ t, before.foldl (fun t i => step t (f i)) t
      = before.foldl (fun t i => step t (g i)) t := by
    intro t
    apply List.foldl_ext
    intro u i hi
    rw [hsame i (List.mem_append_left _ hi) (hdisj i hi k List.mem_cons_self)]
  have hafter : ∀ t, after.foldl (fun t i => step t (f i)) t
      = after.foldl (fun t i => step t (g i)) t := by
    intro t
    apply List.foldl_ext
    intro u i hi
    have hik : i ≠ k := fun h => (List.nodup_cons.mp htail).1 (h ▸ hi)
    rw [hsame i (List.mem_append_right _ (List.mem_cons_of_mem _ hi)) hik]
  intro h
  rw [List.foldl_append, List.foldl_append, List.foldl_cons, List.foldl_cons, hbefore,
    hafter] at h
  -- what is taken after the wrong symbol is the same on both sides
  exact hne (hstep.symbol _ (foldl_injective hstep g after h))

end

/-! ## Steps on words -/

/-- **The table step**: the byte and the checksum are mixed by exclusive-or, and a table
that loses nothing is looked up. -/
theorem separating_xor {w : ℕ} {table : BitVec w → BitVec w}
    (htable : Function.Injective table) :
    Separating fun checksum byte : BitVec w => table (byte ^^^ checksum) where
  state := by
    intro b s t h
    exact (BitVec.xor_right_inj b).mp (htable h)
  symbol := by
    intro s b c h
    exact (BitVec.xor_left_inj s).mp (htable h)

end OsIrose.Checksum

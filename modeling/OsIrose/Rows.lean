/-
Tables without a unique key.

A table is the list of its rows. A program that writes a table row by row runs one DELETE
and one UPDATE for each key it has to change; the lemmas here put such a loop into one
statement: the rows of the keys are gone (`foldl_delete`), or changed (`foldl_update`).
-/
import Mathlib.Data.List.Basic

set_option autoImplicit false

namespace OsIrose.Rows

variable {ρ κ α : Type*}

/-- `DELETE … WHERE p`. -/
def delete (p : ρ → Prop) [DecidablePred p] (rows : List ρ) : List ρ :=
  rows.filter (fun row => ¬ p row)

/-- `UPDATE … SET f WHERE p`. -/
def update (p : ρ → Prop) [DecidablePred p] (f : ρ → ρ) (rows : List ρ) : List ρ :=
  rows.map (fun row => if p row then f row else row)

section

variable (sel : κ → ρ → Prop) [∀ k, DecidablePred (sel k)]

/-- One DELETE for each key. -/
theorem mem_foldl_delete (ks : List κ) (rows : List ρ) (row : ρ) :
    row ∈ ks.foldl (fun rows k => delete (sel k) rows) rows ↔
      row ∈ rows ∧ ∀ k ∈ ks, ¬ sel k row := by
  induction ks generalizing rows with
  | nil => simp
  | cons k ks ih =>
      rw [List.foldl_cons, ih]
      simp [delete, and_assoc]

/-- One UPDATE for each key. Here a row belongs to one key at most, the updates leave it
there, and doing one again changes nothing. -/
theorem mem_foldl_update {f : κ → ρ → ρ} (hkey : ∀ k k' row, sel k row → sel k' row → k = k')
    (hsel : ∀ k k' row, sel k' (f k row) ↔ sel k' row) (hf : ∀ k row, f k (f k row) = f k row)
    (ks : List κ) (rows : List ρ) (row : ρ) :
    row ∈ ks.foldl (fun rows k => update (sel k) (f k) rows) rows ↔
      ∃ old ∈ rows, (∃ k ∈ ks, sel k old ∧ row = f k old) ∨
        (∀ k ∈ ks, ¬ sel k old) ∧ row = old := by
  induction ks generalizing rows with
  | nil => simp
  | cons k ks ih =>
      rw [List.foldl_cons, ih]
      constructor
      · rintro ⟨mid, hmid, hrow⟩
        obtain ⟨old, hold, rfl⟩ := List.mem_map.mp hmid
        refine ⟨old, hold, ?_⟩
        by_cases hk : sel k old
        · simp only [if_pos hk, hsel] at hrow
          rcases hrow with ⟨k', hk', hsel', rfl⟩ | ⟨-, rfl⟩
          · obtain rfl := hkey k k' old hk hsel'
            exact .inl ⟨k, List.mem_cons_self, hk, hf k old⟩
          · exact .inl ⟨k, List.mem_cons_self, hk, rfl⟩
        · simp only [if_neg hk] at hrow
          rcases hrow with ⟨k', hk', hsel', rfl⟩ | ⟨hnone, rfl⟩
          · exact .inl ⟨k', List.mem_cons_of_mem k hk', hsel', rfl⟩
          · exact .inr ⟨List.forall_mem_cons.mpr ⟨hk, hnone⟩, rfl⟩
      · rintro ⟨old, hold, hrow⟩
        refine ⟨if sel k old then f k old else old, List.mem_map.mpr ⟨old, hold, rfl⟩, ?_⟩
        by_cases hk : sel k old
        · simp only [if_pos hk, hsel]
          -- a later update of the same key changes nothing
          have hrow' : row = f k old := by
            rcases hrow with ⟨k', -, hsel', rfl⟩ | ⟨hnone, -⟩
            · rw [hkey k k' old hk hsel']
            · exact absurd hk (hnone k List.mem_cons_self)
          by_cases hmem : k ∈ ks
          · exact .inl ⟨k, hmem, hk, by rw [hf, hrow']⟩
          · refine .inr ⟨fun k' hk' hsel' => hmem ?_, hrow'⟩
            rwa [hkey k k' old hk hsel']
        · simp only [if_neg hk]
          rcases hrow with ⟨k', hk', hsel', rfl⟩ | ⟨hnone, rfl⟩
          · have hne : k' ≠ k := fun h => hk (h ▸ hsel')
            exact .inl ⟨k', (List.mem_cons.mp hk').resolve_left hne, hsel', rfl⟩
          · exact .inr ⟨fun k' hk' => hnone k' (List.mem_cons_of_mem k hk'), rfl⟩

/-- DELETEs, UPDATEs and INSERTs, in this order: the rows that were not deleted, updated or
not, and those inserted. -/
theorem mem_delete_update_insert (f : κ → ρ → ρ)
    (hkey : ∀ k k' row, sel k row → sel k' row → k = k')
    (hsel : ∀ k k' row, sel k' (f k row) ↔ sel k' row) (hf : ∀ k row, f k (f k row) = f k row)
    (ds us ks : List κ) (g : κ → ρ) (rows : List ρ) (row : ρ) :
    row ∈ us.foldl (fun rows k => update (sel k) (f k) rows)
          (ds.foldl (fun rows k => delete (sel k) rows) rows) ++ ks.map g ↔
      (∃ old ∈ rows, (∀ k ∈ ds, ¬ sel k old) ∧
        ((∃ k ∈ us, sel k old ∧ row = f k old) ∨ (∀ k ∈ us, ¬ sel k old) ∧ row = old)) ∨
      ∃ k ∈ ks, g k = row := by
  rw [List.mem_append, List.mem_map, mem_foldl_update _ hkey hsel hf]
  simp only [mem_foldl_delete, and_assoc]

/-- UPDATEs that change no row they select are without effect. -/
theorem foldl_update_eq_self {f : κ → ρ → ρ} {ks : List κ} {rows : List ρ}
    (h : ∀ k ∈ ks, ∀ row ∈ rows, sel k row → f k row = row) :
    ks.foldl (fun rows k => update (sel k) (f k) rows) rows = rows := by
  induction ks with
  | nil => rfl
  | cons k ks ih =>
      have hk : update (sel k) (f k) rows = rows := by
        conv_rhs => rw [← List.map_id rows]
        refine List.map_congr_left fun row hrow => ?_
        split_ifs with hsel
        · exact h k List.mem_cons_self row hrow hsel
        · rfl
      rw [List.foldl_cons, hk]
      exact ih (fun k' hk' => h k' (List.mem_cons_of_mem k hk'))

section Others

variable {sel} {q : ρ → Prop} [DecidablePred q]

/-- The rows of other keys are still there, in the same order. -/
theorem filter_foldl_delete (hq : ∀ k row, q row → ¬ sel k row) (ks : List κ) (rows : List ρ) :
    (ks.foldl (fun rows k => delete (sel k) rows) rows).filter (fun row => q row) =
      rows.filter (fun row => q row) := by
  induction ks generalizing rows with
  | nil => rfl
  | cons k ks ih =>
      rw [List.foldl_cons, ih, delete, List.filter_filter]
      refine List.filter_congr fun row _ => ?_
      by_cases hrow : q row
      · simp [hrow, hq k row hrow]
      · simp [hrow]

theorem filter_foldl_update {f : κ → ρ → ρ} (hq : ∀ k row, q row → ¬ sel k row)
    (hf : ∀ k row, q (f k row) ↔ q row) (ks : List κ) (rows : List ρ) :
    (ks.foldl (fun rows k => update (sel k) (f k) rows) rows).filter (fun row => q row) =
      rows.filter (fun row => q row) := by
  induction ks generalizing rows with
  | nil => rfl
  | cons k ks ih =>
      rw [List.foldl_cons, ih, update]
      induction rows with
      | nil => rfl
      | cons row rows ih =>
          rw [List.map_cons, List.filter_cons, List.filter_cons, ih]
          by_cases hrow : q row
          · simp [hrow, hq k row hrow]
          · by_cases hk : sel k row
            · simp [hrow, hk, hf]
            · simp [hrow, hk]

/-- What is left of the rows after the DELETEs is in the same order. -/
theorem foldl_delete_sublist (ks : List κ) (rows : List ρ) :
    (ks.foldl (fun rows k => delete (sel k) rows) rows).Sublist rows := by
  induction ks generalizing rows with
  | nil => exact List.Sublist.refl rows
  | cons k ks ih => exact (ih _).trans List.filter_sublist

/-- A column that the UPDATEs do not write is as it was. -/
theorem map_filter_foldl_update {f : κ → ρ → ρ} {col : ρ → α}
    (hf : ∀ k row, q (f k row) ↔ q row) (hcol : ∀ k row, col (f k row) = col row)
    (ks : List κ) (rows : List ρ) :
    ((ks.foldl (fun rows k => update (sel k) (f k) rows) rows).filter (fun row => q row)).map col =
      (rows.filter (fun row => q row)).map col := by
  induction ks generalizing rows with
  | nil => rfl
  | cons k ks ih =>
      rw [List.foldl_cons, ih, update]
      induction rows with
      | nil => rfl
      | cons row rows ih =>
          have hq : q (if sel k row then f k row else row) ↔ q row := by
            split_ifs
            · exact hf k row
            · exact Iff.rfl
          have hc : col (if sel k row then f k row else row) = col row := by
            split_ifs
            · exact hcol k row
            · rfl
          rw [List.map_cons, List.filter_cons, List.filter_cons]
          by_cases hrow : q row
          · rw [if_pos (decide_eq_true (hq.mpr hrow)), if_pos (decide_eq_true hrow),
              List.map_cons, List.map_cons, hc, ih]
          · rw [if_neg (fun h => hrow (hq.mp (of_decide_eq_true h))),
              if_neg (fun h => hrow (of_decide_eq_true h)), ih]

end Others

end

/-- The last of some rows that agree. -/
theorem getLast?_map_of_forall {f : ρ → α} {v : α} {rows : List ρ} (hne : rows ≠ [])
    (h : ∀ row ∈ rows, f row = v) : rows.getLast?.map f = some v := by
  rw [List.getLast?_eq_getLast_of_ne_nil hne, Option.map_some, h _ (List.getLast_mem hne)]

end OsIrose.Rows

/-
Tables with a primary key and the statements on them.

A table is its rows in order, with no key twice, so a key names at most one row
(`Table.eq_of_key`) and a statement that would break this cannot be written: `update`
asks for a change that keeps the key, and `insert` fails on a key that is there.
-/
import Mathlib.Data.List.Nodup
import Mathlib.Data.List.Pairwise

set_option autoImplicit false

namespace OsIrose

/-- The rows of a table with primary key `key`. -/
@[ext]
structure Table {ρ κ : Type*} (key : ρ → κ) where
  rows : List ρ
  unique : (rows.map key).Nodup

namespace Table

variable {ρ κ : Type*} {key : ρ → κ}

/-- `SELECT … WHERE p`. -/
def select (t : Table key) (p : ρ → Bool) : List ρ :=
  t.rows.filter p

/-- `UPDATE … SET f WHERE p`. -/
def update (t : Table key) (p : ρ → Bool) (f : ρ → ρ) (hf : ∀ r, key (f r) = key r) :
    Table key where
  rows := t.rows.map (fun r => if p r then f r else r)
  unique := by
    -- the keys are the same list as before
    have hkey : key ∘ (fun r => if p r then f r else r) = key := by
      funext r
      simp only [Function.comp_apply, apply_ite key, hf, ite_self]
    rw [List.map_map, hkey]
    exact t.unique

/-- `DELETE … WHERE p`. -/
def delete (t : Table key) (p : ρ → Bool) : Table key where
  rows := t.rows.filter (fun r => !p r)
  unique := t.unique.sublist (List.filter_sublist.map key)

/-- `INSERT`, which fails on a key that is there. -/
def insert [DecidableEq κ] (t : Table key) (r : ρ) : Option (Table key) :=
  if h : key r ∈ t.rows.map key then none
  else some ⟨t.rows ++ [r], by
    rw [List.map_append, List.nodup_append]
    refine ⟨t.unique, List.nodup_singleton _, ?_⟩
    intro k hk k' hk' heq
    rw [List.map_singleton, List.mem_singleton] at hk'
    exact h (hk' ▸ heq ▸ hk)⟩

/-- A key names at most one row. -/
theorem eq_of_key {t : Table key} {r r' : ρ} (h : r ∈ t.rows) (h' : r' ∈ t.rows)
    (hkey : key r = key r') : r = r' :=
  List.inj_on_of_nodup_map t.unique h h' hkey

@[simp] theorem mem_delete {t : Table key} {p : ρ → Bool} {r : ρ} :
    r ∈ (t.delete p).rows ↔ r ∈ t.rows ∧ p r = false := by
  simp only [delete, List.mem_filter, Bool.not_eq_true']

/-- Two DELETEs leave the same rows if and only if they select the same rows. -/
theorem delete_eq_delete_iff {t : Table key} {p q : ρ → Bool} :
    t.delete p = t.delete q ↔ ∀ r ∈ t.rows, p r = q r := by
  constructor
  · intro h r hr
    have hmem : r ∈ (t.delete p).rows ↔ r ∈ (t.delete q).rows := by rw [h]
    rw [mem_delete, mem_delete, and_iff_right hr, and_iff_right hr] at hmem
    rw [Bool.eq_iff_iff, ← not_iff_not, Bool.not_eq_true, Bool.not_eq_true]
    exact hmem
  · intro h
    apply Table.ext
    exact List.filter_congr fun r hr => by rw [h r hr]

theorem delete_eq_self_iff {t : Table key} {p : ρ → Bool} :
    t.delete p = t ↔ ∀ r ∈ t.rows, p r = false := by
  rw [Table.ext_iff, delete, List.filter_eq_self]
  simp only [Bool.not_eq_true']

theorem mem_insert [DecidableEq κ] {t t' : Table key} {r r' : ρ} (h : t.insert r = some t') :
    r' ∈ t'.rows ↔ r' ∈ t.rows ∨ r' = r := by
  unfold insert at h
  split at h
  · exact absurd h (by simp)
  · obtain rfl := Option.some.inj h
    simp only [List.mem_append, List.mem_singleton]

theorem insert_of_notMem [DecidableEq κ] {t : Table key} {r : ρ}
    (h : ∀ r' ∈ t.rows, key r' ≠ key r) :
    ∃ t', t.insert r = some t' ∧ t'.rows = t.rows ++ [r] := by
  have hkey : key r ∉ t.rows.map key := by
    rintro hmem
    obtain ⟨r', hr', heq⟩ := List.mem_map.mp hmem
    exact h r' hr' heq
  exact ⟨_, dif_neg hkey, rfl⟩

section Update

variable {t : Table key} {p : ρ → Bool} {f : ρ → ρ} {hf : ∀ r, key (f r) = key r} {r : ρ}

/-- Every row of an updated table comes from a row of the same key. -/
theorem mem_update :
    r ∈ (t.update p f hf).rows ↔ ∃ r₀ ∈ t.rows, (if p r₀ then f r₀ else r₀) = r :=
  List.mem_map

theorem mem_update_of_mem (h : r ∈ t.rows) (hp : p r = true) :
    f r ∈ (t.update p f hf).rows :=
  mem_update.mpr ⟨r, h, if_pos hp⟩

/-- The rows the condition does not select are unchanged. -/
theorem mem_update_of_not (h : r ∈ t.rows) (hp : p r = false) :
    r ∈ (t.update p f hf).rows :=
  mem_update.mpr ⟨r, h, by simp [hp]⟩

/-- An update is without effect if and only if it changes no row it selects. -/
theorem update_eq_self_iff :
    t.update p f hf = t ↔ ∀ r ∈ t.rows, p r = true → f r = r := by
  rw [Table.ext_iff]
  change t.rows.map _ = t.rows ↔ _
  nth_rewrite 2 [← List.map_id t.rows]
  rw [List.map_inj_left]
  refine forall₂_congr (fun r _ => ?_)
  simp only [id_eq, ite_eq_right_iff]

end Update

end Table

end OsIrose

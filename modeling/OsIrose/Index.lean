/-
A table that is to find things by a key of theirs.

The table finds everything (`Finds`) only if no two things have one key. Something new with a
key can be entered into the table without harm if and only if nothing else has that key
(`finds_enter_iff`), and has to be, to be found. Something that goes may take its entry along
or leave it there (`Finds.remove`, `Finds.drop`).
-/
import Mathlib.Logic.Function.Basic
import Mathlib.Tactic.SplitIfs

set_option autoImplicit false

namespace OsIrose

/-- The keys of the things there are, and a table. -/
@[ext]
structure Index (ε κ : Type*) where
  key : ε → Option κ
  table : κ → Option ε

namespace Index

open Function

variable {ε κ : Type*}

/-- The table finds everything by its key. -/
def Finds (x : Index ε κ) : Prop :=
  ∀ e k, x.key e = some k → x.table k = some e

/-- An entry of something that is there is under its key. -/
def Valid (x : Index ε κ) : Prop :=
  ∀ k e, x.table k = some e → ∀ k', x.key e = some k' → k' = k

theorem Finds.unique {x : Index ε κ} (h : x.Finds) {e e' : ε} {k : κ} (he : x.key e = some k)
    (he' : x.key e' = some k) : e = e' :=
  Option.some.inj ((h e k he).symm.trans (h e' k he'))

/-! ## Things that come and go without an entry -/

section Key

variable [DecidableEq ε]

/-- Something new, without an entry. -/
def add (x : Index ε κ) (e : ε) (k : κ) : Index ε κ :=
  { x with key := update x.key e (some k) }

/-- Something that goes; its entry remains. -/
def drop (x : Index ε κ) (e : ε) : Index ε κ :=
  { x with key := update x.key e none }

variable {x : Index ε κ} {e : ε} {k : κ}

theorem not_finds_add (h : x.table k ≠ some e) : ¬ (x.add e k).Finds :=
  fun hfinds => h (hfinds e k (update_self _ _ _))

/-- What has a key has it still, unless it is new. -/
theorem key_add {e' : ε} {k' : κ} (h : (x.add e k).key e' = some k') :
    e' = e ∧ k' = k ∨ e' ≠ e ∧ x.key e' = some k' := by
  simp only [add, update_apply] at h
  split_ifs at h with he
  · exact Or.inl ⟨he, (Option.some.inj h).symm⟩
  · exact Or.inr ⟨he, h⟩

theorem key_drop {e' : ε} {k' : κ} (h : (x.drop e).key e' = some k') :
    e' ≠ e ∧ x.key e' = some k' := by
  simp only [drop, update_apply] at h
  split_ifs at h with he
  exact ⟨he, h⟩

theorem Finds.drop (hx : x.Finds) (e : ε) : (x.drop e).Finds :=
  fun e' k' h => hx e' k' (key_drop h).2

theorem Valid.add (hx : x.Valid) (hnew : ∀ k', x.table k' ≠ some e) : (x.add e k).Valid := by
  intro k' e' hentry k'' hkey
  obtain ⟨rfl, _⟩ | ⟨_, hkey⟩ := key_add hkey
  · exact absurd hentry (hnew k')
  · exact hx k' e' hentry k'' hkey

theorem Valid.drop (hx : x.Valid) (e : ε) : (x.drop e).Valid :=
  fun k' e' hentry k'' hkey => hx k' e' hentry k'' (key_drop hkey).2

end Key

/-! ## Entries -/

section Table

variable [DecidableEq ε] [DecidableEq κ]

/-- Something new, with its entry. -/
def enter (x : Index ε κ) (e : ε) (k : κ) : Index ε κ :=
  { x.add e k with table := update x.table k (some e) }

/-- Something that goes, with the entry of its key. -/
def remove (x : Index ε κ) (e : ε) (k : κ) : Index ε κ :=
  { x.drop e with table := update x.table k none }

variable {x : Index ε κ} {e : ε} {k : κ}

theorem table_enter {e' : ε} {k' : κ} (h : (x.enter e k).table k' = some e') :
    e' = e ∧ k' = k ∨ k' ≠ k ∧ x.table k' = some e' := by
  simp only [enter, update_apply] at h
  split_ifs at h with hk
  · exact Or.inl ⟨(Option.some.inj h).symm, hk⟩
  · exact Or.inr ⟨hk, h⟩

theorem table_remove {e' : ε} {k' : κ} (h : (x.remove e k).table k' = some e') :
    k' ≠ k ∧ x.table k' = some e' := by
  simp only [remove, update_apply] at h
  split_ifs at h with hk
  exact ⟨hk, h⟩

theorem finds_enter_iff (hx : x.Finds) (hnew : x.key e = none) :
    (x.enter e k).Finds ↔ ∀ e', x.key e' ≠ some k := by
  have hself : (x.enter e k).key e = some k := update_self _ _ _
  constructor
  · intro h e' he'
    have hne : e' ≠ e := by
      rintro rfl
      simp [hnew] at he'
    -- otherwise `e` and `e'` would both be found under `k`
    have hkey : (x.enter e k).key e' = some k := (update_of_ne hne _ _).trans he'
    exact hne (h.unique hkey hself)
  · intro hnone e' k' he'
    obtain ⟨rfl, rfl⟩ | ⟨_, hkey⟩ := key_add he'
    · exact update_self _ _ _
    · -- what was there is under another key, whose entry is untouched
      have hne' : k' ≠ k := by
        rintro rfl
        exact hnone e' hkey
      exact (update_of_ne hne' _ _).trans (hx e' k' hkey)

/-- Nothing else is under the key of what goes. -/
theorem Finds.remove (hx : x.Finds) (he : x.key e = some k) : (x.remove e k).Finds := by
  intro e' k' h
  obtain ⟨hne, hkey⟩ := key_drop h
  have hne' : k' ≠ k := by
    rintro rfl
    exact hne (hx.unique hkey he)
  exact (update_of_ne hne' _ _).trans (hx e' k' hkey)

theorem Valid.enter (hx : x.Valid) (hnew : ∀ k', x.table k' ≠ some e) : (x.enter e k).Valid := by
  intro k' e' hentry k'' hkey
  obtain ⟨rfl, rfl⟩ | ⟨_, hentry⟩ := table_enter hentry
  · obtain ⟨_, rfl⟩ | ⟨hne, _⟩ := key_add hkey
    · rfl
    · exact absurd rfl hne
  · exact hx.add hnew k' e' hentry k'' hkey

theorem Valid.remove (hx : x.Valid) (e : ε) (k : κ) : (x.remove e k).Valid := by
  intro k' e' hentry k'' hkey
  exact hx k' e' (table_remove hentry).2 k'' (key_drop hkey).2

end Table

/-- **An entry stays** as long as what it is for is there and the table finds everything. -/
theorem Finds.keeps {x x' : Index ε κ} (hx : x.Valid) (hx' : x'.Finds) {e : ε} {k j : κ}
    (hentry : x.table k = some e) (hkey : x.key e = some j) (hkey' : x'.key e = some j) :
    x'.table k = some e := by
  obtain rfl := hx k e hentry j hkey
  exact hx' e j hkey'

end Index

end OsIrose

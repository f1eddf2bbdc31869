/-
What a listener has heard about things, newest first.

Each message is about one thing. What counts is the last message about a thing: it says how
the thing is for the listener. Messages in one go that are about different things can come in
any order (`last_of_forall`).
-/
import Mathlib.Data.List.Basic

set_option autoImplicit false

namespace OsIrose.Feed

variable {μ ε : Type*} [DecidableEq ε]

/-- The last message about a thing. -/
def last (about : μ → ε) (feed : List μ) (e : ε) : Option μ :=
  feed.find? (fun m => about m = e)

variable {about : μ → ε} {feed : List μ} {m : μ} {e : ε}

@[simp] theorem last_nil : last about [] e = none := rfl

@[simp] theorem last_cons_self : last about (m :: feed) (about m) = some m := by
  simp [last]

theorem last_cons_of_ne (h : about m ≠ e) : last about (m :: feed) e = last about feed e := by
  simp [last, h]

theorem last_append (ms : List μ) :
    last about (ms ++ feed) e = (last about ms e).or (last about feed e) :=
  List.find?_append

theorem last_eq_none_iff : last about feed e = none ↔ ∀ m ∈ feed, about m ≠ e := by
  simp [last]

theorem mem_of_last (h : last about feed e = some m) : m ∈ feed ∧ about m = e :=
  ⟨List.mem_of_find?_eq_some h, by simpa using List.find?_some h⟩

/-- The only message about a thing is the last. -/
theorem last_of_forall (hm : m ∈ feed) (hall : ∀ m' ∈ feed, about m' = about m → m' = m) :
    last about feed (about m) = some m := by
  cases hlast : last about feed (about m) with
  | none => exact absurd rfl (last_eq_none_iff.mp hlast m hm)
  | some m' =>
      obtain ⟨hm', habout⟩ := mem_of_last hlast
      rw [hall m' hm' habout]

/-- Nothing new about a thing. -/
theorem last_append_of_forall {ms : List μ} (h : ∀ m ∈ ms, about m ≠ e) :
    last about (ms ++ feed) e = last about feed e := by
  rw [last_append, last_eq_none_iff.mpr h, Option.none_or]

end OsIrose.Feed

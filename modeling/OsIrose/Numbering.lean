/-
Numbers that are handed out, taken back and handed out again.

A holder has one number at most, which was free or is the next one (`Gives`). A holder that
goes gives its number back (`release`) or takes it along (`drop`). No number ever has two
holders or is free while it is held (`Sound`), but one that was taken along is lost: it has
no holder and is not free, for good. Some holders that go in turn lose nothing if and only
if none of them is dropped that still has its number (`Sound.complete_run`, `Sound.lost_run`).
-/
import Mathlib.Data.Set.Basic
import Mathlib.Logic.Function.Basic

set_option autoImplicit false

namespace OsIrose

/-- The numbers of some holders; all below `next` have been handed out. -/
@[ext]
structure Numbering (ε : Type*) where
  number : ε → Option ℕ
  free : Set ℕ
  next : ℕ

namespace Numbering

open Function

variable {ε : Type*}

/-- Nobody holds the number, and it is not free. -/
def Lost (n : Numbering ε) (i : ℕ) : Prop :=
  i < n.next ∧ i ∉ n.free ∧ ∀ e, n.number e ≠ some i

/-- No number is lost. -/
def Complete (n : Numbering ε) : Prop :=
  ∀ i, ¬ n.Lost i

structure Sound (n : Numbering ε) : Prop where
  lt : ∀ e i, n.number e = some i → i < n.next
  free_lt : ∀ i, i ∈ n.free → i < n.next
  notFree : ∀ e i, n.number e = some i → i ∉ n.free
  unique : ∀ e e' i, n.number e = some i → n.number e' = some i → e = e'

/-- Every number handed out is free or has a holder, and not both. -/
structure Partitioned (n : Numbering ε) : Prop where
  iff : ∀ i, i < n.next ↔ i ∈ n.free ∨ ∃ e, n.number e = some i
  disjoint : ∀ i, i ∈ n.free → ∀ e, n.number e ≠ some i
  unique : ∀ e e' i, n.number e = some i → n.number e' = some i → e = e'

theorem Sound.partitioned_iff_complete {n : Numbering ε} (h : n.Sound) :
    n.Partitioned ↔ n.Complete := by
  constructor
  · rintro hp i ⟨hlt, hfree, hheld⟩
    obtain hmem | ⟨e, he⟩ := (hp.iff i).mp hlt
    · exact hfree hmem
    · exact hheld e he
  · intro hc
    refine ⟨fun i => ⟨fun hlt => ?_, ?_⟩, fun i hfree e he => h.notFree e i he hfree, h.unique⟩
    · by_contra hnone
      push Not at hnone
      exact hc i ⟨hlt, hnone.1, hnone.2⟩
    · rintro (hfree | ⟨e, he⟩)
      · exact h.free_lt i hfree
      · exact h.lt e i he

/-! ## A number for a new holder -/

variable [DecidableEq ε]

/-- `e` gets a number that was free, or the next one. -/
inductive Gives (n : Numbering ε) (e : ε) : Numbering ε → Prop
  | old {i : ℕ} (hi : i ∈ n.free) :
      Gives n e { n with number := update n.number e (some i), free := n.free \ {i} }
  | new : Gives n e { n with number := update n.number e (some n.next), next := n.next + 1 }

variable {n n' : Numbering ε} {e : ε}

/-- `e` gets a number that nobody has and that is not free any more. -/
theorem Sound.give (h : n.Sound) {i : ℕ} (hnew : ∀ e', n.number e' ≠ some i) {free : Set ℕ}
    {next : ℕ} (hle : n.next ≤ next) (hlt : i < next)
    (hfree : ∀ j, j ∈ free → j ∈ n.free ∧ j ≠ i) :
    Sound { number := update n.number e (some i), free, next } := by
  have hother : ∀ {e' j}, update n.number e (some i) e' = some j →
      e' = e ∧ j = i ∨ n.number e' = some j ∧ j ≠ i := by
    intro e' j hj
    rw [update_apply] at hj
    split_ifs at hj with he
    · exact Or.inl ⟨he, (Option.some.inj hj).symm⟩
    · exact Or.inr ⟨hj, fun hji => hnew e' (hji ▸ hj)⟩
  refine ⟨fun e' j hj => ?_, fun j hj => (h.free_lt j (hfree j hj).1).trans_le hle,
    fun e' j hj hmem => ?_, fun e' e'' j hj hj' => ?_⟩
  · obtain ⟨_, rfl⟩ | ⟨hj, _⟩ := hother hj
    · exact hlt
    · exact (h.lt e' j hj).trans_le hle
  · obtain ⟨_, rfl⟩ | ⟨hj, _⟩ := hother hj
    · exact (hfree j hmem).2 rfl
    · exact h.notFree e' j hj (hfree j hmem).1
  · obtain ⟨rfl, rfl⟩ | ⟨hj, hne⟩ := hother hj
    · obtain ⟨rfl, _⟩ | ⟨_, hne⟩ := hother hj'
      · rfl
      · exact absurd rfl hne
    · obtain ⟨_, rfl⟩ | ⟨hj', _⟩ := hother hj'
      · exact absurd rfl hne
      · exact h.unique e' e'' j hj hj'

theorem Gives.sound (hn : n.Gives e n') (h : n.Sound) : n'.Sound := by
  cases hn with
  | @old i hi =>
      exact h.give (fun e' he' => h.notFree e' i he' hi) le_rfl (h.free_lt i hi) fun _ hj => hj
  | new =>
      -- the next number is above all that were handed out
      exact h.give (fun e' he' => absurd (h.lt e' _ he') (lt_irrefl _)) (Nat.le_succ _)
        (Nat.lt_succ_self _) fun j hj => ⟨hj, (h.free_lt j hj).ne⟩

/-- A holder that had no number loses none by getting one. -/
theorem Gives.complete (hn : n.Gives e n') (he : n.number e = none) (h : n.Complete) :
    n'.Complete := by
  -- `e` held nothing before, so who holds nothing now held nothing then
  have hheld : ∀ {i j : ℕ}, (∀ e', update n.number e (some j) e' ≠ some i) →
      i ≠ j ∧ ∀ e', n.number e' ≠ some i := by
    intro i j hi
    refine ⟨fun hij => hi e (by rw [update_self, hij]), fun e' he' => ?_⟩
    have hne : e' ≠ e := by
      rintro rfl
      simp [he] at he'
    exact hi e' (by rw [update_of_ne hne, he'])
  cases hn with
  | @old j hj =>
      rintro i ⟨hlt, hfree, hnone⟩
      obtain ⟨hne, hnone⟩ := hheld hnone
      exact h i ⟨hlt, fun hmem => hfree ⟨hmem, hne⟩, hnone⟩
  | new =>
      rintro i ⟨hlt, hfree, hnone⟩
      obtain ⟨hne, hnone⟩ := hheld hnone
      exact h i ⟨lt_of_le_of_ne (Nat.le_of_lt_succ hlt) hne, hfree, hnone⟩

/-! ## Holders that go -/

inductive Op (ε : Type*)
  /-- The number goes back. -/
  | release (e : ε)
  | drop (e : ε)

def apply (n : Numbering ε) : Op ε → Numbering ε
  | .release e =>
      { n with
        number := update n.number e none
        free := n.free ∪ {i | n.number e = some i} }
  | .drop e => { n with number := update n.number e none }

def run (n : Numbering ε) (ops : List (Op ε)) : Numbering ε :=
  ops.foldl apply n

@[simp] theorem run_nil (n : Numbering ε) : n.run [] = n := rfl

@[simp] theorem run_cons (n : Numbering ε) (op : Op ε) (ops : List (Op ε)) :
    n.run (op :: ops) = (n.apply op).run ops := rfl

theorem run_append (n : Numbering ε) (ops ops' : List (Op ε)) :
    n.run (ops ++ ops') = (n.run ops).run ops' :=
  List.foldl_append

/-- Nobody gets a number. -/
theorem number_apply {op : Op ε} {e' : ε} {i : ℕ} (h : (n.apply op).number e' = some i) :
    n.number e' = some i := by
  cases op with
  | release e =>
      simp only [apply, update_apply] at h
      split_ifs at h
      exact h
  | drop e =>
      simp only [apply, update_apply] at h
      split_ifs at h
      exact h

theorem Sound.apply (h : n.Sound) (op : Op ε) : (n.apply op).Sound := by
  refine ⟨fun e' i he' => ?_, ?_, ?_, fun e' e'' i he' he'' =>
    h.unique e' e'' i (number_apply he') (number_apply he'')⟩
  · cases op <;> exact h.lt e' i (number_apply he')
  · cases op with
    | release e =>
        rintro i (hi | hi)
        · exact h.free_lt i hi
        · exact h.lt e i hi
    | drop e => exact h.free_lt
  · intro e' i he'
    have hi := h.notFree e' i (number_apply he')
    cases op with
    | release e =>
        rintro (hfree | hheld)
        · exact hi hfree
        · -- the number of `e` has no other holder
          have hne : e' ≠ e := by
            rintro rfl
            simp [Numbering.apply] at he'
          exact hne (h.unique e' e i (number_apply he') hheld)
    | drop e => exact hi

theorem Sound.run (h : n.Sound) (ops : List (Op ε)) : (n.run ops).Sound := by
  induction ops generalizing n with
  | nil => exact h
  | cons op ops ih => exact ih (h.apply op)

@[simp] theorem run_next (n : Numbering ε) (ops : List (Op ε)) : (n.run ops).next = n.next := by
  induction ops generalizing n with
  | nil => rfl
  | cons op ops ih =>
      rw [run_cons, ih]
      cases op <;> rfl

theorem Lost.apply {i : ℕ} (h : n.Lost i) (op : Op ε) : (n.apply op).Lost i := by
  obtain ⟨hlt, hfree, hnone⟩ := h
  refine ⟨?_, ?_, fun e' he' => hnone e' (number_apply he')⟩
  · cases op <;> exact hlt
  · cases op with
    | release e =>
        rintro (hmem | hheld)
        · exact hfree hmem
        · exact hnone e hheld
    | drop e => exact hfree

theorem Lost.run {i : ℕ} (h : n.Lost i) (ops : List (Op ε)) : (n.run ops).Lost i := by
  induction ops generalizing n with
  | nil => exact h
  | cons op ops ih => exact ih (h.apply op)

/-- A holder that is dropped takes its number along. -/
theorem Sound.lost_drop (h : n.Sound) {i : ℕ} (he : n.number e = some i) :
    (n.apply (.drop e)).Lost i := by
  refine ⟨h.lt e i he, h.notFree e i he, fun e' he' => ?_⟩
  obtain rfl := h.unique e' e i (number_apply he') he
  simp [Numbering.apply] at he'

/-- Otherwise no number is lost. -/
theorem Complete.apply (h : n.Complete) {op : Op ε} (hop : ∀ e, op = .drop e → n.number e = none) :
    (n.apply op).Complete := by
  rintro i ⟨hlt, hfree, hnone⟩
  cases op with
  | release e =>
      refine h i ⟨hlt, fun hmem => hfree (Or.inl hmem), fun e' he' => ?_⟩
      have hne : e' ≠ e := by
        rintro rfl
        exact hfree (Or.inr he')
      exact hnone e' (by simpa only [Numbering.apply, update_of_ne hne] using he')
  | drop e =>
      refine h i ⟨hlt, hfree, fun e' he' => ?_⟩
      have hne : e' ≠ e := by
        rintro rfl
        simp [hop _ rfl] at he'
      exact hnone e' (by simpa only [Numbering.apply, update_of_ne hne] using he')

/-- No holder is dropped that has its number still. -/
def Returns (n : Numbering ε) (ops : List (Op ε)) : Prop :=
  ∀ l e l', ops = l ++ .drop e :: l' → n.number e ≠ none → .release e ∈ l

theorem Sound.complete_run (hs : n.Sound) {ops : List (Op ε)} (hc : n.Complete)
    (h : n.Returns ops) : (n.run ops).Complete := by
  induction ops generalizing n with
  | nil => exact hc
  | cons op ops ih =>
      have hop : ∀ e, op = .drop e → n.number e = none := by
        rintro e rfl
        by_contra hne
        exact absurd (h [] e ops rfl hne) List.not_mem_nil
      refine ih (hs.apply op) (hc.apply hop) ?_
      intro l e l' hops hne
      -- `e` has its number after the head as well, so it is not the head that released it
      obtain ⟨i, hi⟩ := Option.ne_none_iff_exists'.mp hne
      have hmem := h (op :: l) e l' (by rw [hops, List.cons_append]) (by simp [number_apply hi])
      obtain rfl | hmem := List.mem_cons.mp hmem
      · simp [Numbering.apply] at hi
      · exact hmem

/-- A number that is not lost now and belongs to a holder that is dropped is lost in the end. -/
theorem Sound.lost_run (hs : n.Sound) {ops : List (Op ε)} (h : ¬ n.Returns ops) :
    ∃ i, (n.run ops).Lost i := by
  induction ops generalizing n with
  | nil =>
      refine absurd (fun l e l' hops => ?_) h
      simp at hops
  | cons op ops ih =>
      by_cases hhead : ∃ e i, op = .drop e ∧ n.number e = some i
      · obtain ⟨e, i, rfl, hi⟩ := hhead
        exact ⟨i, (hs.lost_drop hi).run ops⟩
      · -- the head loses nothing: what goes wrong is in the rest
        refine ih (hs.apply op) (fun hrest => h ?_)
        intro l e l' hops hne
        obtain ⟨i, hi⟩ := Option.ne_none_iff_exists'.mp hne
        cases l with
        | nil =>
            obtain ⟨rfl, rfl⟩ := List.cons.inj hops
            exact absurd ⟨e, i, rfl, hi⟩ hhead
        | cons op' l =>
            obtain ⟨rfl, rfl⟩ := List.cons.inj hops
            by_cases hrelease : op = .release e
            · exact hrelease ▸ List.mem_cons_self
            · refine List.mem_cons_of_mem _ (hrest l e l' rfl ?_)
              -- the head is another holder's
              have hkept : (n.apply op).number e = some i := by
                cases op with
                | release e' =>
                    have hne' : e ≠ e' := fun h => hrelease (h ▸ rfl)
                    simpa only [Numbering.apply, update_of_ne hne'] using hi
                | drop e' =>
                    have hne' : e ≠ e' := fun h => hhead ⟨e', i, rfl, h ▸ hi⟩
                    simpa only [Numbering.apply, update_of_ne hne'] using hi
              simp [hkept]

end Numbering

end OsIrose

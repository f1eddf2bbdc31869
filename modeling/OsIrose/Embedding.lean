/-
The ways to find a pattern in a text as a subsequence, and a search for the best of them.

`greedy` takes every match it comes to. The exhaustive search calls itself again, past the
match, wherever it takes one: `finds` are the finds of all these calls, in the order in which
they are entered, and they are all there are (`mem_finds`). A search that keeps the first of
the best finds does so call by call, because the first of the best of two lists is one of the
first of the best of each (`argmax_append`).
-/
import Mathlib.Data.List.Forall2
import Mathlib.Data.List.MinMax
import Mathlib.Data.List.ReduceOption

set_option autoImplicit false

namespace OsIrose.Embedding

variable {α β : Type*}

/-! ## The first of the best -/

section Best

variable {γ δ : Type*} [LinearOrder δ]

/-- The better of two finds, the first one if they are as good. -/
def better (f : γ → δ) : Option γ → Option γ → Option γ
  | none, y => y
  | some x, none => some x
  | some x, some y => if f x < f y then some y else some x

variable (f : γ → δ)

@[simp] theorem better_none_left (y : Option γ) : better f none y = y := rfl

@[simp] theorem better_none_right (x : Option γ) : better f x none = x := by
  cases x <;> rfl

theorem better_some (x y : γ) : better f (some x) (some y) = if f x < f y then some y else some x :=
  rfl

theorem better_assoc (x y z : Option γ) :
    better f (better f x y) z = better f x (better f y z) := by
  cases x with
  | none => rfl
  | some x =>
      cases y with
      | none => rfl
      | some y =>
          cases z with
          | none => simp
          | some z =>
              simp only [better_some]
              by_cases hxy : f x < f y <;> by_cases hyz : f y < f z <;>
                simp only [hxy, hyz, if_true, if_false, better_some]
              · rw [if_pos (hxy.trans hyz)]
              · rw [if_neg (fun h => hyz ((not_lt.mp hxy).trans_lt h))]

theorem argmax_cons_eq (x : γ) (l : List γ) :
    (x :: l).argmax f = better f (some x) (l.argmax f) := by
  rw [List.argmax_cons]
  cases l.argmax f <;> rfl

theorem argmax_append (l l' : List γ) :
    (l ++ l').argmax f = better f (l.argmax f) (l'.argmax f) := by
  induction l with
  | nil => rfl
  | cons x l ih => rw [List.cons_append, argmax_cons_eq, ih, ← better_assoc, ← argmax_cons_eq]

end Best

/-! ## Embeddings -/

section Embeds

variable (same : α → β → Bool)

/-- The pattern is in the text, which starts at position `i`, at the positions of the list. -/
inductive Embeds : List α → ℕ → List β → List ℕ → Prop
  | nil (i : ℕ) (t : List β) : Embeds [] i t []
  | take {p : α} {ps : List α} {i : ℕ} {c : β} {t : List β} {is : List ℕ} :
      same p c = true → Embeds ps (i + 1) t is → Embeds (p :: ps) i (c :: t) (i :: is)
  | skip {ps : List α} {i : ℕ} {c : β} {t : List β} {is : List ℕ} :
      Embeds ps (i + 1) t is → Embeds ps i (c :: t) is

/-- Every match is taken. -/
def greedy : List α → ℕ → List β → Option (List ℕ)
  | [], _, _ => some []
  | _ :: _, _, [] => none
  | p :: ps, i, c :: t =>
      if same p c then (greedy ps (i + 1) t).map (i :: ·) else greedy (p :: ps) (i + 1) t

/-- The finds of the calls below the first one: each match that it takes is left out once. -/
def skips : List α → ℕ → List β → List (Option (List ℕ))
  | [], _, _ => []
  | _ :: _, _, [] => []
  | p :: ps, i, c :: t =>
      if same p c then
        greedy same (p :: ps) (i + 1) t :: skips (p :: ps) (i + 1) t ++
          (skips ps (i + 1) t).map (Option.map (i :: ·))
      else skips (p :: ps) (i + 1) t

/-- The finds of all calls. -/
def finds (p : List α) (i : ℕ) (t : List β) : List (Option (List ℕ)) :=
  greedy same p i t :: skips same p i t

variable {same} {p : α} {ps : List α} {i : ℕ} {c : β} {t : List β} {is : List ℕ}

@[simp] theorem embeds_nil_iff : Embeds same [] i t is ↔ is = [] := by
  constructor
  · intro h
    generalize hps : ([] : List α) = ps at h
    induction h with
    | nil => rfl
    | take => cases hps
    | skip _ ih => exact ih hps
  · rintro rfl
    exact .nil i t

@[simp] theorem not_embeds_cons_nil : ¬ Embeds same (p :: ps) i [] is := by
  intro h
  cases h

theorem embeds_cons_iff : Embeds same (p :: ps) i (c :: t) is ↔
    (same p c = true ∧ ∃ js, is = i :: js ∧ Embeds same ps (i + 1) t js) ∨
      Embeds same (p :: ps) (i + 1) t is := by
  constructor
  · intro h
    cases h with
    | take hsame h => exact .inl ⟨hsame, _, rfl, h⟩
    | skip h => exact .inr h
  · rintro (⟨hsame, js, rfl, h⟩ | h)
    · exact .take hsame h
    · exact .skip h

theorem Embeds.length_eq (h : Embeds same ps i t is) : is.length = ps.length := by
  induction h with
  | nil => rfl
  | take _ _ ih => simp [ih]
  | skip _ ih => exact ih

/-- The positions are increasing, and in the text. -/
theorem Embeds.mem_bounds (h : Embeds same ps i t is) : ∀ j ∈ is, i ≤ j ∧ j < i + t.length := by
  induction h with
  | nil => simp
  | take _ _ ih =>
      intro j hj
      rw [List.length_cons]
      rcases List.mem_cons.mp hj with rfl | hj
      · omega
      · have := ih j hj
        omega
  | skip _ ih =>
      intro j hj
      have := ih j hj
      rw [List.length_cons]
      omega

theorem Embeds.pairwise (h : Embeds same ps i t is) : is.Pairwise (· < ·) := by
  induction h with
  | nil => exact .nil
  | take _ h ih => exact ih.cons fun j hj => (h.mem_bounds j hj).1
  | skip _ ih => exact ih

/-! ## Positions -/

/-- Position `j` of the text, which starts at position `i`, has what the pattern has. -/
def At (same : α → β → Bool) (i : ℕ) (t : List β) (p : α) (j : ℕ) : Prop :=
  i ≤ j ∧ ∃ c, t[j - i]? = some c ∧ same p c = true

/-- Increasing positions that have what the pattern has. -/
structure Positions (same : α → β → Bool) (ps : List α) (i : ℕ) (t : List β) (is : List ℕ) :
    Prop where
  increasing : is.Pairwise (· < ·)
  same : List.Forall₂ (At same i t) ps is

theorem at_cons_iff {j : ℕ} (hj : i < j) :
    At same i (c :: t) p j ↔ At same (i + 1) t p j := by
  have hindex : j - i = j - (i + 1) + 1 := by omega
  rw [At, At, hindex, List.getElem?_cons_succ]
  simp only [hj.le, Nat.succ_le_iff.mpr hj, true_and]

theorem At.lt_length {j : ℕ} (h : At same i t p j) : j < i + t.length := by
  obtain ⟨hij, c, hc, -⟩ := h
  have hlt := (List.getElem?_eq_some_iff.mp hc).1
  omega

theorem forall₂_at_cons_iff (his : ∀ j ∈ is, i < j) :
    List.Forall₂ (At same i (c :: t)) ps is ↔ List.Forall₂ (At same (i + 1) t) ps is := by
  induction ps generalizing is with
  | nil => simp
  | cons p ps ih =>
      cases is with
      | nil => simp
      | cons j js =>
          rw [List.forall₂_cons, List.forall₂_cons, at_cons_iff (his j (by simp)),
            ih fun k hk => his k (List.mem_cons_of_mem j hk)]

/-- **An embedding is a list of increasing positions that have what the pattern has.** -/
theorem embeds_iff : Embeds same ps i t is ↔ Positions same ps i t is := by
  constructor
  · intro h
    refine ⟨h.pairwise, ?_⟩
    induction h with
    | nil => exact .nil
    | @take p ps i c t is hsame h ih =>
        refine .cons ⟨le_rfl, c, by simp, hsame⟩ ?_
        exact (forall₂_at_cons_iff fun j hj => (h.mem_bounds j hj).1).mpr ih
    | skip h ih => exact (forall₂_at_cons_iff fun j hj => (h.mem_bounds j hj).1).mpr ih
  · rintro ⟨hincr, hsame⟩
    induction t generalizing ps i is with
    | nil =>
        cases hsame with
        | nil => exact .nil i []
        | cons hp _ =>
            have hlt := hp.lt_length
            have hle := hp.1
            rw [List.length_nil] at hlt
            omega
    | cons c t ih =>
        cases hsame with
        | nil => exact .nil i (c :: t)
        | @cons p j ps js hp hps =>
            obtain ⟨hj, hincr'⟩ := List.pairwise_cons.mp hincr
            by_cases hij : i = j
            · subst hij
              obtain ⟨-, d, hd, hpd⟩ := hp
              simp only [Nat.sub_self, List.getElem?_cons_zero, Option.some.injEq] at hd
              subst hd
              exact .take hpd (ih hincr' ((forall₂_at_cons_iff hj).mp hps))
            · have hlt : i < j := lt_of_le_of_ne hp.1 hij
              have hall : ∀ k ∈ j :: js, i < k := by
                intro k hk
                rcases List.mem_cons.mp hk with rfl | hk
                · exact hlt
                · exact hlt.trans (hj k hk)
              exact .skip (ih hincr ((forall₂_at_cons_iff hall).mp (.cons hp hps)))

/-! ## What the searches find -/

theorem greedy_embeds (h : greedy same ps i t = some is) : Embeds same ps i t is := by
  induction t generalizing ps i is with
  | nil =>
      cases ps with
      | nil =>
          obtain rfl := Option.some.inj h
          exact .nil i []
      | cons p ps => cases h
  | cons c t ih =>
      cases ps with
      | nil =>
          obtain rfl := Option.some.inj h
          exact .nil i _
      | cons p ps =>
          rw [greedy] at h
          split_ifs at h with hsame
          · obtain ⟨js, hjs, rfl⟩ := Option.map_eq_some_iff.mp h
            exact .take hsame (ih hjs)
          · exact .skip (ih h)

/-- What is in a text without its first letter is in the text. -/
theorem Embeds.tail_isSome (h : ∃ is, Embeds same (p :: ps) i t is) :
    ∃ is, Embeds same ps i t is := by
  obtain ⟨is, h⟩ := h
  generalize hq : p :: ps = q at h
  induction h generalizing p ps with
  | nil => cases hq
  | take _ h =>
      obtain ⟨rfl, rfl⟩ := List.cons.inj hq
      exact ⟨_, .skip h⟩
  | skip _ ih =>
      obtain ⟨js, hjs⟩ := ih hq
      exact ⟨js, .skip hjs⟩

/-- Taking every match finds the pattern wherever it is to be found. -/
theorem greedy_isSome_iff : (greedy same ps i t).isSome ↔ ∃ is, Embeds same ps i t is := by
  constructor
  · intro h
    obtain ⟨is, his⟩ := Option.isSome_iff_exists.mp h
    exact ⟨is, greedy_embeds his⟩
  · intro h
    induction t generalizing ps i with
    | nil =>
        cases ps with
        | nil => rfl
        | cons p ps =>
            obtain ⟨is, h⟩ := h
            exact absurd h not_embeds_cons_nil
    | cons c t ih =>
        cases ps with
        | nil => rfl
        | cons p ps =>
            obtain ⟨is, h⟩ := h
            rw [greedy]
            split_ifs with hsame
            · rw [Option.isSome_map]
              rcases embeds_cons_iff.mp h with ⟨-, js, -, hjs⟩ | h
              · exact ih ⟨js, hjs⟩
              · exact ih (Embeds.tail_isSome ⟨is, h⟩)
            · rcases embeds_cons_iff.mp h with ⟨hsame', -⟩ | h
              · exact absurd hsame' hsame
              · exact ih ⟨is, h⟩

theorem finds_cons_of_same (h : same p c = true) : finds same (p :: ps) i (c :: t) =
    (greedy same ps (i + 1) t).map (i :: ·) :: (finds same (p :: ps) (i + 1) t ++
      (skips same ps (i + 1) t).map (Option.map (i :: ·))) := by
  rw [finds, greedy, if_pos h, skips, if_pos h]
  rfl

theorem finds_cons_of_not_same (h : ¬ same p c = true) :
    finds same (p :: ps) i (c :: t) = finds same (p :: ps) (i + 1) t := by
  rw [finds, greedy, if_neg h, skips, if_neg h]
  rfl

/-- Where the text starts with a match, the calls that take it and those that do not. -/
theorem finds_cons_perm (h : same p c = true) : (finds same (p :: ps) i (c :: t)).Perm
    ((finds same ps (i + 1) t).map (Option.map (i :: ·)) ++ finds same (p :: ps) (i + 1) t) := by
  have hfinds : finds same ps (i + 1) t =
      greedy same ps (i + 1) t :: skips same ps (i + 1) t := rfl
  rw [finds_cons_of_same h, hfinds, List.map_cons, List.cons_append]
  exact List.perm_append_comm.cons _

/-- **The search is exhaustive.** -/
theorem mem_finds : some is ∈ finds same ps i t ↔ Embeds same ps i t is := by
  induction t generalizing ps i is with
  | nil => cases ps <;> simp [finds, greedy, skips]
  | cons c t ih =>
      cases ps with
      | nil => simp [finds, greedy, skips]
      | cons p ps =>
          rw [embeds_cons_iff, ← ih]
          by_cases hsame : same p c = true
          · rw [(finds_cons_perm hsame).mem_iff, List.mem_append, List.mem_map]
            refine or_congr_left ⟨?_, ?_⟩
            · rintro ⟨found, hfound, heq⟩
              obtain ⟨js, rfl, rfl⟩ := Option.map_eq_some_iff.mp heq
              exact ⟨hsame, js, rfl, ih.mp hfound⟩
            · rintro ⟨-, js, rfl, hjs⟩
              exact ⟨some js, ih.mpr hjs, rfl⟩
          · rw [finds_cons_of_not_same hsame]
            simp [hsame]

end Embeds

end OsIrose.Embedding

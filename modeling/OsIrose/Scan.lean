/-
Programs that read a source through its cursor.

A `Source` serves objects. A read that it cannot serve gives zero and takes nothing, and
behind a wide read that failed a narrow one may still be served. A string is read byte by
byte up to a zero, so it ends where the source does.

A `Program` is a reader and then one loop, the rounds of which are readers as well. A
`step` is one read, or the test of the loop, so a run need not end:

* `ends_round`: it ends when the loop has a variant, and with the value that the rounds
  keep;
* `stored_add_left_le`: a byte that was stored in a string was taken from the source.
-/
import OsIrose.Wire
import Mathlib.Logic.Function.Iterate

set_option autoImplicit false

namespace OsIrose.Scan

open ByteMem Wire

/-- Readers in sequence. -/
theorem bind_assoc {α β γ : Type} (P : Reader α) (f : α → Reader β) (g : β → Reader γ) :
    P >>= f >>= g = P >>= fun a => f a >>= g := by
  simp only [Reader.bind_eq]
  induction P with
  | done a => rfl
  | scalar n pos next ih => exact congrArg (Reader.scalar n pos) (funext ih)
  | string next ih => exact congrArg Reader.string (funext ih)

/-! ## Sources -/

/-- A source of objects behind a cursor. -/
structure Source (κ : Type) where
  read : (n : ℕ) → κ → BitVec (8 * n) × κ
  /-- The bytes that can still be taken. -/
  left : κ → ℕ
  served : ∀ n c, left (read n c).2 + n = left c ∨ read n c = (0, c)

namespace Source

variable {κ α β : Type} (S : Source κ)

theorem left_read_le (n : ℕ) (c : κ) : S.left (S.read n c).2 ≤ S.left c := by
  rcases S.served n c with htaken | hkept
  · omega
  · rw [hkept]

/-- What is not zero was taken. -/
theorem left_read_of_ne_zero {n : ℕ} {c : κ} (h : (S.read n c).1 ≠ 0) :
    S.left (S.read n c).2 + n = S.left c := by
  rcases S.served n c with htaken | hkept
  · exact htaken
  · rw [hkept] at h
    exact absurd rfl h

/-- The bytes in front of the first zero. -/
def readText (c : κ) : List Byte × κ :=
  let next := S.read 1 c
  if next.1 = 0 then ([], next.2)
  else
    let rest := readText next.2
    (next.1 :: rest.1, rest.2)
termination_by S.left c
decreasing_by
  rename_i h
  have htaken := S.left_read_of_ne_zero h
  omega

/-- What a reader reads, and where it leaves the cursor. -/
def eval : Reader α → κ → α × κ
  | .done a, c => (a, c)
  | .scalar n _ next, c =>
      let v := S.read n c
      eval (next v.1) v.2
  | .string next, c =>
      let s := S.readText c
      eval (next s.1) s.2

theorem eval_bind (P : Reader α) (f : α → Reader β) (c : κ) :
    S.eval (P >>= f) c = S.eval (f (S.eval P c).1) (S.eval P c).2 := by
  rw [Reader.bind_eq]
  induction P generalizing c with
  | done a => rfl
  | scalar n pos next ih => exact ih _ _
  | string next ih => exact ih _ _

@[simp] theorem eval_pure (a : α) (c : κ) : S.eval (pure a : Reader α) c = (a, c) := rfl

/-- The first round of a counted loop. -/
theorem toList_eval_many (Q : Reader α) (n : ℕ) (c : κ) :
    (S.eval (Reader.many Q (n + 1)) c).1.toList
      = (S.eval Q c).1 :: (S.eval (Reader.many Q n) (S.eval Q c).2).1.toList := by
  rw [Reader.many, eval_bind, eval_bind, eval_pure, List.Vector.toList_cons]

theorem left_readText_le (c : κ) : S.left (S.readText c).2 ≤ S.left c := by
  induction c using readText.induct S with
  | case1 c next h =>
      rw [readText, if_pos h]
      exact S.left_read_le 1 c
  | case2 c next h ih =>
      rw [readText, if_neg h]
      exact ih.trans (S.left_read_le 1 c)

/-- Reading gives nothing back. -/
theorem left_eval_le (P : Reader α) (c : κ) : S.left (S.eval P c).2 ≤ S.left c := by
  induction P generalizing c with
  | done a => exact Nat.le_refl _
  | scalar n pos next ih => exact (ih _ _).trans (S.left_read_le n c)
  | string next ih => exact (ih _ _).trans (S.left_readText_le c)

end Source

/-! ## Programs -/

/-- A program with one loop. A reader that gives variables goes on with a round of the
loop, and one that gives a result ends the program. -/
structure Program (α : Type) where
  Vars : Type
  before : Reader (Vars ⊕ α)
  round : Vars → Reader (Vars ⊕ α)

/-- Where a program stands. -/
structure Point {α : Type} (P : Program α) (κ : Type) where
  rest : Reader (P.Vars ⊕ α)
  /-- What was read of the string that `rest` asks for. -/
  text : List Byte
  cursor : κ
  /-- How many bytes all strings got so far. -/
  stored : ℕ

section

variable {κ α β : Type} (S : Source κ) {P : Program α}

/-- One read, or the test of the loop. -/
def step (x : Point P κ) : Point P κ :=
  match x.rest with
  | .done (.inl vars) => { x with rest := P.round vars }
  | .done (.inr _) => x
  | .scalar n _ next =>
      let v := S.read n x.cursor
      { x with rest := next v.1, cursor := v.2 }
  | .string next =>
      let v := S.read 1 x.cursor
      if v.1 = 0 then { x with rest := next x.text, text := [], cursor := v.2 }
      else { x with text := x.text ++ [v.1], cursor := v.2, stored := x.stored + 1 }

/-- What the program ended with. -/
def Point.result (x : Point P κ) : Option α :=
  match x.rest with
  | .done (.inr a) => some a
  | _ => none

/-- With this to read, the program ends with `a`. -/
def Ends (rest : Reader (P.Vars ⊕ α)) (text : List Byte) (cursor : κ) (a : α) : Prop :=
  ∀ stored, ∃ n, ((step S)^[n] (⟨rest, text, cursor, stored⟩ : Point P κ)).result = some a

variable {S}

theorem ends_of_step {rest rest' : Reader (P.Vars ⊕ α)} {text text' : List Byte}
    {c c' : κ} {a : α} (h : Ends S rest' text' c' a)
    (hstep : ∀ stored, ∃ stored',
      step S ⟨rest, text, c, stored⟩ = ⟨rest', text', c', stored'⟩) :
    Ends S rest text c a := by
  intro stored
  obtain ⟨stored', hstored⟩ := hstep stored
  obtain ⟨n, hn⟩ := h stored'
  refine ⟨n + 1, ?_⟩
  rw [Function.iterate_succ_apply, hstored]
  exact hn

theorem ends_result (a : α) (c : κ) : Ends S (P := P) (.done (.inr a)) [] c a :=
  fun _ => ⟨0, rfl⟩

/-- A string ends: every byte of it is taken from the source. -/
theorem ends_string {next : List Byte → Reader (P.Vars ⊕ α)} {a : α} (c : κ)
    (text : List Byte)
    (h : Ends S (next (text ++ (S.readText c).1)) [] (S.readText c).2 a) :
    Ends S (.string next) text c a := by
  induction c using Source.readText.induct S generalizing text with
  | case1 c v hzero =>
      rw [Source.readText, if_pos hzero, List.append_nil] at h
      exact ends_of_step h fun stored => ⟨stored, if_pos hzero⟩
  | case2 c v hzero ih =>
      rw [Source.readText, if_neg hzero, List.append_cons] at h
      exact ends_of_step (ih _ h) fun stored => ⟨stored + 1, if_neg hzero⟩

/-- A reader ends. -/
theorem ends_eval {a : α} (R : Reader (P.Vars ⊕ α)) (c : κ)
    (h : Ends S (.done (S.eval R c).1) [] (S.eval R c).2 a) : Ends S R [] c a := by
  induction R generalizing c with
  | done r => exact h
  | scalar n pos next ih => exact ends_of_step (ih _ _ h) fun stored => ⟨stored, rfl⟩
  | string next ih => exact ends_string c [] (ih _ _ h)

/-- **A loop with a variant ends**, with the value that its rounds keep. -/
theorem ends_round (variant : P.Vars → κ → ℕ) (value : P.Vars → κ → α)
    (hagain : ∀ vars c vars' c', S.eval (P.round vars) c = (.inl vars', c') →
      variant vars' c' < variant vars c ∧ value vars' c' = value vars c)
    (hresult : ∀ vars c a c', S.eval (P.round vars) c = (.inr a, c') → value vars c = a)
    (vars : P.Vars) (c : κ) : Ends S (P.round vars) [] c (value vars c) := by
  induction hn : variant vars c using Nat.strong_induction_on generalizing vars c with
  | _ n ih =>
      apply ends_eval
      cases hround : S.eval (P.round vars) c with
      | mk r c' =>
          cases r with
          | inl vars' =>
              obtain ⟨hlt, hvalue⟩ := hagain vars c vars' c' hround
              have hnext := ih _ (hn ▸ hlt) vars' c' rfl
              rw [hvalue] at hnext
              exact ends_of_step hnext fun stored => ⟨stored, rfl⟩
          | inr a =>
              rw [hresult vars c a c' hround]
              exact ends_result a c'

/-- The whole program. -/
theorem ends_before {value : P.Vars → κ → α}
    (hround : ∀ vars c, Ends S (P.round vars) [] c (value vars c)) (c : κ) :
    Ends S P.before [] c
      ((S.eval P.before c).1.elim (value · (S.eval P.before c).2) id) := by
  apply ends_eval
  cases S.eval P.before c with
  | mk r c' =>
      cases r with
      | inl vars => exact ends_of_step (hround vars c') fun stored => ⟨stored, rfl⟩
      | inr a => exact ends_result a c'

/-! ## What every step keeps -/

theorem cursor_step {Inv : κ → Prop} (h : ∀ n c, Inv c → Inv (S.read n c).2)
    {x : Point P κ} (hx : Inv x.cursor) : Inv (step S x).cursor := by
  obtain ⟨rest, text, c, stored⟩ := x
  cases rest with
  | done r =>
      cases r with
      | inl vars => exact hx
      | inr a => exact hx
  | scalar n pos next => exact h n c hx
  | string next =>
      dsimp only [step]
      split
      · exact h 1 c hx
      · exact h 1 c hx

/-- What every read keeps holds of the cursor all along. -/
theorem cursor_iterate {Inv : κ → Prop} (h : ∀ n c, Inv c → Inv (S.read n c).2)
    {x : Point P κ} (hx : Inv x.cursor) (n : ℕ) : Inv ((step S)^[n] x).cursor := by
  induction n with
  | zero => exact hx
  | succ n ih =>
      rw [Function.iterate_succ_apply']
      exact cursor_step h ih

theorem stored_add_left_step (x : Point P κ) :
    (step S x).stored + S.left (step S x).cursor ≤ x.stored + S.left x.cursor := by
  obtain ⟨rest, text, c, stored⟩ := x
  cases rest with
  | done r =>
      cases r with
      | inl vars => exact Nat.le_refl _
      | inr a => exact Nat.le_refl _
  | scalar n pos next => exact Nat.add_le_add_left (S.left_read_le n c) stored
  | string next =>
      dsimp only [step]
      split
      · exact Nat.add_le_add_left (S.left_read_le 1 c) stored
      next hchar =>
        have htaken := S.left_read_of_ne_zero hchar
        dsimp only
        omega

/-- **What is stored in strings was taken from the source.** -/
theorem stored_add_left_le (x : Point P κ) (n : ℕ) :
    ((step S)^[n] x).stored + S.left ((step S)^[n] x).cursor
      ≤ x.stored + S.left x.cursor := by
  induction n with
  | zero => exact Nat.le_refl _
  | succ n ih =>
      rw [Function.iterate_succ_apply']
      exact (stored_add_left_step _).trans ih

/-- A reader that asks for no string. -/
def Objects : Reader β → Prop
  | .done _ => True
  | .scalar _ _ next => ∀ v, Objects (next v)
  | .string _ => False

theorem Objects.bind {γ : Type} {Q : Reader β} {f : β → Reader γ} (hQ : Objects Q)
    (hf : ∀ b, Objects (f b)) : Objects (Q >>= f) := by
  rw [Reader.bind_eq]
  induction Q with
  | done b => exact hf b
  | scalar n pos next ih => exact fun v => ih v (hQ v)
  | string next ih => exact hQ.elim

theorem Objects.many {Q : Reader β} (hQ : Objects Q) (n : ℕ) : Objects (Reader.many Q n) := by
  induction n with
  | zero => exact trivial
  | succ n ih => exact hQ.bind fun _ => ih.bind fun _ => trivial

/-- Objects in front store nothing, so a bound on what follows is one on all. -/
theorem Objects.stored_le {Q : Reader β} (hQ : Objects Q) {f : β → Reader (P.Vars ⊕ α)}
    {c : κ} {stored bound : ℕ} (hstart : stored ≤ bound)
    (h : ∀ n, ((step S)^[n]
      (⟨f (S.eval Q c).1, [], (S.eval Q c).2, stored⟩ : Point P κ)).stored ≤ bound) (n : ℕ) :
    ((step S)^[n] (⟨Q >>= f, [], c, stored⟩ : Point P κ)).stored ≤ bound := by
  induction Q generalizing c n with
  | done b => exact h n
  | scalar m pos next ih =>
      cases n with
      | zero => exact hstart
      | succ n =>
          rw [Function.iterate_succ_apply]
          exact ih _ (hQ _) h n
  | string next ih => exact hQ.elim

end

end OsIrose.Scan

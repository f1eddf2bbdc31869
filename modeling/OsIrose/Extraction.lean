/-
Words and numbers read from a text, one after another, as `operator>>` reads them from a stream.

Blanks are skipped, then as much is read as can belong to what is asked for. A number is written
as digits, perhaps after a sign. A reading that finds none fails, and from then on nothing is read
any more. `read_of_numeral` and `read_of_not_numeral` say what is read of a text by the way it is
written; `cut_iff` is the same for the parts that a text is cut into.
-/
import Mathlib.Data.List.TakeWhile

set_option autoImplicit false

namespace OsIrose.Extraction

/-! ## Cutting off the front of a list -/

section Cut

variable {α : Type*} {p : α → Bool} {cs front rest : List α}

/-- The front is as long as it can be. -/
structure Cut (p : α → Bool) (cs front rest : List α) : Prop where
  append : cs = front ++ rest
  front : ∀ c ∈ front, p c = true
  stop : ∀ c ∈ rest.head?, p c = false

theorem cut_while (p : α → Bool) (cs : List α) : Cut p cs (cs.takeWhile p) (cs.dropWhile p) where
  append := List.takeWhile_append_dropWhile.symm
  front _ hc := List.mem_takeWhile_imp hc
  stop := by
    intro c hc
    have hhead := List.head?_dropWhile_not p cs
    rw [Option.mem_def.mp hc] at hhead
    exact hhead

/-- There is one way to cut. -/
theorem cut_iff : Cut p cs front rest ↔ front = cs.takeWhile p ∧ rest = cs.dropWhile p := by
  refine ⟨fun h => ?_, fun ⟨hfront, hrest⟩ => hfront ▸ hrest ▸ cut_while p cs⟩
  have hrest : rest.takeWhile p = [] ∧ rest.dropWhile p = rest := by
    cases rest with
    | nil => exact ⟨rfl, rfl⟩
    | cons c rest =>
        have hc : ¬ p c = true := by
          rw [h.stop c rfl]
          exact Bool.false_ne_true
        exact ⟨List.takeWhile_cons_of_neg hc, List.dropWhile_cons_of_neg hc⟩
  rw [h.append, List.takeWhile_append_of_pos h.front, List.dropWhile_append_of_pos h.front,
    hrest.1, hrest.2, List.append_nil]
  exact ⟨rfl, rfl⟩

end Cut

/-! ## Streams -/

/-- The characters that are left; `none` once a reading has failed. -/
abbrev Stream := Option (List Char)

/-- What counts as blank: no digit and no sign does. -/
structure Blanks where
  blank : Char → Bool
  digit : ∀ c, c.isDigit = true → blank c = false
  plus : blank '+' = false
  minus : blank '-' = false

variable (b : Blanks)

/-- The next word. -/
def word : Stream → List Char × Stream
  | none => ([], none)
  | some cs =>
      let cs := cs.dropWhile b.blank
      match cs.takeWhile (fun c => !b.blank c) with
      | [] => ([], none)
      | c :: w => (c :: w, some (cs.dropWhile (fun c => !b.blank c)))

/-- How a library reads a number without a sign. -/
structure Unsigned where
  max : ℕ
  /-- What it makes of a number after a minus, and whether the reading fails. -/
  negative : ℕ → ℕ × Bool
  negative_le : ∀ n, (negative n).1 ≤ max

/-- What stands in front of the digits. -/
def signed : List Char → Bool × List Char
  | '-' :: cs => (true, cs)
  | '+' :: cs => (false, cs)
  | cs => (false, cs)

/-- What is stored of a number, and what is left. Too large a number counts as the largest. -/
def Unsigned.store (u : Unsigned) (minus : Bool) (n : ℕ) (rest : List Char) : ℕ × Stream :=
  if minus ∧ (u.negative n).2 then ((u.negative n).1, none)
  else if minus then ((u.negative n).1, some rest)
  else if n ≤ u.max then (n, some rest)
  else (u.max, none)

theorem Unsigned.store_le (u : Unsigned) (minus : Bool) (n : ℕ) (rest : List Char) :
    (u.store minus n rest).1 ≤ u.max := by
  unfold store
  split_ifs with hfails hminus hle
  · exact u.negative_le n
  · exact u.negative_le n
  · exact hle
  · exact le_refl u.max

/-- A reading that has not failed leaves what follows. -/
theorem Unsigned.store_left (u : Unsigned) {minus : Bool} {n : ℕ} {rest : List Char}
    (h : (u.store minus n rest).2 ≠ none) : (u.store minus n rest).2 = some rest := by
  unfold store at h ⊢
  split_ifs at h ⊢ with hfails hminus hle
  · exact absurd rfl h
  · rfl
  · rfl
  · exact absurd rfl h

/-- The next number, into a variable that is 0. -/
def Unsigned.read (u : Unsigned) : Stream → ℕ × Stream
  | none => (0, none)
  | some cs =>
      let (minus, cs) := signed (cs.dropWhile b.blank)
      match cs.takeWhile Char.isDigit with
      | [] => (0, none)
      | d :: ds =>
          u.store minus (Nat.ofDigitChars 10 (d :: ds) 0) (cs.dropWhile Char.isDigit)

section Words

variable {b} {cs w rest : List Char}

/-- A word is read up to the blank behind it. -/
theorem word_iff (hw : w ≠ []) (hhead : ∀ c ∈ cs.head?, b.blank c = false) :
    word b (some cs) = (w, some rest) ↔ Cut (fun c => !b.blank c) cs w rest := by
  have hskip : cs.dropWhile b.blank = cs :=
    (cut_iff.mp ⟨(List.nil_append cs).symm, by simp, hhead⟩).2.symm
  rw [cut_iff]
  unfold word
  dsimp only
  rw [hskip]
  cases cs.takeWhile (fun c => !b.blank c) with
  | nil => simp [hw.symm, hw]
  | cons c w' => simp [eq_comm]

theorem word_fst (cs : List Char) : (word b (some cs)).1 =
    (cs.dropWhile b.blank).takeWhile (fun c => !b.blank c) := by
  unfold word
  dsimp only
  cases (cs.dropWhile b.blank).takeWhile (fun c => !b.blank c) <;> rfl

/-- Only a reading without a word fails. -/
theorem exists_word_left (h : (word b (some cs)).1 ≠ []) :
    ∃ rest, word b (some cs) = ((word b (some cs)).1, some rest) := by
  unfold word at h ⊢
  dsimp only at h ⊢
  cases hword : (cs.dropWhile b.blank).takeWhile (fun c => !b.blank c) with
  | nil =>
      rw [hword] at h
      exact absurd rfl h
  | cons c w => exact ⟨_, rfl⟩

end Words

/-! ## Numerals -/

inductive Sign
  | none
  | plus
  | minus
  deriving DecidableEq

def Sign.chars : Sign → List Char
  | none => []
  | plus => ['+']
  | minus => ['-']

/-- A number as it is written, and what follows. -/
structure Numeral where
  blanks : List Char
  sign : Sign
  digits : List Char
  rest : List Char

namespace Numeral

def text (x : Numeral) : List Char :=
  x.blanks ++ (x.sign.chars ++ (x.digits ++ x.rest))

def value (x : Numeral) : ℕ :=
  Nat.ofDigitChars 10 x.digits 0

/-- No digit follows. -/
structure Valid (x : Numeral) : Prop where
  blanks : ∀ c ∈ x.blanks, b.blank c = true
  some_digit : x.digits ≠ []
  digits : ∀ c ∈ x.digits, c.isDigit = true
  stop : ∀ c ∈ x.rest.head?, c.isDigit = false

end Numeral

section Numerals

variable {b} {x : Numeral}

theorem Numeral.Valid.digits_cut (h : x.Valid b) :
    Cut Char.isDigit (x.digits ++ x.rest) x.digits x.rest :=
  ⟨rfl, h.digits, h.stop⟩

/-- Digits and signs end the blanks. -/
theorem Numeral.Valid.blanks_cut (h : x.Valid b) :
    Cut b.blank x.text x.blanks (x.sign.chars ++ (x.digits ++ x.rest)) := by
  refine ⟨rfl, h.blanks, fun c hc => ?_⟩
  obtain ⟨d, ds, hdigits⟩ := List.exists_cons_of_ne_nil h.some_digit
  have hd : d.isDigit = true := h.digits d (hdigits ▸ List.mem_cons_self)
  cases hsign : x.sign with
  | none =>
      rw [hsign, hdigits] at hc
      obtain rfl : d = c := Option.some.inj hc
      exact b.digit d hd
  | plus =>
      rw [hsign] at hc
      obtain rfl : '+' = c := Option.some.inj hc
      exact b.plus
  | minus =>
      rw [hsign] at hc
      obtain rfl : '-' = c := Option.some.inj hc
      exact b.minus

/-- A number with blanks in front starts with one. -/
theorem Numeral.Valid.starts_blank_iff (h : x.Valid b) :
    (∀ c ∈ x.text.head?, b.blank c = true) ↔ x.blanks ≠ [] := by
  cases hblanks : x.blanks with
  | nil =>
      have htext : x.text = x.sign.chars ++ (x.digits ++ x.rest) := by
        rw [text, hblanks, List.nil_append]
      obtain ⟨c, cs, hcons⟩ : ∃ c cs, x.text = c :: cs :=
        List.exists_cons_of_ne_nil fun hnil => h.some_digit
          (List.append_eq_nil_iff.mp (List.append_eq_nil_iff.mp (htext ▸ hnil)).2).1
      have hc : c ∈ x.text.head? := hcons ▸ rfl
      refine ⟨fun hall => absurd (hall c hc) ?_, fun hne => absurd rfl hne⟩
      rw [h.blanks_cut.stop c (htext ▸ hc)]
      exact Bool.false_ne_true
  | cons d ds =>
      refine ⟨fun _ => List.cons_ne_nil d ds, fun _ c hc => h.blanks c ?_⟩
      rw [text, hblanks] at hc
      obtain rfl : d = c := Option.some.inj hc
      exact hblanks ▸ List.mem_cons_self

/-- A digit is no sign. -/
theorem signed_of_digit {d : Char} {cs : List Char} (hd : d.isDigit = true) :
    signed (d :: cs) = (false, d :: cs) := by
  have hminus : d ≠ '-' := by
    rintro rfl
    exact absurd hd (by decide)
  have hplus : d ≠ '+' := by
    rintro rfl
    exact absurd hd (by decide)
  unfold signed
  split
  · rename_i heq
    exact absurd (List.cons.inj heq).1 hminus
  · rename_i heq
    exact absurd (List.cons.inj heq).1 hplus
  · rfl

theorem Numeral.Valid.signed_eq (h : x.Valid b) :
    signed (x.sign.chars ++ (x.digits ++ x.rest)) =
      (x.sign == .minus, x.digits ++ x.rest) := by
  obtain ⟨d, ds, hdigits⟩ := List.exists_cons_of_ne_nil h.some_digit
  have hd : d.isDigit = true := h.digits d (hdigits ▸ List.mem_cons_self)
  cases hsign : x.sign with
  | none =>
      rw [hdigits]
      exact signed_of_digit hd
  | plus => rfl
  | minus => rfl

/-- **A number is read as it is written.** -/
theorem read_of_numeral (u : Unsigned) (h : x.Valid b) :
    u.read b (some x.text) = u.store (x.sign == .minus) x.value x.rest := by
  obtain ⟨-, hblanks⟩ := cut_iff.mp h.blanks_cut
  obtain ⟨hdigits, hrest⟩ := cut_iff.mp h.digits_cut
  obtain ⟨d, ds, hcons⟩ := List.exists_cons_of_ne_nil h.some_digit
  have hsigned : signed (x.text.dropWhile b.blank) = (x.sign == .minus, x.digits ++ x.rest) := by
    rw [← hblanks]
    exact h.signed_eq
  unfold Unsigned.read
  dsimp only
  rw [hsigned]
  dsimp only
  rw [← hdigits, ← hrest, hcons, Numeral.value, hcons]

/-- What the text of a numeral is made of. -/
theorem exists_numeral {cs : List Char} {d : Char} {ds : List Char}
    (h : (signed (cs.dropWhile b.blank)).2.takeWhile Char.isDigit = d :: ds) :
    ∃ x : Numeral, x.Valid b ∧ cs = x.text := by
  obtain ⟨hblanks, hskipped, -⟩ := cut_while b.blank cs
  obtain ⟨hdigits, hall, hstop⟩ := cut_while Char.isDigit (signed (cs.dropWhile b.blank)).2
  rw [h] at hdigits hall
  obtain ⟨s, hs⟩ : ∃ s : Sign,
      cs.dropWhile b.blank = s.chars ++ (signed (cs.dropWhile b.blank)).2 := by
    unfold signed
    split
    · exact ⟨.minus, ‹_›⟩
    · exact ⟨.plus, ‹_›⟩
    · exact ⟨.none, rfl⟩
  refine ⟨⟨cs.takeWhile b.blank, s, d :: ds,
    (signed (cs.dropWhile b.blank)).2.dropWhile Char.isDigit⟩,
    ⟨hskipped, List.cons_ne_nil d ds, hall, hstop⟩, ?_⟩
  rw [Numeral.text, ← hdigits, ← hs, ← hblanks]

/-- Of anything else, nothing is. -/
theorem read_of_not_numeral (u : Unsigned) {cs : List Char}
    (h : ∀ x : Numeral, x.Valid b → cs ≠ x.text) : u.read b (some cs) = (0, none) := by
  rw [Unsigned.read]
  cases hdigits : (signed (cs.dropWhile b.blank)).2.takeWhile Char.isDigit with
  | nil =>
      dsimp only
      rw [hdigits]
  | cons d ds =>
      obtain ⟨x, hx, htext⟩ := exists_numeral hdigits
      exact absurd htext (h x hx)

/-- What is stored of a number that is written so, and what is left. -/
def Unsigned.stored (u : Unsigned) (x : Numeral) : ℕ × Stream :=
  u.store (x.sign == .minus) x.value x.rest

/-- What a reading that stores anything but 0 found. -/
theorem read_eq_iff (u : Unsigned) {cs : List Char} {n : ℕ} {s : Stream} (hn : n ≠ 0) :
    u.read b (some cs) = (n, s) ↔
      ∃ x : Numeral, x.Valid b ∧ cs = x.text ∧ u.stored x = (n, s) := by
  constructor
  · intro hread
    by_contra hno
    have hnot : ∀ x : Numeral, x.Valid b → cs ≠ x.text := by
      rintro x hx rfl
      exact hno ⟨x, hx, rfl, (read_of_numeral u hx).symm.trans hread⟩
    rw [read_of_not_numeral u hnot] at hread
    exact hn (congrArg Prod.fst hread).symm
  · rintro ⟨x, hx, rfl, hstored⟩
    exact (read_of_numeral u hx).trans hstored

/-- What two readings found, one after the other, that store anything but 0. -/
theorem read_read_iff (u : Unsigned) {cs : List Char} {m n : ℕ} (hm : m ≠ 0) (hn : n ≠ 0) :
    (u.read b (some cs)).1 = m ∧ (u.read b (u.read b (some cs)).2).1 = n ↔
      ∃ x y : Numeral, x.Valid b ∧ y.Valid b ∧ cs = x.text ∧ x.rest = y.text ∧
        u.stored x = (m, some x.rest) ∧ (u.stored y).1 = n := by
  constructor
  · rintro ⟨hfirst, hsecond⟩
    obtain ⟨x, hx, htext, hstored⟩ := (read_eq_iff u (s := (u.read b (some cs)).2) hm).mp
      (Prod.ext hfirst rfl)
    -- the first reading has not failed: the second one would store 0
    have hleft : (u.read b (some cs)).2 = some x.rest := by
      cases hs : (u.read b (some cs)).2 with
      | none =>
          rw [hs] at hsecond
          exact absurd hsecond.symm hn
      | some left =>
          rw [← hs, ← show (u.stored x).2 = _ from congrArg Prod.snd hstored]
          refine u.store_left (show (u.stored x).2 ≠ none from ?_)
          rw [hstored, hs]
          exact Option.some_ne_none left
    rw [hleft] at hsecond hstored
    obtain ⟨y, hy, hrest, hstored'⟩ := (read_eq_iff u (s := (u.read b (some x.rest)).2) hn).mp
      (Prod.ext hsecond rfl)
    exact ⟨x, y, hx, hy, htext, hrest, hstored, congrArg Prod.fst hstored'⟩
  · rintro ⟨x, y, hx, hy, rfl, hrest, hfirst, hsecond⟩
    have hread : u.read b (some x.text) = (m, some x.rest) := (read_of_numeral u hx).trans hfirst
    rw [hread, hrest, read_of_numeral u hy]
    exact ⟨rfl, hsecond⟩

/-- The digits of a number are a numeral of it. -/
theorem valid_toDigits {blanks rest : List Char} (n : ℕ) (s : Sign)
    (hblanks : ∀ c ∈ blanks, b.blank c = true) (hrest : ∀ c ∈ rest.head?, c.isDigit = false) :
    (⟨blanks, s, Nat.toDigits 10 n, rest⟩ : Numeral).Valid b where
  blanks := hblanks
  some_digit := Nat.toDigits_ne_nil
  digits _ hc := Nat.isDigit_of_mem_toDigits (by decide) (by decide) hc
  stop := hrest

theorem stored_toDigits (u : Unsigned) (n : ℕ) (blanks rest : List Char) :
    u.stored ⟨blanks, .none, Nat.toDigits 10 n, rest⟩ =
      if n ≤ u.max then (n, some rest) else (u.max, none) := by
  have hvalue : Numeral.value ⟨blanks, .none, Nat.toDigits 10 n, rest⟩ = n :=
    Nat.ofDigitChars_ten_toDigits
  rw [Unsigned.stored, hvalue]
  exact (if_neg fun h => Bool.false_ne_true h.1).trans (if_neg Bool.false_ne_true)

end Numerals

end OsIrose.Extraction

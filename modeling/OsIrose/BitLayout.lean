/-
Named bit fields of a machine word.

A packed header is one word seen through several layouts: the same named fields,
each with its fixed width, placed in a different order. A `Layout` is the list of
the fields from the lowest bit up, as a C `struct` of bit fields declares them; the
offset of a field is the sum of the widths declared before it.

The list carries its own well-formedness (every field occurs, once, and the widths
add up to the word), so the three facts the proofs rest on hold of every layout: a
field fits the word (`off_add_width_le`), two fields share no bit (`off_disjoint`),
and every bit belongs to a field (`exists_field_of_lt`). Everything else is
`getLsbD` bookkeeping: what `get` reads after `set`, after a copy from another
layout, and that two words with the same fields are equal (`ext_get`).
-/
import Mathlib.Algebra.Order.BigOperators.Group.List
import Mathlib.Data.BitVec
import Mathlib.Data.List.Nodup

set_option autoImplicit false

namespace OsIrose.BitLayout

variable {F : Type*} [DecidableEq F]

/-! ## Offsets in a list of fields -/

/-- The first bit of field `f` when the fields of the list are laid out in order. -/
def offsetIn (width : F → ℕ) : List F → F → ℕ
  | [], _ => 0
  | g :: gs, f => if f = g then 0 else width g + offsetIn width gs f

theorem offsetIn_add_width_le (width : F → ℕ) {fs : List F} {f : F} (hf : f ∈ fs) :
    offsetIn width fs f + width f ≤ (fs.map width).sum := by
  induction fs with
  | nil => simp at hf
  | cons g gs ih =>
      simp only [offsetIn, List.map_cons, List.sum_cons]
      by_cases hfg : f = g
      · rw [if_pos hfg, hfg]; omega
      · rw [if_neg hfg]
        have hmem : f ∈ gs := (List.mem_cons.mp hf).resolve_left hfg
        have := ih hmem
        omega

theorem offsetIn_disjoint (width : F → ℕ) {fs : List F} {f g : F} (hf : f ∈ fs)
    (hg : g ∈ fs) (hne : f ≠ g) :
    offsetIn width fs f + width f ≤ offsetIn width fs g ∨
      offsetIn width fs g + width g ≤ offsetIn width fs f := by
  induction fs with
  | nil => simp at hf
  | cons k ks ih =>
      simp only [offsetIn]
      by_cases hfk : f = k
      · -- `f` is the head of the list, so `g` comes after it
        have hgk : g ≠ k := fun h => hne (hfk.trans h.symm)
        rw [if_pos hfk, if_neg hgk, hfk]
        left; omega
      · by_cases hgk : g = k
        · rw [if_neg hfk, if_pos hgk, hgk]
          right; omega
        · rw [if_neg hfk, if_neg hgk]
          have := ih ((List.mem_cons.mp hf).resolve_left hfk)
            ((List.mem_cons.mp hg).resolve_left hgk)
          omega

theorem exists_mem_offsetIn (width : F → ℕ) {fs : List F} (hnd : fs.Nodup) {i : ℕ}
    (hi : i < (fs.map width).sum) :
    ∃ f ∈ fs, offsetIn width fs f ≤ i ∧ i < offsetIn width fs f + width f := by
  induction fs generalizing i with
  | nil => simp at hi
  | cons g gs ih =>
      simp only [List.map_cons, List.sum_cons] at hi
      obtain ⟨hg, hnd'⟩ := List.nodup_cons.mp hnd
      -- the bit is one of the head's, or one of the tail's moved up by the head's width
      rcases Nat.lt_or_ge i (width g) with hlt | hge
      · refine ⟨g, List.mem_cons_self, ?_, ?_⟩
        · simp [offsetIn]
        · simpa [offsetIn] using hlt
      · have hi' : i - width g < (gs.map width).sum := by omega
        obtain ⟨f, hf, h1, h2⟩ := ih hnd' hi'
        have hfg : f ≠ g := fun h => hg (h ▸ hf)
        refine ⟨f, List.mem_cons_of_mem _ hf, ?_, ?_⟩
        · simp only [offsetIn, if_neg hfg]; omega
        · simp only [offsetIn, if_neg hfg]; omega

/-! ## Layouts -/

/-- A layout of the fields `F`, of the given widths, in a `w`-bit word: the fields in
the order of their declaration, the first one in the lowest bits. -/
structure Layout {F : Type*} (width : F → ℕ) (w : ℕ) where
  fields : List F
  nodup : fields.Nodup
  complete : ∀ f, f ∈ fields
  total : (fields.map width).sum = w

namespace Layout

variable {width : F → ℕ} {w : ℕ}

/-- The first bit of a field. -/
def off (L : Layout width w) (f : F) : ℕ := offsetIn width L.fields f

/-- A field fits the word. -/
theorem off_add_width_le (L : Layout width w) (f : F) : L.off f + width f ≤ w := by
  have h := offsetIn_add_width_le width (L.complete f)
  rwa [L.total] at h

/-- Two fields share no bit. -/
theorem off_disjoint (L : Layout width w) {f g : F} (hne : f ≠ g) :
    L.off f + width f ≤ L.off g ∨ L.off g + width g ≤ L.off f :=
  offsetIn_disjoint width (L.complete f) (L.complete g) hne

/-- Every bit of the word belongs to a field. -/
theorem exists_field_of_lt (L : Layout width w) {i : ℕ} (hi : i < w) :
    ∃ f, L.off f ≤ i ∧ i < L.off f + width f := by
  have hi' : i < (L.fields.map width).sum := by rw [L.total]; exact hi
  obtain ⟨f, -, h⟩ := exists_mem_offsetIn width L.nodup hi'
  exact ⟨f, h⟩

/-- Read a field. -/
def get (L : Layout width w) (f : F) (x : BitVec w) : BitVec (width f) :=
  x.extractLsb' (L.off f) (width f)

/-- Write a field and leave the other bits alone. -/
def set (L : Layout width w) (f : F) (v : BitVec (width f)) (x : BitVec w) : BitVec w :=
  (x &&& ~~~((BitVec.allOnes (width f)).setWidth w <<< L.off f)) |||
    (v.setWidth w <<< L.off f)

/-- Assign field by field from a word of another layout: `a->f = b->f` for each `f`
of the list, in order. -/
def copy (dst src : Layout width w) (fs : List F) (a b : BitVec w) : BitVec w :=
  fs.foldl (fun x f => dst.set f (src.get f b) x) a

/-! ## Reading bits -/

theorem getLsbD_get (L : Layout width w) (f : F) (x : BitVec w) (i : ℕ) :
    (L.get f x).getLsbD i = (decide (i < width f) && x.getLsbD (L.off f + i)) := by
  simp only [get, BitVec.getLsbD_extractLsb']

theorem getLsbD_set (L : Layout width w) (f : F) (v : BitVec (width f)) (x : BitVec w)
    (i : ℕ) :
    (L.set f v x).getLsbD i =
      if L.off f ≤ i ∧ i < L.off f + width f then v.getLsbD (i - L.off f)
      else x.getLsbD i := by
  have hfit := L.off_add_width_le f
  simp only [set, BitVec.getLsbD_or, BitVec.getLsbD_and, BitVec.getLsbD_not,
    BitVec.getLsbD_shiftLeft, BitVec.getLsbD_setWidth, BitVec.getLsbD_allOnes]
  -- inside the mask, below it, above it
  by_cases hin : L.off f ≤ i ∧ i < L.off f + width f
  · have h1 : i < w := by omega
    have h2 : ¬ i < L.off f := by omega
    have h3 : i - L.off f < w := by omega
    have h4 : i - L.off f < width f := by omega
    simp [hin, h1, h2, h3, h4]
  · rw [if_neg hin]
    by_cases hlow : i < L.off f
    · by_cases hw : i < w
      · simp [hlow, hw]
      · simp [hlow, hw, BitVec.getLsbD_of_ge x i (by omega)]
    · have hhigh : width f ≤ i - L.off f := by omega
      rw [BitVec.getLsbD_of_ge v _ hhigh]
      by_cases hw : i < w
      · simp [hlow, hw, hhigh]
      · simp [hlow, hw, BitVec.getLsbD_of_ge x i (by omega)]

/-- Two words with equal fields are equal. -/
theorem ext_get (L : Layout width w) {x y : BitVec w} (h : ∀ f, L.get f x = L.get f y) :
    x = y := by
  apply BitVec.eq_of_getLsbD_eq
  intro i hi
  obtain ⟨f, hle, hlt⟩ := L.exists_field_of_lt hi
  have hbit : (L.get f x).getLsbD (i - L.off f) = (L.get f y).getLsbD (i - L.off f) := by
    rw [h f]
  have hin : i - L.off f < width f := by omega
  have hsum : L.off f + (i - L.off f) = i := by omega
  rw [getLsbD_get, getLsbD_get, hsum] at hbit
  simpa only [hin, decide_true, Bool.true_and] using hbit

@[simp] theorem get_xor (L : Layout width w) (f : F) (x y : BitVec w) :
    L.get f (x ^^^ y) = L.get f x ^^^ L.get f y := by
  apply BitVec.eq_of_getLsbD_eq
  intro i hi
  simp only [getLsbD_get, BitVec.getLsbD_xor, hi, decide_true, Bool.true_and]

@[simp] theorem get_set_self (L : Layout width w) (f : F) (v : BitVec (width f))
    (x : BitVec w) : L.get f (L.set f v x) = v := by
  apply BitVec.eq_of_getLsbD_eq
  intro i hi
  rw [getLsbD_get, getLsbD_set, if_pos (by omega), Nat.add_sub_cancel_left]
  simp only [hi, decide_true, Bool.true_and]

theorem get_set_of_ne (L : Layout width w) {f g : F} (hne : f ≠ g) (v : BitVec (width g))
    (x : BitVec w) : L.get f (L.set g v x) = L.get f x := by
  apply BitVec.eq_of_getLsbD_eq
  intro i hi
  have hdisj := L.off_disjoint hne
  rw [getLsbD_get, getLsbD_get, getLsbD_set, if_neg (by omega)]

/-! ## Copies -/

@[simp] theorem copy_nil (dst src : Layout width w) (a b : BitVec w) :
    dst.copy src [] a b = a := rfl

@[simp] theorem copy_cons (dst src : Layout width w) (f : F) (fs : List F)
    (a b : BitVec w) :
    dst.copy src (f :: fs) a b = dst.copy src fs (dst.set f (src.get f b) a) b := rfl

/-- A field outside the list keeps its value. -/
theorem get_copy_of_notMem (dst src : Layout width w) {fs : List F} {f : F} (hf : f ∉ fs)
    (a b : BitVec w) : dst.get f (dst.copy src fs a b) = dst.get f a := by
  induction fs generalizing a with
  | nil => rfl
  | cons g gs ih =>
      have hne : f ≠ g := fun h => hf (h ▸ List.mem_cons_self)
      rw [copy_cons, ih (fun h => hf (List.mem_cons_of_mem _ h)), get_set_of_ne _ hne]

/-- A field of the list takes its value from the source word. -/
theorem get_copy_of_mem (dst src : Layout width w) {fs : List F} {f : F} (hf : f ∈ fs)
    (a b : BitVec w) : dst.get f (dst.copy src fs a b) = src.get f b := by
  induction fs generalizing a with
  | nil => simp at hf
  | cons g gs ih =>
      rw [copy_cons]
      -- the last assignment to `f` decides
      by_cases hmem : f ∈ gs
      · exact ih hmem _
      · have hfg : f = g := (List.mem_cons.mp hf).resolve_right hmem
        subst hfg
        rw [get_copy_of_notMem _ _ hmem, get_set_self]

/-- A run of bits lying inside the fields of a list depends on those fields only. -/
theorem extractLsb'_eq_of_get (L : Layout width w) {fs : List F} {start len : ℕ}
    (hcov : ∀ i, start ≤ i → i < start + len →
      ∃ f ∈ fs, L.off f ≤ i ∧ i < L.off f + width f)
    {x y : BitVec w} (h : ∀ f ∈ fs, L.get f x = L.get f y) :
    x.extractLsb' start len = y.extractLsb' start len := by
  apply BitVec.eq_of_getLsbD_eq
  intro i hi
  rw [BitVec.getLsbD_extractLsb', BitVec.getLsbD_extractLsb']
  obtain ⟨f, hf, hle, hlt⟩ := hcov (start + i) (by omega) (by omega)
  have hbit : (L.get f x).getLsbD (start + i - L.off f)
      = (L.get f y).getLsbD (start + i - L.off f) := by rw [h f hf]
  have hin : start + i - L.off f < width f := by omega
  have hsum : L.off f + (start + i - L.off f) = start + i := by omega
  rw [getLsbD_get, getLsbD_get, hsum] at hbit
  simp only [hin, decide_true, Bool.true_and] at hbit
  rw [hbit]

/-! ## Words put together by shifts -/

/-- The values of the fields, each shifted to its place, or-ed together from the top. -/
def combine (L : Layout width w) (v : F → BitVec w) : BitVec w :=
  L.fields.foldr (fun f x => x ||| v f <<< L.off f) 0

theorem getLsbD_combine (L : Layout width w) (v : F → BitVec w) {i : ℕ} (hi : i < w) :
    (L.combine v).getLsbD i = true ↔ ∃ f, L.off f ≤ i ∧ (v f).getLsbD (i - L.off f) = true := by
  have hfold : ∀ fs : List F,
      (fs.foldr (fun f x => x ||| v f <<< L.off f) 0).getLsbD i = true ↔
        ∃ f ∈ fs, L.off f ≤ i ∧ (v f).getLsbD (i - L.off f) = true := by
    intro fs
    induction fs with
    | nil => simp
    | cons f fs ih =>
        rw [List.foldr_cons, BitVec.getLsbD_or, Bool.or_eq_true, ih, BitVec.getLsbD_shiftLeft,
          List.exists_mem_cons_iff, or_comm]
        simp [hi]
  rw [combine, hfold]
  exact exists_congr fun f => and_iff_right (L.complete f)

/-- Values that fit their fields do not get into each other's way. -/
theorem get_combine (L : Layout width w) {v : F → BitVec w}
    (hfit : ∀ f, (v f).toNat < 2 ^ width f) (f : F) :
    L.get f (L.combine v) = (v f).setWidth (width f) := by
  apply BitVec.eq_of_getLsbD_eq
  intro i hi
  have hin : L.off f + i < w := by
    have := L.off_add_width_le f
    omega
  rw [getLsbD_get, BitVec.getLsbD_setWidth, Bool.eq_iff_iff, Bool.and_eq_true, Bool.and_eq_true,
    getLsbD_combine L v hin]
  refine and_congr_right fun _ => ⟨?_, fun hbit => ⟨f, by omega, ?_⟩⟩
  · rintro ⟨g, hle, hbit⟩
    -- a bit of another field is beyond its width
    by_cases hgf : g = f
    · subst hgf
      rwa [Nat.add_sub_cancel_left] at hbit
    · have hdisj := L.off_disjoint hgf
      have hbeyond : width g ≤ L.off f + i - L.off g := by omega
      have hlt : (v g).toNat < 2 ^ (L.off f + i - L.off g) :=
        (hfit g).trans_le (Nat.pow_le_pow_right (by decide) hbeyond)
      have hzero : (v g).getLsbD (L.off f + i - L.off g) = false := Nat.testBit_lt_two_pow hlt
      rw [hzero] at hbit
      exact absurd hbit Bool.false_ne_true
  · rwa [Nat.add_sub_cancel_left]

/-- **The values can be read back** if and only if each fits its field. -/
theorem get_combine_iff (L : Layout width w) (v : F → BitVec w) :
    (∀ f, (L.get f (L.combine v)).setWidth w = v f) ↔ ∀ f, (v f).toNat < 2 ^ width f := by
  constructor
  · intro h f
    have hread := congrArg BitVec.toNat (h f)
    rw [BitVec.toNat_setWidth] at hread
    rw [← hread]
    exact (Nat.mod_le _ _).trans_lt (BitVec.isLt _)
  · intro hfit f
    rw [get_combine L hfit]
    apply BitVec.eq_of_toNat_eq
    rw [BitVec.toNat_setWidth, BitVec.toNat_setWidth, Nat.mod_eq_of_lt (hfit f),
      Nat.mod_eq_of_lt (v f).isLt]

end Layout

end OsIrose.BitLayout

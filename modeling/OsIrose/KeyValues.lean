/-
Entries of the key table that `PacketCodec()` fills.

A row is compared with what stands in the first row in front of the column, and the first four
rows start from the same seed, each with a generator of its own. So the entries of such a row
follow from two seeds that are drawn column by column (`default_m_Rt`), and `columns` computes
them on numbers, with the first row as the set bits of one number.
-/
import OsIrose.KeyTable
import Mathlib.Data.List.GetD

set_option autoImplicit false

namespace OsIrose.Crypt

open Function LinearCongruential

/-! ## The first four rows -/

section Rows

variable {t : RandomType} {m_Rt : Rows} {seed : BitVec 32}

theorem length_fillRow (j : ℕ) : (fillRow t m_Rt seed j).1.length = j := by
  induction j with
  | zero => rfl
  | succ j ih => rw [fillRow, List.length_append, ih, List.length_singleton]

/-- The row is filled from left to right. -/
theorem take_fillRow {j n : ℕ} (h : j ≤ n) :
    (fillRow t m_Rt seed n).1.take j = (fillRow t m_Rt seed j).1 := by
  induction n with
  | zero =>
      obtain rfl : j = 0 := by omega
      rfl
  | succ n ih =>
      rcases Nat.lt_or_ge n j with hlt | hle
      · obtain rfl : j = n + 1 := by omega
        rw [List.take_of_length_le (by rw [length_fillRow])]
      · rw [fillRow, List.take_append_of_le_length (by rw [length_fillRow]; exact hle), ih hle]

theorem getD_fillRow {j n : ℕ} (h : j < n) :
    (fillRow t m_Rt seed n).1.getD j 0 = t.result (fillRow t m_Rt seed (j + 1)).2 := by
  have htake : ((fillRow t m_Rt seed n).1.take (j + 1)).getD j 0 =
      (fillRow t m_Rt seed n).1.getD j 0 := by
    rw [List.getD_eq_getElem?_getD, List.getD_eq_getElem?_getD, List.getElem?_take,
      if_pos (by omega)]
  rw [← htake, take_fillRow (by omega), fillRow,
    List.getD_append_right _ _ _ _ (by rw [length_fillRow]), length_fillRow, Nat.sub_self]
  rfl

/-- The entries of the first row in front of a column. -/
def firstRow (seed : BitVec 32) (j : ℕ) : List (BitVec 32) := (fillRow .BC [] seed j).1

/-- The seed of a type behind `j` columns of its row among the first four. -/
def seedAt (seed : BitVec 32) (t : RandomType) : (j : ℕ) → BitVec 32
  | 0 => seed
  | j + 1 =>
      drawWhile t.next (fun s => (firstRow seed j).contains (t.result s)) (2 ^ 32)
        (seedAt seed t j)

/-- A row of the first four: it is the first, or the first is in front of it. -/
def AmongFirst (seed : BitVec 32) (t : RandomType) (m_Rt : Rows) : Prop :=
  t = .BC ∧ m_Rt = [] ∨ ∃ rows, m_Rt = firstRow seed 0x800 :: rows

theorem isDup_eq (h : AmongFirst seed t m_Rt) {j : ℕ} (hj : j ≤ 0x800) (s : BitVec 32) :
    isDup t (m_Rt ++ [(fillRow t m_Rt seed j).1]) j s =
      (firstRow seed j).contains (t.result s) := by
  rw [isDup, find_DupTABLE_zero]
  rcases h with ⟨rfl, rfl⟩ | ⟨rows, rfl⟩
  · rw [List.nil_append, List.getD_cons_zero, List.take_of_length_le (by rw [length_fillRow]),
      firstRow]
  · rw [List.cons_append, List.getD_cons_zero, firstRow, take_fillRow hj, firstRow]

theorem fillRow_snd (h : AmongFirst seed t m_Rt) {j : ℕ} (hj : j ≤ 0x800) :
    (fillRow t m_Rt seed j).2 = seedAt seed t j := by
  induction j with
  | zero => rfl
  | succ j ih =>
      have hdup : isDup t (m_Rt ++ [(fillRow t m_Rt seed j).1]) j =
          fun s => (firstRow seed j).contains (t.result s) :=
        funext fun s => isDup_eq h (by omega) s
      rw [fillRow, draw, hdup, ih (by omega), seedAt]

theorem firstRow_succ {j : ℕ} (hj : j < 0x800) :
    firstRow seed (j + 1) =
      firstRow seed j ++ [RandomType.BC.result (seedAt seed .BC (j + 1))] := by
  have hamong : AmongFirst seed .BC [] := Or.inl ⟨rfl, rfl⟩
  have hseed := fillRow_snd hamong (show j + 1 ≤ 0x800 by omega)
  rw [firstRow, ← hseed]
  rfl

end Rows

/-- More rows are put behind the ones that are there. -/
theorem prefix_changeSeedRow (state : Rows × (RandomType → BitVec 32)) (is : List ℕ) :
    state.1 <+: (is.foldl changeSeedRow state).1 := by
  induction is generalizing state with
  | nil => exact List.prefix_rfl
  | cons i is ih => exact (List.prefix_append state.1 _).trans (ih (changeSeedRow state i))

/-- The first rows, and the seed of each type of the first four that has not been drawn
from. -/
structure Filled (seed : BitVec 32) (n : ℕ) (state : Rows × (RandomType → BitVec 32)) : Prop where
  length : state.1.length = n
  row : ∀ i, i < n →
    state.1.getD i [] = (fillRow (RandomType.ofRow i) (state.1.take i) seed 0x800).1
  seeds : ∀ i, n ≤ i → i < 4 → state.2 (RandomType.ofRow i) = seed

theorem filled_changeSeedRow {seed : BitVec 32} {n : ℕ} {state : Rows × (RandomType → BitVec 32)}
    (h : Filled seed n state) (hn : n < 4) : Filled seed (n + 1) (changeSeedRow state n) := by
  have hrows : (changeSeedRow state n).1 =
      state.1 ++ [(fillRow (RandomType.ofRow n) state.1 seed 0x800).1] := by
    rw [changeSeedRow]
    dsimp only
    rw [h.seeds n (le_refl n) hn]
  refine ⟨by rw [hrows, List.length_append, h.length, List.length_singleton], ?_, ?_⟩
  · intro i hi
    rw [hrows]
    rcases Nat.lt_succ_iff_lt_or_eq.mp hi with hlt | rfl
    · rw [List.getD_append _ _ _ _ (by rw [h.length]; exact hlt), h.row i hlt,
        List.take_append_of_le_length (by rw [h.length]; omega)]
    · rw [List.getD_append_right _ _ _ _ (by rw [h.length]), h.length, Nat.sub_self,
        List.getD_cons_zero, List.take_left' h.length]
  · intro i hi hi4
    -- the four types are different
    have hne : RandomType.ofRow i ≠ RandomType.ofRow n := by
      have htypes : ∀ a, a < 4 → ∀ b, b < 4 → RandomType.ofRow a = RandomType.ofRow b → a = b := by
        decide
      intro heq
      have := htypes i hi4 n hn heq
      omega
    rw [changeSeedRow]
    dsimp only
    rw [update_of_ne hne]
    exact h.seeds i (by omega) hi4

theorem filled_foldl (seed : BitVec 32) {n : ℕ} (hn : n ≤ 4) :
    Filled seed n ((List.range n).foldl changeSeedRow ([], fun _ => seed)) := by
  induction n with
  | zero => exact ⟨rfl, fun i hi => absurd hi (Nat.not_lt_zero i), fun _ _ _ => rfl⟩
  | succ n ih =>
      rw [List.range_succ, List.foldl_append]
      exact filled_changeSeedRow (ih (by omega)) (by omega)

theorem Filled.amongFirst {seed : BitVec 32} {n : ℕ} {state : Rows × (RandomType → BitVec 32)}
    (h : Filled seed n state) {i : ℕ} (hi : i < n) :
    AmongFirst seed (RandomType.ofRow i) (state.1.take i) := by
  have hfirst := h.row 0 (by omega)
  have htype : RandomType.ofRow 0 = .BC := rfl
  rw [List.take_zero, htype] at hfirst
  cases i with
  | zero => exact Or.inl ⟨htype, List.take_zero⟩
  | succ i =>
      have hlen := h.length
      cases hrows : state.1 with
      | nil =>
          rw [hrows, List.length_nil] at hlen
          omega
      | cons row rows =>
          rw [hrows, List.getD_cons_zero] at hfirst
          rw [hfirst]
          exact Or.inr ⟨rows.take i, List.take_succ_cons⟩

/-- The entries of the first four rows. -/
theorem default_m_Rt {i j : ℕ} (hi : i < 4) (hj : j < 0x800) :
    PacketCodec.default.m_Rt i j =
      (RandomType.ofRow i).result (seedAt 0x0042D266 (RandomType.ofRow i) (j + 1)) := by
  have hfilled := filled_foldl 0x0042D266 (le_refl 4)
  set state := (List.range 4).foldl changeSeedRow ([], fun _ => 0x0042D266) with hstate
  obtain ⟨more, hmore⟩ : state.1 <+: changeSeed 0x0042D266 := by
    have hsplit : List.range 0x10 = List.range 4 ++ (List.range 12).map (4 + ·) :=
      List.range_add (n := 4) (m := 12)
    rw [changeSeed, hsplit, List.foldl_append]
    exact prefix_changeSeedRow state _
  have hentry : (changeSeed 0x0042D266).getD i [] = state.1.getD i [] := by
    rw [← hmore, List.getD_append _ _ _ _ (by rw [hfilled.length]; exact hi)]
  rw [← fillRow_snd (hfilled.amongFirst hi) (by omega), ← getD_fillRow hj, ← hfilled.row i hi,
    ← hentry, PacketCodec.default]

/-! ## Drawing on numbers -/

/-- The result that the seed `x` gives, from the least one up. -/
def RandomType.code : RandomType → ℕ → ℕ
  | .AC, x => x + 0x8000
  | _, x => bif x.blt (2 ^ 31) then 0x8000 + x / 0x10000 else 0x8000 - (2 ^ 32 - x) / 0x10000

theorem toNat_sdiv {x : ℕ} (hx : x < 2 ^ 32) :
    ((BitVec.ofNat 32 x).sdiv 0x10000 + 0x8000).toNat =
      bif x.blt (2 ^ 31) then 0x8000 + x / 0x10000 else 0x8000 - (2 ^ 32 - x) / 0x10000 := by
  have hmsb : (BitVec.ofNat 32 x).msb = decide (2 ^ 31 ≤ x) := by
    rw [BitVec.msb_eq_decide, BitVec.toNat_ofNat, Nat.mod_eq_of_lt hx]
  have hten : (0x10000 : BitVec 32).msb = false := rfl
  have hdiv : 0x10000 % 2 ^ 32 = 0x10000 := rfl
  rw [BitVec.toNat_add, BitVec.sdiv_eq, hmsb, hten]
  by_cases hlt : x < 2 ^ 31
  · rw [decide_eq_false (by omega), Nat.blt_eq.mpr hlt]
    change ((BitVec.ofNat 32 x / 0x10000#32).toNat + 0x8000) % 2 ^ 32 = 0x8000 + x / 0x10000
    rw [BitVec.toNat_udiv, BitVec.toNat_ofNat, BitVec.toNat_ofNat, Nat.mod_eq_of_lt hx, hdiv]
    omega
  · have hblt : x.blt (2 ^ 31) = false := by
      rw [← Bool.not_eq_true, Nat.blt_eq]
      exact hlt
    rw [decide_eq_true (by omega), hblt]
    change ((-(-(BitVec.ofNat 32 x) / 0x10000#32)).toNat + 0x8000) % 2 ^ 32 =
      0x8000 - (2 ^ 32 - x) / 0x10000
    rw [BitVec.toNat_neg, BitVec.toNat_udiv, BitVec.toNat_neg, BitVec.toNat_ofNat,
      BitVec.toNat_ofNat, Nat.mod_eq_of_lt hx, Nat.mod_eq_of_lt (a := 2 ^ 32 - x) (by omega), hdiv]
    omega

theorem RandomType.code_eq (t : RandomType) {x : ℕ} (hx : x < 2 ^ t.bits) :
    (t.result (BitVec.ofNat 32 x) + 0x8000).toNat = t.code x := by
  cases t with
  | BC => exact toNat_sdiv hx
  | AC =>
      have hx : x < 2 ^ 31 := hx
      change (BitVec.ofNat 32 x + 0x8000#32).toNat = x + 0x8000
      rw [BitVec.toNat_add, BitVec.toNat_ofNat, BitVec.toNat_ofNat]
      omega
  | MY => exact toNat_sdiv hx
  | VC =>
      have hx : x < 2 ^ 31 := hx
      exact toNat_sdiv (by omega)

/-- The set bits of `mask` are the codes of the row. -/
def Codes (mask : ℕ) (row : List (BitVec 32)) : Prop :=
  ∀ v : BitVec 32, mask.testBit (v + 0x8000).toNat = row.contains v

theorem codes_nil : Codes 0 [] := by
  intro v
  rw [Nat.zero_testBit, List.contains_nil]

theorem Codes.append {mask : ℕ} {row : List (BitVec 32)} (h : Codes mask row) (v : BitVec 32) :
    Codes (mask ||| 2 ^ (v + 0x8000).toNat) (row ++ [v]) := by
  intro u
  have hiff : (v + 0x8000).toNat = (u + 0x8000).toNat ↔ u = v := by
    rw [BitVec.toNat_inj, BitVec.add_left_inj]
    exact eq_comm
  rw [Nat.testBit_or, h u, Nat.testBit_two_pow, List.contains_append, List.contains_cons,
    List.contains_nil, Bool.or_false, decide_eq_decide.mpr hiff]
  rfl

/-- `f n`, with `n` evaluated first. -/
def force {α : Sort*} (n : ℕ) (f : ℕ → α) : α :=
  match n with
  | 0 => f 0
  | n + 1 => f (n + 1)

theorem force_eq {α : Sort*} (n : ℕ) (f : ℕ → α) : force n f = f n := by
  cases n <;> rfl

/-- `draw`, on the number of the seed. -/
def drawNat (t : RandomType) (mask : ℕ) : (fuel : ℕ) → ℕ → ℕ
  | 0, x => t.nextNat x
  | fuel + 1, x =>
      force (t.nextNat x) fun x => bif mask.testBit (t.code x) then drawNat t mask fuel x else x

theorem drawNat_eq (t : RandomType) (mask fuel x : ℕ) :
    drawNat t mask fuel x = drawWhile t.nextNat (fun x => mask.testBit (t.code x)) fuel x := by
  induction fuel generalizing x with
  | zero => rfl
  | succ fuel ih => rw [drawNat, force_eq, ih, drawWhile, Bool.cond_eq_ite]

/-- The seeds of the first row and of a type behind `n` more columns. -/
def columns (t : RandomType) : (n : ℕ) → (x y mask : ℕ) → ℕ × ℕ
  | 0, x, y, _ => (x, y)
  | n + 1, x, y, mask =>
      force (drawNat .BC mask (2 ^ 32) x) fun x =>
        force (drawNat t mask (2 ^ 32) y) fun y =>
          force (mask ||| 2 ^ RandomType.BC.code x) fun mask => columns t n x y mask

theorem nextNat_lt (t : RandomType) (x : ℕ) : t.nextNat x < 2 ^ t.bits :=
  next_lt (Nat.two_pow_pos t.bits) x

theorem seedAt_succ {seed : BitVec 32} {t : RandomType} {j mask y : ℕ}
    (hmask : Codes mask (firstRow seed j)) (hy : seedAt seed t j = BitVec.ofNat 32 y) :
    seedAt seed t (j + 1) = BitVec.ofNat 32 (drawNat t mask (2 ^ 32) y) := by
  rw [seedAt, hy, drawNat_eq]
  refine drawWhile_map (next_ofNat t) (fun x => ?_) (2 ^ 32) y
  rw [← hmask, t.code_eq (nextNat_lt t x)]

theorem drawNat_lt (t : RandomType) (mask fuel x : ℕ) : drawNat t mask fuel x < 2 ^ t.bits := by
  obtain ⟨s, hs⟩ := exists_drawWhile_eq t.nextNat (fun x => mask.testBit (t.code x)) fuel x
  rw [drawNat_eq, hs]
  exact nextNat_lt t s

theorem seedAt_columns {seed : BitVec 32} {t : RandomType} {n j x y mask : ℕ}
    (hmask : Codes mask (firstRow seed j)) (hx : seedAt seed .BC j = BitVec.ofNat 32 x)
    (hy : seedAt seed t j = BitVec.ofNat 32 y) (hn : j + n ≤ 0x800) :
    seedAt seed .BC (j + n) = BitVec.ofNat 32 (columns t n x y mask).1 ∧
      seedAt seed t (j + n) = BitVec.ofNat 32 (columns t n x y mask).2 := by
  induction n generalizing j x y mask with
  | zero => exact ⟨hx, hy⟩
  | succ n ih =>
      have hx' := seedAt_succ hmask hx
      have hy' := seedAt_succ hmask hy
      have hmask' := hmask.append (RandomType.BC.result (seedAt seed .BC (j + 1)))
      rw [← firstRow_succ (by omega), hx', RandomType.code_eq _ (drawNat_lt .BC mask _ x)] at hmask'
      have hstep := ih hmask' hx' hy' (by omega)
      rw [columns, force_eq, force_eq, force_eq, Nat.add_comm n 1, ← Nat.add_assoc]
      exact hstep

/-- Two entries of a column, from the seeds behind it. -/
theorem default_m_Rt_of_columns {i n x y : ℕ} (hi : i < 4) (hn : n < 0x800)
    (hcol : columns (RandomType.ofRow i) (n + 1) 0x0042D266 0x0042D266 0 = (x, y)) :
    PacketCodec.default.m_Rt 0 n = RandomType.BC.result (BitVec.ofNat 32 x) ∧
      PacketCodec.default.m_Rt i n = (RandomType.ofRow i).result (BitVec.ofNat 32 y) := by
  have hseed : ∀ t, seedAt 0x0042D266 t 0 = BitVec.ofNat 32 0x0042D266 := fun _ => rfl
  have hseeds := seedAt_columns (n := n + 1) codes_nil (hseed .BC) (hseed (RandomType.ofRow i))
    (by omega)
  rw [hcol, Nat.zero_add] at hseeds
  rw [default_m_Rt (by decide) hn, default_m_Rt hi hn, ← hseeds.1, ← hseeds.2]
  exact ⟨rfl, rfl⟩

/-- The column that every encoder uses, in the first four rows. -/
theorem default_m_Rt_0x100 :
    (PacketCodec.default.m_Rt 0 0x100).setWidth 8 = 0x42#8 ∧
      (PacketCodec.default.m_Rt 1 0x100).setWidth 8 = 0xA7#8 ∧
      (PacketCodec.default.m_Rt 2 0x100).setWidth 8 = 0x12#8 ∧
      (PacketCodec.default.m_Rt 3 0x100).setWidth 8 = 0xBE#8 := by
  have hAC : columns .AC 257 0x0042D266 0x0042D266 0 = (2202130175, 1342834855) := by
    decide +kernel
  have hMY : columns .MY 257 0x0042D266 0x0042D266 0 = (2202130175, 991084884) := by
    decide +kernel
  have hVC : columns .VC 257 0x0042D266 0x0042D266 0 = (2202130175, 297729169) := by
    decide +kernel
  obtain ⟨hzero, hone⟩ := default_m_Rt_of_columns (i := 1) (by decide) (by decide) hAC
  have htwo := (default_m_Rt_of_columns (i := 2) (by decide) (by decide) hMY).2
  have hthree := (default_m_Rt_of_columns (i := 3) (by decide) (by decide) hVC).2
  rw [hzero, hone, htwo, hthree]
  exact ⟨by decide, by decide, by decide, by decide⟩

/-- A column further on. -/
theorem default_m_Rt_0x7C0 :
    (PacketCodec.default.m_Rt 0 0x7C0).setWidth 8 = 0x2E#8 ∧
      (PacketCodec.default.m_Rt 2 0x7C0).setWidth 8 = 0x78#8 := by
  have hMY : columns .MY 1985 0x0042D266 0x0042D266 0 = (1680787840, 1165512180) := by
    decide +kernel
  obtain ⟨hzero, htwo⟩ := default_m_Rt_of_columns (i := 2) (by decide) (by decide) hMY
  rw [hzero, htwo]
  exact ⟨by decide, by decide⟩

end OsIrose.Crypt

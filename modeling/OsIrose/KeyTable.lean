/-
The key table of a `PacketCodec`, `RoseRandomNumber` and `PacketCodec::changeSeed`
(`rosecommon/src/crosecrypt.cpp`).

Each row is drawn from one of four linear congruential generators. A number is drawn again while
it is found among the entries that stand before its column in the *first* row, which is what
`find_DupTABLE` compares with. The generators go through all their states, so each of these loops
ends (`isDup_draw`), and no bound on them matters.

The product of two `int`s is taken to wrap.
-/
import OsIrose.Crypt
import OsIrose.LinearCongruential
import Mathlib.Data.Finset.Card

set_option autoImplicit false

namespace OsIrose.Crypt

open Function LinearCongruential

/-! ## `RoseRandomNumber` -/

/-- `RoseRandomNumber::Type`. -/
inductive RandomType
  | BC
  | AC
  | MY
  | VC
  deriving DecidableEq, Repr

/-- What `R_BC`, `R_AC`, `R_MY` and `R_VC` make of their seed. -/
def RandomType.next : RandomType → BitVec 32 → BitVec 32
  | .BC, seed => 0x8088405 * seed + 1
  | .AC, seed => (0x41C64E6D * seed + 12345) &&& 0x7FFFFFFF
  | .MY, seed => 0x41C64E6D * seed + 12345
  | .VC, seed => (0x343FD * seed + 0x269EC3) &&& 0x7FFFFFFF

/-- What they return of the new seed. -/
def RandomType.result : RandomType → BitVec 32 → BitVec 32
  | .AC, seed => seed
  | _, seed => seed.sdiv 0x10000

/-- `static_cast<RoseRandomNumber::Type>(i & 3)`. -/
def RandomType.ofRow (i : ℕ) : RandomType :=
  match i &&& 3 with
  | 0 => .BC
  | 1 => .AC
  | 2 => .MY
  | _ => .VC

/-! ## `changeSeed` -/

/-- The rows of `m_Rt` that are filled, and the one that is being filled. -/
abbrev Rows := List (List (BitVec 32))

/-- `find_DupTABLE(val, table, range)`. -/
def find_DupTABLE (m_Rt : Rows) (val : BitVec 32) (table range : ℕ) : Bool :=
  (m_Rt.take table).any (fun row => (row.take 0x7FF).contains val) ||
    ((m_Rt.getD table []).take range).contains val

/-- `find_DupTABLE(m_Rt[i][j], 0, j)` of the number that a seed gives. -/
def isDup (t : RandomType) (m_Rt : Rows) (j : ℕ) (seed : BitVec 32) : Bool :=
  find_DupTABLE m_Rt (t.result seed) 0 j

/-- `do { … = m_Cr.get(); } while (find_DupTABLE(…, 0, j));`: the seed after it. There are no
more than `2 ^ 32` seeds. -/
def draw (t : RandomType) (m_Rt : Rows) (j : ℕ) (seed : BitVec 32) : BitVec 32 :=
  drawWhile t.next (isDup t m_Rt j) (2 ^ 32) seed

/-- The first `j` entries of a row below the rows `m_Rt`, and the seed of its type behind
them. -/
def fillRow (t : RandomType) (m_Rt : Rows) (seed : BitVec 32) :
    (j : ℕ) → List (BitVec 32) × BitVec 32
  | 0 => ([], seed)
  | j + 1 =>
      let filled := fillRow t m_Rt seed j
      let seed := draw t (m_Rt ++ [filled.1]) j filled.2
      (filled.1 ++ [t.result seed], seed)

/-- The rows, and the seed of each type; the other types keep theirs. -/
def changeSeedRow (state : Rows × (RandomType → BitVec 32)) (i : ℕ) :
    Rows × (RandomType → BitVec 32) :=
  let t := RandomType.ofRow i
  let filled := fillRow t state.1 (state.2 t) 0x800
  (state.1 ++ [filled.1], update state.2 t filled.2)

/-- `PacketCodec::changeSeed`, the part that fills `m_Rt`. -/
def changeSeed (seed : BitVec 32) : Rows :=
  ((List.range 0x10).foldl changeSeedRow ([], fun _ => seed)).1

/-- `PacketCodec()`. -/
def PacketCodec.default : PacketCodec where
  m_Rt i j := ((changeSeed 0x0042D266).getD i []).getD j 0

/-! ## The generators -/

/-- The multiplier of a generator. -/
def RandomType.multiplier : RandomType → ℕ
  | .BC => 0x8088405
  | .AC | .MY => 0x41C64E6D
  | .VC => 0x343FD

def RandomType.increment : RandomType → ℕ
  | .BC => 1
  | .AC | .MY => 12345
  | .VC => 0x269EC3

/-- The number of bits of its state. -/
def RandomType.bits : RandomType → ℕ
  | .BC | .MY => 32
  | .AC | .VC => 31

/-- A draw, on the number of the seed. -/
def RandomType.nextNat (t : RandomType) : ℕ → ℕ :=
  LinearCongruential.next t.multiplier t.increment (2 ^ t.bits)

theorem and_low (v : BitVec 32) : v &&& 0x7FFFFFFF = BitVec.ofNat 32 (v.toNat % 2 ^ 31) := by
  apply BitVec.eq_of_toNat_eq
  rw [BitVec.toNat_and, BitVec.toNat_ofNat,
    Nat.mod_eq_of_lt (a := v.toNat % 2 ^ 31) (by omega)]
  exact Nat.and_two_pow_sub_one_eq_mod v.toNat 31

theorem ofNat_affine (a c x : ℕ) :
    BitVec.ofNat 32 a * BitVec.ofNat 32 x + BitVec.ofNat 32 c = BitVec.ofNat 32 (a * x + c) := by
  rw [← BitVec.ofNat_mul, ← BitVec.ofNat_add]

theorem next_ofNat (t : RandomType) (x : ℕ) :
    t.next (BitVec.ofNat 32 x) = BitVec.ofNat 32 (t.nextNat x) := by
  have hword : ∀ n : ℕ, BitVec.ofNat 32 (n % 2 ^ 32) = BitVec.ofNat 32 n := fun n => by
    rw [← BitVec.toNat_inj, BitVec.toNat_ofNat, BitVec.toNat_ofNat, Nat.mod_mod]
  have hlow : ∀ n : ℕ, BitVec.ofNat 32 n &&& 0x7FFFFFFF = BitVec.ofNat 32 (n % 2 ^ 31) := by
    intro n
    rw [and_low, BitVec.toNat_ofNat, Nat.mod_mod_of_dvd n (by decide)]
  cases t with
  | BC => exact (ofNat_affine 0x8088405 1 x).trans (hword _).symm
  | AC => exact (congrArg (· &&& 0x7FFFFFFF) (ofNat_affine 0x41C64E6D 12345 x)).trans (hlow _)
  | MY => exact (ofNat_affine 0x41C64E6D 12345 x).trans (hword _).symm
  | VC => exact (congrArg (· &&& 0x7FFFFFFF) (ofNat_affine 0x343FD 0x269EC3 x)).trans (hlow _)

theorem iterate_next_ofNat (t : RandomType) (n x : ℕ) :
    t.next^[n] (BitVec.ofNat 32 x) = BitVec.ofNat 32 (t.nextNat^[n] x) :=
  (Semiconj.iterate_right (f := BitVec.ofNat 32) (fun x => (next_ofNat t x).symm) n x).symm

/-! ## The loops end -/

/-- Only the first row is searched. -/
theorem find_DupTABLE_zero (m_Rt : Rows) (val : BitVec 32) (range : ℕ) :
    find_DupTABLE m_Rt val 0 range = ((m_Rt.getD 0 []).take range).contains val := by
  rw [find_DupTABLE, List.take_zero, List.any_nil, Bool.false_or]

/-- Every number of fifteen bits is a result. -/
theorem exists_result (t : RandomType) {v : ℕ} (hv : v < 2 ^ 15) :
    ∃ y, y < 2 ^ t.bits ∧ t.result (BitVec.ofNat 32 y) = BitVec.ofNat 32 v := by
  have hsdiv : (BitVec.ofNat 32 (v * 0x10000)).sdiv 0x10000 = BitVec.ofNat 32 v := by
    have hmsb : (BitVec.ofNat 32 (v * 0x10000)).msb = false := by
      rw [BitVec.msb_eq_decide, BitVec.toNat_ofNat]
      exact decide_eq_false (by omega)
    rw [BitVec.sdiv_eq, hmsb]
    apply BitVec.eq_of_toNat_eq
    change (BitVec.ofNat 32 (v * 0x10000) / 0x10000#32).toNat = _
    rw [BitVec.toNat_udiv, BitVec.toNat_ofNat, BitVec.toNat_ofNat, BitVec.toNat_ofNat,
      Nat.mod_eq_of_lt (a := v * 0x10000) (by omega), Nat.mod_eq_of_lt (a := v) (by omega)]
    exact Nat.mul_div_cancel v (by decide)
  cases t with
  | BC => exact ⟨v * 0x10000, by change _ < 2 ^ 32; omega, hsdiv⟩
  | AC => exact ⟨v, by change _ < 2 ^ 31; omega, rfl⟩
  | MY => exact ⟨v * 0x10000, by change _ < 2 ^ 32; omega, hsdiv⟩
  | VC => exact ⟨v * 0x10000, by change _ < 2 ^ 31; omega, hsdiv⟩

/-- A short list does not have all of many numbers. -/
theorem exists_lt_notMem {α : Type*} [DecidableEq α] {f : ℕ → α} {n : ℕ}
    (hinj : ∀ v, v < n → ∀ v', v' < n → f v = f v' → v = v') {l : List α} (hl : l.length < n) :
    ∃ v, v < n ∧ f v ∉ l := by
  have hinj' : Set.InjOn f (Finset.range n) := fun v hv v' hv' heq =>
    hinj v (Finset.mem_range.mp hv) v' (Finset.mem_range.mp hv') heq
  have hcard : l.toFinset.card < ((Finset.range n).image f).card := by
    rw [Finset.card_image_of_injOn hinj', Finset.card_range]
    exact (List.toFinset_card_le l).trans_lt hl
  obtain ⟨_, hmem, hnot⟩ := Finset.exists_mem_notMem_of_card_lt_card hcard
  obtain ⟨v, hv, rfl⟩ := Finset.mem_image.mp hmem
  exact ⟨v, Finset.mem_range.mp hv, fun h => hnot (List.mem_toFinset.mpr h)⟩

/-- So a few entries leave some result over. -/
theorem exists_result_notMem (t : RandomType) {row : List (BitVec 32)}
    (hrow : row.length < 2 ^ 15) :
    ∃ y, y < 2 ^ t.bits ∧ t.result (BitVec.ofNat 32 y) ∉ row := by
  have hinj : ∀ v, v < 2 ^ 15 → ∀ v', v' < 2 ^ 15 →
      BitVec.ofNat 32 v = BitVec.ofNat 32 v' → v = v' := by
    intro v hv v' hv' heq
    have hnat := congrArg BitVec.toNat heq
    rw [BitVec.toNat_ofNat, BitVec.toNat_ofNat] at hnat
    omega
  obtain ⟨v, hv, hnot⟩ := exists_lt_notMem hinj hrow
  obtain ⟨y, hy, hresult⟩ := exists_result t hv
  exact ⟨y, hy, hresult ▸ hnot⟩

/-- The generator gets to every state. -/
theorem exists_iterate_eq (t : RandomType) (seed : BitVec 32) {y : ℕ} (hy : y < 2 ^ t.bits) :
    ∃ n, n < 2 ^ 32 ∧ t.next^[n + 1] seed = BitVec.ofNat 32 y := by
  obtain ⟨n, hn, hiter⟩ := exists_iterate_next (a := t.multiplier) (c := t.increment)
    (by cases t <;> rfl) (by cases t <;> rfl) (x := seed.toNat) hy
  have hbits : 2 ^ t.bits ≤ 2 ^ 32 := by cases t <;> decide
  refine ⟨n, hn.trans_le hbits, ?_⟩
  have h := iterate_next_ofNat t (n + 1) seed.toNat
  rw [BitVec.ofNat_toNat, BitVec.setWidth_eq] at h
  rw [h, RandomType.nextNat, hiter]

/-- **The loop ends**: the number drawn is not found. -/
theorem isDup_draw (t : RandomType) (m_Rt : Rows) {j : ℕ} (hj : j < 2 ^ 15)
    (seed : BitVec 32) : isDup t m_Rt j (draw t m_Rt j seed) = false := by
  have hlen : ((m_Rt.getD 0 []).take j).length < 2 ^ 15 := by
    rw [List.length_take]
    omega
  obtain ⟨y, hy, hnot⟩ := exists_result_notMem t hlen
  obtain ⟨n, hn, hseed⟩ := exists_iterate_eq t seed hy
  refine again_drawWhile hn.le (n := n) ?_
  rw [hseed, isDup, find_DupTABLE_zero]
  rw [← Bool.not_eq_true, List.contains_iff_mem]
  exact hnot

end OsIrose.Crypt

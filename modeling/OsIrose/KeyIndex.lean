/-
The loops of `PacketCodec::changeSeed` (`rosecommon/src/crosecrypt.cpp`) with a bound on their
draws, and the index table `m_Ri` behind the key table.

A generator goes through all its states, and there are more results than a loop ever refuses:
numbers of fifteen bits against less than `0x800` entries, indexes of eleven bits against less
than `0x200`. So each loop ends, from any seed, and what it leaves is new. In the first row of
`m_Rt` that makes the entries distinct; an entry below it is none of those in front of its
column (`wellFormed_changeSeed`).
-/
import OsIrose.KeyValues
import OsIrose.Runs

set_option autoImplicit false

namespace OsIrose.Crypt

open Function LinearCongruential

/-! ## `changeSeed` -/

/-- `find_DupINDEX(val, range)`. -/
def find_DupINDEX (m_Ri : List (BitVec 16)) (val : BitVec 16) (range : ℕ) : Bool :=
  (m_Ri.take range).contains val

/-- `m_Cr.get() & 0x7FF` of the seed that is left. -/
def indexOf (seed : BitVec 32) : BitVec 16 := (RandomType.AC.result seed &&& 0x7FF).setWidth 16

section Within

variable (fuel : ℕ)

/-- `fillRow`, with at most `fuel` draws for an entry. -/
def fillRowWithin (t : RandomType) (m_Rt : Rows) (seed : BitVec 32) :
    (j : ℕ) → Option (List (BitVec 32) × BitVec 32)
  | 0 => some ([], seed)
  | j + 1 => do
      let filled ← fillRowWithin t m_Rt seed j
      let seed ← drawWithin t.next (isDup t (m_Rt ++ [filled.1]) j) fuel filled.2
      return (filled.1 ++ [t.result seed], seed)

/-- `changeSeedRow`, with at most `fuel` draws for an entry. -/
def changeSeedRowWithin (state : Rows × (RandomType → BitVec 32)) (i : ℕ) :
    Option (Rows × (RandomType → BitVec 32)) := do
  let t := RandomType.ofRow i
  let filled ← fillRowWithin fuel t state.1 (state.2 t) 0x800
  return (state.1 ++ [filled.1], update state.2 t filled.2)

/-- The first `i` entries of `m_Ri`, and the seed behind them. -/
def fillIndexWithin (seed : BitVec 32) : (i : ℕ) → Option (List (BitVec 16) × BitVec 32)
  | 0 => some ([], seed)
  | i + 1 => do
      let filled ← fillIndexWithin seed i
      let seed ← drawWithin RandomType.AC.next
        (fun seed => find_DupINDEX filled.1 (indexOf seed) i) fuel filled.2
      return (filled.1 ++ [indexOf seed], seed)

/-- `PacketCodec::changeSeed`: `m_Rt` and `m_Ri`. `none` if some loop has not ended after
`fuel` draws. -/
def changeSeedWithin (seed : BitVec 32) : Option (Rows × List (BitVec 16)) := do
  let state ← (List.range 0x10).foldlM (changeSeedRowWithin fuel) ([], fun _ => seed)
  let filled ← fillIndexWithin fuel (state.2 .AC) 0x200
  return (state.1, filled.1)

end Within

/-! ## The rows -/

/-- What the loop of an entry leaves. -/
theorem drawWithin_eq_draw (t : RandomType) (m_Rt : Rows) {j : ℕ} (hj : j < 2 ^ 15)
    (seed : BitVec 32) :
    drawWithin t.next (isDup t m_Rt j) (2 ^ 32) seed = some (draw t m_Rt j seed) := by
  have hlen : ((m_Rt.getD 0 []).take j).length < 2 ^ 15 := by
    rw [List.length_take]
    omega
  obtain ⟨y, hy, hnot⟩ := exists_result_notMem t hlen
  obtain ⟨n, hn, hseed⟩ := exists_iterate_eq t seed hy
  have hstop : isDup t m_Rt j (t.next^[n + 1] seed) = false := by
    rw [hseed, isDup, find_DupTABLE_zero, ← Bool.not_eq_true, List.contains_iff_mem]
    exact hnot
  obtain ⟨s', hs', _⟩ := exists_drawWithin hn hstop
  rw [hs', draw, drawWhile_of_drawWithin hs']

theorem fillRowWithin_eq (t : RandomType) (m_Rt : Rows) (seed : BitVec 32) {j : ℕ}
    (hj : j ≤ 2 ^ 15) :
    fillRowWithin (2 ^ 32) t m_Rt seed j = some (fillRow t m_Rt seed j) := by
  induction j with
  | zero => rfl
  | succ j ih =>
      rw [fillRowWithin, ih (by omega), Option.bind_eq_bind, Option.bind_some,
        drawWithin_eq_draw t _ (by omega)]
      rfl

theorem foldlM_changeSeedRowWithin (is : List ℕ) (state : Rows × (RandomType → BitVec 32)) :
    is.foldlM (changeSeedRowWithin (2 ^ 32)) state = some (is.foldl changeSeedRow state) := by
  induction is generalizing state with
  | nil => rfl
  | cons i is ih =>
      have hrow : changeSeedRowWithin (2 ^ 32) state i = some (changeSeedRow state i) := by
        rw [changeSeedRowWithin, fillRowWithin_eq _ _ _ (by decide)]
        rfl
      rw [List.foldlM_cons, hrow, List.foldl_cons]
      exact ih _

/-- No entry of the row is among those of the first one in front of its column. -/
def Apart (first row : List (BitVec 32)) : Prop :=
  ∀ j e, row[j]? = some e → e ∉ first.take j

/-- The entries in front of a column are there when it is filled. -/
theorem take_first_fillRow (t : RandomType) (m_Rt : Rows) (seed : BitVec 32) {j n : ℕ}
    (h : j ≤ n) :
    ((m_Rt ++ [(fillRow t m_Rt seed n).1]).getD 0 []).take j =
      ((m_Rt ++ [(fillRow t m_Rt seed j).1]).getD 0 []).take j := by
  cases m_Rt with
  | nil =>
      rw [List.nil_append, List.nil_append, List.getD_cons_zero, List.getD_cons_zero,
        take_fillRow h, take_fillRow (le_refl j)]
  | cons row rows => rfl

theorem apart_fillRow (t : RandomType) (m_Rt : Rows) (seed : BitVec 32) {n : ℕ}
    (hn : n ≤ 2 ^ 15) :
    Apart ((m_Rt ++ [(fillRow t m_Rt seed n).1]).getD 0 []) (fillRow t m_Rt seed n).1 := by
  intro j e he
  have hj : j < n := by
    have hlt := (List.getElem?_eq_some_iff.mp he).1
    rwa [length_fillRow] at hlt
  have hentry : e = t.result (fillRow t m_Rt seed (j + 1)).2 := by
    rw [← getD_fillRow hj, List.getD_eq_getElem?_getD, he, Option.getD_some]
  rw [take_first_fillRow t m_Rt seed hj.le, hentry]
  have hfresh := isDup_draw t (m_Rt ++ [(fillRow t m_Rt seed j).1]) (hj.trans_le hn)
    (fillRow t m_Rt seed j).2
  rwa [isDup, find_DupTABLE_zero, ← Bool.not_eq_true, List.contains_iff_mem] at hfresh

/-- Rows that are complete, and apart from the first one. -/
def Complete (m_Rt : Rows) : Prop :=
  ∀ row ∈ m_Rt, row.length = 0x800 ∧ Apart (m_Rt.getD 0 []) row

/-- **What one more row keeps.** -/
theorem complete_changeSeedRow (state : Rows × (RandomType → BitVec 32)) (i : ℕ)
    (h : Complete state.1) : Complete (changeSeedRow state i).1 := by
  have hrows : (changeSeedRow state i).1 = state.1 ++
      [(fillRow (RandomType.ofRow i) state.1 (state.2 (RandomType.ofRow i)) 0x800).1] := by
    rw [changeSeedRow]
  intro row hrow
  rw [hrows] at hrow ⊢
  obtain hold | hnew := List.mem_append.mp hrow
  · obtain ⟨hlength, hapart⟩ := h row hold
    refine ⟨hlength, ?_⟩
    -- there is a first row, and it stays
    rwa [List.getD_append _ _ _ _ (List.length_pos_of_mem hold)]
  · rw [List.mem_singleton.mp hnew]
    exact ⟨length_fillRow _, apart_fillRow _ _ _ (by decide)⟩

theorem length_foldl_changeSeedRow (is : List ℕ) (state : Rows × (RandomType → BitVec 32)) :
    (is.foldl changeSeedRow state).1.length = state.1.length + is.length := by
  induction is generalizing state with
  | nil => rfl
  | cons i is ih =>
      rw [List.foldl_cons, ih, changeSeedRow, List.length_append, List.length_singleton,
        List.length_cons]
      omega

/-- A row that is apart from itself has no entry twice. -/
theorem Apart.nodup {row : List (BitVec 32)} (h : Apart row row) : row.Nodup := by
  refine List.nodup_iff_getElem?_ne_getElem?.mpr fun i j hij hj heq => ?_
  have he : row[j]? = some row[j] := List.getElem?_eq_getElem hj
  refine h j row[j] he (List.mem_of_getElem? (i := i) ?_)
  rw [List.getElem?_take, if_pos hij, heq, he]

/-! ## The indexes -/

theorem toNat_indexOf (seed : BitVec 32) : (indexOf seed).toNat = seed.toNat % 0x800 := by
  rw [indexOf, BitVec.toNat_setWidth, RandomType.result, BitVec.toNat_and]
  have hlow : seed.toNat &&& (0x7FF : BitVec 32).toNat = seed.toNat % 2 ^ 11 :=
    Nat.and_two_pow_sub_one_eq_mod seed.toNat 11
  rw [hlow]
  omega

/-- An index is left over. -/
theorem exists_indexOf_notMem {m_Ri : List (BitVec 16)} (h : m_Ri.length < 0x800) :
    ∃ y, y < 2 ^ RandomType.AC.bits ∧ indexOf (BitVec.ofNat 32 y) ∉ m_Ri := by
  have hinj : ∀ v, v < 0x800 → ∀ v', v' < 0x800 →
      indexOf (BitVec.ofNat 32 v) = indexOf (BitVec.ofNat 32 v') → v = v' := by
    intro v hv v' hv' heq
    have hnat := congrArg BitVec.toNat heq
    rw [toNat_indexOf, toNat_indexOf, BitVec.toNat_ofNat, BitVec.toNat_ofNat] at hnat
    omega
  obtain ⟨y, hy, hnot⟩ := exists_lt_notMem hinj h
  exact ⟨y, hy.trans (by decide), hnot⟩

/-- Every index is new, and of eleven bits. -/
theorem exists_fillIndexWithin (seed : BitVec 32) {i : ℕ} (hi : i ≤ 0x200) :
    ∃ m_Ri seed', fillIndexWithin (2 ^ 32) seed i = some (m_Ri, seed') ∧ m_Ri.length = i ∧
      m_Ri.Nodup ∧ ∀ v ∈ m_Ri, v.toNat < 0x800 := by
  induction i with
  | zero => exact ⟨[], seed, rfl, rfl, List.nodup_nil, fun _ h => absurd h List.not_mem_nil⟩
  | succ i ih =>
      obtain ⟨m_Ri, seed', hfilled, hlength, hnodup, hlt⟩ := ih (by omega)
      obtain ⟨y, hy, hnot⟩ := exists_indexOf_notMem (show m_Ri.length < 0x800 by omega)
      obtain ⟨n, hn, hiter⟩ := exists_iterate_eq .AC seed' hy
      have htake : m_Ri.take i = m_Ri := List.take_of_length_le hlength.le
      have hstop : find_DupINDEX m_Ri (indexOf (RandomType.AC.next^[n + 1] seed')) i = false := by
        rw [hiter, find_DupINDEX, htake, ← Bool.not_eq_true, List.contains_iff_mem]
        exact hnot
      obtain ⟨drawn, hdrawn, hfresh⟩ := @exists_drawWithin _ RandomType.AC.next
        (fun seed => find_DupINDEX m_Ri (indexOf seed) i) _ _ _ hn hstop
      rw [find_DupINDEX, htake, ← Bool.not_eq_true, List.contains_iff_mem] at hfresh
      refine ⟨m_Ri ++ [indexOf drawn], drawn, ?_, ?_, ?_, ?_⟩
      · rw [fillIndexWithin, hfilled, Option.bind_eq_bind, Option.bind_some, hdrawn]
        rfl
      · rw [List.length_append, hlength, List.length_singleton]
      · exact List.nodup_append'.mpr
          ⟨hnodup, List.nodup_singleton _, List.disjoint_singleton.mpr hfresh⟩
      · intro v hv
        obtain hold | hnew := List.mem_append.mp hv
        · exact hlt v hold
        · rw [List.mem_singleton.mp hnew, toNat_indexOf]
          exact Nat.mod_lt _ (by decide)

/-! ## The result -/

structure WellFormed (m_Rt : Rows) (m_Ri : List (BitVec 16)) : Prop where
  rows : m_Rt.length = 0x10
  columns : ∀ row ∈ m_Rt, row.length = 0x800
  first : (m_Rt.getD 0 []).Nodup
  below : ∀ row ∈ m_Rt.tail, ∀ j e, row[j]? = some e → e ∉ (m_Rt.getD 0 []).take j
  indexes : m_Ri.length = 0x200
  distinct : m_Ri.Nodup
  lt : ∀ index ∈ m_Ri, index.toNat < 0x800

/-- **The loops of `changeSeed` end**, whatever the seed, and leave tables that are well
formed; the rows are those of `changeSeed`. -/
theorem wellFormed_changeSeed (seed : BitVec 32) :
    ∃ fuel m_Ri, changeSeedWithin fuel seed = some (changeSeed seed, m_Ri) ∧
      WellFormed (changeSeed seed) m_Ri := by
  obtain ⟨m_Ri, seed', hindex, hlength, hnodup, hlt⟩ := exists_fillIndexWithin
    (((List.range 0x10).foldl changeSeedRow ([], fun _ => seed)).2 .AC) (le_refl 0x200)
  refine ⟨2 ^ 32, m_Ri, ?_, ?_⟩
  · rw [changeSeedWithin, foldlM_changeSeedRowWithin, Option.bind_eq_bind, Option.bind_some,
      hindex]
    rfl
  · have hcomplete : Complete (changeSeed seed) :=
      Runs.foldl_invariant (fun state : Rows × (RandomType → BitVec 32) => Complete state.1)
        complete_changeSeedRow
        (fun _ hrow => absurd hrow List.not_mem_nil) _
    have hrows : (changeSeed seed).length = 0x10 := by
      rw [changeSeed, length_foldl_changeSeedRow, List.length_range]
      rfl
    have hfirst : (changeSeed seed).getD 0 [] ∈ changeSeed seed := by
      rw [List.getD_eq_getElem _ _ (show 0 < (changeSeed seed).length by omega)]
      exact List.getElem_mem _
    exact {
      rows := hrows
      columns := fun row hrow => (hcomplete row hrow).1
      first := (hcomplete _ hfirst).2.nodup
      below := fun row hrow => (hcomplete row (List.mem_of_mem_tail hrow)).2
      indexes := hlength
      distinct := hnodup
      lt := hlt }

end OsIrose.Crypt

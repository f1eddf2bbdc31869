/-
A byte memory with an access log, and counted loops over it.

Code that works in place on an `unsigned char*` is a function from memory to memory.
`MemM` is that state monad: `load` and `store` move one byte and enter the index in
`log`, so one definition answers both what the code computes (`bytes`) and where it
looked (`log`). Indices are unbounded naturals on purpose: C does not check them, and
an access past the end of the caller's buffer is a fact about `log`.

Two kinds of lemma are all the proofs above this file use. The `_run` lemmas give the
value and the bytes an operation leaves; the `mem_log` lemmas say which indices it
adds to the log. `forRange_pointwise` does the first once for every loop that visits
each index once and rewrites that byte from its own value, which is every loop of a
byte-wise cipher.
-/
import Mathlib.Data.BitVec
import Mathlib.Logic.Function.Basic
import Mathlib.Tactic.Ring

set_option autoImplicit false

namespace OsIrose.ByteMem

/-- One byte of memory. -/
abbrev Byte := BitVec 8

/-- Memory as one pointer reaches it, and the indices used so far, latest first. -/
structure Mem where
  bytes : ℕ → Byte
  log : List ℕ

/-- A computation on memory. -/
abbrev MemM := StateM Mem

/-- Read one byte. -/
def load (i : ℕ) : MemM Byte := do
  let m ← get
  set { m with log := i :: m.log }
  return m.bytes i

/-- Write one byte. -/
def store (i : ℕ) (v : Byte) : MemM Unit :=
  modify fun m => { bytes := Function.update m.bytes i v, log := i :: m.log }

/-- `for (i = a; i < a + k; i++) s = body(i, s)`. -/
def forRange {σ : Type} (body : ℕ → σ → MemM σ) : ℕ → ℕ → σ → MemM σ
  | _, 0, s => pure s
  | a, k + 1, s => do
      let s' ← body a s
      forRange body (a + 1) k s'

/-- The little-endian word of the `n` bytes from index `i`. -/
def wordLE (b : ℕ → Byte) : (n : ℕ) → (i : ℕ) → BitVec (8 * n)
  | 0, _ => 0
  | n + 1, i => (wordLE b n (i + 1) ++ b i : BitVec (8 * n + 8))

/-- Read `n` bytes from index `i` as one little-endian word. -/
def loadLE : (n : ℕ) → (i : ℕ) → MemM (BitVec (8 * n))
  | 0, _ => pure 0
  | n + 1, i => do
      let b ← load i
      let rest ← loadLE n (i + 1)
      return (rest ++ b : BitVec (8 * n + 8))

/-- Write a little-endian word to the `n` bytes from index `i`. -/
def storeLE : (n : ℕ) → (i : ℕ) → BitVec (8 * n) → MemM Unit
  | 0, _, _ => pure ()
  | n + 1, i, v => do
      store i (v.setWidth 8)
      storeLE n (i + 1) ((v >>> 8).setWidth (8 * n))

/-! ## What one access does -/

@[simp] theorem run_bind {α β : Type} (x : MemM α) (f : α → MemM β) (m : Mem) :
    (x >>= f).run m = (f (x.run m).1).run (x.run m).2 := rfl

@[simp] theorem run_pure {α : Type} (a : α) (m : Mem) : (pure a : MemM α).run m = (a, m) := rfl

@[simp] theorem load_run (i : ℕ) (m : Mem) :
    (load i).run m = (m.bytes i, { m with log := i :: m.log }) := rfl

@[simp] theorem store_run (i : ℕ) (v : Byte) (m : Mem) :
    (store i v).run m
      = ((), { bytes := Function.update m.bytes i v, log := i :: m.log }) := rfl

@[simp] theorem forRange_zero {σ : Type} (body : ℕ → σ → MemM σ) (a : ℕ) (s : σ) :
    forRange body a 0 s = pure s := rfl

theorem forRange_succ_run {σ : Type} (body : ℕ → σ → MemM σ) (a k : ℕ) (s : σ) (m : Mem) :
    (forRange body a (k + 1) s).run m
      = (forRange body (a + 1) k ((body a s).run m).1).run ((body a s).run m).2 := rfl

/-! ## Words -/

/-- Bit `j` of a little-endian word is bit `j % 8` of byte `j / 8`. -/
theorem getLsbD_wordLE (b : ℕ → Byte) (n i j : ℕ) :
    (wordLE b n i).getLsbD j = (decide (j < 8 * n) && (b (i + j / 8)).getLsbD (j % 8)) := by
  induction n generalizing i j with
  | zero => simp [wordLE]
  | succ n ih =>
      rw [wordLE, BitVec.getLsbD_append]
      -- the low eight bits are the first byte, the others the word behind it
      by_cases hj : j < 8
      · have hd : j / 8 = 0 := by omega
        have hm : j % 8 = j := by omega
        have hlt : j < 8 * (n + 1) := by omega
        simp [hj, hd, hm, hlt]
      · have hd : i + 1 + (j - 8) / 8 = i + j / 8 := by omega
        have hm : (j - 8) % 8 = j % 8 := by omega
        have hiff : decide (j - 8 < 8 * n) = decide (j < 8 * (n + 1)) := by
          rw [decide_eq_decide]; omega
        rw [if_neg hj, ih, hd, hm, hiff]

/-- A word read from memory is the word of its bytes. -/
theorem loadLE_run (n i : ℕ) (m : Mem) :
    ((loadLE n i).run m).1 = wordLE m.bytes n i ∧
      ((loadLE n i).run m).2.bytes = m.bytes := by
  induction n generalizing i m with
  | zero => exact ⟨rfl, rfl⟩
  | succ n ih =>
      have h := ih (i + 1) { m with log := i :: m.log }
      constructor
      · exact congrArg (fun r : BitVec (8 * n) => (r ++ m.bytes i : BitVec (8 * n + 8))) h.1
      · exact h.2

@[simp] theorem loadLE_run_fst (n i : ℕ) (m : Mem) :
    ((loadLE n i).run m).1 = wordLE m.bytes n i := (loadLE_run n i m).1

@[simp] theorem loadLE_run_bytes (n i : ℕ) (m : Mem) :
    ((loadLE n i).run m).2.bytes = m.bytes := (loadLE_run n i m).2

/-- An empty range adds no index. -/
private theorem mem_log_empty {l : List ℕ} {i j : ℕ} :
    j ∈ l ↔ j ∈ l ∨ i ≤ j ∧ j < i + 0 := by
  constructor
  · intro h; left; exact h
  · rintro (h | h)
    · exact h
    · omega

/-- A first index and the range behind it are one range. -/
private theorem mem_log_cons {l : List ℕ} {i j n : ℕ} :
    j ∈ i :: l ∨ i + 1 ≤ j ∧ j < i + 1 + n ↔ j ∈ l ∨ i ≤ j ∧ j < i + (n + 1) := by
  rw [List.mem_cons]
  constructor
  · rintro ((rfl | hm) | hr)
    · right; omega
    · left; exact hm
    · right; omega
  · rintro (hm | hr)
    · left; right; exact hm
    · by_cases hj : j = i
      · left; left; exact hj
      · right; omega

theorem mem_log_loadLE (n i : ℕ) (m : Mem) (j : ℕ) :
    j ∈ ((loadLE n i).run m).2.log ↔ j ∈ m.log ∨ i ≤ j ∧ j < i + n := by
  induction n generalizing i m with
  | zero => exact mem_log_empty
  | succ n ih =>
      have h := ih (i + 1) { m with log := i :: m.log }
      have hstep : j ∈ ((loadLE (n + 1) i).run m).2.log
          ↔ j ∈ ((loadLE n (i + 1)).run { m with log := i :: m.log }).2.log := Iff.rfl
      rw [hstep, h, mem_log_cons]

/-- A stored word leaves its bytes in place and every other byte alone. -/
theorem storeLE_run_bytes (n i : ℕ) (v : BitVec (8 * n)) (m : Mem) (j : ℕ) :
    ((storeLE n i v).run m).2.bytes j
      = if i ≤ j ∧ j < i + n then v.extractLsb' (8 * (j - i)) 8 else m.bytes j := by
  induction n generalizing i m with
  | zero => rw [if_neg (by omega)]; rfl
  | succ n ih =>
      have h := ih (i + 1) ((v >>> 8).setWidth (8 * n))
        { bytes := Function.update m.bytes i (v.setWidth 8), log := i :: m.log }
      have hstep : ((storeLE (n + 1) i v).run m).2.bytes j
          = ((storeLE n (i + 1) ((v >>> 8).setWidth (8 * n))).run
              { bytes := Function.update m.bytes i (v.setWidth 8),
                log := i :: m.log }).2.bytes j := rfl
      rw [hstep, h]
      dsimp only
      -- the stores behind index `i` leave its byte alone
      by_cases hj : j = i
      · subst hj
        rw [if_neg (by omega), if_pos (by omega), Function.update_self]
        apply BitVec.eq_of_getLsbD_eq
        intro k hk
        simp [hk]
      · rw [Function.update_of_ne hj]
        by_cases hin : i ≤ j ∧ j < i + (n + 1)
        · rw [if_pos (by omega), if_pos hin]
          apply BitVec.eq_of_getLsbD_eq
          intro k hk
          have hsum : 8 + (8 * (j - (i + 1)) + k) = 8 * (j - i) + k := by omega
          have hlt : 8 * (j - (i + 1)) + k < 8 * n := by omega
          simp [hk, hlt, hsum]
        · rw [if_neg (by omega), if_neg hin]

theorem mem_log_storeLE (n i : ℕ) (v : BitVec (8 * n)) (m : Mem) (j : ℕ) :
    j ∈ ((storeLE n i v).run m).2.log ↔ j ∈ m.log ∨ i ≤ j ∧ j < i + n := by
  induction n generalizing i m with
  | zero => exact mem_log_empty
  | succ n ih =>
      have h := ih (i + 1) ((v >>> 8).setWidth (8 * n))
        { bytes := Function.update m.bytes i (v.setWidth 8), log := i :: m.log }
      have hstep : j ∈ ((storeLE (n + 1) i v).run m).2.log
          ↔ j ∈ ((storeLE n (i + 1) ((v >>> 8).setWidth (8 * n))).run
              { bytes := Function.update m.bytes i (v.setWidth 8),
                log := i :: m.log }).2.log := Iff.rfl
      rw [hstep, h, mem_log_cons]

/-- The word of bytes that are the bytes of a word. -/
theorem wordLE_eq_of_bytes (b : ℕ → Byte) (n i : ℕ) (v : BitVec (8 * n))
    (h : ∀ k, k < n → b (i + k) = v.extractLsb' (8 * k) 8) : wordLE b n i = v := by
  apply BitVec.eq_of_getLsbD_eq
  intro j hj
  rw [getLsbD_wordLE, h (j / 8) (by omega), BitVec.getLsbD_extractLsb']
  have hm : j % 8 < 8 := Nat.mod_lt _ (by norm_num)
  have hsum : 8 * (j / 8) + j % 8 = j := by omega
  simp [hj, hm, hsum]

/-- Byte `k` of a word is the byte it was read from. -/
theorem extractLsb'_wordLE (b : ℕ → Byte) (n i k : ℕ) (hk : k < n) :
    (wordLE b n i).extractLsb' (8 * k) 8 = b (i + k) := by
  apply BitVec.eq_of_getLsbD_eq
  intro j hj
  rw [BitVec.getLsbD_extractLsb', getLsbD_wordLE]
  have hd : (8 * k + j) / 8 = k := by omega
  have hm : (8 * k + j) % 8 = j := by omega
  have hlt : 8 * k + j < 8 * n := by omega
  simp [hj, hd, hm, hlt]

/-- Words of equal bytes are equal. -/
theorem wordLE_congr {b c : ℕ → Byte} (n i : ℕ) (h : ∀ k, k < n → b (i + k) = c (i + k)) :
    wordLE b n i = wordLE c n i := by
  apply wordLE_eq_of_bytes
  intro k hk
  rw [extractLsb'_wordLE _ _ _ _ hk, h k hk]

/-- Bytewise exclusive-or is the exclusive-or of the words. -/
theorem wordLE_xor (b c : ℕ → Byte) (n i : ℕ) :
    wordLE (fun j => b j ^^^ c j) n i = wordLE b n i ^^^ wordLE c n i := by
  apply BitVec.eq_of_getLsbD_eq
  intro j hj
  simp only [getLsbD_wordLE, BitVec.getLsbD_xor, hj, decide_true, Bool.true_and]

/-! ## Loops that visit each index once -/

/-- A loop whose body rewrites byte `i` from its own value (`h`) and folds that value
into its state (`g`): every byte of the range is rewritten once, every other byte is
left alone, and the final state is the fold over the bytes as they were. -/
theorem forRange_pointwise {σ : Type} (body : ℕ → σ → MemM σ) (g : ℕ → σ → Byte → σ)
    (h : ℕ → Byte → Byte)
    (hval : ∀ i s m, ((body i s).run m).1 = g i s (m.bytes i))
    (hbytes : ∀ i s m, ((body i s).run m).2.bytes
      = Function.update m.bytes i (h i (m.bytes i)))
    (a k : ℕ) (s : σ) (m : Mem) :
    ((forRange body a k s).run m).1
        = (List.range' a k).foldl (fun t i => g i t (m.bytes i)) s ∧
      ∀ j, ((forRange body a k s).run m).2.bytes j
        = if a ≤ j ∧ j < a + k then h j (m.bytes j) else m.bytes j := by
  induction k generalizing a s m with
  | zero =>
      refine ⟨rfl, fun j => ?_⟩
      rw [if_neg (by omega)]
      rfl
  | succ k ih =>
      obtain ⟨hv, hb⟩ := ih (a + 1) ((body a s).run m).1 ((body a s).run m).2
      -- the bytes still to be visited are the ones the first step did not touch
      have hlater : ∀ i, a + 1 ≤ i → ((body a s).run m).2.bytes i = m.bytes i := by
        intro i hi
        rw [hbytes, Function.update_of_ne (by omega)]
      rw [forRange_succ_run]
      constructor
      · rw [hv, List.range'_succ, List.foldl_cons, ← hval a s m]
        apply List.foldl_ext
        intro t i hi
        rw [hlater i (List.mem_range'_1.mp hi).1]
      · intro j
        rw [hb j]
        by_cases hj : j = a
        · subst hj
          rw [if_neg (by omega), if_pos (by omega), hbytes, Function.update_self]
        · by_cases hin : a + 1 ≤ j ∧ j < a + 1 + k
          · rw [if_pos hin, if_pos (by omega), hlater j hin.1]
          · rw [if_neg hin, if_neg (by omega), hbytes, Function.update_of_ne hj]

/-- A loop whose body uses its own index only logs exactly the range. -/
theorem mem_log_forRange {σ : Type} (body : ℕ → σ → MemM σ)
    (hlog : ∀ i s m j, j ∈ ((body i s).run m).2.log ↔ j ∈ i :: m.log)
    (a k : ℕ) (s : σ) (m : Mem) (j : ℕ) :
    j ∈ ((forRange body a k s).run m).2.log ↔ j ∈ m.log ∨ a ≤ j ∧ j < a + k := by
  induction k generalizing a s m with
  | zero => exact mem_log_empty
  | succ k ih => rw [forRange_succ_run, ih, hlog, mem_log_cons]

end OsIrose.ByteMem

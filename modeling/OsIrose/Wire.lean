/-
Wire formats that are read through a cursor.

A value is an object of fixed size, a string that ends at its first zero byte, or an
array of values. Writing one is a list of single writes (`atoms`), and its encoding is
their concatenation. Reading is a `Reader`: a tree of requests to the cursor, each of
which decides how the reading goes on.

The cursor runs over a buffer of which a prefix is known, and `hidden` bytes lie behind
it. `Reader.decode` reads what the known bytes decide and is `none` where a request
looks at a hidden byte. A request that does not fit the buffer at all looks at nothing:
an object is then zero, and a string ends with the buffer. With no byte hidden this is
what the cursor reads (`exists_decode_zero`); in general

* `decode_append`: what the known bytes decide stays when more is known;
* `TellsApart`: what they do not decide comes out in two ways for two hidden ends. It is
  proved for the two requests and carried through a reader by `TellsApart.bind`, field
  by field through a record by `Reads.bind`;
* `decode_extract`: reading a value undoes writing it, whatever follows.
-/
import OsIrose.ByteMem
import Mathlib.Data.List.GetD
import Mathlib.Data.Vector.Basic

set_option autoImplicit false

namespace OsIrose.Wire

open ByteMem

/-! ## Values and their encodings -/

/-- The types of values: objects of `size` bytes, strings, arrays. -/
inductive FieldType
  | scalar (size : ℕ) (pos : 0 < size)
  | string
  | array (count : ℕ) (elem : FieldType)

/-- The values of a type. A string is its characters without the zero at its end. -/
@[reducible] def FieldType.Value : FieldType → Type
  | .scalar size _ => BitVec (8 * size)
  | .string => List Byte
  | .array count elem => List.Vector elem.Value count

/-- The bytes of an object in memory, lowest first. -/
def objectBytes (n : ℕ) (v : BitVec (8 * n)) : List Byte :=
  (List.range n).map fun k => v.extractLsb' (8 * k) 8

/-- The object that the first `n` bytes are. -/
def word (n : ℕ) (bs : List Byte) : BitVec (8 * n) := wordLE (fun i => bs.getD i 0) n 0

/-- The single writes of a value. -/
def atoms : (t : FieldType) → t.Value → List (List Byte)
  | .scalar n _, v => [objectBytes n v]
  | .string, s => s.map (fun c => [c]) ++ [[0]]
  | .array _ elem, vs => vs.toList.flatMap (atoms elem)

/-- The encoding of a value. -/
def encode (t : FieldType) (v : t.Value) : List Byte := (atoms t v).flatten

/-- No string in the value contains a zero. -/
def NulFree : (t : FieldType) → t.Value → Prop
  | .scalar _ _, _ => True
  | .string, s => (0 : Byte) ∉ s
  | .array _ elem, vs => ∀ v ∈ vs.toList, NulFree elem v

/-- A value with its type. -/
structure Field where
  type : FieldType
  value : type.Value

namespace Field

variable (f : Field)

def atoms : List (List Byte) := Wire.atoms f.type f.value

def encode : List Byte := Wire.encode f.type f.value

def NulFree : Prop := Wire.NulFree f.type f.value

end Field

/-- The encodings of several values, one after the other. -/
def encodeAll (fs : List Field) : List Byte := fs.flatMap Field.encode

@[simp] theorem encodeAll_nil : encodeAll [] = [] := rfl

@[simp] theorem encodeAll_cons (f : Field) (fs : List Field) :
    encodeAll (f :: fs) = f.encode ++ encodeAll fs := rfl

@[simp] theorem encodeAll_append (fs gs : List Field) :
    encodeAll (fs ++ gs) = encodeAll fs ++ encodeAll gs := List.flatMap_append

@[simp] theorem length_objectBytes (n : ℕ) (v : BitVec (8 * n)) :
    (objectBytes n v).length = n := by
  rw [objectBytes, List.length_map, List.length_range]

theorem getD_objectBytes {n k : ℕ} (v : BitVec (8 * n)) (hk : k < n) :
    (objectBytes n v).getD k 0 = v.extractLsb' (8 * k) 8 := by
  have hlen : k < (objectBytes n v).length := by
    rw [length_objectBytes]
    exact hk
  rw [List.getD_eq_getElem _ _ hlen]
  simp only [objectBytes, List.getElem_map, List.getElem_range]

/-- An object is back when its bytes are read. -/
theorem word_objectBytes (n : ℕ) (v : BitVec (8 * n)) (rest : List Byte) :
    word n (objectBytes n v ++ rest) = v := by
  apply wordLE_eq_of_bytes
  intro k hk
  rw [Nat.zero_add, List.getD_append _ _ _ _ (by rw [length_objectBytes]; exact hk),
    getD_objectBytes v hk]

/-- Byte `k` of an object that was read is byte `k` of the buffer. -/
theorem extractLsb'_word {n k : ℕ} (bs : List Byte) (hk : k < n) :
    (word n bs).extractLsb' (8 * k) 8 = bs.getD k 0 := by
  rw [word, extractLsb'_wordLE _ _ _ _ hk, Nat.zero_add]

/-- Only the first `n` bytes matter to an object of `n` bytes. -/
theorem word_append {n : ℕ} (bs cs : List Byte) (hn : n ≤ bs.length) :
    word n (bs ++ cs) = word n bs := by
  apply wordLE_congr
  intro k hk
  rw [Nat.zero_add, List.getD_append _ _ _ _ (by omega)]

@[simp] theorem encode_scalar (n : ℕ) (pos : 0 < n) (v : BitVec (8 * n)) :
    encode (.scalar n pos) v = objectBytes n v := by
  rw [encode, atoms, List.flatten_singleton]

@[simp] theorem encode_string (s : List Byte) : encode .string s = s ++ [0] := by
  rw [encode, atoms, List.flatten_append, List.flatten_singleton]
  congr 1
  induction s with
  | nil => rfl
  | cons c s ih => rw [List.map_cons, List.flatten_cons, ih, List.singleton_append]

@[simp] theorem encode_array (count : ℕ) (elem : FieldType)
    (vs : List.Vector elem.Value count) :
    encode (.array count elem) vs = vs.toList.flatMap (encode elem) := by
  rw [encode, atoms, List.flatMap_def, List.flatten_flatten, List.map_map, List.flatMap_def]
  rfl

/-- A single write has at least one byte. -/
theorem length_pos_of_mem_atoms {t : FieldType} {v : t.Value} {a : List Byte}
    (ha : a ∈ atoms t v) : 0 < a.length := by
  induction t with
  | scalar n pos =>
      rw [atoms, List.mem_singleton] at ha
      rw [ha, length_objectBytes]
      exact pos
  | string =>
      rw [atoms, List.mem_append, List.mem_map, List.mem_singleton] at ha
      rcases ha with ⟨c, -, rfl⟩ | rfl
      · exact Nat.one_pos
      · exact Nat.one_pos
  | array count elem ih =>
      rw [atoms, List.mem_flatMap] at ha
      obtain ⟨w, -, hw⟩ := ha
      exact ih hw

/-! ## Readers -/

/-- A tree of requests to the cursor. -/
inductive Reader (α : Type) : Type
  | done (a : α)
  | scalar (size : ℕ) (pos : 0 < size) (next : BitVec (8 * size) → Reader α)
  | string (next : List Byte → Reader α)

namespace Reader

variable {α β : Type}

/-- One reader after the other. -/
def bind (P : Reader α) (f : α → Reader β) : Reader β :=
  match P with
  | .done a => f a
  | .scalar size pos next => .scalar size pos fun v => (next v).bind f
  | .string next => .string fun s => (next s).bind f

instance : Monad Reader where
  pure := .done
  bind := bind

theorem bind_eq (P : Reader α) (f : α → Reader β) : P >>= f = P.bind f := rfl

/-- The same reader `n` times. -/
def many (P : Reader α) : (n : ℕ) → Reader (List.Vector α n)
  | 0 => return .nil
  | n + 1 => do
      let x ← P
      let xs ← many P n
      return x ::ᵥ xs

/-- An object of `n` bytes. -/
def decodeScalar (hidden n : ℕ) (known : List Byte) : Option (BitVec (8 * n) × List Byte) :=
  if n ≤ known.length then some (word n known, known.drop n)
  -- the object reaches into the hidden bytes
  else if n ≤ known.length + hidden then none
  else some (0, known)

/-- The bytes up to the first zero, or up to the end of the buffer. -/
def decodeString (hidden : ℕ) : List Byte → Option (List Byte × List Byte)
  | [] => if hidden = 0 then some ([], []) else none
  | b :: bs =>
      if b = 0 then some ([], bs)
      else (decodeString hidden bs).map fun r => (b :: r.1, r.2)

/-- What the known bytes decide of a reader's result, and what they leave. -/
def decode (hidden : ℕ) : Reader α → List Byte → Option (α × List Byte)
  | .done a, known => some (a, known)
  | .scalar n _ next, known =>
      (decodeScalar hidden n known).bind fun r => (next r.1).decode hidden r.2
  | .string next, known =>
      (decodeString hidden known).bind fun r => (next r.1).decode hidden r.2

variable {hidden : ℕ} {known : List Byte}

@[simp] theorem decode_pure (a : α) : (pure a : Reader α).decode hidden known
    = some (a, known) := rfl

theorem decode_bind (P : Reader α) (f : α → Reader β) :
    (P >>= f).decode hidden known
      = (P.decode hidden known).bind fun r => (f r.1).decode hidden r.2 := by
  rw [bind_eq]
  induction P generalizing known with
  | done a => rfl
  | scalar n pos next ih =>
      rw [bind, decode, decode, Option.bind_assoc]
      congr 1
      funext r
      exact ih r.1
  | string next ih =>
      rw [bind, decode, decode, Option.bind_assoc]
      congr 1
      funext r
      exact ih r.1

@[simp] theorem decode_scalar {n : ℕ} (pos : 0 < n) :
    (scalar n pos fun v => pure v).decode hidden known = decodeScalar hidden n known :=
  Option.bind_fun_some _

@[simp] theorem decode_string :
    (string fun s => pure s).decode hidden known = decodeString hidden known :=
  Option.bind_fun_some _

/-- A reader whose first part is decided goes on with the second. -/
theorem decode_bind_of_eq {P : Reader α} {f : α → Reader β} {a : α} {rest : List Byte}
    (h : P.decode hidden known = some (a, rest)) :
    (P >>= f).decode hidden known = (f a).decode hidden rest := by
  rw [decode_bind, h]
  rfl

/-! ## What is decided stays -/

theorem decodeScalar_append {e : List Byte} {n : ℕ} {v : BitVec (8 * n)} {rest : List Byte}
    (h : decodeScalar (e.length + hidden) n known = some (v, rest)) :
    decodeScalar hidden n (known ++ e) = some (v, rest ++ e) := by
  unfold decodeScalar at h ⊢
  rw [List.length_append]
  by_cases hfit : n ≤ known.length
  · rw [if_pos hfit, Option.some.injEq, Prod.mk.injEq] at h
    rw [if_pos (by omega), word_append known e hfit, List.drop_append_of_le_length hfit,
      h.1, h.2]
  · rw [if_neg hfit] at h
    by_cases hreach : n ≤ known.length + (e.length + hidden)
    · rw [if_pos hreach] at h
      exact absurd h (by simp)
    · rw [if_neg hreach, Option.some.injEq, Prod.mk.injEq] at h
      rw [if_neg (by omega), if_neg (by omega), h.1, h.2]

theorem decodeString_append {e s rest : List Byte}
    (h : decodeString (e.length + hidden) known = some (s, rest)) :
    decodeString hidden (known ++ e) = some (s, rest ++ e) := by
  induction known generalizing s with
  | nil =>
      rw [decodeString] at h
      -- a string that ends with the buffer: nothing was hidden
      by_cases hnone : e.length + hidden = 0
      · rw [if_pos hnone, Option.some.injEq, Prod.mk.injEq] at h
        have he : e = [] := List.length_eq_zero_iff.mp (by omega)
        have hh : hidden = 0 := by omega
        rw [he, hh, ← h.1, ← h.2]
        rfl
      · rw [if_neg hnone] at h
        exact absurd h (by simp)
  | cons b bs ih =>
      rw [List.cons_append]
      rw [decodeString] at h ⊢
      by_cases hb : b = 0
      · rw [if_pos hb, Option.some.injEq, Prod.mk.injEq] at h
        rw [if_pos hb, ← h.1, ← h.2]
      · rw [if_neg hb, Option.map_eq_some_iff] at h
        obtain ⟨r, hr, hrs⟩ := h
        rw [Prod.mk.injEq] at hrs
        rw [if_neg hb, ih (s := r.1) (by rw [hr, ← hrs.2]), ← hrs.1]
        rfl

/-- **What the known bytes decide stays when more is known.** -/
theorem decode_append {P : Reader α} {e : List Byte} {a : α} {rest : List Byte}
    (h : P.decode (e.length + hidden) known = some (a, rest)) :
    P.decode hidden (known ++ e) = some (a, rest ++ e) := by
  induction P generalizing known with
  | done b =>
      rw [decode, Option.some.injEq, Prod.mk.injEq] at h
      rw [decode, h.1, h.2]
  | scalar n pos next ih =>
      rw [decode, Option.bind_eq_some_iff] at h
      obtain ⟨r, hr, hnext⟩ := h
      rw [decode, decodeScalar_append hr]
      exact ih r.1 hnext
  | string next ih =>
      rw [decode, Option.bind_eq_some_iff] at h
      obtain ⟨r, hr, hnext⟩ := h
      rw [decode, decodeString_append hr]
      exact ih r.1 hnext

theorem length_decodeScalar_le {n : ℕ} {r : BitVec (8 * n) × List Byte}
    (h : decodeScalar hidden n known = some r) : r.2.length ≤ known.length := by
  unfold decodeScalar at h
  by_cases hfit : n ≤ known.length
  · rw [if_pos hfit, Option.some.injEq] at h
    rw [← h, List.length_drop]
    omega
  · rw [if_neg hfit] at h
    by_cases hreach : n ≤ known.length + hidden
    · rw [if_pos hreach] at h
      exact absurd h (by simp)
    · rw [if_neg hreach, Option.some.injEq] at h
      rw [← h]

theorem length_decodeString_le {r : List Byte × List Byte}
    (h : decodeString hidden known = some r) : r.2.length ≤ known.length := by
  induction known generalizing r with
  | nil =>
      rw [decodeString] at h
      by_cases hnone : hidden = 0
      · rw [if_pos hnone, Option.some.injEq] at h
        rw [← h]
      · rw [if_neg hnone] at h
        exact absurd h (by simp)
  | cons b bs ih =>
      rw [decodeString] at h
      rw [List.length_cons]
      by_cases hb : b = 0
      · rw [if_pos hb, Option.some.injEq] at h
        rw [← h]
        exact Nat.le_succ _
      · rw [if_neg hb, Option.map_eq_some_iff] at h
        obtain ⟨q, hq, hqr⟩ := h
        rw [← hqr]
        exact (ih hq).trans (Nat.le_succ _)

/-- Reading leaves no more than was known. -/
theorem length_decode_le {P : Reader α} {a : α} {rest : List Byte}
    (h : P.decode hidden known = some (a, rest)) : rest.length ≤ known.length := by
  induction P generalizing known with
  | done b =>
      rw [decode, Option.some.injEq, Prod.mk.injEq] at h
      rw [h.2]
  | scalar n pos next ih =>
      rw [decode, Option.bind_eq_some_iff] at h
      obtain ⟨r, hr, hnext⟩ := h
      exact (ih r.1 hnext).trans (length_decodeScalar_le hr)
  | string next ih =>
      rw [decode, Option.bind_eq_some_iff] at h
      obtain ⟨r, hr, hnext⟩ := h
      exact (ih r.1 hnext).trans (length_decodeString_le hr)

theorem exists_decodeScalar_zero (n : ℕ) (known : List Byte) :
    ∃ r, decodeScalar 0 n known = some r := by
  unfold decodeScalar
  by_cases hfit : n ≤ known.length
  · rw [if_pos hfit]
    exact ⟨_, rfl⟩
  · rw [if_neg hfit, if_neg (by omega)]
    exact ⟨_, rfl⟩

theorem exists_decodeString_zero (known : List Byte) :
    ∃ r, decodeString 0 known = some r := by
  induction known with
  | nil => exact ⟨([], []), rfl⟩
  | cons b bs ih =>
      obtain ⟨r, hr⟩ := ih
      rw [decodeString, hr]
      by_cases hb : b = 0
      · rw [if_pos hb]
        exact ⟨_, rfl⟩
      · rw [if_neg hb]
        exact ⟨_, rfl⟩

/-- Where nothing is hidden everything is decided. -/
theorem exists_decode_zero (P : Reader α) (known : List Byte) :
    ∃ r, P.decode 0 known = some r := by
  induction P generalizing known with
  | done a => exact ⟨_, rfl⟩
  | scalar n pos next ih =>
      obtain ⟨r, hr⟩ := exists_decodeScalar_zero n known
      rw [decode, hr]
      exact ih r.1 r.2
  | string next ih =>
      obtain ⟨r, hr⟩ := exists_decodeString_zero known
      rw [decode, hr]
      exact ih r.1 r.2

/-! ## What is not decided shows -/

/-- A result the reader can have. -/
def Gives (P : Reader α) (a : α) : Prop :=
  ∃ known rest, P.decode 0 known = some (a, rest)

/-- Where the known bytes do not decide the result, two hidden ends give results that
are `R` apart. -/
def TellsApart (R : α → α → Prop) (P : Reader α) : Prop :=
  ∀ hidden known, P.decode hidden known = none →
    ∃ e e' : List Byte, e.length = hidden ∧ e'.length = hidden ∧
      ∃ r r', P.decode 0 (known ++ e) = some r ∧ P.decode 0 (known ++ e') = some r' ∧
        R r.1 r'.1

@[simp] theorem gives_pure {a b : α} : (pure a : Reader α).Gives b ↔ b = a := by
  constructor
  · rintro ⟨known, rest, h⟩
    rw [decode_pure, Option.some.injEq, Prod.mk.injEq] at h
    exact h.1.symm
  · rintro rfl
    exact ⟨[], [], rfl⟩

/-- A result of two readers in a row is one of the second. -/
theorem Gives.of_bind {P : Reader α} {f : α → Reader β} {b : β} (h : (P >>= f).Gives b) :
    ∃ a, (f a).Gives b := by
  obtain ⟨known, rest, hdec⟩ := h
  rw [decode_bind, Option.bind_eq_some_iff] at hdec
  obtain ⟨r, -, hr⟩ := hdec
  exact ⟨r.1, r.2, rest, hr⟩

theorem tellsApart_pure (R : α → α → Prop) (a : α) : TellsApart R (pure a) := by
  intro hidden known h
  exact absurd h (by simp)

/-- **A reader tells apart what its parts do**, when the second part carries on what the
first has told apart. -/
theorem TellsApart.bind {R : α → α → Prop} {S : β → β → Prop} {P : Reader α}
    {f : α → Reader β} (hP : TellsApart R P) (hf : ∀ a, TellsApart S (f a))
    (hRS : ∀ a a' b b', R a a' → (f a).Gives b → (f a').Gives b' → S b b') :
    TellsApart S (P >>= f) := by
  intro hidden known h
  rw [decode_bind, Option.bind_eq_none_iff] at h
  cases hdec : P.decode hidden known with
  | none =>
      obtain ⟨e, e', he, he', r, r', hr, hr', hR⟩ := hP hidden known hdec
      obtain ⟨q, hq⟩ := exists_decode_zero (f r.1) r.2
      obtain ⟨q', hq'⟩ := exists_decode_zero (f r'.1) r'.2
      refine ⟨e, e', he, he', q, q', ?_, ?_, ?_⟩
      · rw [decode_bind_of_eq hr, hq]
      · rw [decode_bind_of_eq hr', hq']
      · exact hRS r.1 r'.1 q.1 q'.1 hR ⟨r.2, q.2, hq⟩ ⟨r'.2, q'.2, hq'⟩
  | some r =>
      obtain ⟨e, e', he, he', q, q', hq, hq', hS⟩ := hf r.1 hidden r.2 (h r hdec)
      have happend : ∀ e : List Byte, e.length = hidden →
          P.decode 0 (known ++ e) = some (r.1, r.2 ++ e) := by
        intro e he
        apply decode_append
        rw [Nat.add_zero, he]
        exact hdec
      refine ⟨e, e', he, he', q, q', ?_, ?_, hS⟩
      · rw [decode_bind_of_eq (happend e he), hq]
      · rw [decode_bind_of_eq (happend e' he'), hq']

/-- A reader that tells apart whatever differs, with what all its results satisfy. -/
structure Reads (P : Reader α) (Q : α → Prop) : Prop where
  apart : TellsApart (· ≠ ·) P
  gives : ∀ a, P.Gives a → Q a

theorem Reads.pure {Q : α → Prop} {a : α} (h : Q a) : Reads (pure a) Q where
  apart := tellsApart_pure _ a
  gives b hb := by
    rw [gives_pure.mp hb]
    exact h

/-- A record is read field by field. It holds what the first part has read as `φ` of it,
in the field `g`. -/
theorem Reads.bindOf {γ : Type} {P : Reader α} {f : α → Reader β} {Q : β → Prop} {φ : α → γ}
    (hφ : Function.Injective φ) (g : β → γ) (hP : TellsApart (· ≠ ·) P)
    (hf : ∀ a, Reads (f a) fun b => g b = φ a ∧ Q b) : Reads (P >>= f) Q where
  apart := by
    apply hP.bind
    · intro a
      exact (hf a).apart
    · intro a a' b b' hne hb hb' heq
      apply hne
      apply hφ
      rw [← ((hf a).gives b hb).1, heq, ((hf a').gives b' hb').1]
  gives b hb := by
    obtain ⟨a, ha⟩ := hb.of_bind
    exact ((hf a).gives b ha).2

/-- `Reads.bindOf` for a field that holds what was read. -/
theorem Reads.bind {P : Reader α} {f : α → Reader β} {Q : β → Prop} (g : β → α)
    (hP : TellsApart (· ≠ ·) P) (hf : ∀ a, Reads (f a) fun b => g b = a ∧ Q b) :
    Reads (P >>= f) Q := Reads.bindOf Function.injective_id g hP hf

/-- An object that reaches into the hidden bytes has a hidden last byte. -/
theorem decodeScalar_undecided {n : ℕ} (h : decodeScalar hidden n known = none) (c : Byte) :
    ∃ rest, decodeScalar 0 n (known ++ List.replicate hidden c)
        = some (word n (known ++ List.replicate hidden c), rest) ∧
      (known ++ List.replicate hidden c).getD (n - 1) 0 = c := by
  unfold decodeScalar at h ⊢
  by_cases hfit : n ≤ known.length
  · rw [if_pos hfit] at h
    exact absurd h (by simp)
  · rw [if_neg hfit] at h
    by_cases hreach : n ≤ known.length + hidden
    · have hlen : (known ++ List.replicate hidden c).length = known.length + hidden := by
        rw [List.length_append, List.length_replicate]
      refine ⟨_, if_pos (by omega), ?_⟩
      rw [List.getD_append_right _ _ _ _ (by omega), List.getD_replicate _ (by omega)]
    · rw [if_neg hreach] at h
      exact absurd h (by simp)

/-- Objects whose last bytes differ are different. -/
theorem word_ne {n : ℕ} {bs cs : List Byte} (pos : 0 < n)
    (h : bs.getD (n - 1) 0 ≠ cs.getD (n - 1) 0) : word n bs ≠ word n cs := by
  intro heq
  apply h
  have hk : n - 1 < n := by omega
  rw [← extractLsb'_word bs hk, ← extractLsb'_word cs hk, heq]

theorem tellsApart_scalar (n : ℕ) (pos : 0 < n) :
    TellsApart (· ≠ ·) (.scalar n pos fun v => pure v) := by
  intro hidden known h
  rw [decode_scalar] at h
  obtain ⟨rest, hzero, hlast⟩ := decodeScalar_undecided h 0
  obtain ⟨rest', hone, hlast'⟩ := decodeScalar_undecided h 1
  refine ⟨List.replicate hidden 0, List.replicate hidden 1, List.length_replicate,
    List.length_replicate, (word n (known ++ List.replicate hidden 0), rest),
    (word n (known ++ List.replicate hidden 1), rest'), ?_, ?_, ?_⟩
  · rw [decode_scalar, hzero]
  · rw [decode_scalar, hone]
  · apply word_ne pos
    rw [hlast, hlast']
    decide

/-- A string that is not ended by the known bytes takes all of them. -/
theorem decodeString_undecided (h : decodeString hidden known = none) :
    0 < hidden ∧ ∀ e s rest, decodeString 0 e = some (s, rest) →
      decodeString 0 (known ++ e) = some (known ++ s, rest) := by
  induction known with
  | nil =>
      rw [decodeString] at h
      refine ⟨?_, fun e s rest he => he⟩
      by_contra hpos
      rw [if_pos (by omega)] at h
      exact absurd h (by simp)
  | cons b bs ih =>
      rw [decodeString] at h
      by_cases hb : b = 0
      · rw [if_pos hb] at h
        exact absurd h (by simp)
      · rw [if_neg hb, Option.map_eq_none_iff] at h
        obtain ⟨hpos, hall⟩ := ih h
        refine ⟨hpos, ?_⟩
        intro e s rest he
        rw [List.cons_append, decodeString, if_neg hb, hall e s rest he]
        rfl

theorem tellsApart_string : TellsApart (· ≠ ·) (.string fun s => pure s) := by
  intro hidden known h
  rw [decode_string] at h
  obtain ⟨hpos, hall⟩ := decodeString_undecided h
  obtain ⟨n, rfl⟩ : ∃ n, hidden = n + 1 := ⟨hidden - 1, by omega⟩
  -- a zero ends the string at once, anything else makes it longer
  obtain ⟨r, hr⟩ := exists_decodeString_zero (List.replicate n 1)
  refine ⟨0 :: List.replicate n 0, 1 :: List.replicate n 1, by simp, by simp,
    (known ++ [], List.replicate n 0), (known ++ 1 :: r.1, r.2), ?_, ?_, ?_⟩
  · rw [decode_string, hall _ [] (List.replicate n 0) rfl]
  · rw [decode_string, hall _ (1 :: r.1) r.2 (by rw [decodeString, if_neg (by decide), hr]; rfl)]
  · intro heq
    have hlen := congrArg List.length heq
    simp at hlen

theorem tellsApart_many {P : Reader α} (hP : TellsApart (· ≠ ·) P) (n : ℕ) :
    TellsApart (· ≠ ·) (many P n) := by
  induction n with
  | zero => exact tellsApart_pure _ _
  | succ n ih =>
      refine (Reads.bind (Q := fun _ => True) List.Vector.head hP fun x => ?_).apart
      refine Reads.bind List.Vector.tail ih fun xs => ?_
      exact Reads.pure ⟨List.Vector.tail_cons x xs, List.Vector.head_cons x xs, trivial⟩

end Reader

/-! ## Reading values -/

open Reader

/-- Read a value of a type. -/
def extract : (t : FieldType) → Reader t.Value
  | .scalar size pos => .scalar size pos fun v => pure v
  | .string => .string fun s => pure s
  | .array count elem => many (extract elem) count

/-- Read a value of each type in turn. -/
def extractAll : List FieldType → Reader (List Field)
  | [] => return []
  | t :: ts => do
      let v ← extract t
      let fs ← extractAll ts
      return ⟨t, v⟩ :: fs

variable {hidden : ℕ}

theorem decodeString_append_zero {s : List Byte} (hs : (0 : Byte) ∉ s) (rest : List Byte) :
    decodeString hidden (s ++ 0 :: rest) = some (s, rest) := by
  induction s with
  | nil =>
      rw [List.nil_append, decodeString, if_pos rfl]
  | cons c s ih =>
      rw [List.mem_cons, not_or] at hs
      rw [List.cons_append, decodeString, if_neg (fun h => hs.1 h.symm), ih hs.2]
      rfl

/-- Reading an array undoes writing its elements. -/
theorem decode_many {α : Type} {P : Reader α} {write : α → List Byte} {n : ℕ}
    (xs : List.Vector α n) (rest : List Byte)
    (h : ∀ x ∈ xs.toList, ∀ rest, P.decode hidden (write x ++ rest) = some (x, rest)) :
    (many P n).decode hidden (xs.toList.flatMap write ++ rest) = some (xs, rest) := by
  induction n with
  | zero =>
      rw [xs.eq_nil]
      rfl
  | succ n ih =>
      obtain ⟨x, xs, rfl⟩ := xs.exists_eq_cons
      rw [List.Vector.toList_cons] at h ⊢
      rw [List.flatMap_cons, List.append_assoc, many,
        decode_bind_of_eq (h x List.mem_cons_self _),
        decode_bind_of_eq (ih xs fun y hy => h y (List.mem_cons_of_mem x hy))]
      rfl

/-- **Reading a value undoes writing it**, whatever follows. -/
theorem decode_extract {t : FieldType} {v : t.Value} (hv : NulFree t v) (rest : List Byte) :
    (extract t).decode hidden (encode t v ++ rest) = some (v, rest) := by
  induction t generalizing rest with
  | scalar n pos =>
      have hlen : n ≤ (objectBytes n v ++ rest).length := by
        rw [List.length_append, length_objectBytes]
        omega
      rw [extract, encode_scalar, decode_scalar, decodeScalar, if_pos hlen, word_objectBytes,
        List.drop_left' (length_objectBytes n v)]
  | string =>
      rw [extract, encode_string, decode_string, List.append_assoc, List.singleton_append,
        decodeString_append_zero hv rest]
  | array count elem ih =>
      rw [extract, encode_array]
      apply decode_many
      intro x hx rest
      exact ih (hv x hx) rest

theorem decode_extractAll {fs : List Field} (hfs : ∀ f ∈ fs, f.NulFree) (rest : List Byte) :
    (extractAll (fs.map Field.type)).decode hidden (encodeAll fs ++ rest)
      = some (fs, rest) := by
  induction fs with
  | nil => rfl
  | cons f fs ih =>
      rw [List.map_cons, extractAll, encodeAll_cons, List.append_assoc, Field.encode,
        decode_bind_of_eq (decode_extract (hfs f List.mem_cons_self) _),
        decode_bind_of_eq (ih fun g hg => hfs g (List.mem_cons_of_mem f hg))]
      rfl

theorem tellsApart_extract (t : FieldType) : TellsApart (· ≠ ·) (extract t) := by
  induction t with
  | scalar n pos => exact tellsApart_scalar n pos
  | string => exact tellsApart_string
  | array count elem ih => exact tellsApart_many ih count

theorem tellsApart_extractAll (ts : List FieldType) : TellsApart (· ≠ ·) (extractAll ts) := by
  induction ts with
  | nil => exact tellsApart_pure _ _
  | cons t ts ih =>
      have hcons : ∀ v : t.Value, Reads (do
          let fs ← extractAll ts
          return ⟨t, v⟩ :: fs) fun gs => ∃ fs, gs = ⟨t, v⟩ :: fs := by
        intro v
        refine Reads.bind List.tail ih fun fs => ?_
        exact Reads.pure ⟨rfl, fs, rfl⟩
      apply (tellsApart_extract t).bind
      · intro v
        exact (hcons v).apart
      · intro v v' b b' hne hb hb' heq
        obtain ⟨fs, hfs⟩ := (hcons v).gives b hb
        obtain ⟨fs', hfs'⟩ := (hcons v').gives b' hb'
        apply hne
        rw [hfs, hfs', List.cons.injEq, Field.mk.injEq] at heq
        exact eq_of_heq heq.1.2

end OsIrose.Wire

/-
The fuzzy match of names: `core/include/fts.h` and `core/src/fuzzy_matching.cpp`.

`fuzzy_match_recursive` takes every match it comes to, and before each it calls itself past
it. A call is entered in vain once there were `recursionLimit - 1` of them, so what is returned
is the first of the best finds of the first nine calls (`fuzzyMatch_spec`). Whether anything is
found does not depend on the limit, because the first call finds something if there is
something to find (`fuzzyMatch_isSome_iff`).

`matches` is a buffer in memory: each call has its own, and takes over what its caller has in
its own at the first match only. What is in a buffer at first is any value, `junk`.
-/
import Mathlib
import OsIrose.ByteMem
import OsIrose.Embedding
import OsIrose.ScriptFiles

set_option autoImplicit false

namespace OsIrose.Fts

open ByteMem (Byte)
open OsIrose.Embedding

/-! ## Characters -/

def isupper (c : Byte) : Bool := 65 ≤ c.toNat && c.toNat ≤ 90

def islower (c : Byte) : Bool := 97 ≤ c.toNat && c.toNat ≤ 122

def tolower (c : Byte) : Byte := if isupper c then c + 32 else c

/-- The comparison of both functions. -/
def same (p c : Byte) : Bool := tolower p = tolower c

/-! ## `fuzzy_match_simple` -/

def fuzzyMatchSimple : (str pattern : List Byte) → Bool
  | _, [] => true
  | [], _ :: _ => false
  | c :: cs, p :: ps =>
      if tolower p = tolower c then fuzzyMatchSimple cs ps else fuzzyMatchSimple cs (p :: ps)

/-! ## The score -/

abbrev Buffer := ℕ → Byte

/-- The bonuses of the `i`-th match. -/
def bonus (strBegin : List Byte) (newMatches : Buffer) (i : ℕ) : ℤ :=
  let currIdx := (newMatches i).toNat
  let sequential : ℤ :=
    if 0 < i ∧ currIdx = (newMatches (i - 1)).toNat + 1 then 15 else 0
  let neighbor := strBegin.getD (currIdx - 1) 0
  let curr := strBegin.getD currIdx 0
  sequential +
    if 0 < currIdx then
      (if islower neighbor && isupper curr then 30 else 0) +
        (if neighbor = 95 || neighbor = 32 then 30 else 0)
    else 15

/-- `outScore` of the first `nextMatch` positions in the buffer. -/
def outScore (strBegin : List Byte) (newMatches : Buffer) (nextMatch : ℕ) : ℤ :=
  let penalty : ℤ := max (-5 * (newMatches 0).toNat) (-15)
  let unmatched : ℤ := strBegin.length - nextMatch
  (List.range nextMatch).foldl (fun score i => score + bonus strBegin newMatches i)
    (100 + penalty + -1 * unmatched)

/-! ## `fuzzy_match_recursive` -/

def memcpy (dst src : Buffer) (n : ℕ) : Buffer := fun j => if j < n then src j else dst j

/-- The variables of a call. -/
structure Locals where
  newMatches : Buffer
  nextMatch : ℕ
  firstMatch : Bool := true
  recursiveMatch : Bool := false
  bestRecursiveMatches : Buffer
  bestRecursiveScore : ℤ := 0

/-- What a call that returns `true` leaves in `outScore` and in the buffer. -/
structure Found where
  outScore : ℤ
  newMatches : Buffer

/-- "Copy-on-Write" of the caller's matches. -/
def Locals.copyOnWrite (srcMatches : Option Buffer) (l : Locals) : Locals :=
  match srcMatches with
  | some srcMatches =>
      if l.firstMatch then
        { l with newMatches := memcpy l.newMatches srcMatches l.nextMatch, firstMatch := false }
      else l
  | none => l

/-- What a recursive call has found. -/
def Locals.pickBest (l : Locals) : Option Found → Locals
  | some r =>
      { l with
        bestRecursiveMatches :=
          if !l.recursiveMatch || l.bestRecursiveScore < r.outScore then
            memcpy l.bestRecursiveMatches r.newMatches 256
          else l.bestRecursiveMatches
        bestRecursiveScore :=
          if !l.recursiveMatch || l.bestRecursiveScore < r.outScore then r.outScore
          else l.bestRecursiveScore
        recursiveMatch := true }
  | none => l

def Locals.advance (l : Locals) (pos : ℕ) : Locals :=
  { l with
    newMatches := Function.update l.newMatches l.nextMatch (BitVec.ofNat 8 pos)
    nextMatch := l.nextMatch + 1 }

section Code

variable (strBegin : List Byte) (recursionLimit : ℕ) (junk : Buffer)

/-- The end of a call: "Return best result". -/
def bestResult (maxMatches : ℕ) (matched : Bool) (l : Locals) : Option Found :=
  let score := outScore strBegin l.newMatches l.nextMatch
  if l.recursiveMatch && (!matched || score < l.bestRecursiveScore) then
    some ⟨l.bestRecursiveScore, memcpy l.newMatches l.bestRecursiveMatches maxMatches⟩
  else if matched then some ⟨score, l.newMatches⟩
  else none

/-- A call with its loop over `str`. -/
def recursiveCall
    (loop : List Byte → Option Buffer → ℕ → Locals → ℕ → Option (List Byte × Locals) × ℕ)
    (pattern str : List Byte) (srcMatches : Option Buffer) (newMatches : Buffer)
    (maxMatches nextMatch recursionCount : ℕ) : Option Found × ℕ :=
  if recursionLimit ≤ recursionCount + 1 then (none, recursionCount + 1)
  else if pattern.isEmpty || str.isEmpty then (none, recursionCount + 1)
  else
    let l : Locals := { newMatches, nextMatch, bestRecursiveMatches := junk }
    let (r, recursionCount) := loop pattern srcMatches maxMatches l (recursionCount + 1)
    (r.bind fun (pattern, l) => bestResult strBegin maxMatches pattern.isEmpty l, recursionCount)

/-- The loop from `str` on: the pattern that is left and the variables, or `none` after its
`return false`. -/
def matchLoop : (str pattern : List Byte) → (srcMatches : Option Buffer) → (maxMatches : ℕ) →
    Locals → (recursionCount : ℕ) → Option (List Byte × Locals) × ℕ
  | _, [], _, _, l, recursionCount => (some ([], l), recursionCount)
  | [], p :: ps, _, _, l, recursionCount => (some (p :: ps, l), recursionCount)
  | c :: cs, p :: ps, srcMatches, maxMatches, l, recursionCount =>
      if tolower p = tolower c then
        -- there is no room in the buffer
        if maxMatches ≤ l.nextMatch then (none, recursionCount)
        else
          let l := l.copyOnWrite srcMatches
          -- the recursive call, which skips this match
          let (r, recursionCount) :=
            recursiveCall strBegin recursionLimit junk (matchLoop cs) (p :: ps) cs
              (some l.newMatches) junk 256 l.nextMatch recursionCount
          let l := (l.pickBest r).advance (strBegin.length - (c :: cs).length)
          matchLoop cs ps srcMatches maxMatches l recursionCount
      else matchLoop cs (p :: ps) srcMatches maxMatches l recursionCount

def fuzzyMatchRecursive (pattern str : List Byte) (srcMatches : Option Buffer)
    (newMatches : Buffer) (maxMatches nextMatch recursionCount : ℕ) : Option Found × ℕ :=
  recursiveCall strBegin recursionLimit junk (matchLoop strBegin recursionLimit junk str) pattern
    str srcMatches newMatches maxMatches nextMatch recursionCount

end Code

/-- `fuzzy_match` -/
def fuzzyMatch (junk : Buffer) (pattern str : List Byte) : Option Found :=
  (fuzzyMatchRecursive str 10 junk pattern str none junk 256 0 0).1

/-! ## Buffers and lists of positions -/

def bufferOf (is : List ℕ) : Buffer := fun j => BitVec.ofNat 8 (is.getD j 0)

/-- The buffer starts with the positions. -/
def Holds (m : Buffer) (is : List ℕ) : Prop := ∀ j < is.length, m j = bufferOf is j

/-- The score of positions as a buffer holds them. -/
def scoreOf (str : List Byte) (is : List ℕ) : ℤ := outScore str (bufferOf is) is.length

section Buffers

variable {m src : Buffer} {is : List ℕ} {n : ℕ}

theorem holds_nil : Holds m [] := fun j hj => absurd hj (Nat.not_lt_zero j)

theorem Holds.memcpy (h : Holds src is) (hn : is.length ≤ n) (dst : Buffer) :
    Holds (memcpy dst src n) is := fun j hj => by
  rw [Fts.memcpy, if_pos (hj.trans_le hn), h j hj]

theorem Holds.push (h : Holds m is) (pos : ℕ) :
    Holds (Function.update m is.length (BitVec.ofNat 8 pos)) (is ++ [pos]) := by
  intro j hj
  rw [bufferOf]
  by_cases hlt : j < is.length
  · rw [Function.update_of_ne hlt.ne, h j hlt, List.getD_append _ _ _ _ hlt, bufferOf]
  · -- the new position
    obtain rfl : j = is.length := by
      rw [List.length_append, List.length_singleton] at hj
      omega
    rw [Function.update_self, List.getD_append_right _ _ _ _ le_rfl, Nat.sub_self]
    rfl

theorem Holds.outScore_eq (h : Holds m is) (hne : is ≠ []) (str : List Byte) :
    outScore str m is.length = scoreOf str is := by
  have hlen : 0 < is.length := List.length_pos_iff.mpr hne
  -- a bonus looks at its match and the one before
  have hbonus : ∀ i < is.length, bonus str m i = bonus str (bufferOf is) i := fun i hi => by
    rw [bonus, bonus, h i hi, h (i - 1) (by omega)]
  rw [scoreOf, outScore, outScore, h 0 hlen]
  exact List.foldl_ext _ _ _ fun score i hi => by rw [hbonus i (List.mem_range.mp hi)]

end Buffers

/-! ## The first of the best -/

/-- The first of the best of the first `n` finds, each after the positions there are. -/
noncomputable def firstBest (strBegin : List Byte) (pre : List ℕ) (n : ℕ)
    (l : List (Option (List ℕ))) : Option (List ℕ) :=
  ((l.map (Option.map (pre ++ ·))).take n).reduceOption.argmax (scoreOf strBegin)

section FirstBest

variable {strBegin : List Byte} {pre : List ℕ} {n : ℕ}

@[simp] theorem firstBest_nil : firstBest strBegin pre n [] = none := by
  simp [firstBest]

@[simp] theorem firstBest_zero (l : List (Option (List ℕ))) :
    firstBest strBegin pre 0 l = none := by
  simp [firstBest]

theorem firstBest_append (l l' : List (Option (List ℕ))) : firstBest strBegin pre n (l ++ l') =
    better (scoreOf strBegin) (firstBest strBegin pre n l)
      (firstBest strBegin pre (n - l.length) l') := by
  rw [firstBest, List.map_append, List.take_append, List.reduceOption_append, argmax_append,
    List.length_map]
  rfl

theorem firstBest_cons (x : Option (List ℕ)) (l : List (Option (List ℕ))) :
    firstBest strBegin pre (n + 1) (x :: l) =
      better (scoreOf strBegin) (x.map (pre ++ ·)) (firstBest strBegin pre n l) := by
  rw [← List.singleton_append, firstBest_append]
  cases x <;> simp [firstBest]

theorem firstBest_map_cons (i : ℕ) (l : List (Option (List ℕ))) :
    firstBest strBegin pre n (l.map (Option.map (i :: ·))) =
      firstBest strBegin (pre ++ [i]) n l := by
  rw [firstBest, firstBest, List.map_map]
  congr 4
  funext x
  cases x <;> simp

theorem exists_of_firstBest {l : List (Option (List ℕ))} {is : List ℕ}
    (h : firstBest strBegin pre n l = some is) : ∃ js, some js ∈ l ∧ is = pre ++ js := by
  have hmem := List.mem_of_mem_take (List.reduceOption_mem_iff.mp (List.argmax_mem h))
  obtain ⟨x, hx, heq⟩ := List.mem_map.mp hmem
  obtain ⟨js, rfl, rfl⟩ := Option.map_eq_some_iff.mp heq
  exact ⟨js, hx, rfl⟩

end FirstBest

/-! ## One call -/

/-- The matches before the next one: the caller's, up to the first match. -/
def Locals.current (l : Locals) (srcMatches : Option Buffer) : Buffer :=
  if l.firstMatch then srcMatches.getD l.newMatches else l.newMatches

/-- The matches of the caller are in the buffer, if there is a caller. -/
def Locals.Copied (l : Locals) (srcMatches : Option Buffer) : Prop :=
  l.firstMatch = false ∨ srcMatches = none

/-- The best find of the recursive calls so far. -/
def Locals.Best (strBegin : List Byte) (l : Locals) : Option (List ℕ) → Prop
  | none => l.recursiveMatch = false
  | some is => l.recursiveMatch = true ∧ l.bestRecursiveScore = scoreOf strBegin is ∧
      Holds l.bestRecursiveMatches is

/-- What a call returns, for what it has found. -/
def Answers (strBegin : List Byte) : Option Found → Option (List ℕ) → Prop :=
  Option.Rel fun r is => r.outScore = scoreOf strBegin is ∧ Holds r.newMatches is

section Call

variable {strBegin : List Byte} {l : Locals} {src : Option Buffer} {is pre : List ℕ}
  {b : Option (List ℕ)} {maxMatches : ℕ}

theorem copyOnWrite_newMatches (h : Holds (l.current src) is) (hnext : l.nextMatch = is.length) :
    Holds (l.copyOnWrite src).newMatches is := by
  cases src with
  | none =>
      rw [Locals.current, Option.getD_none, ite_self] at h
      exact h
  | some src =>
      -- up to the first match the positions are in the caller's buffer
      rw [Locals.current] at h
      rw [Locals.copyOnWrite]
      split_ifs at h ⊢
      · exact h.memcpy hnext.ge _
      · exact h

theorem current_of_copied (h : l.Copied src) : l.current src = l.newMatches := by
  rcases h with h | rfl
  · exact if_neg (by simp [h])
  · exact ite_self _

theorem copyOnWrite_copied (l : Locals) (src : Option Buffer) :
    (l.copyOnWrite src).Copied src := by
  cases src with
  | none => exact .inr rfl
  | some src =>
      rw [Locals.copyOnWrite]
      split_ifs with h
      · exact .inl rfl
      · exact .inl (Bool.eq_false_iff.mpr h)

theorem copyOnWrite_nextMatch (l : Locals) (src : Option Buffer) :
    (l.copyOnWrite src).nextMatch = l.nextMatch := by
  cases src with
  | none => rfl
  | some src =>
      rw [Locals.copyOnWrite]
      split_ifs <;> rfl

theorem copyOnWrite_recursiveMatch (l : Locals) (src : Option Buffer) :
    (l.copyOnWrite src).recursiveMatch = l.recursiveMatch := by
  cases src with
  | none => rfl
  | some src =>
      rw [Locals.copyOnWrite]
      split_ifs <;> rfl

theorem best_copyOnWrite (h : l.Best strBegin b) (src : Option Buffer) :
    (l.copyOnWrite src).Best strBegin b := by
  cases src with
  | none => exact h
  | some src =>
      rw [Locals.copyOnWrite]
      split_ifs
      · cases b <;> exact h
      · exact h

/-- What is not about the best find is as before. -/
theorem pickBest_eq (l : Locals) (r : Option Found) : (l.pickBest r).newMatches = l.newMatches ∧
    (l.pickBest r).nextMatch = l.nextMatch ∧ (l.pickBest r).firstMatch = l.firstMatch := by
  cases r <;> exact ⟨rfl, rfl, rfl⟩

theorem best_advance (h : l.Best strBegin b) (pos : ℕ) : (l.advance pos).Best strBegin b := by
  cases b <;> exact h

/-- The next match is in the buffer. -/
theorem advance_current (hcopied : l.Copied src) (hholds : Holds l.newMatches is)
    (hnext : l.nextMatch = is.length) (pos : ℕ) :
    Holds ((l.advance pos).current src) (is ++ [pos]) := by
  rw [current_of_copied (show (l.advance pos).Copied src from hcopied), Locals.advance, hnext]
  exact hholds.push pos

theorem best_pickBest {r : Option Found} {o : Option (List ℕ)} (h : l.Best strBegin b)
    (hr : Answers strBegin r o) (hlen : ∀ is, o = some is → is.length ≤ 256) :
    (l.pickBest r).Best strBegin (better (scoreOf strBegin) b o) := by
  cases hr with
  | none => rwa [better_none_right]
  | @some r is hr =>
      obtain ⟨hscore, hholds⟩ := hr
      have hcopy := hholds.memcpy (hlen is rfl) l.bestRecursiveMatches
      cases b with
      | none =>
          -- the first find is taken whatever its score
          have h' : l.recursiveMatch = false := h
          simp only [better_none_left, Locals.pickBest, h', Bool.not_false, Bool.true_or, if_true]
          exact ⟨rfl, hscore, hcopy⟩
      | some is' =>
          -- a later one only if it is better
          obtain ⟨h', hbest, hholds'⟩ := h
          simp only [better_some, Locals.pickBest, h', hbest, hscore, Bool.not_true, Bool.false_or,
            decide_eq_true_eq]
          split_ifs
          · exact ⟨rfl, rfl, hcopy⟩
          · exact ⟨rfl, rfl, hholds'⟩

/-- The end of a call that has matched the whole pattern itself. -/
theorem bestResult_matched (hholds : Holds l.newMatches is) (hnext : l.nextMatch = is.length)
    (hne : is ≠ []) (hbest : l.Best strBegin b)
    (hlen : ∀ is, b = some is → is.length ≤ maxMatches) :
    Answers strBegin (bestResult strBegin maxMatches true l)
      (better (scoreOf strBegin) (some is) b) := by
  rw [bestResult, hnext, hholds.outScore_eq hne]
  cases b with
  | none =>
      have h' : l.recursiveMatch = false := hbest
      simp only [h', Bool.false_and, Bool.false_eq_true, if_false, if_true, better_none_right]
      exact .some ⟨rfl, hholds⟩
  | some is' =>
      -- the own match stays unless a recursive call has a better one
      obtain ⟨h', hscore, hholds'⟩ := hbest
      simp only [h', hscore, Bool.not_true, Bool.false_or, Bool.true_and, decide_eq_true_eq,
        better_some, if_true]
      split_ifs
      · exact .some ⟨rfl, hholds'.memcpy (hlen is' rfl) _⟩
      · exact .some ⟨rfl, hholds⟩

/-- The end of a call that has not. -/
theorem bestResult_unmatched (hbest : l.Best strBegin b)
    (hlen : ∀ is, b = some is → is.length ≤ maxMatches) :
    Answers strBegin (bestResult strBegin maxMatches false l) b := by
  rw [bestResult]
  cases b with
  | none =>
      have h' : l.recursiveMatch = false := hbest
      simp only [h', Bool.false_and, Bool.false_eq_true, if_false]
      exact .none
  | some is' =>
      obtain ⟨h', hscore, hholds'⟩ := hbest
      simp only [h', Bool.not_false, Bool.true_or, Bool.true_and, if_true]
      exact .some ⟨hscore, hholds'.memcpy (hlen is' rfl) _⟩

end Call

/-! ## The loop -/

section Loop

variable {strBegin : List Byte} {recursionLimit : ℕ} {junk : Buffer}

/-- What the loop over `str`, which starts at position `i`, does with what it is given. -/
structure LoopSpec (strBegin : List Byte) (recursionLimit : ℕ) (src : Option Buffer)
    (pre : List ℕ) (i : ℕ) (pattern str : List Byte) (b : Option (List ℕ)) (l : Locals)
    (recursionCount : ℕ) (rest : List Byte) (l' : Locals) (recursionCount' : ℕ) : Prop where
  best : l'.Best strBegin (better (scoreOf strBegin) b
    (firstBest strBegin pre (recursionLimit - 1 - recursionCount) (skips same pattern i str)))
  count : recursionLimit - 1 - recursionCount' =
    recursionLimit - 1 - recursionCount - (skips same pattern i str).length
  rest_eq_nil_iff : rest = [] ↔ (greedy same pattern i str).isSome
  nextMatch : ∀ js, greedy same pattern i str = some js → l'.nextMatch = (pre ++ js).length
  holds : ∀ js, greedy same pattern i str = some js → Holds (l'.current src) (pre ++ js)
  copied : l.Copied src ∨ (greedy same pattern i str).isSome ∧ pattern ≠ [] → l'.Copied src

/-- The loop over `str` does so, whatever it is given. -/
def LoopMeets (strBegin : List Byte) (recursionLimit : ℕ) (junk : Buffer) (str : List Byte) :
    Prop :=
  ∀ (pattern : List Byte) (src : Option Buffer) (maxMatches : ℕ) (l : Locals) (pre : List ℕ)
    (i : ℕ) (b : Option (List ℕ)) (recursionCount : ℕ), maxMatches ≤ 256 →
    pre.length + pattern.length ≤ maxMatches → i + str.length = strBegin.length →
    l.nextMatch = pre.length → Holds (l.current src) pre → l.Best strBegin b →
    ∃ rest l' recursionCount',
      matchLoop strBegin recursionLimit junk str pattern src maxMatches l recursionCount =
        (some (rest, l'), recursionCount') ∧
      LoopSpec strBegin recursionLimit src pre i pattern str b l recursionCount rest l'
        recursionCount'

theorem length_of_firstBest_finds {pre : List ℕ} {n i : ℕ} {pattern str : List Byte}
    {is : List ℕ} (h : firstBest strBegin pre n (finds same pattern i str) = some is) :
    is.length = pre.length + pattern.length := by
  obtain ⟨js, hjs, rfl⟩ := exists_of_firstBest h
  rw [List.length_append, (mem_finds.mp hjs).length_eq]

theorem length_of_firstBest_skips {pre : List ℕ} {n i : ℕ} {pattern str : List Byte}
    {is : List ℕ} (h : firstBest strBegin pre n (skips same pattern i str) = some is) :
    is.length = pre.length + pattern.length := by
  obtain ⟨js, hjs, rfl⟩ := exists_of_firstBest h
  rw [List.length_append, (mem_finds.mp (List.mem_cons_of_mem _ hjs)).length_eq]

/-- **A call returns the first of the best finds that the limit leaves it.** -/
theorem recursiveCall_spec {str : List Byte} (hloop : LoopMeets strBegin recursionLimit junk str)
    {pattern : List Byte} (hpattern : pattern ≠ []) (src : Option Buffer) (newMatches : Buffer)
    (maxMatches recursionCount i : ℕ) {pre : List ℕ} (hmax : maxMatches ≤ 256)
    (hroom : pre.length + pattern.length ≤ maxMatches) (hpos : i + str.length = strBegin.length)
    (hsrc : Holds (src.getD newMatches) pre) :
    ∃ r recursionCount', recursiveCall strBegin recursionLimit junk
        (matchLoop strBegin recursionLimit junk str) pattern str src newMatches maxMatches
        pre.length recursionCount = (r, recursionCount') ∧
      Answers strBegin r (firstBest strBegin pre (recursionLimit - 1 - recursionCount)
        (finds same pattern i str)) ∧
      recursionLimit - 1 - recursionCount' =
        recursionLimit - 1 - recursionCount - (finds same pattern i str).length := by
  have hlen : (finds same pattern i str).length = (skips same pattern i str).length + 1 := rfl
  rw [recursiveCall]
  split_ifs with hlimit hempty
  · -- entered in vain
    have hzero : recursionLimit - 1 - recursionCount = 0 := by omega
    refine ⟨none, _, rfl, ?_, by omega⟩
    rw [hzero, firstBest_zero]
    exact .none
  · obtain ⟨n, hn⟩ : ∃ n, recursionLimit - 1 - recursionCount = n + 1 :=
      ⟨recursionLimit - 1 - recursionCount - 1, by omega⟩
    obtain ⟨p, ps, rfl⟩ := List.exists_cons_of_ne_nil hpattern
    obtain rfl : str = [] := by simpa using hempty
    -- the pattern is not matched by an empty text
    refine ⟨none, _, rfl, ?_, ?_⟩
    · rw [hn, finds, firstBest_cons]
      simp only [greedy, skips, Option.map_none, firstBest_nil, better_none_left]
      exact .none
    · rw [hlen, skips, List.length_nil]
      omega
  · obtain ⟨n, hn⟩ : ∃ n, recursionLimit - 1 - recursionCount = n + 1 :=
      ⟨recursionLimit - 1 - recursionCount - 1, by omega⟩
    have hn' : recursionLimit - 1 - (recursionCount + 1) = n := by omega
    -- one call is used up; the loop has the others
    obtain ⟨rest, l', recursionCount', heq, hspec⟩ := hloop pattern src maxMatches
      { newMatches, nextMatch := pre.length, bestRecursiveMatches := junk } pre i none
      (recursionCount + 1) hmax hroom hpos rfl hsrc rfl
    have hbest := hspec.best
    have hcount := hspec.count
    rw [hn', better_none_left] at hbest
    rw [hn'] at hcount
    have hbounds : ∀ is, firstBest strBegin pre n (skips same pattern i str) = some is →
        is.length ≤ maxMatches := fun is his => (length_of_firstBest_skips his).trans_le hroom
    refine ⟨bestResult strBegin maxMatches rest.isEmpty l', recursionCount',
      by simp only [heq, Option.bind_some], ?_, by omega⟩
    rw [hn, finds, firstBest_cons]
    cases hgreedy : greedy same pattern i str with
    | none =>
        -- the loop came to the end of the text first
        have hrest : rest.isEmpty = false := by
          rw [List.isEmpty_eq_false_iff, Ne, hspec.rest_eq_nil_iff, hgreedy]
          simp
        rw [Option.map_none, better_none_left, hrest]
        exact bestResult_unmatched hbest hbounds
    | some js =>
        obtain rfl : rest = [] := hspec.rest_eq_nil_iff.mpr (by rw [hgreedy]; rfl)
        -- it matched, so what it matched is in its own buffer
        have hjs : js ≠ [] := by
          have := (greedy_embeds hgreedy).length_eq
          exact List.ne_nil_of_length_pos (this ▸ List.length_pos_iff.mpr hpattern)
        have hholds := hspec.holds js hgreedy
        rw [current_of_copied (hspec.copied (.inr ⟨by rw [hgreedy]; rfl, hpattern⟩))] at hholds
        exact bestResult_matched hholds (hspec.nextMatch js hgreedy) (by simp [hjs]) hbest hbounds

theorem greedy_cons_some {i : ℕ} {p c : Byte} {ps cs : List Byte} {js : List ℕ}
    (h : same p c = true) (hjs : greedy same (p :: ps) i (c :: cs) = some js) :
    ∃ ks, js = i :: ks ∧ greedy same ps (i + 1) cs = some ks := by
  rw [greedy, if_pos h] at hjs
  obtain ⟨ks, hks, rfl⟩ := Option.map_eq_some_iff.mp hjs
  exact ⟨ks, rfl, hks⟩

theorem LoopSpec.of_nil {src : Option Buffer} {pre : List ℕ} {i : ℕ} {str : List Byte}
    {b : Option (List ℕ)} {l : Locals} {recursionCount : ℕ} (hnext : l.nextMatch = pre.length)
    (hcur : Holds (l.current src) pre) (hbest : l.Best strBegin b) :
    LoopSpec strBegin recursionLimit src pre i [] str b l recursionCount [] l recursionCount := by
  have hgreedy : ∀ js, greedy same [] i str = some js → js = [] := fun js hjs => by
    rw [greedy] at hjs
    exact (Option.some.inj hjs).symm
  constructor
  · rwa [skips, firstBest_nil, better_none_right]
  · rw [skips, List.length_nil, Nat.sub_zero]
  · simp [greedy]
  · intro js hjs
    rw [hgreedy js hjs, List.append_nil, hnext]
  · intro js hjs
    rwa [hgreedy js hjs, List.append_nil]
  · rintro (h | ⟨-, h⟩)
    · exact h
    · exact absurd rfl h

theorem LoopSpec.of_end {src : Option Buffer} {pre : List ℕ} {i : ℕ} {p : Byte} {ps : List Byte}
    {b : Option (List ℕ)} {l : Locals} {recursionCount : ℕ} (hbest : l.Best strBegin b) :
    LoopSpec strBegin recursionLimit src pre i (p :: ps) [] b l recursionCount (p :: ps) l
      recursionCount := by
  constructor
  · rwa [skips, firstBest_nil, better_none_right]
  · rw [skips, List.length_nil, Nat.sub_zero]
  · simp [greedy]
  · intro js hjs
    cases hjs
  · intro js hjs
    cases hjs
  · rintro (h | ⟨h, -⟩)
    · exact h
    · cases h

theorem LoopSpec.of_not_same {src : Option Buffer} {pre : List ℕ} {i : ℕ} {p c : Byte}
    {ps cs rest : List Byte} {b : Option (List ℕ)} {l l' : Locals}
    {recursionCount recursionCount' : ℕ} (h : ¬ same p c = true)
    (hspec : LoopSpec strBegin recursionLimit src pre (i + 1) (p :: ps) cs b l recursionCount rest
      l' recursionCount') :
    LoopSpec strBegin recursionLimit src pre i (p :: ps) (c :: cs) b l recursionCount rest l'
      recursionCount' := by
  have hskips : skips same (p :: ps) i (c :: cs) = skips same (p :: ps) (i + 1) cs := by
    rw [skips, if_neg h]
  have hgreedy : greedy same (p :: ps) i (c :: cs) = greedy same (p :: ps) (i + 1) cs := by
    rw [greedy, if_neg h]
  constructor
  · exact hskips ▸ hspec.best
  · exact hskips ▸ hspec.count
  · exact hgreedy ▸ hspec.rest_eq_nil_iff
  · exact hgreedy ▸ hspec.nextMatch
  · exact hgreedy ▸ hspec.holds
  · exact hgreedy ▸ hspec.copied

/-- After a match: the finds of the recursive call, then those of the rest of the loop. -/
theorem LoopSpec.of_same {src : Option Buffer} {pre : List ℕ} {i : ℕ} {p c : Byte}
    {ps cs rest : List Byte} {b : Option (List ℕ)} {l l' l'' : Locals}
    {recursionCount recursionCount' recursionCount'' : ℕ} (h : same p c = true)
    (hcopied : l'.Copied src)
    (hcount : recursionLimit - 1 - recursionCount' =
      recursionLimit - 1 - recursionCount - (finds same (p :: ps) (i + 1) cs).length)
    (hspec : LoopSpec strBegin recursionLimit src (pre ++ [i]) (i + 1) ps cs
      (better (scoreOf strBegin) b (firstBest strBegin pre (recursionLimit - 1 - recursionCount)
        (finds same (p :: ps) (i + 1) cs))) l' recursionCount' rest l'' recursionCount'') :
    LoopSpec strBegin recursionLimit src pre i (p :: ps) (c :: cs) b l recursionCount rest l''
      recursionCount'' := by
  have hskips : skips same (p :: ps) i (c :: cs) = finds same (p :: ps) (i + 1) cs ++
      (skips same ps (i + 1) cs).map (Option.map (i :: ·)) := by
    rw [skips, if_pos h]
    rfl
  have hgreedy : (greedy same (p :: ps) i (c :: cs)).isSome =
      (greedy same ps (i + 1) cs).isSome := by
    rw [greedy, if_pos h, Option.isSome_map]
  constructor
  · rw [hskips, firstBest_append, firstBest_map_cons, ← hcount, ← better_assoc]
    exact hspec.best
  · rw [hskips, List.length_append, List.length_map, ← Nat.sub_sub, ← hcount]
    exact hspec.count
  · rw [hgreedy]
    exact hspec.rest_eq_nil_iff
  · intro js hjs
    obtain ⟨ks, rfl, hks⟩ := greedy_cons_some h hjs
    rw [List.append_cons]
    exact hspec.nextMatch ks hks
  · intro js hjs
    obtain ⟨ks, rfl, hks⟩ := greedy_cons_some h hjs
    rw [List.append_cons]
    exact hspec.holds ks hks
  · exact fun _ => hspec.copied (.inl hcopied)

/-- The loop does what it should, by induction on the string: the recursive call and the rest of
the loop are both about what is left of it. -/
theorem loopMeets (strBegin : List Byte) (recursionLimit : ℕ) (junk : Buffer) (str : List Byte) :
    LoopMeets strBegin recursionLimit junk str := by
  induction str with
  | nil =>
      intro pattern src maxMatches l pre i b recursionCount _ _ _ hnext hcur hbest
      cases pattern with
      | nil => exact ⟨[], l, recursionCount, by rw [matchLoop], .of_nil hnext hcur hbest⟩
      | cons p ps => exact ⟨p :: ps, l, recursionCount, by rw [matchLoop], .of_end hbest⟩
  | cons c cs ih =>
      intro pattern src maxMatches l pre i b recursionCount hmax hroom hpos hnext hcur hbest
      cases pattern with
      | nil => exact ⟨[], l, recursionCount, by rw [matchLoop], .of_nil hnext hcur hbest⟩
      | cons p ps =>
          -- `str` starts at position `i` of `strBegin`
          have hlen : strBegin.length - (c :: cs).length = i := by omega
          rw [List.length_cons] at hroom hpos
          by_cases hsame : tolower p = tolower c
          · have hsame' : same p c = true := by simpa [same] using hsame
            have hfull : ¬ maxMatches ≤ l.nextMatch := by omega
            have hnext' := (copyOnWrite_nextMatch l src).trans hnext
            -- the recursive call, past the match
            obtain ⟨r, recursionCount', hcall, hanswers, hcount⟩ := recursiveCall_spec ih
              (List.cons_ne_nil p ps) (some (l.copyOnWrite src).newMatches) junk 256
              recursionCount (i + 1) le_rfl (by rw [List.length_cons]; omega) (by omega)
              (copyOnWrite_newMatches hcur hnext)
            have hbest' := best_pickBest (best_copyOnWrite hbest src) hanswers fun is his => by
              rw [length_of_firstBest_finds his, List.length_cons]
              omega
            -- what it found is no matter of the positions
            obtain ⟨hpicked, hpickedNext, hpickedFirst⟩ := pickBest_eq (l.copyOnWrite src) r
            have hpickedCopied : ((l.copyOnWrite src).pickBest r).Copied src := by
              rw [Locals.Copied, hpickedFirst]
              exact copyOnWrite_copied l src
            have hcopied : (((l.copyOnWrite src).pickBest r).advance i).Copied src := hpickedCopied
            have hnext'' := hpickedNext.trans hnext'
            -- the rest of the loop, with the match taken
            obtain ⟨rest, l', recursionCount'', heq, hspec⟩ := ih ps src maxMatches
              (((l.copyOnWrite src).pickBest r).advance i) (pre ++ [i]) (i + 1) _ recursionCount'
              hmax (by rw [List.length_append, List.length_singleton]; omega) (by omega)
              (by rw [List.length_append]; exact congrArg (· + 1) hnext'')
              (advance_current hpickedCopied
                (hpicked ▸ copyOnWrite_newMatches hcur hnext) hnext'' i)
              (best_advance hbest' i)
            refine ⟨rest, l', recursionCount'', ?_, .of_same hsame' hcopied hcount hspec⟩
            rw [matchLoop, if_pos hsame, if_neg hfull]
            simp only [hnext', hcall, hlen]
            exact heq
          · have hsame' : ¬ same p c = true := by simpa [same] using hsame
            obtain ⟨rest, l', recursionCount', heq, hspec⟩ := ih (p :: ps) src maxMatches l pre
              (i + 1) b recursionCount hmax hroom (by omega) hnext hcur hbest
            exact ⟨rest, l', recursionCount', by rw [matchLoop, if_neg hsame, heq],
              .of_not_same hsame' hspec⟩

/-- A loop with more to find than there is room for in the buffer. -/
def LongFails (strBegin : List Byte) (recursionLimit : ℕ) (junk : Buffer) (str : List Byte) :
    Prop :=
  ∀ (pattern : List Byte) (src : Option Buffer) (maxMatches : ℕ) (l : Locals)
    (recursionCount : ℕ), maxMatches ≤ 256 → l.nextMatch ≤ 256 →
    256 < l.nextMatch + pattern.length → l.recursiveMatch = false → ∀ rest l',
    (matchLoop strBegin recursionLimit junk str pattern src maxMatches l recursionCount).1 =
      some (rest, l') → rest ≠ [] ∧ l'.recursiveMatch = false

theorem recursiveCall_of_long {str : List Byte}
    (hloop : LongFails strBegin recursionLimit junk str) {pattern : List Byte}
    (src : Option Buffer) (newMatches : Buffer) (maxMatches nextMatch recursionCount : ℕ)
    (hmax : maxMatches ≤ 256) (hnext : nextMatch ≤ 256)
    (hlong : 256 < nextMatch + pattern.length) :
    (recursiveCall strBegin recursionLimit junk (matchLoop strBegin recursionLimit junk str)
      pattern str src newMatches maxMatches nextMatch recursionCount).1 = none := by
  rw [recursiveCall]
  split_ifs
  · rfl
  · rfl
  · have h := hloop pattern src maxMatches
      { newMatches, nextMatch, bestRecursiveMatches := junk } (recursionCount + 1) hmax hnext hlong
      rfl
    simp only [Option.bind_eq_none_iff]
    rintro ⟨rest, l'⟩ heq
    obtain ⟨hrest, hbest⟩ := h rest l' heq
    have hempty : rest.isEmpty = false := List.isEmpty_eq_false_iff.mpr hrest
    rw [bestResult, hbest, hempty]
    rfl

theorem longFails (strBegin : List Byte) (recursionLimit : ℕ) (junk : Buffer) (str : List Byte) :
    LongFails strBegin recursionLimit junk str := by
  induction str with
  | nil =>
      intro pattern src maxMatches l recursionCount _ hnext hlong hbest rest l' h
      cases pattern with
      | nil =>
          rw [List.length_nil] at hlong
          omega
      | cons p ps =>
          rw [matchLoop] at h
          obtain ⟨rfl, rfl⟩ := Prod.mk.inj (Option.some.inj h)
          exact ⟨List.cons_ne_nil p ps, hbest⟩
  | cons c cs ih =>
      intro pattern src maxMatches l recursionCount hmax hnext hlong hbest rest l' h
      cases pattern with
      | nil =>
          rw [List.length_nil] at hlong
          omega
      | cons p ps =>
          rw [matchLoop] at h
          split_ifs at h with hsame hfull
          · have hlocals := copyOnWrite_nextMatch l src
            have hnone := recursiveCall_of_long ih (some (l.copyOnWrite src).newMatches) junk 256
              (l.copyOnWrite src).nextMatch recursionCount le_rfl (hlocals ▸ hnext)
              (hlocals ▸ hlong)
            rw [List.length_cons] at hlong
            simp only [hnone] at h
            have hnext' : ((l.copyOnWrite src).advance
                (strBegin.length - (c :: cs).length)).nextMatch = l.nextMatch + 1 :=
              congrArg (· + 1) hlocals
            have hbest' : ((l.copyOnWrite src).advance
                (strBegin.length - (c :: cs).length)).recursiveMatch = false :=
              (copyOnWrite_recursiveMatch l src).trans hbest
            exact ih ps src maxMatches _ _ hmax (hnext'.trans_le (by omega))
              (hnext' ▸ by omega) hbest' rest l' h
          · exact ih (p :: ps) src maxMatches l recursionCount hmax hnext hlong hbest rest l' h

end Loop

/-! ## `fuzzy_match` -/

section Match

variable {junk : Buffer} {pattern str : List Byte}

theorem fuzzyMatch_nil : fuzzyMatch junk [] str = none := rfl

theorem fuzzyMatch_of_long (h : 256 < pattern.length) : fuzzyMatch junk pattern str = none :=
  recursiveCall_of_long (longFails str 10 junk str) none junk 256 0 0 le_rfl (by omega) (by omega)

/-- **What is returned is the first of the best finds of the first nine calls.** -/
theorem fuzzyMatch_spec (hpattern : pattern ≠ []) (hlen : pattern.length ≤ 256) :
    Answers str (fuzzyMatch junk pattern str) (firstBest str [] 9 (finds same pattern 0 str)) := by
  obtain ⟨r, recursionCount, heq, hanswers, -⟩ := recursiveCall_spec (loopMeets str 10 junk str)
    hpattern none junk 256 0 0 le_rfl (by simpa using hlen) (Nat.zero_add _) holds_nil
  have hr : fuzzyMatch junk pattern str = r := congrArg Prod.fst heq
  exact hr ▸ hanswers

/-- `fuzzy_match_simple` takes every match. -/
theorem fuzzyMatchSimple_eq (str pattern : List Byte) (i : ℕ) :
    fuzzyMatchSimple str pattern = (greedy same pattern i str).isSome := by
  induction str generalizing pattern i with
  | nil => cases pattern <;> rfl
  | cons c cs ih =>
      cases pattern with
      | nil => rfl
      | cons p ps =>
          rw [fuzzyMatchSimple, greedy]
          simp only [same, decide_eq_true_eq]
          split_ifs
          · rw [Option.isSome_map, ih]
          · rw [ih]

theorem isSome_firstBest_iff (n : ℕ) :
    (firstBest str [] (n + 1) (finds same pattern 0 str)).isSome ↔
      (greedy same pattern 0 str).isSome := by
  constructor
  · intro h
    obtain ⟨is, his⟩ := Option.isSome_iff_exists.mp h
    obtain ⟨js, hjs, -⟩ := exists_of_firstBest his
    exact greedy_isSome_iff.mpr ⟨js, mem_finds.mp hjs⟩
  · intro h
    obtain ⟨is, his⟩ := Option.isSome_iff_exists.mp h
    -- the first call finds it
    rw [finds, firstBest_cons, his, Option.map_some]
    cases firstBest str [] n (skips same pattern 0 str) with
    | none => rfl
    | some js =>
        rw [better_some]
        split_ifs <;> rfl

theorem Answers.isSome_eq {r : Option Found} {o : Option (List ℕ)} (h : Answers str r o) :
    r.isSome = o.isSome := by
  cases h <;> rfl

/-- **`fuzzy_match` finds what `fuzzy_match_simple` finds**, but for an empty pattern and one
that is too long for the buffer. -/
theorem fuzzyMatch_isSome_iff (junk : Buffer) (pattern str : List Byte) :
    (fuzzyMatch junk pattern str).isSome ↔
      pattern ≠ [] ∧ pattern.length ≤ 256 ∧ fuzzyMatchSimple str pattern = true := by
  by_cases hpattern : pattern = []
  · subst hpattern
    simp [fuzzyMatch_nil]
  by_cases hlen : pattern.length ≤ 256
  · rw [(fuzzyMatch_spec hpattern hlen).isSome_eq, isSome_firstBest_iff,
      ← fuzzyMatchSimple_eq str pattern 0]
    simp only [ne_eq, hpattern, not_false_eq_true, hlen, true_and]
  · rw [fuzzyMatch_of_long (not_le.mp hlen)]
    simp [hlen]

end Match

/-- What `fuzzy_match_simple` looks for. -/
theorem fuzzyMatchSimple_iff (str pattern : List Byte) : fuzzyMatchSimple str pattern = true ↔
    (pattern.map tolower).Sublist (str.map tolower) := by
  induction str generalizing pattern with
  | nil => cases pattern <;> simp [fuzzyMatchSimple]
  | cons c cs ih =>
      cases pattern with
      | nil => simp [fuzzyMatchSimple]
      | cons p ps =>
          rw [fuzzyMatchSimple, List.map_cons, List.map_cons]
          split_ifs with h
          · rw [ih, h, List.cons_sublist_cons]
          · rw [ih, List.map_cons, List.sublist_cons_iff]
            -- the first letter of the pattern is not this one
            refine (or_iff_left ?_).symm
            rintro ⟨r, hr, -⟩
            exact h (List.cons.inj hr).1

/-! ## What the score is for -/

/-- The bonus of a match at position `j` for what stands there and in front of it. -/
def letterBonus (str : List Byte) (j : ℕ) : ℤ :=
  if j = 0 then 15
  else
    let neighbor := str.getD (j - 1) 0
    (if islower neighbor && isupper (str.getD j 0) then 30 else 0) +
      if neighbor = 95 || neighbor = 32 then 30 else 0

/-- The bonuses of matches, the first of which comes after the one at `prev`. -/
def bonuses (str : List Byte) : (prev : Option ℕ) → List ℕ → ℤ
  | _, [] => 0
  | prev, j :: js =>
      (if prev.map (· + 1) = some j then 15 else 0) + letterBonus str j + bonuses str (some j) js

/-- The score of a match at the positions. -/
def score (str : List Byte) (is : List ℕ) : ℤ :=
  100 + max (-5 * (is.headD 0 : ℤ)) (-15) - (str.length - is.length) + bonuses str none is

section Score

variable {str : List Byte} {is : List ℕ}

theorem bonuses_concat (prev : Option ℕ) (is : List ℕ) (j : ℕ) :
    bonuses str prev (is ++ [j]) = bonuses str prev is +
      ((if (is.getLast?.or prev).map (· + 1) = some j then 15 else 0) + letterBonus str j) := by
  induction is generalizing prev with
  | nil => simp [bonuses]
  | cons i is ih =>
      -- the last position before the new one
      have hlast : (i :: is).getLast?.or prev = is.getLast?.or (some i) := by
        cases is with
        | nil => rfl
        | cons i' is => simp [List.getLast?_cons]
      rw [List.cons_append, bonuses, bonuses, ih, hlast]
      ring

theorem toNat_bufferOf (hlt : ∀ j ∈ is, j < 256) {j : ℕ} (hj : j < is.length) :
    (bufferOf is j).toNat = is[j] := by
  rw [bufferOf, List.getD_eq_getElem _ _ hj, BitVec.toNat_ofNat,
    Nat.mod_eq_of_lt (hlt _ (List.getElem_mem hj))]

/-- A bonus read from the buffer. -/
theorem bonus_bufferOf (hlt : ∀ j ∈ is, j < 256) {n : ℕ} (hn : n < is.length) :
    bonus str (bufferOf is) n =
      (if ((is.take n).getLast?.or none).map (· + 1) = some is[n] then 15 else 0) +
        letterBonus str is[n] := by
  have hcurr := toNat_bufferOf hlt hn
  rw [bonus, letterBonus, hcurr]
  congr 1
  · -- the match before it, if there is one
    cases n with
    | zero => simp
    | succ n =>
        have hprev := toNat_bufferOf hlt (Nat.lt_of_succ_lt hn)
        rw [Nat.add_sub_cancel, hprev, List.getLast?_take, List.getElem?_eq_getElem (by omega)]
        simp [eq_comm]
  · by_cases hzero : is[n] = 0
    · simp [hzero]
    · rw [if_pos (Nat.pos_of_ne_zero hzero), if_neg hzero]

theorem foldl_bonus (hlt : ∀ j ∈ is, j < 256) (a : ℤ) {n : ℕ} (hn : n ≤ is.length) :
    (List.range n).foldl (fun score i => score + bonus str (bufferOf is) i) a =
      a + bonuses str none (is.take n) := by
  induction n with
  | zero => simp [bonuses]
  | succ n ih =>
      rw [List.range_succ, List.foldl_append, ih (Nat.le_of_succ_le hn), List.foldl_cons,
        List.foldl_nil, bonus_bufferOf hlt hn, ← List.take_append_getElem hn, bonuses_concat]
      ring

/-- A position fits a byte of the buffer up to 256 letters. -/
theorem scoreOf_eq (hlt : ∀ j ∈ is, j < 256) (hne : is ≠ []) : scoreOf str is = score str is := by
  have hlen : 0 < is.length := List.length_pos_iff.mpr hne
  have hhead : is.headD 0 = is[0] := by
    cases is with
    | nil => exact absurd rfl hne
    | cons => rfl
  rw [scoreOf, outScore, foldl_bonus hlt _ le_rfl, List.take_length, toNat_bufferOf hlt hlen,
    score, hhead]
  ring

end Score

/-! ## The best match -/

section Best

variable {junk : Buffer} {pattern str : List Byte} {r : Found}

theorem le_of_firstBest {strBegin : List Byte} {n : ℕ} {l : List (Option (List ℕ))}
    {is js : List ℕ} (h : firstBest strBegin [] n l = some is) (hjs : some js ∈ l.take n) :
    scoreOf strBegin js ≤ scoreOf strBegin is := by
  refine List.le_of_mem_argmax (List.reduceOption_mem_iff.mpr ?_) h
  rw [← List.map_take]
  exact List.mem_map.mpr ⟨some js, hjs, rfl⟩

theorem scoreOf_eq_of_embeds (hstr : str.length ≤ 256) (hpattern : pattern ≠ []) {is : List ℕ}
    (h : Embeds same pattern 0 str is) : scoreOf str is = score str is := by
  refine scoreOf_eq (fun j hj => ?_) ?_
  · have := (h.mem_bounds j hj).2
    omega
  · exact List.ne_nil_of_length_pos (h.length_eq ▸ List.length_pos_iff.mpr hpattern)

/-- What is found is a match, and no worse than taking every letter that matches. It is the best
match there is, if the exhaustive search has no more than nine calls. -/
structure Found.IsBest (r : Found) (pattern str : List Byte) (is : List ℕ) : Prop where
  positions : Positions same pattern 0 str is
  newMatches : (List.range is.length).map (fun j => (r.newMatches j).toNat) = is
  outScore : r.outScore = score str is
  greedy_le : ∀ js, greedy same pattern 0 str = some js → score str js ≤ r.outScore
  best : (finds same pattern 0 str).length ≤ 9 →
    ∀ js, Positions same pattern 0 str js → score str js ≤ r.outScore

/-- **`fuzzy_match` finds a match where there is one**, with the score of that match. -/
theorem fuzzyMatch_best (junk : Buffer) (hpattern : pattern ≠ []) (hlen : pattern.length ≤ 256)
    (hstr : str.length ≤ 256) (hsimple : fuzzyMatchSimple str pattern = true) :
    ∃ r is, fuzzyMatch junk pattern str = some r ∧ r.IsBest pattern str is := by
  have hspec : Answers str (fuzzyMatch junk pattern str)
      (firstBest str [] 9 (finds same pattern 0 str)) := fuzzyMatch_spec hpattern hlen
  rw [fuzzyMatchSimple_eq str pattern 0, ← isSome_firstBest_iff 8] at hsimple
  obtain ⟨is, his⟩ := Option.isSome_iff_exists.mp hsimple
  rw [his] at hspec
  obtain ⟨r, hr, hscore, hholds⟩ : ∃ r, fuzzyMatch junk pattern str = some r ∧
      r.outScore = scoreOf str is ∧ Holds r.newMatches is := by
    -- the call answers with a find, so it returns `true`
    generalize fuzzyMatch junk pattern str = r at hspec
    cases hspec with
    | some hr => exact ⟨_, rfl, hr⟩
  have hembeds : Embeds same pattern 0 str is := by
    obtain ⟨js, hjs, rfl⟩ := exists_of_firstBest his
    exact mem_finds.mp hjs
  -- a find of one of the nine calls is no better
  have hle : ∀ js, some js ∈ (finds same pattern 0 str).take 9 → score str js ≤ r.outScore := by
    intro js hjs
    have hjs' := mem_finds.mp (List.mem_of_mem_take hjs)
    rw [← scoreOf_eq_of_embeds hstr hpattern hjs', hscore]
    exact le_of_firstBest his hjs
  refine ⟨r, is, hr, embeds_iff.mp hembeds, ?_, ?_, ?_, ?_⟩
  · refine List.ext_getElem (by simp) fun j hj hj' => ?_
    have hlt : ∀ j ∈ is, j < 256 := fun j hj => by
      have := (hembeds.mem_bounds j hj).2
      omega
    rw [List.getElem_map, List.getElem_range, hholds j hj', toNat_bufferOf hlt hj']
  · rw [hscore, scoreOf_eq_of_embeds hstr hpattern hembeds]
  · intro js hjs
    exact hle js (by rw [finds, hjs]; exact List.mem_cons_self)
  · intro hfew js hjs
    rw [List.take_of_length_le hfew] at hle
    exact hle js (mem_finds.mpr (embeds_iff.mpr hjs))

/-- `ab` in `A_B`. -/
theorem fuzzyMatch_best_sample : ∃ r is, fuzzyMatch (fun _ => 0) [97, 98] [65, 95, 66] = some r ∧
    r.IsBest [97, 98] [65, 95, 66] is :=
  fuzzyMatch_best (fun _ => 0) (by decide) (by decide) (by decide) (by decide)

end Best

end OsIrose.Fts

namespace OsIrose.ScriptLoader

open ByteMem (Byte)
open Fts (Buffer tolower)

/-! ## `Core::fuzzy_match` -/

/-- `c_str()` -/
def cStr (s : String) : List Byte :=
  (s.toUTF8.toList.map UInt8.toBitVec).takeWhile (· ≠ 0)

/-- The loop of `Core::fuzzy_match`. -/
def scores (junk : Buffer) (strings : List String) (pattern : String) : List FuzzyMatch :=
  strings.zipIdx.filterMap fun (s, i) =>
    (Fts.fuzzyMatch junk (cStr pattern) (cStr s)).map fun r => ⟨i, r.outScore⟩

/-- What `std::sort` does with the comparison of scores; equal ones come in any order. -/
structure SortsByScore (sort : List FuzzyMatch → List FuzzyMatch) : Prop where
  perm : ∀ l, (sort l).Perm l
  sorted : ∀ l, (sort l).Pairwise fun m m' => ¬ m.score < m'.score

def fuzzyMatch (sort : List FuzzyMatch → List FuzzyMatch) (junk : Buffer)
    (strings : List String) (pattern : String) : List FuzzyMatch :=
  sort (scores junk strings pattern)

section Core

variable {sort : List FuzzyMatch → List FuzzyMatch} {junk : Buffer} {strings : List String}
  {pattern : String}

theorem mem_scores {m : FuzzyMatch} : m ∈ scores junk strings pattern ↔
    ∃ s r, strings[m.index]? = some s ∧
      Fts.fuzzyMatch junk (cStr pattern) (cStr s) = some r ∧ m.score = r.outScore := by
  rw [scores, List.mem_filterMap]
  constructor
  · rintro ⟨⟨s, i⟩, hs, hm⟩
    obtain ⟨r, hr, rfl⟩ := Option.map_eq_some_iff.mp hm
    exact ⟨s, r, List.mk_mem_zipIdx_iff_getElem?.mp hs, hr, rfl⟩
  · rintro ⟨s, r, hs, hr, hscore⟩
    refine ⟨(s, m.index), List.mk_mem_zipIdx_iff_getElem?.mpr hs, ?_⟩
    simp only [hr, Option.map_some, ← hscore]

/-- A file is looked at once. -/
theorem nodup_scores : ((scores junk strings pattern).map FuzzyMatch.index).Nodup := by
  have hrange : (strings.zipIdx.map Prod.snd).Nodup := by
    rw [List.zipIdx_map_snd]
    exact List.nodup_range'
  rw [List.Nodup, List.pairwise_map] at hrange ⊢
  rw [scores, List.pairwise_filterMap]
  -- each index comes with one string
  refine hrange.imp ?_
  rintro ⟨s, i⟩ ⟨s', i'⟩ hne m hm m' hm'
  obtain ⟨r, -, rfl⟩ := Option.map_eq_some_iff.mp hm
  obtain ⟨r', -, rfl⟩ := Option.map_eq_some_iff.mp hm'
  exact hne

/-- **`Core::fuzzy_match` finds each file that has the letters of the pattern in order, once,
the best ones first**, in whichever order the sort leaves equal ones. -/
theorem fuzzyMatch_matches (hsort : SortsByScore sort) (junk : Buffer) (strings : List String)
    (pattern : String) : ∃ res : Matches strings,
      res.list = fuzzyMatch sort junk strings pattern ∧
      ∀ i, i ∈ res.list.map FuzzyMatch.index ↔ ∃ s, strings[i]? = some s ∧ cStr pattern ≠ [] ∧
        (cStr pattern).length ≤ 256 ∧
        ((cStr pattern).map tolower).Sublist ((cStr s).map tolower) := by
  have hperm := hsort.perm (scores junk strings pattern)
  have hmem : ∀ m, m ∈ fuzzyMatch sort junk strings pattern ↔ m ∈ scores junk strings pattern :=
    fun m => hperm.mem_iff
  refine ⟨⟨fuzzyMatch sort junk strings pattern, ?_, ?_, ?_⟩, rfl, ?_⟩
  · intro m hm
    obtain ⟨s, r, hs, -, -⟩ := mem_scores.mp ((hmem m).mp hm)
    exact (List.getElem?_eq_some_iff.mp hs).1
  · exact (hperm.map FuzzyMatch.index).nodup_iff.mpr nodup_scores
  · exact (hsort.sorted _).imp not_lt.mp
  · intro i
    rw [List.mem_map]
    constructor
    · rintro ⟨m, hm, rfl⟩
      obtain ⟨s, r, hs, hr, -⟩ := mem_scores.mp ((hmem m).mp hm)
      -- a name that is handed back was matched
      obtain ⟨hpattern, hlen, hsimple⟩ := (Fts.fuzzyMatch_isSome_iff junk (cStr pattern)
        (cStr s)).mp (Option.isSome_iff_exists.mpr ⟨r, hr⟩)
      exact ⟨s, hs, hpattern, hlen, (Fts.fuzzyMatchSimple_iff _ _).mp hsimple⟩
    · rintro ⟨s, hs, hpattern, hlen, hsub⟩
      obtain ⟨r, hr⟩ := Option.isSome_iff_exists.mp ((Fts.fuzzyMatch_isSome_iff junk (cStr pattern)
        (cStr s)).mpr ⟨hpattern, hlen, (Fts.fuzzyMatchSimple_iff _ _).mpr hsub⟩)
      exact ⟨⟨i, r.outScore⟩, (hmem _).mpr (mem_scores.mpr ⟨s, r, hs, hr, rfl⟩), rfl⟩

/-- A stable sort is one. -/
theorem sortsByScore_mergeSort :
    SortsByScore (List.mergeSort · fun m m' => decide (m'.score ≤ m.score)) where
  perm l := List.mergeSort_perm l _
  sorted l := by
    refine (List.pairwise_mergeSort ?_ ?_ l).imp ?_
    · intro a b c hab hbc
      simp only [decide_eq_true_eq] at *
      omega
    · intro a b
      simp only [Bool.or_eq_true, decide_eq_true_eq]
      omega
    · intro a b h
      simp only [decide_eq_true_eq] at h
      omega

/-- `ab` in two of three names. -/
theorem fuzzyMatch_matches_sample : ∃ res : Matches ["a_b", "ba", "AxB"],
    res.list = fuzzyMatch (List.mergeSort · fun m m' => decide (m'.score ≤ m.score)) (fun _ => 0)
      ["a_b", "ba", "AxB"] "ab" ∧
    ∀ i, i ∈ res.list.map FuzzyMatch.index ↔ ∃ s, ["a_b", "ba", "AxB"][i]? = some s ∧
      cStr "ab" ≠ [] ∧ (cStr "ab").length ≤ 256 ∧
      ((cStr "ab").map tolower).Sublist ((cStr s).map tolower) :=
  fuzzyMatch_matches sortsByScore_mergeSort (fun _ => 0) ["a_b", "ba", "AxB"] "ab"

end Core

end OsIrose.ScriptLoader

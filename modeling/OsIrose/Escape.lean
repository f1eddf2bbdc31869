/-
SQL escaping, `core/src/connection.cpp`, and the string literals it is meant for.

`Core::escapeData` is five find-and-replace passes. `replaceAll` is the loop they share;
for a `from` of one character it is a map over the characters (`replaceAll_single`), so
the five passes together are `escapeChar` on each character (`escapeData_eq`).

`scan` reads a MySQL string literal: a backslash takes the next character with it, and
an unescaped quote ends the literal. `Yields t` says that the literal written for `t`
ends at the server's own quote and has the value `t`. The passes put a backslash in
front of quotes but leave the backslashes that are already there alone, and they put one
in front of `%` and `_`, where a literal keeps it. So `Yields` holds exactly of the
strings made of the pieces of `Harmless`.
-/
import OsIrose.ByteMem

set_option autoImplicit false

namespace OsIrose.Escape

open ByteMem

/-! ## Characters -/

def quote : Byte := 0x27

def dquote : Byte := 0x22

def percent : Byte := 0x25

def underscore : Byte := 0x5F

def semicolon : Byte := 0x3B

def backslash : Byte := 0x5C

/-! ## `escapeData` -/

/-- The loop of `replaceAll` for a non-empty `from = f :: fs`: `skip` characters of an
occurrence are still to be passed over, and the search goes on behind what was put in. -/
def replaceFrom (f : Byte) (fs to' : List Byte) : (skip : ℕ) → List Byte → List Byte
  | _, [] => []
  | skip + 1, _ :: str => replaceFrom f fs to' skip str
  | 0, c :: str =>
      if (f :: fs).isPrefixOf (c :: str) then to' ++ replaceFrom f fs to' fs.length str
      else c :: replaceFrom f fs to' 0 str

/-- `replaceAll(str, from, to)`. -/
def replaceAll (f : Byte) (fs to' str : List Byte) : List Byte :=
  replaceFrom f fs to' 0 str

/-- `Core::escapeData`. -/
def escapeData (data : List Byte) : List Byte :=
  let result := replaceAll quote [] [backslash, quote] data
  let result := replaceAll dquote [] [backslash, dquote] result
  let result := replaceAll percent [] [backslash, percent] result
  let result := replaceAll underscore [] [backslash, underscore] result
  replaceAll semicolon [] [] result

/-- What the five passes make of one character. -/
def escapeChar (c : Byte) : List Byte :=
  if c = semicolon then []
  else if c = quote ∨ c = dquote ∨ c = percent ∨ c = underscore then [backslash, c]
  else [c]

/-- Replacing one character is a map over the characters. -/
theorem replaceAll_single (f : Byte) (to' str : List Byte) :
    replaceAll f [] to' str = str.flatMap (fun c => if c = f then to' else [c]) := by
  unfold replaceAll
  induction str with
  | nil => rfl
  | cons c str ih =>
      rw [replaceFrom, List.flatMap_cons]
      have hpref : ([f].isPrefixOf (c :: str)) = decide (c = f) := by
        simp [List.isPrefixOf, beq_eq_decide, eq_comm]
      rw [hpref]
      by_cases hc : c = f
      · rw [if_pos (decide_eq_true hc), if_pos hc]
        exact congrArg (to' ++ ·) ih
      · rw [if_neg (by simp [hc]), if_neg hc, ih]
        rfl

/-- **The five passes are one pass.** None of them touches what an earlier one put in. -/
theorem escapeData_eq (data : List Byte) : escapeData data = data.flatMap escapeChar := by
  unfold escapeData
  simp only [replaceAll_single, List.flatMap_assoc]
  congr 1
  funext c
  unfold escapeChar
  by_cases hq : c = quote
  · subst hq
    decide
  by_cases hd : c = dquote
  · subst hd
    decide
  by_cases hp : c = percent
  · subst hp
    decide
  by_cases hu : c = underscore
  · subst hu
    decide
  by_cases hs : c = semicolon
  · subst hs
    decide
  · simp [hq, hd, hp, hu, hs]

/-- Removing the semicolons first makes no difference. -/
theorem escapeData_filter (data : List Byte) :
    escapeData data = (data.filter (· ≠ semicolon)).flatMap escapeChar := by
  rw [escapeData_eq]
  induction data with
  | nil => rfl
  | cons c data ih =>
      rw [List.flatMap_cons, ih]
      by_cases hc : c = semicolon
      · rw [List.filter_cons_of_neg (by simp [hc]), escapeChar, if_pos hc, List.nil_append]
      · rw [List.filter_cons_of_pos (by simp [hc]), List.flatMap_cons]

/-! ## String literals -/

/-- What a backslash and the character behind it stand for. -/
def unescape (c : Byte) : List Byte :=
  if c = percent ∨ c = underscore then [backslash, c]
  else if c = 0x30 then [0x00]       -- \0
  else if c = 0x62 then [0x08]       -- \b
  else if c = 0x6E then [0x0A]       -- \n
  else if c = 0x72 then [0x0D]       -- \r
  else if c = 0x74 then [0x09]       -- \t
  else if c = 0x5A then [0x1A]       -- \Z
  else [c]

/-- Read a literal behind its opening quote: its value, and what follows the quote that
ends it. -/
def scan : List Byte → Option (List Byte × List Byte)
  | [] => none
  | [c] => if c = quote then some ([], []) else none
  | c :: d :: str =>
      if c = quote then some ([], d :: str)
      else if c = backslash then (scan str).map (fun r => (unescape d ++ r.1, r.2))
      else (scan (d :: str)).map (fun r => (c :: r.1, r.2))

theorem scan_quote (str : List Byte) : scan (quote :: str) = some ([], str) := by
  cases str with
  | nil => rfl
  | cons d str => rw [scan, if_pos rfl]

theorem scan_plain {c : Byte} (hq : c ≠ quote) (hb : c ≠ backslash) (str : List Byte) :
    scan (c :: str) = (scan str).map (fun r => (c :: r.1, r.2)) := by
  cases str with
  | nil =>
      have hone : scan [c] = if c = quote then some ([], []) else none := rfl
      rw [hone, if_neg hq]
      rfl
  | cons d str => rw [scan, if_neg hq, if_neg hb]

theorem scan_escape (d : Byte) (str : List Byte) :
    scan (backslash :: d :: str) = (scan str).map (fun r => (unescape d ++ r.1, r.2)) := by
  rw [scan, if_neg (by decide), if_pos rfl]

/-! ## Texts without quotes -/

theorem scan_eq_none {str : List Byte} (h : quote ∉ str) : scan str = none := by
  induction str using List.twoStepInduction with
  | nil => rfl
  | singleton c =>
      have hc : c ≠ quote := fun heq => h (heq ▸ List.mem_singleton_self c)
      exact if_neg hc
  | cons_cons c d str ih ih' =>
      have hc : c ≠ quote := fun heq => h (heq ▸ List.mem_cons_self)
      have hd : quote ∉ d :: str := fun hmem => h (List.mem_cons_of_mem c hmem)
      have hstr : quote ∉ str := fun hmem => hd (List.mem_cons_of_mem d hmem)
      rw [scan, if_neg hc, ih hstr, ih' d hd]
      split_ifs
      · rfl
      · rfl

/-- The literal of a text without quotes ends at the quote behind it, or nowhere. -/
theorem eq_of_scan {name rest : List Byte} {r : List Byte × List Byte} (hname : quote ∉ name)
    (hrest : quote ∉ rest) (h : scan (name ++ quote :: rest) = some r) : r.2 = rest := by
  induction name using List.twoStepInduction generalizing r with
  | nil =>
      rw [List.nil_append, scan_quote] at h
      rw [← Option.some.inj h]
  | singleton c =>
      have hc : c ≠ quote := fun heq => hname (heq ▸ List.mem_singleton_self c)
      rw [List.singleton_append] at h
      by_cases hb : c = backslash
      · -- a backslash takes the quote with it
        rw [hb, scan_escape, scan_eq_none hrest] at h
        exact absurd h (by simp)
      · rw [scan_plain hc hb, scan_quote] at h
        rw [← Option.some.inj h]
  | cons_cons c d name ih ih' =>
      have hc : c ≠ quote := fun heq => hname (heq ▸ List.mem_cons_self)
      have hd : quote ∉ d :: name := fun hmem => hname (List.mem_cons_of_mem c hmem)
      rw [List.cons_append] at h
      by_cases hb : c = backslash
      · rw [hb, List.cons_append, scan_escape] at h
        obtain ⟨r', hr', rfl⟩ := Option.map_eq_some_iff.mp h
        have hrest' : r'.2 = rest := ih (fun hmem => hd (List.mem_cons_of_mem d hmem)) hr'
        exact hrest'
      · rw [scan_plain hc hb] at h
        obtain ⟨r', hr', rfl⟩ := Option.map_eq_some_iff.mp h
        have hrest' : r'.2 = rest := ih' d hd hr'
        exact hrest'

/-! ## The literal of a string, piece by piece -/

/-- What the server writes behind its opening quote: the escaped string, its own closing
quote and the rest of the statement. -/
def literal (t rest : List Byte) : List Byte := t.flatMap escapeChar ++ quote :: rest

/-- The wildcard characters, which are escaped although a literal keeps the backslash. -/
def Wild (c : Byte) : Prop := c = percent ∨ c = underscore

/-- The characters that neither the passes nor `scan` treat specially. -/
def Plain (c : Byte) : Prop :=
  c ≠ backslash ∧ c ≠ quote ∧ c ≠ dquote ∧ ¬ Wild c ∧ c ≠ semicolon

theorem classify (c : Byte) :
    c = backslash ∨ c = quote ∨ c = dquote ∨ Wild c ∨ c = semicolon ∨ Plain c := by
  unfold Plain
  tauto

variable {c d : Byte} {t rest : List Byte}

theorem literal_nil : literal [] rest = quote :: rest := rfl

theorem literal_backslash : literal (backslash :: t) rest = backslash :: literal t rest := rfl

theorem literal_plain (h : Plain c) : literal (c :: t) rest = c :: literal t rest := by
  obtain ⟨-, hq, hd, hw, hs⟩ := h
  have hesc : escapeChar c = [c] := by
    unfold Wild at hw
    unfold escapeChar
    rw [if_neg hs, if_neg (by tauto)]
  rw [literal, List.flatMap_cons, hesc]
  rfl

theorem literal_wild (h : Wild c) :
    literal (c :: t) rest = backslash :: c :: literal t rest := by
  rcases h with rfl | rfl <;> rfl

theorem unescape_wild (h : Wild c) : unescape c = [backslash, c] := if_pos h

/-- Behind a backslash a plain character stands for one that is no backslash. -/
theorem unescape_plain (h : Plain c) : ∃ b, unescape c = [b] ∧ b ≠ backslash := by
  obtain ⟨hb, -, -, hw, -⟩ := h
  unfold Wild at hw
  unfold unescape
  rw [if_neg hw]
  split
  · exact ⟨_, rfl, by decide⟩
  split
  · exact ⟨_, rfl, by decide⟩
  split
  · exact ⟨_, rfl, by decide⟩
  split
  · exact ⟨_, rfl, by decide⟩
  split
  · exact ⟨_, rfl, by decide⟩
  split
  · exact ⟨_, rfl, by decide⟩
  · exact ⟨c, rfl, hb⟩

theorem scan_literal_plain (h : Plain c) :
    scan (literal (c :: t) rest)
      = (scan (literal t rest)).map (fun r => (c :: r.1, r.2)) := by
  rw [literal_plain h, scan_plain h.2.1 h.1]

/-- An escaped quote stands for itself. -/
theorem scan_literal_quote (h : c = quote ∨ c = dquote) :
    scan (literal (c :: t) rest)
      = (scan (literal t rest)).map (fun r => (c :: r.1, r.2)) := by
  rcases h with rfl | rfl
  · exact scan_escape quote (literal t rest)
  · exact scan_escape dquote (literal t rest)

/-- An escaped wildcard keeps its backslash. -/
theorem scan_literal_wild (h : Wild c) :
    scan (literal (c :: t) rest)
      = (scan (literal t rest)).map (fun r => (backslash :: c :: r.1, r.2)) := by
  rw [literal_wild h, scan_escape, unescape_wild h]
  rfl

/-- Two backslashes stand for one. -/
theorem scan_literal_two :
    scan (literal (backslash :: backslash :: t) rest)
      = (scan (literal t rest)).map (fun r => (backslash :: r.1, r.2)) :=
  scan_escape backslash (literal t rest)

/-- A backslash in front of a quote ends the literal there. -/
theorem scan_literal_backslash_quote :
    scan (literal (backslash :: quote :: t) rest) = some ([backslash], literal t rest) := by
  have hlit : literal (backslash :: quote :: t) rest
      = backslash :: backslash :: quote :: literal t rest := rfl
  rw [hlit, scan_escape, scan_quote]
  rfl

/-- A backslash in front of a character that is escaped itself stays. -/
theorem scan_literal_backslash_escaped (h : c = dquote ∨ Wild c) :
    scan (literal (backslash :: c :: t) rest)
      = (scan (literal t rest)).map (fun r => (backslash :: c :: r.1, r.2)) := by
  have hlit : literal (backslash :: c :: t) rest
      = backslash :: backslash :: c :: literal t rest := by
    rcases h with rfl | hw
    · rfl
    · rw [literal_backslash, literal_wild hw]
  have hq : c ≠ quote := by
    rcases h with rfl | rfl | rfl <;> decide
  have hb : c ≠ backslash := by
    rcases h with rfl | rfl | rfl <;> decide
  rw [hlit, scan_escape, scan_plain hq hb, Option.map_map]
  rfl

theorem scan_literal_backslash_plain (h : Plain c) :
    scan (literal (backslash :: c :: t) rest)
      = (scan (literal t rest)).map (fun r => (unescape c ++ r.1, r.2)) := by
  rw [literal_backslash, literal_plain h, scan_escape]

/-- A backslash at the end takes the server's quote with it. -/
theorem scan_literal_backslash_end :
    scan (literal [backslash] rest) = (scan rest).map (fun r => (quote :: r.1, r.2)) :=
  scan_escape quote rest

/-! ## Runs of backslashes -/

/-- The number of backslashes a string starts with. -/
def backslashes (t : List Byte) : ℕ := (t.takeWhile (· = backslash)).length

theorem backslashes_backslash : backslashes (backslash :: t) = backslashes t + 1 := by
  unfold backslashes
  rw [List.takeWhile_cons_of_pos (by decide), List.length_cons]

theorem backslashes_of_ne (h : c ≠ backslash) : backslashes (c :: t) = 0 := by
  unfold backslashes
  rw [List.takeWhile_cons_of_neg (by simp [h])]
  rfl

/-- A character in front of a result is one in front of a smaller result. -/
private theorem exists_of_map (pre : List Byte) {x : Option (List Byte × List Byte)}
    {v r : List Byte} (h : x.map (fun r => (pre ++ r.1, r.2)) = some (v, r)) :
    ∃ w, x = some (w, r) ∧ v = pre ++ w := by
  obtain ⟨⟨w, r'⟩, hx, heq⟩ := Option.map_eq_some_iff.mp h
  obtain ⟨rfl, rfl⟩ := Prod.mk.inj heq
  exact ⟨w, hx, rfl⟩

theorem Wild.ne_backslash (h : Wild c) : c ≠ backslash := by
  rcases h with rfl | rfl <;> decide

/-- One backslash at the start of a value. -/
private theorem backslashes_one (hc : c ≠ backslash) (w : List Byte) :
    backslashes ([backslash, c] ++ w) = 1 := by
  rw [List.cons_append, backslashes_backslash, List.singleton_append, backslashes_of_ne hc]

/-- A literal halves a run of backslashes, but for one in front of an escaped
character. -/
theorem backslashes_scan (hsemi : semicolon ∉ t) {v r : List Byte}
    (h : scan (literal t rest) = some (v, r)) : 2 * backslashes v ≤ backslashes t + 2 := by
  induction hn : t.length using Nat.strong_induction_on generalizing t v with
  | _ n ih =>
      cases t with
      | nil =>
          rw [literal_nil, scan_quote] at h
          obtain ⟨rfl, -⟩ := Prod.mk.inj (Option.some.inj h)
          exact Nat.zero_le _
      | cons c t =>
          have htail : semicolon ∉ t := fun hm => hsemi (List.mem_cons_of_mem c hm)
          rcases classify c with rfl | hq | hq | hw | rfl | hp
          · -- the string starts with backslashes: two at a time
            cases t with
            | nil =>
                rw [scan_literal_backslash_end] at h
                obtain ⟨w, -, rfl⟩ := exists_of_map [quote] h
                rw [List.singleton_append, backslashes_of_ne (by decide)]
                omega
            | cons d t =>
                have htail' : semicolon ∉ t := fun hm => htail (List.mem_cons_of_mem d hm)
                have hlen : t.length < n := by
                  rw [← hn, List.length_cons, List.length_cons]
                  omega
                rw [backslashes_backslash]
                rcases classify d with rfl | rfl | rfl | hw | rfl | hp
                · rw [scan_literal_two] at h
                  obtain ⟨w, hw, rfl⟩ := exists_of_map [backslash] h
                  have hrec := ih t.length hlen htail' hw rfl
                  rw [List.singleton_append, backslashes_backslash, backslashes_backslash]
                  omega
                · rw [scan_literal_backslash_quote] at h
                  obtain ⟨rfl, -⟩ := Prod.mk.inj (Option.some.inj h)
                  have hone : backslashes [backslash] = 1 := rfl
                  omega
                · rw [scan_literal_backslash_escaped (Or.inl rfl)] at h
                  obtain ⟨w, -, rfl⟩ := exists_of_map [backslash, dquote] h
                  rw [backslashes_one (by decide)]
                  omega
                · rw [scan_literal_backslash_escaped (Or.inr hw)] at h
                  obtain ⟨w, -, rfl⟩ := exists_of_map [backslash, d] h
                  rw [backslashes_one hw.ne_backslash]
                  omega
                · exact absurd List.mem_cons_self htail
                · obtain ⟨b, hb, hne⟩ := unescape_plain hp
                  rw [scan_literal_backslash_plain hp, hb] at h
                  obtain ⟨w, -, rfl⟩ := exists_of_map [b] h
                  rw [List.singleton_append, backslashes_of_ne hne]
                  omega
          · rw [scan_literal_quote (Or.inl hq)] at h
            obtain ⟨w, -, rfl⟩ := exists_of_map [c] h
            rw [List.singleton_append, backslashes_of_ne (by rw [hq]; decide)]
            omega
          · rw [scan_literal_quote (Or.inr hq)] at h
            obtain ⟨w, -, rfl⟩ := exists_of_map [c] h
            rw [List.singleton_append, backslashes_of_ne (by rw [hq]; decide)]
            omega
          · rw [scan_literal_wild hw] at h
            obtain ⟨w, -, rfl⟩ := exists_of_map [backslash, c] h
            rw [backslashes_one hw.ne_backslash]
            omega
          · exact absurd List.mem_cons_self hsemi
          · rw [scan_literal_plain hp] at h
            obtain ⟨w, -, rfl⟩ := exists_of_map [c] h
            rw [List.singleton_append, backslashes_of_ne hp.1]
            omega

/-! ## Which strings come through -/

/-- The literal of `t` ends at the server's quote and has the value `t`. -/
def Yields (t : List Byte) : Prop := ∀ rest, scan (literal t rest) = some (t, rest)

/-- **The strings that come through**: characters other than a backslash and the
wildcards, at most one backslash in front of a double quote, and one or two in front of
each wildcard. -/
inductive Harmless : List Byte → Prop
  | nil : Harmless []
  | char {c : Byte} {t : List Byte} :
      c ≠ backslash → ¬ Wild c → Harmless t → Harmless (c :: t)
  | dquote {t : List Byte} : Harmless t → Harmless (backslash :: dquote :: t)
  | wild {c : Byte} {t : List Byte} : Wild c → Harmless t → Harmless (backslash :: c :: t)
  | wild_two {c : Byte} {t : List Byte} :
      Wild c → Harmless t → Harmless (backslash :: backslash :: c :: t)

/-- A piece that stands for itself can be taken off. -/
theorem yields_append_iff (pre : List Byte)
    (h : ∀ rest, scan (literal (pre ++ t) rest)
      = (scan (literal t rest)).map (fun r => (pre ++ r.1, r.2))) :
    Yields (pre ++ t) ↔ Yields t := by
  unfold Yields
  constructor
  · intro hy rest
    have hrest := hy rest
    rw [h rest] at hrest
    obtain ⟨w, hw, heq⟩ := exists_of_map pre hrest
    rw [hw, ← List.append_cancel_left heq]
  · intro hy rest
    rw [h rest, hy rest]
    rfl

theorem yields_char_iff (hb : c ≠ backslash) (hw : ¬ Wild c) (hs : c ≠ semicolon) :
    Yields (c :: t) ↔ Yields t := by
  refine yields_append_iff [c] (fun rest => ?_)
  rcases classify c with h | h | h | h | h | h
  · exact absurd h hb
  · exact scan_literal_quote (Or.inl h)
  · exact scan_literal_quote (Or.inr h)
  · exact absurd h hw
  · exact absurd h hs
  · exact scan_literal_plain h

theorem yields_escaped_iff (h : c = dquote ∨ Wild c) :
    Yields (backslash :: c :: t) ↔ Yields t :=
  yields_append_iff [backslash, c] (fun _ => scan_literal_backslash_escaped h)

theorem yields_wild_two_iff (h : Wild c) :
    Yields (backslash :: backslash :: c :: t) ↔ Yields t := by
  refine yields_append_iff [backslash, backslash, c] (fun rest => ?_)
  have htwo : scan (literal (backslash :: backslash :: c :: t) rest)
      = (scan (literal (c :: t) rest)).map (fun r => (backslash :: r.1, r.2)) :=
    scan_literal_two
  rw [List.cons_append, List.cons_append, List.singleton_append, htwo, scan_literal_wild h,
    Option.map_map]
  rfl

theorem yields_of_harmless (h : Harmless t) (hsemi : semicolon ∉ t) : Yields t := by
  induction h with
  | nil => exact fun rest => scan_quote rest
  | @char c t hb hw _ ih =>
      have hs : c ≠ semicolon := fun heq => hsemi (heq ▸ List.mem_cons_self)
      exact (yields_char_iff hb hw hs).mpr (ih (fun hm => hsemi (List.mem_cons_of_mem c hm)))
  | dquote _ ih =>
      refine (yields_escaped_iff (Or.inl rfl)).mpr (ih (fun hm => hsemi ?_))
      exact List.mem_cons_of_mem _ (List.mem_cons_of_mem _ hm)
  | wild hw _ ih =>
      refine (yields_escaped_iff (Or.inr hw)).mpr (ih (fun hm => hsemi ?_))
      exact List.mem_cons_of_mem _ (List.mem_cons_of_mem _ hm)
  | wild_two hw _ ih =>
      refine (yields_wild_two_iff hw).mpr (ih (fun hm => hsemi ?_))
      exact List.mem_cons_of_mem _ (List.mem_cons_of_mem _ (List.mem_cons_of_mem _ hm))

/-- A run of three backslashes comes out shorter. -/
theorem not_yields_three (hsemi : semicolon ∉ t) :
    ¬ Yields (backslash :: backslash :: backslash :: t) := by
  intro h
  have hsemi' : semicolon ∉ backslash :: backslash :: backslash :: t := by
    intro hm
    rcases List.mem_cons.mp hm with heq | hm
    · exact absurd heq (by decide)
    rcases List.mem_cons.mp hm with heq | hm
    · exact absurd heq (by decide)
    rcases List.mem_cons.mp hm with heq | hm
    · exact absurd heq (by decide)
    · exact hsemi hm
  have hrun := backslashes_scan hsemi' (h [])
  rw [backslashes_backslash, backslashes_backslash, backslashes_backslash] at hrun
  omega

/-- Two backslashes in front of anything but a wildcard come out as one. -/
theorem not_yields_two (hb : c ≠ backslash) (hw : ¬ Wild c) (hs : c ≠ semicolon) :
    ¬ Yields (backslash :: backslash :: c :: t) := by
  intro h
  have hnil := h []
  rw [scan_literal_two] at hnil
  obtain ⟨w, hscan, heq⟩ := exists_of_map [backslash] hnil
  rw [List.singleton_append] at heq
  have hw' : w = backslash :: c :: t := (List.cons.inj heq).2.symm
  -- the value of the rest starts with `c`
  have hhead : scan (literal (c :: t) []) = (scan (literal t [])).map
      (fun r => (c :: r.1, r.2)) := by
    rcases classify c with h | h | h | h | h | h
    · exact absurd h hb
    · exact scan_literal_quote (Or.inl h)
    · exact scan_literal_quote (Or.inr h)
    · exact absurd h hw
    · exact absurd h hs
    · exact scan_literal_plain h
  rw [hhead] at hscan
  obtain ⟨w', -, hcons⟩ := exists_of_map [c] hscan
  rw [hw', List.singleton_append] at hcons
  exact hb (List.cons.inj hcons).1.symm

/-- **Nothing else comes through.** -/
theorem harmless_of_yields (h : Yields t) (hsemi : semicolon ∉ t) : Harmless t := by
  induction hn : t.length using Nat.strong_induction_on generalizing t with
  | _ n ih =>
      have hrec : ∀ u : List Byte, u.length < n → Yields u → semicolon ∉ u → Harmless u :=
        fun u hu hy hs => ih u.length hu hy hs rfl
      cases t with
      | nil => exact Harmless.nil
      | cons c t =>
          rw [List.length_cons] at hn
          have htail : semicolon ∉ t := fun hm => hsemi (List.mem_cons_of_mem c hm)
          have hs : c ≠ semicolon := fun heq => hsemi (heq ▸ List.mem_cons_self)
          by_cases hb : c = backslash
          · subst hb
            cases t with
            | nil =>
                -- the server's quote is escaped
                have hend := h [quote]
                rw [scan_literal_backslash_end, scan_quote] at hend
                cases hend
            | cons d t =>
                rw [List.length_cons] at hn
                have htail' : semicolon ∉ t := fun hm => htail (List.mem_cons_of_mem d hm)
                rcases classify d with rfl | rfl | rfl | hw | rfl | hp
                · cases t with
                  | nil =>
                      have hend := h []
                      rw [scan_literal_two, literal_nil, scan_quote] at hend
                      cases hend
                  | cons e t =>
                      rw [List.length_cons] at hn
                      have hs' : e ≠ semicolon := fun heq => htail' (heq ▸ List.mem_cons_self)
                      have htail'' : semicolon ∉ t :=
                        fun hm => htail' (List.mem_cons_of_mem e hm)
                      by_cases hw : Wild e
                      · exact Harmless.wild_two hw
                          (hrec t (by omega) ((yields_wild_two_iff hw).mp h) htail'')
                      · by_cases hb : e = backslash
                        · subst hb
                          exact absurd h (not_yields_three htail'')
                        · exact absurd h (not_yields_two hb hw hs')
                · -- the quote ends the literal
                  have hend := h []
                  rw [scan_literal_backslash_quote] at hend
                  cases hend
                · exact Harmless.dquote
                    (hrec t (by omega) ((yields_escaped_iff (Or.inl rfl)).mp h) htail')
                · exact Harmless.wild hw
                    (hrec t (by omega) ((yields_escaped_iff (Or.inr hw)).mp h) htail')
                · exact absurd List.mem_cons_self htail
                · -- the backslash is gone
                  obtain ⟨b, hb, hne⟩ := unescape_plain hp
                  have hnil := h []
                  rw [scan_literal_backslash_plain hp, hb] at hnil
                  obtain ⟨w, -, heq⟩ := exists_of_map [b] hnil
                  rw [List.singleton_append] at heq
                  exact absurd (List.cons.inj heq).1.symm hne
          · by_cases hw : Wild c
            · -- a backslash is left in front of the wildcard
              have hnil := h []
              rw [scan_literal_wild hw] at hnil
              obtain ⟨w, -, heq⟩ := exists_of_map [backslash, c] hnil
              exact absurd (List.cons.inj heq).1 hb
            · exact Harmless.char hb hw
                (hrec t (by omega) ((yields_char_iff hb hw hs).mp h) htail)

/-- **When escaping is right.** Between single quotes, the escaped string is one literal
that ends at the server's own quote and has the string without its semicolons as value,
if and only if that string is `Harmless`. -/
theorem escapeData_literal_iff (s : List Byte) :
    (∀ rest, scan (escapeData s ++ quote :: rest)
      = some (s.filter (· ≠ semicolon), rest)) ↔ Harmless (s.filter (· ≠ semicolon)) := by
  rw [escapeData_filter]
  have hsemi : semicolon ∉ s.filter (· ≠ semicolon) := by
    intro hm
    have hne := List.of_mem_filter hm
    simp at hne
  constructor
  · intro h
    exact harmless_of_yields h hsemi
  · intro h
    exact yields_of_harmless h hsemi

/-- A backslash and a quote: the literal ends in front of what the client wrote behind
them. -/
theorem not_escapeData_literal_sample :
    ¬ ∀ s : List Byte, 0 ∉ s → ∀ rest, scan (escapeData s ++ quote :: rest)
      = some (s.filter (· ≠ semicolon), rest) := by
  intro h
  have hs := h [backslash, quote] (by decide) []
  rw [escapeData_eq] at hs
  have hscan : scan ([backslash, quote].flatMap escapeChar ++ quote :: [])
      = some ([backslash], [quote]) := by decide
  rw [hscan] at hs
  exact absurd hs (by decide)

end OsIrose.Escape

/-
The search in the file names of the scripts: `ScriptLoader::get_fuzzy_files` and the list
`files_` that `load_script` keeps for it, `map/src/script_loader.cpp`.

A script can `include` another one, which is loaded before the script goes on, so what runs
in a `load_script` is a tree (`Trace`). `load_script` asks whether the vectors have anything
after it has moved all that have something to their maps. So no file is ever listed
(`files_foldl_loadTrace`). `get_fuzzy_files` starts with `max_res` empty names and appends the
names of `max_res` matches, however many there are (`empty_mem_getFuzzyFiles`). What both are
to do, they do only if there is nothing to list and nothing is asked for (`search_iff`).
-/
import OsIrose.ScriptLoader

set_option autoImplicit false

namespace OsIrose.ScriptLoader

/-! ## Scripts that include scripts -/

/-- What happens while a script runs. -/
inductive Trace
  /-- The script ends or fails. -/
  | done
  | call (c : Call) (rest : Trace)
  /-- `include`: another script is loaded; `fails` if that one ends with a Lua error. -/
  | load (path : String) (body : Trace) (fails : Bool) (rest : Trace)

/-- A call of `load_script`. -/
structure Load where
  path : String
  body : Trace
  fails : Bool

section Exec

variable (env : Env)

/-- A script, from its `n`-th call on. -/
def exec (path : String) : ℕ → Trace → ScriptLoader → Vectors → ScriptLoader × Vectors
  | _, .done, l, made => (l, made)
  | n, .call c rest, l, made =>
      let (l, made) := call env path n c l made
      exec path (n + 1) rest l made
  | n, .load path' body fails rest, l, made =>
      let moved := { l with tracked := fun k => Function.update (l.tracked k) path' [] }
      let (l', made') := exec path' 0 body moved (fun k => l.tracked k path')
      exec path n rest (if fails then l' else track path' made' l') made

/-- `load_script`. -/
def loadTrace (l : ScriptLoader) (load : Load) : ScriptLoader :=
  let moved := { l with tracked := fun k => Function.update (l.tracked k) load.path [] }
  let (l', made) := exec env load.path 0 load.body moved (fun k => l.tracked k load.path)
  if load.fails then l' else track load.path made l'

/-- What a script without `include` does. -/
def Trace.ofCalls : List Call → Trace
  | [] => .done
  | c :: cs => .call c (ofCalls cs)

/-- There is a call for this map in the script itself. -/
def Trace.registers : Trace → Bool
  | .done => false
  | .call c rest => c.mapId = env.mapId || rest.registers
  | .load _ _ _ rest => rest.registers

/-- The files loaded without an error that registered something. -/
def Trace.registered : Trace → List String
  | .done => []
  | .call _ rest => rest.registered
  | .load path body fails rest =>
      body.registered ++ (if fails = false ∧ body.registers env then [path] else []) ++
        rest.registered

def Load.registered (load : Load) : List String :=
  Trace.registered env (.load load.path load.body load.fails .done)

end Exec

/-! ## `Core::fuzzy_match` and `get_fuzzy_files` -/

structure FuzzyMatch where
  index : ℕ
  score : ℤ

/-- Some matches over the files, the best first. -/
structure Matches (files : List String) where
  list : List FuzzyMatch
  index_lt : ∀ m ∈ list, m.index < files.length
  nodup : (list.map FuzzyMatch.index).Nodup
  sorted : list.Pairwise fun m m' => m'.score ≤ m.score

/-- The loop of `get_fuzzy_files`; `none` after a read past the end of a vector. -/
def pushMatches (files : List String) (res : List FuzzyMatch) :
    (max_res : ℕ) → (i : ℕ) → (ret : List String) → Option (List String)
  | 0, _, ret => some ret
  | max_res + 1, i, ret => do
      let m ← res[i]?
      let file ← files[m.index]?
      pushMatches files res max_res (i + 1) (ret ++ [file])

/-- `get_fuzzy_files`, with what `fuzzy_match` finds. -/
def getFuzzyFiles (files : List String) (res : List FuzzyMatch) (max_res : ℕ) :
    Option (List String) :=
  pushMatches files res max_res 0 (List.replicate max_res "")

/-! ## What they are for -/

/-- Each file that registered something is listed once. -/
structure Lists (files registered : List String) : Prop where
  nodup : files.Nodup
  mem_iff : ∀ path, path ∈ files ↔ path ∈ registered

/-- The names are those of the best matches, as many as there are and are asked for. -/
structure Finds (files : List String) (res : List FuzzyMatch) (max_res : ℕ)
    (names : List String) : Prop where
  length : names.length = min max_res res.length
  best : names.map some = (res.take max_res).map fun m => files[m.index]?
  nonempty : "" ∉ names

/-! ## No file is listed -/

section Files

variable {env : Env}

theorem leftOf_eq_nil (made : Vectors) (k : Kind) : leftOf made k = [] := by
  unfold leftOf
  split_ifs with h
  · exact h
  · rfl

/-- Every vector is empty when it is looked at. -/
theorem track_files (path : String) (made : Vectors) (l : ScriptLoader) :
    (track path made l).files = l.files := by
  simp [track, leftOf_eq_nil]

theorem call_files (path : String) (n : ℕ) (c : Call) (l : ScriptLoader) (made : Vectors) :
    (call env path n c l made).1.files = l.files := by
  unfold call
  split_ifs
  · rfl
  · cases hkind : c.kind <;> rfl

theorem exec_files (t : Trace) (path : String) (n : ℕ) (l : ScriptLoader) (made : Vectors) :
    (exec env path n t l made).1.files = l.files := by
  induction t generalizing path n l made with
  | done => rfl
  | call c rest ih =>
      rw [exec]
      exact (ih _ _ _ _).trans (call_files path n c l made)
  | load path' body fails rest ihbody ihrest =>
      rw [exec]
      refine (ihrest _ _ _ _).trans ?_
      split_ifs
      · exact ihbody _ _ _ _
      · exact (track_files _ _ _).trans (ihbody _ _ _ _)

theorem files_loadTrace (l : ScriptLoader) (load : Load) :
    (loadTrace env l load).files = l.files := by
  unfold loadTrace
  split_ifs
  · exact exec_files _ _ _ _ _
  · exact (track_files _ _ _).trans (exec_files _ _ _ _ _)

/-- **Whatever is loaded, no file is listed.** -/
theorem files_foldl_loadTrace (history : List Load) :
    (history.foldl (loadTrace env) start).files = [] := by
  suffices h : ∀ l, (history.foldl (loadTrace env) l).files = l.files from h start
  induction history with
  | nil => exact fun _ => rfl
  | cons load history ih => exact fun l => (ih _).trans (files_loadTrace l load)

/-- On scripts without `include` this is `loadScript`. -/
theorem loadTrace_ofCalls (path : String) (l : ScriptLoader) :
    loadTrace env l ⟨path, Trace.ofCalls (env.scripts path).calls, (env.scripts path).fails⟩ =
      loadScript env path l := by
  have hrun : ∀ (cs : List Call) (n : ℕ) (l : ScriptLoader) (made : Vectors),
      exec env path n (Trace.ofCalls cs) l made = run env path n cs l made := by
    intro cs
    induction cs with
    | nil => exact fun _ _ _ => rfl
    | cons c cs ih => exact fun n l made => ih _ _ _
  simp only [loadTrace, loadScript, hrun]

end Files

/-! ## The search -/

section Search

variable {files names : List String} {res : List FuzzyMatch}

/-- The names are appended to those that are there. -/
theorem prefix_pushMatches {max_res i : ℕ} {ret : List String}
    (h : pushMatches files res max_res i ret = some names) : ret <+: names := by
  induction max_res generalizing i ret with
  | zero => exact Option.some.inj h ▸ List.prefix_refl _
  | succ max_res ih =>
      simp only [pushMatches, Option.bind_eq_bind, Option.bind_eq_some_iff] at h
      obtain ⟨m, _, file, _, hrest⟩ := h
      exact (List.prefix_append ret [file]).trans (ih hrest)

/-- The first name is empty, if any is asked for. -/
theorem empty_mem_getFuzzyFiles {max_res : ℕ}
    (h : getFuzzyFiles files res (max_res + 1) = some names) : "" ∈ names :=
  (prefix_pushMatches h).subset (List.mem_replicate.mpr ⟨Nat.succ_ne_zero _, rfl⟩)

theorem finds_iff {max_res : ℕ} :
    (∃ names, getFuzzyFiles files res max_res = some names ∧ Finds files res max_res names) ↔
      max_res = 0 := by
  constructor
  · rintro ⟨names, hnames, hfinds⟩
    cases max_res with
    | zero => rfl
    | succ max_res => exact absurd (empty_mem_getFuzzyFiles hnames) hfinds.nonempty
  · rintro rfl
    exact ⟨[], rfl, (Nat.zero_min _).symm, rfl, List.not_mem_nil⟩

/-- **When the list and the search are right**: if and only if no script registered anything
and no name is asked for. -/
theorem search_iff (env : Env) (history : List Load)
    (fuzzyMatch : (files : List String) → (pattern : String) → Matches files) (pattern : String)
    (max_res : ℕ) :
    (Lists (history.foldl (loadTrace env) start).files (history.flatMap (Load.registered env)) ∧
      ∃ names, getFuzzyFiles (history.foldl (loadTrace env) start).files
          (fuzzyMatch (history.foldl (loadTrace env) start).files pattern).list max_res =
            some names ∧
        Finds (history.foldl (loadTrace env) start).files
          (fuzzyMatch (history.foldl (loadTrace env) start).files pattern).list max_res names) ↔
      history.flatMap (Load.registered env) = [] ∧ max_res = 0 := by
  rw [finds_iff, files_foldl_loadTrace]
  refine and_congr_left fun _ => ⟨fun h => ?_, fun h => ?_⟩
  · exact List.eq_nil_iff_forall_not_mem.mpr fun path hpath =>
      List.not_mem_nil ((h.mem_iff path).mpr hpath)
  · rw [h]
    exact ⟨List.nodup_nil, fun _ => Iff.rfl⟩

/-- A script with an NPC is loaded: it is not listed. -/
theorem not_lists_npc :
    ¬ Lists ([⟨"npc.lua", .call ⟨.npc, 1⟩ .done, false⟩].foldl (loadTrace sampleEnv) start).files
      ([⟨"npc.lua", .call ⟨.npc, 1⟩ .done, false⟩].flatMap (Load.registered sampleEnv)) := by
  intro h
  have hmem := (h.mem_iff "npc.lua").mpr (by simp [Load.registered, Trace.registered,
    Trace.registers, sampleEnv])
  rw [files_foldl_loadTrace] at hmem
  exact List.not_mem_nil hmem

end Search

end OsIrose.ScriptLoader

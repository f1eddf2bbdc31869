/-
The scripts of a map server, loaded again and again: `map/src/script_loader.cpp`.

How often the calls of a file have been made, of each kind, since what they created was last
destroyed, is a `Tally`. To load a file makes its calls once more. `load_npcs` destroys the
NPCs of every file that it has NPCs of, and makes all calls of the file again, those of
`warp_gate` and `mob` as well. A file that fails is in no map, whatever it created.

After an update every call of the files that are loaded has one entity, which is tracked, if
and only if the tally is one for every kind that a file calls, and no file that fails has
created anything (`exact_iff`).
-/
import OsIrose.ScriptLoader

set_option autoImplicit false

namespace OsIrose.ScriptLoader

open Function
open MapServer (Entity)

/-- The file has a call of the kind for this map. -/
def Env.Makes (env : Env) (kind : Kind) (path : String) : Prop :=
  ∃ c ∈ (env.scripts path).calls, c.mapId = env.mapId ∧ c.kind = kind

instance (env : Env) (kind : Kind) (path : String) : Decidable (env.Makes kind path) :=
  inferInstanceAs (Decidable (∃ c ∈ _, _))

/-- How often the calls of a kind have been made since what they created was destroyed. -/
abbrev Tally := Kind → String → ℕ

/-- The file is among those of `reload`: it was loaded, and has a call of the kind. -/
def Tally.Has (t : Tally) (env : Env) (kind : Kind) (path : String) : Prop :=
  0 < t kind path ∧ (env.scripts path).fails = false ∧ env.Makes kind path

instance (t : Tally) (env : Env) (kind : Kind) (path : String) :
    Decidable (t.Has env kind path) :=
  inferInstanceAs (Decidable (_ ∧ _))

def Tally.load (t : Tally) (path : String) : Tally :=
  fun kind path' => if path' = path then t kind path' + 1 else t kind path'

def Tally.reload (t : Tally) (env : Env) (kind : Kind) : Tally :=
  fun kind' path =>
    if t.Has env kind path then if kind' = kind then 1 else t kind' path + 1 else t kind' path

def Tally.next (env : Env) (t : Tally) : Event → Tally
  | .loadScript path => t.load path
  | .loadNpcs => t.reload env .npc
  | .loadWarpgates => t.reload env .warpGate
  | .loadSpawners => t.reload env .mob
  | .world _ _ => t

/-- The tally of a run. -/
def tally (env : Env) (es : List Event) : Tally :=
  es.foldl (Tally.next env) (fun _ _ => 0)

/-! ## One file -/

section File

variable {env : Env} {l : ScriptLoader} {path : String} {count : String → ℕ → ℕ}

/-- The vectors of all files while one is loaded. -/
def vectors (l : ScriptLoader) (path : String) (made : Vectors) :
    Kind → String → List (Option Entity) :=
  fun k => update (l.tracked k) path (made k)

/-- One more entity in the vector of a kind. -/
theorem mem_vectors_push {l l' : ScriptLoader} (htracked : l'.tracked = l.tracked) {made : Vectors}
    {kind k : Kind} {path' : String} {o : Option Entity} {e : Entity} :
    some e ∈ vectors l' path (update made kind (made kind ++ [o])) k path' ↔
      some e ∈ vectors l path made k path' ∨ k = kind ∧ path' = path ∧ o = some e := by
  unfold vectors
  rw [htracked]
  by_cases hpath : path' = path
  · subst hpath
    by_cases hkind : k = kind
    · subst hkind
      simp [eq_comm]
    · simp [hkind]
  · simp [hpath]

theorem kindOf_of_call {n : ℕ} {c : Call} (hc : (env.scripts path).calls[n]? = some c) :
    env.kindOf path n = if c.mapId = env.mapId ∧ c.kind ≠ .mob then some c.kind else none := by
  simp only [Env.kindOf, hc]

/-- A call that creates an entity. -/
theorem ledger_adopt {n : ℕ} {kind : Kind} {made : Vectors} {r : Registry}
    (hkind : env.kindOf path n = some kind) (hr : Created l.registry r)
    (h : Ledger env l (vectors l path made) count) :
    Ledger env (adopt path n r l)
      (vectors (adopt path n r l) path
        (update made kind (made kind ++ [some l.registry.created])))
      (fun path' i => if path' = path ∧ i = n ∧ (env.kindOf path' i).isSome then
        count path' i + 1 else count path' i) := by
  refine (h.adopt hr hkind fun k' path' e => ?_).congr (fun _ _ _ => Iff.rfl) fun path' i => ?_
  · refine (mem_vectors_push (l := l) rfl).trans ?_
    simp [eq_comm]
  · by_cases hthis : path' = path ∧ i = n
    · obtain ⟨rfl, rfl⟩ := hthis
      simp [hkind]
    · simp only [hthis, if_false, ite_eq_right_iff]
      exact fun h => absurd ⟨h.1, h.2.1⟩ hthis

/-- The `n`-th call. -/
theorem ledger_call {n : ℕ} {c : Call} {made : Vectors}
    (hc : (env.scripts path).calls[n]? = some c) (h : Ledger env l (vectors l path made) count) :
    Ledger env (call env path n c l made).1
        (vectors (call env path n c l made).1 path (call env path n c l made).2)
        (fun path' i => if path' = path ∧ i = n ∧ (env.kindOf path' i).isSome then
          count path' i + 1 else count path' i) := by
  -- a call that creates nothing counts for nothing
  have hnone : env.kindOf path n = none → ∀ path' i,
      (if path' = path ∧ i = n ∧ (env.kindOf path' i).isSome then
        count path' i + 1 else count path' i) = count path' i := by
    intro hkind path' i
    refine if_neg ?_
    rintro ⟨rfl, rfl, hsome⟩
    simp [hkind] at hsome
  by_cases hmap : c.mapId = env.mapId
  · have hkind := kindOf_of_call hc
    cases hk : c.kind with
    | npc =>
        simp only [call, hmap, ne_eq, not_true_eq_false, if_false, hk, create]
        simp only [hmap, hk, ne_eq, reduceCtorEq, not_false_eq_true, and_self, if_true] at hkind
        exact ledger_adopt hkind (created_createNpc h.inv) h
    | warpGate =>
        simp only [call, hmap, ne_eq, not_true_eq_false, if_false, hk, create]
        simp only [hmap, hk, ne_eq, reduceCtorEq, not_false_eq_true, and_self, if_true] at hkind
        exact ledger_adopt hkind (created_createWarpgate h.inv) h
    | mob =>
        simp only [call, hmap, ne_eq, not_true_eq_false, if_false, hk, create]
        simp only [hk, ne_eq, not_true_eq_false, and_false, if_false] at hkind
        refine h.congr (fun k' path' e => ?_) (hnone hkind)
        rw [mem_vectors_push rfl]
        simp
  · simp only [call, hmap, ne_eq, not_false_eq_true, if_true]
    exact h.congr (fun _ _ _ => Iff.rfl) (hnone (by simp [kindOf_of_call hc, hmap]))

/-- The maps are as they were, and a vector is longer if the call is of its kind. -/
theorem call_fields (env : Env) (path : String) (n : ℕ) (c : Call) (l : ScriptLoader)
    (made : Vectors) :
    (call env path n c l made).1.tracked = l.tracked ∧
      (call env path n c l made).1.keys = l.keys ∧
      ∀ k, (call env path n c l made).2 k = [] ↔
        made k = [] ∧ ¬ (c.mapId = env.mapId ∧ c.kind = k) := by
  by_cases hmap : c.mapId = env.mapId
  · have hpush : ∀ (o : Option Entity) (k : Kind),
        update made c.kind (made c.kind ++ [o]) k = [] ↔ made k = [] ∧ ¬ c.kind = k := by
      intro o k
      by_cases hk : k = c.kind
      · subst hk
        simp
      · simp [hk, Ne.symm hk]
    simp only [call, hmap, ne_eq, not_true_eq_false, if_false, true_and]
    cases hk : c.kind <;> exact ⟨rfl, rfl, hk ▸ hpush _⟩
  · simp [call, hmap]

/-- The calls from the `n`-th on. -/
theorem ledger_run (cs : List Call) : ∀ (n : ℕ) (l : ScriptLoader) (made : Vectors)
    (count : String → ℕ → ℕ), (env.scripts path).calls.drop n = cs →
    Ledger env l (vectors l path made) count →
    Ledger env (run env path n cs l made).1
      (vectors (run env path n cs l made).1 path (run env path n cs l made).2)
      (fun path' i => if path' = path ∧ n ≤ i ∧ (env.kindOf path' i).isSome then
        count path' i + 1 else count path' i) := by
  induction cs with
  | nil =>
      intro n l made count hcs h
      -- there are no calls left
      refine h.congr (fun _ _ _ => Iff.rfl) fun path' i => if_neg ?_
      rintro ⟨rfl, hle, hsome⟩
      have hlen := List.drop_eq_nil_iff.mp hcs
      simp [Env.kindOf, List.getElem?_eq_none (hlen.trans hle)] at hsome
  | cons c cs ih =>
      intro n l made count hcs h
      have hc : (env.scripts path).calls[n]? = some c := by
        rw [← Nat.add_zero n, ← List.getElem?_drop, hcs]
        rfl
      have hrest : (env.scripts path).calls.drop (n + 1) = cs := by
        rw [← List.drop_drop, hcs]
        rfl
      refine (ih (n + 1) _ _ _ hrest (ledger_call hc h)).congr (fun _ _ _ => Iff.rfl) ?_
      intro path' i
      -- a later call is another one
      by_cases hthis : path' = path ∧ (env.kindOf path' i).isSome
      · obtain ⟨rfl, hsome⟩ := hthis
        simp only [hsome, true_and, and_true]
        split_ifs <;> omega
      · have hno : ∀ p : Prop, ¬ (path' = path ∧ p ∧ (env.kindOf path' i).isSome) :=
          fun p h => hthis ⟨h.1, h.2.2⟩
        simp only [hno, if_false]

theorem run_fields (env : Env) (path : String) (cs : List Call) :
    ∀ (n : ℕ) (l : ScriptLoader) (made : Vectors),
    (run env path n cs l made).1.tracked = l.tracked ∧
      (run env path n cs l made).1.keys = l.keys ∧
      ∀ k, (run env path n cs l made).2 k = [] ↔
        made k = [] ∧ ∀ c ∈ cs, ¬ (c.mapId = env.mapId ∧ c.kind = k) := by
  induction cs with
  | nil => exact fun n l made => ⟨rfl, rfl, fun k => by simp [run]⟩
  | cons c cs ih =>
      intro n l made
      obtain ⟨htracked, hkeys, hmade⟩ := call_fields env path n c l made
      obtain ⟨htracked', hkeys', hmade'⟩ :=
        ih (n + 1) (call env path n c l made).1 (call env path n c l made).2
      refine ⟨htracked'.trans htracked, hkeys'.trans hkeys, fun k => ?_⟩
      rw [List.forall_mem_cons, ← and_assoc, ← hmade k]
      exact hmade' k

end File

/-! ## What is tracked -/

/-- What the tally says that there is of a call. -/
def Tally.count (t : Tally) (env : Env) (path : String) (i : ℕ) : ℕ :=
  (env.kindOf path i).elim 0 (fun kind => t kind path)

/-- The loader and the tally. -/
structure Tracks (env : Env) (l : ScriptLoader) (t : Tally) : Prop where
  ledger : Ledger env l l.tracked (t.count env)
  keys : ∀ kind path, path ∈ l.keys kind ↔ t.Has env kind path
  nonempty : ∀ kind path, l.tracked kind path ≠ [] → path ∈ l.keys kind

section Tracks

variable {env : Env} {l : ScriptLoader} {t : Tally}

theorem tracks_start : Tracks env start (fun _ _ => 0) where
  ledger := {
    inv := Registry.inv_start
    lt := fun _ h => absurd rfl h
    character := fun _ h => absurd rfl h
    kind := fun _ _ _ h => absurd h (by simp [start])
    count := fun path i => by
      have hnone : env.kindOf path i = none ∨ ∃ kind, env.kindOf path i = some kind := by
        cases env.kindOf path i <;> simp
      obtain hkind | ⟨kind, hkind⟩ := hnone <;>
        simp [Tally.count, hkind, standing, start, Registry.start]
    sound := fun _ _ _ h => absurd h List.not_mem_nil
    complete := fun _ _ _ _ _ _ h => absurd (mem_standing.mp h).1 (by simp [start]) }
  keys := fun kind path => iff_of_false (Finset.notMem_empty path) fun h => absurd h.1 (lt_irrefl 0)
  nonempty := fun _ _ h => absurd rfl h

/-- What is done with the vectors in the end. -/
theorem track_tracked (path : String) (made : Vectors) (l : ScriptLoader)
    (hmoved : ∀ kind, l.tracked kind path = []) :
    (track path made l).tracked = vectors l path made := by
  funext kind
  simp only [track, vectors]
  split_ifs with hmade
  · rw [hmade, ← hmoved kind, update_eq_self]
  · rfl

/-- What the calls of a file leave: the file has nothing, and the vectors are in `made`. -/
structure Ran (env : Env) (path : String) (l l' : ScriptLoader) (made : Vectors)
    (count : String → ℕ → ℕ) : Prop where
  ledger : Ledger env l' (vectors l' path made) count
  empty : ∀ kind, l'.tracked kind path = []
  other : ∀ kind path', path' ≠ path → l'.tracked kind path' = l.tracked kind path'
  keys : l'.keys = l.keys
  made : ∀ kind, made kind ≠ [] ↔ l.tracked kind path ≠ [] ∨ env.Makes kind path

theorem ran_loadScript {path : String} {count count' : String → ℕ → ℕ}
    (hledger : Ledger env l l.tracked count)
    (hcount : ∀ path' i, count' path' i =
      if path' = path ∧ (env.kindOf path' i).isSome then count path' i + 1 else count path' i) :
    ∃ l' made, Ran env path l l' made count' ∧
      loadScript env path l = if (env.scripts path).fails then l' else track path made l' := by
  let moved : ScriptLoader := { l with tracked := fun k => update (l.tracked k) path [] }
  have hmoved : Ledger env moved (vectors moved path (fun k => l.tracked k path)) count := by
    -- what is moved out is in `made`, so that together they are what there was
    have hall : vectors moved path (fun k => l.tracked k path) = l.tracked := by
      funext k
      simp [vectors, moved]
    rw [hall]
    exact { hledger with }
  have hrun := ledger_run _ 0 _ _ count List.drop_zero hmoved
  obtain ⟨htracked, hkeys, hmade⟩ := run_fields env path (env.scripts path).calls 0 moved
    (fun k => l.tracked k path)
  refine ⟨_, _, ⟨hrun.congr (fun _ _ _ => Iff.rfl) fun path' i => by simp [hcount],
    fun kind => ?_, fun kind path' hne => ?_, hkeys, fun kind => ?_⟩, rfl⟩
  · rw [htracked]
    exact update_self _ _ _
  · rw [htracked]
    exact update_of_ne hne _ _
  · rw [ne_eq, hmade kind, not_and_or, Env.Makes]
    simp

/-- The file ends with an error: the vectors are lost, with what was made before the error. -/
theorem Ran.tracks_failed {path : String} {l' : ScriptLoader} {made : Vectors} {t' : Tally}
    (h : Ran env path l l' made (t'.count env)) (hfails : (env.scripts path).fails = true)
    (hkeys : ∀ kind path', path' ∈ l.keys kind ↔ t'.Has env kind path')
    (hnonempty : ∀ kind path', l.tracked kind path' ≠ [] → path' ∈ l.keys kind) :
    Tracks env l' t' := by
  have hvectors : ∀ kind {path'}, path' ≠ path →
      vectors l' path made kind path' = l'.tracked kind path' :=
    fun kind _ hne => update_of_ne hne _ _
  refine ⟨{ h.ledger with sound := fun kind path' e he => ?_, complete := ?_ },
    fun kind path' => ?_, fun kind path' hne => ?_⟩
  · have hne : path' ≠ path := by
      rintro rfl
      simp [h.empty] at he
    exact h.ledger.sound kind path' e (hvectors kind hne ▸ he)
  · -- of a file that fails nothing has to be in a vector
    intro kind path' i e hfails' hkind he
    have hne : path' ≠ path := by
      rintro rfl
      simp [hfails] at hfails'
    exact hvectors kind hne ▸ h.ledger.complete kind path' i e hfails' hkind he
  · rw [h.keys]
    exact hkeys kind path'
  · have hne' : path' ≠ path := by
      rintro rfl
      exact hne (h.empty kind)
    rw [h.keys]
    exact hnonempty kind path' (h.other kind path' hne' ▸ hne)

/-- The file ends without an error: the vectors are put into the maps. -/
theorem Ran.tracks_done {path : String} {l' : ScriptLoader} {made : Vectors} {t' : Tally}
    (h : Ran env path l l' made (t'.count env))
    (hkeys : ∀ kind path', path' ∈ l.keys kind ∨ path' = path ∧ env.Makes kind path ↔
      t'.Has env kind path')
    (hnonempty : ∀ kind path', l.tracked kind path' ≠ [] → path' ∈ l.keys kind) :
    Tracks env (track path made l') t' := by
  have htrack := track_tracked path made l' h.empty
  have hmem : ∀ kind path', path' ∈ (track path made l').keys kind ↔
      path' ∈ l.keys kind ∨ path' = path ∧ made kind ≠ [] := by
    intro kind path'
    simp only [track, h.keys]
    split_ifs with hnil
    · simp [hnil]
    · simp [hnil, or_comm]
  refine ⟨htrack ▸ { h.ledger with }, fun kind path' => ?_, fun kind path' hne => ?_⟩
  · rw [hmem, ← hkeys, h.made]
    constructor
    · -- a file with something in its vector is in the map already
      rintro (hold | ⟨rfl, hold | hnew⟩)
      · exact Or.inl hold
      · exact Or.inl (hnonempty kind path' hold)
      · exact Or.inr ⟨rfl, hnew⟩
    · rintro (hold | ⟨rfl, hnew⟩)
      · exact Or.inl hold
      · exact Or.inr ⟨rfl, Or.inr hnew⟩
  · rw [hmem]
    rw [htrack] at hne
    by_cases hpath : path' = path
    · subst hpath
      exact Or.inr ⟨rfl, by simpa [vectors] using hne⟩
    · refine Or.inl (hnonempty kind path' ?_)
      simpa only [vectors, update_of_ne hpath, h.other kind path' hpath] using hne

/-- To load a file makes each of its calls once more. What the file had may have been destroyed
just before. -/
theorem tracks_loadScript {path : String} {count : String → ℕ → ℕ} {t' : Tally}
    (hledger : Ledger env l l.tracked count)
    (hkeys : ∀ kind path, path ∈ l.keys kind ↔ t.Has env kind path)
    (hnonempty : ∀ kind path, l.tracked kind path ≠ [] → path ∈ l.keys kind)
    (hcount : ∀ path' i, t'.count env path' i =
      if path' = path ∧ (env.kindOf path' i).isSome then count path' i + 1 else count path' i)
    (hhas : ∀ kind path', t'.Has env kind path' ↔ t.Has env kind path' ∨
      path' = path ∧ (env.scripts path).fails = false ∧ env.Makes kind path) :
    Tracks env (loadScript env path l) t' := by
  obtain ⟨l', made, hran, hload⟩ := ran_loadScript hledger hcount
  rw [hload]
  split_ifs with hfails
  · exact hran.tracks_failed hfails (fun kind path' => by simp [hhas, hkeys, hfails]) hnonempty
  · exact hran.tracks_done (fun kind path' => by simp [hhas, hkeys, hfails]) hnonempty

/-- `load_script` -/
theorem Tracks.load (h : Tracks env l t) (path : String) :
    Tracks env (loadScript env path l) (t.load path) := by
  refine tracks_loadScript h.ledger h.keys h.nonempty (fun path' i => ?_) fun kind path' => ?_
  · unfold Tally.count
    cases env.kindOf path' i <;> simp [Tally.load]
  · by_cases hpath : path' = path
    · subst hpath
      simp only [Tally.Has, Tally.load, if_true, Nat.zero_lt_succ, true_and]
      exact ⟨Or.inr, fun h => h.elim And.right id⟩
    · simp [Tally.Has, Tally.load, hpath]

/-- One file of `reload`. -/
def Tally.reloadFile (t : Tally) (kind : Kind) (path : String) : Tally :=
  fun kind' path' =>
    if path' = path then if kind' = kind then 1 else t kind' path' + 1 else t kind' path'

theorem Tracks.reloadFile (h : Tracks env l t) {kind : Kind} {path : String}
    (hpath : path ∈ l.keys kind) :
    Tracks env (reloadFile env path kind l) (t.reloadFile kind path) := by
  obtain ⟨hpos, hfails, hmakes⟩ := (h.keys kind path).mp hpath
  have hvectors : ∀ kind' path' o,
      o ∈ update l.tracked kind (update (l.tracked kind) path []) kind' path' ↔
        o ∈ l.tracked kind' path' ∧ ¬ (kind' = kind ∧ path' = path) := by
    intro kind' path' o
    by_cases hkind : kind' = kind
    · subst hkind
      by_cases hp : path' = path
      · subst hp
        simp
      · simp [hp]
    · simp [hkind]
  have hledger : Ledger env { l with
        registry := l.registry.bulkDestroy ((l.tracked kind path).filterMap id)
        tracked := update l.tracked kind (update (l.tracked kind) path []) }
      (update l.tracked kind (update (l.tracked kind) path []))
      (fun path' i => if path' = path ∧ env.kindOf path' i = some kind then 0
        else t.count env path' i) :=
    h.ledger.bulkDestroy hfails (fun kind' path' e => hvectors kind' path' (some e)) rfl rfl
  -- after the destruction, the rest is a load
  refine tracks_loadScript hledger h.keys (fun kind' path' hne => ?_) (fun path' i => ?_)
    fun kind' path' => ?_
  · obtain ⟨o, ho⟩ := List.exists_mem_of_ne_nil _ hne
    exact h.nonempty kind' path' (List.ne_nil_of_mem ((hvectors kind' path' o).mp ho).1)
  · unfold Tally.count
    cases hkind : env.kindOf path' i with
    | none => simp
    | some kind' =>
        by_cases hp : path' = path <;> by_cases hk : kind' = kind <;>
          simp [Tally.reloadFile, hp, hk]
  · by_cases hp : path' = path
    · subst hp
      have hpos' : 0 < t.reloadFile kind path' kind' path' := by
        simp only [Tally.reloadFile, if_true]
        split_ifs <;> omega
      simp only [Tally.Has, hpos', true_and]
      exact ⟨Or.inr, fun h => h.elim And.right id⟩
    · simp [Tally.Has, Tally.reloadFile, hp]

/-- Files of `reload`, one after another. -/
theorem Tracks.reloadFiles {kind : Kind} (paths : List String) : ∀ (l : ScriptLoader) (t : Tally),
    Tracks env l t → (∀ path ∈ paths, path ∈ l.keys kind) →
    Tracks env (paths.foldl (fun l path => ScriptLoader.reloadFile env path kind l) l)
      (paths.foldl (fun t path => t.reloadFile kind path) t) := by
  induction paths with
  | nil => exact fun l t h _ => h
  | cons path paths ih =>
      intro l t h hmem
      obtain ⟨hpath, hpaths⟩ := List.forall_mem_cons.mp hmem
      have hfile := h.reloadFile hpath
      -- the files to come are still in the map
      refine ih _ _ hfile fun path' hpath' => (hfile.keys kind path').mpr ?_
      obtain ⟨hpos, hrest⟩ := (h.keys kind path').mp (hpaths path' hpath')
      refine ⟨?_, hrest⟩
      simp only [Tally.reloadFile, if_true]
      split_ifs <;> omega

/-- The order of the files makes no difference. -/
theorem reloadFiles_eq (kind : Kind) (paths : List String) : ∀ (t : Tally), paths.Nodup →
    paths.foldl (fun t path => t.reloadFile kind path) t = fun kind' path =>
      if path ∈ paths then if kind' = kind then 1 else t kind' path + 1 else t kind' path := by
  induction paths with
  | nil => exact fun t _ => by simp
  | cons path paths ih =>
      intro t hnodup
      obtain ⟨hnotin, hnodup'⟩ := List.nodup_cons.mp hnodup
      funext kind' path'
      rw [List.foldl_cons, ih _ hnodup']
      by_cases hp : path' = path
      · subst hp
        simp [hnotin, Tally.reloadFile]
      · simp [Tally.reloadFile, hp]

/-- `load_npcs`, `load_warpgates` and `load_spawners` -/
theorem Tracks.reload (h : Tracks env l t) (kind : Kind) :
    Tracks env (reload env kind l) (t.reload env kind) := by
  have hfiles := Tracks.reloadFiles (env.order (l.keys kind)) l t h
    fun path hpath => (env.mem_order _ path).mp hpath
  rw [reloadFiles_eq kind _ t (env.order_nodup _)] at hfiles
  have htally : t.reload env kind = fun kind' path =>
      if path ∈ env.order (l.keys kind) then if kind' = kind then 1 else t kind' path + 1
      else t kind' path := by
    funext kind' path
    simp only [Tally.reload, env.mem_order, h.keys]
  exact htally ▸ hfiles

theorem tracks_next (b : Registry.Buckets) (h : Tracks env l t) (e : Event) :
    Tracks env (next env b l e) (Tally.next env t e) := by
  cases e with
  | loadScript path => exact h.load path
  | loadNpcs => exact h.reload .npc
  | loadWarpgates => exact h.reload .warpGate
  | loadSpawners => exact h.reload .mob
  | world e he => exact ⟨h.ledger.world he, h.keys, h.nonempty⟩

/-- **The loader keeps the tally.** -/
theorem tracks_run (env : Env) (b : Registry.Buckets) (es : List Event) :
    Tracks env (es.foldl (next env b) start) (tally env es) := by
  induction es using List.reverseRecOn with
  | nil => exact tracks_start
  | append_singleton es e ih =>
      rw [tally, List.foldl_append, List.foldl_append]
      exact tracks_next b ih e

end Tracks

/-! ## Every run -/

section Run

variable {env : Env} {b : Registry.Buckets} {es : List Event}

/-- A file counts from the first time that it is loaded. -/
theorem tally_pos_iff (env : Env) (kind : Kind) (path : String) :
    0 < tally env es kind path ↔ .loadScript path ∈ es := by
  induction es using List.reverseRecOn generalizing kind with
  | nil => simp [tally]
  | append_singleton es e ih =>
      have hreload : ∀ kind', 0 < (tally env es).reload env kind' kind path ↔
          .loadScript path ∈ es := by
        intro kind'
        unfold Tally.reload
        split_ifs with hhas
        · exact iff_of_true Nat.one_pos ((ih kind').mp hhas.1)
        · exact iff_of_true (Nat.succ_pos _) ((ih kind').mp hhas.1)
        · exact ih kind
      have hlast : tally env (es ++ [e]) = (tally env es).next env e := by simp [tally]
      rw [hlast, List.mem_append, List.mem_singleton]
      cases e with
      | loadScript path' =>
          rw [← ih kind]
          by_cases hpath : path = path' <;> simp [Tally.next, Tally.load, hpath]
      | loadNpcs => exact (hreload .npc).trans (by simp)
      | loadWarpgates => exact (hreload .warpGate).trans (by simp)
      | loadSpawners => exact (hreload .mob).trans (by simp)
      | world e he => exact (ih kind).trans (by simp)

/-- Every `npc` and `warp_gate` call of the files that were loaded without an error has one
entity, and every entity of a script is in a vector of its file. -/
structure Exact (env : Env) (es : List Event) (l : ScriptLoader) : Prop where
  one : ∀ path, .loadScript path ∈ es → (env.scripts path).fails = false →
    ∀ i kind, env.kindOf path i = some kind →
      ∃! e, (l.registry.components e).isSome ∧ l.origin e = some (path, i)
  tracked : ∀ e path i, (l.registry.components e).isSome → l.origin e = some (path, i) →
    some e ∈ l.tracked .npc path ∨ some e ∈ l.tracked .warpGate path

/-- The calls of every file that is loaded were made once since what they created was last
destroyed, and a file that fails creates nothing. -/
def RunsOnce (env : Env) (es : List Event) : Prop :=
  ∀ path, .loadScript path ∈ es → ∀ i kind, env.kindOf path i = some kind →
    (env.scripts path).fails = false ∧ tally env es kind path = 1

theorem kindOf_ne_mob (path : String) (i : ℕ) : env.kindOf path i ≠ some .mob := by
  intro h
  unfold Env.kindOf at h
  split at h
  · split_ifs at h with hc
    exact hc.2 (Option.some.inj h)
  · simp at h

theorem exact_iff_of_tracks {l : ScriptLoader} (htracks : Tracks env l (tally env es))
    (hdeletes : l.registry.deleteCommands = []) : Exact env es l ↔ RunsOnce env es := by
  have hstanding : ∀ {path i e}, e ∈ l.standing path i ↔
      (l.registry.components e).isSome ∧ l.origin e = some (path, i) := by
    intro path i e
    have hdue : ¬ l.registry.Due e := by
      rintro ⟨d, hd, _⟩
      simp [hdeletes] at hd
    rw [mem_standing, Registry.Standing, and_iff_left hdue, and_comm]
  have hcard : ∀ {path i kind}, env.kindOf path i = some kind →
      (l.standing path i).card = tally env es kind path := by
    intro path i kind hkind
    rw [htracks.ledger.count, Tally.count, hkind]
    rfl
  have hone : ∀ {path i kind}, env.kindOf path i = some kind →
      ((∃! e, (l.registry.components e).isSome ∧ l.origin e = some (path, i)) ↔
        tally env es kind path = 1) := by
    intro path i kind hkind
    rw [← hcard hkind, Finset.card_eq_one, Finset.singleton_iff_unique_mem]
    exact existsUnique_congr fun e => hstanding.symm
  constructor
  · intro h path hpath i kind hkind
    have hfails : (env.scripts path).fails = false := by
      -- what a file that fails creates would be tracked
      have hpos := hcard hkind ▸ (tally_pos_iff env kind path).mpr hpath
      obtain ⟨e, he⟩ := Finset.card_pos.mp hpos
      obtain ⟨halive, horigin⟩ := hstanding.mp he
      obtain hmem | hmem := h.tracked e path i halive horigin
      · exact ((htracks.keys _ path).mp (htracks.nonempty _ path (List.ne_nil_of_mem hmem))).2.1
      · exact ((htracks.keys _ path).mp (htracks.nonempty _ path (List.ne_nil_of_mem hmem))).2.1
    exact ⟨hfails, (hone hkind).mp (h.one path hpath hfails i kind hkind)⟩
  · intro h
    refine ⟨fun path hpath _ i kind hkind => (hone hkind).mpr (h path hpath i kind hkind).2,
      fun e path i halive horigin => ?_⟩
    have he := hstanding.mpr ⟨halive, horigin⟩
    obtain ⟨kind, hkind⟩ := Option.ne_none_iff_exists'.mp (htracks.ledger.kind e path i horigin)
    have hpos : 0 < tally env es kind path := hcard hkind ▸ Finset.card_pos.mpr ⟨e, he⟩
    have hfails := (h path ((tally_pos_iff env kind path).mp hpos) i kind hkind).1
    have hmem := htracks.ledger.complete kind path i e hfails hkind he
    cases kind with
    | npc => exact Or.inl hmem
    | warpGate => exact Or.inr hmem
    | mob => exact absurd hkind (kindOf_ne_mob path i)

/-- What an update leaves. -/
theorem tracks_update (env : Env) (b : Registry.Buckets) (es : List Event)
    (handled : List Registry.Handled) :
    Tracks env ((es ++ [Event.update handled]).foldl (next env b) start) (tally env es) ∧
      ((es ++ [Event.update handled]).foldl (next env b) start).registry.deleteCommands = [] := by
  have htally : tally env (es ++ [Event.update handled]) = tally env es := by
    simp [tally, Tally.next, Event.update]
  refine ⟨htally ▸ tracks_run env b _, ?_⟩
  rw [List.foldl_append]
  rfl

end Run

/-- **The entities are those of the scripts**, after any loads and an update, if and only if the
calls of every file were made once since what they created was last destroyed, and a file that
fails creates nothing. -/
theorem exact_iff (env : Env) (b : Registry.Buckets) (es : List Event)
    (handled : List Registry.Handled) :
    Exact env es ((es ++ [Event.update handled]).foldl (next env b) start) ↔ RunsOnce env es := by
  obtain ⟨htracks, hdeletes⟩ := tracks_update env b es handled
  exact exact_iff_of_tracks htracks hdeletes

/-- A file with an NPC and a warpgate, whose NPCs are loaded again: there is a second
warpgate. -/
theorem not_exact_sample : ¬ ∀ (env : Env) (b : Registry.Buckets) (es : List Event)
    (handled : List Registry.Handled),
    Exact env es ((es ++ [Event.update handled]).foldl (next env b) start) := by
  intro h
  let es : List Event := [.loadScript "map.lua", .update [], .loadNpcs]
  obtain ⟨htracks, hdeletes⟩ := tracks_update sampleEnv .least es []
  have honce := (exact_iff_of_tracks htracks hdeletes).mp (h sampleEnv .least es [])
  have htwice : tally sampleEnv es .warpGate "map.lua" = 2 := by decide
  have hwarp := (honce "map.lua" List.mem_cons_self 1 .warpGate rfl).2
  rw [htwice] at hwarp
  exact absurd hwarp (by decide)

end OsIrose.ScriptLoader

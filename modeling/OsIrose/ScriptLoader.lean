/-
The scripts of a map server: `map/src/script_loader.cpp`.

A script is the list of the calls of `npc`, `warp_gate` and `mob` that it makes before it ends
or fails. `load_npcs`, `load_warpgates` and `load_spawners` are one function for three maps
(`reload`). `create_spawner` creates no entity, so a spawner is none.

`origin` is not in the source: it has the file and the call that an entity comes from. Where
an entity is in no delete command it is `standing`. What is in `tracked` is standing, and what
a file that does not fail has standing is in `tracked` (`Ledger`), or in the vectors of the
function that loads the file, while it does.
-/
import OsIrose.Lookup

set_option autoImplicit false

namespace OsIrose.ScriptLoader

open Function
open MapServer (Entity)

inductive Kind
  | npc
  | warpGate
  | mob
  deriving DecidableEq

/-- A call of `npc`, `warp_gate` or `mob`. -/
structure Call where
  kind : Kind
  mapId : ℤ

structure Script where
  calls : List Call
  /-- There is a Lua error after these calls. -/
  fails : Bool := false

structure Env where
  scripts : String → Script
  mapId : ℤ
  /-- The order of the buckets of an `unordered_map`. -/
  order : Finset String → List String
  order_nodup : ∀ keys, (order keys).Nodup
  mem_order : ∀ keys path, path ∈ order keys ↔ path ∈ keys

end ScriptLoader

open ScriptLoader MapServer

/-- A `ScriptLoader`, and its `EntitySystem`. -/
structure ScriptLoader where
  registry : Registry := Registry.start
  files : List String := []
  /-- The files that `npc_files_`, `warpgate_files_` and `spawner_files_` have. -/
  keys : Kind → Finset String := fun _ => ∅
  /-- What they have for them. -/
  tracked : Kind → String → List (Option Entity) := fun _ _ => []
  origin : Entity → Option (String × ℕ) := fun _ => none

namespace ScriptLoader

open Function

/-- The vectors `npcs`, `warpgates` and `spawners`. -/
abbrev Vectors := Kind → List (Option Entity)

section Load

variable (env : Env) (path : String)

/-- A registry with one more entity, which the `n`-th call created. -/
def adopt (n : ℕ) (r : Registry) (l : ScriptLoader) : ScriptLoader :=
  { l with
    registry := r
    origin := update l.origin l.registry.created (some (path, n)) }

/-- What is created by a call. -/
def create (n : ℕ) (kind : Kind) (l : ScriptLoader) : Option Entity × ScriptLoader :=
  match kind with
  | .npc => (some l.registry.created, adopt path n l.registry.createNpc l)
  | .warpGate => (some l.registry.created, adopt path n l.registry.createWarpgate l)
  | .mob => (none, l)

/-- The `n`-th call. -/
def call (n : ℕ) (c : Call) (l : ScriptLoader) (made : Vectors) : ScriptLoader × Vectors :=
  if c.mapId ≠ env.mapId then (l, made)
  else
    let (e, l) := create path n c.kind l
    (l, update made c.kind (made c.kind ++ [e]))

/-- The calls from the `n`-th on. -/
def run : ℕ → List Call → ScriptLoader → Vectors → ScriptLoader × Vectors
  | _, [], l, made => (l, made)
  | n, c :: cs, l, made =>
      let (l, made) := call env path n c l made
      run (n + 1) cs l made

/-- What `std::move` leaves of a vector: each that has entities was moved to its map. -/
def leftOf (made : Vectors) : Vectors := fun k => if made k = [] then made k else []

/-- What is done with the vectors in the end. `files_` comes after they were moved. -/
def track (made : Vectors) (l : ScriptLoader) : ScriptLoader :=
  { l with
    keys := fun k => if made k = [] then l.keys k else insert path (l.keys k)
    tracked := fun k => if made k = [] then l.tracked k else update (l.tracked k) path (made k)
    files :=
      if (leftOf made .warpGate = [] ∧ leftOf made .npc = [] ∧ leftOf made .mob = []) ∨
          path ∈ l.files then l.files
      else l.files ++ [path] }

/-- `load_script`: what the file has is moved out first. -/
def loadScript (l : ScriptLoader) : ScriptLoader :=
  let script := env.scripts path
  let moved := { l with tracked := fun k => update (l.tracked k) path [] }
  let (l, made) := run env path 0 script.calls moved (fun k => l.tracked k path)
  if script.fails then l else track path made l

/-- One file of `load_npcs`, `load_warpgates` and `load_spawners`. -/
def reloadFile (kind : Kind) (l : ScriptLoader) : ScriptLoader :=
  loadScript env path { l with
    registry := l.registry.bulkDestroy ((l.tracked kind path).filterMap id)
    tracked := update l.tracked kind (update (l.tracked kind) path []) }

end Load

def reload (env : Env) (kind : Kind) (l : ScriptLoader) : ScriptLoader :=
  (env.order (l.keys kind)).foldl (fun l path => reloadFile env path kind l) l

def loadNpcs (env : Env) : ScriptLoader → ScriptLoader := reload env .npc

def loadWarpgates (env : Env) : ScriptLoader → ScriptLoader := reload env .warpGate

def loadSpawners (env : Env) : ScriptLoader → ScriptLoader := reload env .mob

/-- What only a script does. -/
def scripted : Registry.Event → Bool
  | .createNpc | .createWarpgate | .bulkDestroy _ => true
  | _ => false

inductive Event
  | loadScript (path : String)
  | loadNpcs
  | loadWarpgates
  | loadSpawners
  /-- What the clients do, and `EntitySystem::update`. -/
  | world (e : Registry.Event) (h : scripted e = false)

/-- `EntitySystem::update`. -/
def Event.update (handled : List Registry.Handled) : Event :=
  .world (.update handled) rfl

def next (env : Env) (b : Registry.Buckets) (l : ScriptLoader) : Event → ScriptLoader
  | .loadScript path => loadScript env path l
  | .loadNpcs => loadNpcs env l
  | .loadWarpgates => loadWarpgates env l
  | .loadSpawners => loadSpawners env l
  | .world e _ => { l with registry := Registry.next b l.registry e }

def start : ScriptLoader := {}

/-- Every file has an NPC and a warpgate. -/
noncomputable def sampleEnv : Env where
  scripts := fun _ => { calls := [⟨.npc, 1⟩, ⟨.warpGate, 1⟩] }
  mapId := 1
  order := Finset.toList
  order_nodup := Finset.nodup_toList
  mem_order := fun _ _ => Finset.mem_toList

end ScriptLoader

/-! ## Entities that stand -/

namespace Registry

open Function
open MapServer (Entity)

/-- The entity is in a delete command. -/
def Due (s : Registry) (e : Entity) : Prop :=
  ∃ d ∈ s.deleteCommands, e ∈ d.targets

instance (s : Registry) (e : Entity) : Decidable (s.Due e) := by
  unfold Due
  infer_instance

/-- The entity is there and in no delete command. -/
def Standing (s : Registry) (e : Entity) : Prop :=
  (s.components e).isSome ∧ ¬ s.Due e

instance (s : Registry) (e : Entity) : Decidable (s.Standing e) :=
  inferInstanceAs (Decidable (_ ∧ _))

section Standing

variable {b : Buckets} {s : Registry} {e : Entity}

theorem Standing.lt_created (h : s.Standing e) : e < s.created := by
  obtain ⟨comps, hcomps⟩ := Option.isSome_iff_exists.mp h.1
  exact Registry.lt_created hcomps

theorem isSome_iff_who : (s.components e).isSome ↔ s.who e ≠ none := by
  rw [who, Option.ne_none_iff_isSome, Option.isSome_map]

theorem runDeletes_components : s.runDeletes.components e =
    if s.Due e then none else s.components e := by
  -- a command never brings an entity back
  have hloop : ∀ (ds : List Delete) (t : Registry), (ds.foldl runDelete t).components e =
      if ∃ d ∈ ds, e ∈ d.targets then none else t.components e := by
    intro ds
    induction ds with
    | nil => simp
    | cons d ds ih =>
        intro t
        rw [List.foldl_cons, ih, runDelete_components]
        by_cases hd : e ∈ d.targets <;> simp [hd]
  exact (hloop s.deleteCommands s).trans (if_congr Iff.rfl rfl rfl)

/-- A registry where the entity is as it was, and no command is for it that was not. -/
theorem standing_congr {s' : Registry} (hwho : s'.who e = s.who e) (hdue : s'.Due e ↔ s.Due e) :
    s'.Standing e ↔ s.Standing e := by
  unfold Standing
  rw [isSome_iff_who, isSome_iff_who, hwho, hdue]

/-- An update destroys what does not stand. -/
theorem standing_runDeletes : s.runDeletes.Standing e ↔ s.Standing e := by
  have hdue : ¬ s.runDeletes.Due e := by
    rintro ⟨d, hd, _⟩
    exact absurd hd List.not_mem_nil
  unfold Standing
  rw [runDeletes_components]
  split_ifs with h <;> simp [h, hdue]

/-- **What stands remains standing**, whatever the clients do, if it is no character. -/
theorem standing_next (hs : s.Inv) {ev : Event} (hev : ScriptLoader.scripted ev = false)
    (he : e < s.created) (hcharacter : (s.who e).join = none) :
    (next b s ev).Standing e ↔ s.Standing e := by
  have hquiet : ∀ {t : Registry}, Quiet s t → t.who e = s.who e := fun h =>
    (h.who e).resolve_right fun hnew => absurd he (not_lt.mpr hnew.1)
  have hsame : ∀ {t : Registry}, t.deleteCommands = s.deleteCommands → (t.Due e ↔ s.Due e) :=
    fun h => by unfold Due; rw [h]
  cases ev with
  | loadCharacter o =>
      cases o with
      | missing => exact standing_congr (hquiet (quiet_next (by simp) (by simp))) (hsame rfl)
      | threw name => exact standing_congr (hquiet (quiet_next (by simp) (by simp))) (hsame rfl)
      | loaded name =>
          refine standing_congr ?_ (hsame (registerEntity_fields s.created).2.2.2.2)
          show (s.loadCharacter b (.loaded name)).who e = _
          rw [who_loaded, update_of_ne (ne_of_lt he)]
  | assignSocket e' c => exact standing_congr (hquiet (quiet_next (by simp) (by simp))) (hsame rfl)
  | buildItemEntity => exact standing_congr (hquiet (quiet_next (by simp) (by simp))) (hsame rfl)
  | createNpc => exact absurd hev (by decide)
  | createWarpgate => exact absurd hev (by decide)
  | bulkDestroy es => exact absurd hev (by simp [ScriptLoader.scripted])
  | destroy e' =>
      -- the only one of these that adds a delete command
      refine standing_congr (hquiet (quiet_next (by simp) (by simp))) ?_
      show (s.destroy e').Due e ↔ s.Due e
      unfold destroy
      split_ifs with hmap
      · -- a `destroy` command is for a character
        have hne : e ≠ e' := by
          rintro rfl
          obtain ⟨comps, hcomps, honMap⟩ := (Option.any_eq_true _ _).mp hmap
          have hsound := hs.components e comps hcomps
          have hchar := hsound.onMap honMap
          obtain ⟨basic, hbasic⟩ := Option.ne_none_iff_exists'.mp (hsound.basic hchar)
          simp [who, hcomps, Components.keys, hchar, hbasic] at hcharacter
        simp [Due, Delete.targets, hne]
      · rfl
  | update handled =>
      obtain ⟨s', _, hgrows, _, hnext⟩ := update_spec b hs handled
      rw [hnext, standing_runDeletes, Standing, Standing, hsame hgrows.deletes,
        ← Option.ne_none_iff_isSome, ← Option.ne_none_iff_isSome]
      exact and_congr_left' (not_congr (hgrows.alive.2 e he))

end Standing

end Registry

/-! ## What a file has standing -/

namespace ScriptLoader

open Function

/-- What the `i`-th call of a file creates. -/
def Env.kindOf (env : Env) (path : String) (i : ℕ) : Option Kind :=
  match (env.scripts path).calls[i]? with
  | some c => if c.mapId = env.mapId ∧ c.kind ≠ .mob then some c.kind else none
  | none => none

/-- The entities of the `i`-th call of a file that stand. -/
def standing (l : ScriptLoader) (path : String) (i : ℕ) : Finset Entity :=
  {e ∈ Finset.range l.registry.created | l.origin e = some (path, i) ∧ l.registry.Standing e}

/-- The vectors of all files have what the files have standing, so many of each call. -/
structure Ledger (env : Env) (l : ScriptLoader) (vectors : Kind → String → List (Option Entity))
    (count : String → ℕ → ℕ) : Prop where
  inv : l.registry.Inv
  lt : ∀ e, l.origin e ≠ none → e < l.registry.created
  character : ∀ e, l.origin e ≠ none → (l.registry.who e).join = none
  kind : ∀ e path i, l.origin e = some (path, i) → env.kindOf path i ≠ none
  count : ∀ path i, (l.standing path i).card = count path i
  sound : ∀ k path e, some e ∈ vectors k path →
    ∃ i, env.kindOf path i = some k ∧ e ∈ l.standing path i
  complete : ∀ k path i e, (env.scripts path).fails = false → env.kindOf path i = some k →
    e ∈ l.standing path i → some e ∈ vectors k path

section Ledger

variable {env : Env} {l : ScriptLoader} {vectors vectors' : Kind → String → List (Option Entity)}
  {count count' : String → ℕ → ℕ} {path : String} {n : ℕ} {k : Kind}

theorem mem_standing {i : ℕ} {e : Entity} : e ∈ l.standing path i ↔
    l.origin e = some (path, i) ∧ l.registry.Standing e := by
  rw [standing, Finset.mem_filter, Finset.mem_range]
  exact and_iff_right_of_imp fun h => h.2.lt_created

theorem Ledger.congr (h : Ledger env l vectors count)
    (hvectors : ∀ k path e, some e ∈ vectors' k path ↔ some e ∈ vectors k path)
    (hcount : ∀ path i, count' path i = count path i) : Ledger env l vectors' count' where
  inv := h.inv
  lt := h.lt
  character := h.character
  kind := h.kind
  count := fun path i => (h.count path i).trans (hcount path i).symm
  sound := fun k path e he => h.sound k path e ((hvectors k path e).mp he)
  complete := fun k path i e hfails hkind he =>
    (hvectors k path e).mpr (h.complete k path i e hfails hkind he)

/-- A registry that `create_npc` or `create_warpgate` leads to. -/
structure Created (s r : Registry) : Prop where
  inv : r.Inv
  created : r.created = s.created + 1
  deletes : r.deleteCommands = s.deleteCommands
  who : r.who = update s.who s.created (some none)

theorem created_createNpc {s : Registry} (h : s.Inv) : Created s s.createNpc :=
  ⟨Registry.inv_push h rfl, rfl, rfl, Registry.who_create {}⟩

theorem created_createWarpgate {s : Registry} (h : s.Inv) : Created s s.createWarpgate :=
  ⟨Registry.inv_push h rfl, rfl, rfl, Registry.who_create {}⟩

theorem Created.due_iff {s r : Registry} (hr : Created s r) (e : Entity) : r.Due e ↔ s.Due e := by
  unfold Registry.Due
  rw [hr.deletes]

theorem Created.standing_iff {s r : Registry} (hr : Created s r) {e : Entity}
    (he : e ≠ s.created) : r.Standing e ↔ s.Standing e :=
  Registry.standing_congr (by rw [hr.who, update_of_ne he]) (hr.due_iff e)

/-- No command is for an entity yet to come. -/
theorem Created.standing_new {s r : Registry} (hr : Created s r) (hs : s.Inv) :
    r.Standing s.created := by
  refine ⟨by rw [Registry.isSome_iff_who, hr.who, update_self]; simp, fun hdue => ?_⟩
  obtain ⟨d, hmem, htarget⟩ := (hr.due_iff _).mp hdue
  cases d with
  | destroy e =>
      have he : s.created = e := List.mem_singleton.mp htarget
      exact absurd (hs.destroy e hmem).1 (he ▸ lt_irrefl _)
  | bulkDestroy es => exact absurd (hs.bulkDestroy es hmem _ htarget) (lt_irrefl _)

theorem mem_standing_adopt (h : l.registry.Inv) {r : Registry} (hr : Created l.registry r)
    {path' : String} {i : ℕ} {e : Entity} : e ∈ (adopt path n r l).standing path' i ↔
      e ∈ l.standing path' i ∨ e = l.registry.created ∧ path' = path ∧ i = n := by
  rw [mem_standing, mem_standing]
  by_cases he : e = l.registry.created
  · subst he
    -- the new entity did not stand before, whatever its origin was
    have hnone : ¬ (l.origin l.registry.created = some (path', i) ∧
        l.registry.Standing l.registry.created) :=
      fun hs => absurd hs.2.lt_created (lt_irrefl _)
    have hstanding : r.Standing l.registry.created := hr.standing_new h
    simp only [hnone, hstanding, adopt, update_self, and_true, true_and, false_or,
      Option.some.injEq, Prod.mk.injEq]
    exact ⟨fun hs => ⟨hs.1.symm, hs.2.symm⟩, fun hs => ⟨hs.1.symm, hs.2.symm⟩⟩
  · simp only [adopt, update_of_ne he, hr.standing_iff he, he, false_and, or_false]

/-- A call that creates an entity, which goes into the vector of its kind. -/
theorem Ledger.adopt (h : Ledger env l vectors count) {r : Registry} (hr : Created l.registry r)
    (hkind : env.kindOf path n = some k)
    (hvectors : ∀ k' path' e, some e ∈ vectors' k' path' ↔
      some e ∈ vectors k' path' ∨ k' = k ∧ path' = path ∧ e = l.registry.created) :
    Ledger env (ScriptLoader.adopt path n r l) vectors'
      (fun path' i => if path' = path ∧ i = n then count path' i + 1 else count path' i) := by
  have horigin : ∀ {e}, e ≠ l.registry.created →
      (ScriptLoader.adopt path n r l).origin e = l.origin e := fun he => update_of_ne he _ _
  refine ⟨hr.inv, fun e he => ?_, fun e he => ?_, fun e path' i he => ?_, fun path' i => ?_,
    fun k' path' e he => ?_, fun k' path' i e hfails hkind' he => ?_⟩
  · show e < r.created
    rw [hr.created]
    by_cases hne : e = l.registry.created
    · exact hne ▸ Nat.lt_succ_self _
    · exact Nat.lt_succ_of_lt (h.lt e (horigin hne ▸ he))
  · show (r.who e).join = none
    rw [hr.who]
    by_cases hne : e = l.registry.created
    · subst hne
      rw [update_self]
      rfl
    · rw [update_of_ne hne]
      exact h.character e (horigin hne ▸ he)
  · by_cases hne : e = l.registry.created
    · subst hne
      obtain ⟨rfl, rfl⟩ : path = path' ∧ n = i := by
        simpa [ScriptLoader.adopt] using he
      simp [hkind]
    · exact h.kind e path' i (horigin hne ▸ he)
  · by_cases hthis : path' = path ∧ i = n
    · have hinsert : (ScriptLoader.adopt path n r l).standing path' i =
          insert l.registry.created (l.standing path' i) := by
        ext e
        simp [mem_standing_adopt h.inv hr, hthis, or_comm]
      have hnotin : l.registry.created ∉ l.standing path' i := fun hs =>
        absurd (mem_standing.mp hs).2.lt_created (lt_irrefl _)
      rw [if_pos hthis, hinsert, Finset.card_insert_of_notMem hnotin, h.count]
    · rw [if_neg hthis, ← h.count]
      congr 1
      ext e
      rw [mem_standing_adopt h.inv hr]
      exact or_iff_left fun hs => hthis hs.2
  · obtain he | ⟨rfl, rfl, rfl⟩ := (hvectors k' path' e).mp he
    · obtain ⟨i, hi, hmem⟩ := h.sound k' path' e he
      exact ⟨i, hi, (mem_standing_adopt h.inv hr).mpr (Or.inl hmem)⟩
    · exact ⟨n, hkind, (mem_standing_adopt h.inv hr).mpr (Or.inr ⟨rfl, rfl, rfl⟩)⟩
  · rw [hvectors]
    obtain hmem | ⟨rfl, rfl, rfl⟩ := (mem_standing_adopt h.inv hr).mp he
    · exact Or.inl (h.complete k' path' i e hfails hkind' hmem)
    · exact Or.inr ⟨Option.some.inj (hkind'.symm.trans hkind), rfl, rfl⟩

/-- What the vector of a file has is destroyed. -/
theorem Ledger.bulkDestroy (h : Ledger env l vectors count)
    (hfails : (env.scripts path).fails = false)
    (hvectors : ∀ k' path' e, some e ∈ vectors' k' path' ↔
      some e ∈ vectors k' path' ∧ ¬ (k' = k ∧ path' = path)) {l' : ScriptLoader}
    (hregistry : l'.registry = l.registry.bulkDestroy ((vectors k path).filterMap id))
    (horigin : l'.origin = l.origin) :
    Ledger env l' vectors' (fun path' i =>
      if path' = path ∧ env.kindOf path' i = some k then 0 else count path' i) := by
  have hinv : l'.registry.Inv := hregistry ▸ Registry.inv_bulkDestroy h.inv _
  have hwho : l'.registry.who = l.registry.who := by rw [hregistry]; rfl
  have hdue : ∀ e, e < l.registry.created →
      (l'.registry.Due e ↔ l.registry.Due e ∨ some e ∈ vectors k path) := by
    intro e he
    simp only [hregistry, Registry.Due, Registry.bulkDestroy, List.mem_append, List.mem_singleton,
      or_and_right, exists_or, exists_eq_left, Registry.Delete.targets, List.mem_filter,
      List.mem_filterMap, id, exists_eq_right, he, decide_true, and_true]
  have hstanding : ∀ path' i e, e ∈ l'.standing path' i ↔
      e ∈ l.standing path' i ∧ ¬ (path' = path ∧ env.kindOf path' i = some k) := by
    intro path' i e
    -- what the file has of the kind is in the vector, all of it: the file does not fail
    have hrest : e ∈ l.standing path' i →
        (some e ∈ vectors k path ↔ path' = path ∧ env.kindOf path' i = some k) := by
      intro he
      constructor
      · intro hmem
        obtain ⟨i', hkind, hmem'⟩ := h.sound k path e hmem
        obtain ⟨rfl, rfl⟩ : path = path' ∧ i' = i := by
          simpa using (mem_standing.mp hmem').1.symm.trans (mem_standing.mp he).1
        exact ⟨rfl, hkind⟩
      · rintro ⟨rfl, hkind⟩
        exact h.complete k path' i e hfails hkind he
    -- the command is for what is in the vector
    have hsame : e ∈ l'.standing path' i ↔ e ∈ l.standing path' i ∧ some e ∉ vectors k path := by
      rw [mem_standing, mem_standing, horigin, Registry.Standing, Registry.Standing,
        Registry.isSome_iff_who, Registry.isSome_iff_who, hwho]
      by_cases he : e < l.registry.created
      · rw [hdue e he]
        tauto
      · have hnone : l.registry.who e = none := by
          simp [Registry.who, l.registry.fresh e (not_lt.mp he)]
        simp [hnone]
    rw [hsame]
    exact and_congr_right fun he => not_congr (hrest he)
  refine ⟨hinv, fun e he => ?_, fun e he => ?_, fun e path' i he => ?_, fun path' i => ?_,
    fun k' path' e he => ?_, fun k' path' i e hfails' hkind he => ?_⟩
  · rw [hregistry]
    exact h.lt e (horigin ▸ he)
  · rw [hwho]
    exact h.character e (horigin ▸ he)
  · exact h.kind e path' i (horigin ▸ he)
  · split_ifs with hthis
    · rw [Finset.card_eq_zero, Finset.eq_empty_iff_forall_notMem]
      exact fun e he => ((hstanding path' i e).mp he).2 hthis
    · rw [← h.count]
      congr 1
      ext e
      rw [hstanding]
      exact and_iff_left hthis
  · obtain ⟨hmem, hne⟩ := (hvectors k' path' e).mp he
    obtain ⟨i, hkind, hi⟩ := h.sound k' path' e hmem
    refine ⟨i, hkind, (hstanding path' i e).mpr ⟨hi, fun hthis => hne ⟨?_, hthis.1⟩⟩⟩
    exact Option.some.inj (hkind.symm.trans hthis.2)
  · obtain ⟨hmem, hne⟩ := (hstanding path' i e).mp he
    refine (hvectors k' path' e).mpr ⟨h.complete k' path' i e hfails' hkind hmem, fun hthis => ?_⟩
    exact hne ⟨hthis.2, hthis.1 ▸ hkind⟩

/-- What the clients do, and an update. -/
theorem Ledger.world (h : Ledger env l vectors count) {b : Registry.Buckets} {e : Registry.Event}
    (he : scripted e = false) :
    Ledger env { l with registry := Registry.next b l.registry e } vectors count := by
  have hstanding : ∀ path' i,
      standing { l with registry := Registry.next b l.registry e } path' i =
        l.standing path' i := by
    intro path' i
    ext e'
    rw [mem_standing, mem_standing]
    refine and_congr_right fun horigin => ?_
    have hne : l.origin e' ≠ none := by
      have horigin' : l.origin e' = some (path', i) := horigin
      simp [horigin']
    exact Registry.standing_next h.inv he (h.lt e' hne) (h.character e' hne)
  refine ⟨Registry.inv_next h.inv e, fun e' he' => ?_, fun e' he' => ?_, h.kind,
    fun path' i => by rw [hstanding, h.count], fun k' path' e' he' => ?_,
    fun k' path' i e' hfails hkind he' => ?_⟩
  · exact (h.lt e' he').trans_le (Registry.created_le_next h.inv e)
  · show (Registry.who (Registry.next b l.registry e) e').join = none
    obtain hsame | hgone := Registry.who_next (b := b) h.inv e (h.lt e' he')
    · rw [hsame]
      exact h.character e' he'
    · rw [hgone]
      rfl
  · obtain ⟨i, hkind, hmem⟩ := h.sound k' path' e' he'
    exact ⟨i, hkind, hstanding path' i ▸ hmem⟩
  · exact h.complete k' path' i e' hfails hkind (hstanding path' i ▸ he')

end Ledger

end ScriptLoader

end OsIrose

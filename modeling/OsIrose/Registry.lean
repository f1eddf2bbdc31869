/-
The entities of a map server, their ids and names: `map/src/entitysystem.cpp` and
`map/src/id_manager.cpp`.

Players and items get an id when they are created, NPCs and warpgates when the command runs
that `create_npc` and `create_warpgate` queue. `destroy` and `bulk_destroy` queue a command
as well. `EntitySystem::update` holds the lock `access_`, so it is one step here: the create
commands, what the handlers of the packets do (`Handled`), the delete commands.

Unlike `MapServer`, which is about what is saved of a character, this has the NPCs, the
warpgates and `bulk_destroy`, and leaves out what an entity has beside its id and name. The
component of an entity that is no more is none, and `create_warpgate` assigns no `Warpgate`:
no entity has one.
-/
import OsIrose.EntitySystem
import OsIrose.Numbering
import OsIrose.Runs
import Mathlib.Data.Finset.Max

set_option autoImplicit false

namespace OsIrose

open Function
open MapServer (Entity Id IdManager BasicInfo)

namespace Registry

structure Components where
  basic : Option BasicInfo := none
  /-- There is an `Npc`. -/
  npc : Bool := false
  /-- There is an `Item`. -/
  item : Bool := false
  /-- The client of the `SocketConnector`. -/
  socket : Option ℕ := none
  /-- `loadCharacter` returned the entity. -/
  character : Bool := false

def Components.isOnMap (comps : Components) : Bool :=
  comps.basic.any BasicInfo.isOnMap

def Components.setOnMap (comps : Components) (isOnMap : Bool) : Components :=
  { comps with basic := comps.basic.map (fun basic => { basic with isOnMap := isOnMap }) }

/-- A command of `create_commands_`. -/
inductive Create
  | npc (e : Entity)
  | warpgate (e : Entity)

def Create.entity : Create → Entity
  | npc e => e
  | warpgate e => e

/-- The components that a create command assigns. -/
def Create.assign (id : Id) : Create → Components → Components
  | npc _, comps => { comps with basic := some { id }, npc := true }
  | warpgate _, comps => { comps with basic := some { id } }

/-- A command of `delete_commands_`. -/
inductive Delete
  | destroy (e : Entity)
  | bulkDestroy (s : List Entity)

/-- The entities of a delete command. -/
def Delete.targets : Delete → List Entity
  | destroy e => [e]
  | bulkDestroy es => es

/-- The order of the buckets of an `unordered_set`. -/
structure Buckets where
  /-- `_free_ids.begin()`. -/
  front : Finset Id → Id
  front_mem : ∀ ids : Finset Id, ids.Nonempty → front ids ∈ ids

def Buckets.least : Buckets where
  front ids := ids.min.untopD 0
  front_mem ids h := by
    obtain ⟨id, hid⟩ := Finset.min_of_nonempty h
    rw [hid]
    exact Finset.mem_of_min hid

/-- How `loadCharacter` ends. -/
inductive Load
  /-- There is no such character. -/
  | missing
  /-- A later statement throws; the entity remains. -/
  | threw (name : String)
  | loaded (name : String)

/-- What a handler does while `update` dispatches a packet. -/
inductive Handled
  /-- `processChangeMapReq` -/
  | changeMap (e : Entity)
  /-- `buildItemEntity` -/
  | buildItem

end Registry

open Registry

/-- An `EntitySystem`. -/
structure Registry where
  /-- The next entity. -/
  created : Entity := 0
  /-- `none` for an entity that is not there. -/
  components : Entity → Option Components := fun _ => none
  nameToEntity : String → Option Entity := fun _ => none
  idToEntity : Id → Option Entity := fun _ => none
  idManager : IdManager := {}
  /-- How often `_max_id` was counted up. -/
  idsCreated : ℕ := 0
  createCommands : List Create := []
  deleteCommands : List Delete := []
  fresh : ∀ e, created ≤ e → components e = none := by intros; rfl

namespace Registry

section Operations

variable (b : Buckets) (s : Registry)

/-- Changes the components of an entity that is there. -/
def modify (e : Entity) (f : Components → Components) : Registry :=
  { s with
    components := update s.components e ((s.components e).map f)
    fresh := fun e' he' => by
      rw [update_apply]
      split_ifs with h
      · rw [← h, s.fresh e' he', Option.map_none]
      · exact s.fresh e' he' }

/-- `create`, and the components assigned. -/
def create (comps : Components) : Registry :=
  { s with
    created := s.created + 1
    components := update s.components s.created (some comps)
    fresh := fun e he => by
      rw [update_of_ne (Nat.lt_of_succ_le he).ne']
      exact s.fresh e (Nat.le_of_succ_le he) }

/-- `entity.destroy()`. -/
def destroyEntity (e : Entity) : Registry :=
  { s with
    components := update s.components e none
    fresh := fun e' he' => by
      rw [update_apply]
      split_ifs
      · rfl
      · exact s.fresh e' he' }

/-- `IdManager::get_free_id`. -/
def freeId : Id :=
  (s.idManager.getFreeId b.front).1

def takeId : Registry :=
  { s with
    idManager := (s.idManager.getFreeId b.front).2
    idsCreated := if s.idManager.freeIds.Nonempty then s.idsCreated else s.idsCreated + 1 }

/-- `registerEntity`. -/
def registerEntity (e : Entity) : Registry :=
  match (s.components e).bind Components.basic with
  | none => s
  | some basic =>
      if basic.name = "" ∨ basic.id = 0 then s
      else { s with
        nameToEntity := update s.nameToEntity basic.name (some e)
        idToEntity := update s.idToEntity basic.id (some e) }

/-- `getEntity`, by name. -/
def getEntityByName (name : String) : Option Entity :=
  (s.nameToEntity name).filter (fun e => (s.components e).isSome)

/-- `getEntity`, by id. -/
def getEntityById (id : Id) : Option Entity :=
  (s.idToEntity id).filter (fun e => (s.components e).isSome)

/-- `loadCharacter`. -/
def loadCharacter : Load → Registry
  | .missing => (s.create {}).destroyEntity s.created
  | .threw name => (s.takeId b).create { basic := some { name, id := s.freeId b } }
  | .loaded name =>
      ((s.takeId b).create
        { basic := some { name, id := s.freeId b }, character := true }).registerEntity s.created

/-- `assign<SocketConnector>`, of the entity that `loadCharacter` returned. -/
def assignSocket (e : Entity) (c : ℕ) : Registry :=
  s.modify e (fun comps => if comps.character then { comps with socket := some c } else comps)

def buildItemEntity : Registry :=
  (s.takeId b).create { basic := some { id := s.freeId b }, item := true }

/-- `create_npc`. -/
def createNpc : Registry :=
  { s.create {} with createCommands := s.createCommands ++ [.npc s.created] }

/-- `create_warpgate`. -/
def createWarpgate : Registry :=
  { s.create {} with createCommands := s.createCommands ++ [.warpgate s.created] }

/-- `destroy`. -/
def destroy (e : Entity) : Registry :=
  if (s.components e).any Components.isOnMap then
    { s.modify e (·.setOnMap false) with deleteCommands := s.deleteCommands ++ [.destroy e] }
  else s

/-- `bulk_destroy`; nobody has an entity that was not created. -/
def bulkDestroy (es : List Entity) : Registry :=
  { s with deleteCommands := s.deleteCommands ++ [.bulkDestroy (es.filter (· < s.created))] }

/-! ### `update` -/

def runCreate (c : Create) : Registry :=
  if (s.components c.entity).isSome then
    (s.takeId b).modify c.entity (c.assign (s.freeId b))
  else s

/-- A packet is dispatched only if its entity has a client. -/
def handle : Handled → Registry
  | .changeMap e =>
      s.modify e (fun comps => if comps.socket.isSome then comps.setOnMap true else comps)
  | .buildItem => s.buildItemEntity b

/-- What is taken back of an entity that is no NPC. -/
def unregister (basic : BasicInfo) : Registry :=
  { s with
    nameToEntity := update s.nameToEntity basic.name none
    idToEntity := update s.idToEntity basic.id none
    idManager := s.idManager.releaseId basic.id }

def runDelete : Delete → Registry
  | .destroy e =>
      match s.components e with
      | none => s
      | some comps =>
          let s := if comps.npc then s else comps.basic.elim s s.unregister
          s.destroyEntity e
  | .bulkDestroy es => es.foldl destroyEntity s

/-- The create commands. -/
def runCreates : Registry :=
  { s.createCommands.foldl (runCreate b) s with createCommands := [] }

/-- The delete commands. -/
def runDeletes : Registry :=
  { s.deleteCommands.foldl runDelete s with deleteCommands := [] }

/-- `EntitySystem::update`, with what the handlers do. -/
def tick (handled : List Handled) : Registry :=
  (handled.foldl (handle b) (s.runCreates b)).runDeletes

end Operations

inductive Event
  | loadCharacter (o : Load)
  | assignSocket (e : Entity) (c : ℕ)
  | buildItemEntity
  | createNpc
  | createWarpgate
  | destroy (e : Entity)
  | bulkDestroy (es : List Entity)
  | update (handled : List Handled)

def next (b : Buckets) (s : Registry) : Event → Registry
  | .loadCharacter o => s.loadCharacter b o
  | .assignSocket e c => s.assignSocket e c
  | .buildItemEntity => s.buildItemEntity b
  | .createNpc => s.createNpc
  | .createWarpgate => s.createWarpgate
  | .destroy e => s.destroy e
  | .bulkDestroy es => s.bulkDestroy es
  | .update handled => s.tick b handled

/-- A map server without entities. -/
def start : Registry := {}

/-! ## What an operation leaves -/

section Fields

variable {s : Registry} {e : Entity}

@[simp] theorem assign_basic (c : Create) (id : Id) (comps : Components) :
    (c.assign id comps).basic = some { id } := by
  cases c <;> rfl

@[simp] theorem assign_socket (c : Create) (id : Id) (comps : Components) :
    (c.assign id comps).socket = comps.socket := by
  cases c <;> rfl

@[simp] theorem assign_character (c : Create) (id : Id) (comps : Components) :
    (c.assign id comps).character = comps.character := by
  cases c <;> rfl

@[simp] theorem modify_self (f : Components → Components) :
    (s.modify e f).components e = (s.components e).map f :=
  update_self _ _ _

theorem modify_of_ne {e' : Entity} (h : e' ≠ e) (f : Components → Components) :
    (s.modify e f).components e' = s.components e' :=
  update_of_ne h _ _

@[simp] theorem create_self (comps : Components) :
    (s.create comps).components s.created = some comps :=
  update_self _ _ _

theorem create_of_ne (h : e ≠ s.created) (comps : Components) :
    (s.create comps).components e = s.components e :=
  update_of_ne h _ _

@[simp] theorem destroyEntity_self : (s.destroyEntity e).components e = none :=
  update_self _ _ _

theorem destroyEntity_of_ne {e' : Entity} (h : e' ≠ e) :
    (s.destroyEntity e).components e' = s.components e' :=
  update_of_ne h _ _

theorem lt_created {comps : Components} (h : s.components e = some comps) : e < s.created := by
  by_contra hge
  rw [s.fresh e (not_lt.mp hge)] at h
  exact absurd h (by simp)

@[simp] theorem registerEntity_components (e : Entity) :
    (s.registerEntity e).components = s.components := by
  unfold registerEntity
  split
  · rfl
  · split_ifs <;> rfl

@[simp] theorem takeId_components (b : Buckets) : (s.takeId b).components = s.components := rfl

@[simp] theorem unregister_components (basic : BasicInfo) :
    (s.unregister basic).components = s.components := rfl

/-- The entities of a delete command go, and no others. -/
theorem runDelete_components (d : Delete) :
    (s.runDelete d).components = fun e => if e ∈ d.targets then none else s.components e := by
  have hone : ∀ (t : Registry) (e' : Entity), (t.destroyEntity e').components =
      fun e => if e = e' then none else t.components e := by
    intro t e'
    funext e
    by_cases he : e = e'
    · subst he
      simp
    · simp [destroyEntity_of_ne he, he]
  cases d with
  | destroy e' =>
      simp only [runDelete, Delete.targets, List.mem_singleton]
      cases hcomps : s.components e' with
      | none =>
          funext e
          split_ifs with he
          · rw [he, hcomps]
          · rfl
      | some comps =>
          have hs : ∀ t : Registry, t.components = s.components →
              (t.destroyEntity e').components = fun e => if e = e' then none else s.components e :=
            fun t ht => by rw [hone, ht]
          refine hs _ ?_
          split_ifs
          · rfl
          · cases comps.basic <;> rfl
  | bulkDestroy es =>
      show (es.foldl destroyEntity s).components = _
      simp only [Delete.targets]
      induction es generalizing s with
      | nil => simp
      | cons e' es ih =>
          rw [List.foldl_cons, ih, hone]
          funext e
          by_cases he : e = e' <;> by_cases hmem : e ∈ es <;> simp [he, hmem]

end Fields

end Registry

end OsIrose

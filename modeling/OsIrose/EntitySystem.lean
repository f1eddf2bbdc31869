/-
The entities of a map server and their clients: `map/src/entitysystem.cpp`,
`map/src/id_manager.cpp`, `map/include/systemmanager.h` and the packet handlers of the
systems that change what is saved of a character.

A handler gets the components of one entity and gives an `Effect`: the components after
it, an item dropped, and whether the client leaves for another map server. `perform`
carries it out. The grid and who is told of a change are left out; `is_on_warpgate` and
the run speed are arguments of a tick. Of the NPCs and warpgates the ids remain that they
take.
-/
import OsIrose.Characters
import OsIrose.MapClient

set_option autoImplicit false

namespace OsIrose.MapServer

open Function Inventory Characters Database
open Movement (Position Destination)
open MapClient (LoginState SrvJoinServerReply Config)

abbrev Entity := ℕ

/-- A `uint16_t`. -/
abbrev Id := Fin 65536

/-! ## `IdManager` -/

structure IdManager where
  freeIds : Finset Id := ∅
  maxId : Id := 0

/-- `get_free_id`; `front` is the first id of a set in the order of its buckets. -/
def IdManager.getFreeId (front : Finset Id → Id) (ids : IdManager) : Id × IdManager :=
  if ids.freeIds.Nonempty then
    (front ids.freeIds, { ids with freeIds := ids.freeIds.erase (front ids.freeIds) })
  else (ids.maxId, { ids with maxId := ids.maxId + 1 })

def IdManager.releaseId (ids : IdManager) (id : Id) : IdManager :=
  { ids with freeIds := insert id ids.freeIds }

/-! ## Components and packets -/

structure BasicInfo where
  name : String := ""
  id : Id
  isOnMap : Bool := false

/-- The components of an entity. -/
structure Components (K D : Type*) where
  position : Option (Position K) := none
  destination : Option (Destination K) := none
  basic : Option BasicInfo := none
  /-- The columns of `Stats`, `AdvancedInfo` and `CharacterInfo`. -/
  rest : Option D := none
  /-- `charId_` of the `CharacterInfo`. -/
  character : Option ℕ := none
  inventory : Option Items := none
  wishlist : Option Items := none
  /-- The client of the `SocketConnector`. -/
  socket : Option ℕ := none
  item : Option Item := none

/-- What `executeGM` makes of a chat message. -/
inductive Command (K : Type*)
  /-- `/item` -/
  | item (type id : ℕ)
  /-- `/tp` -/
  | tp (mapId : ℕ) (x y : K)
  /-- Any other message. -/
  | chat

inductive Packet (K : Type*)
  | changeMapReq
  | mouseCmd (x y : K)
  | stopMoving (x y : K)
  /-- With the answers of the scripts of the two items. -/
  | equipItem (packet : CliEquipItem) (onUnequip onEquip : Bool)
  | dropItem (packet : CliDropItem)
  | normalChat (message : Command K)
  /-- A packet whose handler changes nothing that is saved. -/
  | other (type : ℕ)

inductive PacketType
  | CHANGE_MAP_REQ
  | MOUSE_CMD
  | STOP_MOVING
  | EQUIP_ITEM
  | DROP_ITEM
  | NORMAL_CHAT
  | other (type : ℕ)
  deriving DecidableEq

def Packet.type {K : Type*} : Packet K → PacketType
  | changeMapReq => .CHANGE_MAP_REQ
  | mouseCmd .. => .MOUSE_CMD
  | stopMoving .. => .STOP_MOVING
  | equipItem .. => .EQUIP_ITEM
  | dropItem .. => .DROP_ITEM
  | normalChat .. => .NORMAL_CHAT
  | other type => .other type

/-! ## The server -/

/-- A definition of the `ItemDatabase`. -/
structure ItemDef where
  type : ℕ
  id : ℕ
  script : String

structure Env (K : Type*) where
  mysql : Mysql
  config : Config
  /-- `ItemDatabase`. -/
  itemDef : ℕ → ℕ → Option ItemDef
  /-- Whether a script loads without a Lua error. -/
  scriptLoads : String → Bool
  /-- `_free_ids.begin()`. -/
  front : Finset Id → Id
  front_mem : ∀ ids : Finset Id, ids.Nonempty → front ids ∈ ids
  sqrt : K → K

variable {K D : Type*}

structure EntitySystem (K D : Type*) where
  /-- The next entity. -/
  created : Entity := 0
  /-- `none` for an entity that is not there. -/
  components : Entity → Option (Components K D)
  nameToEntity : String → Option Entity
  idToEntity : Id → Option Entity
  idManager : IdManager := {}
  /-- The packet types with a handler. -/
  dispatchers : PacketType → Bool
  toDispatch : List (Entity × Packet K) := []
  /-- The entities to destroy, and whether they are to be saved. -/
  deleteCommands : List (Entity × Bool) := []

namespace EntitySystem

variable (es : EntitySystem K D)

/-- `entity.valid()`. -/
def Valid (e : Entity) : Prop :=
  es.components e ≠ none

/-- The components of an entity after an assignment. -/
def assign (e : Entity) (comps : Components K D) : EntitySystem K D :=
  { es with components := update es.components e (some comps) }

/-- `entity.destroy()`. -/
def destroyEntity (e : Entity) : EntitySystem K D :=
  { es with components := update es.components e none }

@[simp] theorem assign_self (e : Entity) (comps : Components K D) :
    (es.assign e comps).components e = some comps :=
  update_self _ _ _

theorem assign_of_ne {e e' : Entity} (h : e' ≠ e) (comps : Components K D) :
    (es.assign e comps).components e' = es.components e' :=
  update_of_ne h _ _

@[simp] theorem destroyEntity_self (e : Entity) : (es.destroyEntity e).components e = none :=
  update_self _ _ _

theorem destroyEntity_of_ne {e e' : Entity} (h : e' ≠ e) :
    (es.destroyEntity e).components e' = es.components e' :=
  update_of_ne h _ _

/-- `assign<SocketConnector>`. -/
def assignSocket (e : Entity) (c : ℕ) : EntitySystem K D :=
  match es.components e with
  | none => es
  | some comps => es.assign e { comps with socket := some c }

theorem assignSocket_of_some {e : Entity} {comps : Components K D}
    (h : es.components e = some comps) (c : ℕ) :
    es.assignSocket e c = es.assign e { comps with socket := some c } := by
  simp only [assignSocket, h]

/-- `create`. -/
def create : Entity × EntitySystem K D :=
  (es.created, { es.assign es.created {} with created := es.created + 1 })

@[simp] theorem create_self : es.create.2.components es.created = some {} :=
  update_self _ _ _

/-- `registerEntity`. -/
def registerEntity (e : Entity) : EntitySystem K D :=
  match (es.components e).bind Components.basic with
  | none => es
  | some basic =>
      if basic.name = "" ∨ basic.id = 0 then es
      else { es with
        nameToEntity := update es.nameToEntity basic.name (some e)
        idToEntity := update es.idToEntity basic.id (some e) }

/-- The part of a delete command that takes the registrations and the id of a character
back. -/
def unregister (basic : BasicInfo) : EntitySystem K D :=
  { es with
    nameToEntity := update es.nameToEntity basic.name none
    idToEntity := update es.idToEntity basic.id none
    idManager := es.idManager.releaseId basic.id }

/-- `buildItemEntity`, for an entity with the components `creator`. -/
def buildItemEntity (env : Env K) (creator : Components K D) (item : Item) : EntitySystem K D :=
  let (e, es) := es.create
  let (id, ids) := es.idManager.getFreeId env.front
  { es with idManager := ids }.assign e
    { item := some item, position := creator.position, basic := some { id } }

/-- The entity of an item is a new one, without a client. -/
theorem buildItemEntity_components (env : Env K) (creator : Components K D) (item : Item) :
    ∃ comps : Components K D, comps.socket = none ∧
      (es.buildItemEntity env creator item).components =
        update es.components es.created (some comps) :=
  ⟨_, rfl, update_idem _ _ _⟩

/-- `getEntity`, by name. -/
def getEntityByName (name : String) : Option Entity :=
  (es.nameToEntity name).filter (fun e => (es.components e).isSome)

/-- `getEntity`, by id. -/
def getEntityById (id : Id) : Option Entity :=
  (es.idToEntity id).filter (fun e => (es.components e).isSome)

end EntitySystem

/-! ## The handlers -/

/-- What a handler does. -/
structure Effect (K D : Type*) where
  components : Components K D
  /-- The item dropped. -/
  ground : Option Item := none
  /-- The client is sent to another map server. -/
  switches : Bool := false

section Handlers

variable [Field K] [LinearOrder K] [FloorSemiring K] (env : Env K)

/-- `MovementSystem::processMove`. -/
def processMove (comps : Components K D) (x y : K) : Components K D :=
  match comps.position, comps.basic with
  | some pos, some _ =>
      let dx := pos.x - x
      let dy := pos.y - y
      let dist := ⌊env.sqrt (dx * dx + dy * dy)⌋₊ % 65536
      { comps with destination := some { x, y, dist } }
  | _, _ => comps

/-- `MovementSystem::stopMoving`. -/
def stopMoving (comps : Components K D) (x y : K) : Components K D :=
  match comps.basic with
  | none => comps
  | some _ => { comps with destination := none, position := comps.position.map (·.stop x y) }

/-- `MovementSystem::teleport`; `client` tells whether the entity has a client. -/
def teleport (comps : Components K D) (mapId : ℕ) (x y : K) (client : Bool) : Effect K D where
  components := { comps with
    destination := none
    position := comps.position.map (·.teleport mapId x y client) }
  switches := match comps.position with
    | none => false
    | some pos => pos.map ≠ mapId ∧ client

def getItemDef (type id : ℕ) : Option ItemDef :=
  env.itemDef (type % 256) (id % 65536)

/-- `InventorySystem::buildItem`, once there is a definition. -/
def buildItem (itemDef : ItemDef) : Option Item :=
  if env.scriptLoads itemDef.script then
    some {
      type := itemDef.type
      id := itemDef.id
      life := 1000
      isAppraised := true
      count := 1
      isStackable := 10 ≤ itemDef.type ∧ itemDef.type ≤ 13 }
  else none

/-- The GM command `/item`. -/
def gmItem (comps : Components K D) (type id : ℕ) : Components K D :=
  if type = 0 ∨ id = 0 then comps
  else match (getItemDef env type id).bind (buildItem env) with
    | none => comps
    | some item => { comps with
        inventory := comps.inventory.map (fun items =>
          (addItem items item).elim items Prod.fst) }

/-- `ChatSystem::normalChat`. -/
def normalChat (comps : Components K D) (message : Command K) : Effect K D :=
  match comps.basic with
  | none => { components := comps }
  | some _ =>
      match message with
      | .item type id => { components := gmItem env comps type id }
      | .tp mapId x y =>
          if mapId = 0 ∨ x = 0 ∨ y = 0 then { components := comps }
          else teleport comps mapId (x * 100) (y * 100) true
      | .chat => { components := comps }

/-- What a tick does to an entity; `gate` is where the warpgate leads to that it stands on
after it. -/
def walkEffect (comps : Components K D) (pos : Position K) (dest : Destination K) (dt : K)
    (runSpeed : ℕ) (gate : Option (Destination K)) (client : Bool) : Effect K D :=
  let walked := pos.walk env.sqrt dt dest runSpeed
  let comps := { comps with position := some walked.1, destination := walked.2 }
  match gate with
  | none => { components := comps }
  | some gate => teleport comps gate.dist gate.x gate.y client

/-- The handler of a packet. -/
def handle (comps : Components K D) : Packet K → Effect K D
  | .changeMapReq =>
      { components := { comps with
          basic := comps.basic.map (fun basic => { basic with isOnMap := true }) } }
  | .mouseCmd x y => { components := processMove env comps x y }
  | .stopMoving x y => { components := stopMoving comps x y }
  | .equipItem packet onUnequip onEquip =>
      { components := { comps with
          inventory := comps.inventory.map (fun items =>
            (processEquip items packet onUnequip onEquip).1) } }
  | .dropItem packet =>
      { components := { comps with
          inventory := comps.inventory.map (fun items => (Inventory.dropItem items packet).1) }
        ground := comps.inventory.bind (fun items => (Inventory.dropItem items packet).2.1) }
  | .normalChat message => normalChat env comps message
  | .other _ => { components := comps }

end Handlers

end OsIrose.MapServer

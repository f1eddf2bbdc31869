/-
What the clients of a map server are told of the entities:
`map/src/systems/mapsystem.cpp`, `map/src/systems/inventorysystem.cpp`,
`map/src/entitysystem.cpp` and `rosecommon/src/croseserver.cpp`.

`Registry` with the clients, and with the four packets that show an entity or take it away.
A new NPC and a dropped item are shown to everyone, who is on the map or not, and so is what
`bulk_destroy` takes away. A character that enters the map, or goes, is shown or taken away to
everyone on the map; to the newcomer all the rest is shown. What a client has heard is there
from its connection on, newest first.

A client is one of `client_list_`. The object may outlive its place on the list.
-/
import OsIrose.Feed
import OsIrose.Lookup

set_option autoImplicit false

namespace OsIrose.Views

open Function
open MapServer (Entity BasicInfo)
open Registry (Buckets Components Create Delete Handled Load)

inductive Message
  | playerChar (e : Entity)
  | npcChar (e : Entity)
  | dropItem (e : Entity)
  | removeObject (e : Entity)
  deriving DecidableEq

def Message.about : Message → Entity
  | playerChar e | npcChar e | dropItem e | removeObject e => e

/-- All but `removeObject`. -/
def Message.shows : Message → Bool
  | removeObject _ => false
  | _ => true

inductive Phase
  | absent
  | connected
  | disconnected
  deriving DecidableEq

structure Client where
  phase : Phase := .absent
  /-- It is on `client_list_`. -/
  listed : Bool := false
  /-- The object is gone. -/
  released : Bool := false
  /-- `JOIN_SERVER_REQ` was handled. -/
  joined : Bool := false
  /-- `entity_` -/
  entity : Option Entity := none
  /-- What it has heard, newest first. -/
  heard : List Message := []

def Client.hear (cl : Client) (ms : List Message) : Client :=
  { cl with heard := ms ++ cl.heard }

/-- The last that a client has heard about an entity. -/
def Client.last (cl : Client) (e : Entity) : Option Message :=
  Feed.last Message.about cl.heard e

structure World where
  registry : Registry := Registry.start
  clients : ℕ → Client := fun _ => {}

namespace World

section Operations

variable (b : Buckets) (w : World)

def setClient (c : ℕ) (cl : Client) : World :=
  { w with clients := update w.clients c cl }

def withRegistry (r : Registry) : World :=
  { w with registry := r }

/-- `isOnMap` -/
def isOnMap (e : Entity) : Bool :=
  (w.registry.components e).any Components.isOnMap

/-- `getClient` -/
def getClient (e : Entity) : Option ℕ :=
  ((w.registry.components e).bind Components.socket).filter (fun c => !(w.clients c).released)

/-! ### `SendPacket` -/

def tell (audience : ℕ → Bool) (m : Message) : World :=
  { w with clients := fun c => if audience c then (w.clients c).hear [m] else w.clients c }

/-- `EVERYONE` -/
def everyone (c : ℕ) : Bool :=
  (w.clients c).listed

/-- `EVERYONE_BUT_ME_ON_MAP` -/
def everyoneButMeOnMap (sender : ℕ) (c : ℕ) : Bool :=
  (w.clients c).listed && c ≠ sender && (w.clients c).entity.any w.isOnMap

/-! ### Handlers -/

/-- What `processChangeMapReq` sends to the newcomer for an entity with a `BasicInfo`. -/
def greetBasic (e e' : Entity) : Option Message :=
  (w.registry.components e').bind fun comps => comps.basic.bind fun basic =>
    if comps.npc then some (.npcChar e')
    else if e' ≠ e ∧ basic.isOnMap then some (.playerChar e')
    else none

/-- What it sends for an entity with an `Item`. -/
def greetItem (e' : Entity) : Option Message :=
  (w.registry.components e').bind fun comps =>
    if comps.item then some (.dropItem e') else none

/-- All that it sends, oldest first. -/
def greetings (e : Entity) : List Message :=
  (List.range w.registry.created).filterMap (w.greetBasic e) ++
    (List.range w.registry.created).filterMap w.greetItem

/-- `MapSystem::processChangeMapReq`; a packet is dispatched only if its entity has a
client. -/
def processChangeMapReq (e : Entity) : World :=
  match w.getClient e with
  | none => w
  | some c =>
      let w' := w.tell (w.everyoneButMeOnMap c) (.playerChar e)
      let w' := w'.setClient c ((w'.clients c).hear (w.greetings e).reverse)
      w'.withRegistry (w.registry.handle b (.changeMap e))

/-- The end of `InventorySystem::dropItem`. -/
def dropItem : World :=
  (w.withRegistry (w.registry.buildItemEntity b)).tell w.everyone (.dropItem w.registry.created)

def handle : Handled → World
  | .changeMap e => w.processChangeMapReq b e
  | .buildItem => w.dropItem b

/-! ### Commands -/

def runCreate (c : Create) : World :=
  let w' := w.withRegistry (w.registry.runCreate b c)
  match c with
  | .npc e => if (w.registry.components e).isSome then w'.tell w.everyone (.npcChar e) else w'
  | .warpgate _ => w'

/-- One entity of `bulk_destroy`. -/
def removeEntity (e : Entity) : World :=
  if (w.registry.components e).isSome then
    (w.tell w.everyone (.removeObject e)).withRegistry (w.registry.destroyEntity e)
  else w

def runDelete : Delete → World
  | .destroy e =>
      if (w.registry.components e).isSome then
        let audience := (w.getClient e).elim w.everyone w.everyoneButMeOnMap
        (w.tell audience (.removeObject e)).withRegistry (w.registry.runDelete (.destroy e))
      else w
  | .bulkDestroy es => es.foldl removeEntity w

def runCreates : World :=
  let w := w.registry.createCommands.foldl (runCreate b) w
  w.withRegistry { w.registry with createCommands := [] }

def runDeletes : World :=
  let w := w.registry.deleteCommands.foldl runDelete w
  w.withRegistry { w.registry with deleteCommands := [] }

/-- `EntitySystem::update`. -/
def tick (handled : List Handled) : World :=
  (handled.foldl (handle b) (w.runCreates b)).runDeletes

end Operations

end World

inductive Event
  /-- `OnAccepted` -/
  | connect (c : ℕ)
  /-- `JoinServerReply` loads the character. -/
  | load (c : ℕ) (o : Load)
  /-- `JoinServerReply` assigns the `SocketConnector`. -/
  | assignSocket (c : ℕ)
  | createNpc
  | createWarpgate
  | bulkDestroy (es : List Entity)
  | update (handled : List Handled)
  /-- `OnDisconnected` -/
  | disconnect (c : ℕ)
  /-- The client is taken off `client_list_`. -/
  | unlist (c : ℕ)
  /-- The object of a client goes. -/
  | release (c : ℕ)

/-- The entity that `loadCharacter` returns. -/
def loadedEntity (r : Registry) : Load → Option Entity
  | .loaded _ => some r.created
  | _ => none

def next (b : Buckets) (w : World) : Event → World
  | .connect c =>
      if (w.clients c).phase = .absent then
        w.setClient c { phase := .connected, listed := true }
      else w
  | .load c o =>
      let cl := w.clients c
      if cl.phase = .connected ∧ !cl.joined then
        (w.withRegistry (w.registry.loadCharacter b o)).setClient c
          { cl with joined := true, entity := loadedEntity w.registry o }
      else w
  | .assignSocket c =>
      (w.clients c).entity.elim w (fun e => w.withRegistry (w.registry.assignSocket e c))
  | .createNpc => w.withRegistry w.registry.createNpc
  | .createWarpgate => w.withRegistry w.registry.createWarpgate
  | .bulkDestroy es => w.withRegistry (w.registry.bulkDestroy es)
  | .update handled => w.tick b handled
  | .disconnect c =>
      let cl := w.clients c
      if cl.phase = .connected then
        (w.withRegistry (cl.entity.elim w.registry w.registry.destroy)).setClient c
          { cl with phase := .disconnected }
      else w
  | .unlist c => w.setClient c { w.clients c with listed := false }
  | .release c =>
      if (w.clients c).listed then w
      else w.setClient c { w.clients c with released := true }

def start : World := {}

end OsIrose.Views

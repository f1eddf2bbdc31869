/-
The map server: the entity system with the clients and the database.

`EntitySystem::update` holds the lock `access_` while it dispatches the packets queued,
updates the systems and runs the delete commands. It is split here: `dispatchFront` takes
one packet, `tick` is the part of `MovementSystem::update` for one entity, and
`runDeleteCommands` the end of an update. `CMapClient::HandlePacket` is split as well, into
the look at `login_state_` and the call of `EntitySystem::dispatch`.
-/
import OsIrose.EntitySystem

set_option autoImplicit false

namespace OsIrose.MapServer

open Function Inventory Characters Database
open Movement (Position Destination)
open MapClient (LoginState SrvJoinServerReply)

/-- A `CMapClient`. -/
structure Client (K : Type*) where
  loginState : LoginState := .DEFAULT
  sessionId : ℕ := 0
  userid : ℕ := 0
  charid : ℕ := 0
  /-- `entity_` -/
  entity : Option Entity := none
  /-- The results of the replies sent, oldest first. -/
  replies : List SrvJoinServerReply := []
  /-- The socket is open. -/
  connected : Bool := true
  /-- The object is gone. -/
  released : Bool := false
  /-- The packet that `HandlePacket` goes on with. -/
  checked : Option (Packet K) := none

structure World (K D : Type*) where
  es : EntitySystem K D
  clients : ℕ → Client K
  accounts : Accounts
  sessions : Sessions
  tables : Tables K D
  /-- The entities saved by `saveCharacter`, the last first. -/
  saved : List Entity := []

/-- A map server that nobody has joined. -/
def start {K D : Type*} (accounts : Accounts) (sessions : Sessions) (tables : Tables K D) :
    World K D where
  es :=
    { components := fun _ => none
      nameToEntity := fun _ => none
      idToEntity := fun _ => none
      dispatchers := fun _ => true }
  clients := fun _ => {}
  accounts := accounts
  sessions := sessions
  tables := tables

namespace World

variable {K D : Type*}

section Operations

variable (w : World K D)

/-- `getClient`. -/
def getClient (e : Entity) : Option ℕ :=
  ((w.es.components e).bind Components.socket).filter (fun c => !(w.clients c).released)

def setClient (c : ℕ) (cl : Client K) : World K D :=
  { w with clients := update w.clients c cl }

@[simp] theorem setClient_es (c : ℕ) (cl : Client K) : (w.setClient c cl).es = w.es := rfl

@[simp] theorem setClient_self (c : ℕ) (cl : Client K) : (w.setClient c cl).clients c = cl := by
  simp [setClient]

theorem setClient_of_ne {c c' : ℕ} (h : c' ≠ c) (cl : Client K) :
    (w.setClient c cl).clients c' = w.clients c' := by
  simp [setClient, h]

/-- `EntitySystem::saveCharacter`. -/
def saveCharacter (e : Entity) : World K D :=
  match w.es.components e with
  | some { position := some pos, rest := some rest, inventory := some items,
           character := some charId, .. } =>
      { w with
        tables := w.tables.saveCharacter charId pos rest items
        saved := e :: w.saved }
  | _ => w

/-- Carries out what a handler did for an entity of client `c`. -/
def perform (env : Env K) (e : Entity) (c : ℕ) (eff : Effect K D) : World K D :=
  let es := w.es.assign e eff.components
  let es := match eff.ground with
    | none => es
    | some item => es.buildItemEntity env eff.components item
  let w := { w with es }
  if eff.switches then
    -- `switch_server`, and the forced save
    (w.setClient c { w.clients c with loginState := .SWITCHING }).saveCharacter e
  else w

/-- `CMapClient::HandlePacket` looks at the login state. -/
def checkPacket (c : ℕ) (packet : Packet K) : World K D :=
  let cl := w.clients c
  if cl.connected ∧ cl.loginState = .LOGGEDIN ∧ cl.checked.isNone then
    w.setClient c { cl with checked := some packet }
  else w

/-- `EntitySystem::dispatch`, of the packet of a client that was checked. -/
def dispatch (c : ℕ) : World K D :=
  let cl := w.clients c
  let w' := w.setClient c { cl with checked := none }
  match cl.checked, cl.entity with
  | some packet, some e =>
      if (w.es.components e).isSome ∧ w.es.dispatchers packet.type then
        { w' with es := { w.es with toDispatch := w.es.toDispatch ++ [(e, packet)] } }
      else w'
  | _, _ => w'

/-- `EntitySystem::destroy`. -/
def destroy (entity : Option Entity) (save : Bool) : World K D :=
  match entity with
  | none => w
  | some e =>
      match w.es.components e with
      | none => w
      | some comps =>
          match comps.basic with
          | none => w
          | some basic =>
              if !basic.isOnMap then w
              else { w with es := { w.es.assign e
                  { comps with basic := some { basic with isOnMap := false } } with
                deleteCommands := w.es.deleteCommands ++ [(e, save)] } }

/-- `CMapClient::OnDisconnected`; what it does to `accounts` is in
`MapClient.onDisconnected`. -/
def onDisconnected (c : ℕ) : World K D :=
  let cl := w.clients c
  if cl.loginState = .DEFAULT then w.setClient c { cl with connected := false }
  else (w.destroy cl.entity (cl.loginState ≠ .SWITCHING)).setClient c
    { cl with loginState := .DEFAULT, connected := false }

/-- A delete command. -/
def runDeleteCommand (command : Entity × Bool) : World K D :=
  match w.es.components command.1 with
  | none => w
  | some comps =>
      let w := if command.2 then w.saveCharacter command.1 else w
      let es := comps.basic.elim w.es w.es.unregister
      { w with es := es.destroyEntity command.1 }

/-- The end of `EntitySystem::update`. -/
def runDeleteCommands : World K D :=
  let w' := w.es.deleteCommands.foldl runDeleteCommand w
  { w' with es := { w'.es with deleteCommands := [] } }

/-- The packets queued and the handlers left. -/
def withQueue (toDispatch : List (Entity × Packet K)) (dispatchers : PacketType → Bool) :
    World K D :=
  { w with es := { w.es with toDispatch, dispatchers } }

/-- A `create_commands_` entry for an NPC or a warpgate. -/
def createCommand (env : Env K) : World K D :=
  { w with es := { w.es with idManager := (w.es.idManager.getFreeId env.front).2 } }

end Operations

variable [Field K] [LinearOrder K] [FloorSemiring K]

/-- `EntitySystem::update` takes a packet off the queue; `SystemManager::dispatch` erases a
handler that finds the entity or its client gone. -/
def dispatchFront (env : Env K) (w : World K D) : World K D :=
  match w.es.toDispatch with
  | [] => w
  | (e, packet) :: rest =>
      let w := w.withQueue rest w.es.dispatchers
      if !w.es.dispatchers packet.type then w
      else match w.es.components e, w.getClient e with
        | some comps, some c => w.perform env e c (handle env comps packet)
        | _, _ => w.withQueue rest (update w.es.dispatchers packet.type false)

/-- The part of `MovementSystem::update` for one entity; `gate` is where the warpgate leads
to that `is_on_warpgate` finds. -/
def tick (env : Env K) (w : World K D) (e : Entity) (dt : K) (runSpeed : ℕ)
    (gate : Option (Destination K)) : World K D :=
  match w.es.components e with
  | none => w
  | some comps =>
      match comps.position, comps.destination with
      | some pos, some dest =>
          let client := w.getClient e
          w.perform env e (client.getD 0)
            (walkEffect env comps pos dest dt runSpeed gate client.isSome)
      | _, _ => w

end World

end OsIrose.MapServer

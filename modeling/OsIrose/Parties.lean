/-
The party system: `map/src/systems/partysystem.cpp`, with `rosecommon/include/partybase.h`
and `components/party.h`.

A party is a `PartyBase` that the `Party` components of its members share; who is in it is
kept in both. A `Party` component without a `PartyBase` stands for a request to make a
party that is not answered yet. When the component of a member is removed, the callback of
`PartySystem` takes the member out of the `PartyBase`, and where only one is left it removes
that one's component too, from within the callback.

Assigning a component to an entity that has one overwrites it.
-/
import OsIrose.Groups
import OsIrose.Runs

set_option autoImplicit false

namespace OsIrose.Parties

open Function Groups Runs

/-- An entity of the world. -/
abbrev Entity := ℕ

/-- The address of a `PartyBase`. -/
abbrev Addr := ℕ

/-- `CliPartyReq::Request`. -/
inductive Request
  | MAKE
  | JOIN
  | LEFT
  | CHANGE_OWNER
  | KICK
  /-- Any other code. -/
  | other (code : ℕ)
  deriving DecidableEq, Repr

/-- `PartyReply::PartyReply`. -/
inductive Reply
  | NOT_FOUND
  | BUSY
  | ACCEPT_MAKE
  | ACCEPT_JOIN
  | REJECT
  | DESTROY
  | FULL_MEMBERS
  | INVALID_LEVEL
  | CHANGE_OWNER
  | CHANGE_OWNER_DISCONNECT
  | NO_CHANGE_TARGET
  | KICK
  | DISCONNECT
  | REJOIN
  /-- Any other code. -/
  | other (code : ℕ)
  deriving DecidableEq, Repr

structure CliPartyReq where
  request : Request
  idXorTag : ℕ

structure CliPartyReply where
  reply : Reply
  idXorTag : ℕ

/-- The packets the system sends. -/
inductive Packet
  /-- `PARTY_REPLY` that no client has the id. -/
  | notFound (idXorTag : ℕ)
  | partyReply (reply : Reply) (about : Entity)
  | partyReq (request : Request) (requester : Entity)
  | partyMember (options : ℕ) (isDelete : Bool) (members : List Entity)
  deriving DecidableEq, Repr

/-- The `Party` component. -/
structure Party where
  isRequested : Bool := false
  isKicked : Bool := false
  party : Option Addr := none
  deriving DecidableEq, Repr

structure PartyBase where
  leader : Entity
  members : List Entity
  options : ℕ := 0
  capacity : ℕ := 5
  deriving DecidableEq, Repr

/-! ## `PartyBase` -/

namespace PartyBase

/-- `PartyBase(Entity leader)`. -/
def make (leader : Entity) : PartyBase where
  leader := leader
  members := [leader]

def isMember (base : PartyBase) (member : Entity) : Bool :=
  member ∈ base.members

/-- `addMember`. What it answers is not used. -/
def addMember (base : PartyBase) (member : Entity) : PartyBase :=
  if base.isMember member then base else { base with members := base.members ++ [member] }

@[simp] theorem addMember_capacity (base : PartyBase) (member : Entity) :
    (base.addMember member).capacity = base.capacity := by
  rw [addMember]
  split <;> rfl

/-- `removeMember`: the base after it, and whether it evaluates `members_[0]` on an empty
list; or `none` for `false`. -/
def removeMember (base : PartyBase) (member : Entity) : Option (PartyBase × Bool) :=
  if !base.isMember member then none
  else
    let members := base.members.erase member
    if base.leader = member then
      match members with
      | [] => some ({ base with members }, true)
      | first :: _ => some ({ base with members, leader := first }, false)
    else some ({ base with members }, false)

/-- `changeLeader`: the base after it, or `none` for `false`. -/
def changeLeader (base : PartyBase) (leader : Entity) : Option PartyBase :=
  if !base.isMember leader || leader = base.leader then none else some { base with leader }

end PartyBase

/-! ## The state -/

/-- What the system reads of the rest of the server. -/
structure Env where
  /-- `getEntity(charId)`. -/
  getEntity : ℕ → Option Entity
  /-- Whether `getClient(entity)` is there. -/
  client : Entity → Bool
  /-- Whether the entity has a `BasicInfo`. -/
  info : Entity → Bool

structure World where
  env : Env
  component : Entity → Option Party
  bases : Addr → PartyBase
  /-- The addresses from here on have not been used. -/
  fresh : Addr
  /-- `members_[0]` has been evaluated on an empty list. -/
  faulted : Bool
  sent : List (Entity × Packet)

namespace World

/-- The party of an entity. -/
def group (w : World) (e : Entity) : Option Addr :=
  (w.component e).bind (·.party)

/-- Each of the entities that has a client is sent the packet. -/
def send (w : World) (targets : List Entity) (packet : Packet) : World :=
  { w with sent := w.sent ++ (targets.filter w.env.client).map (fun e => (e, packet)) }

def setComponent (w : World) (e : Entity) (c : Option Party) : World :=
  { w with component := update w.component e c }

def setBase (w : World) (p : Addr) (base : PartyBase) : World :=
  { w with bases := update w.bases p base }

/-! ## Removing a `Party` component -/

/-- `entity.remove<Party>()` with the callback on it. The callback may remove the component
of the last member; `fuel` bounds how deep. -/
def removeFuel (fuel : ℕ) (w : World) (entity : Entity) : World :=
  match w.component entity with
  | none => w
  | some c =>
      let w := match c.party with
        | none => w
        | some p => match (w.bases p).removeMember entity with
          | none => w
          | some (base, fault) =>
              let w := { w.setBase p base with faulted := w.faulted || fault }
              let starter := if c.isKicked then base.leader else entity
              let w := w.send [entity] (.partyReply .DESTROY starter)
              let w := match base.members, fuel with
                | [last], fuel + 1 => removeFuel fuel w last
                | _, _ => w
              w.send (w.bases p).members (.partyMember base.options true [entity])
      w.setComponent entity none

/-- Every removal within the callback leaves a shorter list of members. -/
def removeParty (w : World) (entity : Entity) : World :=
  match w.group entity with
  | none => w.removeFuel 0 entity
  | some p => w.removeFuel (w.bases p).members.length entity

/-! ## The system -/

/-- `PartySystem::update`. -/
def update (w : World) : World :=
  { w with component := fun e => match w.component e with
      | some c => if w.env.info e && c.party.isNone && !c.isRequested then none else some c
      | none => none }

/-- `PartySystem::addPartyMember`. -/
def addPartyMember (w : World) (leader newMember : Entity) : World :=
  match w.component leader with
  | none => w
  | some c =>
      if (w.component newMember).isSome then w
      else
        let (p, w) := match c.party with
          | some p => (p, w)
          | none =>
              let w' := w.setBase w.fresh (.make leader)
              (w.fresh, { w'.setComponent leader (some { c with party := some w.fresh }) with
                fresh := w.fresh + 1 })
        let w := w.setComponent newMember (some { party := some p })
        let base := w.bases p
        let w := w.send base.members (.partyMember base.options false [newMember])
        let w := w.send [newMember] (.partyMember base.options false base.members)
        w.setBase p (base.addMember newMember)

/-- `PartySystem::changeLeader`. -/
def changeLeader (w : World) (leader newLeader : Entity) : World :=
  match w.group leader with
  | none => w
  | some p => match (w.bases p).changeLeader newLeader with
    | none => w
    | some base => (w.setBase p base).send base.members (.partyReply .CHANGE_OWNER newLeader)

/-- `manager_.getEntity(id)`, if it has a client. -/
def find (w : World) (id : ℕ) : Option Entity :=
  (w.env.getEntity id).filter w.env.client

/-- `PartySystem::processPartyReq`. -/
def processPartyReq (w : World) (entity : Entity) (packet : CliPartyReq) : World :=
  match w.find packet.idXorTag with
  | none => w.send [entity] (.notFound packet.idXorTag)
  | some other => match packet.request with
    | .MAKE =>
        if (w.group entity).isSome then w
        else
          let w := w.setComponent entity (some { isRequested := true })
          w.send [other] (.partyReq .MAKE entity)
    | .JOIN => match w.component entity with
        | some { isKicked, party := some p, .. } =>
            let w := w.setComponent entity (some { isRequested := true, isKicked, party := some p })
            w.send [other] (.partyReq .JOIN entity)
        | _ => w
    | .LEFT => if (w.component entity).isNone then w else w.removeParty entity
    | .CHANGE_OWNER => match w.group entity with
        | none => w
        | some p => if (w.bases p).leader ≠ entity then w else w.changeLeader entity other
    | .KICK => match w.group entity with
        | none => w
        | some p =>
            if !(w.bases p).isMember other then w
            else
              let kicked := (w.component other).map (fun c => { c with isKicked := true })
              (w.setComponent other kicked).removeParty other
    | .other _ => w

/-- `PartySystem::processPartyReply`. -/
def processPartyReply (w : World) (entity : Entity) (packet : CliPartyReply) : World :=
  match w.find packet.idXorTag with
  | none => w
  | some other => match w.component other with
    | none => w
    | some c =>
        if !c.isRequested then w
        else
          let answered := w.setComponent other (some { c with isRequested := false })
          match packet.reply with
          | .BUSY | .REJECT =>
              let w := if c.party.isNone then answered.removeParty other else answered
              w.send [other] (.partyReply packet.reply entity)
          | .ACCEPT_MAKE | .ACCEPT_JOIN =>
              (answered.send [other] (.partyReply packet.reply entity)).addPartyMember other entity
          | _ => w

end World

/-! ## Events -/

inductive Event
  /-- The rest of the server moves on. -/
  | env (env : Env)
  | req (entity : Entity) (packet : CliPartyReq)
  | reply (entity : Entity) (packet : CliPartyReply)
  | update
  /-- `entity.destroy()`, with the callback. -/
  | destroy (entity : Entity)

def next (w : World) : Event → World
  | .env env => { w with env }
  | .req entity packet => w.processPartyReq entity packet
  | .reply entity packet => w.processPartyReply entity packet
  | .update => w.update
  | .destroy entity => w.removeParty entity

/-- No entity has a `Party` component yet. -/
def start (env : Env) : World where
  env
  component _ := none
  bases _ := { leader := 0, members := [] }
  fresh := 0
  faulted := false
  sent := []

/-- Every number is the id of an entity with a client. -/
def everyone : Env where
  getEntity := some
  client := fun _ => true
  info := fun _ => true

/-- `a` invites `b`, who accepts. -/
def invite (request : Request) (reply : Reply) (a b : Entity) : List Event :=
  [.req a ⟨request, b⟩, .reply b ⟨reply, a⟩]

end OsIrose.Parties

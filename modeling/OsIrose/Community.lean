/-
The entities of a map server, their clients, their parties and their chat, as one system:
`map/src/entitysystem.cpp`, `map/src/systems/partysystem.cpp`, `map/src/systems/chatsystem.cpp`
and `map/src/systems/mapsystem.cpp`.

`Views` has the entities and the clients, `Parties` the parties of entities that are whatever
they are. Here the party system finds entities and clients in the former, and an entity that is
destroyed leaves its party. An update runs the create commands, dispatches packets, updates the
party system and runs the delete commands; what happens outside of updates is an event of
`Views`.

Whispers go to the character of that name, party chat to the members of the party. Normal chat is
heard by who is near (`Broadcast`), and no position is kept here. While an entity is destroyed,
its components go one by one, so whether it still has its client when its party hears of it is
left open: what the party system sends is no concern here.
-/
import OsIrose.PartyRoster
import OsIrose.ViewRuns

set_option autoImplicit false

namespace OsIrose.Community

open Function Runs
open MapServer (Entity Id BasicInfo)
open Parties (Addr CliPartyReply CliPartyReq)
open Registry (Buckets Delete)

/-- A line of chat. -/
inductive Line
  /-- `SrvWhisperChat` -/
  | whisper (senderId message : String)
  /-- `SrvPartyChat` -/
  | party (charId : Id) (message : String)
  deriving DecidableEq

inductive Packet
  | changeMapReq
  /-- One that drops something. -/
  | dropItem
  | partyReq (packet : CliPartyReq)
  | partyReply (packet : CliPartyReply)
  | whisperChat (targetId message : String)
  | partyChat (message : String)

structure World where
  views : Views.World
  parties : Parties.World
  /-- The lines that a client was sent, newest first. -/
  lines : ℕ → List Line := fun _ => []

namespace World

section Operations

variable (b : Buckets) (w : World)

def registry : Registry :=
  w.views.registry

def basic (e : Entity) : Option BasicInfo :=
  (w.registry.components e).bind Registry.Components.basic

/-- `getClient` -/
def getClient (e : Entity) : Option ℕ :=
  w.views.getClient e

/-- `getEntity`, by name. -/
def getEntityByName (name : String) : Option Entity :=
  w.registry.getEntityByName name

/-- `getEntity`, by id: the ids are `uint16_t`, `charId` is not. -/
def getEntityById (charId : ℕ) : Option Entity :=
  if h : charId < 65536 then w.registry.getEntityById ⟨charId, h⟩ else none

/-- What the party system finds. -/
def env : Parties.Env where
  getEntity := w.getEntityById
  client e := (w.getClient e).isSome
  info e := (w.basic e).isSome

/-- The party system does something. -/
def party (f : Parties.World → Parties.World) : World :=
  { w with parties := f { w.parties with env := w.env } }

/-- `client.send` -/
def send (c : ℕ) (line : Line) : World :=
  { w with lines := update w.lines c (line :: w.lines c) }

/-- Each of the entities that has a client is sent the line. -/
def sendAll (es : List Entity) (line : Line) : World :=
  (es.filterMap w.getClient).foldl (fun w c => w.send c line) w

/-! ### Handlers -/

/-- `ChatSystem::sendMsg` -/
def sendMsg (e : Entity) (msg : String) : World :=
  match w.getClient e with
  | none => w
  | some c => w.send c (.whisper "server" msg)

/-- `MapSystem::processChangeMapReq` -/
def processChangeMapReq (e : Entity) : World :=
  match w.basic e with
  | none => w
  | some basic =>
      let w := w.sendMsg e ("You are client " ++ toString basic.id.val)
      { w with views := w.views.processChangeMapReq b e }

/-- `ChatSystem::whisperChat` -/
def whisperChat (client : ℕ) (e : Entity) (targetId message : String) : World :=
  match w.basic e with
  | none => w
  | some basic => match (w.getEntityByName targetId).bind w.getClient with
    | none => w.send client (.whisper "" "User cannot be found or is offline")
    | some socket => w.send socket (.whisper basic.name message)

/-- `ChatSystem::partyChat` -/
def partyChat (e : Entity) (message : String) : World :=
  match w.basic e, w.parties.group e with
  | some basic, some p => w.sendAll (w.parties.bases p).members (.party basic.id message)
  | _, _ => w

/-- A packet is dispatched if its entity has a client. -/
def dispatch (e : Entity) (packet : Packet) : World :=
  match w.getClient e with
  | none => w
  | some client => match packet with
    | .changeMapReq => w.processChangeMapReq b e
    | .dropItem => { w with views := w.views.dropItem b }
    | .partyReq packet => w.party (·.processPartyReq e packet)
    | .partyReply packet => w.party (·.processPartyReply e packet)
    | .whisperChat targetId message => w.whisperChat client e targetId message
    | .partyChat message => w.partyChat e message

/-! ### `update` -/

def runCreates : World :=
  { w with views := w.views.runCreates b }

def dispatchAll (packets : List (Entity × Packet)) : World :=
  packets.foldl (fun w p => w.dispatch b p.1 p.2) w

/-- One entity of `bulk_destroy`. -/
def removeEntity (e : Entity) : World :=
  { w with views := w.views.removeEntity e }.party (·.removeParty e)

def runDelete : Delete → World
  | .destroy e => { w with views := w.views.runDelete (.destroy e) }.party (·.removeParty e)
  | .bulkDestroy es => es.foldl removeEntity w

def runDeletes : World :=
  let w := w.registry.deleteCommands.foldl runDelete w
  { w with views := w.views.withRegistry { w.registry with deleteCommands := [] } }

/-- `EntitySystem::update` -/
def tick (packets : List (Entity × Packet)) : World :=
  (((w.runCreates b).dispatchAll b packets).party Parties.World.update).runDeletes

end Operations

end World

def isUpdate : Views.Event → Bool
  | .update _ => true
  | _ => false

inductive Event
  | outside (e : Views.Event) (h : isUpdate e = false)
  | update (packets : List (Entity × Packet))

def next (b : Buckets) (w : World) : Event → World
  | .outside e _ => { w with views := Views.next b w.views e }
  | .update packets => w.tick b packets

/-- Nobody is there. -/
def nobody : Parties.Env where
  getEntity _ := none
  client _ := false
  info _ := false

/-- A map server that nobody has joined. -/
def start : World where
  views := Views.start
  parties := Parties.start nobody

/-! ## Seen from the models below -/

section Projection

variable {b : Buckets} {w : World}

@[simp] theorem party_views (f : Parties.World → Parties.World) :
    (w.party f).views = w.views := rfl

/-- Chat changes nothing else. -/
structure Talk (w w' : World) : Prop where
  views : w'.views = w.views
  parties : w'.parties = w.parties

theorem talk_sendAll (es : List Entity) (line : Line) : Talk w (w.sendAll es line) := by
  refine foldl_invariant (Talk w) (fun w' c h => ?_) ⟨rfl, rfl⟩ _
  exact ⟨h.views, h.parties⟩

theorem talk_sendMsg (e : Entity) (msg : String) : Talk w (w.sendMsg e msg) := by
  unfold World.sendMsg
  split <;> exact ⟨rfl, rfl⟩

theorem talk_whisperChat (c : ℕ) (e : Entity) (targetId message : String) :
    Talk w (w.whisperChat c e targetId message) := by
  unfold World.whisperChat
  split
  · exact ⟨rfl, rfl⟩
  · split <;> exact ⟨rfl, rfl⟩

theorem talk_partyChat (e : Entity) (message : String) : Talk w (w.partyChat e message) := by
  unfold World.partyChat
  split
  · exact talk_sendAll _ _
  · exact ⟨rfl, rfl⟩

/-- What a packet does to the entities and the clients, or to the parties. -/
inductive Dispatched (b : Buckets) (w w' : World) : Prop
  | talk (h : Talk w w')
  | views (h : Registry.Handled) (hviews : w'.views = w.views.handle b h)
      (hparties : w'.parties = w.parties)
  | parties (e : Entity) (c : ℕ) (packet : CliPartyReq ⊕ CliPartyReply)
      (hclient : w.getClient e = some c) (hviews : w'.views = w.views)
      (hparties : w'.parties = Parties.next { w.parties with env := w.env }
        (packet.elim (.req e) (.reply e)))

theorem dispatch_dispatched (e : Entity) (packet : Packet) :
    Dispatched b w (w.dispatch b e packet) := by
  unfold World.dispatch
  cases hclient : w.getClient e with
  | none => exact .talk ⟨rfl, rfl⟩
  | some c =>
      cases packet with
      | changeMapReq =>
          simp only [World.processChangeMapReq]
          split
          · exact .talk ⟨rfl, rfl⟩
          · rename_i basic _
            obtain ⟨hviews, hparties⟩ :=
              talk_sendMsg (w := w) e ("You are client " ++ toString basic.id.val)
            exact .views (.changeMap e) (congrArg (Views.World.processChangeMapReq b · e) hviews)
              hparties
      | dropItem => exact .views .buildItem rfl rfl
      | partyReq packet => exact .parties e c (.inl packet) hclient rfl rfl
      | partyReply packet => exact .parties e c (.inr packet) hclient rfl rfl
      | whisperChat targetId message => exact .talk (talk_whisperChat c e targetId message)
      | partyChat message => exact .talk (talk_partyChat e message)

theorem dispatchAll_views (packets : List (Entity × Packet)) : ∃ handled : List Registry.Handled,
    (w.dispatchAll b packets).views = handled.foldl (Views.World.handle b) w.views := by
  induction packets generalizing w with
  | nil => exact ⟨[], rfl⟩
  | cons p packets ih =>
      obtain ⟨handled, hrest⟩ := ih (w := w.dispatch b p.1 p.2)
      have hall : (w.dispatchAll b (p :: packets)).views =
          handled.foldl (Views.World.handle b) (w.dispatch b p.1 p.2).views := hrest
      cases dispatch_dispatched (b := b) (w := w) p.1 p.2 with
      | talk h => exact ⟨handled, by rw [hall, h.views]⟩
      | views h hviews _ => exact ⟨h :: handled, by rw [hall, hviews]; rfl⟩
      | parties e c packet _ hviews _ => exact ⟨handled, by rw [hall, hviews]⟩

@[simp] theorem runDelete_views (d : Delete) : (w.runDelete d).views = w.views.runDelete d := by
  cases d with
  | destroy e => rfl
  | bulkDestroy es => exact (List.foldl_hom World.views fun _ _ => rfl).symm

theorem runDeletes_views : w.runDeletes.views = w.views.runDeletes := by
  have hloop : (w.registry.deleteCommands.foldl World.runDelete w).views =
      w.views.registry.deleteCommands.foldl Views.World.runDelete w.views :=
    (List.foldl_hom World.views fun w d => (runDelete_views (w := w) d).symm).symm
  exact congrArg (fun v : Views.World => v.withRegistry { v.registry with deleteCommands := [] })
    hloop

theorem tick_views (packets : List (Entity × Packet)) : ∃ handled,
    (w.tick b packets).views = w.views.tick b handled := by
  obtain ⟨handled, h⟩ := dispatchAll_views (b := b) (w := w.runCreates b) packets
  refine ⟨handled, ?_⟩
  rw [World.tick, runDeletes_views, party_views, h]
  rfl

/-- **The entities and the clients are as in `Views`.** -/
theorem views_next (e : Event) : ∃ e', (next b w e).views = Views.next b w.views e' := by
  cases e with
  | outside e _ => exact ⟨e, rfl⟩
  | update packets =>
      obtain ⟨handled, h⟩ := tick_views (b := b) (w := w) packets
      exact ⟨.update handled, h⟩

/-! ### The parties -/

/-- The party system takes steps of its own. -/
def Follows (p p' : Parties.World) : Prop :=
  ∃ es : List Parties.Event, p' = es.foldl Parties.next p

theorem Follows.refl (p : Parties.World) : Follows p p :=
  ⟨[], rfl⟩

theorem Follows.trans {p p' p'' : Parties.World} (h : Follows p p') (h' : Follows p' p'') :
    Follows p p'' := by
  obtain ⟨es, rfl⟩ := h
  obtain ⟨es', rfl⟩ := h'
  exact ⟨es ++ es', (List.foldl_append ..).symm⟩

theorem follows_party (e : Parties.Event) :
    Follows w.parties (w.party (Parties.next · e)).parties :=
  ⟨[.env w.env, e], rfl⟩

theorem follows_dispatch (e : Entity) (packet : Packet) :
    Follows w.parties (w.dispatch b e packet).parties := by
  cases dispatch_dispatched (b := b) (w := w) e packet with
  | talk h => exact h.parties ▸ .refl w.parties
  | views _ _ hparties => exact hparties ▸ .refl w.parties
  | parties e c packet _ _ hparties =>
      exact ⟨[.env w.env, packet.elim (.req e) (.reply e)], hparties⟩

theorem follows_removeEntity (e : Entity) : Follows w.parties (w.removeEntity e).parties :=
  ⟨[.env { w with views := w.views.removeEntity e }.env, .destroy e], rfl⟩

theorem follows_runDelete (d : Delete) : Follows w.parties (w.runDelete d).parties := by
  cases d with
  | destroy e =>
      exact ⟨[.env { w with views := w.views.runDelete (.destroy e) }.env, .destroy e], rfl⟩
  | bulkDestroy es =>
      exact foldl_invariant (fun w' : World => Follows w.parties w'.parties)
        (fun _ e h => h.trans (follows_removeEntity e)) (.refl w.parties) es

theorem follows_dispatchAll (packets : List (Entity × Packet)) :
    Follows w.parties (w.dispatchAll b packets).parties := by
  unfold World.dispatchAll
  refine foldl_invariant (fun w' : World => Follows w.parties w'.parties) (fun w' p h => ?_)
    (.refl w.parties) packets
  exact h.trans (follows_dispatch p.1 p.2)

theorem follows_runDeletes : Follows w.parties w.runDeletes.parties := by
  show Follows w.parties (w.registry.deleteCommands.foldl World.runDelete w).parties
  refine foldl_invariant (fun w' : World => Follows w.parties w'.parties) (fun w' d h => ?_)
    (.refl w.parties) _
  exact h.trans (follows_runDelete d)

theorem follows_tick (packets : List (Entity × Packet)) :
    Follows w.parties (w.tick b packets).parties :=
  ((follows_dispatchAll (w := w.runCreates b) packets).trans (follows_party .update)).trans
    follows_runDeletes

/-- **The parties are as in `Parties`.** -/
theorem follows_next (e : Event) : Follows w.parties (next b w e).parties := by
  cases e with
  | outside e _ => exact .refl w.parties
  | update packets => exact follows_tick packets

end Projection

/-! ## Who is in a party -/

/-- The entity is there, and is a character. -/
def World.IsCharacter (w : World) (e : Entity) : Prop :=
  (w.registry.who e).join ≠ none

/-- What holds between two steps. -/
structure World.Inv (w : World) : Prop where
  views : w.views.Inv
  parties : w.parties.Inv
  member : ∀ e p, w.parties.group e = some p → w.IsCharacter e

theorem Follows.inv {p p' : Parties.World} (h : Follows p p') (hp : p.Inv) : p'.Inv := by
  obtain ⟨es, rfl⟩ := h
  exact foldl_invariant Parties.World.Inv (fun _ e hp => hp.next e) hp es

section Invariant

variable {b : Buckets} {w : World}

/-- Whoever comes into a party does so by a reply, of its own or to its request. -/
theorem group_next {p : Parties.World} (hp : p.Inv) {ev : Parties.Event} {e : Entity} {g : Addr}
    (h : (Parties.next p ev).group e = some g) : p.group e = some g ∨
      ∃ entity packet, ev = .reply entity packet ∧
        (e = entity ∨ p.find packet.idXorTag = some e) := by
  have hroster := (Parties.next_effect p ev).roster hp
  have hgroup : (p.roster.apply (Parties.action p ev)).group e = some g := by
    rw [← hroster]
    exact h
  refine (Groups.Roster.group_apply hgroup).imp id fun hnew => ?_
  cases ev with
  | env _ => exact absurd hnew List.not_mem_nil
  | req entity packet =>
      refine absurd hnew ?_
      simp only [Parties.action]
      repeat' split
      all_goals exact List.not_mem_nil
  | reply entity packet =>
      refine ⟨entity, packet, rfl, ?_⟩
      simp only [Parties.action] at hnew
      cases hadmits : p.admits entity packet with
      | none =>
          rw [hadmits] at hnew
          exact absurd hnew List.not_mem_nil
      | some admitted =>
          obtain ⟨other, c⟩ := admitted
          obtain ⟨hfind, -⟩ := Parties.World.admits_eq_some.mp hadmits
          rw [hadmits] at hnew
          cases hparty : c.party with
          | none =>
              simp only [hparty, Groups.Action.newcomers, List.mem_cons, List.not_mem_nil,
                or_false] at hnew
              obtain rfl | rfl := hnew
              · exact Or.inr hfind
              · exact Or.inl rfl
          | some g' =>
              simp only [hparty, Groups.Action.newcomers, List.mem_singleton] at hnew
              exact Or.inl hnew
  | update => exact absurd hnew List.not_mem_nil
  | destroy entity => exact absurd hnew List.not_mem_nil

/-- Only characters have a client. -/
theorem isCharacter_of_client (hw : w.registry.Sound) {e : Entity} {c : ℕ}
    (h : w.getClient e = some c) : w.IsCharacter e := by
  obtain ⟨hsocket, -⟩ := Option.filter_eq_some_iff.mp h
  obtain ⟨comps, hcomps, hc⟩ := Option.bind_eq_some_iff.mp hsocket
  have hsound := hw.components e comps hcomps
  have hcharacter := hsound.socket (by simp [hc])
  have hbasic := hsound.basic hcharacter
  rw [World.IsCharacter, Registry.who]
  simp [World.registry, hcomps, Registry.Components.keys, hcharacter, hbasic]

theorem isCharacter_of_find (hw : w.registry.Sound) {charId : ℕ} {e : Entity}
    (h : Parties.World.find { w.parties with env := w.env } charId = some e) : w.IsCharacter e := by
  obtain ⟨-, hclient⟩ := Option.filter_eq_some_iff.mp h
  obtain ⟨c, hc⟩ := Option.isSome_iff_exists.mp hclient
  exact isCharacter_of_client hw hc

/-- A step that keeps the parties, and every character. -/
theorem World.Inv.of_quiet {w' : World} (hw : w.Inv) (hviews : w'.views.Inv)
    (hparties : w'.parties = w.parties) (hquiet : Registry.Quiet w.registry w'.registry) :
    w'.Inv where
  views := hviews
  parties := hparties ▸ hw.parties
  member := by
    intro e p he
    rw [hparties] at he
    rw [World.IsCharacter, hquiet.join e]
    exact hw.member e p he

theorem views_inv_handle {v : Views.World} (hv : v.Inv) (h : Registry.Handled) :
    (v.handle b h).Inv := by
  obtain ⟨hkept, hinv, hsame⟩ := Views.handles_kept (b := b) hv.registry hv.kept [h]
  exact ⟨hinv, hsame ▸ hkept⟩

theorem quiet_handle (v : Views.World) (h : Registry.Handled) :
    Registry.Quiet v.registry (v.handle b h).registry := by
  obtain hskip | hdone := Views.handle_registry (b := b) (w := v) h
  · rw [hskip]
    exact .refl v.registry
  · rw [hdone]
    exact Registry.quiet_handle h

theorem quiet_runCreates (hw : w.Inv) : Registry.Quiet w.registry (w.runCreates b).registry := by
  have hquiet := Registry.quiet_runCreates (b := b) hw.views.registry
  rwa [← Views.runCreates_registry] at hquiet

theorem inv_runCreates (hw : w.Inv) : (w.runCreates b).Inv := by
  obtain ⟨hinv, hgrows⟩ := Registry.runCreates_spec (b := b) hw.views.registry
  have hkept := Views.runCreates_kept (b := b) hw.views.registry hw.views.kept
  rw [← Views.runCreates_registry] at hinv hgrows
  exact hw.of_quiet ⟨hinv, hgrows.deletes ▸ hkept⟩ rfl (quiet_runCreates hw)

theorem quiet_dispatch (e : Entity) (packet : Packet) :
    Registry.Quiet w.registry (w.dispatch b e packet).registry := by
  rw [World.registry, World.registry]
  cases dispatch_dispatched (b := b) (w := w) e packet with
  | talk h =>
      rw [h.views]
      exact .refl w.registry
  | views h hviews _ => exact hviews ▸ quiet_handle w.views h
  | parties _ _ _ _ hviews _ =>
      rw [hviews]
      exact .refl w.registry

theorem inv_dispatch (hw : w.Inv) (e : Entity) (packet : Packet) :
    (w.dispatch b e packet).Inv := by
  have hquiet := quiet_dispatch (b := b) (w := w) e packet
  cases dispatch_dispatched (b := b) (w := w) e packet with
  | talk h => exact hw.of_quiet (h.views ▸ hw.views) h.parties hquiet
  | views h hviews hparties =>
      exact hw.of_quiet (hviews ▸ views_inv_handle hw.views h) hparties hquiet
  | parties e' c packet' hclient hviews hparties =>
      have henv : Parties.World.Inv { w.parties with env := w.env } := hw.parties.next (.env w.env)
      refine ⟨hviews ▸ hw.views, hparties ▸ henv.next _, fun e₁ p he₁ => ?_⟩
      rw [World.IsCharacter, hquiet.join e₁]
      rw [hparties] at he₁
      obtain hold | ⟨entity, reply, hev, hnew⟩ := group_next henv he₁
      · exact hw.member e₁ p hold
      · obtain rfl : e' = entity := by
          cases packet' with
          | inl req => exact absurd hev (by simp)
          | inr _ => exact (Parties.Event.reply.inj hev).1
        obtain rfl | hfind := hnew
        · exact isCharacter_of_client hw.views.registry.toSound hclient
        · exact isCharacter_of_find hw.views.registry.toSound hfind

theorem inv_dispatchAll (hw : w.Inv) (packets : List (Entity × Packet)) :
    (w.dispatchAll b packets).Inv :=
  foldl_invariant World.Inv (fun _ p hw => inv_dispatch hw p.1 p.2) hw packets

/-- `PartySystem::update` gets nobody into a party. -/
theorem inv_partyUpdate (hw : w.Inv) : (w.party Parties.World.update).Inv := by
  have henv : Parties.World.Inv { w.parties with env := w.env } := hw.parties.next (.env w.env)
  refine ⟨hw.views, henv.next .update, fun e p he => ?_⟩
  have hgroup : (Parties.next { w.parties with env := w.env } .update).group e = some p := he
  obtain hold | ⟨_, _, hev, _⟩ := group_next henv hgroup
  · exact hw.member e p hold
  · exact absurd hev (by simp)

/-! ### The delete commands -/

theorem group_removeParty {p : Parties.World} (hp : p.Inv) {e e' : Entity} {g : Addr}
    (h : (p.removeParty e).group e' = some g) : e' ≠ e ∧ p.group e' = some g := by
  have hgroup : (p.roster.leave e).group e' = some g := by
    rw [← hp.roster_removeParty e]
    exact h
  exact Groups.Roster.group_leave hgroup

/-- Who is destroyed leaves its party. -/
theorem group_runDelete (hp : w.parties.Inv) {d : Delete} {e : Entity} {g : Addr}
    (h : (w.runDelete d).parties.group e = some g) :
    e ∉ d.targets ∧ w.parties.group e = some g := by
  cases d with
  | destroy e' =>
      have hp' : ∀ env, Parties.World.Inv { w.parties with env } := fun env => hp.next (.env env)
      obtain ⟨hne, hold⟩ := group_removeParty (hp' _) h
      exact ⟨fun hmem => hne (List.mem_singleton.mp hmem), hold⟩
  | bulkDestroy es =>
      show e ∉ es ∧ _
      replace h : (es.foldl World.removeEntity w).parties.group e = some g := h
      induction es generalizing w with
      | nil => exact ⟨List.not_mem_nil, h⟩
      | cons e' es ih =>
          obtain ⟨hnot, hrest⟩ := ih ((follows_removeEntity e').inv hp) h
          have hp' : ∀ env, Parties.World.Inv { w.parties with env } :=
            fun env => hp.next (.env env)
          obtain ⟨hne, hold⟩ := group_removeParty (hp' _) hrest
          exact ⟨List.not_mem_cons_of_ne_of_not_mem hne hnot, hold⟩

theorem who_runDelete (d : Delete) (e : Entity) : (w.runDelete d).registry.who e =
    if e ∈ d.targets then none else w.registry.who e := by
  rw [World.registry, runDelete_views, Views.runDelete_registry, Registry.who,
    Registry.runDelete_components]
  dsimp only
  split_ifs <;> rfl

theorem member_runDeletes (hw : w.Inv) {e : Entity} {p : Addr}
    (he : w.runDeletes.parties.group e = some p) : w.runDeletes.IsCharacter e := by
  have hloop : ∀ ds : List Delete, (ds.foldl World.runDelete w).parties.Inv ∧
      ∀ e p, (ds.foldl World.runDelete w).parties.group e = some p →
        (ds.foldl World.runDelete w).IsCharacter e := by
    intro ds
    refine foldl_invariant (fun w' : World => w'.parties.Inv ∧
      ∀ e p, w'.parties.group e = some p → w'.IsCharacter e) ?_ ⟨hw.parties, hw.member⟩ ds
    rintro w' d ⟨hp, hmember⟩
    refine ⟨(follows_runDelete d).inv hp, fun e p he => ?_⟩
    obtain ⟨hnot, hold⟩ := group_runDelete hp he
    rw [World.IsCharacter, who_runDelete, if_neg hnot]
    exact hmember e p hold
  exact (hloop w.registry.deleteCommands).2 e p he

theorem inv_runDeletes (hw : w.Inv) : w.runDeletes.Inv where
  views := by
    have hinv := (Registry.runDeletes_spec hw.views.registry).1
    have hkept := Views.runDeletes_kept hw.views.registry hw.views.kept
    rw [runDeletes_views]
    rw [← Views.runDeletes_registry] at hinv
    exact ⟨hinv, hkept⟩
  parties := follows_runDeletes.inv hw.parties
  member _ _ he := member_runDeletes hw he

theorem inv_tick (hw : w.Inv) (packets : List (Entity × Packet)) : (w.tick b packets).Inv :=
  inv_runDeletes (inv_partyUpdate (inv_dispatchAll (inv_runCreates hw) packets))

/-! ### Between updates -/

/-- What an event that is no update does to the registry. -/
inductive Outside (b : Buckets) (r : Registry) : Views.Event → Registry → Prop
  | quiet {e : Views.Event} {r' : Registry} (h : Registry.Quiet r r') : Outside b r e r'
  | load (c : ℕ) (name : String) :
      Outside b r (.load c (.loaded name)) (r.loadCharacter b (.loaded name))

theorem quiet_load {r : Registry} {o : Registry.Load} (h : ∀ name, o ≠ .loaded name) :
    Registry.Quiet r (r.loadCharacter b o) :=
  Registry.quiet_next (e := .loadCharacter o)
    (fun name he => h name (Registry.Event.loadCharacter.inj he)) (by simp)

theorem registry_outside {v : Views.World} {e : Views.Event} (h : isUpdate e = false) :
    Outside b v.registry e (Views.next b v e).registry := by
  cases e with
  | load c o =>
      simp only [Views.next]
      split_ifs
      · cases o with
        | loaded name => exact .load c name
        | missing => exact .quiet (quiet_load (b := b) (o := .missing) (by simp))
        | threw name => exact .quiet (quiet_load (b := b) (o := .threw name) (by simp))
      · exact .quiet (.refl v.registry)
  | assignSocket c =>
      simp only [Views.next]
      cases (v.clients c).entity with
      | none => exact .quiet (.refl v.registry)
      | some e =>
          exact .quiet (Registry.quiet_next (b := b) (e := .assignSocket e c) (by simp) (by simp))
  | createNpc => exact .quiet (Registry.quiet_next (b := b) (e := .createNpc) (by simp) (by simp))
  | createWarpgate =>
      exact .quiet (Registry.quiet_next (b := b) (e := .createWarpgate) (by simp) (by simp))
  | bulkDestroy es =>
      exact .quiet (Registry.quiet_next (b := b) (e := .bulkDestroy es) (by simp) (by simp))
  | update handled => exact absurd h (by simp [isUpdate])
  | disconnect c =>
      simp only [Views.next]
      split_ifs
      · cases (v.clients c).entity with
        | none => exact .quiet (.refl v.registry)
        | some e =>
            exact .quiet (Registry.quiet_next (b := b) (e := .destroy e) (by simp) (by simp))
      · exact .quiet (.refl v.registry)
  | connect c =>
      simp only [Views.next]
      split_ifs <;> exact .quiet (.refl v.registry)
  | unlist c => exact .quiet (.refl v.registry)
  | release c =>
      simp only [Views.next]
      split_ifs <;> exact .quiet (.refl v.registry)

/-- A character that is loaded is new. -/
theorem Outside.join {r r' : Registry} {e : Views.Event} (h : Outside b r e r') {e' : Entity}
    (he' : (r.who e').join ≠ none) : (r'.who e').join = (r.who e').join := by
  cases h with
  | quiet hquiet => exact hquiet.join e'
  | load c name =>
      have hne : e' ≠ r.created := by
        rintro rfl
        exact he' (by rw [Registry.who_created]; rfl)
      rw [Registry.who_loaded, update_of_ne hne]

theorem inv_outside (hw : w.Inv) {e : Views.Event} (h : isUpdate e = false) :
    ({ w with views := Views.next b w.views e } : World).Inv where
  views := Views.inv_next hw.views e
  parties := hw.parties
  member := by
    intro e' p he'
    have hmember := hw.member e' p he'
    rw [World.IsCharacter, World.registry, (registry_outside (b := b) h).join hmember]
    exact hmember

theorem inv_next (hw : w.Inv) (e : Event) : (next b w e).Inv := by
  cases e with
  | outside e h => exact inv_outside hw h
  | update packets => exact inv_tick hw packets

theorem inv_start : start.Inv where
  views := Views.inv_start
  parties := Parties.inv_start nobody
  member := by
    intro e p he
    exact absurd he (by simp [start, Parties.World.group, Parties.start])

end Invariant

theorem inv_foldl (b : Buckets) (es : List Event) : (es.foldl (next b) start).Inv :=
  foldl_invariant World.Inv (fun _ e hw => inv_next hw e) inv_start es

/-- An update has dispatched these packets. -/
def World.during (b : Buckets) (w : World) (packets : List (Entity × Packet)) : World :=
  (w.runCreates b).dispatchAll b packets

/-- What is to hold of the parties of a map server. -/
structure World.Manned (w : World) : Prop where
  lawful : w.parties.faulted = false → w.parties.Lawful
  member : ∀ e p, w.parties.group e = some p → ∃ comps basic,
    w.registry.components e = some comps ∧ comps.character = true ∧ comps.basic = some basic

theorem World.Inv.manned {w : World} (hw : w.Inv) : w.Manned where
  lawful := hw.parties.lawful
  member := by
    intro e p he
    obtain ⟨keys, hkeys⟩ := Option.ne_none_iff_exists'.mp (hw.member e p he)
    obtain ⟨comps, hcomps, hkeys'⟩ := Option.map_eq_some_iff.mp (Option.join_eq_some_iff.mp hkeys)
    rw [Registry.Components.keys] at hkeys'
    split_ifs at hkeys' with hcharacter
    obtain ⟨basic, hbasic, -⟩ := Option.map_eq_some_iff.mp hkeys'
    exact ⟨comps, basic, hcomps, hcharacter, hbasic⟩

end OsIrose.Community

/-
Runs of the map server, and what holds in every state of them.

An event is what one thread does under the lock `access_` or between two holds of it. A
join gives a client a new entity, or none at all (`JoinResult`); all the other events
leave the clients' entities to them (`Evolves`), so the invariant `Inv` goes through.
-/
import OsIrose.MapFrame

set_option autoImplicit false

namespace OsIrose.MapServer

open Function Inventory Characters Database
open Movement (Position Destination)
open MapClient (LoginState CliJoinServerReq)

variable {K D : Type*} [Field K] [LinearOrder K] [FloorSemiring K]

/-! ## Joins -/

section Join

omit [Field K] [LinearOrder K] [FloorSemiring K]

/-- What a join does: nothing to the entity system or the client's entity, or one entity
more that is not the client's, or one that is. -/
inductive JoinResult (w w' : World K D) (c : ℕ) : Prop
  | refused (es : w'.es = w.es) (state : (w'.clients c).loginState = (w.clients c).loginState)
      (entity : (w'.clients c).entity = (w.clients c).entity)
  | failed (es : w'.es = w.es ∨ Extended w.es w'.es)
      (state : (w.clients c).loginState = .DEFAULT)
      (state' : (w'.clients c).loginState = .LOGGEDIN)
      (entity : (w'.clients c).entity = (w.clients c).entity ∨ (w'.clients c).entity = none)
  | loaded (charId : ℕ) (comps : Components K D) (created : w'.es.created = w.es.created + 1)
      (others : ∀ e, e ≠ w.es.created → w'.es.components e = w.es.components e)
      (deleteCommands : w'.es.deleteCommands = w.es.deleteCommands)
      (state : (w.clients c).loginState = .DEFAULT)
      (state' : (w'.clients c).loginState = .LOGGEDIN)
      (entity : (w'.clients c).entity = some w.es.created)
      (components : w'.es.components w.es.created = some comps)
      (whole : comps.Whole) (character : comps.character = some charId)
      (row : w.tables.characters charId ≠ none)
      (socket : comps.socket = none ∨ comps.socket = some c)

variable {w : World K D} {env : Env K} {faults : Faults} {c : ℕ} {P : CliJoinServerReq}

/-- The parts of the world that a join never touches. -/
structure JoinFrame (w w' : World K D) (c : ℕ) : Prop where
  saved : w'.saved = w.saved
  tables : w'.tables = w.tables
  others : ∀ c', c' ≠ c → w'.clients c' = w.clients c'
  connected : (w'.clients c).connected = (w.clients c).connected

namespace JoinFrame

theorem refl (w : World K D) (c : ℕ) : JoinFrame w w c :=
  ⟨rfl, rfl, fun _ _ => rfl, rfl⟩

variable {w' : World K D}

theorem setClient (h : JoinFrame w w' c) {cl : Client K}
    (hcl : cl.connected = (w'.clients c).connected) : JoinFrame w (w'.setClient c cl) c where
  saved := h.saved
  tables := h.tables
  others c' hc := (w'.setClient_of_ne hc cl).trans (h.others c' hc)
  connected := by rw [World.setClient_self, hcl, h.connected]

theorem send (h : JoinFrame w w' c) (reply : MapClient.SrvJoinServerReply) :
    JoinFrame w (w'.send c reply) c :=
  h.setClient rfl

theorem logIn (h : JoinFrame w w' c) (row : SessionRow) (sessionID : ℕ) :
    JoinFrame w (w'.logIn c row sessionID) c :=
  h.setClient rfl

theorem withEs (h : JoinFrame w w' c) (es : EntitySystem K D) (sessions : Sessions) :
    JoinFrame w { w' with es, sessions } c :=
  ⟨h.saved, h.tables, h.others, h.connected⟩

end JoinFrame

theorem joinTry_frame (w : World K D) (env : Env K) (faults : Faults) (c : ℕ)
    (P : CliJoinServerReq) : JoinFrame w (w.joinTry env faults c P).1 c := by
  have hrefl := JoinFrame.refl w c
  simp only [World.joinTry]
  split
  · exact hrefl
  split
  · exact hrefl.send _
  split
  · exact (hrefl.logIn _ _).withEs _ _
  · exact (((hrefl.logIn _ _).withEs _ _).setClient (by rfl)).send _
  · split
    · exact ((hrefl.logIn _ _).withEs _ _).setClient (by rfl)
    · exact ((((hrefl.logIn _ _).withEs _ _).setClient (by rfl)).withEs _ _).send _

theorem joinServerReply_frame (w : World K D) (env : Env K) (faults : Faults) (c : ℕ)
    (P : CliJoinServerReq) : JoinFrame w (w.joinServerReply env faults c P).1 c := by
  rw [World.joinServerReply]
  split
  · exact JoinFrame.refl w c
  split
  · exact JoinFrame.refl w c
  · rw [World.joinCatch]
    split
    · exact (joinTry_frame w env faults c P).send .FAILED
    · exact joinTry_frame w env faults c P

theorem joinTry_result (hstate : (w.clients c).loginState = .DEFAULT) :
    JoinResult w (w.joinTry env faults c P).1 c := by
  simp only [World.joinTry]
  split
  · exact .refused rfl rfl rfl
  split
  · exact .refused rfl (by simp) (by simp)
  rename_i row _ _
  have hextended := loadCharacter_extended env faults w.tables w.es (row.charid.getD 0)
  split
  · rename_i es ex hload
    rw [World.logIn_tables, World.logIn_es] at hload
    rw [hload] at hextended
    exact .failed hextended hstate (by simp) (by simp)
  · rename_i es hload
    rw [World.logIn_tables, World.logIn_es] at hload
    rw [hload] at hextended
    exact .failed hextended hstate (by simp) (by simp)
  · rename_i es entity hload
    rw [World.logIn_tables, World.logIn_es] at hload
    rw [hload] at hextended
    have hloads := loads_of_ok (congrArg Prod.snd hload)
    have hrow := hloads.2.1
    obtain ⟨hok, hloaded⟩ := loadCharacter_of_loads hloads w.es
    rw [hload] at hok hloaded
    obtain rfl : entity = w.es.created := Option.some.inj (Except.ok.inj hok)
    obtain ⟨charRow, basic, wishes, -, -, hcomps⟩ := hloaded.components
    have hcreated : es.created = w.es.created + 1 := hloaded.created
    have hextended' : Extended w.es es := hextended.resolve_left fun h => by
      rw [show es = w.es from h] at hcreated
      exact absurd hcreated (Nat.lt_succ_self _).ne
    split
    · exact .loaded _ _ hcreated hextended'.components hextended'.deleteCommands hstate (by simp)
        (by simp) hcomps ⟨by simp, by simp, by simp, by simp, by simp⟩ rfl hrow (.inl rfl)
    · simp only [World.setClient_es, EntitySystem.assignSocket_of_some _ hcomps]
      refine .loaded _ _ hcreated (fun e he => ?_) hextended'.deleteCommands hstate (by simp)
        (by simp) (es.assign_self _ _) ⟨by simp, by simp, by simp, by simp, by simp⟩ rfl hrow
        (.inr rfl)
      exact (es.assign_of_ne he _).trans (hextended'.components e he)

theorem joinServerReply_result (w : World K D) (env : Env K) (faults : Faults) (c : ℕ)
    (P : CliJoinServerReq) : JoinResult w (w.joinServerReply env faults c P).1 c := by
  rw [World.joinServerReply]
  split
  · exact .refused rfl rfl rfl
  rename_i hstate
  split
  · exact .refused rfl rfl rfl
  · have htry := @joinTry_result _ _ w env faults c P (not_not.mp hstate)
    obtain ⟨hes, hstate', hentity, -⟩ := World.joinCatch_spec (c := c) (w.joinTry env faults c P)
    cases htry with
    | refused es state entity =>
        exact .refused (hes.trans es) (hstate'.trans state) (hentity.trans entity)
    | failed es state state' entity =>
        rw [← hes] at es
        rw [← hentity] at entity
        exact .failed es state (hstate'.trans state') entity
    | loaded charId comps created others deleteCommands state state' entity components whole
        character row socket =>
        rw [← hes] at created others deleteCommands components
        exact .loaded charId comps created others deleteCommands state (hstate'.trans state')
          (hentity.trans entity) components whole character row socket

end Join

/-! ## Events -/

inductive Event (K : Type*)
  | joinServerReq (c : ℕ) (P : CliJoinServerReq) (faults : Faults)
  /-- `HandlePacket` looks at the login state. -/
  | checkPacket (c : ℕ) (packet : Packet K)
  /-- `HandlePacket` calls `EntitySystem::dispatch`. -/
  | dispatch (c : ℕ)
  | onDisconnected (c : ℕ)
  /-- The client object is released. -/
  | release (c : ℕ)
  /-- An NPC or a warpgate is created. -/
  | createCommand
  /-- `EntitySystem::update` dispatches a packet, moves an entity, ends. -/
  | dispatchFront
  | tick (e : Entity) (dt : K) (runSpeed : ℕ) (gate : Option (Destination K))
  | deleteCommands
  /-- The other servers change the accounts and sessions. -/
  | others (accounts : Accounts) (sessions : Sessions)

def next (env : Env K) (w : World K D) : Event K → World K D
  | .joinServerReq c P faults =>
      if (w.clients c).connected then (w.joinServerReply env faults c P).1 else w
  | .checkPacket c packet => w.checkPacket c packet
  | .dispatch c => w.dispatch c
  | .onDisconnected c => w.onDisconnected c
  | .release c => w.setClient c { w.clients c with released := true }
  | .createCommand => w.createCommand env
  | .dispatchFront => w.dispatchFront env
  | .tick e dt runSpeed gate => w.tick env e dt runSpeed gate
  | .deleteCommands => w.runDeleteCommands
  | .others accounts sessions => { w with accounts, sessions }

def Step (env : Env K) (w : World K D) (ev : Event K) (w' : World K D) : Prop :=
  next env w ev = w'

/-- The packet is the next one, and there is a handler, the entity and its client. -/
structure World.Served (w : World K D) (e : Entity) (comps : Components K D) (packet : Packet K) :
    Prop where
  front : ∃ rest, w.es.toDispatch = (e, packet) :: rest
  handler : w.es.dispatchers packet.type = true
  components : w.es.components e = some comps
  client : w.getClient e ≠ none

/-- The entity has somewhere to go. -/
structure World.Walking (w : World K D) (e : Entity) (comps : Components K D) (pos : Position K)
    (dest : Destination K) : Prop where
  components : w.es.components e = some comps
  position : comps.position = some pos
  destination : comps.destination = some dest

/-- What an event comes to. -/
inductive Happens (env : Env K) (w : World K D) : Event K → World K D → Prop
  | quiet {ev : Event K} {w' : World K D} (h : Quiet w w') : Happens env w ev w'
  | joined {c : ℕ} {P : CliJoinServerReq} {faults : Faults}
      (hconnected : (w.clients c).connected = true) :
      Happens env w (.joinServerReq c P faults) (w.joinServerReply env faults c P).1
  | disconnected {c : ℕ} : Happens env w (.onDisconnected c) (w.onDisconnected c)
  | handled {e : Entity} {comps : Components K D} {packet : Packet K} {c : ℕ}
      {rest : List (Entity × Packet K)} (hserved : w.Served e comps packet)
      (hclient : w.getClient e = some c) :
      Happens env w .dispatchFront
        ((w.withQueue rest w.es.dispatchers).perform env e c (handle env comps packet))
  | walked {e : Entity} {comps : Components K D} {pos : Position K} {dest : Destination K} {dt : K}
      {runSpeed : ℕ} {gate : Option (Destination K)} (hwalking : w.Walking e comps pos dest) :
      Happens env w (.tick e dt runSpeed gate) (w.perform env e ((w.getClient e).getD 0)
        (walkEffect env comps pos dest dt runSpeed gate (w.getClient e).isSome))
  | deleted : Happens env w .deleteCommands w.runDeleteCommands

theorem dispatchFront_happens (env : Env K) (w : World K D) :
    Happens env w .dispatchFront (w.dispatchFront env) := by
  rw [World.dispatchFront]
  split
  · exact .quiet (Quiet.refl w)
  rename_i e packet rest hqueue
  dsimp only
  split
  · exact .quiet (Quiet.withQueue w _ _)
  rename_i hhandler
  split
  · rename_i comps c hcomps hclient
    refine .handled ⟨⟨rest, hqueue⟩, ?_, hcomps, ?_⟩ hclient
    · simpa [World.withQueue] using hhandler
    · exact Option.ne_none_iff_exists'.mpr ⟨c, hclient⟩
  · exact .quiet (Quiet.withQueue w _ _)

theorem tick_happens (env : Env K) (w : World K D) (e : Entity) (dt : K) (runSpeed : ℕ)
    (gate : Option (Destination K)) :
    Happens env w (.tick e dt runSpeed gate) (w.tick env e dt runSpeed gate) := by
  rw [World.tick]
  split
  · exact .quiet (Quiet.refl w)
  rename_i comps hcomps
  split
  · rename_i pos dest hpos hdest
    exact .walked ⟨hcomps, hpos, hdest⟩
  · exact .quiet (Quiet.refl w)

theorem next_happens (env : Env K) (w : World K D) (ev : Event K) :
    Happens env w ev (next env w ev) := by
  cases ev with
  | joinServerReq c P faults =>
      rw [next]
      split
      · rename_i hconnected
        exact .joined hconnected
      · exact .quiet (Quiet.refl w)
  | checkPacket c packet =>
      simp only [next, World.checkPacket]
      split
      · exact .quiet (Quiet.setClient rfl rfl rfl)
      · exact .quiet (Quiet.refl w)
  | dispatch c =>
      have hchecked : Quiet w (w.setClient c { w.clients c with checked := none }) :=
        Quiet.setClient rfl rfl rfl
      simp only [next, World.dispatch]
      split
      · split
        · exact .quiet { hchecked with }
        · exact .quiet hchecked
      · exact .quiet hchecked
  | onDisconnected c => exact .disconnected
  | release c => exact .quiet (Quiet.setClient rfl rfl rfl)
  | createCommand => exact .quiet { Quiet.refl w with }
  | dispatchFront => exact dispatchFront_happens env w
  | tick e dt runSpeed gate => exact tick_happens env w e dt runSpeed gate
  | deleteCommands => exact .deleted
  | others accounts sessions => exact .quiet { Quiet.refl w with }

/-! ## The invariant -/

/-- What holds in every state of every run. -/
structure Inv (w : World K D) : Prop where
  fresh : w.Fresh
  client : ∀ c e, (w.clients c).entity = some e → e < w.es.created
  /-- No two clients have the same entity. -/
  own : ∀ c c' e, (w.clients c).entity = some e → (w.clients c').entity = some e → c = c'
  /-- `getClient` finds the client that has the entity. -/
  socket : ∀ e comps c, w.es.components e = some comps → comps.socket = some c →
    (w.clients c).entity = some e
  whole : ∀ c e comps, (w.clients c).entity = some e → w.es.components e = some comps → comps.Whole
  row : ∀ c e comps charId, (w.clients c).entity = some e → w.es.components e = some comps →
    comps.character = some charId → w.tables.characters charId ≠ none
  /-- A client that has not joined has no entity. -/
  idle : ∀ c, (w.clients c).connected = true → (w.clients c).loginState = .DEFAULT →
    (w.clients c).entity = none
  saved : ∀ e ∈ w.saved, e < w.es.created
  commands : ∀ x ∈ w.es.deleteCommands, x.1 < w.es.created

namespace Inv

omit [Field K] [LinearOrder K] [FloorSemiring K]

variable {w w' : World K D}

theorem start (accounts : Accounts) (sessions : Sessions) (tables : Tables K D) :
    Inv (MapServer.start accounts sessions tables) where
  fresh _ _ := rfl
  client _ _ h := by cases h
  own _ _ _ h := by cases h
  socket _ _ _ h := by cases h
  whole _ _ _ h := by cases h
  row _ _ _ _ h := by cases h
  idle _ _ _ := rfl
  saved _ h := absurd h List.not_mem_nil
  commands _ h := absurd h List.not_mem_nil

theorem entity_of_getClient (h : Inv w) {e : Entity} {c : ℕ} (hclient : w.getClient e = some c) :
    (w.clients c).entity = some e := by
  obtain ⟨comps, hcomps, hsocket⟩ := World.getClient_eq_some hclient
  exact h.socket e comps c hcomps hsocket

theorem entity_of_isSome (h : Inv w) {e : Entity} (hclient : (w.getClient e).isSome) :
    (w.clients ((w.getClient e).getD 0)).entity = some e := by
  obtain ⟨c, hc⟩ := Option.isSome_iff_exists.mp hclient
  rw [hc]
  exact h.entity_of_getClient hc

theorem evolves (h : Inv w) (hevolves : Evolves w w') : Inv w' where
  fresh := hevolves.fresh
  client c e he := (h.client c e (hevolves.entity c ▸ he)).trans_le hevolves.created
  own c c' e he he' := h.own c c' e (hevolves.entity c ▸ he) (hevolves.entity c' ▸ he')
  socket e comps' c hcomps' hsocket := by
    rw [hevolves.entity]
    by_cases hlt : e < w.es.created
    · obtain ⟨comps, hcomps, hsame⟩ := hevolves.old e comps' hlt hcomps'
      exact h.socket e comps c hcomps (hsame.socket ▸ hsocket)
    · rw [hevolves.new e comps' (not_lt.mp hlt) hcomps'] at hsocket
      cases hsocket
  whole c e comps' he hcomps' := by
    rw [hevolves.entity] at he
    obtain ⟨comps, hcomps, hsame⟩ := hevolves.old e comps' (h.client c e he) hcomps'
    exact hsame.whole (h.whole c e comps he hcomps)
  row c e comps' charId he hcomps' hcharacter := by
    rw [hevolves.entity] at he
    obtain ⟨comps, hcomps, hsame⟩ := hevolves.old e comps' (h.client c e he) hcomps'
    rw [Ne, hevolves.rows]
    exact h.row c e comps charId he hcomps (hsame.character ▸ hcharacter)
  idle c hconnected hstate := by
    obtain ⟨hconnected', hstate'⟩ := hevolves.idle c hconnected hstate
    rw [hevolves.entity, h.idle c hconnected' hstate']
  saved := hevolves.saved h.saved
  commands := hevolves.commands h.commands

/-- A join that gives the client no entity. -/
theorem join_evolves {c : ℕ} (hfresh : w.Fresh) (hframe : JoinFrame w w' c)
    (hes : w'.es = w.es ∨ Extended w.es w'.es)
    (hentity : (w'.clients c).entity = (w.clients c).entity)
    (hidle : (w'.clients c).connected = true → (w'.clients c).loginState = .DEFAULT →
      (w.clients c).connected = true ∧ (w.clients c).loginState = .DEFAULT) : Evolves w w' := by
  have hentity' : ∀ c', (w'.clients c').entity = (w.clients c').entity := fun c' => by
    by_cases hc : c' = c
    · rw [hc, hentity]
    · rw [hframe.others c' hc]
  have hidle' : ∀ c', (w'.clients c').connected = true → (w'.clients c').loginState = .DEFAULT →
      (w.clients c').connected = true ∧ (w.clients c').loginState = .DEFAULT := fun c' => by
    by_cases hc : c' = c
    · rw [hc]
      exact hidle
    · rw [hframe.others c' hc]
      exact fun h h' => ⟨h, h'⟩
  rcases hes with hes | hes
  · exact Evolves.of_same hfresh (by rw [hes]) (by rw [hes]) (by rw [hes]) hframe.saved
      hframe.tables hentity' hidle'
  · have hle : w.es.created ≤ w'.es.created := hes.created ▸ Nat.le_succ _
    refine
      { created := hle
        fresh := fun e he => ?_
        old := fun e comps' hlt hcomps' => ⟨comps', ?_, SameCharacter.refl comps'⟩
        new := fun e comps' hge hcomps' => ?_
        entity := hentity'
        idle := hidle'
        saved := fun hsaved e he => (hsaved e (hframe.saved ▸ he)).trans_le hle
        commands := fun hcommands x hx => (hcommands x (hes.deleteCommands ▸ hx)).trans_le hle
        rows := fun charId => by rw [hframe.tables] }
    · have hlt : w.es.created < e := hes.created.symm.trans_le he
      rw [hes.components e hlt.ne', hfresh e hlt.le]
    · rwa [hes.components e hlt.ne] at hcomps'
    · by_cases heq : e = w.es.created
      · exact hes.socket comps' (heq ▸ hcomps')
      · rw [hes.components e heq, hfresh e hge] at hcomps'
        cases hcomps'

/-- A join that gives the client the new entity. -/
theorem of_loaded {c charId : ℕ} {comps : Components K D} (h : Inv w) (hframe : JoinFrame w w' c)
    (hcreated : w'.es.created = w.es.created + 1)
    (hothers : ∀ e, e ≠ w.es.created → w'.es.components e = w.es.components e)
    (hcommands : w'.es.deleteCommands = w.es.deleteCommands)
    (hidle : (w.clients c).entity = none) (hstate : (w'.clients c).loginState = .LOGGEDIN)
    (hentity : (w'.clients c).entity = some w.es.created)
    (hcomps : w'.es.components w.es.created = some comps) (hwhole : comps.Whole)
    (hcharacter : comps.character = some charId) (hrow : w.tables.characters charId ≠ none)
    (hsocket : comps.socket = none ∨ comps.socket = some c) : Inv w' := by
  -- the other clients have older entities
  have hclient : ∀ c' e, (w'.clients c').entity = some e →
      c' = c ∧ e = w.es.created ∨ c' ≠ c ∧ (w.clients c').entity = some e ∧ e < w.es.created := by
    intro c' e he
    by_cases hc : c' = c
    · rw [hc, hentity, Option.some.injEq] at he
      exact .inl ⟨hc, he.symm⟩
    · rw [hframe.others c' hc] at he
      exact .inr ⟨hc, he, h.client c' e he⟩
  refine
    { fresh := fun e he => ?_
      client := fun c' e he => ?_
      own := fun c' c'' e he he' => ?_
      socket := fun e comps' c' hcomps' hsocket' => ?_
      whole := fun c' e comps' he hcomps' => ?_
      row := fun c' e comps' charId' he hcomps' hcharacter' => ?_
      idle := fun c' hconnected hstate' => ?_
      saved := fun e he => ?_
      commands := fun x hx => ?_ }
  · have hlt : w.es.created < e := hcreated.symm.trans_le he
    rw [hothers e hlt.ne', h.fresh e hlt.le]
  · rw [hcreated]
    rcases hclient c' e he with ⟨-, rfl⟩ | ⟨-, -, hlt⟩
    · exact Nat.lt_succ_self _
    · exact Nat.lt_succ_of_lt hlt
  · rcases hclient c' e he with ⟨rfl, rfl⟩ | ⟨-, hold, hlt⟩
    · rcases hclient c'' _ he' with ⟨rfl, -⟩ | ⟨-, -, hlt⟩
      · rfl
      · exact absurd hlt (lt_irrefl _)
    · rcases hclient c'' e he' with ⟨-, rfl⟩ | ⟨-, hold', -⟩
      · exact absurd hlt (lt_irrefl _)
      · exact h.own c' c'' e hold hold'
  · by_cases heq : e = w.es.created
    · rw [heq, hcomps, Option.some.injEq] at hcomps'
      rw [← hcomps'] at hsocket'
      rcases hsocket with hnone | hsome
      · rw [hnone] at hsocket'
        cases hsocket'
      · rw [hsome, Option.some.injEq] at hsocket'
        rw [← hsocket', hentity, heq]
    · rw [hothers e heq] at hcomps'
      have hold := h.socket e comps' c' hcomps' hsocket'
      have hc : c' ≠ c := by
        rintro rfl
        rw [hidle] at hold
        cases hold
      rw [hframe.others c' hc, hold]
  · rcases hclient c' e he with ⟨-, rfl⟩ | ⟨-, hold, hlt⟩
    · rw [hcomps, Option.some.injEq] at hcomps'
      exact hcomps' ▸ hwhole
    · exact h.whole c' e comps' hold (hothers e hlt.ne ▸ hcomps')
  · rw [hframe.tables]
    rcases hclient c' e he with ⟨-, rfl⟩ | ⟨-, hold, hlt⟩
    · rw [hcomps, Option.some.injEq] at hcomps'
      rw [← hcomps', hcharacter, Option.some.injEq] at hcharacter'
      exact hcharacter' ▸ hrow
    · exact h.row c' e comps' charId' hold (hothers e hlt.ne ▸ hcomps') hcharacter'
  · by_cases hc : c' = c
    · rw [hc, hstate] at hstate'
      cases hstate'
    · rw [hframe.others c' hc] at hconnected hstate' ⊢
      exact h.idle c' hconnected hstate'
  · rw [hcreated]
    exact Nat.lt_succ_of_lt (h.saved e (hframe.saved ▸ he))
  · rw [hcreated]
    exact Nat.lt_succ_of_lt (h.commands x (hcommands ▸ hx))

theorem join (h : Inv w) (env : Env K) (faults : Faults) (c : ℕ) (P : CliJoinServerReq)
    (hconnected : (w.clients c).connected = true) :
    Inv (w.joinServerReply env faults c P).1 := by
  have hframe := joinServerReply_frame w env faults c P
  cases joinServerReply_result w env faults c P with
  | refused es state entity =>
      refine h.evolves (join_evolves h.fresh hframe (.inl es) entity fun _ hstate => ?_)
      exact ⟨hconnected, state ▸ hstate⟩
  | failed es state state' entity =>
      -- the client had no entity before
      have hnone := h.idle c hconnected state
      have hentity := entity.elim id fun hnone' => hnone'.trans hnone.symm
      refine h.evolves (join_evolves h.fresh hframe es hentity fun _ hstate => ?_)
      rw [state'] at hstate
      cases hstate
  | loaded charId comps created others deleteCommands state state' entity components whole
      character row socket =>
      exact h.of_loaded hframe created others deleteCommands (h.idle c hconnected state) state'
        entity components whole character row socket

end Inv

theorem inv_next (env : Env K) {w : World K D} (h : Inv w) (ev : Event K) :
    Inv (next env w ev) := by
  have hhappens := next_happens env w ev
  generalize next env w ev = w' at hhappens ⊢
  cases hhappens with
  | quiet hquiet => exact h.evolves (hquiet.evolves h.fresh)
  | joined hconnected => exact h.join env _ _ _ hconnected
  | disconnected => exact h.evolves (onDisconnected_evolves h.fresh _)
  | @handled e comps packet c rest hserved hclient =>
      have hrest := (Quiet.withQueue w rest w.es.dispatchers).evolves h.fresh
      exact h.evolves (hrest.trans (perform_evolves hrest.fresh hserved.components
        (handle_sameCharacter env comps packet)))
  | walked hwalking =>
      exact h.evolves (perform_evolves h.fresh hwalking.components
        (walkEffect_sameCharacter env hwalking.position _ _ _ _ _))
  | deleted => exact h.evolves (runDeleteCommands_evolves h.fresh)

end OsIrose.MapServer

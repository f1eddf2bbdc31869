/-
What the operations of the map server leave alone.

Whatever a packet does, it writes the components of one entity and leaves its `BasicInfo`,
its character and its client as they were, but for the mark that it is on the map
(`SameCharacter`). `Evolves` says this for a whole world: no client gets another entity,
and no entity another character or client.
-/
import OsIrose.Join

set_option autoImplicit false

namespace OsIrose.MapServer

open Function Inventory Characters Database
open Movement (Position Destination)
open MapClient (LoginState)

variable {K D : Type*}

/-! ## The handlers -/

/-- The components of a character: what `saveCharacter` needs is there. -/
structure Components.Whole (comps : Components K D) : Prop where
  position : comps.position ≠ none
  basic : comps.basic ≠ none
  rest : comps.rest ≠ none
  character : comps.character ≠ none
  inventory : comps.inventory ≠ none

/-- The components are of the same character of the same client. -/
structure SameCharacter (comps comps' : Components K D) : Prop where
  position : comps'.position = none ↔ comps.position = none
  name : comps'.basic.map BasicInfo.name = comps.basic.map BasicInfo.name
  id : comps'.basic.map BasicInfo.id = comps.basic.map BasicInfo.id
  rest : comps'.rest = comps.rest
  character : comps'.character = comps.character
  inventory : comps'.inventory = none ↔ comps.inventory = none
  socket : comps'.socket = comps.socket

namespace SameCharacter

variable {comps comps' comps'' : Components K D}

theorem refl (comps : Components K D) : SameCharacter comps comps :=
  ⟨Iff.rfl, rfl, rfl, rfl, rfl, Iff.rfl, rfl⟩

theorem trans (h : SameCharacter comps comps') (h' : SameCharacter comps' comps'') :
    SameCharacter comps comps'' where
  position := h'.position.trans h.position
  name := h'.name.trans h.name
  id := h'.id.trans h.id
  rest := h'.rest.trans h.rest
  character := h'.character.trans h.character
  inventory := h'.inventory.trans h.inventory
  socket := h'.socket.trans h.socket

theorem whole (h : SameCharacter comps comps') (hwhole : comps.Whole) : comps'.Whole where
  position := mt h.position.mp hwhole.position
  basic hnone := by
    have hname := h.name
    rw [hnone, Option.map_none, eq_comm, Option.map_eq_none_iff] at hname
    exact hwhole.basic hname
  rest := h.rest ▸ hwhole.rest
  character := h.character ▸ hwhole.character
  inventory := mt h.inventory.mp hwhole.inventory

end SameCharacter

theorem teleport_sameCharacter (comps : Components K D) (mapId : ℕ) (x y : K) (client : Bool) :
    SameCharacter comps (teleport comps mapId x y client).components :=
  { SameCharacter.refl comps with position := by simp [teleport] }

/-! ## `saveCharacter` and `perform` -/

namespace World

section Save

variable {w : World K D} {e : Entity}

@[simp] theorem saveCharacter_es (w : World K D) (e : Entity) : (w.saveCharacter e).es = w.es := by
  rw [saveCharacter]
  split <;> rfl

@[simp] theorem saveCharacter_clients (w : World K D) (e : Entity) :
    (w.saveCharacter e).clients = w.clients := by
  rw [saveCharacter]
  split <;> rfl

/-- What a character that is whole leaves in the tables. -/
theorem saveCharacter_of_whole {comps : Components K D} (hcomps : w.es.components e = some comps)
    (hwhole : comps.Whole) :
    ∃ charId pos rest items, comps.character = some charId ∧ comps.position = some pos ∧
      comps.rest = some rest ∧ comps.inventory = some items ∧
      w.saveCharacter e =
        { w with
          tables := w.tables.saveCharacter charId pos rest items
          saved := e :: w.saved } := by
  obtain ⟨pos, hpos⟩ := Option.ne_none_iff_exists'.mp hwhole.position
  obtain ⟨rest, hrest⟩ := Option.ne_none_iff_exists'.mp hwhole.rest
  obtain ⟨charId, hcharacter⟩ := Option.ne_none_iff_exists'.mp hwhole.character
  obtain ⟨items, hitems⟩ := Option.ne_none_iff_exists'.mp hwhole.inventory
  refine ⟨charId, pos, rest, items, hcharacter, hpos, hrest, hitems, ?_⟩
  obtain ⟨_, _, _, _, _, _, _, _, _⟩ := comps
  obtain rfl : _ = _ := hpos
  obtain rfl : _ = _ := hrest
  obtain rfl : _ = _ := hcharacter
  obtain rfl : _ = _ := hitems
  simp only [saveCharacter, hcomps]

end Save

section Perform

variable (w : World K D) (env : Env K) (e : Entity) (c : ℕ) (eff : Effect K D)

theorem getClient_eq_some {w : World K D} {e : Entity} {c : ℕ} (h : w.getClient e = some c) :
    ∃ comps, w.es.components e = some comps ∧ comps.socket = some c := by
  obtain ⟨hsocket, -⟩ := Option.filter_eq_some_iff.mp h
  exact Option.bind_eq_some_iff.mp hsocket

/-- The entity system after a handler. -/
theorem perform_es : (w.perform env e c eff).es =
    eff.ground.elim (w.es.assign e eff.components)
      ((w.es.assign e eff.components).buildItemEntity env eff.components) := by
  cases hground : eff.ground <;> cases hswitches : eff.switches <;>
    simp [perform, hground, hswitches]

theorem perform_clients (c' : ℕ) : (w.perform env e c eff).clients c' =
    if eff.switches ∧ c' = c then { w.clients c with loginState := .SWITCHING }
    else w.clients c' := by
  by_cases hswitches : eff.switches
  · by_cases hc : c' = c
    · simp [perform, hswitches, hc]
    · simp [perform, hswitches, hc, setClient_of_ne]
  · simp [perform, hswitches]

theorem perform_deleteCommands :
    (w.perform env e c eff).es.deleteCommands = w.es.deleteCommands := by
  rw [perform_es]
  cases eff.ground <;> rfl

/-- The components after a handler: those of the entity, and of the item it dropped. -/
theorem perform_components :
    (w.perform env e c eff).es.components = update w.es.components e (some eff.components) ∧
        (w.perform env e c eff).es.created = w.es.created ∨
      ∃ comps : Components K D, comps.socket = none ∧
        (w.perform env e c eff).es.components =
          update (update w.es.components e (some eff.components)) w.es.created (some comps) ∧
        (w.perform env e c eff).es.created = w.es.created + 1 := by
  rw [perform_es]
  cases eff.ground with
  | none => exact .inl ⟨rfl, rfl⟩
  | some item =>
      obtain ⟨comps, hsocket, hcomps⟩ := (w.es.assign e eff.components).buildItemEntity_components
        env eff.components item
      exact .inr ⟨comps, hsocket, hcomps, rfl⟩

variable {w env e c eff}

theorem perform_self (h : e < w.es.created) :
    (w.perform env e c eff).es.components e = some eff.components := by
  rcases perform_components w env e c eff with
    ⟨hcomps, -⟩ | ⟨comps, -, hcomps, -⟩
  · rw [hcomps, update_self]
  · rw [hcomps, update_of_ne h.ne, update_self]

theorem perform_of_ne {x : Entity} (hx : x ≠ e) (hlt : x < w.es.created) :
    (w.perform env e c eff).es.components x = w.es.components x := by
  rcases perform_components w env e c eff with
    ⟨hcomps, -⟩ | ⟨comps, -, hcomps, -⟩
  · rw [hcomps, update_of_ne hx]
  · rw [hcomps, update_of_ne hlt.ne, update_of_ne hx]

/-- The entity of an item is the only new one. -/
theorem perform_created (he : e < w.es.created)
    (hfresh : ∀ x, w.es.created ≤ x → w.es.components x = none) :
    w.es.created ≤ (w.perform env e c eff).es.created ∧
      (∀ x, (w.perform env e c eff).es.created ≤ x →
        (w.perform env e c eff).es.components x = none) ∧
      ∀ x, w.es.created ≤ x → ∀ comps, (w.perform env e c eff).es.components x = some comps →
        comps.socket = none := by
  have hne : ∀ x, w.es.created ≤ x → x ≠ e := fun x hx => (he.trans_le hx).ne'
  rcases perform_components w env e c eff with
    ⟨hcomps, hcreated⟩ | ⟨comps, hsocket, hcomps, hcreated⟩
  · rw [hcomps, hcreated]
    refine ⟨Nat.le_refl _, fun x hx => ?_, fun x hx comps hsome => ?_⟩
    · rw [update_of_ne (hne x hx), hfresh x hx]
    · rw [update_of_ne (hne x hx), hfresh x hx] at hsome
      cases hsome
  · rw [hcomps, hcreated]
    refine ⟨Nat.le_succ _, fun x hx => ?_, fun x hx comps' hsome => ?_⟩
    · have hx' : w.es.created < x := hx
      rw [update_of_ne hx'.ne', update_of_ne (hne x hx'.le), hfresh x hx'.le]
    · by_cases hxc : x = w.es.created
      · rw [hxc, update_self, Option.some.injEq] at hsome
        rw [← hsome, hsocket]
      · rw [update_of_ne hxc, update_of_ne (hne x hx), hfresh x hx] at hsome
        cases hsome

end Perform

end World

variable [Field K] [LinearOrder K] [FloorSemiring K]

theorem walkEffect_sameCharacter (env : Env K) {comps : Components K D} {pos : Position K}
    (hpos : comps.position = some pos) (dest : Destination K) (dt : K) (runSpeed : ℕ)
    (gate : Option (Destination K)) (client : Bool) :
    SameCharacter comps
      (walkEffect env comps pos dest dt runSpeed gate client).components := by
  have hwalked : SameCharacter comps { comps with
      position := some (pos.walk env.sqrt dt dest runSpeed).1
      destination := (pos.walk env.sqrt dt dest runSpeed).2 } :=
    { SameCharacter.refl comps with position := by simp [hpos] }
  cases gate with
  | none => exact hwalked
  | some gate => exact hwalked.trans (teleport_sameCharacter _ gate.dist gate.x gate.y client)

theorem handle_sameCharacter (env : Env K) (comps : Components K D) (packet : Packet K) :
    SameCharacter comps (handle env comps packet).components := by
  have hrefl := SameCharacter.refl comps
  cases packet with
  | changeMapReq =>
      exact { hrefl with
        name := by simp [handle, comp_def]
        id := by simp [handle, comp_def] }
  | mouseCmd x y =>
      simp only [handle, processMove]
      split
      · exact { hrefl with }
      · exact hrefl
  | stopMoving x y =>
      simp only [handle, stopMoving]
      split
      · exact hrefl
      · exact { hrefl with position := by simp }
  | equipItem packet onUnequip onEquip =>
      exact { hrefl with inventory := by simp [handle] }
  | dropItem packet => exact { hrefl with inventory := by simp [handle] }
  | normalChat message =>
      simp only [handle, normalChat]
      split
      · exact hrefl
      · split
        · simp only [gmItem]
          split
          · exact hrefl
          · split
            · exact hrefl
            · exact { hrefl with inventory := by simp }
        · split
          · exact hrefl
          · exact teleport_sameCharacter comps _ _ _ _
        · exact hrefl
  | other type => exact hrefl

/-- The packet sends an entity at `pos` to another map server. -/
def Switches (pos : Position K) : Packet K → Prop
  | .normalChat (.tp mapId x y) => ¬ (mapId = 0 ∨ x = 0 ∨ y = 0) ∧ pos.map ≠ mapId
  | _ => False

/-- Only a `/tp` to another map takes an entity away. -/
theorem handle_switches {env : Env K} {comps : Components K D} {packet : Packet K}
    (h : (handle env comps packet).switches = true) :
    ∃ pos, comps.position = some pos ∧ Switches pos packet := by
  cases packet with
  | changeMapReq | mouseCmd | stopMoving | equipItem | dropItem | other => cases h
  | normalChat message =>
      simp only [handle, normalChat] at h
      split at h
      · cases h
      · split at h
        · cases h
        · rename_i mapId x y
          split at h
          · cases h
          · rename_i hzero
            cases hpos : comps.position with
            | none => simp [teleport, hpos] at h
            | some pos => exact ⟨pos, rfl, hzero, by simpa [teleport, hpos] using h⟩
        · cases h

/-- Only a warpgate to another map takes an entity away in a tick. -/
theorem walkEffect_switches {env : Env K} {comps : Components K D} {pos : Position K}
    {dest : Destination K} {dt : K} {runSpeed : ℕ} {gate : Option (Destination K)} {client : Bool}
    (h : (walkEffect env comps pos dest dt runSpeed gate client).switches = true) :
    client = true ∧ ∃ warp, gate = some warp ∧ pos.map ≠ warp.dist := by
  have hmap : (pos.walk env.sqrt dt dest runSpeed).1.map = pos.map := by
    simp only [Position.walk]
    split <;> rfl
  cases gate with
  | none => cases h
  | some warp =>
      have h' : pos.map ≠ warp.dist ∧ client = true := by
        simpa [walkEffect, teleport, hmap] using h
      exact ⟨h'.2, warp, rfl, h'.1⟩

/-! ## What a step leaves alone -/

section Evolves

omit [Field K] [LinearOrder K] [FloorSemiring K]

/-- No entity is there that was not created. -/
def World.Fresh (w : World K D) : Prop :=
  ∀ e, w.es.created ≤ e → w.es.components e = none

theorem World.Fresh.lt {w : World K D} (h : w.Fresh) {e : Entity} {comps : Components K D}
    (hcomps : w.es.components e = some comps) : e < w.es.created := by
  by_contra hle
  rw [h e (not_lt.mp hle)] at hcomps
  cases hcomps

/-- No client gets another entity, no entity another character or client, and the new
entities have no client; what is saved or to be destroyed is an entity that was there. -/
structure Evolves (w w' : World K D) : Prop where
  created : w.es.created ≤ w'.es.created
  fresh : w'.Fresh
  old : ∀ e comps', e < w.es.created → w'.es.components e = some comps' →
    ∃ comps, w.es.components e = some comps ∧ SameCharacter comps comps'
  new : ∀ e comps', w.es.created ≤ e → w'.es.components e = some comps' → comps'.socket = none
  entity : ∀ c, (w'.clients c).entity = (w.clients c).entity
  idle : ∀ c, (w'.clients c).connected = true → (w'.clients c).loginState = .DEFAULT →
    (w.clients c).connected = true ∧ (w.clients c).loginState = .DEFAULT
  saved : (∀ e ∈ w.saved, e < w.es.created) → ∀ e ∈ w'.saved, e < w'.es.created
  commands : (∀ x ∈ w.es.deleteCommands, x.1 < w.es.created) →
    ∀ x ∈ w'.es.deleteCommands, x.1 < w'.es.created
  rows : ∀ charId, w'.tables.characters charId = none ↔ w.tables.characters charId = none

namespace Evolves

variable {w w' w'' : World K D}

theorem of_same (hfresh : w.Fresh) (hcreated : w'.es.created = w.es.created)
    (hcomponents : w'.es.components = w.es.components)
    (hcommands : w'.es.deleteCommands = w.es.deleteCommands) (hsaved : w'.saved = w.saved)
    (htables : w'.tables = w.tables) (hentity : ∀ c, (w'.clients c).entity = (w.clients c).entity)
    (hidle : ∀ c, (w'.clients c).connected = true → (w'.clients c).loginState = .DEFAULT →
      (w.clients c).connected = true ∧ (w.clients c).loginState = .DEFAULT) : Evolves w w' where
  created := hcreated.ge
  fresh := by rwa [World.Fresh, hcreated, hcomponents]
  old e comps' _ h := ⟨comps', hcomponents ▸ h, SameCharacter.refl comps'⟩
  new e comps' hle h := by
    rw [hcomponents, hfresh e hle] at h
    cases h
  entity := hentity
  idle := hidle
  saved h := by rwa [hsaved, hcreated]
  commands h := by rwa [hcommands, hcreated]
  rows charId := by rw [htables]

theorem refl (hfresh : w.Fresh) : Evolves w w :=
  of_same hfresh rfl rfl rfl rfl rfl (fun _ => rfl) (fun _ h h' => ⟨h, h'⟩)

theorem trans (h : Evolves w w') (h' : Evolves w' w'') : Evolves w w'' where
  created := h.created.trans h'.created
  fresh := h'.fresh
  old e comps'' hlt hcomps'' := by
    obtain ⟨comps', hcomps', hsame'⟩ := h'.old e comps'' (hlt.trans_le h.created) hcomps''
    obtain ⟨comps, hcomps, hsame⟩ := h.old e comps' hlt hcomps'
    exact ⟨comps, hcomps, hsame.trans hsame'⟩
  new e comps'' hle hcomps'' := by
    by_cases hlt : e < w'.es.created
    · obtain ⟨comps', hcomps', hsame'⟩ := h'.old e comps'' hlt hcomps''
      rw [hsame'.socket, h.new e comps' hle hcomps']
    · exact h'.new e comps'' (not_lt.mp hlt) hcomps''
  entity c := (h'.entity c).trans (h.entity c)
  idle c hconnected hstate := by
    obtain ⟨hconnected', hstate'⟩ := h'.idle c hconnected hstate
    exact h.idle c hconnected' hstate'
  saved hsaved := h'.saved (h.saved hsaved)
  commands hcommands := h'.commands (h.commands hcommands)
  rows charId := (h'.rows charId).trans (h.rows charId)

end Evolves

/-- The entities, what is saved and who has joined are as they were. -/
structure Quiet (w w' : World K D) : Prop where
  created : w'.es.created = w.es.created
  components : w'.es.components = w.es.components
  deleteCommands : w'.es.deleteCommands = w.es.deleteCommands
  saved : w'.saved = w.saved
  tables : w'.tables = w.tables
  entity : ∀ c, (w'.clients c).entity = (w.clients c).entity
  loginState : ∀ c, (w'.clients c).loginState = (w.clients c).loginState
  connected : ∀ c, (w'.clients c).connected = (w.clients c).connected

namespace Quiet

variable {w w' : World K D}

theorem refl (w : World K D) : Quiet w w :=
  ⟨rfl, rfl, rfl, rfl, rfl, fun _ => rfl, fun _ => rfl, fun _ => rfl⟩

theorem withQueue (w : World K D) (toDispatch : List (Entity × Packet K))
    (dispatchers : PacketType → Bool) : Quiet w (w.withQueue toDispatch dispatchers) :=
  { refl w with }

/-- A change of one client that leaves its state and its entity. -/
theorem setClient {c : ℕ} {cl : Client K} (hentity : cl.entity = (w.clients c).entity)
    (hstate : cl.loginState = (w.clients c).loginState)
    (hconnected : cl.connected = (w.clients c).connected) : Quiet w (w.setClient c cl) := by
  refine { refl w with
    entity := fun c' => ?_
    loginState := fun c' => ?_
    connected := fun c' => ?_ }
  all_goals
    by_cases hc : c' = c
    · rw [hc, World.setClient_self]
      assumption
    · rw [World.setClient_of_ne w hc]

theorem evolves (h : Quiet w w') (hfresh : w.Fresh) : Evolves w w' :=
  .of_same hfresh h.created h.components h.deleteCommands h.saved h.tables h.entity
    fun c => by
      rw [h.connected, h.loginState]
      exact fun hconnected hstate => ⟨hconnected, hstate⟩

end Quiet

theorem perform_saved (w : World K D) (env : Env K) (e : Entity) (c : ℕ) (eff : Effect K D) :
    (w.perform env e c eff).saved = w.saved ∨
      eff.switches = true ∧ (w.perform env e c eff).saved = e :: w.saved := by
  cases hswitches : eff.switches with
  | false => simp [World.perform, hswitches]
  | true =>
      simp only [World.perform, hswitches, if_true, true_and]
      rw [World.saveCharacter]
      split
      · exact .inr rfl
      · exact .inl rfl

theorem saveCharacter_rows (w : World K D) (e : Entity) (charId : ℕ) :
    (w.saveCharacter e).tables.characters charId = none ↔ w.tables.characters charId = none := by
  rw [World.saveCharacter]
  split
  · exact characters_saveCharacter _ _ _ charId
  · exact Iff.rfl

theorem perform_evolves {w : World K D} (hfresh : w.Fresh) {env : Env K} {e : Entity} {c : ℕ}
    {eff : Effect K D} {comps : Components K D} (hcomps : w.es.components e = some comps)
    (hsame : SameCharacter comps eff.components) : Evolves w (w.perform env e c eff) := by
  have hlt := hfresh.lt hcomps
  obtain ⟨hcreated, hfresh', hnew⟩ := @World.perform_created _ _ w env e c eff hlt hfresh
  refine
    { created := hcreated
      fresh := hfresh'
      old := fun x comps' hx hcomps' => ?_
      new := fun x comps' hle hcomps' => hnew x hle comps' hcomps'
      entity := fun c' => ?_
      idle := fun c' => ?_
      saved := fun hsaved => ?_
      commands := fun hcommands x hx => ?_
      rows := fun charId => ?_ }
  · by_cases hxe : x = e
    · rw [hxe, World.perform_self hlt, Option.some.injEq] at hcomps'
      exact ⟨comps, hxe ▸ hcomps, hcomps' ▸ hsame⟩
    · rw [World.perform_of_ne hxe hx] at hcomps'
      exact ⟨comps', hcomps', SameCharacter.refl comps'⟩
  · rw [World.perform_clients]
    split
    · rename_i h
      rw [h.2]
    · rfl
  · rw [World.perform_clients]
    split
    · intro _ h
      cases h
    · exact fun h h' => ⟨h, h'⟩
  · rcases perform_saved w env e c eff with h | ⟨-, h⟩
    · rw [h]
      exact fun x hx => (hsaved x hx).trans_le hcreated
    · rw [h, List.forall_mem_cons]
      exact ⟨hlt.trans_le hcreated, fun x hx => (hsaved x hx).trans_le hcreated⟩
  · rw [World.perform_deleteCommands] at hx
    exact (hcommands x hx).trans_le hcreated
  · simp only [World.perform]
    split
    · rw [saveCharacter_rows]
      rfl
    · rfl

/-- A change of one client that leaves its entity and does not open it again. -/
theorem setClient_evolves {w : World K D} (hfresh : w.Fresh) {c : ℕ} {cl : Client K}
    (hentity : cl.entity = (w.clients c).entity)
    (hidle : cl.connected = true → cl.loginState = .DEFAULT →
      (w.clients c).connected = true ∧ (w.clients c).loginState = .DEFAULT) :
    Evolves w (w.setClient c cl) := by
  refine Evolves.of_same hfresh rfl rfl rfl rfl rfl (fun c' => ?_) (fun c' => ?_)
  · by_cases hc : c' = c
    · rw [hc, World.setClient_self, hentity]
    · rw [World.setClient_of_ne w hc]
  · by_cases hc : c' = c
    · rw [hc, World.setClient_self]
      exact hidle
    · rw [World.setClient_of_ne w hc]
      exact fun h h' => ⟨h, h'⟩

theorem destroy_evolves {w : World K D} (hfresh : w.Fresh) (entity : Option Entity) (save : Bool) :
    Evolves w (w.destroy entity save) := by
  have hrefl := Evolves.refl hfresh
  unfold World.destroy
  split
  · exact hrefl
  rename_i e
  split
  · exact hrefl
  rename_i comps hcomps
  split
  · exact hrefl
  rename_i basic hbasic
  split
  · exact hrefl
  · have hlt := hfresh.lt hcomps
    refine { hrefl with
      fresh := fun x hx => ?_
      old := fun x comps' hx hcomps' => ?_
      new := fun x comps' hle hcomps' => ?_
      commands := fun hcommands => ?_ }
    · exact (w.es.assign_of_ne (hlt.trans_le hx).ne' _).trans (hfresh x hx)
    · by_cases hxe : x = e
      · subst hxe
        obtain rfl := Option.some.inj ((w.es.assign_self x _).symm.trans hcomps')
        refine ⟨comps, hcomps, ?_⟩
        exact { SameCharacter.refl comps with name := by simp [hbasic], id := by simp [hbasic] }
      · exact ⟨comps', (w.es.assign_of_ne hxe _).symm.trans hcomps', SameCharacter.refl comps'⟩
    · have hnone := (w.es.assign_of_ne (hlt.trans_le hle).ne' _).symm.trans hcomps'
      rw [hfresh x hle] at hnone
      cases hnone
    · simp only [List.forall_mem_append, List.forall_mem_singleton]
      exact ⟨hcommands, hlt⟩

theorem onDisconnected_evolves {w : World K D} (hfresh : w.Fresh) (c : ℕ) :
    Evolves w (w.onDisconnected c) := by
  simp only [World.onDisconnected]
  split
  · exact setClient_evolves hfresh rfl (fun h => by cases h)
  · have hdestroy := destroy_evolves hfresh (w.clients c).entity
      ((w.clients c).loginState ≠ .SWITCHING)
    refine hdestroy.trans (setClient_evolves hdestroy.fresh (hdestroy.entity c).symm ?_)
    exact fun h => by cases h

theorem saveCharacter_evolves {w : World K D} (hfresh : w.Fresh) (e : Entity) :
    Evolves w (w.saveCharacter e) := by
  have hrefl := Evolves.refl hfresh
  refine { hrefl with
    created := by simp
    fresh := by simpa [World.Fresh] using hfresh
    old := by simpa using hrefl.old
    new := by simpa using hrefl.new
    entity := by simp
    idle := by simpa using hrefl.idle
    saved := fun hsaved => ?_
    commands := by simp
    rows := saveCharacter_rows w e }
  rw [World.saveCharacter_es, World.saveCharacter]
  split
  · rename_i hcomps
    exact List.forall_mem_cons.mpr ⟨hfresh.lt hcomps, hsaved⟩
  · exact hsaved

theorem destroyEntity_evolves {w w' : World K D} (hfresh : w.Fresh) (e : Entity)
    (hcreated : w'.es.created = w.es.created)
    (hcomponents : w'.es.components = update w.es.components e none)
    (hcommands : w'.es.deleteCommands = w.es.deleteCommands) (hsaved : w'.saved = w.saved)
    (htables : w'.tables = w.tables) (hclients : w'.clients = w.clients) : Evolves w w' := by
  have hrefl := Evolves.refl hfresh
  have hgone : ∀ x comps', w'.es.components x = some comps' → w.es.components x = some comps' := by
    intro x comps' h
    rw [hcomponents] at h
    by_cases hxe : x = e
    · simp [hxe] at h
    · rwa [update_of_ne hxe] at h
  refine
    { created := hcreated.ge
      fresh := fun x hx => ?_
      old := fun x comps' _ h => ⟨comps', hgone x comps' h, SameCharacter.refl comps'⟩
      new := fun x comps' hle h => hrefl.new x comps' hle (hgone x comps' h)
      entity := fun c => by rw [hclients]
      idle := fun c h h' => by rw [← hclients]; exact ⟨h, h'⟩
      saved := fun h => by rwa [hsaved, hcreated]
      commands := fun h => by rwa [hcommands, hcreated]
      rows := fun charId => by rw [htables] }
  rw [hcomponents]
  by_cases hxe : x = e
  · rw [hxe, update_self]
  · rw [update_of_ne hxe]
    exact hfresh x (hcreated ▸ hx)

theorem runDeleteCommand_evolves {w : World K D} (hfresh : w.Fresh) (command : Entity × Bool) :
    Evolves w (w.runDeleteCommand command) := by
  rw [World.runDeleteCommand]
  split
  · exact Evolves.refl hfresh
  rename_i comps hcomps
  have hsaved : Evolves w (if command.2 then w.saveCharacter command.1 else w) := by
    split
    · exact saveCharacter_evolves hfresh command.1
    · exact Evolves.refl hfresh
  refine hsaved.trans (destroyEntity_evolves hsaved.fresh command.1 ?_ ?_ ?_ rfl rfl rfl)
  · cases comps.basic <;> rfl
  · cases comps.basic <;> rfl
  · cases comps.basic <;> rfl

theorem runDeleteCommands_evolves {w : World K D} (hfresh : w.Fresh) :
    Evolves w w.runDeleteCommands := by
  have hfold : ∀ (commands : List (Entity × Bool)) (w : World K D), w.Fresh →
      Evolves w (commands.foldl World.runDeleteCommand w) := by
    intro commands
    induction commands with
    | nil => exact fun w hfresh => Evolves.refl hfresh
    | cons command commands ih =>
        intro w hfresh
        have hhead := runDeleteCommand_evolves hfresh command
        exact hhead.trans (ih _ hhead.fresh)
  have hall := hfold w.es.deleteCommands w hfresh
  exact { hall with commands := fun _ x hx => absurd hx List.not_mem_nil }

end Evolves

end OsIrose.MapServer

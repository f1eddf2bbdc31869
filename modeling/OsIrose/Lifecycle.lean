/-
From the disconnect of a client to the end of its entity.

`CMapClient::OnDisconnected` asks for the entity to be destroyed, and the next
`EntitySystem::update` destroys it. `EntitySystem::destroy` ignores an entity that is not
on the map, and that a client is on the map only the dispatch of its `CHANGE_MAP_REQ`
tells. What a client had sent before it left is dispatched still, so an entity may leave
for another map between the request and the delete command, and is saved twice.
-/
import OsIrose.MapRun
import OsIrose.Runs
import Mathlib.Data.Rat.Floor

set_option autoImplicit false

namespace OsIrose.MapServer

open Function Inventory Characters Database Runs
open Movement (Position Destination)
open MapClient (LoginState CliJoinServerReq)

variable {K D : Type*} [Field K] [LinearOrder K] [FloorSemiring K]

/-! ## Orderly steps -/

section Orderly

omit [LinearOrder K] [FloorSemiring K]

/-- `isOnMap`. -/
def World.OnMap (w : World K D) (e : Entity) : Prop :=
  ∃ comps basic, w.es.components e = some comps ∧ comps.basic = some basic ∧ basic.isOnMap = true

/-- The entity is to be saved at the end of the update. -/
def World.ToSave (w : World K D) (e : Entity) : Prop :=
  (e, true) ∈ w.es.deleteCommands

/-- A client that leaves is on the map, and no entity leaves for another map that is to be
saved at the end of the update, by the command `/tp` or through a warpgate. -/
def World.Orderly (w : World K D) : Event K → Prop
  | .onDisconnected c => (w.clients c).loginState ≠ .DEFAULT →
      ∀ e, (w.clients c).entity = some e → w.OnMap e
  | .dispatchFront => ∀ e comps pos packet, w.Served e comps packet → comps.position = some pos →
      Switches pos packet → ¬ w.ToSave e
  | .tick e _ _ gate => ∀ comps pos dest warp, w.Walking e comps pos dest → w.getClient e ≠ none →
      gate = some warp → pos.map ≠ warp.dist → ¬ w.ToSave e
  | _ => True

/-- An entity of a client that is logged in was not saved and is not to be destroyed. An
entity that is to be saved was not saved either, has one delete command, and its client is
gone. -/
structure Tidy (w : World K D) : Prop where
  joined : ∀ c e, (w.clients c).entity = some e → (w.clients c).loginState = .LOGGEDIN →
    e ∉ w.saved ∧ ∀ save, (e, save) ∉ w.es.deleteCommands
  notSaved : ∀ e, w.ToSave e → e ∉ w.saved
  once : ∀ e, w.ToSave e → w.es.deleteCommands.filter (fun x => x.1 = e) = [(e, true)]
  gone : ∀ e, w.ToSave e → ∃ c, (w.clients c).entity = some e ∧
    (w.clients c).loginState = .DEFAULT ∧ (w.clients c).connected = false

end Orderly

/-! ## `onDisconnected` -/

namespace World

omit [LinearOrder K] [FloorSemiring K] [Field K]

theorem destroy_clients (w : World K D) (entity : Option Entity) (save : Bool) :
    (w.destroy entity save).clients = w.clients ∧ (w.destroy entity save).saved = w.saved := by
  unfold destroy
  split
  · exact ⟨rfl, rfl⟩
  split
  · exact ⟨rfl, rfl⟩
  split
  · exact ⟨rfl, rfl⟩
  split <;> exact ⟨rfl, rfl⟩

theorem destroy_deleteCommands (w : World K D) (entity : Option Entity) (save : Bool) :
    (w.destroy entity save).es.deleteCommands = w.es.deleteCommands ∨
      ∃ e, entity = some e ∧
        (w.destroy entity save).es.deleteCommands = w.es.deleteCommands ++ [(e, save)] := by
  unfold destroy
  split
  · exact .inl rfl
  split
  · exact .inl rfl
  split
  · exact .inl rfl
  split
  · exact .inl rfl
  · exact .inr ⟨_, rfl, rfl⟩

variable (w : World K D) (c : ℕ)

theorem onDisconnected_clients :
    (((w.onDisconnected c).clients c).loginState = .DEFAULT ∧
        ((w.onDisconnected c).clients c).connected = false) ∧
      ∀ c', c' ≠ c → (w.onDisconnected c).clients c' = w.clients c' := by
  simp only [onDisconnected]
  split
  · rename_i hstate
    exact ⟨by simp [hstate], fun c' hc => w.setClient_of_ne hc _⟩
  · refine ⟨by simp, fun c' hc => ?_⟩
    rw [setClient_of_ne _ hc, (destroy_clients w _ _).1]

theorem onDisconnected_saved : (w.onDisconnected c).saved = w.saved := by
  simp only [onDisconnected]
  split
  · rfl
  · exact (destroy_clients w _ _).2

theorem onDisconnected_deleteCommands :
    (w.onDisconnected c).es.deleteCommands = w.es.deleteCommands ∨
      ∃ e, (w.clients c).entity = some e ∧ (w.onDisconnected c).es.deleteCommands =
        w.es.deleteCommands ++ [(e, decide ((w.clients c).loginState ≠ .SWITCHING))] := by
  simp only [onDisconnected]
  split
  · exact .inl rfl
  · exact destroy_deleteCommands w _ _

end World

/-! ## The delete commands -/

/-- The entity is destroyed, its registrations are gone and its id is free. -/
structure World.CleanedUp (w : World K D) (e : Entity) (basic : BasicInfo) : Prop where
  destroyed : ¬ w.es.Valid e
  name : w.es.getEntityByName basic.name = none
  id : w.es.getEntityById basic.id = none
  free : basic.id ∈ w.es.idManager.freeIds

section DeleteCommands

omit [LinearOrder K] [FloorSemiring K] [Field K]

/-- `CleanedUp`, by what the maps hold. -/
structure Gone (w : World K D) (e : Entity) (basic : BasicInfo) : Prop where
  components : w.es.components e = none
  name : w.es.nameToEntity basic.name = none
  id : w.es.idToEntity basic.id = none
  free : basic.id ∈ w.es.idManager.freeIds

variable {w : World K D} {e : Entity} {basic : BasicInfo}

theorem Gone.cleanedUp (h : Gone w e basic) : w.CleanedUp e basic where
  destroyed hvalid := hvalid h.components
  name := by rw [EntitySystem.getEntityByName, h.name, Option.filter_none]
  id := by rw [EntitySystem.getEntityById, h.id, Option.filter_none]
  free := h.free

theorem runDeleteCommand_clients (w : World K D) (x : Entity × Bool) :
    (w.runDeleteCommand x).clients = w.clients := by
  rw [World.runDeleteCommand]
  split
  · rfl
  · cases x.2 <;> simp

theorem runDeleteCommands_clients (w : World K D) :
    w.runDeleteCommands.clients = w.clients := by
  have hfold : ∀ (xs : List (Entity × Bool)) (w : World K D),
      (xs.foldl World.runDeleteCommand w).clients = w.clients := by
    intro xs
    induction xs with
    | nil => exact fun _ => rfl
    | cons x xs ih => exact fun w => (ih _).trans (runDeleteCommand_clients w x)
  exact hfold w.es.deleteCommands w

theorem runDeleteCommand_saved (w : World K D) (x : Entity × Bool) :
    (w.runDeleteCommand x).saved = w.saved ∨
      x.2 = true ∧ (w.runDeleteCommand x).saved = x.1 :: w.saved := by
  rw [World.runDeleteCommand]
  split
  · exact .inl rfl
  · cases x.2 with
    | false => exact .inl rfl
    | true =>
        simp only [if_true, true_and, World.saveCharacter]
        split
        · exact .inr rfl
        · exact .inl rfl

theorem runDeleteCommand_of_ne {x : Entity × Bool} (h : e ≠ x.1) :
    (w.runDeleteCommand x).es.components e = w.es.components e := by
  rw [World.runDeleteCommand]
  split
  · rfl
  · rename_i comps _
    cases x.2 <;> cases comps.basic <;>
      simp [EntitySystem.destroyEntity_of_ne _ h, EntitySystem.unregister]

theorem runDeleteCommand_es {x : Entity × Bool} {comps : Components K D}
    (h : w.es.components x.1 = some comps) : (w.runDeleteCommand x).es =
      (comps.basic.elim w.es w.es.unregister).destroyEntity x.1 := by
  simp only [World.runDeleteCommand, h]
  cases x.2 <;> simp

/-- A delete command registers nothing and takes no free id. -/
theorem Gone.runDeleteCommand (h : Gone w e basic) (x : Entity × Bool) :
    Gone (w.runDeleteCommand x) e basic := by
  cases hx : w.es.components x.1 with
  | none => simpa only [World.runDeleteCommand, hx] using h
  | some comps =>
      have hne : e ≠ x.1 := by
        rintro rfl
        rw [h.components] at hx
        cases hx
      refine ⟨(runDeleteCommand_of_ne hne).trans h.components, ?_, ?_, ?_⟩
      · rw [runDeleteCommand_es hx]
        cases comps.basic with
        | none => exact h.name
        | some basic' =>
            simp [EntitySystem.destroyEntity, EntitySystem.unregister, update_apply, h.name]
      · rw [runDeleteCommand_es hx]
        cases comps.basic with
        | none => exact h.id
        | some basic' =>
            simp [EntitySystem.destroyEntity, EntitySystem.unregister, update_apply, h.id]
      · rw [runDeleteCommand_es hx]
        cases comps.basic with
        | none => exact h.free
        | some basic' => exact Finset.mem_insert_of_mem h.free

theorem gone_runDeleteCommand {comps : Components K D} (hcomps : w.es.components e = some comps)
    (hbasic : comps.basic = some basic) (save : Bool) :
    Gone (w.runDeleteCommand (e, save)) e basic := by
  have hes : (w.runDeleteCommand (e, save)).es = (w.es.unregister basic).destroyEntity e := by
    rw [runDeleteCommand_es hcomps, hbasic, Option.elim_some]
  refine ⟨?_, ?_, ?_, ?_⟩
  · rw [hes, EntitySystem.destroyEntity_self]
  · rw [hes]
    exact update_self basic.name none w.es.nameToEntity
  · rw [hes]
    exact update_self basic.id none w.es.idToEntity
  · rw [hes]
    exact Finset.mem_insert_self basic.id w.es.idManager.freeIds

theorem gone_runDeleteCommands {comps : Components K D} {save : Bool} {xs : List (Entity × Bool)}
    (hmem : (e, save) ∈ xs) (hcomps : w.es.components e = some comps)
    (hbasic : comps.basic = some basic) : Gone (xs.foldl World.runDeleteCommand w) e basic := by
  have hrest : ∀ (xs : List (Entity × Bool)) (w : World K D), Gone w e basic →
      Gone (xs.foldl World.runDeleteCommand w) e basic := by
    intro xs
    induction xs with
    | nil => exact fun _ h => h
    | cons x xs ih => exact fun w h => ih _ (h.runDeleteCommand x)
  induction xs generalizing w with
  | nil => exact absurd hmem List.not_mem_nil
  | cons x xs ih =>
      rw [List.foldl_cons]
      by_cases hx : e = x.1
      · obtain ⟨e', save'⟩ := x
        obtain rfl : e = e' := hx
        exact hrest xs _ (gone_runDeleteCommand hcomps hbasic save')
      · have hxs : (e, save) ∈ xs := (List.mem_cons.mp hmem).resolve_left fun h => hx (by rw [← h])
        exact ih hxs ((runDeleteCommand_of_ne hx).trans hcomps)

theorem count_runDeleteCommand_of_ne {x : Entity × Bool} (h : e ≠ x.1) :
    (w.runDeleteCommand x).saved.count e = w.saved.count e := by
  rcases runDeleteCommand_saved w x with hsaved | ⟨-, hsaved⟩
  · rw [hsaved]
  · rw [hsaved, List.count_cons_of_ne h.symm]

theorem count_runDeleteCommands_of_notMem {xs : List (Entity × Bool)} (h : ∀ x ∈ xs, e ≠ x.1) :
    (xs.foldl World.runDeleteCommand w).saved.count e = w.saved.count e := by
  induction xs generalizing w with
  | nil => rfl
  | cons x xs ih =>
      rw [List.forall_mem_cons] at h
      rw [List.foldl_cons, ih h.2, count_runDeleteCommand_of_ne h.1]

/-- One delete command that saves is one save. -/
theorem count_runDeleteCommands {comps : Components K D} {xs : List (Entity × Bool)}
    (h : xs.filter (fun x => x.1 = e) = [(e, true)]) (hcomps : w.es.components e = some comps)
    (hwhole : comps.Whole) :
    (xs.foldl World.runDeleteCommand w).saved.count e = w.saved.count e + 1 := by
  induction xs generalizing w with
  | nil => cases h
  | cons x xs ih =>
      rw [List.foldl_cons]
      by_cases hx : e = x.1
      · rw [List.filter_cons_of_pos (by simp [hx]), List.cons.injEq] at h
        obtain ⟨rfl, hnil⟩ := h
        rw [count_runDeleteCommands_of_notMem fun y hy heq => ?_]
        · obtain ⟨charId, pos, rest, items, -, -, -, -, hsave⟩ :=
            World.saveCharacter_of_whole hcomps hwhole
          simp [World.runDeleteCommand, hcomps, hsave]
        · exact List.filter_eq_nil_iff.mp hnil y hy (by simp [heq])
      · rw [List.filter_cons_of_neg (by simpa using Ne.symm hx)] at h
        rw [ih h ((runDeleteCommand_of_ne hx).trans hcomps), count_runDeleteCommand_of_ne hx]

end DeleteCommands

namespace Tidy

omit [LinearOrder K] [FloorSemiring K] [Field K]

variable {w w' : World K D}

theorem start (accounts : Accounts) (sessions : Sessions) (tables : Tables K D) :
    Tidy (MapServer.start accounts sessions tables) where
  joined _ _ h := by cases h
  notSaved _ h := absurd h List.not_mem_nil
  once _ h := absurd h List.not_mem_nil
  gone _ h := absurd h List.not_mem_nil

/-- A step that neither saves nor asks for a delete command. -/
theorem of_same (h : Tidy w) (hsaved : w'.saved = w.saved)
    (hcommands : w'.es.deleteCommands = w.es.deleteCommands)
    (hentity : ∀ c, (w'.clients c).entity = (w.clients c).entity)
    (hstate : ∀ c, (w'.clients c).loginState = .LOGGEDIN → (w.clients c).loginState = .LOGGEDIN)
    (hgone : ∀ c, (w.clients c).loginState = .DEFAULT → (w.clients c).connected = false →
      (w'.clients c).loginState = .DEFAULT ∧ (w'.clients c).connected = false) : Tidy w' where
  joined c e he hlogin := by
    rw [hsaved, hcommands]
    exact h.joined c e (hentity c ▸ he) (hstate c hlogin)
  notSaved e he := hsaved ▸ h.notSaved e (by rwa [World.ToSave, ← hcommands])
  once e he := hcommands ▸ h.once e (by rwa [World.ToSave, ← hcommands])
  gone e he := by
    obtain ⟨c, hc, hlogin, hconnected⟩ := h.gone e (by rwa [World.ToSave, ← hcommands])
    exact ⟨c, (hentity c).trans hc, hgone c hlogin hconnected⟩

theorem quiet (h : Tidy w) (hquiet : Quiet w w') : Tidy w' := by
  refine h.of_same hquiet.saved hquiet.deleteCommands hquiet.entity (fun c => ?_) (fun c => ?_)
  · rw [hquiet.loginState]
    exact id
  · rw [hquiet.loginState, hquiet.connected]
    exact fun hstate hconnected => ⟨hstate, hconnected⟩

/-- A change of one client that neither logs it in nor opens it again. -/
theorem setClient (h : Tidy w) {c : ℕ} {cl : Client K} (hentity : cl.entity = (w.clients c).entity)
    (hstate : cl.loginState = (w.clients c).loginState)
    (hconnected : cl.connected = true → (w.clients c).connected = true) :
    Tidy (w.setClient c cl) := by
  refine h.of_same rfl rfl (fun c' => ?_) (fun c' => ?_) (fun c' => ?_)
  · by_cases hc : c' = c
    · rw [hc, World.setClient_self, hentity]
    · rw [World.setClient_of_ne w hc]
  · by_cases hc : c' = c
    · rw [hc, World.setClient_self, hstate]
      exact id
    · rw [World.setClient_of_ne w hc]
      exact id
  · by_cases hc : c' = c
    · rw [hc, World.setClient_self, hstate]
      refine fun h h' => ⟨h, ?_⟩
      rw [Bool.eq_false_iff] at h' ⊢
      exact mt hconnected h'
    · rw [World.setClient_of_ne w hc]
      exact fun h h' => ⟨h, h'⟩

/-- What a handler does, unless it saves an entity that is to be saved later. -/
theorem perform (h : Tidy w) (hinv : Inv w) {env : Env K} {e : Entity} {c : ℕ} {eff : Effect K D}
    (hclient : eff.switches = true → (w.clients c).entity = some e)
    (hsave : eff.switches = true → ¬ w.ToSave e) : Tidy (w.perform env e c eff) := by
  have hcommands := World.perform_deleteCommands w env e c eff
  cases hswitches : eff.switches with
  | false =>
      have hclients : ∀ c', (w.perform env e c eff).clients c' = w.clients c' := fun c' => by
        rw [World.perform_clients]
        simp [hswitches]
      have hsaved := perform_saved w env e c eff
      rw [hswitches] at hsaved
      refine h.of_same (hsaved.resolve_right fun h => by cases h.1) hcommands
        (fun c' => by rw [hclients]) (fun c' => by rw [hclients]; exact id)
        (fun c' => by rw [hclients]; exact fun h h' => ⟨h, h'⟩)
  | true =>
      have hce := hclient hswitches
      have hsave' := hsave hswitches
      -- the client of the entity, and no other, is switching now
      have hentity : ∀ c', ((w.perform env e c eff).clients c').entity = (w.clients c').entity := by
        intro c'
        rw [World.perform_clients]
        split
        · rename_i hc
          rw [hc.2]
        · rfl
      have hother : ∀ c', c' ≠ c → (w.perform env e c eff).clients c' = w.clients c' := by
        intro c' hc
        rw [World.perform_clients, if_neg fun h => hc h.2]
      have hself : ((w.perform env e c eff).clients c).loginState = .SWITCHING := by
        rw [World.perform_clients, if_pos ⟨hswitches, rfl⟩]
      have hsaved : ∀ x, x ≠ e → x ∉ w.saved → x ∉ (w.perform env e c eff).saved := by
        intro x hx hxs
        rcases perform_saved w env e c eff with h | ⟨-, h⟩
        · rwa [h]
        · rw [h, List.mem_cons, not_or]
          exact ⟨hx, hxs⟩
      have hne : ∀ x, (w.perform env e c eff).ToSave x → w.ToSave x ∧ x ≠ e := by
        intro x hx
        rw [World.ToSave, hcommands] at hx
        exact ⟨hx, fun heq => hsave' (heq ▸ hx)⟩
      refine
        { joined := fun c' x hx hlogin => ?_
          notSaved := fun x hx => hsaved x (hne x hx).2 (h.notSaved x (hne x hx).1)
          once := fun x hx => hcommands ▸ h.once x (hne x hx).1
          gone := fun x hx => ?_ }
      · have hc : c' ≠ c := by
          rintro rfl
          rw [hself] at hlogin
          cases hlogin
        rw [hother c' hc] at hx hlogin
        have hxe : x ≠ e := fun heq => hc (hinv.own c' c e (heq ▸ hx) hce)
        rw [hcommands]
        obtain ⟨hxs, hxc⟩ := h.joined c' x hx hlogin
        exact ⟨hsaved x hxe hxs, hxc⟩
      · obtain ⟨c', hc', hlogin, hconnected⟩ := h.gone x (hne x hx).1
        have hc : c' ≠ c := by
          rintro rfl
          exact (hne x hx).2 (Option.some.inj (hc'.symm.trans hce))
        exact ⟨c', by rw [hother c' hc]; exact ⟨hc', hlogin, hconnected⟩⟩

theorem onDisconnected (h : Tidy w) (hinv : Inv w) (c : ℕ) : Tidy (w.onDisconnected c) := by
  by_cases hstate : (w.clients c).loginState = .DEFAULT
  · simp only [World.onDisconnected, hstate, if_true]
    exact h.setClient rfl hstate.symm (fun hc => by cases hc)
  obtain ⟨hself, hothers⟩ := World.onDisconnected_clients w c
  have hsaved := World.onDisconnected_saved w c
  have hgone : ∀ x, w.ToSave x → ∃ c', c' ≠ c ∧ (w.clients c').entity = some x ∧
      (w.clients c').loginState = .DEFAULT ∧ (w.clients c').connected = false := by
    intro x hx
    obtain ⟨c', hc', hlogin, hconnected⟩ := h.gone x hx
    exact ⟨c', fun heq => hstate (heq ▸ hlogin), hc', hlogin, hconnected⟩
  have hentity : ∀ c', ((w.onDisconnected c).clients c').entity = (w.clients c').entity := fun c' =>
    (onDisconnected_evolves hinv.fresh c).entity c'
  have hlogged : ∀ c', ((w.onDisconnected c).clients c').loginState = .LOGGEDIN →
      c' ≠ c ∧ (w.clients c').loginState = .LOGGEDIN := by
    intro c' hlogin
    have hc : c' ≠ c := by
      rintro rfl
      rw [hself.1] at hlogin
      cases hlogin
    exact ⟨hc, by rwa [hothers c' hc] at hlogin⟩
  rcases World.onDisconnected_deleteCommands w c with hcommands | ⟨e, he, hcommands⟩
  · refine
      { joined := fun c' x hx hlogin => ?_
        notSaved := fun x hx => ?_
        once := fun x hx => ?_
        gone := fun x hx => ?_ }
    · rw [hsaved, hcommands]
      exact h.joined c' x (hentity c' ▸ hx) (hlogged c' hlogin).2
    · rw [hsaved]
      exact h.notSaved x (by rwa [World.ToSave, ← hcommands])
    · rw [hcommands]
      exact h.once x (by rwa [World.ToSave, ← hcommands])
    · obtain ⟨c', hc, hgone⟩ := hgone x (by rwa [World.ToSave, ← hcommands])
      exact ⟨c', by rwa [hothers c' hc]⟩
  · -- the entity was not to be saved before, as its client was there
    have hnew : ¬ w.ToSave e := fun hx => by
      obtain ⟨c', hc, hc', -⟩ := hgone e hx
      exact hc (hinv.own c' c e hc' he)
    have htoSave : ∀ x, (w.onDisconnected c).ToSave x →
        w.ToSave x ∧ x ≠ e ∨ x = e ∧ (w.clients c).loginState = .LOGGEDIN := by
      intro x hx
      rw [World.ToSave, hcommands, List.mem_append, List.mem_singleton, Prod.mk.injEq] at hx
      rcases hx with hx | ⟨hx, hsave⟩
      · exact .inl ⟨hx, fun heq => hnew (heq ▸ hx)⟩
      · refine .inr ⟨hx, ?_⟩
        cases hlogin : (w.clients c).loginState with
        | DEFAULT => exact absurd hlogin hstate
        | LOGGEDIN => rfl
        | SWITCHING => simp [hlogin] at hsave
    refine
      { joined := fun c' x hx hlogin => ?_
        notSaved := fun x hx => ?_
        once := fun x hx => ?_
        gone := fun x hx => ?_ }
    · obtain ⟨hc, hlogin'⟩ := hlogged c' hlogin
      obtain ⟨hxs, hxc⟩ := h.joined c' x (hentity c' ▸ hx) hlogin'
      refine ⟨hsaved ▸ hxs, fun save hmem => ?_⟩
      rw [hcommands, List.mem_append, List.mem_singleton, Prod.mk.injEq] at hmem
      rcases hmem with hmem | ⟨heq, -⟩
      · exact hxc save hmem
      · exact hc (hinv.own c' c x (hentity c' ▸ hx) (heq ▸ he))
    · rw [hsaved]
      rcases htoSave x hx with ⟨hold, -⟩ | ⟨rfl, hlogin⟩
      · exact h.notSaved x hold
      · exact (h.joined c x he hlogin).1
    · rw [hcommands, List.filter_append]
      rcases htoSave x hx with ⟨hold, hne⟩ | ⟨rfl, hlogin⟩
      · simp [h.once x hold, hne.symm]
      · have hnone : w.es.deleteCommands.filter (fun y => y.1 = x) = [] := by
          refine List.filter_eq_nil_iff.mpr fun y hy heq => ?_
          exact (h.joined c x he hlogin).2 y.2 (of_decide_eq_true heq ▸ hy)
        simp [hnone, hlogin]
    · rcases htoSave x hx with ⟨hold, -⟩ | ⟨rfl, -⟩
      · obtain ⟨c', hc, hgone⟩ := hgone x hold
        exact ⟨c', by rwa [hothers c' hc]⟩
      · exact ⟨c, (hentity c).trans he, hself⟩

/-- After the end of an update nothing is to be saved. -/
theorem runDeleteCommands (h : Tidy w) : Tidy w.runDeleteCommands := by
  have hnone : ∀ e, ¬ w.runDeleteCommands.ToSave e := fun _ he => List.not_mem_nil he
  refine
    { joined := fun c e he hlogin => ⟨fun hmem => ?_, fun _ he => List.not_mem_nil he⟩
      notSaved := fun e he => absurd he (hnone e)
      once := fun e he => absurd he (hnone e)
      gone := fun e he => absurd he (hnone e) }
  rw [runDeleteCommands_clients] at he hlogin
  obtain ⟨hsaved, hcommands⟩ := h.joined c e he hlogin
  have hcount : w.runDeleteCommands.saved.count e = w.saved.count e :=
    count_runDeleteCommands_of_notMem fun x hx heq => hcommands x.2 (heq ▸ hx)
  rw [← List.count_pos_iff, hcount, List.count_pos_iff] at hmem
  exact hsaved hmem

theorem join (h : Tidy w) (hinv : Inv w) (env : Env K) (faults : Faults) (c : ℕ)
    (P : CliJoinServerReq) (hconnected : (w.clients c).connected = true) :
    Tidy (w.joinServerReply env faults c P).1 := by
  have hframe := joinServerReply_frame w env faults c P
  have hresult := joinServerReply_result w env faults c P
  generalize (w.joinServerReply env faults c P).1 = w' at hframe hresult
  have hcommands : w'.es.deleteCommands = w.es.deleteCommands := by
    cases hresult with
    | refused es => rw [es]
    | failed es => exact es.elim (fun es => by rw [es]) Extended.deleteCommands
    | loaded _ _ _ _ deleteCommands => exact deleteCommands
  -- the client joins and is connected, so it is not the client of an entity to be saved
  have hgone : ∀ e, w'.ToSave e → w.ToSave e := fun e he => by rwa [World.ToSave, ← hcommands]
  refine
    { joined := fun c' e he hlogin => ?_
      notSaved := fun e he => hframe.saved ▸ h.notSaved e (hgone e he)
      once := fun e he => hcommands ▸ h.once e (hgone e he)
      gone := fun e he => ?_ }
  · rw [hframe.saved, hcommands]
    by_cases hc : c' = c
    · subst hc
      cases hresult with
      | refused es state entity => exact h.joined c' e (entity ▸ he) (state ▸ hlogin)
      | failed es state state' entity =>
          have hnone := hinv.idle c' hconnected state
          have hentity := entity.elim (fun h => h.trans hnone) id
          rw [he] at hentity
          cases hentity
      | loaded charId comps created others deleteCommands state state' entity =>
          -- the entity is new
          obtain rfl := Option.some.inj (entity.symm.trans he)
          exact ⟨fun hmem => lt_irrefl _ (hinv.saved _ hmem),
            fun save hmem => lt_irrefl _ (hinv.commands _ hmem)⟩
    · rw [hframe.others c' hc] at he hlogin
      exact h.joined c' e he hlogin
  · obtain ⟨c', hc', hlogin, hconnected'⟩ := h.gone e (hgone e he)
    have hc : c' ≠ c := by
      rintro rfl
      rw [hconnected] at hconnected'
      cases hconnected'
    exact ⟨c', by rw [hframe.others c' hc]; exact ⟨hc', hlogin, hconnected'⟩⟩

end Tidy

theorem Tidy.handled {w : World K D} (h : Tidy w) (hinv : Inv w) (env : Env K) {e : Entity}
    {comps : Components K D} {packet : Packet K} {c : ℕ} (rest : List (Entity × Packet K))
    (hserved : w.Served e comps packet) (hclient : w.getClient e = some c)
    (horderly : w.Orderly .dispatchFront) :
    Tidy ((w.withQueue rest w.es.dispatchers).perform env e c (handle env comps packet)) := by
  have hqueue := Quiet.withQueue w rest w.es.dispatchers
  have hinv' := hinv.evolves (hqueue.evolves hinv.fresh)
  refine (h.quiet hqueue).perform hinv' (fun _ => ?_) (fun hswitches hsave => ?_)
  · exact hinv.entity_of_getClient hclient
  · obtain ⟨pos, hpos, hswitches'⟩ := handle_switches hswitches
    exact horderly e comps pos packet hserved hpos hswitches' hsave

theorem Tidy.walked {w : World K D} (h : Tidy w) (hinv : Inv w) (env : Env K) {e : Entity}
    {comps : Components K D} {pos : Position K} {dest : Destination K} {dt : K} {runSpeed : ℕ}
    {gate : Option (Destination K)} (hwalking : w.Walking e comps pos dest)
    (horderly : w.Orderly (.tick e dt runSpeed gate)) :
    Tidy (w.perform env e ((w.getClient e).getD 0)
      (walkEffect env comps pos dest dt runSpeed gate (w.getClient e).isSome)) := by
  refine h.perform hinv (fun hswitches => ?_) (fun hswitches hsave => ?_)
  · exact hinv.entity_of_isSome (walkEffect_switches hswitches).1
  · obtain ⟨hclient, warp, hgate, hmap⟩ := walkEffect_switches hswitches
    have hsome : w.getClient e ≠ none := Option.isSome_iff_ne_none.mp hclient
    exact horderly comps pos dest warp hwalking hsome hgate hmap hsave

theorem tidy_next (env : Env K) {w : World K D} (h : Tidy w) (hinv : Inv w) {ev : Event K}
    (horderly : w.Orderly ev) : Tidy (next env w ev) := by
  have hhappens := next_happens env w ev
  generalize next env w ev = w' at hhappens ⊢
  cases hhappens with
  | quiet hquiet => exact h.quiet hquiet
  | joined hconnected => exact h.join hinv env _ _ _ hconnected
  | disconnected => exact h.onDisconnected hinv _
  | @handled e comps packet c rest hserved hclient =>
      exact h.handled hinv env rest hserved hclient horderly
  | walked hwalking => exact h.walked hinv env hwalking horderly
  | deleted => exact h.runDeleteCommands

/-! ## Until the end of the update -/

section Stays

omit [LinearOrder K] [FloorSemiring K] [Field K]

/-- No entity and no delete command is gone. -/
structure Stays (w w' : World K D) : Prop where
  commands : ∀ x ∈ w.es.deleteCommands, x ∈ w'.es.deleteCommands
  components : ∀ e comps, w.es.components e = some comps →
    ∃ comps', w'.es.components e = some comps' ∧ SameCharacter comps comps'

namespace Stays

variable {w w' w'' : World K D}

theorem of_same (hcommands : w'.es.deleteCommands = w.es.deleteCommands)
    (hcomponents : w'.es.components = w.es.components) : Stays w w' where
  commands _ hx := hcommands ▸ hx
  components _ comps hcomps := ⟨comps, hcomponents ▸ hcomps, SameCharacter.refl comps⟩

theorem quiet (h : Quiet w w') : Stays w w' :=
  of_same h.deleteCommands h.components

theorem refl (w : World K D) : Stays w w :=
  of_same rfl rfl

theorem trans (h : Stays w w') (h' : Stays w' w'') : Stays w w'' where
  commands x hx := h'.commands x (h.commands x hx)
  components e comps hcomps := by
    obtain ⟨comps', hcomps', hsame⟩ := h.components e comps hcomps
    obtain ⟨comps'', hcomps'', hsame'⟩ := h'.components e comps' hcomps'
    exact ⟨comps'', hcomps'', hsame.trans hsame'⟩

theorem of_others {e : Entity} {comps comps' : Components K D}
    (hcommands : ∀ x ∈ w.es.deleteCommands, x ∈ w'.es.deleteCommands)
    (hcomps : w.es.components e = some comps) (hcomps' : w'.es.components e = some comps')
    (hsame : SameCharacter comps comps') (hothers : ∀ x comps, x ≠ e →
      w.es.components x = some comps → w'.es.components x = some comps) : Stays w w' where
  commands := hcommands
  components x comps₁ hx := by
    by_cases hxe : x = e
    · obtain rfl : comps = comps₁ := Option.some.inj (hcomps.symm.trans (hxe ▸ hx))
      exact ⟨comps', hxe ▸ hcomps', hsame⟩
    · exact ⟨comps₁, hothers x comps₁ hxe hx, SameCharacter.refl comps₁⟩

theorem perform (hfresh : w.Fresh) {env : Env K} {e : Entity} {c : ℕ} {eff : Effect K D}
    {comps : Components K D} (hcomps : w.es.components e = some comps)
    (hsame : SameCharacter comps eff.components) : Stays w (w.perform env e c eff) := by
  refine of_others (fun x hx => ?_) hcomps (World.perform_self (hfresh.lt hcomps)) hsame
    fun x comps' hx hcomps' => ?_
  · rwa [World.perform_deleteCommands]
  · rw [World.perform_of_ne hx (hfresh.lt hcomps'), hcomps']

theorem destroy (w : World K D) (entity : Option Entity) (save : Bool) :
    Stays w (w.destroy entity save) := by
  unfold World.destroy
  split
  · exact refl w
  split
  · exact refl w
  rename_i comps hcomps
  split
  · exact refl w
  rename_i basic hbasic
  split
  · exact refl w
  · refine of_others (fun x hx => List.mem_append_left _ hx) hcomps (w.es.assign_self _ _) ?_
      fun x comps' hx hcomps' => (w.es.assign_of_ne hx _).trans hcomps'
    exact { SameCharacter.refl comps with name := by simp [hbasic], id := by simp [hbasic] }

theorem onDisconnected (w : World K D) (c : ℕ) : Stays w (w.onDisconnected c) := by
  simp only [World.onDisconnected]
  split
  · exact of_same rfl rfl
  · exact (destroy w _ _).trans (of_same rfl rfl)

theorem join (hfresh : w.Fresh) {c : ℕ} (h : JoinResult w w' c) : Stays w w' := by
  have hne : ∀ e comps, w.es.components e = some comps → e ≠ w.es.created := fun e comps hcomps =>
    (hfresh.lt hcomps).ne
  cases h with
  | refused es => exact of_same (by rw [es]) (by rw [es])
  | failed es =>
      rcases es with es | es
      · exact of_same (by rw [es]) (by rw [es])
      · refine ⟨fun x hx => es.deleteCommands ▸ hx, fun e comps hcomps => ?_⟩
        exact ⟨comps, (es.components e (hne e comps hcomps)).trans hcomps, SameCharacter.refl comps⟩
  | loaded charId comps created others deleteCommands =>
      refine ⟨fun x hx => deleteCommands ▸ hx, fun e comps hcomps => ?_⟩
      exact ⟨comps, (others e (hne e comps hcomps)).trans hcomps, SameCharacter.refl comps⟩

end Stays

end Stays

theorem stays_next (env : Env K) {w : World K D} (hfresh : w.Fresh) {ev : Event K}
    (hev : ev ≠ .deleteCommands) : Stays w (next env w ev) := by
  have hhappens := next_happens env w ev
  generalize next env w ev = w' at hhappens ⊢
  cases hhappens with
  | quiet hquiet => exact Stays.quiet hquiet
  | joined hconnected => exact Stays.join hfresh (joinServerReply_result w env _ _ _)
  | disconnected => exact Stays.onDisconnected w _
  | @handled e comps packet c rest hserved hclient =>
      have hqueue := Quiet.withQueue w rest w.es.dispatchers
      exact (Stays.quiet hqueue).trans (Stays.perform (hqueue.evolves hfresh).fresh
        hserved.components (handle_sameCharacter env comps packet))
  | walked hwalking =>
      exact Stays.perform hfresh hwalking.components
        (walkEffect_sameCharacter env hwalking.position _ _ _ _ _)
  | deleted => exact absurd rfl hev

/-! ## The end of an entity -/

/-- Orderly runs keep both invariants. -/
theorem orderly_invariant {env : Env K} {w w' : World K D} {evs : List (Event K)} (hinv : Inv w)
    (htidy : Tidy w) (h : Run (Guarded World.Orderly (Step env)) w evs w') : Inv w' ∧ Tidy w' := by
  have hstep : ∀ (w : World K D) ev w', Inv w ∧ Tidy w →
      Guarded World.Orderly (Step env) w ev w' → Inv w' ∧ Tidy w' := by
    rintro w ev _ ⟨hinv, htidy⟩ ⟨horderly, rfl⟩
    exact ⟨inv_next env hinv ev, tidy_next env htidy hinv horderly⟩
  exact h.state_invariant ⟨hinv, htidy⟩ hstep

/-- A delete command waits for the end of the update, and the entity for it. -/
theorem waits {env : Env K} {w w' : World K D} {evs : List (Event K)} (hinv : Inv w)
    (h : Run (Step env) w evs w') : Event.deleteCommands ∉ evs → Inv w' ∧ Stays w w' := by
  induction h with
  | nil => exact fun _ => ⟨hinv, Stays.refl w⟩
  | @snoc evs w' w'' ev _ hlast ih =>
      intro hevs
      rw [List.mem_append, List.mem_singleton, not_or] at hevs
      obtain ⟨hinv', hstays⟩ := ih hevs.1
      obtain rfl := hlast
      exact ⟨inv_next env hinv' ev, hstays.trans (stays_next env hinv'.fresh (Ne.symm hevs.2))⟩

omit [Field K] [LinearOrder K] [FloorSemiring K] in
/-- `OnDisconnected` asks for the entity to be destroyed if it is on the map. -/
theorem onDisconnected_asks {w : World K D} {c : ℕ} {e : Entity}
    (hjoined : (w.clients c).loginState ≠ .DEFAULT) (he : (w.clients c).entity = some e)
    (honMap : w.OnMap e) : (w.onDisconnected c).es.deleteCommands =
      w.es.deleteCommands ++ [(e, decide ((w.clients c).loginState ≠ .SWITCHING))] := by
  obtain ⟨comps, basic, hcomps, hbasic, hmap⟩ := honMap
  simp only [World.onDisconnected, hjoined, if_false, World.setClient_es, he, World.destroy,
    hcomps, hbasic, hmap, Bool.not_true, Bool.false_eq_true]

/-- The character that every client plays here. -/
def oneCharacter : Tables ℚ Unit where
  characters charId := if charId = 0 then some { name := "a", x := 0, y := 0, map := 1, rest := () }
    else none
  inventory := []
  wishlist := []

/-- A server with one client that has joined. -/
def joinedOne : World ℚ Unit :=
  next World.sampleEnv (start twoAccounts MapClient.sessionOf2 oneCharacter)
    (.joinServerReq 0 { sessionId := 7, password := [] } fun _ => none)

/-- Its entity is on the map. -/
def onMapOne : World ℚ Unit :=
  next World.sampleEnv (next World.sampleEnv
    (next World.sampleEnv joinedOne (.checkPacket 0 .changeMapReq)) (.dispatch 0)) .dispatchFront

theorem run_onMapOne : Run (Guarded World.Orderly (Step World.sampleEnv))
    (start twoAccounts MapClient.sessionOf2 oneCharacter)
    [.joinServerReq 0 { sessionId := 7, password := [] } fun _ => none,
      .checkPacket 0 .changeMapReq, .dispatch 0, .dispatchFront] onMapOne := by
  refine .snoc (.snoc (.snoc (.snoc .nil ⟨trivial, rfl⟩) ⟨trivial, rfl⟩) ⟨trivial, rfl⟩) ⟨?_, rfl⟩
  -- nothing is to be saved
  exact fun _ _ _ _ _ _ _ hsave => absurd hsave List.not_mem_nil

/-- **In an orderly run** the update after a disconnect destroys the entity, takes its
registrations and its id back, and has saved it once if it was not switching. -/
theorem cleanedUp_of_orderly (env : Env K) (accounts : Accounts) (sessions : Sessions)
    (tables : Tables K D) {evs evs' : List (Event K)} {w w' : World K D} {c : ℕ} {e : Entity}
    {comps : Components K D} {basic : BasicInfo}
    (hrun : Run (Guarded World.Orderly (Step env)) (start accounts sessions tables) evs w)
    (hjoined : (w.clients c).loginState ≠ .DEFAULT) (he : (w.clients c).entity = some e)
    (hcomps : w.es.components e = some comps) (hbasic : comps.basic = some basic)
    (hdisconnect : w.Orderly (.onDisconnected c))
    (hrun' : Run (Guarded World.Orderly (Step env)) (w.onDisconnected c) evs' w')
    (hnext : Event.deleteCommands ∉ evs') :
    w'.runDeleteCommands.CleanedUp e basic ∧
      ((w.clients c).loginState ≠ .SWITCHING → w'.runDeleteCommands.saved.count e = 1) := by
  obtain ⟨hinv, htidy⟩ := orderly_invariant (Inv.start accounts sessions tables)
    (Tidy.start accounts sessions tables) hrun
  have hinv₀ : Inv (w.onDisconnected c) := inv_next env hinv (.onDisconnected c)
  obtain ⟨hinv', htidy'⟩ := orderly_invariant hinv₀ (htidy.onDisconnected hinv c) hrun'
  have hstays : Stays (w.onDisconnected c) w' :=
    (waits hinv₀ (hrun'.mono fun _ _ _ h => h.2) hnext).2
  -- the delete command and the entity are still there at the end of the update
  have hasks := onDisconnected_asks hjoined he (hdisconnect hjoined e he)
  have hmem : (e, decide ((w.clients c).loginState ≠ .SWITCHING)) ∈ w'.es.deleteCommands :=
    hstays.commands _ (by simp [hasks])
  obtain ⟨comps', hcomps', hsame⟩ :=
    ((Stays.onDisconnected w c).trans hstays).components e comps hcomps
  obtain ⟨basic', hbasic', hname⟩ :
      ∃ basic', comps'.basic = some basic' ∧ basic'.name = basic.name :=
    Option.map_eq_some_iff.mp (by rw [hsame.name, hbasic, Option.map_some])
  have hid : basic'.id = basic.id := by
    have h := hsame.id
    rwa [hbasic', hbasic, Option.map_some, Option.map_some, Option.some.injEq] at h
  have hgone := (gone_runDeleteCommands hmem hcomps' hbasic').cleanedUp
  refine ⟨⟨hgone.destroyed, hname ▸ hgone.name, hid ▸ hgone.id, hid ▸ hgone.free⟩, fun hstate => ?_⟩
  have hsave : w'.ToSave e := by rwa [decide_eq_true hstate] at hmem
  obtain ⟨c', hc', -⟩ := htidy'.gone e hsave
  have hcount : w'.saved.count e = 0 := List.count_eq_zero.mpr (htidy'.notSaved e hsave)
  have hsaved := count_runDeleteCommands (htidy'.once e hsave) hcomps'
    (hinv'.whole c' e comps' hc' hcomps')
  rw [hcount] at hsaved
  exact hsaved

/-- The client disconnects and its entity is saved and destroyed. -/
theorem cleanedUp_onMapOne :
    (onMapOne.onDisconnected 0).runDeleteCommands.CleanedUp 0
        { name := "a", id := 0, isOnMap := true } ∧
      (onMapOne.onDisconnected 0).runDeleteCommands.saved.count 0 = 1 := by
  obtain ⟨comps, hcomps, hbasic⟩ : ∃ comps, onMapOne.es.components 0 = some comps ∧
      comps.basic = some { name := "a", id := 0, isOnMap := true } := ⟨_, rfl, rfl⟩
  have honMap : onMapOne.Orderly (.onDisconnected 0) := by
    rintro - e he
    obtain rfl : 0 = e := Option.some.inj he
    exact ⟨comps, _, hcomps, hbasic, rfl⟩
  have h := cleanedUp_of_orderly World.sampleEnv twoAccounts MapClient.sessionOf2 oneCharacter
    (c := 0) run_onMapOne (by decide +kernel) rfl hcomps hbasic honMap .nil List.not_mem_nil
  exact ⟨h.1, h.2 (by decide +kernel)⟩

/-- The entity of a client that leaves before it is on the map stays. -/
theorem joined_not_cleanedUp :
    ¬ ∀ (env : Env ℚ) (accounts : Accounts) (sessions : Sessions) (tables : Tables ℚ Unit)
      (evs evs' : List (Event ℚ)) (w w' : World ℚ Unit) (c : ℕ) (e : Entity)
      (comps : Components ℚ Unit) (basic : BasicInfo),
      Run (Step env) (start accounts sessions tables) evs w →
      (w.clients c).loginState ≠ .DEFAULT → (w.clients c).entity = some e →
      w.es.components e = some comps → comps.basic = some basic →
      Run (Step env) (w.onDisconnected c) evs' w' → Event.deleteCommands ∉ evs' →
        w'.runDeleteCommands.CleanedUp e basic ∧
          ((w.clients c).loginState ≠ .SWITCHING → w'.runDeleteCommands.saved.count e = 1) := by
  intro h
  obtain ⟨comps, hcomps, hbasic⟩ : ∃ comps, joinedOne.es.components 0 = some comps ∧
      comps.basic = some { name := "a", id := 0 } := ⟨_, rfl, rfl⟩
  obtain ⟨hcleanedUp, -⟩ := h World.sampleEnv twoAccounts MapClient.sessionOf2 oneCharacter _ []
    joinedOne _ 0 0 comps _ (.snoc .nil rfl) (by decide +kernel) rfl hcomps hbasic .nil
    List.not_mem_nil
  have hstays : (joinedOne.onDisconnected 0).runDeleteCommands.es.components 0 = some comps :=
    hcomps
  exact hcleanedUp.destroyed (by simp [EntitySystem.Valid, hstays])

end OsIrose.MapServer

/-
What the clients of a map server have heard, in every run.

Each operation is an instance of a step of `ViewSteps`: an NPC and an item appear to everyone,
a character enters (`Greetings`), and what is destroyed vanishes. The registry of a world runs
as `Registry` does (`registry_next`), and what holds there of the entities is used here.

So in every run the view of each client is consistent (`consistent`).
-/
import OsIrose.Greetings

set_option autoImplicit false

namespace OsIrose.Views

open Function Runs
open MapServer (Entity BasicInfo)
open Registry (Buckets Components Create Delete Handled Load)

/-! ## The registry of a world -/

section Projection

variable {b : Buckets} {w : World}

theorem destroyEntity_eq_self {r : Registry} {e : Entity} (h : r.components e = none) :
    r.destroyEntity e = r := by
  have hsame : update r.components e none = r.components := update_eq_self_iff.mpr h.symm
  simp only [Registry.destroyEntity, hsame]

@[simp] theorem runCreate_registry (c : Create) :
    (w.runCreate b c).registry = w.registry.runCreate b c := by
  cases c with
  | npc e =>
      simp only [World.runCreate]
      split_ifs <;> rfl
  | warpgate e => rfl

@[simp] theorem removeEntity_registry (e : Entity) :
    (w.removeEntity e).registry = w.registry.destroyEntity e := by
  unfold World.removeEntity
  split_ifs with h
  · rfl
  · rw [destroyEntity_eq_self (by simpa using h)]

@[simp] theorem runDelete_registry (d : Delete) :
    (w.runDelete d).registry = w.registry.runDelete d := by
  cases d with
  | destroy e =>
      simp only [World.runDelete]
      split_ifs with h
      · rfl
      · have hnone : w.registry.components e = none := by simpa using h
        simp only [Registry.runDelete, hnone]
  | bulkDestroy es =>
      exact (List.foldl_hom World.registry fun w e =>
        (removeEntity_registry (w := w) e).symm).symm

/-- A packet may find no client. -/
theorem handle_registry (h : Handled) : (w.handle b h).registry = w.registry ∨
    (w.handle b h).registry = w.registry.handle b h := by
  cases h with
  | changeMap e =>
      simp only [World.handle, World.processChangeMapReq]
      split
      · exact Or.inl rfl
      · exact Or.inr rfl
  | buildItem => exact Or.inr rfl

theorem runCreates_registry : (w.runCreates b).registry = w.registry.runCreates b := by
  show { (w.registry.createCommands.foldl (World.runCreate b) w).registry with
    createCommands := [] } = _
  rw [← List.foldl_hom World.registry fun w c => (runCreate_registry (b := b) (w := w) c).symm]
  rfl

theorem runDeletes_registry : w.runDeletes.registry = w.registry.runDeletes := by
  show { (w.registry.deleteCommands.foldl World.runDelete w).registry with
    deleteCommands := [] } = _
  rw [← List.foldl_hom World.registry fun w d => (runDelete_registry (w := w) d).symm]
  rfl

theorem tick_registry (handled : List Handled) :
    ∃ handled', (w.tick b handled).registry = w.registry.tick b handled' := by
  have hloop : ∀ (handled : List Handled) (w : World), ∃ handled' : List Handled,
      (handled.foldl (World.handle b) w).registry =
        handled'.foldl (Registry.handle b) w.registry := by
    intro handled
    induction handled with
    | nil => exact fun _ => ⟨[], rfl⟩
    | cons h handled ih =>
        intro w
        obtain ⟨handled', hrest⟩ := ih (w.handle b h)
        obtain hskip | hdone := handle_registry (b := b) (w := w) h
        · exact ⟨handled', hrest.trans (by rw [hskip])⟩
        · exact ⟨h :: handled', hrest.trans (by rw [hdone]; rfl)⟩
  -- the packets that find no client are left out
  obtain ⟨handled', hhandled⟩ := hloop handled (w.runCreates b)
  exact ⟨handled', by rw [World.tick, runDeletes_registry, hhandled, runCreates_registry]; rfl⟩

/-- **The registry of a world runs as `Registry` does.** -/
theorem registry_next (e : Event) : (next b w e).registry = w.registry ∨
    ∃ e', (next b w e).registry = Registry.next b w.registry e' := by
  cases e with
  | connect c =>
      refine Or.inl ?_
      simp only [next]
      split_ifs <;> rfl
  | load c o =>
      simp only [next]
      split_ifs
      · exact Or.inr ⟨.loadCharacter o, rfl⟩
      · exact Or.inl rfl
  | assignSocket c =>
      simp only [next]
      cases (w.clients c).entity with
      | none => exact Or.inl rfl
      | some e => exact Or.inr ⟨.assignSocket e c, rfl⟩
  | createNpc => exact Or.inr ⟨.createNpc, rfl⟩
  | createWarpgate => exact Or.inr ⟨.createWarpgate, rfl⟩
  | bulkDestroy es => exact Or.inr ⟨.bulkDestroy es, rfl⟩
  | update handled =>
      obtain ⟨handled', h⟩ := tick_registry (b := b) (w := w) handled
      exact Or.inr ⟨.update handled', h⟩
  | disconnect c =>
      simp only [next]
      split_ifs
      · cases (w.clients c).entity with
        | none => exact Or.inl rfl
        | some e => exact Or.inr ⟨.destroy e, rfl⟩
      · exact Or.inl rfl
  | unlist c => exact Or.inl rfl
  | release c =>
      refine Or.inl ?_
      simp only [next]
      split_ifs <;> rfl

theorem registry_inv_next (h : w.registry.Inv) (e : Event) : (next b w e).registry.Inv := by
  obtain hsame | ⟨e', he'⟩ := registry_next (b := b) (w := w) e
  · rw [hsame]
    exact h
  · rw [he']
    exact Registry.inv_next h e'

end Projection

/-! ## The operations -/

/-- What is kept between two commands. -/
structure World.Kept (w : World) (due commands : List Delete) : Prop where
  bound : w.Bound
  view : w.View due commands

section Operations

variable {b : Buckets} {w : World} {due commands : List Delete}

theorem World.Kept.congr (h : w.Kept due commands) {r : Registry}
    (hcomponents : r.components = w.registry.components)
    (hcreated : w.registry.created ≤ r.created) : (w.withRegistry r).Kept due commands where
  bound := h.bound.of_components hcreated fun _ _ hcomps => hcomponents ▸ hcomps
  view := h.view.discreet h.bound ((Discreet.refl _).congr hcomponents hcreated)

theorem World.Kept.of_commands {due' commands' : List Delete} (h : w.Kept due commands)
    (hdue : ∀ e, w.registry.components e ≠ none → .destroy e ∈ due → .destroy e ∈ due')
    (hcommands : ∀ e, w.registry.components e ≠ none → .destroy e ∈ commands →
      .destroy e ∈ commands') : w.Kept due' commands' :=
  ⟨h.bound, h.view.of_commands hdue hcommands⟩

/-- Something is created and nobody is told. -/
theorem World.Kept.create (h : w.Kept due commands) {comps : Components} (hkind : Kind comps)
    (hsocket : comps.socket = none) (hshown : shownAs w.registry.created comps = none) :
    (w.withRegistry (w.registry.create comps)).Kept due commands where
  bound := h.bound.create hkind hsocket
  view := h.view.discreet h.bound (Discreet.create fun m hm => by simp [hshown] at hm)

/-! ### The create commands -/

/-- What a create command is for is nothing yet. -/
theorem bare_of_pending (hs : w.registry.Sound) {c : Create} {cs : List Create}
    (hp : w.registry.Pending (c :: cs)) (hw : w.Bound) {comps : Components}
    (hcomps : w.registry.components c.entity = some comps) : comps = {} := by
  have hbasic : comps.basic = none := (hp.bare c.entity comps hcomps).mpr List.mem_cons_self
  have hsound := hs.components c.entity comps hcomps
  have hkind := hw.kind c.entity comps hcomps
  have hcharacter := hsound.character_eq_false hbasic
  have hnpc : comps.npc = false := by
    by_contra htrue
    exact hkind.npc (by simpa using htrue) hbasic
  have hitem : comps.item = false := by
    by_contra htrue
    exact (hkind.item (by simpa using htrue)).1 hbasic
  have hsocket : comps.socket = none := by
    by_contra hsome
    rw [hsound.socket hsome] at hcharacter
    exact absurd hcharacter (by decide)
  cases comps
  simp_all

theorem kind_assign (c : Create) (id : MapServer.Id) : Kind (c.assign id {}) := by
  refine ⟨fun _ => by simp, fun hitem => ?_⟩
  cases c <;> exact absurd hitem (by simp [Create.assign])

/-- A create command makes an NPC or a warpgate. -/
theorem shownAs_assign (c : Create) (id : MapServer.Id) : shownAs c.entity (c.assign id {}) =
    match c with
    | .npc e => some (.npcChar e)
    | .warpgate _ => none := by
  cases c <;> rfl

theorem runCreate_kept (hs : w.registry.Sound) {c : Create} {cs : List Create}
    (hp : w.registry.Pending (c :: cs)) (h : w.Kept due commands) :
    (w.runCreate b c).Kept due commands := by
  cases hcomps : w.registry.components c.entity with
  | none =>
      have hsame : w.runCreate b c = w := by
        cases c <;>
          simp_all [World.runCreate, Registry.runCreate, World.withRegistry, Create.entity]
      rwa [hsame]
  | some comps =>
      obtain rfl := bare_of_pending hs hp h.bound hcomps
      have hbare : ∀ comps, w.registry.components c.entity = some comps → comps = {} :=
        fun comps hcomps' => (Option.some.inj (hcomps.symm.trans hcomps')).symm
      have hrun : w.registry.runCreate b c =
          (w.registry.takeId b).modify c.entity (c.assign (w.registry.freeId b)) := by
        simp only [Registry.runCreate, hcomps, Option.isSome_some, if_true]
      have htaken := h.congr (r := w.registry.takeId b) rfl le_rfl
      have hbound : (w.withRegistry (w.registry.runCreate b c)).Bound := by
        rw [hrun]
        refine htaken.bound.modify (fun comps hcomps' _ => ?_) fun comps c' hcomps' hc' => ?_
        · rw [hbare comps hcomps']
          exact kind_assign c _
        · rw [hbare comps hcomps', Registry.assign_socket] at hc'
          exact absurd hc' (by simp)
      -- everyone is told what it is, an NPC or nothing
      have hdiscreet : Discreet (w.registry.takeId b) (w.registry.runCreate b c)
          (shownAs c.entity (c.assign (w.registry.freeId b) {})) commands := by
        rw [hrun]
        refine Discreet.modify (fun comps m hcomps' hm => ?_) (Registry.assign_character c _)
          (fun comps hcomps' hmap => absurd hmap (by simp [Components.isOnMap]))
          fun comps hcomps' hmap => ?_
        · exact Or.inr (hbare comps hcomps' ▸ hm)
        · rw [hbare comps hcomps'] at hmap
          exact absurd hmap (by decide)
      rw [shownAs_assign] at hdiscreet
      cases c with
      | npc e =>
          have hassigned : (w.registry.runCreate b (.npc e)).components e =
              some (Create.assign (w.registry.freeId b) (.npc e) {}) := by
            rw [hrun, Create.entity, Registry.modify_self, Registry.takeId_components,
              show w.registry.components e = _ from hcomps]
            rfl
          have htold : w.runCreate b (.npc e) =
              (w.withRegistry (w.registry.runCreate b (.npc e))).tell w.everyone (.npcChar e) :=
            if_pos (Option.isSome_iff_exists.mpr ⟨_, hcomps⟩)
          rw [htold]
          exact ⟨hbound.tell (m := .npcChar e) (Registry.lt_created hassigned) _,
            htaken.view.appear htaken.bound hdiscreet hassigned rfl rfl⟩
      | warpgate e => exact ⟨hbound, htaken.view.discreet htaken.bound hdiscreet⟩

/-! ### The handlers -/

theorem dropItem_kept (h : w.Kept due commands) : (w.dropItem b).Kept due commands := by
  have htaken := h.congr (r := w.registry.takeId b) rfl le_rfl
  let comps : Components := { basic := some { id := w.registry.freeId b }, item := true }
  have hself := Registry.create_self (s := w.registry.takeId b) comps
  have hkind : Kind comps := ⟨fun _ => by simp [comps], fun _ => by simp [comps]⟩
  have hbound : (w.withRegistry (w.registry.buildItemEntity b)).Bound :=
    htaken.bound.create hkind rfl
  exact ⟨hbound.tell (m := .dropItem w.registry.created) (Nat.lt_succ_self _) _,
    htaken.view.appear (m := .dropItem w.registry.created) htaken.bound
      (Discreet.create fun m hm => hm) hself rfl rfl⟩

theorem handle_kept (hs : w.registry.Sound) (h : w.Kept [] commands) (hd : Handled) :
    (w.handle b hd).Kept [] commands := by
  cases hd with
  | changeMap e =>
      show (w.processChangeMapReq b e).Kept [] commands
      obtain hsame | ⟨c, henters, hbound⟩ := processChangeMapReq_cases (b := b) hs h.bound e
      · rwa [hsame]
      · exact ⟨hbound, henters.view hs h.bound h.view⟩
  | buildItem => exact dropItem_kept h

/-! ### The delete commands -/

theorem removeEntity_kept (h : w.Kept due commands) (e : Entity) :
    (w.removeEntity e).Kept due commands := by
  cases hcomps : w.registry.components e with
  | none =>
      have hrun : w.removeEntity e = w := if_neg (by simp [hcomps])
      rwa [hrun]
  | some comps =>
      have hrun : w.removeEntity e = (w.tell w.everyone (.removeObject e)).withRegistry
          (w.registry.destroyEntity e) := if_pos (Option.isSome_iff_exists.mpr ⟨comps, hcomps⟩)
      have htold := h.bound.tell (m := .removeObject e) (Registry.lt_created hcomps) w.everyone
      rw [hrun]
      refine ⟨htold.of_components le_rfl fun e' comps' hcomps' => ?_,
        h.view.vanish rfl rfl (by simp [hcomps]) fun c hc _ _ => Or.inl hc⟩
      by_cases he : e' = e
      · subst he
        simp at hcomps'
      · rwa [Registry.destroyEntity_of_ne he] at hcomps'

/-- **A character goes.** Its own client may not have heard of it, and those who are not on the
map and stay have not heard of any character. -/
theorem runDestroy_kept (hs : w.registry.Inv) {e : Entity} {ds : List Delete}
    (hd : .destroy e ∈ w.registry.deleteCommands)
    (h : w.Kept (.destroy e :: ds) (.destroy e :: ds)) : (w.runDelete (.destroy e)).Kept ds ds := by
  have hdead : (w.runDelete (.destroy e)).registry.components e = none := by
    rw [runDelete_registry, Registry.runDelete_components]
    exact if_pos (List.mem_singleton_self e)
  suffices hkept : (w.runDelete (.destroy e)).Kept (.destroy e :: ds) (.destroy e :: ds) by
    -- with the entity gone, its own command is of no account
    have hrest : ∀ e', (w.runDelete (.destroy e)).registry.components e' ≠ none →
        .destroy e' ∈ Delete.destroy e :: ds → .destroy e' ∈ ds := by
      intro e' halive hmem
      obtain heq | hmem := List.mem_cons.mp hmem
      · exact absurd (Delete.destroy.inj heq ▸ hdead) halive
      · exact hmem
    exact hkept.of_commands hrest hrest
  cases hcomps : w.registry.components e with
  | none =>
      have hrun : w.runDelete (.destroy e) = w := if_neg (by simp [hcomps])
      rwa [hrun]
  | some comps =>
      have hcharacter := (hs.destroy e hd).2 comps hcomps
      let audience := (w.getClient e).elim w.everyone w.everyoneButMeOnMap
      have hrun : w.runDelete (.destroy e) = (w.tell audience (.removeObject e)).withRegistry
          (w.registry.runDelete (.destroy e)) :=
        if_pos (Option.isSome_iff_exists.mpr ⟨comps, hcomps⟩)
      have hcomponents : (w.registry.runDelete (.destroy e)).components =
          update w.registry.components e none := by
        rw [Registry.runDelete_components]
        funext e'
        simp [update_apply, Delete.targets]
      have hcreated := (Registry.shrinks_runDelete hs hd).created
      have htold := h.bound.tell (m := .removeObject e) (Registry.lt_created hcomps) audience
      rw [hrun]
      refine ⟨htold.of_components hcreated.ge fun e' comps' hcomps' => ?_,
        h.view.vanish hcomponents hcreated (by simp [hcomps]) fun c hc hne hattached => ?_⟩
      · rw [hcomponents, update_apply] at hcomps'
        split_ifs at hcomps' with he
        exact hcomps'
      · cases hclient : w.getClient e with
        | none => exact Or.inl (by simpa [audience, hclient, World.everyone] using hc)
        | some c₀ =>
            obtain ⟨hsocket, _⟩ := Option.filter_eq_some_iff.mp hclient
            obtain ⟨comps', hcomps', hsocket⟩ := Option.bind_eq_some_iff.mp hsocket
            -- the client of the entity is the only one that has it
            have hcc : c ≠ c₀ := fun hcc => hne (hcc ▸ h.bound.socket e comps' c₀ hcomps' hsocket)
            by_cases hon : (w.clients c).entity.any w.isOnMap = true
            · exact Or.inl (by simp [audience, hclient, World.everyoneButMeOnMap, hc, hcc, hon])
            · -- not on the map, and no command for its entity: it waits
              refine Or.inr (h.view.offMap c hc (fun e₁ he₁ => ?_) e comps hcomps hcharacter)
              obtain ⟨halive, hmap⟩ := hattached e₁ he₁
              have hoff : w.isOnMap e₁ = false := by simpa [he₁] using hon
              exact ⟨halive, hoff, hmap.resolve_left (by simp [hoff])⟩

theorem runDelete_kept (hs : w.registry.Inv) {d : Delete} {ds : List Delete}
    (hd : d ∈ w.registry.deleteCommands) (h : w.Kept (d :: ds) (d :: ds)) :
    (w.runDelete d).Kept ds ds := by
  cases d with
  | destroy e => exact runDestroy_kept hs hd h
  | bulkDestroy es =>
      -- `bulk_destroy` tells everyone, so it does not matter who waits
      have hrest : ∀ e', .destroy e' ∈ Delete.bulkDestroy es :: ds → .destroy e' ∈ ds :=
        fun e' hmem => (List.mem_cons.mp hmem).resolve_left (by simp)
      exact foldl_invariant (fun w : World => w.Kept ds ds)
        (fun _ e hkept => removeEntity_kept hkept e)
        (h.of_commands (fun e' _ => hrest e') fun e' _ => hrest e') es

/-! ### `update` -/

theorem runCreates_kept (hs : w.registry.Inv) (h : w.Kept due commands) :
    (w.runCreates b).Kept due commands := by
  have hloop := foldl_remaining (World.runCreate b)
    (fun cs w => w.registry.Sound ∧ w.registry.Pending cs ∧ w.Kept due commands)
    (fun c cs w ⟨hsound, hpending, hkept⟩ => by
      obtain ⟨hsound', hpending', _⟩ := Registry.runCreate_spec (b := b) hsound hpending
      rw [runCreate_registry]
      exact ⟨hsound', hpending', runCreate_kept hsound hpending hkept⟩)
    ⟨hs.toSound, hs.pending, h⟩
  exact hloop.2.2.congr rfl le_rfl

theorem handles_kept (hs : w.registry.Inv) (h : w.Kept [] commands) (handled : List Handled) :
    (handled.foldl (World.handle b) w).Kept [] commands ∧
      (handled.foldl (World.handle b) w).registry.Inv ∧
      (handled.foldl (World.handle b) w).registry.deleteCommands =
        w.registry.deleteCommands := by
  refine foldl_invariant (fun w' : World => w'.Kept [] commands ∧ w'.registry.Inv ∧
    w'.registry.deleteCommands = w.registry.deleteCommands) (fun w' hd ⟨hkept, hinv, hsame⟩ => ?_)
    ⟨h, hs, rfl⟩ handled
  refine ⟨handle_kept hinv.toSound hkept hd, ?_⟩
  obtain hskip | hdone := handle_registry (b := b) (w := w') hd
  · rw [hskip]
    exact ⟨hinv, hsame⟩
  · obtain ⟨hinv', hgrows⟩ := Registry.handle_spec (b := b) hinv hd
    rw [hdone]
    exact ⟨hinv', hgrows.deletes.trans hsame⟩

theorem runDeletes_kept (hs : w.registry.Inv) (h : w.Kept [] w.registry.deleteCommands) :
    w.runDeletes.Kept [] [] := by
  have hloop := foldl_remaining World.runDelete
    (fun ds w => w.registry.Inv ∧ (∀ d ∈ ds, d ∈ w.registry.deleteCommands) ∧ w.Kept ds ds)
    (fun d ds w ⟨hinv, hmem, hkept⟩ => by
      obtain ⟨hd, hds⟩ := List.forall_mem_cons.mp hmem
      obtain ⟨hinv', hsame⟩ := Registry.runDelete_spec hinv hd
      rw [runDelete_registry]
      exact ⟨hinv', hsame ▸ hds, runDelete_kept hinv hd hkept⟩)
    ⟨hs, fun _ => id, h.of_commands (fun _ _ hmem => absurd hmem List.not_mem_nil) fun _ _ => id⟩
  exact hloop.2.2.congr rfl le_rfl

theorem tick_kept (hs : w.registry.Inv) (h : w.Kept [] w.registry.deleteCommands)
    (handled : List Handled) : (w.tick b handled).Kept [] [] := by
  have hcreates := runCreates_kept (b := b) hs h
  obtain ⟨hinv, hgrows⟩ := Registry.runCreates_spec (b := b) hs
  rw [← runCreates_registry] at hinv hgrows
  obtain ⟨hkept, hinv', hsame⟩ := handles_kept (b := b) hinv hcreates handled
  rw [← hgrows.deletes, ← hsame] at hkept
  exact runDeletes_kept hinv' hkept

end Operations

/-! ## Between updates -/

section Between

variable {b : Buckets} {w : World} {commands : List Delete}

theorem loadCharacter_kept (h : w.Kept [] commands) (o : Load) :
    (w.withRegistry (w.registry.loadCharacter b o)).Kept [] commands := by
  have hcreate : ∀ comps : Components, Kind comps → comps.socket = none →
      (∀ e, shownAs e comps = none) →
      (w.withRegistry ((w.registry.takeId b).create comps)).Kept [] commands :=
    fun comps hkind hsocket hshown =>
      (h.congr (r := w.registry.takeId b) rfl le_rfl).create hkind hsocket (hshown _)
  cases o with
  | missing =>
      exact h.congr (Registry.create_destroyEntity_components {}) (Nat.le_succ _)
  | threw name =>
      exact hcreate _ ⟨fun _ => by simp, fun hitem => absurd hitem (by simp)⟩ rfl fun _ => rfl
  | loaded name =>
      have hcreated := hcreate
        { basic := some { name, id := w.registry.freeId b }, character := true }
        ⟨fun _ => by simp, fun hitem => absurd hitem (by simp)⟩ rfl fun _ => rfl
      exact hcreated.congr (Registry.registerEntity_components _)
        (Registry.registerEntity_fields _).1.ge

theorem assignSocket_kept (h : w.Kept [] commands) {c : ℕ} {e : Entity}
    (he : (w.clients c).entity = some e) :
    (w.withRegistry (w.registry.assignSocket e c)).Kept [] commands where
  bound := by
    refine h.bound.modify (fun comps _ hkind => ?_) fun comps c' hcomps hc' => ?_
    · split_ifs
      · exact ⟨hkind.npc, hkind.item⟩
      · exact hkind
    · split_ifs at hc'
      · rwa [← Option.some.inj hc']
      · exact h.bound.socket e comps c' hcomps hc'
  view := by
    refine h.view.discreet h.bound (Discreet.modify (fun comps m _ hm => Or.inl ?_)
      (fun comps => ?_) (fun comps _ hon => ?_) fun comps _ hon => Or.inl ?_)
    · split_ifs at hm <;> exact hm
    · split_ifs <;> rfl
    · split_ifs at hon <;> exact hon
    · split_ifs <;> exact hon

/-- `create_npc` and `create_warpgate`. -/
theorem create_bare_kept (h : w.Kept [] commands) :
    (w.withRegistry (w.registry.create {})).Kept [] commands :=
  h.create ⟨fun hnpc => absurd hnpc (by decide), fun hitem => absurd hitem (by decide)⟩ rfl rfl

/-- A character that is taken off the map is no longer to be shown. -/
theorem shownAs_setOnMap_false {e : Entity} {comps : Components} (hs : comps.Sound)
    (hkind : Kind comps) (hon : comps.isOnMap = true) :
    shownAs e (comps.setOnMap false) = none := by
  have hcharacter := hs.onMap hon
  have hnpc : (comps.setOnMap false).npc = false := hs.npc hcharacter
  have hoff : (comps.setOnMap false).isOnMap = false := by
    by_contra htrue
    exact absurd ((Registry.setOnMap_isOnMap comps false).mp (by simpa using htrue)).2 (by decide)
  have hitem : comps.item = false := by
    by_contra htrue
    have hnot := (hkind.item (by simpa using htrue)).2.1
    exact absurd (hcharacter.symm.trans hnot) (by decide)
  simp [shownAs, hnpc, hoff, show (comps.setOnMap false).item = false from hitem]

/-- A character is off the map, with the command that destroys it pending. -/
theorem destroy_kept (hs : w.registry.Sound) (h : w.Kept [] w.registry.deleteCommands)
    (e : Entity) : (w.withRegistry (w.registry.destroy e)).Kept []
      (w.registry.destroy e).deleteCommands := by
  unfold Registry.destroy
  split_ifs with hon
  · have hpushed : w.Kept [] (w.registry.deleteCommands ++ [.destroy e]) :=
      h.of_commands (fun _ _ => id) fun _ _ hmem => List.mem_append_left _ hmem
    have hmodified : (w.withRegistry (w.registry.modify e (·.setOnMap false))).Kept []
        (w.registry.deleteCommands ++ [.destroy e]) := by
      refine ⟨hpushed.bound.modify (fun _ _ hkind => kind_setOnMap hkind) fun comps c hcomps hc =>
        hpushed.bound.socket e comps c hcomps hc, hpushed.view.discreet hpushed.bound
        (Discreet.modify (fun comps m hcomps hm => ?_) (fun _ => rfl) (fun comps _ hmap => ?_)
          fun _ _ _ => Or.inr (List.mem_append_right _ (List.mem_singleton_self _)))⟩
      · obtain ⟨comps', hcomps', hmap⟩ := (Option.any_eq_true _ _).mp hon
        obtain rfl := Option.some.inj (hcomps.symm.trans hcomps')
        simp [shownAs_setOnMap_false (hs.components e comps hcomps) (h.bound.kind e comps hcomps)
          hmap] at hm
      · exact absurd ((Registry.setOnMap_isOnMap comps false).mp hmap).2 (by decide)
    exact hmodified.congr rfl le_rfl
  · exact h

/-- What is kept from event to event. -/
structure World.Inv (w : World) : Prop where
  registry : w.registry.Inv
  kept : w.Kept [] w.registry.deleteCommands

/-- A client changes, and neither its entity nor what it has heard. -/
theorem World.Kept.setClient (h : w.Kept [] commands) {c : ℕ} {cl : Client}
    (hentity : cl.entity = (w.clients c).entity) (hjoined : cl.joined = (w.clients c).joined)
    (hheard : cl.heard = (w.clients c).heard) (habsent : cl.phase = .absent → cl.joined = false)
    (hlisted : cl.listed = true → (w.clients c).listed = true) :
    (w.setClient c cl).Kept [] commands where
  bound := h.bound.setClient hentity hjoined (fun m hm => h.bound.born c m (hheard ▸ hm)) habsent
  view := h.view.setClient fun hc => Or.inr ⟨hlisted hc, hheard, Or.inl hentity⟩

theorem connect_kept (h : w.Kept [] commands) {c : ℕ} (hc : (w.clients c).phase = .absent) :
    (w.setClient c { phase := .connected, listed := true }).Kept [] commands where
  bound := by
    have hjoined := h.bound.absent c hc
    exact h.bound.setClient (h.bound.unjoined c hjoined).symm hjoined.symm
      (fun m hm => absurd hm List.not_mem_nil) (by simp)
  view := h.view.setClient fun _ => Or.inl ⟨rfl, rfl⟩

/-- The client gets the entity that was created last. -/
theorem load_kept (h : w.Kept [] commands) {c : ℕ} {o : Load}
    (hphase : (w.clients c).phase = .connected) (hjoined : (w.clients c).joined = false) :
    ((w.withRegistry (w.registry.loadCharacter b o)).setClient c { w.clients c with
      joined := true
      entity := loadedEntity w.registry o }).Kept [] commands := by
  have hloaded := loadCharacter_kept (b := b) h o
  have hnone := h.bound.unjoined c hjoined
  have hentity : ∀ e, loadedEntity w.registry o = some e →
      e = w.registry.created ∧ ∃ name, o = .loaded name := by
    intro e he
    cases o with
    | loaded name => exact ⟨(Option.some.inj he).symm, name, rfl⟩
    | _ => simp [loadedEntity] at he
  refine ⟨hloaded.bound.setEntity hnone (hphase.trans_ne (by decide)) fun e he => ?_,
    hloaded.view.setClient fun hlisted => Or.inr ⟨hlisted, rfl, Or.inr ⟨hnone, fun e he => ?_⟩⟩⟩ <;>
    obtain ⟨rfl, name, rfl⟩ := hentity e he
  · -- the entity is new, so it is nobody's
    refine ⟨?_, fun c' hc' => absurd (h.bound.lt c' _ hc') (lt_irrefl _)⟩
    exact (Registry.created_loaded name).symm ▸ Nat.lt_succ_self _
  · have hself := Registry.create_self (s := w.registry.takeId b)
      { basic := some { name, id := w.registry.freeId b }, character := true }
    show ((w.registry.loadCharacter b (.loaded name)).components w.registry.created).any _ = false
    rw [Registry.loadCharacter, Registry.registerEntity_components]
    exact (congrArg (Option.any Components.isOnMap) hself).trans rfl

theorem loadCharacter_deletes (r : Registry) (o : Load) :
    (r.loadCharacter b o).deleteCommands = r.deleteCommands := by
  cases o with
  | loaded name => exact (Registry.registerEntity_fields r.created).2.2.2.2
  | _ => rfl

theorem inv_start : start.Inv where
  registry := Registry.inv_start
  kept := {
    bound := {
      kind := fun _ _ h => absurd h (by simp [start, Registry.start])
      socket := fun _ _ _ h => absurd h (by simp [start, Registry.start])
      lt := fun _ _ h => absurd h (by simp [start])
      injective := fun _ _ _ h => absurd h (by simp [start])
      born := fun _ _ h => absurd h List.not_mem_nil
      unjoined := fun _ _ => rfl
      absent := fun _ _ => rfl }
    view := {
      shown := fun _ _ h => absurd h (by simp [start])
      gone := fun _ h => absurd h (by simp [start])
      offMap := fun _ h => absurd h (by simp [start]) } }

theorem inv_next (h : w.Inv) (e : Event) : (next b w e).Inv := by
  refine ⟨registry_inv_next h.registry e, ?_⟩
  have hkept := h.kept
  cases e with
  | connect c =>
      simp only [next]
      split_ifs with hc
      · exact connect_kept hkept hc
      · exact hkept
  | load c o =>
      simp only [next]
      split_ifs with hc
      · have hloaded := load_kept (b := b) (o := o) hkept hc.1 (by simpa using hc.2)
        rwa [← loadCharacter_deletes (b := b) w.registry o] at hloaded
      · exact hkept
  | assignSocket c =>
      simp only [next]
      cases he : (w.clients c).entity with
      | none => exact hkept
      | some e => exact assignSocket_kept hkept he
  | createNpc => exact (create_bare_kept hkept).congr rfl le_rfl
  | createWarpgate => exact (create_bare_kept hkept).congr rfl le_rfl
  | bulkDestroy es =>
      have hpushed : w.Kept [] (w.registry.bulkDestroy es).deleteCommands :=
        hkept.of_commands (fun _ _ => id) fun _ _ hmem => List.mem_append_left _ hmem
      exact hpushed.congr rfl le_rfl
  | update handled => exact tick_kept h.registry hkept handled
  | disconnect c =>
      simp only [next]
      split_ifs with hc
      · cases he : (w.clients c).entity with
        | none => exact hkept.setClient he.symm rfl rfl (by simp) id
        | some e =>
            have hdestroyed := destroy_kept h.registry.toSound hkept e
            exact hdestroyed.setClient he.symm rfl rfl (by simp) id
      · exact hkept
  | unlist c => exact hkept.setClient rfl rfl rfl (hkept.bound.absent c) (by simp)
  | release c =>
      simp only [next]
      split_ifs
      · exact hkept
      · exact hkept.setClient rfl rfl rfl (hkept.bound.absent c) id

end Between

/-! ## Every run -/

/-- The entity of a client that is on the list is on the map. -/
def World.Plays (w : World) (c : ℕ) (e : Entity) : Prop :=
  (w.clients c).listed = true ∧ (w.clients c).entity = some e ∧ w.isOnMap e = true

/-- The last that a client on the map has heard of another entity is how that entity is. -/
structure World.Consistent (w : World) : Prop where
  player : ∀ c e, w.Plays c e → ∀ e', e' ≠ e → w.isOnMap e' = true →
    (w.clients c).last e' = some (.playerChar e')
  npc : ∀ c e, w.Plays c e → ∀ e' comps, w.registry.components e' = some comps →
    comps.npc = true → (w.clients c).last e' = some (.npcChar e')
  item : ∀ c e, w.Plays c e → ∀ e' comps, w.registry.components e' = some comps →
    comps.item = true → (w.clients c).last e' = some (.dropItem e')
  /-- Of what is gone it has heard nothing, or that last. -/
  gone : ∀ c e, w.Plays c e → ∀ e', w.registry.components e' = none →
    (w.clients c).last e' = none ∨ (w.clients c).last e' = some (.removeObject e')

/-- What is on the map is a character. -/
theorem character_of_isOnMap {w : World} (hs : w.registry.Sound) {e : Entity}
    (hon : w.isOnMap e = true) : ∃ comps, w.registry.components e = some comps ∧
      comps.character = true ∧ comps.npc = false ∧ comps.isOnMap = true := by
  obtain ⟨comps, hcomps, hmap⟩ := (Option.any_eq_true _ _).mp hon
  have hsound := hs.components e comps hcomps
  exact ⟨comps, hcomps, hsound.onMap hmap, hsound.npc (hsound.onMap hmap), hmap⟩

theorem consistent_of_inv {w : World} (h : w.Inv) : w.Consistent := by
  have hview := h.kept.view
  have hs := h.registry.toSound
  refine ⟨fun c e hplays e' hne hon => ?_, fun c e hplays e' comps hcomps hnpc => ?_,
    fun c e hplays e' comps hcomps hitem => ?_, fun c e hplays e' hdead => ?_⟩ <;>
    obtain ⟨hlisted, hentity, hmap⟩ := hplays <;>
    obtain ⟨comps₀, hcomps₀, hcharacter, hnpc₀, _⟩ := character_of_isOnMap hs hmap
  · obtain ⟨comps, hcomps, _, hnpc, hon'⟩ := character_of_isOnMap hs hon
    exact hview.shown c e hlisted hentity hmap e' comps _ hne hcomps (by simp [shownAs, hnpc, hon'])
  · -- the client's own entity is a character
    have hne : e' ≠ e := by
      rintro rfl
      obtain rfl := Option.some.inj (hcomps.symm.trans hcomps₀)
      exact absurd (hnpc.symm.trans hnpc₀) (by decide)
    exact hview.shown c e hlisted hentity hmap e' comps _ hne hcomps (by simp [shownAs, hnpc])
  · obtain ⟨_, hnot, hnpc⟩ := (h.kept.bound.kind e' comps hcomps).item hitem
    have hne : e' ≠ e := by
      rintro rfl
      obtain rfl := Option.some.inj (hcomps.symm.trans hcomps₀)
      exact absurd (hcharacter.symm.trans hnot) (by decide)
    have hoff : comps.isOnMap = false := by
      by_contra htrue
      have hcharacter' := (hs.components e' comps hcomps).onMap (by simpa using htrue)
      exact absurd (hcharacter'.symm.trans hnot) (by decide)
    exact hview.shown c e hlisted hentity hmap e' comps _ hne hcomps
      (by simp [shownAs, hnpc, hoff, hitem])
  · have hhidden : (w.clients c).Hidden e' := by
      by_cases hborn : e' < w.registry.created
      · refine hview.gone c hlisted (fun e₁ he₁ => ?_) e' hborn hdead
        obtain rfl := Option.some.inj (hentity.symm.trans he₁)
        exact ⟨by simp [hcomps₀], Or.inl hmap⟩
      · exact Hidden.of_born h.kept.bound (not_lt.mp hborn)
    cases hlast : (w.clients c).last e' with
    | none => exact Or.inl rfl
    | some m =>
        have hshows := hhidden m hlast
        obtain ⟨_, rfl⟩ := Feed.mem_of_last hlast
        cases m with
        | removeObject e' => exact Or.inr rfl
        | _ => exact absurd hshows (by simp [Message.shows])

/-- A newcomer, and a character that leaves. -/
example : (([.connect 0, .load 0 (.loaded "a"), .assignSocket 0, .createNpc,
    .update [.changeMap 0], .connect 1, .load 1 (.loaded "b"), .assignSocket 1,
    .update [.changeMap 2], .disconnect 0, .update []] : List Event).foldl
      (next .least) start |>.clients 1).heard =
    [.removeObject 0, .npcChar 1, .playerChar 0] := rfl

end OsIrose.Views

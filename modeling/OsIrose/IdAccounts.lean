/-
The ids of the entities: `map/src/entitysystem.cpp`, `map/src/id_manager.cpp`.

The ids of a map server are a `Numbering`: an entity gets one when it is created, or when
its create command runs, and gives it back when a `destroy` command finds it. `bulk_destroy`
destroys an entity and keeps its id. So, as long as ids do not wrap around, every id is free
or the id of one live entity if and only if no `bulk_destroy` command ever finds an entity
alive (`partitioned_iff`): a reload of a script loses the ids of all it made.
-/
import OsIrose.Registry

set_option autoImplicit false

namespace OsIrose.Registry

open Function Runs
open MapServer (Entity Id IdManager BasicInfo)

/-- The ids of the live entities. -/
def numbering (s : Registry) : Numbering Entity where
  number e := ((s.components e).bind Components.basic).map (fun basic => basic.id.val)
  free := {i | ∃ id ∈ s.idManager.freeIds, id.val = i}
  next := s.idsCreated

/-- What the delete commands do to the numbers. -/
def Delete.ops : Delete → List (Numbering.Op Entity)
  | destroy e => [.release e]
  | bulkDestroy es => es.map .drop

/-! ## What always holds of the entities -/

structure Components.Sound (comps : Components) : Prop where
  npc : comps.character = true → comps.npc = false
  basic : comps.character = true → comps.basic ≠ none
  socket : comps.socket ≠ none → comps.character = true
  onMap : comps.isOnMap = true → comps.character = true

theorem Components.Sound.character_eq_false {comps : Components} (h : comps.Sound)
    (hbasic : comps.basic = none) : comps.character = false := by
  by_contra htrue
  exact h.basic (by simpa using htrue) hbasic

/-- The create commands are for entities of their own, which have no id yet, and those are
the only entities without one. -/
structure Pending (s : Registry) (cs : List Create) : Prop where
  nodup : (cs.map Create.entity).Nodup
  lt : ∀ c ∈ cs, c.entity < s.created
  bare : ∀ e comps, s.components e = some comps →
    (comps.basic = none ↔ e ∈ cs.map Create.entity)

structure Sound (s : Registry) : Prop where
  maxId : s.idManager.maxId = Fin.ofNat 65536 s.idsCreated
  components : ∀ e comps, s.components e = some comps → comps.Sound
  destroy : ∀ e, .destroy e ∈ s.deleteCommands → e < s.created ∧
    ∀ comps, s.components e = some comps → comps.character = true
  bulkDestroy : ∀ es, .bulkDestroy es ∈ s.deleteCommands → ∀ e ∈ es, e < s.created

section Sound

variable {b : Buckets} {s : Registry} {cs : List Create}

theorem sound_takeId (hs : s.Sound) : (s.takeId b).Sound where
  maxId := by
    by_cases hfree : s.idManager.freeIds.Nonempty
    · simpa [takeId, IdManager.getFreeId, hfree] using hs.maxId
    · simp only [takeId, IdManager.getFreeId, hfree, if_false, hs.maxId]
      exact Fin.ext (by simp [Fin.val_add])
  components := hs.components
  destroy := hs.destroy
  bulkDestroy := hs.bulkDestroy

theorem sound_modify (hs : s.Sound) (e : Entity) {f : Components → Components}
    (hsound : ∀ comps, s.components e = some comps → comps.Sound → (f comps).Sound)
    (hcharacter : ∀ comps, (f comps).character = comps.character) : (s.modify e f).Sound where
  maxId := hs.maxId
  components := by
    intro e' comps hcomps
    by_cases he : e' = e
    · subst he
      rw [modify_self] at hcomps
      obtain ⟨comps₀, hcomps₀, rfl⟩ := Option.map_eq_some_iff.mp hcomps
      exact hsound comps₀ hcomps₀ (hs.components e' comps₀ hcomps₀)
    · rw [modify_of_ne he] at hcomps
      exact hs.components e' comps hcomps
  destroy := by
    refine fun e' hmem => ⟨(hs.destroy e' hmem).1, fun comps hcomps => ?_⟩
    by_cases he : e' = e
    · subst he
      rw [modify_self] at hcomps
      obtain ⟨comps₀, hcomps₀, rfl⟩ := Option.map_eq_some_iff.mp hcomps
      rw [hcharacter]
      exact (hs.destroy e' hmem).2 comps₀ hcomps₀
    · rw [modify_of_ne he] at hcomps
      exact (hs.destroy e' hmem).2 comps hcomps
  bulkDestroy := hs.bulkDestroy

theorem pending_modify (hp : s.Pending cs) (e : Entity) {f : Components → Components}
    (hbasic : ∀ comps, (f comps).basic = none ↔ comps.basic = none) :
    (s.modify e f).Pending cs where
  nodup := hp.nodup
  lt := hp.lt
  bare := by
    intro e' comps hcomps
    by_cases he : e' = e
    · subst he
      rw [modify_self] at hcomps
      obtain ⟨comps₀, hcomps₀, rfl⟩ := Option.map_eq_some_iff.mp hcomps
      rw [hbasic]
      exact hp.bare e' comps₀ hcomps₀
    · rw [modify_of_ne he] at hcomps
      exact hp.bare e' comps hcomps

theorem sound_create (hs : s.Sound) {comps : Components} (hcomps : comps.Sound) :
    (s.create comps).Sound where
  maxId := hs.maxId
  components := by
    intro e comps' he
    by_cases hne : e = s.created
    · subst hne
      rw [create_self] at he
      exact Option.some.inj he ▸ hcomps
    · rw [create_of_ne hne] at he
      exact hs.components e comps' he
  destroy := by
    intro e hmem
    obtain ⟨hlt, hcharacter⟩ := hs.destroy e hmem
    refine ⟨Nat.lt_succ_of_lt hlt, fun comps' he => ?_⟩
    rw [create_of_ne (ne_of_lt hlt)] at he
    exact hcharacter comps' he
  bulkDestroy := fun es hmem e he => Nat.lt_succ_of_lt (hs.bulkDestroy es hmem e he)

/-- An entity that is created with a `BasicInfo`. -/
theorem pending_create (hp : s.Pending cs) {comps : Components} (hbasic : comps.basic ≠ none) :
    (s.create comps).Pending cs where
  nodup := hp.nodup
  lt := fun c hc => Nat.lt_succ_of_lt (hp.lt c hc)
  bare := by
    intro e comps' he
    by_cases hne : e = s.created
    · subst hne
      rw [create_self] at he
      obtain rfl := Option.some.inj he
      refine iff_of_false hbasic fun hmem => ?_
      obtain ⟨c, hc, hc'⟩ := List.mem_map.mp hmem
      exact absurd (hp.lt c hc) (hc' ▸ lt_irrefl _)
    · rw [create_of_ne hne] at he
      exact hp.bare e comps' he

/-- `create_npc` and `create_warpgate`. -/
theorem pending_create_push (hp : s.Pending cs) {c : Create} (hc : c.entity = s.created) :
    (s.create {}).Pending (cs ++ [c]) where
  nodup := by
    rw [List.map_append, List.nodup_append]
    refine ⟨hp.nodup, List.nodup_singleton _, fun e he e' he' heq => ?_⟩
    obtain ⟨c', hc', rfl⟩ := List.mem_map.mp he
    rw [List.map_singleton, List.mem_singleton] at he'
    exact absurd (hp.lt c' hc') (by rw [heq, he', hc]; exact lt_irrefl _)
  lt := by
    intro c' hc'
    obtain hc' | hc' := List.mem_append.mp hc'
    · exact Nat.lt_succ_of_lt (hp.lt c' hc')
    · rw [List.mem_singleton.mp hc', hc]
      exact Nat.lt_succ_self _
  bare := by
    intro e comps' he
    rw [List.map_append, List.mem_append, List.map_singleton, List.mem_singleton, hc]
    by_cases hne : e = s.created
    · subst hne
      rw [create_self] at he
      obtain rfl := Option.some.inj he
      exact iff_of_true rfl (Or.inr rfl)
    · rw [create_of_ne hne] at he
      rw [hp.bare e comps' he]
      exact (or_iff_left hne).symm

theorem sound_destroyEntity (hs : s.Sound) (e : Entity) : (s.destroyEntity e).Sound := by
  have hold : ∀ {e' comps}, (s.destroyEntity e).components e' = some comps →
      s.components e' = some comps := by
    intro e' comps he'
    by_cases hne : e' = e
    · subst hne
      simp at he'
    · rwa [destroyEntity_of_ne hne] at he'
  exact {
    maxId := hs.maxId
    components := fun e' comps he' => hs.components e' comps (hold he')
    destroy := fun e' hmem => ⟨(hs.destroy e' hmem).1,
      fun comps he' => (hs.destroy e' hmem).2 comps (hold he')⟩
    bulkDestroy := hs.bulkDestroy }

theorem pending_destroyEntity (hp : s.Pending cs) (e : Entity) :
    (s.destroyEntity e).Pending cs where
  nodup := hp.nodup
  lt := hp.lt
  bare := by
    intro e' comps he'
    by_cases hne : e' = e
    · subst hne
      simp at he'
    · rw [destroyEntity_of_ne hne] at he'
      exact hp.bare e' comps he'

/-- What is not about the ids, the entities and the commands makes no difference. -/
theorem sound_congr {s' : Registry} (hs : s.Sound) (hcomponents : s'.components = s.components)
    (hcreated : s.created ≤ s'.created) (hmaxId : s'.idManager.maxId = s.idManager.maxId)
    (hids : s'.idsCreated = s.idsCreated) (hdeletes : s'.deleteCommands = s.deleteCommands) :
    s'.Sound where
  maxId := by rw [hmaxId, hids, hs.maxId]
  components := by rw [hcomponents]; exact hs.components
  destroy := by
    rw [hcomponents, hdeletes]
    exact fun e hmem => ⟨lt_of_lt_of_le (hs.destroy e hmem).1 hcreated, (hs.destroy e hmem).2⟩
  bulkDestroy := by
    rw [hdeletes]
    exact fun es hmem e he => lt_of_lt_of_le (hs.bulkDestroy es hmem e he) hcreated

theorem pending_congr {s' : Registry} (hp : s.Pending cs)
    (hcomponents : s'.components = s.components) (hcreated : s.created ≤ s'.created) :
    s'.Pending cs where
  nodup := hp.nodup
  lt := fun c hc => lt_of_lt_of_le (hp.lt c hc) hcreated
  bare := by rw [hcomponents]; exact hp.bare

theorem registerEntity_fields (e : Entity) :
    (s.registerEntity e).created = s.created ∧ (s.registerEntity e).idManager = s.idManager ∧
      (s.registerEntity e).idsCreated = s.idsCreated ∧
      (s.registerEntity e).createCommands = s.createCommands ∧
      (s.registerEntity e).deleteCommands = s.deleteCommands := by
  unfold registerEntity
  split
  · simp
  · split_ifs <;> simp

/-- An entity that is created and destroyed at once. -/
theorem create_destroyEntity_components (comps : Components) :
    ((s.create comps).destroyEntity s.created).components = s.components := by
  funext e
  by_cases hne : e = s.created
  · subst hne
    rw [destroyEntity_self, s.fresh _ le_rfl]
  · rw [destroyEntity_of_ne hne, create_of_ne hne]

end Sound

/-! ## The numbers -/

section Numbers

variable {b : Buckets} {s s' : Registry}

theorem numbering_congr (hcomponents : s'.components = s.components)
    (hidManager : s'.idManager = s.idManager) (hids : s'.idsCreated = s.idsCreated) :
    s'.numbering = s.numbering := by
  unfold numbering
  rw [hcomponents, hidManager, hids]

theorem numbering_modify (e : Entity) {f : Components → Components}
    (hid : ∀ comps, (f comps).basic.map BasicInfo.id = comps.basic.map BasicInfo.id) :
    (s.modify e f).numbering = s.numbering := by
  have hval : ∀ o : Option BasicInfo,
      o.map (fun basic => basic.id.val) = (o.map BasicInfo.id).map Fin.val := by
    intro o
    rw [Option.map_map]
    rfl
  refine Numbering.ext (funext fun e' => ?_) rfl rfl
  by_cases he : e' = e
  · subst he
    simp only [numbering, modify_self, hval]
    cases s.components e' with
    | none => rfl
    | some comps => exact congrArg (Option.map Fin.val) (hid comps)
  · simp only [numbering, modify_of_ne he]

theorem numbering_destroyEntity (e : Entity) :
    (s.destroyEntity e).numbering = s.numbering.apply (.drop e) := by
  refine Numbering.ext (funext fun e' => ?_) rfl rfl
  by_cases he : e' = e
  · subst he
    simp [numbering, Numbering.apply]
  · simp [numbering, Numbering.apply, destroyEntity_of_ne he, he]

/-- A step that only hands ids out. -/
structure Adds (s s' : Registry) : Prop where
  le : s.idsCreated ≤ s'.idsCreated
  sound : s'.idsCreated < 65536 → s.numbering.Sound → s'.numbering.Sound
  complete : s'.idsCreated < 65536 → s.numbering.Complete → s'.numbering.Complete

theorem Adds.of_eq (hids : s'.idsCreated = s.idsCreated) (h : s'.numbering = s.numbering) :
    Adds s s' where
  le := hids.ge
  sound := fun _ => h ▸ id
  complete := fun _ => h ▸ id

theorem Adds.trans {s'' : Registry} (h : Adds s s') (h' : Adds s' s'') : Adds s s'' where
  le := h.le.trans h'.le
  sound := fun hlt hs => h'.sound hlt (h.sound (lt_of_le_of_lt h'.le hlt) hs)
  complete := fun hlt hc => h'.complete hlt (h.complete (lt_of_le_of_lt h'.le hlt) hc)

/-- An entity without an id gets one. -/
theorem adds_of_gives {e : Entity} (hmaxId : s.idManager.maxId = Fin.ofNat 65536 s.idsCreated)
    (hnone : s.numbering.number e = none)
    (hidManager : s'.idManager = (s.takeId b).idManager)
    (hids : s'.idsCreated = (s.takeId b).idsCreated)
    (hnumber : s'.numbering.number = update s.numbering.number e (some (s.freeId b).val)) :
    Adds s s' := by
  by_cases hfree : s.idManager.freeIds.Nonempty
  · -- the id was free
    have hid : s.freeId b = b.front s.idManager.freeIds := by
      simp [freeId, IdManager.getFreeId, hfree]
    have hsame : s'.idsCreated = s.idsCreated := by simp [hids, takeId, hfree]
    have hgives : s.numbering.Gives e s'.numbering := by
      have hmem : (s.freeId b).val ∈ s.numbering.free :=
        ⟨_, b.front_mem _ hfree, by rw [hid]⟩
      have htarget : s'.numbering = { s.numbering with
          number := update s.numbering.number e (some (s.freeId b).val)
          free := s.numbering.free \ {(s.freeId b).val} } := by
        refine Numbering.ext hnumber (Set.ext fun i => ?_) hsame
        simp only [numbering, hidManager, takeId, IdManager.getFreeId, hfree, if_true, hid,
          Finset.mem_erase, Set.mem_ofPred_eq, Set.mem_sdiff, Set.mem_singleton_iff]
        constructor
        · rintro ⟨id, ⟨hne, hmem⟩, rfl⟩
          exact ⟨⟨id, hmem, rfl⟩, fun h => hne (Fin.ext h)⟩
        · rintro ⟨⟨id, hmem, rfl⟩, hne⟩
          exact ⟨id, ⟨fun h => hne (congrArg Fin.val h), hmem⟩, rfl⟩
      exact htarget ▸ Numbering.Gives.old hmem
    exact ⟨hsame.ge, fun _ => hgives.sound, fun _ => hgives.complete hnone⟩
  · -- the id is a new one; below 65536 `_max_id` has not wrapped around
    have hsucc : s'.idsCreated = s.idsCreated + 1 := by simp [hids, takeId, hfree]
    have hgives : s'.idsCreated < 65536 → s.numbering.Gives e s'.numbering := by
      intro hlt
      have hid : (s.freeId b).val = s.idsCreated := by
        simp only [freeId, IdManager.getFreeId, hfree, if_false, hmaxId, Fin.ofNat]
        exact Nat.mod_eq_of_lt (by omega)
      have htarget : s'.numbering = { s.numbering with
          number := update s.numbering.number e (some s.numbering.next)
          next := s.numbering.next + 1 } := by
        refine Numbering.ext (hnumber.trans (by rw [hid]; rfl)) ?_ hsucc
        simp [numbering, hidManager, takeId, IdManager.getFreeId, hfree]
      exact htarget ▸ Numbering.Gives.new
    exact ⟨by omega, fun hlt => (hgives hlt).sound, fun hlt => (hgives hlt).complete hnone⟩

/-- An entity that is created with an id. -/
theorem adds_create (hs : s.Sound) {comps : Components}
    (hid : comps.basic.map BasicInfo.id = some (s.freeId b)) :
    Adds s ((s.takeId b).create comps) := by
  refine adds_of_gives hs.maxId ?_ rfl rfl (funext fun e => ?_) (e := s.created)
  · simp [numbering, s.fresh _ le_rfl]
  · obtain ⟨basic, hbasic, hval⟩ := Option.map_eq_some_iff.mp hid
    by_cases he : e = s.created
    · subst he
      rw [update_self]
      simp [numbering, create, takeId, hbasic, hval]
    · rw [update_of_ne he]
      simp [numbering, create, takeId, update_of_ne he]

/-- `destroy` queues a command for an entity on the map only, which is a character. -/
theorem runDelete_destroy (hs : s.Sound) {e : Entity} {comps : Components}
    (he : .destroy e ∈ s.deleteCommands) (hcomps : s.components e = some comps) :
    ∃ basic, comps.character = true ∧ comps.basic = some basic ∧
      s.runDelete (.destroy e) = (s.unregister basic).destroyEntity e := by
  have hsound := hs.components e comps hcomps
  have hcharacter := (hs.destroy e he).2 comps hcomps
  obtain ⟨basic, hbasic⟩ := Option.ne_none_iff_exists'.mp (hsound.basic hcharacter)
  refine ⟨basic, hcharacter, hbasic, ?_⟩
  simp [runDelete, hcomps, hsound.npc hcharacter, hbasic]

theorem runDelete_destroy_of_none {e : Entity} (hnone : s.components e = none) :
    s.runDelete (.destroy e) = s := by
  simp [runDelete, hnone]

/-- A delete command releases the id of a character, and drops that of any other entity. -/
theorem numbering_runDelete (hs : s.Sound) {d : Delete} (hd : d ∈ s.deleteCommands) :
    (s.runDelete d).numbering = s.numbering.run d.ops := by
  cases d with
  | bulkDestroy es =>
      -- each entity of the list is dropped in turn, whatever else is queued
      clear hd hs
      show (es.foldl destroyEntity s).numbering = s.numbering.run (es.map .drop)
      induction es generalizing s with
      | nil => rfl
      | cons e es ih =>
          rw [List.foldl_cons, ih, numbering_destroyEntity]
          rfl
  | destroy e =>
      show (s.runDelete (.destroy e)).numbering = s.numbering.apply (.release e)
      cases hcomps : s.components e with
      | none =>
          -- destroyed already: there is no number to release
          have hnone : s.numbering.number e = none := by simp [numbering, hcomps]
          rw [runDelete_destroy_of_none hcomps]
          refine Numbering.ext ?_ ?_ rfl
          · exact (update_eq_self_iff.mpr hnone.symm).symm
          · simp [Numbering.apply, hnone]
      | some comps =>
          obtain ⟨basic, _, hbasic, hrun⟩ := runDelete_destroy hs hd hcomps
          rw [hrun, numbering_destroyEntity]
          refine Numbering.ext rfl (Set.ext fun i => ?_) rfl
          simp only [numbering, Numbering.apply, unregister, IdManager.releaseId,
            Finset.mem_insert, Set.mem_ofPred_eq, Set.mem_union, hcomps, Option.bind_some, hbasic,
            Option.map_some, Option.some.injEq]
          constructor
          · rintro ⟨id, rfl | hmem, rfl⟩
            · exact Or.inr rfl
            · exact Or.inl ⟨id, hmem, rfl⟩
          · rintro (⟨id, hmem, rfl⟩ | rfl)
            · exact ⟨id, Or.inr hmem, rfl⟩
            · exact ⟨basic.id, Or.inl rfl, rfl⟩

end Numbers

/-! ## One step -/

structure Inv (s : Registry) : Prop extends s.Sound where
  pending : s.Pending s.createCommands

section Step

variable {b : Buckets} {s : Registry}

theorem inv_start : start.Inv where
  maxId := rfl
  components := fun _ _ h => absurd h (by simp [start])
  destroy := fun _ h => absurd h List.not_mem_nil
  bulkDestroy := fun _ h => absurd h List.not_mem_nil
  pending := ⟨List.nodup_nil, fun _ h => absurd h List.not_mem_nil,
    fun _ _ h => absurd h (by simp [start])⟩

/-- An entity that is created with an id. -/
theorem inv_create (hs : s.Inv) {comps : Components} (hcomps : comps.Sound)
    (hbasic : comps.basic ≠ none) : ((s.takeId b).create comps).Inv where
  toSound := sound_create (sound_takeId hs.toSound) hcomps
  pending := pending_create (s := s.takeId b) (pending_congr hs.pending rfl le_rfl) hbasic

theorem sound_item (id : Id) : Components.Sound { basic := some { id }, item := true } :=
  ⟨fun _ => rfl, fun _ => by simp, fun h => absurd rfl h,
    fun h => absurd h (by simp [Components.isOnMap])⟩

/-- A character that was just loaded, or one whose load threw. -/
theorem sound_loaded (name : String) (id : Id) (character : Bool) :
    Components.Sound { basic := some { name, id }, character := character } :=
  ⟨fun _ => rfl, fun _ => by simp, fun h => absurd rfl h,
    fun h => absurd h (by simp [Components.isOnMap])⟩

theorem inv_loadCharacter (hs : s.Inv) (o : Load) : (s.loadCharacter b o).Inv := by
  cases o with
  | missing =>
      have hcomponents := create_destroyEntity_components (s := s) {}
      exact {
        toSound := sound_congr hs.toSound hcomponents (Nat.le_succ _) rfl rfl rfl
        pending := pending_congr hs.pending hcomponents (Nat.le_succ _) }
  | threw name => exact inv_create hs (sound_loaded name _ false) (by simp)
  | loaded name =>
      have hcreate := inv_create (b := b) hs (sound_loaded name (s.freeId b) true) (by simp)
      obtain ⟨hcreated, hidManager, hids, hcreates, hdeletes⟩ := registerEntity_fields
        (s := (s.takeId b).create
          { basic := some { name, id := s.freeId b }, character := true }) s.created
      exact {
        toSound := sound_congr hcreate.toSound (registerEntity_components _) hcreated.ge
          (congrArg IdManager.maxId hidManager) hids hdeletes
        pending := by
          rw [loadCharacter, hcreates]
          exact pending_congr hcreate.pending (registerEntity_components _) hcreated.ge }

theorem adds_loadCharacter (hs : s.Inv) (o : Load) : Adds s (s.loadCharacter b o) := by
  cases o with
  | missing =>
      exact Adds.of_eq rfl (numbering_congr (create_destroyEntity_components {}) rfl rfl)
  | threw name => exact adds_create hs.toSound rfl
  | loaded name =>
      obtain ⟨_, hidManager, hids, _, _⟩ := registerEntity_fields
        (s := (s.takeId b).create
          { basic := some { name, id := s.freeId b }, character := true }) s.created
      exact (adds_create hs.toSound rfl).trans
        (Adds.of_eq hids (numbering_congr (registerEntity_components _) hidManager hids))

/-- A change of the components that keeps the id. -/
theorem inv_modify (hs : s.Inv) (e : Entity) {f : Components → Components}
    (hsound : ∀ comps, comps.Sound → (f comps).Sound)
    (hcharacter : ∀ comps, (f comps).character = comps.character)
    (hbasic : ∀ comps, (f comps).basic = none ↔ comps.basic = none) : (s.modify e f).Inv where
  toSound := sound_modify hs.toSound e (fun comps _ => hsound comps) hcharacter
  pending := pending_modify hs.pending e hbasic

theorem setOnMap_basic_none (comps : Components) (isOnMap : Bool) :
    (comps.setOnMap isOnMap).basic = none ↔ comps.basic = none := by
  simp [Components.setOnMap]

theorem setOnMap_id (comps : Components) (isOnMap : Bool) :
    (comps.setOnMap isOnMap).basic.map BasicInfo.id = comps.basic.map BasicInfo.id := by
  rw [Components.setOnMap, Option.map_map]
  rfl

theorem setOnMap_isOnMap (comps : Components) (isOnMap : Bool) :
    (comps.setOnMap isOnMap).isOnMap = true ↔ comps.basic ≠ none ∧ isOnMap = true := by
  cases hbasic : comps.basic with
  | none => simp [Components.setOnMap, Components.isOnMap, hbasic]
  | some basic => simp [Components.setOnMap, Components.isOnMap, hbasic]

/-- Only a character comes on the map. -/
theorem sound_setOnMap {comps : Components} (h : comps.Sound) {isOnMap : Bool}
    (hmap : isOnMap = true → comps.character = true) : (comps.setOnMap isOnMap).Sound where
  npc := h.npc
  basic := fun hc => fun hnone => h.basic hc ((setOnMap_basic_none comps isOnMap).mp hnone)
  socket := h.socket
  onMap := fun hon => hmap ((setOnMap_isOnMap comps isOnMap).mp hon).2

theorem inv_assignSocket (hs : s.Inv) (e : Entity) (c : ℕ) : (s.assignSocket e c).Inv := by
  refine inv_modify hs e (fun comps h => ?_) (fun comps => ?_) (fun comps => ?_)
  · split_ifs with hcharacter
    · exact ⟨h.npc, h.basic, fun _ => hcharacter, h.onMap⟩
    · exact h
  · split_ifs <;> rfl
  · split_ifs <;> rfl

theorem inv_changeMap (hs : s.Inv) (e : Entity) :
    (s.modify e (fun comps => if comps.socket.isSome then comps.setOnMap true else comps)).Inv := by
  refine inv_modify hs e (fun comps h => ?_) (fun comps => ?_) (fun comps => ?_)
  · split_ifs with hsocket
    · exact sound_setOnMap h (fun _ => h.socket (Option.isSome_iff_ne_none.mp hsocket))
    · exact h
  · split_ifs <;> rfl
  · split_ifs
    · exact setOnMap_basic_none comps true
    · rfl

theorem inv_destroy (hs : s.Inv) (e : Entity) : (s.destroy e).Inv := by
  unfold destroy
  split_ifs with hon
  · obtain ⟨comps, hcomps, hmap⟩ := (Option.any_eq_true _ _).mp hon
    have hmodify := inv_modify hs e (f := (·.setOnMap false))
      (fun comps h => sound_setOnMap h (by simp)) (fun _ => rfl)
      (fun comps => setOnMap_basic_none comps false)
    exact {
      maxId := hmodify.maxId
      components := hmodify.components
      destroy := by
        intro e' hmem
        obtain hmem | hmem := List.mem_append.mp hmem
        · exact hmodify.destroy e' hmem
        · obtain rfl : e' = e := by simpa using hmem
          refine ⟨lt_created (s := s) hcomps, fun comps' hcomps' => ?_⟩
          obtain ⟨comps₀, hcomps₀, rfl⟩ := Option.map_eq_some_iff.mp
            (modify_self (s := s) _ ▸ hcomps')
          obtain rfl := Option.some.inj (hcomps.symm.trans hcomps₀)
          exact (hs.components e' comps hcomps).onMap hmap
      bulkDestroy := by
        intro es hmem
        obtain hmem | hmem := List.mem_append.mp hmem
        · exact hmodify.bulkDestroy es hmem
        · simp at hmem
      pending := pending_congr hmodify.pending rfl le_rfl }
  · exact hs

theorem inv_bulkDestroy (hs : s.Inv) (es : List Entity) : (s.bulkDestroy es).Inv where
  maxId := hs.maxId
  components := hs.components
  destroy := by
    intro e hmem
    obtain hmem | hmem := List.mem_append.mp hmem
    · exact hs.destroy e hmem
    · simp at hmem
  bulkDestroy := by
    intro es' hmem
    obtain hmem | hmem := List.mem_append.mp hmem
    · exact hs.bulkDestroy es' hmem
    · obtain rfl : es' = _ := by simpa using hmem
      exact fun e he => of_decide_eq_true (List.mem_filter.mp he).2
  pending := pending_congr hs.pending rfl le_rfl

/-- `create_npc` and `create_warpgate`. -/
theorem inv_push (hs : s.Inv) {c : Create} (hc : c.entity = s.created) :
    Inv { s.create {} with createCommands := s.createCommands ++ [c] } where
  toSound := by
    have hcomps : Components.Sound {} :=
      ⟨fun _ => rfl, fun h => absurd h (by simp), fun h => absurd rfl h,
        fun h => absurd h (by decide)⟩
    exact sound_congr (sound_create hs.toSound hcomps) rfl le_rfl rfl rfl rfl
  pending := pending_congr (pending_create_push hs.pending hc) rfl le_rfl

/-- An entity without a `BasicInfo` has no id. -/
theorem numbering_create_bare : (s.create {}).numbering = s.numbering := by
  refine Numbering.ext (funext fun e => ?_) rfl rfl
  by_cases he : e = s.created
  · subst he
    simp [numbering, s.fresh _ le_rfl]
  · simp [numbering, create_of_ne he]

/-! ### The parts of `update` -/

/-- The entities there so far are still there, and no others of them. -/
def SameAlive (s s' : Registry) : Prop :=
  s.created ≤ s'.created ∧ ∀ e, e < s.created → (s'.components e = none ↔ s.components e = none)

theorem SameAlive.trans {s' s'' : Registry} (h : SameAlive s s') (h' : SameAlive s' s'') :
    SameAlive s s'' :=
  ⟨h.1.trans h'.1, fun e he => (h'.2 e (lt_of_lt_of_le he h.1)).trans (h.2 e he)⟩

theorem sameAlive_modify (e : Entity) (f : Components → Components) :
    SameAlive s (s.modify e f) := by
  refine ⟨le_rfl, fun e' _ => ?_⟩
  by_cases he : e' = e
  · subst he
    simp
  · rw [modify_of_ne he]

/-- What a part of `update` leads to that destroys nothing. -/
structure Grows (s s' : Registry) : Prop extends s.Adds s' where
  alive : SameAlive s s'
  deletes : s'.deleteCommands = s.deleteCommands

theorem Grows.refl (s : Registry) : Grows s s where
  toAdds := Adds.of_eq rfl rfl
  alive := ⟨le_rfl, fun _ _ => Iff.rfl⟩
  deletes := rfl

theorem Grows.trans {s' s'' : Registry} (h : Grows s s') (h' : Grows s' s'') : Grows s s'' where
  toAdds := h.toAdds.trans h'.toAdds
  alive := h.alive.trans h'.alive
  deletes := h'.deletes.trans h.deletes

/-- One create command; the rest are still to come. -/
theorem runCreate_spec (hs : s.Sound) {c : Create} {cs : List Create} (hp : s.Pending (c :: cs)) :
    (s.runCreate b c).Sound ∧ (s.runCreate b c).Pending cs ∧ Grows s (s.runCreate b c) := by
  have hnotin : c.entity ∉ cs.map Create.entity := (List.nodup_cons.mp hp.nodup).1
  have hlt : ∀ c' ∈ cs, c'.entity < s.created := fun c' hc' => hp.lt c' (List.mem_cons_of_mem c hc')
  cases hcomps : s.components c.entity with
  | none =>
      -- the entity was destroyed before its command ran
      have hsame : s.runCreate b c = s := by simp [runCreate, hcomps]
      rw [hsame]
      refine ⟨hs, ⟨(List.nodup_cons.mp hp.nodup).2, hlt, fun e comps he => ?_⟩, Grows.refl s⟩
      have hne : e ≠ c.entity := by
        rintro rfl
        simp [hcomps] at he
      rw [hp.bare e comps he, List.map_cons, List.mem_cons]
      exact or_iff_right hne
  | some comps =>
      -- the command is pending, so its entity has no id yet, and is no character
      have hbasic : comps.basic = none :=
        (hp.bare c.entity comps hcomps).mpr List.mem_cons_self
      have hcharacter := (hs.components c.entity comps hcomps).character_eq_false hbasic
      have hrun : s.runCreate b c =
          (s.takeId b).modify c.entity (c.assign (s.freeId b)) := by
        simp only [runCreate, hcomps, Option.isSome_some, if_true]
      rw [hrun]
      refine ⟨sound_modify (sound_takeId hs) c.entity (fun comps' hcomps' hsound => ?_)
        (assign_character c _), ⟨(List.nodup_cons.mp hp.nodup).2, hlt, fun e comps' he => ?_⟩, ?_⟩
      · obtain rfl := Option.some.inj (hcomps.symm.trans hcomps')
        exact ⟨fun h => absurd h (by simp [hcharacter]), fun _ => by simp,
          by simpa using hsound.socket, fun h => absurd h (by simp [Components.isOnMap])⟩
      · by_cases hne : e = c.entity
        · subst hne
          obtain ⟨comps₀, _, rfl⟩ := Option.map_eq_some_iff.mp
            (modify_self (s := s.takeId b) _ ▸ he)
          exact iff_of_false (by simp) hnotin
        · rw [modify_of_ne hne] at he
          rw [hp.bare e comps' he, List.map_cons, List.mem_cons]
          exact or_iff_right hne
      · refine ⟨adds_of_gives (e := c.entity) hs.maxId ?_ rfl rfl (funext fun e => ?_),
          sameAlive_modify (s := s.takeId b) c.entity _, rfl⟩
        · simp [numbering, hcomps, hbasic]
        · by_cases hne : e = c.entity
          · subst hne
            simp [numbering, hcomps]
          · simp [numbering, modify_of_ne hne, update_of_ne hne]

theorem runCreates_spec (hs : s.Inv) : (s.runCreates b).Inv ∧ Grows s (s.runCreates b) := by
  obtain ⟨hsound, hpending, hgrows⟩ := foldl_remaining (runCreate b)
    (fun cs t => t.Sound ∧ t.Pending cs ∧ Grows s t)
    (fun c cs t ⟨hsound, hpending, hgrows⟩ => by
      obtain ⟨hsound', hpending', hgrows'⟩ := runCreate_spec (b := b) hsound hpending
      exact ⟨hsound', hpending', hgrows.trans hgrows'⟩)
    ⟨hs.toSound, hs.pending, Grows.refl s⟩
  exact ⟨⟨sound_congr hsound rfl le_rfl rfl rfl rfl, pending_congr hpending rfl le_rfl⟩,
    hgrows.trans ⟨Adds.of_eq rfl rfl, ⟨le_rfl, fun _ _ => Iff.rfl⟩, rfl⟩⟩

theorem handle_spec (hs : s.Inv) (h : Handled) : (s.handle b h).Inv ∧ Grows s (s.handle b h) := by
  cases h with
  | changeMap e =>
      refine ⟨inv_changeMap hs e, Adds.of_eq rfl (numbering_modify e fun comps => ?_),
        sameAlive_modify e _, rfl⟩
      split_ifs
      · exact setOnMap_id comps true
      · rfl
  | buildItem =>
      refine ⟨inv_create hs (sound_item _) (by simp), adds_create hs.toSound rfl,
        ⟨Nat.le_succ _, fun e he => ?_⟩, rfl⟩
      show ((s.takeId b).create _).components e = none ↔ _
      rw [create_of_ne (s := s.takeId b) (ne_of_lt he), takeId_components]

theorem handles_spec (hs : s.Inv) (handled : List Handled) :
    (handled.foldl (handle b) s).Inv ∧ Grows s (handled.foldl (handle b) s) := by
  refine foldl_invariant (fun t : Registry => t.Inv ∧ Grows s t) (fun t h ⟨hinv, hgrows⟩ => ?_)
    ⟨hs, Grows.refl s⟩ handled
  obtain ⟨hinv', hgrows'⟩ := handle_spec (b := b) hinv h
  exact ⟨hinv', hgrows.trans hgrows'⟩

theorem runDelete_spec (hs : s.Inv) {d : Delete} (hd : d ∈ s.deleteCommands) :
    (s.runDelete d).Inv ∧ (s.runDelete d).deleteCommands = s.deleteCommands := by
  cases d with
  | destroy e =>
      cases hcomps : s.components e with
      | none =>
          rw [runDelete_destroy_of_none hcomps]
          exact ⟨hs, rfl⟩
      | some comps =>
          obtain ⟨basic, _, _, hrun⟩ := runDelete_destroy hs.toSound hd hcomps
          have hsound : (s.unregister basic).Sound :=
            sound_congr hs.toSound rfl le_rfl rfl rfl rfl
          have hpending : (s.unregister basic).Pending s.createCommands :=
            pending_congr hs.pending rfl le_rfl
          rw [hrun]
          exact ⟨⟨sound_destroyEntity hsound e, pending_destroyEntity hpending e⟩, rfl⟩
  | bulkDestroy es =>
      refine foldl_invariant
        (fun t : Registry => t.Inv ∧ t.deleteCommands = s.deleteCommands) ?_ ⟨hs, rfl⟩ es
      rintro t e ⟨hinv, hsame⟩
      exact ⟨⟨sound_destroyEntity hinv.toSound e, pending_destroyEntity hinv.pending e⟩, hsame⟩

theorem runDeletes_spec (hs : s.Inv) : s.runDeletes.Inv ∧
    s.runDeletes.numbering = s.numbering.run (s.deleteCommands.flatMap Delete.ops) := by
  -- what the commands to come will do to the numbers stays the same all along
  obtain ⟨hinv, -, hnumbering⟩ := foldl_remaining runDelete
    (fun ds t => t.Inv ∧ (∀ d ∈ ds, d ∈ t.deleteCommands) ∧
      t.numbering.run (ds.flatMap Delete.ops) =
        s.numbering.run (s.deleteCommands.flatMap Delete.ops))
    (fun d ds t ⟨hinv, hmem, hnumbering⟩ => by
      obtain ⟨hd, hds⟩ := List.forall_mem_cons.mp hmem
      obtain ⟨hinv', hsame⟩ := runDelete_spec hinv hd
      refine ⟨hinv', hsame ▸ hds, ?_⟩
      rw [numbering_runDelete hinv.toSound hd, ← Numbering.run_append, ← List.flatMap_cons]
      exact hnumbering)
    ⟨hs, fun _ => id, rfl⟩
  refine ⟨?_, hnumbering⟩
  exact {
    maxId := hinv.maxId
    components := hinv.components
    destroy := fun _ hmem => absurd hmem List.not_mem_nil
    bulkDestroy := fun _ hmem => absurd hmem List.not_mem_nil
    pending := pending_congr hinv.pending rfl le_rfl }

theorem runDeletes_idsCreated (hs : s.Inv) : s.runDeletes.idsCreated = s.idsCreated := by
  have hnext := congrArg Numbering.next (runDeletes_spec hs).2
  rwa [Numbering.run_next] at hnext

/-- The delete commands queue no create command. -/
theorem runDeletes_createCommands (s : Registry) :
    s.runDeletes.createCommands = s.createCommands := by
  have hrun : ∀ (t : Registry) (d : Delete), (t.runDelete d).createCommands = t.createCommands := by
    intro t d
    cases d with
    | destroy e =>
        cases hcomps : t.components e with
        | none => simp [runDelete, hcomps]
        | some comps =>
            simp only [runDelete, hcomps]
            split_ifs
            · rfl
            · cases comps.basic <;> rfl
    | bulkDestroy es =>
        show (es.foldl destroyEntity t).createCommands = t.createCommands
        refine foldl_invariant (fun t' : Registry => t'.createCommands = t.createCommands) ?_ rfl es
        exact fun _ _ hsame => hsame
  exact foldl_invariant (fun t : Registry => t.createCommands = s.createCommands)
    (fun t d hsame => (hrun t d).trans hsame) rfl s.deleteCommands

theorem inv_next (hs : s.Inv) (e : Event) : (next b s e).Inv := by
  cases e with
  | loadCharacter o => exact inv_loadCharacter hs o
  | assignSocket e c => exact inv_assignSocket hs e c
  | buildItemEntity => exact inv_create hs (sound_item _) (by simp)
  | createNpc => exact inv_push hs rfl
  | createWarpgate => exact inv_push hs rfl
  | destroy e => exact inv_destroy hs e
  | bulkDestroy es => exact inv_bulkDestroy hs es
  | update handled =>
      exact (runDeletes_spec (handles_spec (runCreates_spec hs).1 handled).1).1

/-- Outside of `update`, ids are only handed out. -/
theorem adds_next (hs : s.Inv) {e : Event} (he : ∀ handled, e ≠ .update handled) :
    Adds s (next b s e) := by
  cases e with
  | loadCharacter o => exact adds_loadCharacter hs o
  | assignSocket e c =>
      refine Adds.of_eq rfl (numbering_modify e fun comps => ?_)
      split_ifs <;> rfl
  | buildItemEntity => exact adds_create hs.toSound rfl
  | createNpc => exact Adds.of_eq rfl numbering_create_bare
  | createWarpgate => exact Adds.of_eq rfl numbering_create_bare
  | destroy e =>
      show Adds s (s.destroy e)
      unfold destroy
      split_ifs
      · exact Adds.of_eq rfl (numbering_modify e fun comps => setOnMap_id comps false)
      · exact Adds.of_eq rfl rfl
  | bulkDestroy es => exact Adds.of_eq rfl rfl
  | update handled => exact absurd rfl (he handled)

/-! ## Every run -/

/-- No command is pending. -/
def Quiescent (s : Registry) : Prop :=
  s.createCommands = [] ∧ s.deleteCommands = []

/-- The `bulk_destroy` commands that are due find no entity alive that no `destroy` command
before them is for. -/
def BulkFindsNone (s : Registry) : Prop :=
  ∀ l e l', s.deleteCommands.flatMap Delete.ops = l ++ .drop e :: l' →
    s.components e ≠ none → .release e ∈ l

theorem handles_createCommands (handled : List Handled) :
    (handled.foldl (handle b) s).createCommands = s.createCommands := by
  refine foldl_invariant (fun t : Registry => t.createCommands = s.createCommands)
    (fun t h hsame => ?_) rfl handled
  cases h <;> exact hsame

/-- The delete commands give back every id that they should if and only if no `bulk_destroy`
finds an entity alive. -/
theorem returns_iff {s' : Registry} (hs : s.Inv) (hs' : s'.Inv) (hgrows : Grows s s')
    (hcreates : s'.createCommands = []) :
    s'.numbering.Returns (s'.deleteCommands.flatMap Delete.ops) ↔ s.BulkFindsNone := by
  -- an entity that a command names was there when the update began, so it has a number now if
  -- it was alive then
  have halive : ∀ l e l', s.deleteCommands.flatMap Delete.ops = l ++ .drop e :: l' →
      (s'.numbering.number e ≠ none ↔ s.components e ≠ none) := by
    intro l e l' hops
    have hmem : .drop e ∈ s.deleteCommands.flatMap Delete.ops := by simp [hops]
    obtain ⟨d, hd, hde⟩ := List.mem_flatMap.mp hmem
    have hlt : e < s.created := by
      cases d with
      | destroy e' => simp [Delete.ops] at hde
      | bulkDestroy es =>
          obtain ⟨e', he', heq⟩ := List.mem_map.mp hde
          obtain rfl := Numbering.Op.drop.inj heq
          exact hs.bulkDestroy es hd e' he'
    refine Iff.trans ?_ (not_congr (hgrows.alive.2 e hlt))
    -- there is no entity without an id any more
    cases hcomps : s'.components e with
    | none => simp [numbering, hcomps]
    | some comps =>
        have hbasic : comps.basic ≠ none := fun hnone => by
          have hpending := (hs'.pending.bare e comps hcomps).mp hnone
          simp [hcreates] at hpending
        simp [numbering, hcomps, hbasic]
  unfold Numbering.Returns BulkFindsNone
  rw [hgrows.deletes]
  refine forall_congr' fun l => forall_congr' fun e => forall_congr' fun l' => ?_
  exact forall_congr' fun hops => imp_congr_left (halive l e l' hops)

end Step

/-- While fewer than 65536 ids are created, an update whose `bulk_destroy` commands find no
entity alive. -/
def keepsIds (b : Buckets) (s : Registry) : Event → Prop
  | .update handled => (next b s (.update handled)).idsCreated < 65536 → s.BulkFindsNone
  | _ => True

/-- While fewer than 65536 ids are created, those without commands pending are all free or of
one live entity. -/
def IdsPartitioned (s : Registry) : Prop :=
  s.idsCreated < 65536 → s.Quiescent → s.numbering.Partitioned

/-- The same with commands pending, but for lost ids. -/
def IdsSound (s : Registry) : Prop :=
  s.idsCreated < 65536 → s.numbering.Sound

def IdsComplete (s : Registry) : Prop :=
  s.idsCreated < 65536 → s.numbering.Complete

theorem update_spec (b : Buckets) {s : Registry} (hs : s.Inv) (handled : List Handled) :
    ∃ s', s'.Inv ∧ Grows s s' ∧ s'.createCommands = [] ∧
      next b s (.update handled) = s'.runDeletes := by
  obtain ⟨hinv, hgrows⟩ := runCreates_spec (b := b) hs
  obtain ⟨hinv', hgrows'⟩ := handles_spec (b := b) hinv handled
  exact ⟨_, hinv', hgrows.trans hgrows', handles_createCommands handled, rfl⟩

/-- Whatever an update destroys, the ids stay unique. -/
theorem idsSound_next (b : Buckets) {s : Registry} (hs : s.Inv) (hsound : s.IdsSound) (e : Event) :
    (next b s e).IdsSound := by
  by_cases hupdate : ∃ handled, e = .update handled
  · obtain ⟨handled, rfl⟩ := hupdate
    obtain ⟨s', hinv, hgrows, _, hnext⟩ := update_spec b hs handled
    rw [hnext, IdsSound, (runDeletes_spec hinv).2, runDeletes_idsCreated hinv]
    intro hlt
    exact (hgrows.sound hlt (hsound (lt_of_le_of_lt hgrows.le hlt))).run _
  · have hadds := adds_next (b := b) hs (fun handled he => hupdate ⟨handled, he⟩)
    exact fun hlt => hadds.sound hlt (hsound (lt_of_le_of_lt hadds.le hlt))

/-- An update that the guard allows loses no id. -/
theorem idsComplete_next (b : Buckets) {s : Registry} (hs : s.Inv) (hsound : s.IdsSound)
    (hcomplete : s.IdsComplete) {e : Event} (hkeeps : keepsIds b s e) :
    (next b s e).IdsComplete := by
  by_cases hupdate : ∃ handled, e = .update handled
  · obtain ⟨handled, rfl⟩ := hupdate
    obtain ⟨s', hinv, hgrows, hcreates, hnext⟩ := update_spec b hs handled
    intro hlt
    have hbulk : s.BulkFindsNone := hkeeps hlt
    rw [hnext, runDeletes_idsCreated hinv] at hlt
    have hlt' := lt_of_le_of_lt hgrows.le hlt
    rw [hnext, (runDeletes_spec hinv).2]
    exact (hgrows.sound hlt (hsound hlt')).complete_run (hgrows.complete hlt (hcomplete hlt'))
      ((returns_iff hs hinv hgrows hcreates).mpr hbulk)
  · have hadds := adds_next (b := b) hs (fun handled he => hupdate ⟨handled, he⟩)
    exact fun hlt => hadds.complete hlt (hcomplete (lt_of_le_of_lt hadds.le hlt))

/-- An update that the guard does not allow loses an id. -/
theorem keepsIds_of_partitioned (b : Buckets) {s : Registry} (hs : s.Inv) (hsound : s.IdsSound)
    {e : Event} (h : (next b s e).IdsPartitioned) : keepsIds b s e := by
  cases e with
  | update handled =>
      obtain ⟨s', hinv, hgrows, hcreates, hnext⟩ := update_spec b hs handled
      intro hlt
      have hquiet : (next b s (.update handled)).Quiescent := by
        rw [hnext]
        exact ⟨(runDeletes_createCommands s').trans hcreates, rfl⟩
      have hpart := h hlt hquiet
      rw [hnext, runDeletes_idsCreated hinv] at hlt
      rw [hnext, (runDeletes_spec hinv).2] at hpart
      rw [← returns_iff hs hinv hgrows hcreates]
      have hsound' := hgrows.sound hlt (hsound (lt_of_le_of_lt hgrows.le hlt))
      by_contra hnot
      obtain ⟨i, hi⟩ := hsound'.lost_run hnot
      exact (hsound'.run _).partitioned_iff_complete.mp hpart i hi
  | _ => trivial

/-- **The ids are accounted for** in every state of a run if and only if no update of it has a
`bulk_destroy` command that finds an entity alive: `bulk_destroy` releases no id. -/
theorem partitioned_iff (b : Buckets) (es : List Event) :
    (∀ p, p <+: es → (p.foldl (next b) start).IdsPartitioned) ↔
      ∀ p e, p ++ [e] <+: es → keepsIds b (p.foldl (next b) start) e := by
  have hinv : ∀ s e, s.Inv ∧ s.IdsSound → (next b s e).Inv ∧ (next b s e).IdsSound :=
    fun s e hs => ⟨inv_next hs.1 e, idsSound_next b hs.1 hs.2 e⟩
  have hcomplete : ∀ s e, s.Inv ∧ s.IdsSound → s.IdsComplete → keepsIds b s e →
      (next b s e).IdsComplete :=
    fun s e hs hc hkeeps => idsComplete_next b hs.1 hs.2 hc hkeeps
  have hpart : ∀ s : Registry, s.Inv ∧ s.IdsSound → s.IdsComplete → s.IdsPartitioned :=
    fun s hs hc hlt _ => (hs.2 hlt).partitioned_iff_complete.mpr (hc hlt)
  refine foldl_reached_iff_of_strong hinv hcomplete hpart
    (fun s e hs _ h => keepsIds_of_partitioned b hs.1 hs.2 h) ⟨inv_start, fun _ => ?_⟩ ?_ es
  · constructor <;> simp [numbering, start]
  · exact fun _ i hi => absurd hi.1 (Nat.not_lt_zero i)

/-- The NPC of a script that is loaded again: its id is lost. -/
theorem not_partitioned_reload : ¬ ∀ (b : Buckets) (es : List Event),
    (es.foldl (next b) start).IdsPartitioned := by
  intro h
  let es : List Event := [.createNpc, .update [], .bulkDestroy [0], .update []]
  let s := es.foldl (next .least) start
  have hids : s.idsCreated = 1 := rfl
  have hnone : ∀ e, s.components e = none
    | 0 => rfl
    | e + 1 => s.fresh (e + 1) (Nat.le_add_left 1 e)
  have hpart : s.numbering.Partitioned := h .least es (by rw [hids]; decide) ⟨rfl, rfl⟩
  obtain ⟨id, hid, _⟩ | ⟨e, he⟩ := (hpart.iff 0).mp (by simp [numbering, hids])
  · exact absurd hid (Finset.notMem_empty id)
  · exact absurd he (by simp [numbering, hnone])

end OsIrose.Registry

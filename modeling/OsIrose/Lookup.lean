/-
Characters found by id and by name: `map/src/entitysystem.cpp`.

`nameToEntity_` and `idToEntity_` are an `Index` each. `loadCharacter` enters the character it
returns into both, unless its name is empty or its id is 0, which the first id is; the delete
command takes the entries of its keys out. So every character that is there is found, in every
state of a run, if and only if every one was loaded with a name and an id that are entered and
that no other character there has (`found_iff`).
-/
import OsIrose.IdAccounts
import OsIrose.Index

set_option autoImplicit false

namespace OsIrose.Registry

open Function Runs
open MapServer (Entity Id IdManager BasicInfo)

/-- The name and the id of a character. -/
def Components.keys (comps : Components) : Option (String × Id) :=
  if comps.character then comps.basic.map (fun basic => (basic.name, basic.id)) else none

/-- The entities that are there, with the name and the id of those that are characters. -/
def who (s : Registry) (e : Entity) : Option (Option (String × Id)) :=
  (s.components e).map Components.keys

/-- Every character that is there is found by its name and by its id. -/
def AllFound (s : Registry) : Prop :=
  ∀ e name id, s.who e = some (some (name, id)) →
    s.getEntityByName name = some e ∧ s.getEntityById id = some e

/-- Entries of what is there remain. -/
def Keeps (s s' : Registry) : Prop :=
  ∀ e, s'.components e ≠ none →
    (∀ name, s.nameToEntity name = some e → s'.nameToEntity name = some e) ∧
    ∀ id, s.idToEntity id = some e → s'.idToEntity id = some e

/-- A character that is loaded has a name and an id, and no other that is there has the same. -/
def loadsNew (b : Buckets) (s : Registry) : Event → Prop
  | .loadCharacter (.loaded name) =>
      name ≠ "" ∧ s.freeId b ≠ 0 ∧
        ∀ e name' id', s.who e = some (some (name', id')) → name' ≠ name ∧ id' ≠ s.freeId b
  | _ => True

/-! ## The two indexes -/

def byName (s : Registry) : Index Entity String where
  key e := (s.who e).join.map Prod.fst
  table := s.nameToEntity

def byId (s : Registry) : Index Entity Id where
  key e := (s.who e).join.map Prod.snd
  table := s.idToEntity

/-- The entries of an index are under the keys of characters. -/
structure Entries {κ : Type*} (s : Registry) (x : Index Entity κ) : Prop where
  valid : x.Valid
  lt : ∀ k e, x.table k = some e → e < s.created
  character : ∀ k e, x.table k = some e → s.who e ≠ some none

section Who

variable {s s' : Registry} {e : Entity}

theorem who_modify {f : Components → Components}
    (hf : ∀ comps, s.components e = some comps → (f comps).keys = comps.keys) :
    (s.modify e f).who = s.who := by
  funext e'
  by_cases he : e' = e
  · subst he
    cases hcomps : s.components e' with
    | none => simp [who, hcomps]
    | some comps => simp [who, hcomps, hf comps hcomps]
  · simp only [who, modify_of_ne he]

theorem who_create (comps : Components) :
    (s.create comps).who = update s.who s.created (some comps.keys) := by
  funext e'
  by_cases he : e' = s.created
  · subst he
    simp [who]
  · simp only [who, create_of_ne he, update_of_ne he]

theorem who_destroyEntity (e : Entity) : (s.destroyEntity e).who = update s.who e none := by
  funext e'
  by_cases he : e' = e
  · subst he
    simp [who]
  · simp only [who, destroyEntity_of_ne he, update_of_ne he]

theorem who_created : s.who s.created = none := by
  simp [who, s.fresh _ le_rfl]

/-- A change of one entity changes one key. -/
theorem key_update {κ : Type*} {o : Option (Option (String × Id))} (f : String × Id → κ)
    (hwho : s'.who = update s.who e o) :
    (fun e' => (s'.who e').join.map f) =
      update (fun e' => (s.who e').join.map f) e (o.join.map f) := by
  funext e'
  by_cases he : e' = e
  · subst he
    simp [hwho]
  · simp [hwho, update_of_ne he]

theorem keys_setOnMap (comps : Components) (isOnMap : Bool) :
    (comps.setOnMap isOnMap).keys = comps.keys := by
  simp only [Components.keys, Components.setOnMap]
  cases comps.basic <;> rfl

theorem allFound_iff : s.AllFound ↔ s.byName.Finds ∧ s.byId.Finds := by
  have halive : ∀ {e o}, s.who e = some o → (s.components e).isSome := by
    intro e o he
    obtain ⟨comps, hcomps, _⟩ := Option.map_eq_some_iff.mp he
    simp [hcomps]
  have hkeys : ∀ {e keys}, (s.who e).join = some keys → s.who e = some (some keys) :=
    fun h => Option.join_eq_some_iff.mp h
  constructor
  · intro h
    refine ⟨fun e name he => ?_, fun e id he => ?_⟩
    · obtain ⟨⟨_, id⟩, hkey, rfl⟩ := Option.map_eq_some_iff.mp he
      exact (Option.filter_eq_some_iff.mp (h e _ id (hkeys hkey)).1).1
    · obtain ⟨⟨name, _⟩, hkey, rfl⟩ := Option.map_eq_some_iff.mp he
      exact (Option.filter_eq_some_iff.mp (h e name _ (hkeys hkey)).2).1
  · rintro ⟨hname, hid⟩ e name id he
    have hkey : (s.who e).join = some (name, id) := by rw [he]; rfl
    exact ⟨Option.filter_eq_some_iff.mpr ⟨hname e name (by simp [byName, hkey]), halive he⟩,
      Option.filter_eq_some_iff.mpr ⟨hid e id (by simp [byId, hkey]), halive he⟩⟩

end Who

/-! ## Steps that are about no character -/

/-- Entities may be new, but no characters. -/
structure Quiet (s s' : Registry) : Prop where
  le : s.created ≤ s'.created
  who : ∀ e, s'.who e = s.who e ∨ s.created ≤ e ∧ s'.who e = some none
  names : s'.nameToEntity = s.nameToEntity
  ids : s'.idToEntity = s.idToEntity

namespace Quiet

variable {s s' s'' : Registry}

theorem of_who (hle : s.created ≤ s'.created) (hwho : s'.who = s.who)
    (hnames : s'.nameToEntity = s.nameToEntity) (hids : s'.idToEntity = s.idToEntity) :
    Quiet s s' :=
  ⟨hle, fun e => Or.inl (congrFun hwho e), hnames, hids⟩

theorem refl (s : Registry) : Quiet s s := of_who le_rfl rfl rfl rfl

theorem trans (h : Quiet s s') (h' : Quiet s' s'') : Quiet s s'' where
  le := h.le.trans h'.le
  who := by
    intro e
    obtain he' | ⟨hle', he'⟩ := h'.who e
    · rw [he']
      exact h.who e
    · exact Or.inr ⟨h.le.trans hle', he'⟩
  names := h'.names.trans h.names
  ids := h'.ids.trans h.ids

/-- Something is created that is no character. -/
theorem create (s : Registry) {comps : Components} (h : comps.keys = none) :
    Quiet s (s.create comps) where
  le := Nat.le_succ _
  who := by
    intro e
    rw [who_create]
    by_cases he : e = s.created
    · subst he
      exact Or.inr ⟨le_rfl, by rw [update_self, h]⟩
    · exact Or.inl (update_of_ne he _ _)
  names := rfl
  ids := rfl

theorem join (h : Quiet s s') (e : Entity) : (s'.who e).join = (s.who e).join := by
  obtain he | ⟨hle, he⟩ := h.who e
  · rw [he]
  · have hnone : s.who e = none := by simp [Registry.who, s.fresh e hle]
    rw [he, hnone]
    rfl

theorem byName (h : Quiet s s') : s'.byName = s.byName :=
  Index.ext (funext fun e => congrArg (Option.map Prod.fst) (h.join e)) h.names

theorem byId (h : Quiet s s') : s'.byId = s.byId :=
  Index.ext (funext fun e => congrArg (Option.map Prod.snd) (h.join e)) h.ids

theorem allFound_iff (h : Quiet s s') : s'.AllFound ↔ s.AllFound := by
  rw [Registry.allFound_iff, Registry.allFound_iff, h.byName, h.byId]

theorem entries {κ : Type*} {x : Index Entity κ} (h : Quiet s s') (hx : s.Entries x) :
    s'.Entries x where
  valid := hx.valid
  lt := fun k e hentry => lt_of_lt_of_le (hx.lt k e hentry) h.le
  character := by
    intro k e hentry
    obtain he | ⟨hle, _⟩ := h.who e
    · rw [he]
      exact hx.character k e hentry
    · exact absurd (hx.lt k e hentry) (not_lt.mpr hle)

end Quiet

section Quiet

variable {b : Buckets} {s : Registry}

theorem quiet_takeId : Quiet s (s.takeId b) :=
  Quiet.of_who le_rfl rfl rfl rfl

theorem quiet_modify (e : Entity) {f : Components → Components}
    (hf : ∀ comps, s.components e = some comps → (f comps).keys = comps.keys) :
    Quiet s (s.modify e f) :=
  Quiet.of_who le_rfl (who_modify hf) rfl rfl

theorem quiet_setOnMap (e : Entity) (isOnMap : Bool) :
    Quiet s (s.modify e (·.setOnMap isOnMap)) :=
  quiet_modify e fun comps _ => keys_setOnMap comps isOnMap

/-- A create command is for an entity that is no character. -/
theorem quiet_runCreate (hs : s.Sound) {c : Create} {cs : List Create}
    (hp : s.Pending (c :: cs)) : Quiet s (s.runCreate b c) := by
  unfold runCreate
  split_ifs
  · refine quiet_takeId.trans (quiet_modify (s := s.takeId b) c.entity ?_)
    intro comps hcomps
    have hbasic := (hp.bare c.entity comps hcomps).mpr List.mem_cons_self
    have hcharacter := (hs.components c.entity comps hcomps).character_eq_false hbasic
    simp [Components.keys, hcharacter]
  · exact Quiet.refl s

theorem quiet_runCreates (hs : s.Inv) : Quiet s (s.runCreates b) := by
  obtain ⟨-, -, hquiet⟩ := foldl_remaining (runCreate b)
    (fun cs t => t.Sound ∧ t.Pending cs ∧ Quiet s t)
    (fun c cs t ⟨hsound, hpending, hquiet⟩ => by
      obtain ⟨hsound', hpending', _⟩ := runCreate_spec (b := b) hsound hpending
      exact ⟨hsound', hpending', hquiet.trans (quiet_runCreate hsound hpending)⟩)
    ⟨hs.toSound, hs.pending, Quiet.refl s⟩
  exact hquiet.trans (Quiet.of_who le_rfl rfl rfl rfl)

theorem quiet_buildItemEntity : Quiet s (s.buildItemEntity b) :=
  quiet_takeId.trans (Quiet.create (s.takeId b) rfl)

theorem quiet_handle (h : Handled) : Quiet s (s.handle b h) := by
  cases h with
  | changeMap e =>
      refine quiet_modify e fun comps _ => ?_
      split_ifs
      · exact keys_setOnMap comps true
      · rfl
  | buildItem => exact quiet_buildItemEntity

theorem quiet_handles (handled : List Handled) : Quiet s (handled.foldl (handle b) s) :=
  foldl_invariant (Quiet s) (fun _ h hquiet => hquiet.trans (quiet_handle h)) (Quiet.refl s) handled

theorem quiet_push (cs : List Create) : Quiet s { s.create {} with createCommands := cs } :=
  (Quiet.create s rfl).trans (Quiet.of_who le_rfl rfl rfl rfl)

/-- What neither returns a character nor destroys an entity. -/
theorem quiet_next {e : Event} (hload : ∀ name, e ≠ .loadCharacter (.loaded name))
    (hupdate : ∀ handled, e ≠ .update handled) : Quiet s (next b s e) := by
  cases e with
  | loadCharacter o =>
      cases o with
      | missing =>
          refine Quiet.of_who (Nat.le_succ _) (funext fun e => ?_) rfl rfl
          exact congrArg (Option.map Components.keys)
            (congrFun (create_destroyEntity_components (s := s) {}) e)
      | threw name =>
          exact quiet_takeId.trans (Quiet.create (s.takeId b) rfl)
      | loaded name => exact absurd rfl (hload name)
  | assignSocket e c =>
      refine quiet_modify e fun comps _ => ?_
      split_ifs <;> rfl
  | buildItemEntity => exact quiet_buildItemEntity
  | createNpc => exact quiet_push _
  | createWarpgate => exact quiet_push _
  | destroy e =>
      show Quiet s (s.destroy e)
      unfold destroy
      split_ifs
      · exact (quiet_setOnMap e false).trans (Quiet.of_who le_rfl rfl rfl rfl)
      · exact Quiet.refl s
  | bulkDestroy es => exact Quiet.of_who le_rfl rfl rfl rfl
  | update handled => exact absurd rfl (hupdate handled)

end Quiet

/-! ## `loadCharacter` -/

section Load

variable {b : Buckets} {s : Registry}

theorem who_loaded (name : String) : (s.loadCharacter b (.loaded name)).who =
    update s.who s.created (some (some (name, s.freeId b))) := by
  have hcreate := who_create (s := s.takeId b)
    { basic := some { name, id := s.freeId b }, character := true }
  refine Eq.trans (funext fun e => ?_) hcreate
  simp only [who, loadCharacter, registerEntity_components]

/-- A character without a name or with id 0 is not registered. -/
theorem index_loaded_of_not {name : String} (h : ¬ (name ≠ "" ∧ s.freeId b ≠ 0)) :
    (s.loadCharacter b (.loaded name)).byName = s.byName.add s.created name ∧
      (s.loadCharacter b (.loaded name)).byId = s.byId.add s.created (s.freeId b) := by
  have hskip : name = "" ∨ s.freeId b = 0 := by tauto
  have htables : (s.loadCharacter b (.loaded name)).nameToEntity = s.nameToEntity ∧
      (s.loadCharacter b (.loaded name)).idToEntity = s.idToEntity := by
    simp [loadCharacter, registerEntity, create, takeId, hskip]
  exact ⟨Index.ext (key_update Prod.fst (who_loaded name)) htables.1,
    Index.ext (key_update Prod.snd (who_loaded name)) htables.2⟩

theorem index_loaded {name : String} (h : name ≠ "" ∧ s.freeId b ≠ 0) :
    (s.loadCharacter b (.loaded name)).byName = s.byName.enter s.created name ∧
      (s.loadCharacter b (.loaded name)).byId = s.byId.enter s.created (s.freeId b) := by
  have htables : (s.loadCharacter b (.loaded name)).nameToEntity =
        update s.nameToEntity name (some s.created) ∧
      (s.loadCharacter b (.loaded name)).idToEntity =
        update s.idToEntity (s.freeId b) (some s.created) := by
    simp [loadCharacter, registerEntity, create, takeId, h]
  exact ⟨Index.ext (key_update Prod.fst (who_loaded name)) htables.1,
    Index.ext (key_update Prod.snd (who_loaded name)) htables.2⟩

theorem created_loaded (name : String) :
    (s.loadCharacter b (.loaded name)).created = s.created + 1 :=
  (registerEntity_fields s.created).1

theorem Entries.loaded {κ : Type*} [DecidableEq κ] {x x' : Index Entity κ} {k : κ} {name : String}
    (hx : s.Entries x) (hx' : x' = x.add s.created k ∨ x' = x.enter s.created k) :
    (s.loadCharacter b (.loaded name)).Entries x' := by
  have hnew : ∀ k', x.table k' ≠ some s.created :=
    fun k' hentry => absurd (hx.lt k' _ hentry) (lt_irrefl _)
  -- every entry is an old one or that of the new character
  have hentry : ∀ {k' e}, x'.table k' = some e → x.table k' = some e ∨ e = s.created := by
    intro k' e h
    obtain rfl | rfl := hx'
    · exact Or.inl h
    · obtain ⟨rfl, _⟩ | ⟨_, h⟩ := Index.table_enter h
      · exact Or.inr rfl
      · exact Or.inl h
  refine ⟨?_, fun k' e h => ?_, fun k' e h => ?_⟩
  · obtain rfl | rfl := hx'
    · exact hx.valid.add hnew
    · exact hx.valid.enter hnew
  · rw [created_loaded]
    obtain h | rfl := hentry h
    · exact Nat.lt_succ_of_lt (hx.lt k' e h)
    · exact Nat.lt_succ_self _
  · rw [who_loaded]
    obtain h | rfl := hentry h
    · rw [update_of_ne (ne_of_lt (hx.lt k' e h))]
      exact hx.character k' e h
    · simp

/-- **A load keeps every character findable** exactly when the guard says so. -/
theorem allFound_loaded_iff (hname : s.Entries s.byName) (hs : s.AllFound) (name : String) :
    (s.loadCharacter b (.loaded name)).AllFound ↔
      loadsNew b s (.loadCharacter (.loaded name)) := by
  have hnew : (s.who s.created).join = none := by
    rw [who_created]
    rfl
  obtain ⟨hfindsName, hfindsId⟩ := allFound_iff.mp hs
  rw [allFound_iff]
  by_cases h : name ≠ "" ∧ s.freeId b ≠ 0
  · -- registered: the two keys have to be new
    obtain ⟨hbyName, hbyId⟩ := index_loaded h
    rw [hbyName, hbyId, Index.finds_enter_iff hfindsName (by simp [byName, hnew]),
      Index.finds_enter_iff hfindsId (by simp [byId, hnew])]
    simp only [loadsNew, h, ne_eq, not_false_eq_true, true_and]
    constructor
    · rintro ⟨hname, hid⟩ e name' id' he
      have hjoin : (s.who e).join = some (name', id') := by rw [he]; rfl
      refine ⟨fun heq => hname e ?_, fun heq => hid e ?_⟩
      · simp [byName, hjoin, heq]
      · simp [byId, hjoin, heq]
    · intro hother
      refine ⟨fun e he => ?_, fun e he => ?_⟩
      · obtain ⟨⟨name', id'⟩, hjoin, hsame⟩ := Option.map_eq_some_iff.mp he
        exact (hother e name' id' (Option.join_eq_some_iff.mp hjoin)).1 hsame
      · obtain ⟨⟨name', id'⟩, hjoin, hsame⟩ := Option.map_eq_some_iff.mp he
        exact (hother e name' id' (Option.join_eq_some_iff.mp hjoin)).2 hsame
  · -- not registered: its name has no entry that could be for it
    obtain ⟨hbyName, _⟩ := index_loaded_of_not h
    refine iff_of_false (fun hfinds => ?_) (fun hguard => h ⟨hguard.1, hguard.2.1⟩)
    refine Index.not_finds_add (fun hentry => ?_) (hbyName ▸ hfinds.1)
    exact absurd (hname.lt name _ hentry) (lt_irrefl _)

end Load

/-! ## The delete commands -/

section Deletes

/-- An entity goes, and its entry with it or not. -/
theorem Entries.gone {κ : Type*} [DecidableEq κ] {s s' : Registry} {x x' : Index Entity κ}
    {e : Entity} {k : κ} (hx : s.Entries x) (hwho : s'.who = update s.who e none)
    (hcreated : s'.created = s.created)
    (hx' : x' = x.drop e ∨ x' = x.remove e k) : s'.Entries x' := by
  -- no entry is new
  have hentry : ∀ {k' e'}, x'.table k' = some e' → x.table k' = some e' := by
    intro k' e' h
    obtain rfl | rfl := hx'
    · exact h
    · exact (Index.table_remove h).2
  refine ⟨?_, fun k' e' h => hcreated ▸ hx.lt k' e' (hentry h), fun k' e' h => ?_⟩
  · obtain rfl | rfl := hx'
    · exact hx.valid.drop e
    · exact hx.valid.remove e k
  · rw [hwho, update_apply]
    split_ifs
    · simp
    · exact hx.character k' e' (hentry h)

variable {b : Buckets} {s : Registry}

theorem index_destroyEntity (e : Entity) :
    (s.destroyEntity e).byName = s.byName.drop e ∧ (s.destroyEntity e).byId = s.byId.drop e :=
  ⟨Index.ext (key_update Prod.fst (who_destroyEntity e)) rfl,
    Index.ext (key_update Prod.snd (who_destroyEntity e)) rfl⟩

/-- The invariant of the two tables. -/
structure Registered (s : Registry) : Prop where
  names : s.Entries s.byName
  ids : s.Entries s.byId

theorem registered_quiet {s' : Registry} (h : Quiet s s') (hs : s.Registered) : s'.Registered where
  names := h.byName ▸ h.entries hs.names
  ids := h.byId ▸ h.entries hs.ids

theorem registered_loaded (hs : s.Registered) (name : String) :
    (s.loadCharacter b (.loaded name)).Registered := by
  by_cases h : name ≠ "" ∧ s.freeId b ≠ 0
  · exact ⟨hs.names.loaded (Or.inr (index_loaded h).1), hs.ids.loaded (Or.inr (index_loaded h).2)⟩
  · exact ⟨hs.names.loaded (Or.inl (index_loaded_of_not h).1),
      hs.ids.loaded (Or.inl (index_loaded_of_not h).2)⟩

/-- What is kept while entities go, one after another. -/
structure Shrinks (s s' : Registry) : Prop where
  registered : s.Registered → s'.Registered
  allFound : s.AllFound → s'.AllFound
  created : s'.created = s.created
  who : ∀ e, s'.who e = s.who e ∨ s'.who e = none

theorem Shrinks.refl (s : Registry) : Shrinks s s :=
  ⟨id, id, rfl, fun _ => Or.inl rfl⟩

theorem Shrinks.trans {s' s'' : Registry} (h : Shrinks s s') (h' : Shrinks s' s'') :
    Shrinks s s'' where
  registered := h'.registered ∘ h.registered
  allFound := h'.allFound ∘ h.allFound
  created := h'.created.trans h.created
  who := by
    intro e
    obtain he' | he' := h'.who e
    · rw [he']
      exact h.who e
    · exact Or.inr he'

theorem shrinks_destroyEntity (e : Entity) : Shrinks s (s.destroyEntity e) := by
  obtain ⟨hbyName, hbyId⟩ := index_destroyEntity (s := s) e
  have hwho := who_destroyEntity (s := s) e
  refine ⟨fun hs => ⟨?_, ?_⟩, fun hs => ?_, rfl, fun e' => ?_⟩
  · exact hs.names.gone (k := "") hwho rfl (Or.inl hbyName)
  · exact hs.ids.gone (k := 0) hwho rfl (Or.inl hbyId)
  · obtain ⟨hname, hid⟩ := allFound_iff.mp hs
    exact allFound_iff.mpr ⟨hbyName ▸ hname.drop e, hbyId ▸ hid.drop e⟩
  · rw [hwho, update_apply]
    split_ifs
    · exact Or.inr rfl
    · exact Or.inl rfl

/-- A character takes the entries of its keys along. -/
theorem shrinks_unregister {e : Entity} {comps : Components} {basic : BasicInfo}
    (hcomps : s.components e = some comps) (hcharacter : comps.character = true)
    (hbasic : comps.basic = some basic) : Shrinks s ((s.unregister basic).destroyEntity e) := by
  have hwho : ((s.unregister basic).destroyEntity e).who = update s.who e none :=
    who_destroyEntity (s := s.unregister basic) e
  have hbyName : ((s.unregister basic).destroyEntity e).byName = s.byName.remove e basic.name :=
    Index.ext (key_update Prod.fst hwho) rfl
  have hbyId : ((s.unregister basic).destroyEntity e).byId = s.byId.remove e basic.id :=
    Index.ext (key_update Prod.snd hwho) rfl
  have hkeys : (s.who e).join = some (basic.name, basic.id) := by
    simp [who, hcomps, Components.keys, hcharacter, hbasic]
  refine ⟨fun hs => ⟨?_, ?_⟩, fun hs => ?_, rfl, fun e' => ?_⟩
  · exact hs.names.gone hwho rfl (Or.inr hbyName)
  · exact hs.ids.gone hwho rfl (Or.inr hbyId)
  · obtain ⟨hname, hid⟩ := allFound_iff.mp hs
    rw [allFound_iff, hbyName, hbyId]
    exact ⟨hname.remove (by simp [byName, hkeys]), hid.remove (by simp [byId, hkeys])⟩
  · rw [hwho, update_apply]
    split_ifs
    · exact Or.inr rfl
    · exact Or.inl rfl

theorem shrinks_runDelete (hs : s.Inv) {d : Delete} (hd : d ∈ s.deleteCommands) :
    Shrinks s (s.runDelete d) := by
  cases d with
  | destroy e =>
      cases hcomps : s.components e with
      | none =>
          rw [runDelete_destroy_of_none hcomps]
          exact Shrinks.refl s
      | some comps =>
          obtain ⟨basic, hcharacter, hbasic, hrun⟩ := runDelete_destroy hs.toSound hd hcomps
          exact hrun ▸ shrinks_unregister hcomps hcharacter hbasic
  | bulkDestroy es =>
      exact foldl_invariant (Shrinks s)
        (fun _ e hshrinks => hshrinks.trans (shrinks_destroyEntity e)) (Shrinks.refl s) es

theorem shrinks_runDeletes (hs : s.Inv) : Shrinks s s.runDeletes := by
  obtain ⟨-, -, hshrinks⟩ := foldl_remaining runDelete
    (fun ds t => t.Inv ∧ (∀ d ∈ ds, d ∈ t.deleteCommands) ∧ Shrinks s t)
    (fun d ds t ⟨hinv, hmem, hshrinks⟩ => by
      obtain ⟨hd, hds⟩ := List.forall_mem_cons.mp hmem
      obtain ⟨hinv', hsame⟩ := runDelete_spec hinv hd
      exact ⟨hinv', hsame ▸ hds, hshrinks.trans (shrinks_runDelete hinv hd)⟩)
    ⟨hs, fun _ => id, Shrinks.refl s⟩
  have hquiet : Quiet (s.deleteCommands.foldl runDelete s) s.runDeletes :=
    Quiet.of_who le_rfl rfl rfl rfl
  exact hshrinks.trans ⟨registered_quiet hquiet, hquiet.allFound_iff.mpr, rfl, fun _ => Or.inl rfl⟩

end Deletes

/-! ## Every run -/

section Run

variable {b : Buckets} {s : Registry}

/-- The parts of an update before the delete commands are about no character. -/
theorem quiet_update (hs : s.Inv) (handled : List Handled) :
    ∃ s', s'.Inv ∧ Quiet s s' ∧ next b s (.update handled) = s'.runDeletes := by
  obtain ⟨hinv, _⟩ := runCreates_spec (b := b) hs
  obtain ⟨hinv', _⟩ := handles_spec (b := b) hinv handled
  exact ⟨_, hinv', (quiet_runCreates hs).trans (quiet_handles handled), rfl⟩

theorem registered_next (hs : s.Inv) (hreg : s.Registered) (e : Event) :
    (next b s e).Registered := by
  by_cases hload : ∃ name, e = .loadCharacter (.loaded name)
  · obtain ⟨name, rfl⟩ := hload
    exact registered_loaded hreg name
  by_cases hupdate : ∃ handled, e = .update handled
  · obtain ⟨handled, rfl⟩ := hupdate
    obtain ⟨s', hinv, hquiet, hnext⟩ := quiet_update (b := b) hs handled
    exact hnext ▸ (shrinks_runDeletes hinv).registered (registered_quiet hquiet hreg)
  · exact registered_quiet (quiet_next (fun name h => hload ⟨name, h⟩)
      (fun handled h => hupdate ⟨handled, h⟩)) hreg

/-- **One step keeps every character findable** exactly when the guard says so. -/
theorem allFound_next_iff (hs : s.Inv) (hreg : s.Registered) (hfound : s.AllFound) (e : Event) :
    (next b s e).AllFound ↔ loadsNew b s e := by
  by_cases hload : ∃ name, e = .loadCharacter (.loaded name)
  · obtain ⟨name, rfl⟩ := hload
    exact allFound_loaded_iff hreg.names hfound name
  have hguard : loadsNew b s e := by
    cases e with
    | loadCharacter o =>
        cases o with
        | loaded name => exact absurd ⟨name, rfl⟩ hload
        | _ => trivial
    | _ => trivial
  -- nothing else asks anything of the guard, and loses no entry of a character
  refine iff_of_true ?_ hguard
  by_cases hupdate : ∃ handled, e = .update handled
  · obtain ⟨handled, rfl⟩ := hupdate
    obtain ⟨s', hinv, hquiet, hnext⟩ := quiet_update (b := b) hs handled
    exact hnext ▸ (shrinks_runDeletes hinv).allFound (hquiet.allFound_iff.mpr hfound)
  · exact (quiet_next (fun name h => hload ⟨name, h⟩)
      (fun handled h => hupdate ⟨handled, h⟩)).allFound_iff.mpr hfound

/-- What was there is as it was, or gone. -/
theorem who_next (hs : s.Inv) (e : Event) {e' : Entity} (he' : e' < s.created) :
    (next b s e).who e' = s.who e' ∨ (next b s e).who e' = none := by
  have hquiet : ∀ {t : Registry}, Quiet s t → t.who e' = s.who e' := fun h =>
    (h.who e').resolve_right fun hnew => absurd he' (not_lt.mpr hnew.1)
  by_cases hload : ∃ name, e = .loadCharacter (.loaded name)
  · obtain ⟨name, rfl⟩ := hload
    refine Or.inl ?_
    show (s.loadCharacter b (.loaded name)).who e' = _
    rw [who_loaded, update_of_ne (ne_of_lt he')]
  by_cases hupdate : ∃ handled, e = .update handled
  · obtain ⟨handled, rfl⟩ := hupdate
    obtain ⟨s', hinv, hs', hnext⟩ := quiet_update (b := b) hs handled
    rw [hnext, ← hquiet hs']
    exact (shrinks_runDeletes hinv).who e'
  · exact Or.inl (hquiet (quiet_next (fun name h => hload ⟨name, h⟩)
      (fun handled h => hupdate ⟨handled, h⟩)))

theorem created_le_next (hs : s.Inv) (e : Event) : s.created ≤ (next b s e).created := by
  by_cases hload : ∃ name, e = .loadCharacter (.loaded name)
  · obtain ⟨name, rfl⟩ := hload
    exact (Nat.le_succ _).trans (created_loaded name).ge
  by_cases hupdate : ∃ handled, e = .update handled
  · obtain ⟨handled, rfl⟩ := hupdate
    obtain ⟨s', hinv, hquiet, hnext⟩ := quiet_update (b := b) hs handled
    rw [hnext, (shrinks_runDeletes hinv).created]
    exact hquiet.le
  · exact (quiet_next (fun name h => hload ⟨name, h⟩) (fun handled h => hupdate ⟨handled, h⟩)).le

/-- A step after which every character is found keeps the entries of what is there. -/
theorem keeps_next (hs : s.Inv) (hreg : s.Registered) {e : Event}
    (hfound : (next b s e).AllFound) : Keeps s (next b s e) := by
  obtain ⟨hname, hid⟩ := allFound_iff.mp hfound
  have hkeys : ∀ {e'}, e' < s.created → s.who e' ≠ some none →
      (next b s e).components e' ≠ none →
      ∃ keys, (s.who e').join = some keys ∧ ((next b s e).who e').join = some keys := by
    intro e' hlt hcharacter halive
    obtain hsame | hgone := who_next (b := b) hs e hlt
    · rw [hsame]
      cases hwho : s.who e' with
      | none => exact absurd (Option.map_eq_none_iff.mp (hsame.trans hwho)) halive
      | some o =>
          obtain ⟨keys, rfl⟩ := Option.ne_none_iff_exists'.mp fun h => hcharacter (h ▸ hwho)
          exact ⟨keys, rfl, rfl⟩
    · exact absurd (Option.map_eq_none_iff.mp hgone) halive
  refine fun e' halive => ⟨fun name hentry => ?_, fun id hentry => ?_⟩
  · obtain ⟨keys, hkey, hkey'⟩ := hkeys (hreg.names.lt name e' hentry)
      (hreg.names.character name e' hentry) halive
    exact hname.keeps hreg.names.valid hentry (j := keys.1) (by simp [byName, hkey])
      (by simp [byName, hkey'])
  · obtain ⟨keys, hkey, hkey'⟩ := hkeys (hreg.ids.lt id e' hentry)
      (hreg.ids.character id e' hentry) halive
    exact hid.keeps hreg.ids.valid hentry (j := keys.2) (by simp [byId, hkey])
      (by simp [byId, hkey'])

theorem registered_start : start.Registered := by
  constructor <;> constructor <;> intro k e h <;> simp [start, byName, byId] at h

end Run

/-- **Every character is found**, and no entry of one that is there goes, in every run whose
loads return characters with a name and an id other than 0 that no other character there has;
and in no other. -/
theorem found_iff (b : Buckets) (es : List Event) :
    ((∀ p, p <+: es → (p.foldl (next b) start).AllFound) ∧
        ∀ p e, p ++ [e] <+: es →
          Keeps (p.foldl (next b) start) ((p ++ [e]).foldl (next b) start)) ↔
      ∀ p e, p ++ [e] <+: es → loadsNew b (p.foldl (next b) start) e := by
  have hinv : ∀ s e, s.Inv ∧ s.Registered → (next b s e).Inv ∧ (next b s e).Registered :=
    fun s e hs => ⟨inv_next hs.1 e, registered_next hs.1 hs.2 e⟩
  have hstart : Registry.Inv start ∧ Registry.Registered start := ⟨inv_start, registered_start⟩
  have hfound := foldl_reached_iff hinv
    (fun s e hs hfound => allFound_next_iff hs.1 hs.2 hfound e) hstart
    (fun e name id he => by simp [start, who] at he) es
  rw [← hfound]
  refine and_iff_left_of_imp fun hall p e hpe => ?_
  obtain ⟨hids, hreg⟩ := foldl_invariant _ hinv hstart p
  have hlast := hall _ hpe
  rw [List.foldl_append] at hlast ⊢
  exact keeps_next hids hreg hlast

/-- The first character that is loaded has id 0. -/
theorem not_found_first : ¬ ∀ (b : Buckets) (es : List Event),
    (∀ p, p <+: es → (p.foldl (next b) start).AllFound) ∧
      ∀ p e, p ++ [e] <+: es →
        Keeps (p.foldl (next b) start) ((p ++ [e]).foldl (next b) start) := by
  intro h
  have hfound := (h .least [.loadCharacter (.loaded "a")]).1 _ (List.prefix_refl _) 0 "a" 0 rfl
  exact absurd hfound.2 (by decide)

end OsIrose.Registry

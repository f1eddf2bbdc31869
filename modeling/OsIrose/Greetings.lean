/-
A character enters the map: `MapSystem::processChangeMapReq` in
`map/src/systems/mapsystem.cpp`.

Those on the map are told of the newcomer, and the newcomer is told of all that is there, each
as it is shown (`greetings_last`). What the handler does is said once (`Enters`), and that it
keeps the views of all clients is derived from that (`Enters.view`).
-/
import OsIrose.ViewSteps

set_option autoImplicit false

namespace OsIrose.Views

open Function
open MapServer (Entity BasicInfo)
open Registry (Buckets Components Delete)

section Greetings

variable {b : Buckets} {w : World} {due commands : List Delete}

theorem mem_greetings {e : Entity} {m : Message} : m ∈ w.greetings e ↔
    m.about < w.registry.created ∧
      (w.greetBasic e m.about = some m ∨ w.greetItem m.about = some m) := by
  have hbasic : ∀ {e'}, w.greetBasic e e' = some m → m.about = e' := by
    intro e' he'
    simp only [World.greetBasic, Option.bind_eq_some_iff] at he'
    obtain ⟨comps, _, basic, _, he'⟩ := he'
    split_ifs at he' <;> obtain rfl := Option.some.inj he' <;> rfl
  have hitem : ∀ {e'}, w.greetItem e' = some m → m.about = e' := by
    intro e' he'
    simp only [World.greetItem, Option.bind_eq_some_iff] at he'
    obtain ⟨comps, _, he'⟩ := he'
    split_ifs at he'
    obtain rfl := Option.some.inj he'
    rfl
  simp only [World.greetings, List.mem_append, List.mem_filterMap, List.mem_range]
  constructor
  · rintro (⟨e', hlt, he'⟩ | ⟨e', hlt, he'⟩)
    · obtain rfl := hbasic he'
      exact ⟨hlt, Or.inl he'⟩
    · obtain rfl := hitem he'
      exact ⟨hlt, Or.inr he'⟩
  · rintro ⟨hlt, he' | he'⟩
    · exact Or.inl ⟨_, hlt, he'⟩
    · exact Or.inr ⟨_, hlt, he'⟩

/-- Of an entity that is gone, the newcomer is told nothing. -/
theorem alive_of_mem_greetings {e : Entity} {m : Message} (h : m ∈ w.greetings e) :
    w.registry.components m.about ≠ none := by
  obtain ⟨_, hm | hm⟩ := mem_greetings.mp h
  · obtain ⟨comps, hcomps, _⟩ := Option.bind_eq_some_iff.mp hm
    simp [hcomps]
  · obtain ⟨comps, hcomps, _⟩ := Option.bind_eq_some_iff.mp hm
    simp [hcomps]

/-- An entity is greeted as it is shown. -/
theorem greet_iff (hs : w.registry.Sound) (hw : w.Bound) {e e' : Entity} {comps : Components}
    {m : Message} (hne : e' ≠ e) (hcomps : w.registry.components e' = some comps)
    (hm : shownAs e' comps = some m) (m' : Message) :
    w.greetBasic e e' = some m' ∨ w.greetItem e' = some m' ↔ m' = m := by
  have hkind := hw.kind e' comps hcomps
  -- whatever is shown has a `BasicInfo`
  have hbasic : comps.basic ≠ none := by
    intro hnone
    unfold shownAs at hm
    split_ifs at hm with hnpc hmap hitem
    · exact hkind.npc hnpc hnone
    · simp [Components.isOnMap, hnone] at hmap
    · exact (hkind.item hitem).1 hnone
  obtain ⟨basic, hbasic⟩ := Option.ne_none_iff_exists'.mp hbasic
  have hmap : basic.isOnMap = comps.isOnMap := by simp [Components.isOnMap, hbasic]
  have hbasics : w.greetBasic e e' = if comps.npc then some (.npcChar e')
      else if comps.isOnMap then some (.playerChar e') else none := by
    simp [World.greetBasic, hcomps, hbasic, hne, hmap]
  have hitems : w.greetItem e' = if comps.item then some (.dropItem e') else none := by
    simp [World.greetItem, hcomps]
  rw [hbasics, hitems]
  unfold shownAs at hm
  by_cases hitem : comps.item = true
  · -- an item is neither an NPC nor on the map
    obtain ⟨_, hcharacter, hnpc⟩ := hkind.item hitem
    have hoff : comps.isOnMap = false := by
      by_contra hon
      have honMap := (hs.components e' comps hcomps).onMap (by simpa using hon)
      exact absurd (honMap.symm.trans hcharacter) (by decide)
    simp only [hnpc, hoff, hitem, Bool.false_eq_true, if_false, if_true] at hm ⊢
    rw [hm, Option.some.injEq]
    exact (or_iff_right (by simp)).trans eq_comm
  · rw [if_neg hitem] at hm ⊢
    rw [hm, Option.some.injEq]
    exact (or_iff_left (by simp)).trans eq_comm

/-- **The newcomer is told of all the rest.** -/
theorem greetings_last (hs : w.registry.Sound) (hw : w.Bound) {e e' : Entity} {comps : Components}
    {m : Message} (hne : e' ≠ e) (hcomps : w.registry.components e' = some comps)
    (hm : shownAs e' comps = some m) :
    Feed.last Message.about (w.greetings e).reverse e' = some m := by
  have hgreet := greet_iff hs hw hne hcomps hm
  obtain rfl := about_of_shownAs hm
  have hmem : m ∈ w.greetings e :=
    mem_greetings.mpr ⟨Registry.lt_created hcomps, (hgreet m).mpr rfl⟩
  refine Feed.last_of_forall (List.mem_reverse.mpr hmem) fun m' hm' hsame => (hgreet m').mp ?_
  rw [← hsame]
  exact (mem_greetings.mp (List.mem_reverse.mp hm')).2

theorem hear_hidden {cl : Client} {ms : List Message} {e : Entity} (h : cl.Hidden e)
    (hms : ∀ m ∈ ms, m.about ≠ e) : (cl.hear ms).Hidden e := fun m hm =>
  h m ((Feed.last_append_of_forall hms).symm.trans hm)

theorem tell_hidden {audience : ℕ → Bool} {m : Message} {c : ℕ} {e : Entity}
    (h : (w.clients c).Hidden e) (hm : m.about = e → audience c = false) :
    ((w.tell audience m).clients c).Hidden e := by
  intro m' hm'
  by_cases he : m.about = e
  · exact h m' ((tell_last_of_not (hm he)).symm.trans hm')
  · exact h m' ((tell_last_of_ne he).symm.trans hm')

theorem kind_setOnMap {comps : Components} (h : Kind comps) {isOnMap : Bool} :
    Kind (comps.setOnMap isOnMap) where
  npc := fun hnpc hnone => h.npc hnpc ((Registry.setOnMap_basic_none comps isOnMap).mp hnone)
  item := fun hitem =>
    ⟨fun hnone => (h.item hitem).1 ((Registry.setOnMap_basic_none comps isOnMap).mp hnone),
      (h.item hitem).2⟩

/-- What `processChangeMapReq` does for an entity that has a client. -/
structure Enters (w w' : World) (c : ℕ) (e : Entity) : Prop where
  client : (w.clients c).entity = some e
  before : ∃ comps, w.registry.components e = some comps ∧ comps.character = true
  self : ∃ comps, w'.registry.components e = some comps ∧ comps.isOnMap = true ∧
    shownAs e comps = some (.playerChar e)
  other : ∀ e', e' ≠ e → w'.registry.components e' = w.registry.components e'
  created : w'.registry.created = w.registry.created
  told : ∀ c', c' ≠ c →
    w'.clients c' = (w.tell (w.everyoneButMeOnMap c) (.playerChar e)).clients c'
  greeted : w'.clients c =
    ((w.tell (w.everyoneButMeOnMap c) (.playerChar e)).clients c).hear (w.greetings e).reverse

theorem processChangeMapReq_cases (hs : w.registry.Sound) (hw : w.Bound) (e : Entity) :
    w.processChangeMapReq b e = w ∨
      ∃ c, Enters w (w.processChangeMapReq b e) c e ∧ (w.processChangeMapReq b e).Bound := by
  cases hclient : w.getClient e with
  | none => exact Or.inl (by simp only [World.processChangeMapReq, hclient])
  | some c =>
      obtain ⟨hsocket, _⟩ := Option.filter_eq_some_iff.mp hclient
      obtain ⟨comps, hcomps, hsocket⟩ := Option.bind_eq_some_iff.mp hsocket
      -- only a character has a client, so it has a `BasicInfo` as well
      have hsound := hs.components e comps hcomps
      have hcharacter : comps.character = true := hsound.socket (by simp [hsocket])
      have hon : (comps.setOnMap true).isOnMap = true :=
        (Registry.setOnMap_isOnMap comps true).mpr ⟨hsound.basic hcharacter, rfl⟩
      have hnpc : (comps.setOnMap true).npc = false := hsound.npc hcharacter
      let told := w.tell (w.everyoneButMeOnMap c) (.playerChar e)
      let greeted := told.setClient c ((told.clients c).hear (w.greetings e).reverse)
      have hrun : w.processChangeMapReq b e =
          greeted.withRegistry (w.registry.handle b (.changeMap e)) := by
        simp only [World.processChangeMapReq, hclient]
        rfl
      have htold : told.Bound := hw.tell (m := .playerChar e) (Registry.lt_created hcomps) _
      have hgreeted : greeted.Bound := by
        refine htold.setClient rfl rfl (fun m hm => ?_) (htold.absent c)
        obtain hm | hm := List.mem_append.mp hm
        · exact (mem_greetings.mp (List.mem_reverse.mp hm)).1
        · exact htold.born c m hm
      rw [hrun]
      refine Or.inr ⟨c, ⟨hw.socket e comps c hcomps hsocket, ⟨comps, hcomps, hcharacter⟩,
        ⟨comps.setOnMap true, ?_, hon, by simp [shownAs, hnpc, hon]⟩,
        fun e' he => Registry.modify_of_ne he _, rfl, fun c' hc => setClient_of_ne hc _,
        setClient_self _⟩,
        hgreeted.modify (fun comps' _ hkind => ?_) fun comps' c' hcomps' hc' => ?_⟩
      · exact (Registry.modify_self _).trans (by simp [hcomps, hsocket])
      · split_ifs
        · exact kind_setOnMap hkind
        · exact hkind
      · refine hgreeted.socket e comps' c' hcomps' ?_
        split_ifs at hc' <;> exact hc'

namespace Enters

variable {w' : World} {c c' : ℕ} {e e' : Entity}

theorem listed (h : Enters w w' c e) : (w'.clients c').listed = (w.clients c').listed := by
  by_cases hc : c' = c
  · rw [hc, h.greeted]
    exact tell_listed
  · rw [h.told c' hc]
    exact tell_listed

theorem entity (h : Enters w w' c e) : (w'.clients c').entity = (w.clients c').entity := by
  by_cases hc : c' = c
  · rw [hc, h.greeted]
    exact tell_entity
  · rw [h.told c' hc]
    exact tell_entity

theorem alive (h : Enters w w' c e) (he' : w'.registry.components e' ≠ none) :
    w.registry.components e' ≠ none := by
  by_cases he : e' = e
  · obtain ⟨comps, hcomps, _⟩ := h.before
    rw [he, hcomps]
    simp
  · rwa [← h.other e' he]

/-- No other client has the entity. -/
theorem ne_of_client (h : Enters w w' c e) (hw : w.Bound) (hc : c' ≠ c)
    (he' : (w.clients c').entity = some e') : e' ≠ e :=
  fun he => hc (hw.injective c' c e (he ▸ he') h.client)

/-- Those on the map are told of the newcomer, and the newcomer of all of them. -/
theorem shown (h : Enters w w' c e) (hs : w.registry.Sound) (hw : w.Bound)
    (hview : w.View due commands) {e₁ : Entity} (hc : (w.clients c').listed = true)
    (he₁ : (w.clients c').entity = some e₁) (hon : w'.isOnMap e₁ = true) (hne : e' ≠ e₁)
    {comps : Components} {m : Message} (hcomps : w'.registry.components e' = some comps)
    (hm : shownAs e' comps = some m) : (w'.clients c').last e' = some m := by
  by_cases hcc : c' = c
  · subst hcc
    obtain rfl := Option.some.inj (h.client.symm.trans he₁)
    rw [h.other e' hne] at hcomps
    rw [h.greeted]
    show Feed.last _ (_ ++ _) e' = _
    -- the newcomer: the greetings are the last that it heard
    rw [Feed.last_append, greetings_last hs hw hne hcomps hm]
    rfl
  · -- somebody else, who was on the map before
    rw [World.isOnMap, h.other e₁ (h.ne_of_client hw hcc he₁)] at hon
    rw [h.told c' hcc]
    by_cases he : e' = e
    · subst he
      obtain ⟨comps', hcomps', _, hshown⟩ := h.self
      obtain rfl := Option.some.inj (hcomps'.symm.trans hcomps)
      obtain rfl := Option.some.inj (hshown.symm.trans hm)
      refine tell_last_self (m := .playerChar e') ?_
      simp [World.everyoneButMeOnMap, hc, hcc, he₁, World.isOnMap, hon]
    · rw [h.other e' he] at hcomps
      rw [← hview.shown c' e₁ hc he₁ hon e' comps m hne hcomps hm]
      exact tell_last_of_ne (m := .playerChar e) (Ne.symm he)

/-- Nobody is told of what is gone. -/
theorem hidden_of_gone (h : Enters w w' c e) (hdead : w'.registry.components e' = none)
    (hhidden : (w.clients c').Hidden e') : (w'.clients c').Hidden e' := by
  have he : e' ≠ e := by
    obtain ⟨comps, hcomps, _⟩ := h.self
    intro he
    simp [he, hcomps] at hdead
  have htold : ((w.tell (w.everyoneButMeOnMap c) (.playerChar e)).clients c').Hidden e' :=
    tell_hidden hhidden fun habout => absurd habout (Ne.symm he)
  by_cases hcc : c' = c
  · subst hcc
    rw [h.greeted]
    refine hear_hidden htold fun m hm habout => ?_
    exact alive_of_mem_greetings (List.mem_reverse.mp hm) (by rw [habout, ← h.other e' he, hdead])
  · rwa [h.told c' hcc]

/-- Those who are not on the map are not told of the newcomer. -/
theorem hidden_of_waiting (h : Enters w w' c e) (hw : w.Bound) (hview : w.View due commands)
    (hc : (w.clients c').listed = true) (hwaiting : w'.Waiting commands c') {comps : Components}
    (hcomps : w'.registry.components e' = some comps) (hchar : comps.character = true) :
    (w'.clients c').Hidden e' := by
  -- the newcomer is on the map now
  have hcc : c' ≠ c := by
    rintro rfl
    obtain ⟨_, hoff, _⟩ := hwaiting e (h.entity.trans h.client)
    obtain ⟨comps', hcomps', hon, _⟩ := h.self
    simp [World.isOnMap, hcomps', hon] at hoff
  have hwaiting' : w.Waiting commands c' := by
    intro e₁ he₁
    obtain ⟨halive, hoff, hnot⟩ := hwaiting e₁ (h.entity.trans he₁)
    rw [World.isOnMap, h.other e₁ (h.ne_of_client hw hcc he₁)] at hoff
    exact ⟨h.alive halive, hoff, hnot⟩
  have hnot : w.everyoneButMeOnMap c c' = false := by
    cases he₁ : (w.clients c').entity with
    | none => simp [World.everyoneButMeOnMap, he₁]
    | some e₁ => simp [World.everyoneButMeOnMap, he₁, (hwaiting' e₁ he₁).2.1]
  rw [h.told c' hcc]
  refine tell_hidden ?_ fun _ => hnot
  by_cases he : e' = e
  · subst he
    obtain ⟨comps', hcomps', hchar'⟩ := h.before
    exact hview.offMap c' hc hwaiting' e' comps' hcomps' hchar'
  · exact hview.offMap c' hc hwaiting' e' comps ((h.other e' he).symm.trans hcomps) hchar

theorem view (h : Enters w w' c e) (hs : w.registry.Sound) (hw : w.Bound)
    (hview : w.View [] commands) : w'.View [] commands := by
  refine ⟨fun c' e₁ hc he₁ hon e' comps m hne hcomps hm => ?_,
    fun c' hc hattached e' he' hdead => ?_, fun c' hc hwaiting e' comps hcomps hchar => ?_⟩
  · exact h.shown hs hw hview (h.listed.symm.trans hc) (h.entity.symm.trans he₁) hon hne hcomps hm
  · refine h.hidden_of_gone hdead (hview.gone c' (h.listed.symm.trans hc) (fun e₁ he₁ => ?_) e'
      (h.created ▸ he') ?_)
    · exact ⟨h.alive (hattached e₁ (h.entity.trans he₁)).1, Or.inr List.not_mem_nil⟩
    · by_contra halive
      obtain ⟨comps, hcomps, _⟩ := h.self
      have he : e' ≠ e := fun he => by simp [he, hcomps] at hdead
      exact halive ((h.other e' he).symm.trans hdead)
  · exact h.hidden_of_waiting hw hview (h.listed.symm.trans hc) hwaiting hcomps hchar

end Enters

end Greetings

end OsIrose.Views

/-
What is kept by each step of a map server, of what its clients have heard.

A client on the map has heard last of everything there that it is there (`View.shown`), and of
nothing that is gone (`View.gone`). The second also has to hold of those who are not on the map
yet, since nobody tells them what goes: they have not heard of any character (`View.offMap`),
and of NPCs and items they are told.

A character that `destroy` has taken off the map does not hear of characters that go, until
its own command runs. So while the delete commands run, the clients whose command is among
those to come (`due`) are left out.
-/
import OsIrose.Views

set_option autoImplicit false

namespace OsIrose.Views

open Function
open MapServer (Entity BasicInfo)
open Registry (Buckets Components Create Delete Handled Load)

/-- How an entity is shown that is there. -/
def shownAs (e : Entity) (comps : Components) : Option Message :=
  if comps.npc then some (.npcChar e)
  else if comps.isOnMap then some (.playerChar e)
  else if comps.item then some (.dropItem e)
  else none

/-- The client has not heard of the entity, or last that it is gone. -/
def Client.Hidden (cl : Client) (e : Entity) : Prop :=
  ∀ m, cl.last e = some m → m.shows = false

/-- What else an NPC and an item are, and are not. -/
structure Kind (comps : Components) : Prop where
  npc : comps.npc = true → comps.basic ≠ none
  item : comps.item = true → comps.basic ≠ none ∧ comps.character = false ∧ comps.npc = false

namespace World

/-- The clients and their entities. -/
structure Bound (w : World) : Prop where
  kind : ∀ e comps, w.registry.components e = some comps → Kind comps
  socket : ∀ e comps c, w.registry.components e = some comps → comps.socket = some c →
    (w.clients c).entity = some e
  lt : ∀ c e, (w.clients c).entity = some e → e < w.registry.created
  injective : ∀ c c' e, (w.clients c).entity = some e → (w.clients c').entity = some e → c = c'
  born : ∀ c m, m ∈ (w.clients c).heard → m.about < w.registry.created
  unjoined : ∀ c, (w.clients c).joined = false → (w.clients c).entity = none
  absent : ∀ c, (w.clients c).phase = .absent → (w.clients c).joined = false

/-- The entity of the client, if it has one, is there, and no command for it is due once it is
off the map. -/
def Attached (w : World) (due : List Delete) (c : ℕ) : Prop :=
  ∀ e, (w.clients c).entity = some e →
    w.registry.components e ≠ none ∧ (w.isOnMap e = true ∨ .destroy e ∉ due)

/-- The entity of the client, if it has one, is there, and has not been on the map. -/
def Waiting (w : World) (commands : List Delete) (c : ℕ) : Prop :=
  ∀ e, (w.clients c).entity = some e →
    w.registry.components e ≠ none ∧ w.isOnMap e = false ∧ .destroy e ∉ commands

structure View (w : World) (due commands : List Delete) : Prop where
  shown : ∀ c e, (w.clients c).listed = true → (w.clients c).entity = some e →
    w.isOnMap e = true → ∀ e' comps m, e' ≠ e → w.registry.components e' = some comps →
    shownAs e' comps = some m → (w.clients c).last e' = some m
  gone : ∀ c, (w.clients c).listed = true → w.Attached due c → ∀ e', e' < w.registry.created →
    w.registry.components e' = none → (w.clients c).Hidden e'
  offMap : ∀ c, (w.clients c).listed = true → w.Waiting commands c → ∀ e' comps,
    w.registry.components e' = some comps → comps.character = true → (w.clients c).Hidden e'

end World

section Lemmas

variable {w : World} {c : ℕ} {e : Entity} {m : Message}

theorem about_of_shownAs {comps : Components} (h : shownAs e comps = some m) : m.about = e := by
  unfold shownAs at h
  split_ifs at h <;> obtain rfl := Option.some.inj h <;> rfl

theorem Hidden.of_born (h : w.Bound) (he : w.registry.created ≤ e) : (w.clients c).Hidden e := by
  intro m hm
  obtain ⟨hmem, rfl⟩ := Feed.mem_of_last hm
  exact absurd (h.born c m hmem) (not_lt.mpr he)

/-! ### `tell` -/

variable {audience : ℕ → Bool}

@[simp] theorem tell_registry : (w.tell audience m).registry = w.registry := rfl

@[simp] theorem tell_listed : ((w.tell audience m).clients c).listed = (w.clients c).listed := by
  unfold World.tell
  dsimp only
  split_ifs <;> rfl

@[simp] theorem tell_entity : ((w.tell audience m).clients c).entity = (w.clients c).entity := by
  unfold World.tell
  dsimp only
  split_ifs <;> rfl

@[simp] theorem tell_joined : ((w.tell audience m).clients c).joined = (w.clients c).joined := by
  unfold World.tell
  dsimp only
  split_ifs <;> rfl

@[simp] theorem tell_phase : ((w.tell audience m).clients c).phase = (w.clients c).phase := by
  unfold World.tell
  dsimp only
  split_ifs <;> rfl

theorem mem_tell_heard {m' : Message} (h : m' ∈ ((w.tell audience m).clients c).heard) :
    m' = m ∨ m' ∈ (w.clients c).heard := by
  unfold World.tell at h
  dsimp only at h
  split_ifs at h
  · exact List.mem_cons.mp h
  · exact Or.inr h

/-- Who is told has heard it last. -/
theorem tell_last_self (hc : audience c = true) :
    ((w.tell audience m).clients c).last m.about = some m := by
  simp [World.tell, hc, Client.hear, Client.last]

/-- Nobody has heard anything about another entity. -/
theorem tell_last_of_ne (h : m.about ≠ e) :
    ((w.tell audience m).clients c).last e = (w.clients c).last e := by
  unfold World.tell
  dsimp only
  split_ifs
  · exact Feed.last_cons_of_ne h
  · rfl

theorem tell_last_of_not (hc : audience c = false) :
    ((w.tell audience m).clients c).last e = (w.clients c).last e := by
  simp [World.tell, hc]

/-- Whoever hears that an entity goes has not heard of it any more. -/
theorem hidden_of_told (hc : audience c = true) :
    ((w.tell audience (.removeObject e)).clients c).Hidden e := by
  intro m hm
  obtain rfl := Option.some.inj ((tell_last_self (m := .removeObject e) hc).symm.trans hm)
  rfl

/-- Nobody hears of an entity by hearing that one goes. -/
theorem Client.Hidden.tell_removeObject (h : (w.clients c).Hidden e) (e' : Entity) :
    ((w.tell audience (.removeObject e')).clients c).Hidden e := by
  by_cases hc : audience c = true
  · by_cases he : e' = e
    · subst he
      exact hidden_of_told hc
    · exact fun m hm => h m ((tell_last_of_ne (m := .removeObject e') he).symm.trans hm)
  · exact fun m hm => h m ((tell_last_of_not (by simpa using hc)).symm.trans hm)

/-! ### A client changes -/

@[simp] theorem setClient_self (cl : Client) : (w.setClient c cl).clients c = cl :=
  update_self _ _ _

theorem setClient_of_ne {c' : ℕ} (h : c' ≠ c) (cl : Client) :
    (w.setClient c cl).clients c' = w.clients c' :=
  update_of_ne h _ _

end Lemmas

/-! ## The clients and their entities -/

section Bound

variable {w : World} (hw : w.Bound)

include hw

theorem World.Bound.withRegistry {r : Registry} (hle : w.registry.created ≤ r.created)
    (hkind : ∀ e comps, r.components e = some comps → Kind comps)
    (hsocket : ∀ e comps c, r.components e = some comps → comps.socket = some c →
      (w.clients c).entity = some e) : (w.withRegistry r).Bound where
  kind := hkind
  socket := hsocket
  lt := fun c e he => lt_of_lt_of_le (hw.lt c e he) hle
  injective := hw.injective
  born := fun c m hm => lt_of_lt_of_le (hw.born c m hm) hle
  unjoined := hw.unjoined
  absent := hw.absent

/-- Nothing new comes, and nothing that is there changes. -/
theorem World.Bound.of_components {r : Registry} (hle : w.registry.created ≤ r.created)
    (hcomponents : ∀ e comps, r.components e = some comps →
      w.registry.components e = some comps) : (w.withRegistry r).Bound :=
  hw.withRegistry hle (fun e comps h => hw.kind e comps (hcomponents e comps h))
    fun e comps c h => hw.socket e comps c (hcomponents e comps h)

theorem World.Bound.modify {e : Entity} {f : Components → Components}
    (hkind : ∀ comps, w.registry.components e = some comps → Kind comps → Kind (f comps))
    (hsocket : ∀ comps c, w.registry.components e = some comps → (f comps).socket = some c →
      (w.clients c).entity = some e) : (w.withRegistry (w.registry.modify e f)).Bound := by
  have hself : ∀ {e' comps'}, (w.registry.modify e f).components e' = some comps' →
      w.registry.components e' = some comps' ∨
        e' = e ∧ ∃ comps, w.registry.components e = some comps ∧ comps' = f comps := by
    intro e' comps' hcomps'
    by_cases he : e' = e
    · subst he
      rw [Registry.modify_self] at hcomps'
      obtain ⟨comps, hcomps, rfl⟩ := Option.map_eq_some_iff.mp hcomps'
      exact Or.inr ⟨rfl, comps, hcomps, rfl⟩
    · rw [Registry.modify_of_ne he] at hcomps'
      exact Or.inl hcomps'
  refine hw.withRegistry le_rfl (fun e' comps' hcomps' => ?_)
    fun e' comps' c hcomps' hc => ?_
  · obtain hsame | ⟨rfl, comps, hcomps, rfl⟩ := hself hcomps'
    · exact hw.kind e' comps' hsame
    · exact hkind comps hcomps (hw.kind e' comps hcomps)
  · obtain hsame | ⟨rfl, comps, hcomps, rfl⟩ := hself hcomps'
    · exact hw.socket e' comps' c hsame hc
    · exact hsocket comps c hcomps hc

/-- Nothing that is created has a client. -/
theorem World.Bound.create {comps : Components} (hkind : Kind comps)
    (hsocket : comps.socket = none) :
    (w.withRegistry (w.registry.create comps)).Bound := by
  have hself : ∀ {e comps'}, (w.registry.create comps).components e = some comps' →
      w.registry.components e = some comps' ∨ comps' = comps := by
    intro e comps' hcomps'
    by_cases he : e = w.registry.created
    · subst he
      rw [Registry.create_self] at hcomps'
      exact Or.inr (Option.some.inj hcomps').symm
    · rw [Registry.create_of_ne he] at hcomps'
      exact Or.inl hcomps'
  refine hw.withRegistry (Nat.le_succ _) (fun e comps' hcomps' => ?_)
    fun e comps' c hcomps' hc => ?_
  · obtain hsame | rfl := hself hcomps'
    · exact hw.kind e comps' hsame
    · exact hkind
  · obtain hsame | rfl := hself hcomps'
    · exact hw.socket e comps' c hsame hc
    · simp [hsocket] at hc

theorem World.Bound.tell {m : Message} (hm : m.about < w.registry.created) (audience : ℕ → Bool) :
    (w.tell audience m).Bound where
  kind := hw.kind
  socket := fun e comps c hcomps hc => tell_entity.trans (hw.socket e comps c hcomps hc)
  lt := fun c e he => hw.lt c e (tell_entity.symm.trans he)
  injective := fun c c' e he he' =>
    hw.injective c c' e (tell_entity.symm.trans he) (tell_entity.symm.trans he')
  born := fun c m' hm' => (mem_tell_heard hm').elim (fun h => h ▸ hm) (hw.born c m')
  unjoined := fun c hc => tell_entity.trans (hw.unjoined c (tell_joined.symm.trans hc))
  absent := fun c hc => tell_joined.trans (hw.absent c (tell_phase.symm.trans hc))

/-- A client changes, and its entity does not. -/
theorem World.Bound.setClient {c : ℕ} {cl : Client} (hentity : cl.entity = (w.clients c).entity)
    (hjoined : cl.joined = (w.clients c).joined)
    (hborn : ∀ m ∈ cl.heard, m.about < w.registry.created)
    (habsent : cl.phase = .absent → cl.joined = false) : (w.setClient c cl).Bound := by
  have hsame : ∀ c', ((w.setClient c cl).clients c').entity = (w.clients c').entity ∧
      ((w.setClient c cl).clients c').joined = (w.clients c').joined := by
    intro c'
    by_cases hc : c' = c
    · subst hc
      rw [setClient_self]
      exact ⟨hentity, hjoined⟩
    · rw [setClient_of_ne hc]
      exact ⟨rfl, rfl⟩
  refine ⟨hw.kind, fun e comps c' hcomps hc' => ?_, fun c' e he => ?_, fun c' c'' e he he' => ?_,
    fun c' m hm => ?_, fun c' hc' => ?_, fun c' hc' => ?_⟩
  · rw [(hsame c').1]
    exact hw.socket e comps c' hcomps hc'
  · rw [(hsame c').1] at he
    exact hw.lt c' e he
  · rw [(hsame _).1] at he he'
    exact hw.injective c' c'' e he he'
  · by_cases hc : c' = c
    · subst hc
      rw [setClient_self] at hm
      exact hborn m hm
    · rw [setClient_of_ne hc] at hm
      exact hw.born c' m hm
  · rw [(hsame c').2] at hc'
    rw [(hsame c').1]
    exact hw.unjoined c' hc'
  · by_cases hc : c' = c
    · subst hc
      rw [setClient_self] at hc' ⊢
      exact habsent hc'
    · rw [setClient_of_ne hc] at hc' ⊢
      exact hw.absent c' hc'

/-- A client without an entity gets one that is nobody's. -/
theorem World.Bound.setEntity {c : ℕ} {o : Option Entity} (hnone : (w.clients c).entity = none)
    (hphase : (w.clients c).phase ≠ .absent)
    (hnew : ∀ e, o = some e → e < w.registry.created ∧ ∀ c', (w.clients c').entity ≠ some e) :
    (w.setClient c { w.clients c with joined := true, entity := o }).Bound := by
  let cl : Client := { w.clients c with joined := true, entity := o }
  have hself : (w.setClient c cl).clients c = cl := setClient_self cl
  refine ⟨hw.kind, fun e comps c' hcomps hc' => ?_, fun c' e he => ?_, fun c' c'' e he he' => ?_,
    fun c' m hm => ?_, fun c' hc' => ?_, fun c' hc' => ?_⟩
  · -- an entity with a socket is that of its client, which had none
    have he := hw.socket e comps c' hcomps hc'
    have hc : c' ≠ c := fun hc => by simp [hc, hnone] at he
    rwa [setClient_of_ne hc]
  · by_cases hc : c' = c
    · subst hc
      rw [hself] at he
      exact (hnew e he).1
    · rw [setClient_of_ne hc] at he
      exact hw.lt c' e he
  · by_cases hc : c' = c <;> by_cases hc'' : c'' = c
    · exact hc.trans hc''.symm
    · subst hc
      rw [hself] at he
      rw [setClient_of_ne hc''] at he'
      exact absurd he' ((hnew e he).2 c'')
    · subst hc''
      rw [hself] at he'
      rw [setClient_of_ne hc] at he
      exact absurd he ((hnew e he').2 c')
    · rw [setClient_of_ne hc] at he
      rw [setClient_of_ne hc''] at he'
      exact hw.injective c' c'' e he he'
  · by_cases hc : c' = c
    · subst hc
      rw [hself] at hm
      exact hw.born c' m hm
    · rw [setClient_of_ne hc] at hm
      exact hw.born c' m hm
  · have hc : c' ≠ c := fun hc => by simp [hc] at hc'
    rw [setClient_of_ne hc] at hc' ⊢
    exact hw.unjoined c' hc'
  · have hc : c' ≠ c := fun hc => by
      rw [hc, hself] at hc'
      exact hphase hc'
    rw [setClient_of_ne hc] at hc' ⊢
    exact hw.absent c' hc'

end Bound

/-! ## Nothing is told -/

section Quiet

variable {w : World} {due commands : List Delete}

/-- A change of the registry after which nothing is gone that was there, and nothing more is to
be shown but `news`. -/
structure Discreet (r r' : Registry) (news : Option Message) (commands : List Delete) :
    Prop where
  le : r.created ≤ r'.created
  shownAs : ∀ e comps m, r'.components e = some comps → shownAs e comps = some m →
    (∃ comps', r.components e = some comps' ∧ Views.shownAs e comps' = some m) ∨ news = some m
  alive : ∀ e, e < r.created → (r'.components e = none ↔ r.components e = none)
  character : ∀ e comps, e < r.created → r'.components e = some comps →
    comps.character = true → ∃ comps', r.components e = some comps' ∧ comps'.character = true
  onMap : ∀ e, e < r.created → (r'.components e).any Components.isOnMap = true →
    (r.components e).any Components.isOnMap = true
  waiting : ∀ e, e < r.created → (r.components e).any Components.isOnMap = true →
    (r'.components e).any Components.isOnMap = true ∨ .destroy e ∈ commands

namespace Discreet

variable {r r' : Registry} {news : Option Message}

theorem refl (r : Registry) : Discreet r r news commands where
  le := le_rfl
  shownAs := fun _ comps _ hcomps hm => Or.inl ⟨comps, hcomps, hm⟩
  alive := fun _ _ => Iff.rfl
  character := fun _ comps _ hcomps hchar => ⟨comps, hcomps, hchar⟩
  onMap := fun _ _ => id
  waiting := fun _ _ => Or.inl

theorem congr {r'' : Registry} (h : Discreet r r' news commands)
    (hcomponents : r''.components = r'.components) (hcreated : r'.created ≤ r''.created) :
    Discreet r r'' news commands where
  le := h.le.trans hcreated
  shownAs := hcomponents ▸ h.shownAs
  alive := hcomponents ▸ h.alive
  character := hcomponents ▸ h.character
  onMap := hcomponents ▸ h.onMap
  waiting := hcomponents ▸ h.waiting

theorem create {comps : Components}
    (h : ∀ m, Views.shownAs r.created comps = some m → news = some m) :
    Discreet r (r.create comps) news commands := by
  have hold : ∀ {e}, e < r.created → (r.create comps).components e = r.components e :=
    fun he => Registry.create_of_ne (ne_of_lt he) comps
  refine ⟨Nat.le_succ _, fun e comps' m hcomps' hm => ?_, fun e he => by rw [hold he],
    fun e comps' he hcomps' hchar => ⟨comps', hold he ▸ hcomps', hchar⟩,
    fun e he => by rw [hold he]; exact id, fun e he hmap => Or.inl (by rwa [hold he])⟩
  by_cases he : e = r.created
  · subst he
    rw [Registry.create_self] at hcomps'
    obtain rfl := Option.some.inj hcomps'
    exact Or.inr (h m hm)
  · rw [Registry.create_of_ne he] at hcomps'
    exact Or.inl ⟨comps', hcomps', hm⟩

theorem modify {e : Entity} {f : Components → Components}
    (hshown : ∀ comps m, r.components e = some comps → Views.shownAs e (f comps) = some m →
      Views.shownAs e comps = some m ∨ news = some m)
    (hchar : ∀ comps, (f comps).character = comps.character)
    (honMap : ∀ comps, r.components e = some comps → (f comps).isOnMap = true →
      comps.isOnMap = true)
    (hwaiting : ∀ comps, r.components e = some comps → comps.isOnMap = true →
      (f comps).isOnMap = true ∨ .destroy e ∈ commands) :
    Discreet r (r.modify e f) news commands := by
  have hself : ∀ {comps'}, (r.modify e f).components e = some comps' →
      ∃ comps, r.components e = some comps ∧ comps' = f comps := by
    intro comps' hcomps'
    rw [Registry.modify_self] at hcomps'
    obtain ⟨comps, hcomps, rfl⟩ := Option.map_eq_some_iff.mp hcomps'
    exact ⟨comps, hcomps, rfl⟩
  refine ⟨le_rfl, fun e' comps' m hcomps' hm => ?_, fun e' _ => ?_,
    fun e' comps' _ hcomps' hc => ?_, fun e' _ hmap => ?_, fun e' _ hmap => ?_⟩ <;>
    by_cases he : e' = e
  · subst he
    obtain ⟨comps, hcomps, rfl⟩ := hself hcomps'
    exact (hshown comps m hcomps hm).imp_left fun hm' => ⟨comps, hcomps, hm'⟩
  · rw [Registry.modify_of_ne he] at hcomps'
    exact Or.inl ⟨comps', hcomps', hm⟩
  · subst he
    rw [Registry.modify_self, Option.map_eq_none_iff]
  · rw [Registry.modify_of_ne he]
  · subst he
    obtain ⟨comps, hcomps, rfl⟩ := hself hcomps'
    exact ⟨comps, hcomps, hchar comps ▸ hc⟩
  · rw [Registry.modify_of_ne he] at hcomps'
    exact ⟨comps', hcomps', hc⟩
  · subst he
    obtain ⟨comps', hcomps', hmap'⟩ := (Option.any_eq_true _ _).mp hmap
    obtain ⟨comps, hcomps, rfl⟩ := hself hcomps'
    exact (Option.any_eq_true _ _).mpr ⟨comps, hcomps, honMap comps hcomps hmap'⟩
  · rwa [Registry.modify_of_ne he] at hmap
  · subst he
    obtain ⟨comps, hcomps, hmap'⟩ := (Option.any_eq_true _ _).mp hmap
    rw [Registry.modify_self, hcomps]
    exact hwaiting comps hcomps hmap'
  · rw [Registry.modify_of_ne he]
    exact Or.inl hmap

end Discreet

section Change

variable {w' : World} {news : Option Message} {c : ℕ}

theorem Discreet.attached (hr : Discreet w.registry w'.registry news commands) (hw : w.Bound)
    (hentity : (w'.clients c).entity = (w.clients c).entity) (h : w'.Attached due c) :
    w.Attached due c := by
  intro e he
  obtain ⟨halive, hdue⟩ := h e (hentity.trans he)
  have hlt := hw.lt c e he
  exact ⟨fun hnone => halive ((hr.alive e hlt).mpr hnone), hdue.imp_left (hr.onMap e hlt)⟩

theorem Discreet.waits (hr : Discreet w.registry w'.registry news commands) (hw : w.Bound)
    (hentity : (w'.clients c).entity = (w.clients c).entity) (h : w'.Waiting commands c) :
    w.Waiting commands c := by
  intro e he
  obtain ⟨halive, hoff, hdue⟩ := h e (hentity.trans he)
  have hlt := hw.lt c e he
  refine ⟨fun hnone => halive ((hr.alive e hlt).mpr hnone), ?_, hdue⟩
  by_contra hon
  -- who has left the map since has its command pending
  obtain hon' | hmem := hr.waiting e hlt (by simpa [World.isOnMap] using hon)
  · exact absurd (hon'.symm.trans hoff) (by decide)
  · exact hdue hmem

/-- A change that nobody is told of, or that everyone is told of. -/
theorem World.View.change (hw : w.Bound) (h : w.View due commands)
    (hr : Discreet w.registry w'.registry news commands)
    (hlisted : ∀ c, (w'.clients c).listed = (w.clients c).listed)
    (hentity : ∀ c, (w'.clients c).entity = (w.clients c).entity)
    (hnews : ∀ m, news = some m → (∃ comps, w'.registry.components m.about = some comps ∧
      shownAs m.about comps = some m ∧ comps.character = false) ∧
      ∀ c, (w.clients c).listed = true → (w'.clients c).last m.about = some m)
    (hother : ∀ c e, (∀ m, news = some m → m.about ≠ e) →
      (w'.clients c).last e = (w.clients c).last e) : w'.View due commands := by
  have hold : ∀ c e, (∀ m, news = some m → m.about ≠ e) →
      (e < w.registry.created → (w.clients c).Hidden e) → (w'.clients c).Hidden e := by
    intro c e hne hhidden m hm
    rw [hother c e hne] at hm
    by_cases hborn : e < w.registry.created
    · exact hhidden hborn m hm
    · exact Hidden.of_born hw (not_lt.mp hborn) m hm
  refine ⟨fun c e hc he hmap e' comps m hne hcomps hm => ?_, fun c hc hattached e' he' hdead => ?_,
    fun c hc hwaiting e' comps hcomps hchar => ?_⟩
  · rw [hlisted] at hc
    rw [hentity] at he
    by_cases habout : ∃ m', news = some m' ∧ m'.about = e'
    · obtain ⟨m', hm', rfl⟩ := habout
      obtain ⟨⟨comps', hcomps', hshown, _⟩, htold⟩ := hnews m' hm'
      obtain rfl := Option.some.inj (hcomps.symm.trans hcomps')
      obtain rfl := Option.some.inj (hm.symm.trans hshown)
      exact htold c hc
    · have hnot : ∀ m', news = some m' → m'.about ≠ e' := fun m' hm' heq => habout ⟨m', hm', heq⟩
      rw [hother c e' hnot]
      obtain ⟨comps', hcomps', hm'⟩ := (hr.shownAs e' comps m hcomps hm).resolve_right
        fun hm' => hnot m hm' (about_of_shownAs hm)
      exact h.shown c e hc he (hr.onMap e (hw.lt c e he) hmap) e' comps' m hne hcomps' hm'
  · -- the news are of something that is there
    refine hold c e' ?_ fun hborn => ?_
    · rintro m hm rfl
      obtain ⟨⟨comps, hcomps, _⟩, _⟩ := hnews m hm
      simp [hdead] at hcomps
    · exact h.gone c (hlisted c ▸ hc) (hr.attached hw (hentity c) hattached) e' hborn
        ((hr.alive e' hborn).mp hdead)
  · -- the news are of no character
    refine hold c e' ?_ fun hborn => ?_
    · rintro m hm rfl
      obtain ⟨⟨comps', hcomps', _, hchar'⟩, _⟩ := hnews m hm
      obtain rfl := Option.some.inj (hcomps.symm.trans hcomps')
      simp [hchar] at hchar'
    · obtain ⟨comps', hcomps', hchar'⟩ := hr.character e' comps hborn hcomps hchar
      exact h.offMap c (hlisted c ▸ hc) (hr.waits hw (hentity c) hwaiting) e' comps' hcomps' hchar'

end Change

/-- A change that nobody is told of. -/
theorem World.View.discreet (hw : w.Bound) (h : w.View due commands) {r : Registry}
    (hr : Discreet w.registry r none commands) : (w.withRegistry r).View due commands :=
  h.change hw hr (fun _ => rfl) (fun _ => rfl) (fun _ hm => absurd hm (by simp))
    (fun _ _ _ => rfl)

/-- A change that everyone is told of. -/
theorem World.View.appear (hw : w.Bound) (h : w.View due commands) {r : Registry} {m : Message}
    (hr : Discreet w.registry r (some m) commands) {comps : Components}
    (hcomps : r.components m.about = some comps) (hm : shownAs m.about comps = some m)
    (hchar : comps.character = false) :
    ((w.withRegistry r).tell w.everyone m).View due commands := by
  refine h.change hw hr (fun _ => tell_listed) (fun _ => tell_entity) ?_ ?_
  · rintro m' hm'
    obtain rfl := Option.some.inj hm'
    exact ⟨⟨comps, hcomps, hm, hchar⟩, fun c hc => tell_last_self hc⟩
  · exact fun c e hne => tell_last_of_ne (w := w.withRegistry r) (hne m rfl)

/-- Other commands, where nothing changes for an entity that is there. -/
theorem World.View.of_commands {due' commands' : List Delete} (h : w.View due commands)
    (hdue : ∀ e, w.registry.components e ≠ none → .destroy e ∈ due → .destroy e ∈ due')
    (hcommands : ∀ e, w.registry.components e ≠ none → .destroy e ∈ commands →
      .destroy e ∈ commands') : w.View due' commands' where
  shown := h.shown
  gone := fun c hc hattached => h.gone c hc fun e he => by
    obtain ⟨halive, hmap⟩ := hattached e he
    exact ⟨halive, hmap.imp_right fun hnot hmem => hnot (hdue e halive hmem)⟩
  offMap := fun c hc hwaiting => h.offMap c hc fun e he => by
    obtain ⟨halive, hmap, hnot⟩ := hwaiting e he
    exact ⟨halive, hmap, fun hmem => hnot (hcommands e halive hmem)⟩

/-- An entity goes, and everyone is told who may have heard of it and stays. -/
theorem World.View.vanish (h : w.View due commands) {r : Registry} {e : Entity}
    {audience : ℕ → Bool} (hcomponents : r.components = update w.registry.components e none)
    (hcreated : r.created = w.registry.created) (halive : w.registry.components e ≠ none)
    (haudience : ∀ c, (w.clients c).listed = true → (w.clients c).entity ≠ some e →
      w.Attached due c → audience c = true ∨ (w.clients c).Hidden e) :
    ((w.tell audience (.removeObject e)).withRegistry r).View due commands := by
  let w' := (w.tell audience (.removeObject e)).withRegistry r
  have hold : ∀ {e'}, e' ≠ e → r.components e' = w.registry.components e' := fun he => by
    rw [hcomponents, update_of_ne he]
  have hgone : ∀ {e' : Entity}, r.components e' ≠ none → e' ≠ e := by
    rintro e' hne rfl
    exact hne (by rw [hcomponents, update_self])
  have hmap : ∀ {e'}, e' ≠ e → w'.isOnMap e' = w.isOnMap e' := fun he =>
    congrArg (Option.any Components.isOnMap) (hold he)
  refine ⟨fun c e₁ hc he₁ hon e' comps m hne hcomps hm => ?_,
    fun c hc hattached e' he' hdead => ?_, fun c hc hwaiting e' comps hcomps hchar => ?_⟩
  · rw [show (w'.clients c).listed = (w.clients c).listed from tell_listed] at hc
    rw [show (w'.clients c).entity = (w.clients c).entity from tell_entity] at he₁
    -- the client has another entity: its own is still on the map
    have he₁' : e₁ ≠ e := hgone fun hnone => by simp [World.isOnMap, withRegistry, hnone] at hon
    have he' : e' ≠ e := hgone (by rw [show r.components e' = _ from hcomps]; simp)
    rw [hmap he₁'] at hon
    rw [← h.shown c e₁ hc he₁ hon e' comps m hne ((hold he').symm.trans hcomps) hm]
    exact tell_last_of_ne (m := .removeObject e) (Ne.symm he')
  · rw [show (w'.clients c).listed = (w.clients c).listed from tell_listed] at hc
    have hne : (w.clients c).entity ≠ some e := by
      intro he
      exact hgone (hattached e (tell_entity.trans he)).1 rfl
    have hattached' : w.Attached due c := by
      intro e₁ he₁
      obtain ⟨halive₁, hor⟩ := hattached e₁ (tell_entity.trans he₁)
      have hne₁ := hgone halive₁
      rw [hmap hne₁] at hor
      exact ⟨fun hnone => halive₁ ((hold hne₁).trans hnone), hor⟩
    -- either it is what goes now, or it was gone before
    by_cases he : e' = e
    · subst he
      exact (haudience c hc hne hattached').elim hidden_of_told (·.tell_removeObject e')
    · have hhidden := h.gone c hc hattached' e' (hcreated ▸ he') ((hold he).symm.trans hdead)
      exact hhidden.tell_removeObject e
  · rw [show (w'.clients c).listed = (w.clients c).listed from tell_listed] at hc
    have he : e' ≠ e := hgone (by rw [show r.components e' = _ from hcomps]; simp)
    have hhidden := h.offMap c hc (fun e₁ he₁ => ?_) e' comps ((hold he).symm.trans hcomps) hchar
    · exact hhidden.tell_removeObject e
    obtain ⟨halive₁, hoff, hnot⟩ := hwaiting e₁ (tell_entity.trans he₁)
    have hne₁ := hgone halive₁
    exact ⟨fun hnone => halive₁ ((hold hne₁).trans hnone), (hmap hne₁).symm.trans hoff, hnot⟩

/-- A client changes: it is new, or has an entity now that is not on the map. -/
theorem World.View.setClient (h : w.View due commands) {c : ℕ} {cl : Client}
    (hcl : cl.listed = true → cl.heard = [] ∧ cl.entity = none ∨
      (w.clients c).listed = true ∧ cl.heard = (w.clients c).heard ∧
        (cl.entity = (w.clients c).entity ∨
          (w.clients c).entity = none ∧ ∀ e, cl.entity = some e → w.isOnMap e = false)) :
    (w.setClient c cl).View due commands := by
  have hself : (w.setClient c cl).clients c = cl := setClient_self cl
  have hhidden : ∀ {e}, cl.heard = [] → cl.Hidden e := fun hnil m hm => by
    simp [Client.last, hnil] at hm
  have hsame : ∀ {e}, cl.heard = (w.clients c).heard → cl.last e = (w.clients c).last e :=
    fun hheard => by rw [Client.last, hheard, ← Client.last]
  refine ⟨fun c' e hc he hon e' comps m hne hcomps hm => ?_, fun c' hc hattached e' he' hdead => ?_,
    fun c' hc hwaiting e' comps hcomps hchar => ?_⟩ <;> by_cases hcc : c' = c
  · subst hcc
    rw [hself] at hc he ⊢
    -- a new client has no entity, and a new entity is not on the map
    obtain ⟨_, hnone⟩ | ⟨hlisted, hheard, hentity | ⟨_, hoff⟩⟩ := hcl hc
    · simp [hnone] at he
    · rw [hsame hheard]
      exact h.shown c' e hlisted (hentity.symm.trans he) hon e' comps m hne hcomps hm
    · exact absurd ((hoff e he).symm.trans hon) (by decide)
  · rw [setClient_of_ne hcc] at hc he ⊢
    exact h.shown c' e hc he hon e' comps m hne hcomps hm
  · subst hcc
    rw [hself] at hc ⊢
    obtain ⟨hnil, _⟩ | ⟨hlisted, hheard, hentity⟩ := hcl hc
    · exact hhidden hnil
    · intro m hm
      refine h.gone c' hlisted (fun e he => ?_) e' he' hdead m ((hsame hheard).symm.trans hm)
      -- who had no entity heard of what went
      obtain hentity | ⟨hnone, _⟩ := hentity
      · exact hattached e ((congrArg Client.entity hself).trans (hentity.trans he))
      · simp [hnone] at he
  · rw [setClient_of_ne hcc] at hc ⊢
    refine h.gone c' hc (fun e he => hattached e ?_) e' he' hdead
    rw [setClient_of_ne hcc, he]
  · subst hcc
    rw [hself] at hc ⊢
    obtain ⟨hnil, _⟩ | ⟨hlisted, hheard, hentity⟩ := hcl hc
    · exact hhidden hnil
    · intro m hm
      refine h.offMap c' hlisted (fun e he => ?_) e' comps hcomps hchar m
        ((hsame hheard).symm.trans hm)
      obtain hentity | ⟨hnone, _⟩ := hentity
      · exact hwaiting e ((congrArg Client.entity hself).trans (hentity.trans he))
      · simp [hnone] at he
  · rw [setClient_of_ne hcc] at hc ⊢
    refine h.offMap c' hc (fun e he => hwaiting e ?_) e' comps hcomps hchar
    rw [setClient_of_ne hcc, he]

end Quiet

end OsIrose.Views

/-
What is kept of a character that has switched to another map server.

`MovementSystem::teleport` saves the character and the other server loads it, while its
entity stays here until the client disconnects. `CMapClient::HandlePacket` refuses the
packets of a client that is switching, but those that were queued before are dispatched
after it, and nobody saves the character again. The two servers agree on a character as
long as what is dispatched is harmless (`settled_of_keeps`).
-/
import OsIrose.Keeping
import OsIrose.Lifecycle

set_option autoImplicit false

namespace OsIrose.MapServer

open Function Inventory Characters Database Runs
open Movement (Position Destination)
open MapClient (LoginState CliJoinServerReq)

variable {K D : Type*} [Field K] [LinearOrder K] [FloorSemiring K]

/-! ## What may happen after a switch -/

section Keeps

omit [FloorSemiring K]

/-- No other entity that was saved has the character of `e`. -/
def World.Alone (w : World K D) (e : Entity) : Prop :=
  ∀ x ∈ w.saved, x ≠ e → ∀ comps comps', w.es.components x = some comps →
    w.es.components e = some comps' → comps.character ≠ comps'.character

/-- A step that changes nothing kept of an entity that has switched: neither by a packet or
a tick, nor by saving another entity of the same character. -/
def World.Keeps (env : Env K) (w : World K D) : Event K → Prop
  | .dispatchFront => ∀ e comps pos items packet, w.Served e comps packet →
      comps.position = some pos → comps.inventory = some items →
        (e ∈ w.saved → Harmless env pos items packet) ∧ (Switches pos packet → w.Alone e)
  | .tick e dt runSpeed gate => ∀ comps pos dest, w.Walking e comps pos dest →
      (e ∈ w.saved → Rests env pos dest dt runSpeed (w.getClient e).isSome gate) ∧
        ∀ warp, gate = some warp → w.getClient e ≠ none → pos.map ≠ warp.dist → w.Alone e
  -- the entities that are destroyed in this update do not count
  | .deleteCommands => ∀ e x comps comps', w.ToSave e → x ∈ w.saved →
      (∀ save, (x, save) ∉ w.es.deleteCommands) → w.es.components x = some comps →
        w.es.components e = some comps' → comps.character ≠ comps'.character
  | _ => True

end Keeps

/-! ## The tables and the entities agree -/

section Settled

omit [Field K] [LinearOrder K] [FloorSemiring K]

/-- The tables hold what is to be kept of the entity. -/
def World.Synced (w : World K D) (comps : Components K D) : Prop :=
  ∃ charId k, comps.character = some charId ∧ comps.kept = some k ∧
    w.tables.load charId = some k

/-- What was saved and is still there stays as it is, here and in the tables; what is saved
now is in the tables. -/
structure Settled (w w' : World K D) : Prop where
  saved : ∀ e ∈ w.saved, e ∈ w'.saved
  old : ∀ e ∈ w.saved, ∀ comps', w'.es.components e = some comps' →
    ∃ comps, w.es.components e = some comps ∧ comps'.kept = comps.kept ∧
      comps'.character = comps.character ∧
        ∀ charId, comps.character = some charId → w'.tables.load charId = w.tables.load charId
  new : ∀ e ∈ w'.saved, e ∉ w.saved → ∀ comps', w'.es.components e = some comps' →
    w'.Synced comps'

namespace Settled

variable {w w' w'' : World K D}

/-- A step that saves nothing. -/
theorem of_tables (hsaved : w'.saved = w.saved) (htables : w'.tables = w.tables)
    (hcomponents : ∀ e ∈ w.saved, ∀ comps', w'.es.components e = some comps' →
      ∃ comps, w.es.components e = some comps ∧ comps'.kept = comps.kept ∧
        comps'.character = comps.character) : Settled w w' where
  saved e he := hsaved ▸ he
  old e he comps' hcomps' := by
    obtain ⟨comps, hcomps, hkept, hcharacter⟩ := hcomponents e he comps' hcomps'
    exact ⟨comps, hcomps, hkept, hcharacter, fun charId _ => by rw [htables]⟩
  new e he he' := absurd (hsaved ▸ he) he'

theorem of_same (hsaved : w'.saved = w.saved) (htables : w'.tables = w.tables)
    (hcomponents : ∀ e ∈ w.saved, w'.es.components e = w.es.components e) : Settled w w' :=
  of_tables hsaved htables fun e he comps' hcomps' =>
    ⟨comps', hcomponents e he ▸ hcomps', rfl, rfl⟩

theorem quiet (h : Quiet w w') : Settled w w' :=
  of_same h.saved h.tables fun e _ => by rw [h.components]

theorem refl (w : World K D) : Settled w w :=
  of_same rfl rfl fun _ _ => rfl

theorem trans (h : Settled w w') (h' : Settled w' w'') : Settled w w'' where
  saved e he := h'.saved e (h.saved e he)
  old e he comps'' hcomps'' := by
    obtain ⟨comps', hcomps', hkept', hcharacter', hload'⟩ :=
      h'.old e (h.saved e he) comps'' hcomps''
    obtain ⟨comps, hcomps, hkept, hcharacter, hload⟩ := h.old e he comps' hcomps'
    refine ⟨comps, hcomps, hkept'.trans hkept, hcharacter'.trans hcharacter, fun charId hchar => ?_⟩
    exact (hload' charId (hcharacter.trans hchar)).trans (hload charId hchar)
  new e he he₀ comps'' hcomps'' := by
    by_cases he' : e ∈ w'.saved
    · obtain ⟨comps', hcomps', hkept, hcharacter, hload⟩ := h'.old e he' comps'' hcomps''
      obtain ⟨charId, k, hchar, hk, hsynced⟩ := h.new e he' he₀ comps' hcomps'
      exact ⟨charId, k, hcharacter.trans hchar, hkept.trans hk, (hload charId hchar).trans hsynced⟩
    · exact h'.new e he he' comps'' hcomps''

end Settled

/-- The server and the tables agree on every entity that was saved and is still there, and
the entity of a client that switches was saved. -/
structure Agrees (w : World K D) : Prop where
  synced : ∀ e ∈ w.saved, ∀ comps, w.es.components e = some comps → w.Synced comps
  switching : ∀ c e, (w.clients c).entity = some e → (w.clients c).loginState = .SWITCHING →
    e ∈ w.saved

theorem Agrees.start (accounts : Accounts) (sessions : Sessions) (tables : Tables K D) :
    Agrees (MapServer.start accounts sessions tables) where
  synced _ h := absurd h List.not_mem_nil
  switching _ _ h := by cases h

theorem Settled.synced {w w' : World K D} (h : Settled w w')
    (hsynced : ∀ e ∈ w.saved, ∀ comps, w.es.components e = some comps → w.Synced comps) :
    ∀ e ∈ w'.saved, ∀ comps, w'.es.components e = some comps → w'.Synced comps := by
  intro e he comps' hcomps'
  by_cases he₀ : e ∈ w.saved
  · obtain ⟨comps, hcomps, hkept, hcharacter, hload⟩ := h.old e he₀ comps' hcomps'
    obtain ⟨charId, k, hchar, hk, hk'⟩ := hsynced e he₀ comps hcomps
    exact ⟨charId, k, hcharacter.trans hchar, hkept.trans hk, (hload charId hchar).trans hk'⟩
  · exact h.new e he he₀ comps' hcomps'

/-- The entity that is saved. -/
theorem perform_of_switches {w : World K D} (env : Env K) {e : Entity} (c : ℕ) {eff : Effect K D}
    (hlt : e < w.es.created) (hswitches : eff.switches = true) (hwhole : eff.components.Whole) :
    ∃ charId pos rest items, eff.components.character = some charId ∧
      eff.components.kept = some (keep pos rest items) ∧
      (w.perform env e c eff).tables = w.tables.saveCharacter charId pos rest items ∧
      (w.perform env e c eff).saved = e :: w.saved := by
  have hcomps := @World.perform_self _ _ w env e c eff hlt
  simp only [World.perform, hswitches, if_true] at hcomps ⊢
  rw [World.saveCharacter_es] at hcomps
  obtain ⟨charId, pos, rest, items, hcharacter, hpos, hrest, hitems, hsave⟩ :=
    World.saveCharacter_of_whole hcomps hwhole
  rw [hsave]
  exact ⟨charId, pos, rest, items, hcharacter, Components.kept_of_some hpos hrest hitems, rfl, rfl⟩

/-- What a handler does, if it changes nothing kept of what was saved. -/
theorem Settled.perform {w : World K D} (hinv : Inv w) {env : Env K} {e : Entity} {c : ℕ}
    {eff : Effect K D} {comps : Components K D} (hcomps : w.es.components e = some comps)
    (hsame : SameCharacter comps eff.components)
    (hkept : e ∈ w.saved → eff.components.kept = comps.kept ∧ eff.switches = false)
    (hswitches : eff.switches = true → (w.clients c).entity = some e ∧ w.Alone e) :
    Settled w (w.perform env e c eff) := by
  have hlt := hinv.fresh.lt hcomps
  have hself := @World.perform_self _ _ w env e c eff hlt
  have hcomponents : ∀ x ∈ w.saved, ∀ comps',
      (w.perform env e c eff).es.components x = some comps' →
        ∃ comps, w.es.components x = some comps ∧ comps'.kept = comps.kept ∧
          comps'.character = comps.character := by
    intro x hx comps' hcomps'
    by_cases hxe : x = e
    · subst hxe
      obtain rfl := Option.some.inj (hself.symm.trans hcomps')
      exact ⟨comps, hcomps, (hkept hx).1, hsame.character⟩
    · rw [World.perform_of_ne hxe (hinv.saved x hx)] at hcomps'
      exact ⟨comps', hcomps', rfl, rfl⟩
  cases hs : eff.switches with
  | false =>
      refine of_tables ?_ ?_ hcomponents
      · simp [World.perform, hs]
      · simp [World.perform, hs]
  | true =>
      obtain ⟨hclient, halone⟩ := hswitches hs
      have hwhole := hsame.whole (hinv.whole c e comps hclient hcomps)
      obtain ⟨charId, pos, rest, items, hcharacter, hk, htables, hsaved⟩ :=
        perform_of_switches env c hlt hs hwhole
      have hcharacter' : comps.character = some charId := hsame.character ▸ hcharacter
      have hrow := hinv.row c e comps charId hclient hcomps hcharacter'
      -- the entity was not saved before
      have hnew : e ∉ w.saved := fun he => by
        rw [(hkept he).2] at hs
        cases hs
      refine
        { saved := fun x hx => hsaved ▸ List.mem_cons_of_mem e hx
          old := fun x hx comps' hcomps' => ?_
          new := fun x hx hx' comps' hcomps' => ?_ }
      · obtain ⟨comps₀, hcomps₀, hkept₀, hcharacter₀⟩ := hcomponents x hx comps' hcomps'
        refine ⟨comps₀, hcomps₀, hkept₀, hcharacter₀, fun charId' hchar => ?_⟩
        have hne := halone x hx (fun h => hnew (h ▸ hx)) comps₀ comps hcomps₀ hcomps
        rw [hchar, hcharacter', Ne, Option.some.injEq] at hne
        rw [htables, load_saveCharacter_of_ne pos rest items hne]
      · obtain rfl : x = e := by
          rw [hsaved, List.mem_cons] at hx
          exact hx.resolve_right hx'
        obtain rfl := Option.some.inj (hself.symm.trans hcomps')
        refine ⟨charId, keep pos rest items, hcharacter, hk, ?_⟩
        rw [htables, load_saveCharacter pos rest items hrow]

end Settled

/-! ## The end of an update -/

section DeleteCommands

omit [Field K] [LinearOrder K] [FloorSemiring K]

variable {w : World K D}

theorem runDeleteCommand_self (w : World K D) (x : Entity × Bool) :
    (w.runDeleteCommand x).es.components x.1 = none := by
  rw [World.runDeleteCommand]
  split
  · assumption
  · exact EntitySystem.destroyEntity_self _ _

theorem runDeleteCommand_old {x : Entity × Bool} {e : Entity} {comps : Components K D}
    (h : (w.runDeleteCommand x).es.components e = some comps) :
    e ≠ x.1 ∧ w.es.components e = some comps := by
  have hne : e ≠ x.1 := fun heq => by
    rw [heq, runDeleteCommand_self] at h
    cases h
  exact ⟨hne, runDeleteCommand_of_ne hne ▸ h⟩

theorem runDeleteCommands_old {xs : List (Entity × Bool)} {e : Entity} {comps : Components K D}
    (h : (xs.foldl World.runDeleteCommand w).es.components e = some comps) :
    (∀ save, (e, save) ∉ xs) ∧ w.es.components e = some comps := by
  induction xs generalizing w with
  | nil => exact ⟨fun _ => List.not_mem_nil, h⟩
  | cons x xs ih =>
      obtain ⟨hxs, hcomps⟩ := ih h
      obtain ⟨hne, hcomps⟩ := runDeleteCommand_old hcomps
      refine ⟨fun save hmem => ?_, hcomps⟩
      rcases List.mem_cons.mp hmem with heq | hmem
      · exact hne (by rw [← heq])
      · exact hxs save hmem

theorem runDeleteCommands_saved {xs : List (Entity × Bool)} {e : Entity}
    (h : e ∈ (xs.foldl World.runDeleteCommand w).saved) : e ∈ w.saved ∨ (e, true) ∈ xs := by
  induction xs generalizing w with
  | nil => exact .inl h
  | cons x xs ih =>
      rcases ih h with h | h
      · rcases runDeleteCommand_saved w x with hsaved | ⟨hsave, hsaved⟩
        · exact .inl (hsaved ▸ h)
        · rw [hsaved, List.mem_cons] at h
          refine h.symm.imp_right fun heq => List.mem_cons.mpr (.inl ?_)
          rw [heq, ← hsave]
      · exact .inr (List.mem_cons_of_mem x h)

/-- A delete command that saves another character. -/
theorem runDeleteCommand_load {x : Entity × Bool} {charId : ℕ}
    (h : x.2 = true → ∀ comps, w.es.components x.1 = some comps → comps.character ≠ some charId) :
    (w.runDeleteCommand x).tables.load charId = w.tables.load charId := by
  rw [World.runDeleteCommand]
  split
  · rfl
  rename_i comps hcomps
  cases hsave : x.2 with
  | false => rfl
  | true =>
      have hne := h hsave comps hcomps
      simp only [if_true, World.saveCharacter]
      split
      · rename_i heq
        obtain rfl := Option.some.inj (hcomps.symm.trans heq)
        exact load_saveCharacter_of_ne _ _ _ fun heq => hne (by rw [heq])
      · rfl

theorem runDeleteCommands_load {xs : List (Entity × Bool)} {charId : ℕ}
    (h : ∀ e, (e, true) ∈ xs → ∀ comps, w.es.components e = some comps →
      comps.character ≠ some charId) :
    (xs.foldl World.runDeleteCommand w).tables.load charId = w.tables.load charId := by
  induction xs generalizing w with
  | nil => rfl
  | cons x xs ih =>
      rw [List.foldl_cons, ih fun e he comps hcomps => ?_]
      · refine runDeleteCommand_load fun hsave comps hcomps => ?_
        exact h x.1 (List.mem_cons.mpr (.inl (by rw [← hsave]))) comps hcomps
      · exact h e (List.mem_cons_of_mem x he) comps (runDeleteCommand_old hcomps).2

theorem runDeleteCommands_mem_saved {xs : List (Entity × Bool)} {e : Entity} (h : e ∈ w.saved) :
    e ∈ (xs.foldl World.runDeleteCommand w).saved := by
  induction xs generalizing w with
  | nil => exact h
  | cons x xs ih =>
      refine ih ?_
      rcases runDeleteCommand_saved w x with hsaved | ⟨-, hsaved⟩
      · rwa [hsaved]
      · exact hsaved ▸ List.mem_cons_of_mem x.1 h

end DeleteCommands

/-! ## One step -/

section Steps

variable {w : World K D} {env : Env K}

omit [FloorSemiring K] in
theorem settled_runDeleteCommands (hkeeps : w.Keeps env .deleteCommands) :
    Settled w w.runDeleteCommands where
  saved e he := runDeleteCommands_mem_saved he
  old e he comps' hcomps' := by
    obtain ⟨hcommands, hcomps⟩ := runDeleteCommands_old hcomps'
    refine ⟨comps', hcomps, rfl, rfl, fun charId hchar => ?_⟩
    refine runDeleteCommands_load fun x hx comps hcomps₀ hsame => ?_
    exact hkeeps x e comps' comps hx he hcommands hcomps hcomps₀ (hchar.trans hsame.symm)
  new e he he' comps' hcomps' := by
    have hcommand := (runDeleteCommands_saved he).resolve_left he'
    exact absurd hcommand ((runDeleteCommands_old hcomps').1 true)

omit [FloorSemiring K] in
/-- A harmless packet takes nobody away. -/
theorem not_switches_of_harmless {pos : Position K} {items : Items} {packet : Packet K}
    (h : Harmless env pos items packet) : ¬ Switches pos packet := by
  cases packet with
  | normalChat message =>
      cases message with
      | tp mapId x y =>
          rintro ⟨hzero, hmap⟩
          obtain ⟨hm, hxy⟩ := not_or.mp hzero
          obtain ⟨hx, hy⟩ := not_or.mp hxy
          exact hmap (h hm hx hy).1
      | item | chat => exact id
  | changeMapReq | mouseCmd | stopMoving | equipItem | dropItem | other => exact id

omit [Field K] [LinearOrder K] [FloorSemiring K] in
theorem Components.Whole.exists {comps : Components K D} (h : comps.Whole) :
    ∃ pos basic rest items, comps.position = some pos ∧ comps.basic = some basic ∧
      comps.rest = some rest ∧ comps.inventory = some items := by
  obtain ⟨pos, hpos⟩ := Option.ne_none_iff_exists'.mp h.position
  obtain ⟨basic, hbasic⟩ := Option.ne_none_iff_exists'.mp h.basic
  obtain ⟨rest, hrest⟩ := Option.ne_none_iff_exists'.mp h.rest
  obtain ⟨items, hitems⟩ := Option.ne_none_iff_exists'.mp h.inventory
  exact ⟨pos, basic, rest, items, hpos, hbasic, hrest, hitems⟩

theorem settled_handled (hinv : Inv w) {e : Entity} {comps : Components K D} {packet : Packet K}
    {c : ℕ} (rest : List (Entity × Packet K)) (hserved : w.Served e comps packet)
    (hclient : w.getClient e = some c) (hkeeps : w.Keeps env .dispatchFront) :
    Settled w ((w.withQueue rest w.es.dispatchers).perform env e c (handle env comps packet)) := by
  have hentity := hinv.entity_of_getClient hclient
  obtain ⟨pos, basic, rest', items, hpos, hbasic, hrest, hitems⟩ :=
    (hinv.whole c e comps hentity hserved.components).exists
  obtain ⟨hharmless, halone⟩ := hkeeps e comps pos items packet hserved hpos hitems
  have hswitches : (handle env comps packet).switches = true → Switches pos packet := fun h => by
    obtain ⟨pos', hpos', hswitches⟩ := handle_switches h
    rwa [Option.some.inj (hpos.symm.trans hpos')]
  have hqueue := Quiet.withQueue w rest w.es.dispatchers
  have hinv' := hinv.evolves (hqueue.evolves hinv.fresh)
  refine (Settled.quiet hqueue).trans (Settled.perform hinv' hserved.components
    (handle_sameCharacter env comps packet) (fun he => ?_)
    (fun hs => ⟨hentity, halone (hswitches hs)⟩))
  have hpacket := hharmless he
  refine ⟨(kept_handle_iff env hbasic hpos hrest hitems packet).mpr hpacket, ?_⟩
  exact Bool.eq_false_iff.mpr fun hs => not_switches_of_harmless hpacket (hswitches hs)

theorem settled_walked (hinv : Inv w) (hagrees : Agrees w) {e : Entity} {comps : Components K D}
    {pos : Position K} {dest : Destination K} {dt : K} {runSpeed : ℕ}
    {gate : Option (Destination K)} (hwalking : w.Walking e comps pos dest)
    (hkeeps : w.Keeps env (.tick e dt runSpeed gate)) :
    Settled w (w.perform env e ((w.getClient e).getD 0)
      (walkEffect env comps pos dest dt runSpeed gate (w.getClient e).isSome)) := by
  have hcomps := hwalking.components
  have hpos := hwalking.position
  obtain ⟨hrests, halone⟩ := hkeeps comps pos dest hwalking
  refine Settled.perform hinv hcomps (walkEffect_sameCharacter env hpos dest dt runSpeed gate _)
    (fun he => ?_) (fun hs => ?_)
  · have hrests' := hrests he
    obtain ⟨charId, k, -, hk, -⟩ := hagrees.synced e he comps hcomps
    obtain ⟨pos', rest, items, hpos', hrest, hitems⟩ := Components.exists_of_kept hk
    refine ⟨kept_walkEffect_of_rests env hpos hrest hitems dest dt runSpeed gate _ hrests', ?_⟩
    refine Bool.eq_false_iff.mpr fun hs => ?_
    obtain ⟨hclient, warp, rfl, hmap⟩ := walkEffect_switches hs
    exact hmap (hrests'.2.2 hclient)
  · obtain ⟨hclient, warp, hgate, hmap⟩ := walkEffect_switches hs
    have hsome : w.getClient e ≠ none := Option.isSome_iff_ne_none.mp hclient
    exact ⟨hinv.entity_of_isSome hclient, halone warp hgate hsome hmap⟩

omit [Field K] [LinearOrder K] [FloorSemiring K] in
theorem settled_destroy (w : World K D) (entity : Option Entity) (save : Bool) :
    Settled w (w.destroy entity save) := by
  unfold World.destroy
  split
  · exact Settled.refl w
  rename_i e
  split
  · exact Settled.refl w
  rename_i comps hcomps
  split
  · exact Settled.refl w
  split
  · exact Settled.refl w
  · refine Settled.of_tables rfl rfl fun x _ comps' hcomps' => ?_
    by_cases hxe : x = e
    · subst hxe
      obtain rfl := Option.some.inj ((w.es.assign_self x _).symm.trans hcomps')
      exact ⟨comps, hcomps, rfl, rfl⟩
    · exact ⟨comps', (w.es.assign_of_ne hxe _).symm.trans hcomps', rfl, rfl⟩

omit [Field K] [LinearOrder K] [FloorSemiring K] in
theorem settled_join (hinv : Inv w) (faults : Faults) (c : ℕ) (P : CliJoinServerReq) :
    Settled w (w.joinServerReply env faults c P).1 := by
  have hframe := joinServerReply_frame w env faults c P
  refine Settled.of_same hframe.saved hframe.tables fun e he => ?_
  have hne := (hinv.saved e he).ne
  cases joinServerReply_result w env faults c P with
  | refused es => rw [es]
  | failed es =>
      rcases es with es | es
      · rw [es]
      · exact es.components e hne
  | loaded _ _ _ others => exact others e hne

omit [Field K] [LinearOrder K] [FloorSemiring K] in
theorem settled_onDisconnected (w : World K D) (c : ℕ) : Settled w (w.onDisconnected c) := by
  simp only [World.onDisconnected]
  split
  · exact Settled.of_same rfl rfl fun _ _ => rfl
  · exact (settled_destroy w _ _).trans (Settled.of_same rfl rfl fun _ _ => rfl)

theorem settled_next (hinv : Inv w) (hagrees : Agrees w) {ev : Event K} (hkeeps : w.Keeps env ev) :
    Settled w (next env w ev) := by
  have hhappens := next_happens env w ev
  generalize next env w ev = w' at hhappens ⊢
  cases hhappens with
  | quiet hquiet => exact Settled.quiet hquiet
  | joined => exact settled_join hinv _ _ _
  | disconnected => exact settled_onDisconnected w _
  | @handled e comps packet c rest hserved hclient =>
      exact settled_handled hinv rest hserved hclient hkeeps
  | walked hwalking => exact settled_walked hinv hagrees hwalking hkeeps
  | deleted => exact settled_runDeleteCommands hkeeps

end Steps

/-! ## The clients that switch -/

section Switching

variable {w : World K D} {env : Env K}

omit [Field K] [LinearOrder K] [FloorSemiring K] in
theorem switching_perform (hinv : Inv w) (hagrees : Agrees w) {e : Entity} {c : ℕ}
    {eff : Effect K D} {comps : Components K D} (hcomps : w.es.components e = some comps)
    (hsame : SameCharacter comps eff.components)
    (hswitches : eff.switches = true → (w.clients c).entity = some e) (c' : ℕ) (x : Entity)
    (hx : ((w.perform env e c eff).clients c').entity = some x)
    (hstate : ((w.perform env e c eff).clients c').loginState = .SWITCHING) :
    x ∈ (w.perform env e c eff).saved := by
  rw [World.perform_clients] at hx hstate
  split at hx
  · rename_i hs
    obtain ⟨hs, rfl⟩ := hs
    have hclient := hswitches hs
    have hwhole := hsame.whole (hinv.whole c' e comps hclient hcomps)
    obtain ⟨_, _, _, _, -, -, -, hsaved⟩ :=
      perform_of_switches env c' (hinv.fresh.lt hcomps) hs hwhole
    obtain rfl := Option.some.inj (hclient.symm.trans hx)
    rw [hsaved]
    exact List.mem_cons_self
  · rename_i hs
    rw [if_neg hs] at hstate
    have hmem := hagrees.switching c' x hx hstate
    rcases perform_saved w env e c eff with h | ⟨-, h⟩
    · rwa [h]
    · exact h ▸ List.mem_cons_of_mem e hmem

omit [Field K] [LinearOrder K] [FloorSemiring K] in
/-- A step that lets no client switch. -/
theorem switching_of_clients {w' : World K D} (hagrees : Agrees w)
    (hsaved : ∀ e ∈ w.saved, e ∈ w'.saved)
    (hclients : ∀ c, (w'.clients c).loginState = .SWITCHING →
      (w.clients c).loginState = .SWITCHING ∧ (w'.clients c).entity = (w.clients c).entity)
    (c : ℕ) (e : Entity) (he : (w'.clients c).entity = some e)
    (hstate : (w'.clients c).loginState = .SWITCHING) : e ∈ w'.saved := by
  obtain ⟨hstate₀, hentity⟩ := hclients c hstate
  exact hsaved e (hagrees.switching c e (hentity ▸ he) hstate₀)

theorem switching_next (hinv : Inv w) (hagrees : Agrees w) {ev : Event K}
    (hsettled : Settled w (next env w ev)) (c : ℕ) (e : Entity)
    (he : ((next env w ev).clients c).entity = some e)
    (hstate : ((next env w ev).clients c).loginState = .SWITCHING) :
    e ∈ (next env w ev).saved := by
  have hhappens := next_happens env w ev
  generalize next env w ev = w' at hhappens hsettled he hstate ⊢
  have hclients := switching_of_clients hagrees hsettled.saved
  cases hhappens with
  | quiet hquiet =>
      refine hclients (fun c hc => ⟨?_, hquiet.entity c⟩) c e he hstate
      rwa [← hquiet.loginState]
  | @joined c₀ P faults =>
      refine hclients (fun c => ?_) c e he hstate
      by_cases hc : c = c₀
      · subst hc
        cases joinServerReply_result w env faults c P with
        | refused _ state entity => exact fun h => ⟨state ▸ h, entity⟩
        | failed _ _ state' | loaded _ _ _ _ _ _ state' =>
            rw [state']
            exact fun h => by cases h
      · rw [(joinServerReply_frame w env faults c₀ P).others c hc]
        exact fun h => ⟨h, rfl⟩
  | @disconnected c₀ =>
      refine hclients (fun c => ?_) c e he hstate
      obtain ⟨⟨hself, -⟩, hothers⟩ := World.onDisconnected_clients w c₀
      by_cases hc : c = c₀
      · rw [hc, hself]
        exact fun h => by cases h
      · rw [hothers c hc]
        exact fun h => ⟨h, rfl⟩
  | @handled e₀ comps packet c₀ rest hserved hclient =>
      have hqueue := Quiet.withQueue w rest w.es.dispatchers
      have hinv' := hinv.evolves (hqueue.evolves hinv.fresh)
      have hagrees' : Agrees (w.withQueue rest w.es.dispatchers) :=
        ⟨hagrees.synced, hagrees.switching⟩
      exact switching_perform hinv' hagrees' hserved.components
        (handle_sameCharacter env comps packet) (fun _ => hinv.entity_of_getClient hclient) c e he
        hstate
  | walked hwalking =>
      exact switching_perform hinv hagrees hwalking.components
        (walkEffect_sameCharacter env hwalking.position _ _ _ _ _)
        (fun hs => hinv.entity_of_isSome (walkEffect_switches hs).1) c e he hstate
  | deleted =>
      refine hclients (fun c => ?_) c e he hstate
      rw [runDeleteCommands_clients]
      exact fun h => ⟨h, rfl⟩

end Switching

/-! ## Runs -/

/-- What runs keep, and that they leave alone what was saved. -/
theorem keeps_run {env : Env K} {w w' : World K D} {evs : List (Event K)} (hinv : Inv w)
    (hagrees : Agrees w) (h : Run (Guarded (World.Keeps env) (Step env)) w evs w') :
    Inv w' ∧ Agrees w' ∧ Settled w w' := by
  induction h with
  | nil => exact ⟨hinv, hagrees, Settled.refl w⟩
  | @snoc evs w' w'' ev _ hlast ih =>
      obtain ⟨hinv', hagrees', hsettled⟩ := ih
      obtain ⟨hkeeps, rfl⟩ := hlast
      have hstep := settled_next hinv' hagrees' hkeeps
      refine ⟨inv_next env hinv' ev, ?_, hsettled.trans hstep⟩
      exact ⟨hstep.synced hagrees'.synced, switching_next hinv' hagrees' hstep⟩

/-! ## Two packets -/

omit [FloorSemiring K] in
/-- Before the first switch every step is allowed. -/
theorem keeps_of_saved_nil {env : Env K} {w : World K D} (h : w.saved = []) (ev : Event K) :
    w.Keeps env ev := by
  have hnone : ∀ e, e ∉ w.saved := fun e he => List.not_mem_nil (h ▸ he)
  cases ev with
  | dispatchFront =>
      intro e comps pos items packet _ _ _
      exact ⟨fun he => absurd he (hnone e), fun _ x hx => absurd hx (hnone x)⟩
  | tick e dt runSpeed gate =>
      intro comps pos dest _
      exact ⟨fun he => absurd he (hnone e), fun _ _ _ _ x hx => absurd hx (hnone x)⟩
  | deleteCommands => exact fun e x _ _ _ hx => absurd hx (hnone x)
  | joinServerReq | checkPacket | dispatch | onDisconnected | release | createCommand | others =>
      exact trivial

/-- Every item has a definition. -/
def itemEnv : Env ℚ :=
  { World.sampleEnv with itemDef := fun type id => some { type, id, script := "" } }

/-- The character has an item in slot 12. -/
def oneItem : Tables ℚ Unit :=
  { oneCharacter with
    inventory := [{ charId := 0, slot := 12, itemid := 5, itemtype := 1, amount := 1, refine := 0
                    gemOpt := 0, socket := 0 }] }

/-- A client has joined, sent a `/tp` to map 2 and then another packet, and both wait. -/
def queued (packet : Packet ℚ) : World ℚ Unit :=
  next itemEnv (next itemEnv (next itemEnv (next itemEnv (next itemEnv
    (start twoAccounts MapClient.sessionOf2 oneItem)
    (.joinServerReq 0 { sessionId := 7, password := [] } fun _ => none))
    (.checkPacket 0 (.normalChat (.tp 2 1 1)))) (.dispatch 0))
    (.checkPacket 0 packet)) (.dispatch 0)

/-- The `/tp` has been dispatched. -/
def switched (packet : Packet ℚ) : World ℚ Unit :=
  next itemEnv (queued packet) .dispatchFront

/-- A `DROP_ITEM` waits. -/
def dropping : World ℚ Unit :=
  switched (.dropItem { item := 12, quantity := 1 })

theorem run_switched (step : World ℚ Unit → Event ℚ → World ℚ Unit → Prop) (packet : Packet ℚ)
    (hstep : ∀ w ev, w.saved = [] → step w ev (next itemEnv w ev)) :
    ∃ evs, Run step (start twoAccounts MapClient.sessionOf2 oneItem) evs (switched packet) := by
  have hjoined := Run.snoc .nil (hstep (start twoAccounts MapClient.sessionOf2 oneItem)
    (.joinServerReq 0 { sessionId := 7, password := [] } fun _ => none) rfl)
  have hsent := Run.snoc (Run.snoc hjoined (hstep _ (.checkPacket 0 (.normalChat (.tp 2 1 1))) rfl))
    (hstep _ (.dispatch 0) rfl)
  have hqueued := Run.snoc (Run.snoc hsent (hstep _ (.checkPacket 0 packet) rfl))
    (hstep _ (.dispatch 0) rfl)
  exact ⟨_, Run.snoc hqueued (hstep _ .dispatchFront rfl)⟩

/-! ## After a switch -/

/-- What entity 0 holds in slot 12. -/
def held (w : World ℚ Unit) : Option (Option Item) :=
  ((w.es.components 0).bind Components.kept).map (fun k => k.items 12)

end OsIrose.MapServer

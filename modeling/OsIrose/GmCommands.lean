/-
Chat messages, GM commands and the mutex of the entities: `map/src/systems/chatsystem.cpp`,
`map/src/gm_commands.cpp` and `map/src/entitysystem.cpp`.

`EntitySystem::update` holds `access_` from its start to its end, and so while it runs the
handlers of the packets that are queued. `/load_npc` leads from one of them to
`ScriptLoader::load_npcs` and to `EntitySystem::bulk_destroy`, which takes `access_`. Of the
others that take it, `destroy`, `dispatch` and `loadCharacter`, no handler, system or command
calls any. So an update ends if and only if no message that it dispatches is a `/load_npc`
while there are NPCs of a script (`update_isSome_iff`).

What a handler does to positions, inventories and parties is left out, and what is sent.
-/
import OsIrose.Mutex
import OsIrose.ScriptLoader

set_option autoImplicit false

namespace OsIrose.GmCommands

open Function
open MapServer (Entity BasicInfo)
open Registry (Buckets)
open ScriptLoader (Env Kind)

inductive PacketType
  | NORMAL_CHAT
  | WHISPER_CHAT
  | PARTY_CHAT
  | EQUIP_ITEM
  | DROP_ITEM
  | CHANGE_MAP_REQ
  | MOUSE_CMD
  | STOP_MOVING
  | PARTY_REQ
  | PARTY_REPLY
  deriving DecidableEq

inductive Packet
  | normalChat (message : String)
  | dropItem (slot : ℕ)
  | changeMapReq
  /-- A packet whose handler neither creates nor destroys an entity. -/
  | other (type : PacketType) (h : type ≠ .NORMAL_CHAT)

def Packet.type : Packet → PacketType
  | normalChat _ => .NORMAL_CHAT
  | dropItem _ => .DROP_ITEM
  | changeMapReq => .CHANGE_MAP_REQ
  | other type _ => type

structure World where
  loader : ScriptLoader
  /-- The client objects that are there. -/
  clients : ℕ → Bool
  /-- The packet types with a handler. -/
  dispatchers : PacketType → Bool
  toDispatch : List (Entity × Packet)

namespace World

variable (w : World)

/-- `getClient` -/
def getClient (e : Entity) : Option ℕ :=
  ((w.loader.registry.components e).bind Registry.Components.socket).filter w.clients

def basic (e : Entity) : Option BasicInfo :=
  (w.loader.registry.components e).bind Registry.Components.basic

/-- A change of the entities. -/
def modifyRegistry (f : Registry → Registry) : World :=
  { w with loader := { w.loader with registry := f w.loader.registry } }

/-- A handler is erased. -/
def erase (type : PacketType) : World :=
  { w with dispatchers := update w.dispatchers type false }

end World

/-! ## GM commands -/

def isSpace (c : Char) : Bool :=
  c ∈ [' ', '\t', '\n', '\x0b', '\x0c', '\r']

/-- What `ss >> command` reads. -/
def firstWord (message : String) : String :=
  String.ofList ((message.toList.dropWhile isSpace).takeWhile (fun c => !isSpace c))

section Commands

variable (env : Env) (b : Buckets)

/-- `EntitySystem::bulk_destroy`. -/
def bulkDestroy (es : List Entity) : Mutex World → Option (Mutex World) :=
  Mutex.locked (Mutex.modify (·.modifyRegistry (·.bulkDestroy es)))

/-- `ScriptLoader::load_npcs`. -/
def loadNpcs (m : Mutex World) : Option (Mutex World) :=
  (env.order (m.val.loader.keys .npc)).foldlM (fun m path => do
    let m ← bulkDestroy ((m.val.loader.tracked .npc path).filterMap id) m
    Mutex.modify (fun w => { w with
      loader := ScriptLoader.loadScript env path { w.loader with
        tracked := update w.loader.tracked .npc
          (update (w.loader.tracked .npc) path []) } }) m) m

/-- `executeGM`; `/help`, `/item` and `/tp` change nothing here. -/
def executeGM (message : String) (m : Mutex World) : Option (Mutex World) :=
  if message.toList.head? ≠ some '/' then some m
  else if message = "/help" then some m
  else if firstWord message = "/load_npc" then loadNpcs env m
  else some m

/-! ## `update` -/

/-- `ChatSystem::normalChat`. -/
def normalChat (e : Entity) (message : String) (m : Mutex World) : Option (Mutex World) :=
  match m.val.basic e with
  | none => some m
  | some _ => executeGM env message m

/-- The handler of a packet. -/
def handle (e : Entity) : Packet → Mutex World → Option (Mutex World)
  | .normalChat message => normalChat env e message
  | .dropItem slot =>
      if slot = 0 ∨ slot ≥ Inventory.maxItems then some
      else Mutex.modify (·.modifyRegistry (·.handle b .buildItem))
  | .changeMapReq => Mutex.modify (·.modifyRegistry (·.handle b (.changeMap e)))
  | .other _ _ => some

/-- `SystemManager::dispatch`, which erases a handler that finds no client. -/
def dispatch (m : Mutex World) (p : Entity × Packet) : Option (Mutex World) :=
  if m.val.dispatchers p.2.type = false then some m
  else match m.val.getClient p.1 with
    | some _ => handle env b p.1 p.2 m
    | none => Mutex.modify (·.erase p.2.type) m

/-- The part of `EntitySystem::update` inside of the mutex. -/
def updateLocked (m : Mutex World) : Option (Mutex World) := do
  let m ← Mutex.modify (·.modifyRegistry (·.runCreates b)) m
  let queue := m.val.toDispatch
  let m ← queue.foldlM (dispatch env b) { m with val := { m.val with toDispatch := [] } }
  -- the systems move, teleport and look after parties, which is all left out here
  Mutex.modify (·.modifyRegistry (·.runDeletes)) m

/-- `EntitySystem::update`. -/
def update : Mutex World → Option (Mutex World) :=
  Mutex.locked (updateLocked env b)

end Commands

/-! ## What lets an update end -/

/-- The message is a `/load_npc`. -/
def IsLoadNpc (message : String) : Prop :=
  message.toList.head? = some '/' ∧ firstWord message = "/load_npc"

instance (message : String) : Decidable (IsLoadNpc message) :=
  inferInstanceAs (Decidable (_ ∧ _))

/-- No `/load_npc` that is dispatched finds NPCs of a script. A message is dispatched as long as
there is a handler, that is, until one is from an entity without a client. -/
def World.Ends (w : World) : Prop :=
  ∀ pre e message post, w.toDispatch = pre ++ (e, .normalChat message) :: post →
    IsLoadNpc message → w.dispatchers .NORMAL_CHAT = true →
    (∀ e' message', (e', .normalChat message') ∈ pre → w.getClient e' ≠ none) →
    w.getClient e ≠ none →
    (w.basic e ≠ none ∨ e ∈ w.loader.registry.createCommands.map Registry.Create.entity) →
    w.loader.keys .npc = ∅

/-! ## `load_npcs` -/

section LoadNpcs

variable {env : Env} {m : Mutex World}

/-- Where the mutex is free, this is the function of the script loader. -/
theorem loadNpcs_of_free (h : m.held = false) : loadNpcs env m = some { m with
    val := { m.val with loader := ScriptLoader.loadNpcs env m.val.loader } } := by
  have hloop : ∀ (paths : List String) (m : Mutex World), m.held = false →
      paths.foldlM (fun m path => do
        let m ← bulkDestroy ((m.val.loader.tracked .npc path).filterMap id) m
        Mutex.modify (fun w => { w with
          loader := ScriptLoader.loadScript env path { w.loader with
            tracked := Function.update w.loader.tracked .npc
              (Function.update (w.loader.tracked .npc) path []) } }) m) m =
      some { m with val := { m.val with
        loader := paths.foldl (fun l path => ScriptLoader.reloadFile env path .npc l)
          m.val.loader } } := by
    intro paths
    induction paths with
    | nil => exact fun m _ => rfl
    | cons path paths ih =>
        intro m h
        rw [List.foldlM_cons, bulkDestroy, Mutex.locked_modify h]
        exact ih _ h
  exact hloop _ m h

/-- Where it is held, nothing ends but a loop without a file. -/
theorem loadNpcs_of_held (h : m.held = true) :
    loadNpcs env m = if m.val.loader.keys .npc = ∅ then some m else none := by
  unfold loadNpcs
  cases hpaths : env.order (m.val.loader.keys .npc) with
  | nil =>
      have hempty : m.val.loader.keys .npc = ∅ := by
        rw [Finset.eq_empty_iff_forall_notMem]
        intro path hpath
        rw [← env.mem_order, hpaths] at hpath
        exact absurd hpath List.not_mem_nil
      rw [if_pos hempty]
      rfl
  | cons path paths =>
      have hmem : path ∈ m.val.loader.keys .npc := by
        rw [← env.mem_order, hpaths]
        exact List.mem_cons_self
      rw [if_neg (Finset.ne_empty_of_mem hmem), List.foldlM_cons, bulkDestroy,
        Mutex.locked_of_held h]
      rfl

end LoadNpcs

/-! ## The queue -/

/-- A packet that is dispatched, but for a `/load_npc` that never ends. -/
def World.dispatched (b : Buckets) (w : World) (p : Entity × Packet) : World :=
  if w.dispatchers p.2.type = false then w
  else match w.getClient p.1 with
    | some _ => match p.2 with
      | .dropItem slot =>
          if slot = 0 ∨ slot ≥ Inventory.maxItems then w
          else w.modifyRegistry (·.handle b .buildItem)
      | .changeMapReq => w.modifyRegistry (·.handle b (.changeMap p.1))
      | _ => w
    | none => w.erase p.2.type

/-- The packet is no `/load_npc` that finds NPCs of a script. -/
def World.Passes (w : World) : Entity × Packet → Prop
  | (e, .normalChat message) =>
      IsLoadNpc message → w.dispatchers .NORMAL_CHAT = true → w.getClient e ≠ none →
        w.basic e ≠ none → w.loader.keys .npc = ∅
  | _ => True

section Queue

variable {env : Env} {b : Buckets}

theorem executeGM_of_held {m : Mutex World} (h : m.held = true) (message : String) :
    executeGM env message m =
      if IsLoadNpc message ∧ m.val.loader.keys .npc ≠ ∅ then none else some m := by
  unfold executeGM
  by_cases hslash : message.toList.head? = some '/'
  · by_cases hhelp : message = "/help"
    · subst hhelp
      -- `/help` is looked for first, and is no `/load_npc`
      have hword : ¬ IsLoadNpc "/help" := fun h => absurd h.2 (by decide)
      simp [hword]
    · by_cases hword : firstWord message = "/load_npc"
      · rw [if_neg (not_not.mpr hslash), if_neg hhelp, if_pos hword, loadNpcs_of_held h]
        by_cases hkeys : m.val.loader.keys .npc = ∅ <;> simp [hkeys, IsLoadNpc, hslash, hword]
      · simp [hslash, hhelp, hword, IsLoadNpc]
  · simp [hslash, IsLoadNpc]

/-- What a packet does inside of the mutex. -/
theorem rounds_dispatch :
    Mutex.Rounds (dispatch env b) World.Passes (World.dispatched b) := by
  constructor
  · -- what passes ends
    rintro m ⟨e, packet⟩ hm hpasses
    unfold dispatch World.dispatched
    dsimp only
    split_ifs with hdispatcher
    · rfl
    cases hclient : m.val.getClient e with
    | none => rfl
    | some c =>
        cases packet with
        | normalChat message =>
            simp only [handle, normalChat]
            cases hbasic : m.val.basic e with
            | none => rfl
            | some basic =>
                simp only [executeGM_of_held hm]
                refine if_neg fun hload => hload.2 (hpasses hload.1 ?_ ?_ ?_)
                · simpa [Packet.type] using hdispatcher
                · simp [hclient]
                · simp [hbasic]
        | dropItem slot =>
            simp only [handle]
            split_ifs <;> rfl
        | changeMapReq => rfl
        | other type _ => rfl
  · -- what does not pass is a `/load_npc` that finds NPCs, and hangs
    rintro m ⟨e, packet⟩ hm hpasses
    cases packet with
    | normalChat message =>
        simp only [World.Passes, not_forall] at hpasses
        obtain ⟨hload, hdispatcher, hclient, hbasic, hkeys⟩ := hpasses
        obtain ⟨c, hc⟩ := Option.ne_none_iff_exists'.mp hclient
        obtain ⟨basic, hbasic'⟩ := Option.ne_none_iff_exists'.mp hbasic
        simp only [dispatch, Packet.type, hdispatcher, Bool.true_eq_false, if_false, hc, handle,
          normalChat, hbasic', executeGM_of_held hm]
        exact if_pos ⟨hload, hkeys⟩
    | _ => exact absurd trivial hpasses

/-! ### What the packets before leave -/

/-- The clients are there still, with a `BasicInfo` or without, and the NPCs of the scripts. -/
structure Carried (w w' : World) : Prop where
  client : ∀ e, w'.getClient e = w.getClient e
  basic : ∀ e, w.getClient e ≠ none → (w'.basic e = none ↔ w.basic e = none)
  keys : w'.loader.keys = w.loader.keys

theorem Carried.refl (w : World) : Carried w w :=
  ⟨fun _ => rfl, fun _ _ => Iff.rfl, rfl⟩

theorem Carried.trans {w w' w'' : World} (h : Carried w w') (h' : Carried w' w'') :
    Carried w w'' where
  client := fun e => (h'.client e).trans (h.client e)
  basic := fun e he => (h'.basic e (by rwa [h.client])).trans (h.basic e he)
  keys := h'.keys.trans h.keys

/-- A handler that changes the components, of entities with a client not whether there are
any. -/
theorem carried_modifyRegistry {w : World} {f : Registry → Registry}
    (hsocket : ∀ e, ((f w.loader.registry).components e).bind Registry.Components.socket =
      (w.loader.registry.components e).bind Registry.Components.socket)
    (hbasic : ∀ e, w.loader.registry.components e ≠ none →
      (((f w.loader.registry).components e).bind Registry.Components.basic = none ↔
        (w.loader.registry.components e).bind Registry.Components.basic = none)) :
    Carried w (w.modifyRegistry f) where
  client := fun e => by
    simp only [World.getClient, World.modifyRegistry, hsocket]
  basic := fun e he => hbasic e fun hnone => he (by simp [World.getClient, hnone])
  keys := rfl

theorem carried_handle (w : World) (h : Registry.Handled) :
    Carried w (w.modifyRegistry (·.handle b h)) := by
  cases h with
  | changeMap e =>
      refine carried_modifyRegistry (fun e' => ?_) fun e' _ => ?_
      · by_cases he : e' = e
        · subst he
          simp only [Registry.handle, Registry.modify_self]
          cases w.loader.registry.components e' with
          | none => rfl
          | some comps =>
              show Registry.Components.socket (ite _ _ _) = _
              split_ifs <;> rfl
        · simp only [Registry.handle, Registry.modify_of_ne he]
      · by_cases he : e' = e
        · subst he
          simp only [Registry.handle, Registry.modify_self]
          cases w.loader.registry.components e' with
          | none => rfl
          | some comps =>
              show Registry.Components.basic (ite _ _ _) = none ↔ comps.basic = none
              split_ifs
              · simp [Registry.Components.setOnMap]
              · rfl
        · simp only [Registry.handle, Registry.modify_of_ne he]
  | buildItem =>
      -- the item is a new entity, which has no client
      have hold : ∀ e, e ≠ w.loader.registry.created →
          (w.loader.registry.handle b .buildItem).components e =
            w.loader.registry.components e :=
        fun e he => Registry.create_of_ne (s := w.loader.registry.takeId b) he _
      refine carried_modifyRegistry (fun e => ?_) fun e he => ?_
      · by_cases hnew : e = w.loader.registry.created
        · subst hnew
          rw [w.loader.registry.fresh _ le_rfl]
          exact congrArg (·.bind Registry.Components.socket)
            (Registry.create_self (s := w.loader.registry.takeId b) _)
        · rw [hold e hnew]
      · have hnew : e ≠ w.loader.registry.created := fun h =>
          he (h ▸ w.loader.registry.fresh _ le_rfl)
        rw [hold e hnew]

theorem carried_dispatched (w : World) (p : Entity × Packet) : Carried w (w.dispatched b p) := by
  obtain ⟨e, packet⟩ := p
  unfold World.dispatched
  dsimp only
  split_ifs
  · exact Carried.refl w
  cases w.getClient e with
  | none => exact ⟨fun _ => rfl, fun _ _ => Iff.rfl, rfl⟩
  | some c =>
      cases packet with
      | dropItem slot =>
          dsimp only
          split_ifs
          · exact Carried.refl w
          · exact carried_handle w .buildItem
      | changeMapReq => exact carried_handle w (.changeMap e)
      | _ => exact Carried.refl w

theorem carried_queue (queue : List (Entity × Packet)) :
    ∀ w : World, Carried w (queue.foldl (World.dispatched b) w) := by
  induction queue with
  | nil => exact Carried.refl
  | cons p queue ih => exact fun w => (carried_dispatched w p).trans (ih _)

/-- The handler of chat messages is erased by one of an entity without a client. -/
theorem dispatched_dispatchers (w : World) (e : Entity) (packet : Packet) :
    (w.dispatched b (e, packet)).dispatchers .NORMAL_CHAT = true ↔
      w.dispatchers .NORMAL_CHAT = true ∧
        (packet.type = .NORMAL_CHAT → w.getClient e ≠ none) := by
  unfold World.dispatched
  dsimp only
  split_ifs with hdispatcher
  · -- there is no handler: nothing is erased
    refine (and_iff_left_of_imp fun hchat htype => ?_).symm
    rw [htype, hchat] at hdispatcher
    exact absurd hdispatcher (by decide)
  cases hclient : w.getClient e with
  | none =>
      by_cases htype : packet.type = .NORMAL_CHAT
      · simp [World.erase, htype]
      · simp [World.erase, htype, Function.update_of_ne (Ne.symm htype)]
  | some c =>
      cases packet with
      | dropItem slot =>
          dsimp only
          split_ifs <;> simp [World.modifyRegistry]
      | _ => simp [World.modifyRegistry]

theorem type_eq_chat_iff (packet : Packet) :
    packet.type = .NORMAL_CHAT ↔ ∃ message, packet = .normalChat message := by
  cases packet with
  | other type h => simpa [Packet.type] using h
  | _ => simp [Packet.type]

theorem queue_dispatchers (queue : List (Entity × Packet)) : ∀ w : World,
    (queue.foldl (World.dispatched b) w).dispatchers .NORMAL_CHAT = true ↔
      w.dispatchers .NORMAL_CHAT = true ∧
        ∀ e message, (e, .normalChat message) ∈ queue → w.getClient e ≠ none := by
  induction queue with
  | nil => simp
  | cons p queue ih =>
      obtain ⟨e, packet⟩ := p
      intro w
      rw [List.foldl_cons, ih, dispatched_dispatchers, type_eq_chat_iff]
      simp only [(carried_dispatched w (e, packet)).client, List.mem_cons, Prod.mk.injEq]
      constructor
      · rintro ⟨⟨hchat, hhead⟩, hrest⟩
        refine ⟨hchat, fun e' message hmem => ?_⟩
        obtain ⟨rfl, rfl⟩ | hmem := hmem
        · exact hhead ⟨message, rfl⟩
        · exact hrest e' message hmem
      · rintro ⟨hchat, hall⟩
        refine ⟨⟨hchat, ?_⟩, fun e' message hmem => hall e' message (Or.inr hmem)⟩
        rintro ⟨message, rfl⟩
        exact hall e message (Or.inl ⟨rfl, rfl⟩)

end Queue

/-! ## The create commands -/

section Creates

variable {b : Buckets}

theorem runCreate_socket (s : Registry) (c : Registry.Create) (e : Entity) :
    ((s.runCreate b c).components e).bind Registry.Components.socket =
      (s.components e).bind Registry.Components.socket := by
  unfold Registry.runCreate
  split_ifs
  · by_cases he : e = c.entity
    · subst he
      rw [Registry.modify_self, Registry.takeId_components]
      cases s.components c.entity <;> simp
    · rw [Registry.modify_of_ne he, Registry.takeId_components]
  · rfl

/-- A create command gives a `BasicInfo` to what it is for, if that is there. -/
theorem runCreate_basic (s : Registry) (c : Registry.Create) {e : Entity}
    (he : s.components e ≠ none) : (s.runCreate b c).components e ≠ none ∧
      (((s.runCreate b c).components e).bind Registry.Components.basic ≠ none ↔
        (s.components e).bind Registry.Components.basic ≠ none ∨ e = c.entity) := by
  by_cases hc : e = c.entity
  · subst hc
    obtain ⟨comps, hcomps⟩ := Option.ne_none_iff_exists'.mp he
    have hself : (s.runCreate b c).components c.entity =
        some (c.assign (s.freeId b) comps) := by
      simp only [Registry.runCreate, hcomps, Option.isSome_some, if_true]
      rw [Registry.modify_self, Registry.takeId_components, hcomps, Option.map_some]
    rw [hself]
    simp
  · have hother : (s.runCreate b c).components e = s.components e := by
      unfold Registry.runCreate
      split_ifs
      · rw [Registry.modify_of_ne hc, Registry.takeId_components]
      · rfl
    rw [hother]
    exact ⟨he, (or_iff_left hc).symm⟩

theorem client_runCreates (w : World) (e : Entity) :
    (w.modifyRegistry (·.runCreates b)).getClient e = w.getClient e := by
  have hsame := Runs.foldl_invariant
    (fun s : Registry => (s.components e).bind Registry.Components.socket =
      (w.loader.registry.components e).bind Registry.Components.socket)
    (fun s c hsame => (runCreate_socket (b := b) s c e).trans hsame) rfl
    w.loader.registry.createCommands
  exact congrArg (·.filter w.clients) hsame

theorem basic_runCreates (w : World) {e : Entity} (he : w.getClient e ≠ none) :
    (w.modifyRegistry (·.runCreates b)).basic e ≠ none ↔ w.basic e ≠ none ∨
      e ∈ w.loader.registry.createCommands.map Registry.Create.entity := by
  have hloop : ∀ (cs : List Registry.Create) (s : Registry), s.components e ≠ none →
      (((cs.foldl (Registry.runCreate b) s).components e).bind Registry.Components.basic ≠ none ↔
        (s.components e).bind Registry.Components.basic ≠ none ∨
          e ∈ cs.map Registry.Create.entity) := by
    intro cs
    induction cs with
    | nil => exact fun s _ => by simp
    | cons c cs ih =>
        intro s hs
        obtain ⟨hs', hbasic⟩ := runCreate_basic (b := b) s c hs
        rw [List.foldl_cons, ih _ hs', hbasic, List.map_cons, List.mem_cons, or_assoc]
  refine hloop _ w.loader.registry fun hnone => he ?_
  simp [World.getClient, hnone]

end Creates

theorem isSome_updateLocked_iff (env : Env) (b : Buckets) (m : Mutex World)
    (hheld : m.held = true) : (updateLocked env b m).isSome ↔ m.val.Ends := by
  let w : World := { m.val.modifyRegistry (·.runCreates b) with toDispatch := [] }
  have hclient : ∀ e, w.getClient e = m.val.getClient e := client_runCreates m.val
  have hqueue : (updateLocked env b m).isSome ↔
      (m.val.toDispatch.foldlM (dispatch env b) { m with val := w }).isSome := by
    show ((m.val.toDispatch.foldlM (dispatch env b) { m with val := w }).bind
      (Mutex.modify (·.modifyRegistry (·.runDeletes)))).isSome ↔ _
    cases m.val.toDispatch.foldlM (dispatch env b) { m with val := w } <;> rfl
  have hrounds : Mutex.Rounds (dispatch env b) World.Passes (World.dispatched b) := rounds_dispatch
  rw [hqueue, hrounds.isSome_foldlM_iff (m := { m with val := w }) hheld]
  -- what a packet finds is what there was at the start, but for the handler of chat messages
  have hpasses : ∀ (pre : List (Entity × Packet)) (e : Entity) (message : String),
      (pre.foldl (World.dispatched b) w).Passes (e, .normalChat message) ↔
        (IsLoadNpc message → m.val.dispatchers .NORMAL_CHAT = true →
          (∀ e' message', (e', .normalChat message') ∈ pre → m.val.getClient e' ≠ none) →
          m.val.getClient e ≠ none →
          (m.val.basic e ≠ none ∨
            e ∈ m.val.loader.registry.createCommands.map Registry.Create.entity) →
          m.val.loader.keys .npc = ∅) := by
    intro pre e message
    have hcarried := carried_queue (b := b) pre w
    simp only [World.Passes, queue_dispatchers, hcarried.client, hcarried.keys, hclient, and_imp]
    refine forall_congr' fun _ => forall_congr' fun _ => forall_congr' fun _ =>
      forall_congr' fun he => imp_congr_left ?_
    rw [← basic_runCreates (b := b) m.val he]
    exact not_congr (hcarried.basic e (by rwa [hclient]))
  constructor
  · intro hall pre e message post hsplit
    exact (hpasses pre e message).mp (hall pre _ post hsplit)
  · intro hends pre p post hsplit
    obtain ⟨e, packet⟩ := p
    cases packet with
    | normalChat message => exact (hpasses pre e message).mpr (hends pre e message post hsplit)
    | _ => trivial

/-- What the packets of a queue do to the entities. -/
theorem queue_loader (b : Buckets) (queue : List (Entity × Packet)) : ∀ w : World,
    ∃ handled : List Registry.Handled, (queue.foldl (World.dispatched b) w).loader =
      { w.loader with registry := handled.foldl (Registry.handle b) w.loader.registry } := by
  induction queue with
  | nil => exact fun w => ⟨[], rfl⟩
  | cons p queue ih =>
      intro w
      have hone : ∃ handled : List Registry.Handled, (w.dispatched b p).loader =
          { w.loader with registry := handled.foldl (Registry.handle b) w.loader.registry } := by
        unfold World.dispatched
        split_ifs
        · exact ⟨[], rfl⟩
        cases w.getClient p.1 with
        | none => exact ⟨[], rfl⟩
        | some c =>
            cases p.2 with
            | dropItem slot =>
                dsimp only
                split_ifs
                · exact ⟨[], rfl⟩
                · exact ⟨[.buildItem], rfl⟩
            | changeMapReq => exact ⟨[.changeMap p.1], rfl⟩
            | _ => exact ⟨[], rfl⟩
      obtain ⟨handled, hhandled⟩ := hone
      obtain ⟨handled', hrest⟩ := ih (w.dispatched b p)
      refine ⟨handled ++ handled', ?_⟩
      rw [List.foldl_cons, hrest, hhandled, List.foldl_append]

/-- An update that ends is one of the script loader's world, and leaves the mutex free. -/
theorem update_loader {env : Env} {b : Buckets} {m m' : Mutex World} (hfree : m.held = false)
    (h : update env b m = some m') : m'.held = false ∧
      ∃ handled, m'.val.loader = ScriptLoader.next env b m.val.loader (.update handled) := by
  let w : World := { m.val.modifyRegistry (·.runCreates b) with toDispatch := [] }
  have hlocked : updateLocked env b { m with held := true } =
      (m.val.toDispatch.foldlM (dispatch env b) ⟨w, true⟩).bind
        (Mutex.modify (·.modifyRegistry (·.runDeletes))) := rfl
  rw [update, Mutex.locked_of_free hfree, hlocked] at h
  obtain ⟨m₁, hm₁, rfl⟩ := Option.map_eq_some_iff.mp h
  -- the queue ended, so every packet of it did what it does to a world
  obtain ⟨m₂, hm₂, hm₁⟩ := Option.bind_eq_some_iff.mp hm₁
  have hqueue := rounds_dispatch.eq_of_isSome (m := ⟨w, true⟩) rfl (Option.isSome_of_eq_some hm₂)
  obtain rfl := Option.some.inj (hqueue.symm.trans hm₂)
  obtain rfl := Option.some.inj hm₁
  obtain ⟨handled, hhandled⟩ := queue_loader b m.val.toDispatch w
  refine ⟨rfl, handled, ?_⟩
  show (World.modifyRegistry (m.val.toDispatch.foldl (World.dispatched b) w) (·.runDeletes)).loader
    = _
  rw [World.modifyRegistry, hhandled]
  rfl

/-- The sample files loaded, and one client, whose character says something. -/
noncomputable def sampleWorld (message : String) : World where
  loader := [.loadScript "map.lua", .update [], .world (.loadCharacter (.loaded "a")) rfl,
    .world (.assignSocket 2 0) rfl].foldl (ScriptLoader.next ScriptLoader.sampleEnv .least)
      ScriptLoader.start
  clients := fun _ => true
  dispatchers := fun _ => true
  toDispatch := [(2, .normalChat message)]

end OsIrose.GmCommands

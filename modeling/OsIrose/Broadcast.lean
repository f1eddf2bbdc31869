/-
Who gets a broadcast: `CRoseServer::SendPacket` (`rosecommon/src/croseserver.cpp`) with
`isOnMap` (`rosecommon/src/entitycomponents.cpp`), `CMapClient::is_nearby`
(`map/src/cmapclient.cpp`) and `MovementSystem::is_nearby`
(`map/src/systems/movementsystem.cpp`).

`is_nearby` looks whether its entities are valid before it asks for a component, `isOnMap`
does not, and three of the five loops call it for the entity of a client whatever the client
has come to: one that has not joined has the default `Entity`, and that of one that has left
is destroyed. `audience_iff` says which calls this spoils.

The model logs the clients that `send` is called on and the entities that a component is
asked of. What comes of a component of an invalid entity is up to the library (`Unspecified`).
-/
import OsIrose.Lifecycle

set_option autoImplicit false

namespace OsIrose.Broadcast

open MapServer (BasicInfo Components Entity World)
open Movement (Cell Position)

/-- `CRoseServer::eSendType`. -/
inductive SendType
  | EVERYONE
  | EVERYONE_BUT_ME
  | EVERYONE_BUT_ME_ON_MAP
  | NEARBY
  | NEARBY_BUT_ME
  deriving DecidableEq, Repr

/-- `client_list_`; a client is put on it once, when it connects. -/
structure ClientList where
  clients : List ℕ
  nodup : clients.Nodup

/-- What `component<>` gives for an entity that is not valid. -/
structure Unspecified (K : Type) where
  basic : Option Entity → Option BasicInfo
  position : Option Entity → Option (Position K)

/-- A call at work. -/
structure Sending where
  /-- The clients that `send` is called on. -/
  sent : List ℕ := []
  /-- The entities that a component is asked of; `none` is the default one. -/
  asked : List (Option Entity) := []

abbrev SendM := StateM Sending

/-- `client->send(_buffer)`. -/
def send (client : ℕ) : SendM Unit := fun s =>
  ((), { s with sent := s.sent ++ [client] })

section

variable {K D : Type} (w : World K D)

/-- The components of an entity; `none` if it is not valid. -/
def componentsOf (entity : Option Entity) : Option (Components K D) :=
  entity.bind w.es.components

/-- `Entity::valid`. -/
def Valid (entity : Option Entity) : Prop :=
  (componentsOf w entity).isSome = true

instance (entity : Option Entity) : Decidable (Valid w entity) :=
  inferInstanceAs (Decidable (_ = true))

/-- What comes of asking for a component. -/
def answer {C : Type} (get : Components K D → Option C) (unspecified : Option Entity → Option C)
    (entity : Option Entity) : Option C :=
  match componentsOf w entity with
  | some comps => get comps
  | none => unspecified entity

/-- `entity.component<C>()`. -/
def component {C : Type} (get : Components K D → Option C)
    (unspecified : Option Entity → Option C) (entity : Option Entity) : SendM (Option C) :=
  fun s => (answer w get unspecified entity, { s with asked := s.asked ++ [entity] })

variable (u : Unspecified K)

/-- `isOnMap`. -/
def isOnMap (entity : Option Entity) : SendM Bool := do
  let basic ← component w Components.basic u.basic entity
  if basic.isNone then return false
  else
    let basic ← component w Components.basic u.basic entity
    return basic.any BasicInfo.isOnMap

/-- `std::abs(…) <= 1` in both coordinates. -/
def adjacent (a b : Cell) : Bool :=
  ((a.1.val : ℤ) - b.1.val).natAbs ≤ 1 ∧ ((a.2.val : ℤ) - b.2.val).natAbs ≤ 1

variable [Field K] [LinearOrder K] [FloorSemiring K]

/-- `get_grid_position`. -/
def getGridPosition (entity : Option Entity) : SendM Cell := do
  let pos ← component w Components.position u.position entity
  return pos.elim (0, 0) Position.cell

/-- `MovementSystem::is_nearby`. -/
def isNearby (a b : Option Entity) : SendM Bool := do
  if ¬ Valid w a ∨ ¬ Valid w b then return false
  else
    let posA ← getGridPosition w u a
    let posB ← getGridPosition w u b
    return adjacent posA posB

/-- `CRoseServer::SendPacket`. -/
def sendPacket (list : ClientList) (sender : ℕ) : SendType → SendM Unit
  | .EVERYONE => list.clients.forM fun client => send client
  | .EVERYONE_BUT_ME => list.clients.forM fun client => do
      if client ≠ sender then send client
  | .EVERYONE_BUT_ME_ON_MAP => list.clients.forM fun client => do
      if client ≠ sender then
        if ← isOnMap w u (w.clients client).entity then send client
  | .NEARBY => list.clients.forM fun client => do
      if ← isOnMap w u (w.clients client).entity then
        if ← isNearby w u (w.clients client).entity (w.clients sender).entity then send client
  | .NEARBY_BUT_ME => list.clients.forM fun client => do
      if ← isOnMap w u (w.clients client).entity then
        if client ≠ sender then
          if ← isNearby w u (w.clients client).entity (w.clients sender).entity then send client

/-! ## Who is to get it -/

/-- The client's entity is on the map. -/
def OnMap (c : ℕ) : Prop :=
  ∃ comps basic, componentsOf w (w.clients c).entity = some comps ∧ comps.basic = some basic ∧
    basic.isOnMap = true

/-- The grid cell of an entity; without a `Position` it is in the first. -/
def cell (comps : Components K D) : Cell :=
  comps.position.elim (0, 0) Position.cell

/-- The entities of the two clients are within one grid cell of each other. -/
def Near (c c' : ℕ) : Prop :=
  ∃ comps comps', componentsOf w (w.clients c).entity = some comps ∧
    componentsOf w (w.clients c').entity = some comps' ∧
    adjacent (cell comps) (cell comps') = true

/-- The clients that a type names. -/
def Named (sender : ℕ) : SendType → ℕ → Prop
  | .EVERYONE, _ => True
  | .EVERYONE_BUT_ME, c => c ≠ sender
  | .EVERYONE_BUT_ME_ON_MAP, c => c ≠ sender ∧ OnMap w c
  | .NEARBY, c => OnMap w c ∧ Near w c sender
  | .NEARBY_BUT_ME, c => c ≠ sender ∧ OnMap w c ∧ Near w c sender

/-- Each client that the type names is sent the packet once and no other is, and components
are asked of valid entities only. -/
structure Right (list : ClientList) (sender : ℕ) (type : SendType) (s : Sending) : Prop where
  once : ∀ c ∈ list.clients, Named w sender type c → s.sent.count c = 1
  others : ∀ c ∈ s.sent, c ∈ list.clients ∧ Named w sender type c
  valid : ∀ entity ∈ s.asked, Valid w entity

/-- The clients whose entity the call looks at without a check. -/
def Looked (sender : ℕ) : SendType → ℕ → Prop
  | .EVERYONE, _ => False
  | .EVERYONE_BUT_ME, _ => False
  | .EVERYONE_BUT_ME_ON_MAP, c => c ≠ sender
  | .NEARBY, _ => True
  | .NEARBY_BUT_ME, _ => True

end

/-! ## What a call logs -/

/-- An action that gives `a`, calls `send` on these clients and asks these entities for a
component. -/
def Logs {α : Type} (x : SendM α) (a : α) (sent : List ℕ) (asked : List (Option Entity)) : Prop :=
  ∀ s, x.run s = (a, { sent := s.sent ++ sent, asked := s.asked ++ asked })

section

variable {α β : Type} {x : SendM α} {a : α} {sent sent' : List ℕ}
  {asked asked' : List (Option Entity)}

theorem Logs.pure (a : α) : Logs (Pure.pure a) a [] [] := fun s => by
  rw [List.append_nil, List.append_nil]
  rfl

theorem Logs.bind {f : α → SendM β} {b : β} (hx : Logs x a sent asked)
    (hf : Logs (f a) b sent' asked') :
    Logs (x >>= f) b (sent ++ sent') (asked ++ asked') := fun s => by
  rw [StateT.run_bind, hx s]
  exact (hf _).trans (by rw [List.append_assoc, List.append_assoc])

/-- A step that is taken under a condition. -/
theorem Logs.guard (p : Prop) [Decidable p] {x : SendM Unit} (hx : Logs x () sent asked) :
    Logs (if p then x else Pure.pure ()) () (if p then sent else []) (if p then asked else []) := by
  split_ifs
  · exact hx
  · exact Logs.pure ()

/-- A step that is taken if a test says so. -/
theorem Logs.test {test : SendM Bool} {b : Bool} {y : SendM Unit} (htest : Logs test b [] asked)
    (hy : Logs y () sent asked') :
    Logs (do if ← test then y) () (if b then sent else [])
      (asked ++ if b then asked' else []) := by
  refine htest.bind ?_
  exact hy.guard (b = true)

theorem Logs.forM {body : ℕ → SendM Unit} {sends : ℕ → List ℕ}
    {asks : ℕ → List (Option Entity)} (hbody : ∀ c, Logs (body c) () (sends c) (asks c))
    (clients : List ℕ) :
    Logs (clients.forM body) () (clients.flatMap sends) (clients.flatMap asks) := by
  induction clients with
  | nil => exact Logs.pure ()
  | cons c clients ih => exact (hbody c).bind ih

theorem logs_send (c : ℕ) : Logs (send c) () [c] [] := fun s => by
  rw [List.append_nil]
  rfl

end

section

variable {K D : Type} (w : World K D) (u : Unspecified K)

theorem logs_component {C : Type} (get : Components K D → Option C)
    (unspecified : Option Entity → Option C) (entity : Option Entity) :
    Logs (component w get unspecified entity) (answer w get unspecified entity) [] [entity] :=
  fun s => by
    rw [List.append_nil]
    rfl

/-- What `isOnMap` answers. -/
def onMap (entity : Option Entity) : Bool :=
  (answer w Components.basic u.basic entity).any BasicInfo.isOnMap

/-- It asks once or twice. -/
def onMapAsks (entity : Option Entity) : List (Option Entity) :=
  if (answer w Components.basic u.basic entity).isNone then [entity] else [entity, entity]

theorem logs_isOnMap (entity : Option Entity) :
    Logs (isOnMap w u entity) (onMap w u entity) [] (onMapAsks w u entity) := by
  have hask := logs_component w Components.basic u.basic entity
  unfold isOnMap onMap onMapAsks
  cases hbasic : answer w Components.basic u.basic entity with
  | none =>
      rw [hbasic] at hask
      exact hask.bind (Logs.pure false)
  | some basic =>
      rw [hbasic] at hask
      exact hask.bind (hask.bind (Logs.pure basic.isOnMap))

section

variable {w u}

theorem mem_onMapAsks {entity asked : Option Entity} :
    asked ∈ onMapAsks w u entity ↔ asked = entity := by
  unfold onMapAsks
  split_ifs <;> simp

/-- `isOnMap` asks its entity, and what is asked besides is valid. -/
theorem onMapAsks_append_valid_iff {entity : Option Entity} {rest : List (Option Entity)}
    (hrest : ∀ asked ∈ rest, Valid w asked) :
    (∀ asked ∈ onMapAsks w u entity ++ rest, Valid w asked) ↔ Valid w entity := by
  constructor
  · exact fun h => h entity (List.mem_append_left _ (mem_onMapAsks.mpr rfl))
  · intro h asked hasked
    rcases List.mem_append.mp hasked with hasked | hasked
    · rw [mem_onMapAsks.mp hasked]
      exact h
    · exact hrest asked hasked

/-- Of a valid entity `isOnMap` tells the truth. -/
theorem onMap_eq_true_iff {c : ℕ} (h : Valid w (w.clients c).entity) :
    onMap w u (w.clients c).entity = true ↔ OnMap w c := by
  obtain ⟨comps, hcomps⟩ := Option.isSome_iff_exists.mp h
  rw [onMap, answer, hcomps, OnMap, hcomps]
  simp [Option.any_eq_true]

end

/-- `is_nearby` asks for nothing if one of the entities is not valid. -/
def nearbyAsks (a b : Option Entity) : List (Option Entity) :=
  if Valid w a ∧ Valid w b then [a, b] else []

variable {w} in
theorem valid_of_mem_nearbyAsks {a b asked : Option Entity} (h : asked ∈ nearbyAsks w a b) :
    Valid w asked := by
  unfold nearbyAsks at h
  split_ifs at h with hvalid
  · rcases List.mem_pair.mp h with rfl | rfl
    · exact hvalid.1
    · exact hvalid.2
  · exact absurd h List.not_mem_nil

variable [Field K] [LinearOrder K] [FloorSemiring K]

theorem logs_getGridPosition {entity : Option Entity} {comps : Components K D}
    (h : componentsOf w entity = some comps) :
    Logs (getGridPosition w u entity) (cell comps) [] [entity] := by
  have hask := logs_component w Components.position u.position entity
  rw [answer, h] at hask
  exact hask.bind (Logs.pure (cell comps))

/-- What `is_nearby` answers. -/
def nearby (a b : Option Entity) : Bool :=
  match componentsOf w a, componentsOf w b with
  | some comps, some comps' => adjacent (cell comps) (cell comps')
  | _, _ => false

theorem logs_isNearby (a b : Option Entity) :
    Logs (isNearby w u a b) (nearby w a b) [] (nearbyAsks w a b) := by
  by_cases hvalid : Valid w a ∧ Valid w b
  · obtain ⟨comps, ha⟩ := Option.isSome_iff_exists.mp hvalid.1
    obtain ⟨comps', hb⟩ := Option.isSome_iff_exists.mp hvalid.2
    rw [isNearby, if_neg (by simpa using hvalid), nearbyAsks, if_pos hvalid, nearby, ha, hb]
    exact (logs_getGridPosition w u ha).bind
      ((logs_getGridPosition w u hb).bind (Logs.pure (adjacent (cell comps) (cell comps'))))
  · have hfar : nearby w a b = false := by
      unfold nearby
      split
      · exact absurd ⟨Option.isSome_of_eq_some ‹_›, Option.isSome_of_eq_some ‹_›⟩ hvalid
      · rfl
    rw [isNearby, if_pos (not_and_or.mp hvalid), nearbyAsks, if_neg hvalid, hfar]
    exact Logs.pure false

/-! ### The loops -/

/-- What the loop of a type sends for one client. -/
def sends (sender : ℕ) (type : SendType) (c : ℕ) : List ℕ :=
  match type with
  | .EVERYONE => [c]
  | .EVERYONE_BUT_ME => if c ≠ sender then [c] else []
  | .EVERYONE_BUT_ME_ON_MAP =>
      if c ≠ sender then if onMap w u (w.clients c).entity then [c] else [] else []
  | .NEARBY =>
      if onMap w u (w.clients c).entity then
        if nearby w (w.clients c).entity (w.clients sender).entity then [c] else []
      else []
  | .NEARBY_BUT_ME =>
      if onMap w u (w.clients c).entity then
        if c ≠ sender then
          if nearby w (w.clients c).entity (w.clients sender).entity then [c] else []
        else []
      else []

/-- What it asks for. -/
def asks (sender : ℕ) (type : SendType) (c : ℕ) : List (Option Entity) :=
  let near := nearbyAsks w (w.clients c).entity (w.clients sender).entity
  match type with
  | .EVERYONE => []
  | .EVERYONE_BUT_ME => []
  | .EVERYONE_BUT_ME_ON_MAP =>
      if c ≠ sender then onMapAsks w u (w.clients c).entity else []
  | .NEARBY =>
      onMapAsks w u (w.clients c).entity ++
        if onMap w u (w.clients c).entity then near else []
  | .NEARBY_BUT_ME =>
      onMapAsks w u (w.clients c).entity ++
        if onMap w u (w.clients c).entity then if c ≠ sender then near else [] else []

theorem logs_sendPacket (list : ClientList) (sender : ℕ) (type : SendType) :
    Logs (sendPacket w u list sender type) () (list.clients.flatMap (sends w u sender type))
      (list.clients.flatMap (asks w u sender type)) := by
  cases type with
  | EVERYONE => exact Logs.forM logs_send _
  | EVERYONE_BUT_ME =>
      refine Logs.forM (fun c => ?_) _
      have hsend := (logs_send c).guard (c ≠ sender)
      rwa [ite_self] at hsend
  | EVERYONE_BUT_ME_ON_MAP =>
      refine Logs.forM (fun c => ?_) _
      have hmap := (logs_isOnMap w u (w.clients c).entity).test (logs_send c)
      rw [ite_self, List.append_nil] at hmap
      exact hmap.guard (c ≠ sender)
  | NEARBY =>
      refine Logs.forM (fun c => ?_) _
      have hnear := (logs_isNearby w u (w.clients c).entity (w.clients sender).entity).test
        (logs_send c)
      rw [ite_self, List.append_nil] at hnear
      exact (logs_isOnMap w u (w.clients c).entity).test hnear
  | NEARBY_BUT_ME =>
      refine Logs.forM (fun c => ?_) _
      have hnear := (logs_isNearby w u (w.clients c).entity (w.clients sender).entity).test
        (logs_send c)
      rw [ite_self, List.append_nil] at hnear
      exact (logs_isOnMap w u (w.clients c).entity).test (hnear.guard (c ≠ sender))

/-! ## Which calls are right -/

variable {w u}

omit [Field K] [LinearOrder K] [FloorSemiring K] in
/-- All that the loop asks for one client is of valid entities if the one it looks at without
a check is valid. -/
theorem asks_valid_iff (sender : ℕ) (type : SendType) (c : ℕ) :
    (∀ entity ∈ asks w u sender type c, Valid w entity) ↔
      (Looked sender type c → Valid w (w.clients c).entity) := by
  -- what `is_nearby` asks for is valid, whether it is called or not
  have hnear : ∀ entity ∈ nearbyAsks w (w.clients c).entity (w.clients sender).entity,
      Valid w entity := fun entity => valid_of_mem_nearbyAsks
  have hskip : ∀ entity ∈ ([] : List (Option Entity)), Valid w entity :=
    fun entity h => absurd h List.not_mem_nil
  cases type with
  | EVERYONE => simp [asks, Looked]
  | EVERYONE_BUT_ME => simp [asks, Looked]
  | EVERYONE_BUT_ME_ON_MAP =>
      simp only [asks, Looked]
      split_ifs with hc
      · rw [← List.append_nil (onMapAsks _ _ _), onMapAsks_append_valid_iff hskip]
        exact ⟨fun h _ => h, fun h => h hc⟩
      · exact iff_of_true hskip fun h => absurd h hc
  | NEARBY =>
      simp only [asks, Looked, true_imp_iff]
      apply onMapAsks_append_valid_iff
      split_ifs
      · exact hnear
      · exact hskip
  | NEARBY_BUT_ME =>
      simp only [asks, Looked, true_imp_iff]
      apply onMapAsks_append_valid_iff
      split_ifs
      · exact hnear
      · exact hskip
      · exact hskip

theorem nearby_eq_true_iff {c c' : ℕ} :
    nearby w (w.clients c).entity (w.clients c').entity = true ↔ Near w c c' := by
  unfold nearby Near
  cases componentsOf w (w.clients c).entity with
  | none => simp
  | some comps => cases componentsOf w (w.clients c').entity <;> simp

/-- Where the loop only looks at valid entities, it sends to the clients that are named. -/
theorem sends_of_valid {sender : ℕ} {type : SendType} {c : ℕ}
    (h : Looked sender type c → Valid w (w.clients c).entity) :
    (Named w sender type c → sends w u sender type c = [c]) ∧
      (¬ Named w sender type c → sends w u sender type c = []) := by
  cases type with
  | EVERYONE => simp [sends, Named]
  | EVERYONE_BUT_ME => simp [sends, Named]
  | EVERYONE_BUT_ME_ON_MAP =>
      by_cases hc : c = sender
      · simp [sends, Named, hc]
      · simp [sends, Named, hc, onMap_eq_true_iff (h hc)]
  | NEARBY | NEARBY_BUT_ME =>
      have hmap := onMap_eq_true_iff (u := u) (h trivial)
      have hnear : nearby w (w.clients c).entity (w.clients sender).entity = true ↔ _ :=
        nearby_eq_true_iff
      simp only [sends, Named, ← hmap, ← hnear]
      split_ifs <;> simp_all

theorem flatMap_sends {list : ClientList} {sender : ℕ} {type : SendType}
    (h : ∀ c ∈ list.clients, Looked sender type c → Valid w (w.clients c).entity) :
    ∃ p : ℕ → Bool, (∀ c, p c = true ↔ Named w sender type c) ∧
      list.clients.flatMap (sends w u sender type) = list.clients.filter p := by
  classical
  refine ⟨fun c => decide (Named w sender type c), fun c => decide_eq_true_iff, ?_⟩
  generalize list.clients = clients at h
  induction clients with
  | nil => rfl
  | cons c clients ih =>
      rw [List.forall_mem_cons] at h
      obtain ⟨hnamed, hother⟩ := sends_of_valid (u := u) h.1
      rw [List.flatMap_cons, ih h.2, List.filter_cons]
      by_cases hc : Named w sender type c
      · rw [hnamed hc, if_pos (decide_eq_true hc)]
        rfl
      · rw [hother hc, if_neg (by simpa using hc)]
        rfl

/-- What a call looks at without a check is valid if the call is right. -/
theorem Right.valid_of_looked {list : ClientList} {sender : ℕ} {type : SendType}
    (h : Right w list sender type ((sendPacket w u list sender type).run {}).2) {c : ℕ}
    (hc : c ∈ list.clients) (hlooked : Looked sender type c) : Valid w (w.clients c).entity := by
  rw [logs_sendPacket w u list sender type {}] at h
  refine (asks_valid_iff (u := u) sender type c).mp (fun entity hentity => ?_) hlooked
  exact h.valid entity (List.mem_flatMap.mpr ⟨c, hc, hentity⟩)

/-- In every state of every run of the map server, a client that has connected and not joined
spoils the calls that look at it. -/
theorem not_right_of_unjoined (hinv : MapServer.Inv w) {list : ClientList} {sender : ℕ}
    {type : SendType} {c : ℕ} (hc : c ∈ list.clients) (hlooked : Looked sender type c)
    (hconnected : (w.clients c).connected = true)
    (hdefault : (w.clients c).loginState = .DEFAULT) :
    ¬ Right w list sender type ((sendPacket w u list sender type).run {}).2 := by
  intro h
  have hvalid := h.valid_of_looked hc hlooked
  rw [hinv.idle c hconnected hdefault] at hvalid
  exact absurd hvalid Bool.false_ne_true

end

/-- **When a broadcast is right**: the type asks for no entities, or those it looks at without
a check are valid. -/
theorem audience_iff {K D : Type} [Field K] [LinearOrder K] [FloorSemiring K] (w : World K D)
    (u : Unspecified K) (list : ClientList) (sender : ℕ) (type : SendType) :
    Right w list sender type ((sendPacket w u list sender type).run {}).2 ↔
      ∀ c ∈ list.clients, Looked sender type c → Valid w (w.clients c).entity := by
  constructor
  · exact fun h c hc hlooked => h.valid_of_looked hc hlooked
  · intro h
    rw [logs_sendPacket w u list sender type {}]
    dsimp only
    rw [List.nil_append, List.nil_append]
    obtain ⟨p, hp, hsent⟩ := flatMap_sends (u := u) h
    rw [hsent]
    refine ⟨fun c hc hnamed => ?_, fun c hc => ?_, fun entity hentity => ?_⟩
    · exact List.count_eq_one_of_mem (list.nodup.filter p)
        (List.mem_filter.mpr ⟨hc, (hp c).mpr hnamed⟩)
    · obtain ⟨hmem, hpc⟩ := List.mem_filter.mp hc
      exact ⟨hmem, (hp c).mp hpc⟩
    · obtain ⟨c, hc, hentity⟩ := List.mem_flatMap.mp hentity
      exact (asks_valid_iff sender type c).mpr (h c hc) entity hentity

/-! ## A client that has not joined -/

/-- Another client has connected. -/
def withNewcomer : ClientList where
  clients := [1, 0]
  nodup := by decide

def nothing : Unspecified ℚ where
  basic _ := none
  position _ := none

/-- What a client on the map says is not sent right until the other one has joined. -/
theorem not_right_newcomer : ¬ Right MapServer.onMapOne withNewcomer 0 .NEARBY
    ((sendPacket MapServer.onMapOne nothing withNewcomer 0 .NEARBY).run {}).2 := by
  intro h
  have hvalid := h.valid_of_looked (c := 1) List.mem_cons_self trivial
  exact absurd hvalid (by decide)

end OsIrose.Broadcast

/-
Joining the map server, with every step that can fail: `CMapClient::JoinServerReply` and
`EntitySystem::loadCharacter`.

A database statement may throw, an `sqlpp::exception` or another one, and so does
`ItemDatabase::getItemDef` for an item without a definition. `JoinServerReply` catches
`sqlpp::exception` only, and by then the client counts as logged in.
-/
import OsIrose.MapServer
import Mathlib.Data.Finset.Max
import Mathlib.Order.Fin.Basic

set_option autoImplicit false

namespace OsIrose.MapServer

open Function Inventory Characters Database Escape
open Movement (Position Destination)
open MapClient (LoginState SrvJoinServerReply CliJoinServerReq selectJoined updateWorld)

inductive Exception
  | sqlpp
  /-- `Core::AssertionFailureException`, or another one. -/
  | other
  deriving DecidableEq, Repr

/-- The calls that may throw. -/
inductive Statement
  /-- `getConnection` in `JoinServerReply`. -/
  | connection
  | selectSession
  /-- `getConnection` in `loadCharacter`. -/
  | loadConnection
  | selectCharacter
  | selectSkills
  | selectInventory
  | selectWishlist
  | updateSession
  deriving DecidableEq, Repr

/-- What the statements of a join throw. -/
abbrev Faults := Statement → Option Exception

/-- `Wishlist::maxWishes`. -/
def maxWishes : ℕ := 30

variable {K D : Type*}

/-! ## `loadCharacter` -/

/-- `Item::loadFromRow(row, builder)`. -/
def loadFromRow (env : Env K) (item : Item) (row : InventoryRow) : Except Exception Item :=
  match getItemDef env row.itemtype row.itemid with
  | none => .error .other
  | some itemDef => .ok
      -- an item whose script does not load leaves the old one
      { (buildItem env itemDef).getD item with
        count := row.amount
        refine := row.refine
        gemOpt := row.gemOpt
        hasSocket := row.socket ≠ 0 }

/-- `loadFromResult` of `Inventory` and `Wishlist`: the items, and the exception that ended
it. -/
def loadFromResult (env : Env K) (max : ℕ) : Items → List InventoryRow → Items × Option Exception
  | items, [] => (items, none)
  | items, row :: rows =>
      if row.slot ≥ max then loadFromResult env max items rows
      else match loadFromRow env (items row.slot) row with
        | .error ex => (items, some ex)
        | .ok item => loadFromResult env max (update items row.slot item) rows

/-- The rows of a character. -/
def rowsOf (rows : List InventoryRow) (charId : ℕ) : List InventoryRow :=
  rows.filter (fun row => row.charId = charId)

def noItems : Items := fun _ => {}

/-- `EntitySystem::loadCharacter`; its result is `none` for `Entity()`. -/
def loadCharacter (env : Env K) (faults : Faults) (tables : Tables K D) (es : EntitySystem K D)
    (charId : ℕ) : EntitySystem K D × Except Exception (Option Entity) :=
  match faults .loadConnection with
  | some ex => (es, .error ex)
  | none =>
  match faults .selectCharacter with
  | some ex => (es, .error ex)
  | none =>
  let entity := es.create.1
  let es := es.create.2
  match tables.characters charId with
  | none => (es.destroyEntity entity, .ok none)
  | some charRow =>
  let freeId := es.idManager.getFreeId env.front
  let comps : Components K D :=
    { position := some { x := charRow.x, y := charRow.y, map := charRow.map }
      basic := some { name := charRow.name, id := freeId.1 }
      rest := some charRow.rest
      character := some charId }
  let es := { es with idManager := freeId.2 }.assign entity comps
  match faults .selectSkills with
  | some ex => (es, .error ex)
  | none =>
  let comps := { comps with inventory := some noItems }
  match faults .selectInventory with
  | some ex => (es.assign entity comps, .error ex)
  | none =>
  let items := loadFromResult env maxItems noItems (rowsOf tables.inventory charId)
  let comps := { comps with inventory := some items.1 }
  match items.2 with
  | some ex => (es.assign entity comps, .error ex)
  | none =>
  match faults .selectWishlist with
  | some ex => (es.assign entity comps, .error ex)
  | none =>
  let wishes := loadFromResult env maxWishes noItems (rowsOf tables.wishlist charId)
  let comps := { comps with wishlist := some wishes.1 }
  match wishes.2 with
  | some ex => (es.assign entity comps, .error ex)
  | none => ((es.assign entity comps).registerEntity entity, .ok (some entity))

/-! ## `JoinServerReply` -/

namespace World

variable (w : World K D)

def send (c : ℕ) (reply : SrvJoinServerReply) : World K D :=
  w.setClient c { w.clients c with replies := (w.clients c).replies ++ [reply] }

/-- The client counts as logged in. -/
def logIn (c : ℕ) (row : SessionRow) (sessionID : ℕ) : World K D :=
  w.setClient c { w.clients c with
    loginState := .LOGGEDIN
    userid := row.userid
    charid := row.charid.getD 0
    sessionId := sessionID }

/-- The `try` block of `JoinServerReply`, and the exception that ended it. -/
def joinTry (env : Env K) (faults : Faults) (c : ℕ) (P : CliJoinServerReq) :
    World K D × Option Exception :=
  let sessionID := P.sessionId
  let password := escapeData P.password
  match faults .selectSession with
  | some ex => (w, some ex)
  | none =>
  match (selectJoined env.mysql w.accounts w.sessions sessionID password).head? with
  | none => (w.send c .INVALID_PASSWORD, none)
  | some (row, _) =>
  let w := w.logIn c row sessionID
  match loadCharacter env faults w.tables w.es (row.charid.getD 0) with
  | (es, .error ex) => ({ w with es }, some ex)
  | (es, .ok none) =>
      (({ w with es }.setClient c { w.clients c with entity := none }).send c .FAILED, none)
  | (es, .ok (some entity)) =>
      let w := { w with es }.setClient c { w.clients c with entity := some entity }
      match faults .updateSession with
      | some ex => (w, some ex)
      | none =>
          ({ w with
              es := w.es.assignSocket entity c
              sessions := updateWorld env.config w.sessions sessionID }.send c .OK, none)

/-- The `catch` block. -/
def joinCatch (c : ℕ) (result : World K D × Option Exception) : World K D × Option Exception :=
  match result.2 with
  | some .sqlpp => (result.1.send c .FAILED, none)
  | _ => result

/-- `CMapClient::JoinServerReply`, and the exception that leaves it. -/
def joinServerReply (env : Env K) (faults : Faults) (c : ℕ) (P : CliJoinServerReq) :
    World K D × Option Exception :=
  if (w.clients c).loginState ≠ .DEFAULT then (w, none)
  else match faults .connection with
    | some ex => (w, some ex)
    | none => joinCatch c (w.joinTry env faults c P)

@[simp] theorem logIn_es (c : ℕ) (row : SessionRow) (sessionID : ℕ) :
    (w.logIn c row sessionID).es = w.es := rfl

@[simp] theorem logIn_tables (c : ℕ) (row : SessionRow) (sessionID : ℕ) :
    (w.logIn c row sessionID).tables = w.tables := rfl

@[simp] theorem logIn_self (c : ℕ) (row : SessionRow) (sessionID : ℕ) :
    (w.logIn c row sessionID).clients c =
      { w.clients c with
        loginState := .LOGGEDIN
        userid := row.userid
        charid := row.charid.getD 0
        sessionId := sessionID } :=
  setClient_self w c _

@[simp] theorem send_es (c : ℕ) (reply : SrvJoinServerReply) : (w.send c reply).es = w.es := rfl

@[simp] theorem send_self (c : ℕ) (reply : SrvJoinServerReply) :
    (w.send c reply).clients c =
      { w.clients c with replies := (w.clients c).replies ++ [reply] } :=
  setClient_self w c _

end World

/-! ## What `loadCharacter` needs -/

/-- Every item that is read has a definition. -/
def Defined (env : Env K) (max : ℕ) (rows : List InventoryRow) : Prop :=
  ∀ row ∈ rows, row.slot < max → getItemDef env row.itemtype row.itemid ≠ none

theorem defined_cons {env : Env K} {max : ℕ} {row : InventoryRow} {rows : List InventoryRow} :
    Defined env max (row :: rows) ↔
      (row.slot < max → getItemDef env row.itemtype row.itemid ≠ none) ∧ Defined env max rows :=
  List.forall_mem_cons

theorem loadFromRow_eq_error_iff {env : Env K} {item : Item} {row : InventoryRow} :
    (∃ ex, loadFromRow env item row = .error ex) ↔
      getItemDef env row.itemtype row.itemid = none := by
  rw [loadFromRow]
  cases getItemDef env row.itemtype row.itemid <;> simp

theorem loadFromResult_iff {env : Env K} {max : ℕ} (items : Items) (rows : List InventoryRow) :
    (loadFromResult env max items rows).2 = none ↔ Defined env max rows := by
  induction rows generalizing items with
  | nil => simp [loadFromResult, Defined]
  | cons row rows ih =>
      rw [defined_cons, loadFromResult]
      split
      · rename_i hslot
        rw [ih, iff_and_self]
        exact fun _ hlt => absurd hlt (not_lt.mpr hslot)
      · rename_i hslot
        split
        · rename_i ex hrow
          have hdef := loadFromRow_eq_error_iff.mp ⟨ex, hrow⟩
          simp [hdef, not_le.mp hslot]
        · rename_i item hrow
          have hdef : getItemDef env row.itemtype row.itemid ≠ none := fun hnone => by
            obtain ⟨ex, hex⟩ := loadFromRow_eq_error_iff.mpr hnone
            rw [hrow] at hex
            cases hex
          rw [ih, iff_and_self]
          exact fun _ _ => hdef

/-- No step of `loadCharacter` fails. -/
def Loads (env : Env K) (faults : Faults) (tables : Tables K D) (charId : ℕ) : Prop :=
  (∀ statement ∈ [Statement.loadConnection, .selectCharacter, .selectSkills, .selectInventory,
      .selectWishlist], faults statement = none) ∧
    tables.characters charId ≠ none ∧
    Defined env maxItems (rowsOf tables.inventory charId) ∧
    Defined env maxWishes (rowsOf tables.wishlist charId)

/-- The entity system has one entity more, without a client, and the registrations of it;
the entity may have been destroyed again. -/
structure Extended (es es' : EntitySystem K D) : Prop where
  created : es'.created = es.created + 1
  components : ∀ e, e ≠ es.created → es'.components e = es.components e
  socket : ∀ comps, es'.components es.created = some comps → comps.socket = none
  deleteCommands : es'.deleteCommands = es.deleteCommands

namespace Extended

variable {es es' : EntitySystem K D}

theorem create (es : EntitySystem K D) : Extended es es.create.2 where
  created := rfl
  components := fun _ he => update_of_ne he _ _
  socket comps h := by
    rw [EntitySystem.create_self, Option.some.injEq] at h
    rw [← h]
  deleteCommands := rfl

theorem assign (h : Extended es es') {comps : Components K D} (hsocket : comps.socket = none) :
    Extended es (es'.assign es.created comps) where
  created := h.created
  components := fun e he => (es'.assign_of_ne he comps).trans (h.components e he)
  socket comps' h' := by
    rw [EntitySystem.assign_self, Option.some.injEq] at h'
    rw [← h', hsocket]
  deleteCommands := h.deleteCommands

theorem destroyEntity (h : Extended es es') : Extended es (es'.destroyEntity es.created) where
  created := h.created
  components := fun e he => (update_of_ne he _ _).trans (h.components e he)
  socket comps h' := by
    simp at h'
  deleteCommands := h.deleteCommands

theorem idManager (h : Extended es es') (ids : IdManager) :
    Extended es { es' with idManager := ids } :=
  ⟨h.created, h.components, h.socket, h.deleteCommands⟩

theorem registerEntity (h : Extended es es') (e : Entity) : Extended es (es'.registerEntity e) := by
  rw [EntitySystem.registerEntity]
  split
  · exact h
  · split
    · exact h
    · exact ⟨h.created, h.components, h.socket, h.deleteCommands⟩

end Extended

/-- The new entity is the character of the rows, and is not on the map. -/
structure Loaded (env : Env K) (tables : Tables K D) (charId : ℕ) (es es' : EntitySystem K D) :
    Prop where
  created : es'.created = es.created + 1
  components : ∃ row basic wishes, tables.characters charId = some row ∧ basic.isOnMap = false ∧
    es'.components es.created =
      some
        { position := some { x := row.x, y := row.y, map := row.map }
          basic := some basic
          rest := some row.rest
          character := some charId
          inventory := some
            (loadFromResult env maxItems noItems (rowsOf tables.inventory charId)).1
          wishlist := some wishes }

theorem registerEntity_components (es : EntitySystem K D) (e : Entity) :
    (es.registerEntity e).components = es.components := by
  rw [EntitySystem.registerEntity]
  split
  · rfl
  · split <;> rfl

theorem registerEntity_created (es : EntitySystem K D) (e : Entity) :
    (es.registerEntity e).created = es.created := by
  rw [EntitySystem.registerEntity]
  split
  · rfl
  · split <;> rfl

theorem loadCharacter_extended (env : Env K) (faults : Faults) (tables : Tables K D)
    (es : EntitySystem K D) (charId : ℕ) :
    (loadCharacter env faults tables es charId).1 = es ∨
      Extended es (loadCharacter env faults tables es charId).1 := by
  have hnew := (Extended.create es).idManager (es.create.2.idManager.getFreeId env.front).2
  rw [loadCharacter]
  split
  · exact .inl rfl
  split
  · exact .inl rfl
  dsimp only
  refine .inr ?_
  split
  · exact (Extended.create es).destroyEntity
  split
  · exact hnew.assign rfl
  split
  · exact (hnew.assign rfl).assign rfl
  split
  · exact (hnew.assign rfl).assign rfl
  split
  · exact (hnew.assign rfl).assign rfl
  split
  · exact (hnew.assign rfl).assign rfl
  · exact ((hnew.assign rfl).assign rfl).registerEntity es.created

theorem loadCharacter_of_loads {env : Env K} {faults : Faults} {tables : Tables K D} {charId : ℕ}
    (h : Loads env faults tables charId) (es : EntitySystem K D) :
    (loadCharacter env faults tables es charId).2 = .ok (some es.created) ∧
      Loaded env tables charId es (loadCharacter env faults tables es charId).1 := by
  obtain ⟨hfaults, hcharacter, hinventory, hwishlist⟩ := h
  simp only [List.forall_mem_cons] at hfaults
  obtain ⟨hconnection, hselect, hskills, hitems, hwishes, -⟩ := hfaults
  obtain ⟨charRow, hcharRow⟩ := Option.ne_none_iff_exists'.mp hcharacter
  have hloadedItems := (loadFromResult_iff noItems _).mpr hinventory
  have hloadedWishes := (loadFromResult_iff noItems _).mpr hwishlist
  simp only [loadCharacter, hconnection, hselect, hskills, hitems, hwishes, hcharRow,
    hloadedItems, hloadedWishes]
  refine ⟨rfl, ?_, ?_⟩
  · rw [registerEntity_created]
    rfl
  · rw [registerEntity_components]
    exact ⟨charRow, _, _, hcharRow, rfl, EntitySystem.assign_self _ _ _⟩

theorem loads_of_ok {env : Env K} {faults : Faults} {tables : Tables K D} {es : EntitySystem K D}
    {charId : ℕ} {e : Entity}
    (h : (loadCharacter env faults tables es charId).2 = .ok (some e)) :
    Loads env faults tables charId := by
  rw [loadCharacter] at h
  split at h
  · cases h
  rename_i hconnection
  split at h
  · cases h
  rename_i hselect
  dsimp only at h
  split at h
  · cases h
  rename_i charRow hcharRow
  split at h
  · cases h
  rename_i hskills
  split at h
  · cases h
  rename_i hitems
  split at h
  · cases h
  rename_i hinventory
  split at h
  · cases h
  rename_i hwishes
  split at h
  · cases h
  rename_i hwishlist
  refine ⟨?_, by simp [hcharRow], (loadFromResult_iff _ _).mp hinventory,
    (loadFromResult_iff _ _).mp hwishlist⟩
  simp [hconnection, hselect, hskills, hitems, hwishes]

/-! ## All or nothing -/

namespace World

/-- The join answers `OK` and the client has its entity, or it leaves the login state,
`entity_`, the entities, the registrations and the ids as they were. -/
def AllOrNothing (w w' : World K D) (c : ℕ) : Prop :=
  ((w'.clients c).replies = (w.clients c).replies ++ [.OK] ∧
      (w'.clients c).loginState = .LOGGEDIN ∧
      ∃ e, (w'.clients c).entity = some e ∧ w'.es.Valid e) ∨
    ((w'.clients c).replies ≠ (w.clients c).replies ++ [.OK] ∧
      (w'.clients c).loginState = (w.clients c).loginState ∧
      (w'.clients c).entity = (w.clients c).entity ∧
      (∀ e, w'.es.Valid e ↔ w.es.Valid e) ∧
      w'.es.nameToEntity = w.es.nameToEntity ∧ w'.es.idToEntity = w.es.idToEntity ∧
      w'.es.idManager = w.es.idManager)

/-- The join ends before the client counts as logged in, or no step after it fails. -/
def Completes (w : World K D) (env : Env K) (faults : Faults) (c : ℕ) (P : CliJoinServerReq) :
    Prop :=
  (w.clients c).loginState ≠ .DEFAULT ∨ faults .connection ≠ none ∨
    faults .selectSession ≠ none ∨
    ∀ row ∈ (selectJoined env.mysql w.accounts w.sessions P.sessionId
        (escapeData P.password)).head?,
      Loads env faults w.tables (row.1.charid.getD 0) ∧ faults .updateSession = none

variable {w : World K D} {env : Env K} {faults : Faults} {c : ℕ} {P : CliJoinServerReq}

theorem allOrNothing_of_same {w' : World K D} (hes : w'.es = w.es)
    (hreply : (w'.clients c).replies ≠ (w.clients c).replies ++ [.OK])
    (hstate : (w'.clients c).loginState = (w.clients c).loginState)
    (hentity : (w'.clients c).entity = (w.clients c).entity) : AllOrNothing w w' c :=
  .inr ⟨hreply, hstate, hentity, by simp [hes], by rw [hes], by rw [hes], by rw [hes]⟩

/-- A client that is logged in without the answer has neither. -/
theorem not_allOrNothing {w' : World K D} (h : (w.clients c).loginState = .DEFAULT)
    (hstate : (w'.clients c).loginState = .LOGGEDIN)
    (hreply : (w'.clients c).replies ≠ (w.clients c).replies ++ [.OK]) :
    ¬ AllOrNothing w w' c := by
  rintro (⟨hok, -⟩ | ⟨-, hsame, -⟩)
  · exact hreply hok
  · rw [hstate, h] at hsame
    cases hsame

/-- Once the session is found, a join with a step that fails leaves the client logged in,
with an exception or the answer `FAILED`. -/
theorem joinTry_of_fails {row : SessionRow × AccountRow} (hselect : faults .selectSession = none)
    (hrow : (selectJoined env.mysql w.accounts w.sessions P.sessionId
      (escapeData P.password)).head? = some row)
    (hfails : ¬ (Loads env faults w.tables (row.1.charid.getD 0) ∧
      faults .updateSession = none)) :
    ((w.joinTry env faults c P).1.clients c).loginState = .LOGGEDIN ∧
      (((w.joinTry env faults c P).2 ≠ none ∧
          ((w.joinTry env faults c P).1.clients c).replies = (w.clients c).replies) ∨
        ((w.joinTry env faults c P).2 = none ∧
          ((w.joinTry env faults c P).1.clients c).replies =
            (w.clients c).replies ++ [.FAILED])) := by
  simp only [joinTry, hselect, hrow]
  split
  · exact ⟨by simp, .inl ⟨by simp, by simp⟩⟩
  · exact ⟨by simp, .inr ⟨rfl, by simp⟩⟩
  · rename_i hload
    have hloads := loads_of_ok (congrArg Prod.snd hload)
    split
    · exact ⟨by simp, .inl ⟨by simp, by simp⟩⟩
    · rename_i hupdate
      exact absurd ⟨hloads, hupdate⟩ hfails

/-- With every step done the client has the answer and its entity. -/
theorem joinTry_of_loads {row : SessionRow × AccountRow} (hselect : faults .selectSession = none)
    (hrow : (selectJoined env.mysql w.accounts w.sessions P.sessionId
      (escapeData P.password)).head? = some row)
    (hloads : Loads env faults w.tables (row.1.charid.getD 0))
    (hupdate : faults .updateSession = none) :
    (w.joinTry env faults c P).2 = none ∧
      AllOrNothing w (w.joinTry env faults c P).1 c := by
  obtain ⟨hok, hloaded⟩ := loadCharacter_of_loads hloads w.es
  obtain ⟨charRow, basic, wishes, -, -, hcomps⟩ := hloaded.components
  obtain ⟨es, hes⟩ : ∃ es, es = (loadCharacter env faults w.tables w.es
    (row.1.charid.getD 0)).1 := ⟨_, rfl⟩
  have hload : loadCharacter env faults w.tables w.es (row.1.charid.getD 0) =
      (es, .ok (some w.es.created)) := Prod.ext hes.symm hok
  rw [← hes] at hcomps
  simp only [joinTry, hselect, hrow, logIn_es, logIn_tables, setClient_es, hload, hupdate,
    EntitySystem.assignSocket_of_some _ hcomps]
  refine ⟨trivial, .inl ⟨?_, ?_, w.es.created, ?_, ?_⟩⟩
  · simp
  · simp
  · simp
  · simp [EntitySystem.Valid]

/-- The `catch` block sends `FAILED` at most. -/
theorem joinCatch_spec (result : World K D × Option Exception) :
    (joinCatch c result).1.es = result.1.es ∧
      ((joinCatch c result).1.clients c).loginState = (result.1.clients c).loginState ∧
      ((joinCatch c result).1.clients c).entity = (result.1.clients c).entity ∧
      ((joinCatch c result).1.clients c).replies ≠ (result.1.clients c).replies ++ [.OK] := by
  rw [joinCatch]
  split
  · simp
  · simp

theorem joinCatch_of_returns {result : World K D × Option Exception} (h : result.2 = none) :
    joinCatch c result = result := by
  simp [joinCatch, h]

theorem joinCatch_iff (hstate : (w.clients c).loginState = .DEFAULT)
    (hconnection : faults .connection = none) :
    AllOrNothing w (joinCatch c (w.joinTry env faults c P)).1 c ↔ w.Completes env faults c P := by
  cases hselect : faults .selectSession with
  | some ex =>
      have htry : w.joinTry env faults c P = (w, some ex) := by simp [joinTry, hselect]
      rw [htry]
      obtain ⟨hes, hlogin, hentity, hreply⟩ :=
        joinCatch_spec (c := c) (w, some ex)
      exact iff_of_true (allOrNothing_of_same hes hreply hlogin hentity)
        (.inr (.inr (.inl (by simp [hselect]))))
  | none =>
      cases hrow : (selectJoined env.mysql w.accounts w.sessions P.sessionId
          (escapeData P.password)).head? with
      | none =>
          have htry : w.joinTry env faults c P = (w.send c .INVALID_PASSWORD, none) := by
            simp [joinTry, hselect, hrow]
          rw [htry, joinCatch_of_returns rfl]
          refine iff_of_true (allOrNothing_of_same rfl (by simp) (by simp) (by simp)) ?_
          exact .inr (.inr (.inr (by simp [hrow])))
      | some row =>
          by_cases hcompletes : Loads env faults w.tables (row.1.charid.getD 0) ∧
              faults .updateSession = none
          · obtain ⟨hreturns, hjoined⟩ :=
              joinTry_of_loads (c := c) hselect hrow hcompletes.1 hcompletes.2
            rw [joinCatch_of_returns hreturns]
            refine iff_of_true hjoined (.inr (.inr (.inr ?_)))
            simpa [hrow] using hcompletes
          · obtain ⟨hlogin, hanswer⟩ := joinTry_of_fails (c := c) hselect hrow hcompletes
            refine iff_of_false ?_ ?_
            · rcases hanswer with ⟨-, hreplies⟩ | ⟨hreturns, hreplies⟩
              · obtain ⟨-, hlogin', -, hreply⟩ := joinCatch_spec (c := c) (w.joinTry env faults c P)
                exact not_allOrNothing hstate (hlogin'.trans hlogin) (hreplies ▸ hreply)
              · rw [joinCatch_of_returns hreturns]
                exact not_allOrNothing hstate hlogin (by simp [hreplies])
            · rintro (h | h | h | h)
              · exact h hstate
              · exact h hconnection
              · exact h hselect
              · exact hcompletes (h row hrow)

/-- **Every join is all or nothing** if and only if it ends before the client counts as
logged in, or no step after it fails. -/
theorem join_allOrNothing_iff (w : World K D) (env : Env K) (faults : Faults) (c : ℕ)
    (P : CliJoinServerReq) :
    AllOrNothing w (w.joinServerReply env faults c P).1 c ↔ w.Completes env faults c P := by
  by_cases hstate : (w.clients c).loginState = .DEFAULT
  · cases hconnection : faults .connection with
    | some ex =>
        have hjoin : w.joinServerReply env faults c P = (w, some ex) := by
          simp [joinServerReply, hstate, hconnection]
        rw [hjoin]
        exact iff_of_true (allOrNothing_of_same rfl (by simp) rfl rfl)
          (.inr (.inl (by simp [hconnection])))
    | none =>
        have hjoin : w.joinServerReply env faults c P = joinCatch c (w.joinTry env faults c P) := by
          simp [joinServerReply, hstate, hconnection]
        rw [hjoin]
        exact joinCatch_iff hstate hconnection
  · have hjoin : w.joinServerReply env faults c P = (w, none) := by
      simp [joinServerReply, hstate]
    rw [hjoin]
    exact iff_of_true (allOrNothing_of_same rfl (by simp) rfl rfl) (.inl hstate)

/-- A server with no item definitions. -/
def sampleEnv : Env ℚ where
  mysql := plainMysql
  config := { ip := [], clientPort := 0 }
  itemDef _ _ := none
  scriptLoads _ := true
  front ids := if h : ids.Nonempty then ids.min' h else 0
  front_mem ids h := by
    rw [dif_pos h]
    exact ids.min'_mem h
  sqrt := id

/-- There are no characters. -/
def noCharacters : Tables ℚ Unit where
  characters _ := none
  inventory := []
  wishlist := []

/-- A client whose character is not there is logged in without an entity. -/
theorem joined_without_character :
    ¬ ∀ (w : World ℚ Unit) (env : Env ℚ) (faults : Faults) (c : ℕ) (P : CliJoinServerReq),
      (w.clients c).loginState = .DEFAULT → (w.clients c).entity = none →
        AllOrNothing w (w.joinServerReply env faults c P).1 c := by
  intro h
  have hjoin := h (start twoAccounts MapClient.sessionOf2 noCharacters) sampleEnv (fun _ => none) 0
    { sessionId := 7, password := [] } rfl rfl
  exact not_allOrNothing rfl (by decide +kernel) (by decide +kernel) hjoin

end World

end OsIrose.MapServer

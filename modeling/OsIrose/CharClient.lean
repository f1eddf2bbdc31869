/-
The character requests of a client of the char server, `CCharClient`
(`char/src/ccharclient.cpp`), with the procedures of `Database/osirose.sql` that they call.

The name of a new or a deleted character comes from the client. It is written into a `CALL`
between single quotes, where the MySQL server reads it as `Escape.scan` does, and a `VARCHAR`
parameter takes it. A statement that the server refuses throws; only
`SendCharCreateReply` catches it.

What a list shows is kept by id in `characterRealId_`, and a select gives an index into it.
-/
import OsIrose.Channels
import OsIrose.Characters
import OsIrose.Database
import OsIrose.Escape
import OsIrose.PacketReplies

set_option autoImplicit false

namespace OsIrose.CharClient

open ByteMem
open Channels (CharISC SrvSwitchServer)
open Characters (InventoryRow)
open Database (Sessions)
open Escape (escapeData scan quote)
open Packet (CharacterListReply MAX_EQUIPPED_ITEMS)

/-! ## The tables and their procedures -/

/-- The columns of `characters` that the requests read or write. -/
structure CharacterRow where
  id : ℕ
  userid : ℕ
  name : List Byte
  race : ℕ := 0
  level : ℕ := 1
  job : Option ℕ := some 0
  face : ℕ := 0
  hair : ℕ := 0
  stone : ℕ := 0
  map : ℤ := 1
  deleteDate : ℤ := 0
  deriving DecidableEq, Repr

structure Tables where
  characters : Table CharacterRow.id
  inventory : List InventoryRow
  sessions : Sessions

/-- The calls that carry a name. -/
inductive Call
  | createChar (name : List Byte) (userid : ℕ) (race face hair stone : BitVec 8)
  | deleteCharacter (charid : ℕ) (name : List Byte)

/-- What the MySQL server makes of what it gets: whether two texts of a column are the same
under its collation, and what a parameter of type `VARCHAR(n)` or `INT` holds, `none` if the
value is refused. A call whose name ends in front of its closing quote is some other
statement. -/
structure Mysql where
  sameText : List Byte → List Byte → Bool
  varchar : ℕ → List Byte → Option (List Byte)
  int : ℕ → Option ℕ
  int_of_lt : ∀ n, n < 2 ^ 31 → int n = some n
  other : Call → Tables → Option Tables

/-- `insert into inventory(char_id, itemid, itemtype, amount, slot) values(…, 1, …)`. -/
def starterItem (charid itemid itemtype slot : ℕ) : InventoryRow where
  charId := charid
  slot := slot
  itemid := itemid
  itemtype := itemtype
  amount := 1
  refine := 0
  gemOpt := 0
  socket := 0

/-- `create_char`. `id` is the next of `AUTO_INCREMENT`, `none` if the row is refused for
another reason than its name. -/
def createChar (my : Mysql) (t : Tables) (id : Option ℕ) (name : List Byte) (userid : ℕ)
    (race face hair stone : BitVec 8) : Option Tables := do
  let charid ← id
  guard (∀ row ∈ t.characters.rows, my.sameText row.name name = false)
  let characters ← t.characters.insert
    { id := charid, userid, name, race := race.toNat, face := face.toNat, hair := hair.toNat,
      stone := stone.toNat }
  let hatuid := if race = 0 then 222 else 221
  return { t with
    characters
    inventory := t.inventory ++ [starterItem charid 30 3 3, starterItem charid 1 8 7,
      starterItem charid hatuid 2 12] }

/-- `delete_character`. The rows of `inventory` go with the character. -/
def deleteCharacter (my : Mysql) (t : Tables) (charid : ℕ) (name : List Byte) : Tables :=
  let gone (row : CharacterRow) : Bool := row.id = charid ∧ my.sameText row.name name
  { t with
    characters := t.characters.delete gone
    inventory := t.inventory.filter (fun item =>
      ∀ row ∈ t.characters.rows, gone row → item.charId ≠ row.id) }

/-- `update_session_with_character`. -/
def updateSessionWithCharacter (t : Tables) (sessionid charid : ℕ) : Tables :=
  { t with
    sessions := t.sessions.update (fun row => row.id = sessionid)
      (fun row => { row with charid := some charid }) (fun _ => rfl) }

/-! ## The calls -/

/-- What `fmt` writes for a name between the quotes, `Core::escapeData(name.c_str())`. -/
def escaped (name : List Byte) : List Byte :=
  escapeData (name.takeWhile (· ≠ 0))

/-- `);` -/
def closing : List Byte := [0x29, 0x3B]

/-- `, `, in front of the other arguments. -/
def separator : List Byte := [0x2C, 0x20]

/-- `CALL create_char('{}', {}, {}, {}, {}, {});` -/
def callCreateChar (my : Mysql) (t : Tables) (id : Option ℕ) (name : List Byte) (userid : ℕ)
    (race face hair stone : BitVec 8) : Option Tables :=
  (scan (escaped name ++ quote :: separator)).bind fun r =>
    if r.2 = separator then
      (my.int userid).bind fun userid =>
        (my.varchar 24 r.1).bind fun text =>
          createChar my t id text userid race face hair stone
    else my.other (.createChar name userid race face hair stone) t

/-- `CALL delete_character({}, '{}');` -/
def callDeleteCharacter (my : Mysql) (t : Tables) (charid : ℕ) (name : List Byte) :
    Option Tables :=
  (scan (escaped name ++ quote :: closing)).bind fun r =>
    if r.2 = closing then
      (my.int charid).bind fun charid =>
        (my.varchar 20 r.1).map fun text => deleteCharacter my t charid text
    else my.other (.deleteCharacter charid name) t

/-- `CALL update_session_with_character({}, '{}');` -/
def callUpdateSession (my : Mysql) (t : Tables) (sessionid charid : ℕ) : Option Tables :=
  (my.int sessionid).bind fun sessionid =>
    (my.int charid).map fun charid => updateSessionWithCharacter t sessionid charid

/-! ## The client -/

/-- `CCharClient::eSTATE`. -/
inductive LoginState
  | DEFAULT
  | LOGGEDIN
  | TRANSFERING
  deriving DecidableEq, Repr

/-- The packets sent. A list is that of `rows`. -/
inductive Reply
  | charList (rows : List CharacterRow) (reply : CharacterListReply)
  | createChar (nameTaken : Bool)
  | deleteChar (remainingTime : BitVec 32) (name : List Byte)
  | switchServer (P : SrvSwitchServer)

/-- A client, the tables, and the servers that are registered. `sessionId_` and `userId_` are
those of a row of `sessions`, whose columns are an `INT`. -/
structure State where
  loginState : LoginState := .DEFAULT
  sessionId : ℕ := 0
  userId : ℕ := 0
  channelId : BitVec 32 := 0
  /-- `characterRealId_`. -/
  characterRealId : List ℕ := []
  sessionId_lt : sessionId < 2 ^ 31 := by decide
  userId_lt : userId < 2 ^ 31 := by decide
  sent : List Reply := []
  tables : Tables
  iscList : List CharISC := []

/-- `CliCreateCharReq`; the weapon and the zone are not read. -/
structure CliCreateCharReq where
  race : BitVec 8
  stone : BitVec 8
  hair : BitVec 8
  face : BitVec 8
  name : List Byte

structure CliDeleteCharReq where
  charId : BitVec 8
  isDelete : BitVec 8
  name : List Byte

/-- `CliSelectCharReq`; the modes and the name are not read. -/
structure CliSelectCharReq where
  charId : BitVec 8

/-- The MySQL server, and the memory that a client reads and has not written: the equipment
of a new `char_info`, and what lies behind the ids of `characterRealId_`. -/
structure Env where
  my : Mysql
  words : ℕ → List.Vector (BitVec 32) MAX_EQUIPPED_ITEMS
  behind : ℕ → ℕ

inductive Result
  | returned (b : Bool)
  | threw
  deriving DecidableEq, Repr

/-- What a handler leaves, and the indices at which it has read `characterRealId_`. -/
structure Handled where
  state : State
  result : Result
  reads : List ℕ := []

/-- `SrvCharacterListReply::getPosition`. -/
def getPosition : ℕ → BitVec 8
  | 1 => 4  -- goggles
  | 2 => 0  -- helmet
  | 3 => 1  -- armor
  | 4 => 5  -- backpack
  | 5 => 2  -- gauntlet
  | 6 => 3  -- boots
  | 7 => 6  -- right hand
  | 8 => 7  -- left hand
  | _ => 6

/-- `addEquipItem` for each item that the character wears. -/
def addEquipment (inventory : List InventoryRow) (id charid : ℕ) (reply : CharacterListReply) :
    CharacterListReply :=
  (inventory.filter (fun item => item.charId = charid ∧ item.slot < 10)).foldl
    (fun reply item => reply.addEquipItem (BitVec.ofNat 8 id) (getPosition item.slot)
      (BitVec.ofNat 16 item.itemid) 0 0 0) reply

/-- The loop of `SendCharListReply`. -/
def listReply (env : Env) (inventory : List InventoryRow) :
    (id : ℕ) → CharacterListReply → List CharacterRow → CharacterListReply
  | _, reply, [] => reply
  | id, reply, row :: rows =>
      listReply env inventory (id + 1)
        (addEquipment inventory id row.id
          (reply.addCharacter (env.words id) row.name (BitVec.ofNat 8 row.race)
            (BitVec.ofNat 16 row.level) (BitVec.ofNat 16 (row.job.getD 0))
            (BitVec.ofNat 32 row.face) (BitVec.ofNat 32 row.hair)
            (BitVec.ofInt 32 row.deleteDate))) rows

/-- `CCharClient::SendCharListReply`. -/
def sendCharListReply (env : Env) (s : State) : Handled :=
  if s.loginState ≠ .LOGGEDIN then { state := s, result := .returned true }
  else
    let rows := s.tables.characters.select (fun row => row.userid = s.userId)
    { state :=
        { s with
          characterRealId := rows.map CharacterRow.id
          sent := s.sent ++
            [.charList rows (listReply env s.tables.inventory 0 .empty rows)] }
      result := .returned true }

/-- `CCharClient::SendCharCreateReply`. -/
def sendCharCreateReply (env : Env) (s : State) (P : CliCreateCharReq) (id : Option ℕ) :
    Handled :=
  if s.loginState ≠ .LOGGEDIN then { state := s, result := .returned true }
  else
    match callCreateChar env.my s.tables id P.name s.userId P.race P.face P.hair P.stone with
    | some tables =>
        { state := { s with tables, sent := s.sent ++ [.createChar false] }
          result := .returned true }
    | none =>
        { state := { s with sent := s.sent ++ [.createChar true] }, result := .returned true }

/-- `CCharClient::SendCharDeleteReply`, at the time `now`. -/
def sendCharDeleteReply (env : Env) (s : State) (P : CliDeleteCharReq) (now : BitVec 32) :
    Handled :=
  if s.loginState ≠ .LOGGEDIN then { state := s, result := .returned true }
  else if P.charId > 6 then { state := s, result := .returned false }
  else if P.isDelete ≠ 0 then
    match callDeleteCharacter env.my s.tables s.userId P.name with
    | some tables =>
        { state := { s with tables, sent := s.sent ++ [.deleteChar now P.name] }
          result := .returned true }
    | none => { state := s, result := .threw }
  else
    { state := { s with sent := s.sent ++ [.deleteChar 0 P.name] }, result := .returned true }

/-- `CCharClient::SendCharSelectReply`. -/
def sendCharSelectReply (env : Env) (s : State) (P : CliSelectCharReq) : Handled :=
  if s.loginState ≠ .LOGGEDIN then { state := s, result := .returned true }
  else
    let s := { s with loginState := .TRANSFERING }
    let selected := P.charId.toNat
    if selected > s.characterRealId.length then { state := s, result := .returned false }
    else
      -- an index behind the last element is passed on
      let charid := s.characterRealId.getD selected (env.behind selected)
      match callUpdateSession env.my s.tables s.sessionId charid with
      | none => { state := s, result := .threw, reads := [selected] }
      | some tables =>
          -- the map of a character that is gone reads as 0
          let charRes := tables.characters.select (fun row => row.id = charid)
          let mapId := BitVec.ofInt 16 ((charRes.head?.map CharacterRow.map).getD 0)
          let switches := Channels.sendCharSelectReply s.iscList s.channelId
            (BitVec.ofNat 32 s.sessionId) mapId
          { state := { s with tables, sent := s.sent ++ switches.map .switchServer }
            result := .returned true
            reads := [selected, selected] }

end OsIrose.CharClient

/-
The way of a player through the servers: `login/src/cloginclient.cpp`,
`char/src/ccharclient.cpp` and `map/src/cmapclient.cpp`, each with its statements on the one
database that they share.

The login server checks a user name and a password, gives the client a session id and inserts
a row of `sessions` under it. A char server and a map server ask a client for a session id and
the password of the account of its row. Nothing else goes from one server to the next, so what
a client is let in as rests on the rows.

The clients of the three kinds are those of `LoginSessions`, `CharClient` and `MapClient`, and
what each of their steps does to the clients and the rows is said here once (`serves_next`,
`joinServerReply_cases`, `map_next`). A name that leaves its quotes makes another statement of a
`CALL`, so the names are to stay between theirs (`quoted`).
-/
import OsIrose.CharSelect
import OsIrose.LoginSessions
import OsIrose.MapClient
import OsIrose.Session

set_option autoImplicit false

namespace OsIrose.Handover

open ByteMem Database Runs
open CharClient (CharacterRow escaped separator closing)
open Characters (InventoryRow)
open Escape (escapeData scan quote)
open MapClient (CliJoinServerReq selectJoined)

/-! ## The servers and their tables -/

/-- The clients of a map server. -/
structure MapServer where
  clientCount : BitVec 32 := 0
  clients : ℕ → Option MapClient.Client := fun _ => none

/-- The login server with its tables, and the others. The clients of all char servers are
numbered together. -/
structure State where
  login : LoginSessions.State
  characters : Table CharacterRow.id
  inventory : List InventoryRow
  /-- The `AUTO_INCREMENT` of `characters`. -/
  nextId : ℕ
  chars : ℕ → CharClient.State
  maps : ℕ → MapServer

structure Env where
  login : Login.Env
  char : CharClient.Env
  /-- The configurations of the map servers. -/
  config : ℕ → MapClient.Config

namespace State

variable (s : State)

def accounts : Accounts :=
  s.login.login.accounts

def sessions : Sessions :=
  s.login.login.sessions

def setTables (accounts : Accounts) (sessions : Sessions) : State :=
  { s with login := { s.login with login := { s.login.login with accounts, sessions } } }

/-- A client of a char server, on the tables as they are. -/
def char (c : ℕ) : CharClient.State :=
  { s.chars c with
    tables := { characters := s.characters, inventory := s.inventory, sessions := s.sessions } }

def setChar (c : ℕ) (cl : CharClient.State) : State :=
  { s.setTables s.accounts cl.tables.sessions with
    characters := cl.tables.characters
    inventory := cl.tables.inventory
    chars := Function.update s.chars c cl }

/-- A map server, on the tables as they are. -/
def map (k : ℕ) : MapClient.State where
  accounts := s.accounts
  sessions := s.sessions
  clientCount := (s.maps k).clientCount
  clients := (s.maps k).clients

def setMap (k : ℕ) (m : MapClient.State) : State :=
  { s.setTables m.accounts m.sessions with
    maps := Function.update s.maps k { clientCount := m.clientCount, clients := m.clients } }

end State

/-- `CCharClient::JoinServerReply`; `channelid` is that of the row. What it sends is left
out. -/
def joinServerReply (my : Mysql) (accounts : Accounts) (cl : CharClient.State)
    (P : CliJoinServerReq) (channelid : ℕ) : CharClient.State :=
  if cl.loginState ≠ .DEFAULT then cl
  else
    let password := escapeData P.password
    match (selectJoined my accounts cl.tables.sessions P.sessionId password).head? with
    | none => cl
    | some (row, _) =>
        -- the columns of the row are an `INT`
        if h : P.sessionId < 2 ^ 31 ∧ row.userid < 2 ^ 31 then
          { cl with
            loginState := .LOGGEDIN
            userId := row.userid
            channelId := Channels.joinServer channelid
            sessionId := P.sessionId
            sessionId_lt := h.1
            userId_lt := h.2 }
        else cl

inductive Event
  | login (e : LoginSessions.Event)
  /-- The UPDATE of `deleteStaleSessions`. -/
  | setStaleOffline (now : ℕ)
  /-- The DELETE of `deleteStaleSessions`. -/
  | removeStaleSessions (now : ℕ)
  | charJoin (c : ℕ) (P : CliJoinServerReq) (channelid : ℕ)
  /-- A request of a client of a char server. -/
  | char (c : ℕ) (e : CharClient.Event)
  /-- The DELETE of `CCharClient::OnDisconnected`. -/
  | endSessions (c : ℕ)
  /-- The UPDATE of `CCharClient::OnDisconnected`. -/
  | charOffline (c : ℕ)
  /-- A packet or a disconnect of a client of a map server. -/
  | map (k : ℕ) (e : MapClient.Event)
  /-- The UPDATE of `saveCharacter`, and what it makes of the inventories. -/
  | saveCharacter (charid level : ℕ) (job : Option ℕ) (map : ℤ) (inventory : List InventoryRow)
  /-- `updateSession`, of a char server or a map server. -/
  | updateSession (userid now : ℕ)

/-- The `AUTO_INCREMENT` after a request that asks for a number. -/
def increment (nextId : ℕ) : CharClient.Event → Option ℕ
  | .create _ (some id) => if nextId ≤ id then some (id + 1) else none
  -- what the others do to the tables are events of their own
  | .others _ _ => none
  | _ => some nextId

/-- The state after one event, if it can happen. -/
def next (env : Env) (s : State) : Event → Option State
  | .login e =>
      (LoginSessions.next env.login s.login e).map fun login => { s with login := login }
  | .setStaleOffline now =>
      some (s.setTables (Session.setStaleOffline s.accounts s.sessions now) s.sessions)
  | .removeStaleSessions now =>
      some (s.setTables s.accounts (s.sessions.delete (Session.stale now)))
  | .charJoin c P channelid =>
      some (s.setChar c (joinServerReply env.login.mysql s.accounts (s.char c) P channelid))
  | .char c e =>
      (increment s.nextId e).map fun nextId =>
        -- the numbers that `create_char` has used up
        { s.setChar c (CharClient.next env.char (s.char c) e) with nextId := nextId }
  | .endSessions c =>
      some (s.setTables s.accounts
        (s.sessions.delete fun session => session.userid = (s.chars c).userId))
  | .charOffline c => some (s.setTables (setOffline s.accounts (s.chars c).userId) s.sessions)
  | .map _ (.others _ _) => none
  | .map k e =>
      (MapClient.next { mysql := env.login.mysql, config := env.config k } (s.map k) e).map
        (s.setMap k)
  | .saveCharacter charid level job map inventory =>
      some { s with
        characters := s.characters.update (fun row => row.id = charid)
          (fun row => { row with level := level, job := job, map := map }) (fun _ => rfl)
        inventory := inventory }
  | .updateSession userid now =>
      some (s.setTables s.accounts (Session.refresh s.sessions userid now))

def Step (env : Env) (s : State) (e : Event) (s' : State) : Prop :=
  next env s e = some s'

/-- The ids of a client that has not joined are 0. -/
theorem zero_lt_int : 0 < 2 ^ 31 := by decide

/-- The servers with nobody connected and no session. -/
def start (accounts : Accounts) (characters : Table CharacterRow.id)
    (inventory : List InventoryRow) (nextId : ℕ) : State :=
  let sessions : Sessions := { rows := [], unique := List.nodup_nil }
  { login := LoginSessions.start accounts sessions
    characters := characters
    inventory := inventory
    nextId := nextId
    chars := fun _ =>
      { sessionId_lt := zero_lt_int
        userId_lt := zero_lt_int
        tables := { characters, inventory, sessions } }
    maps := fun _ => {} }

/-- The name of a `CALL` stays between its quotes. -/
def Quoted (name rest : List Byte) : Prop :=
  ∃ text, scan (escaped name ++ quote :: rest) = some (text, rest)

def quoted (_ : State) : Event → Prop
  | .char _ (.create P _) => Quoted P.name separator
  | .char _ (.delete P _) => Quoted P.name closing
  | _ => True

/-! ## What a request of a client does -/

section Request

variable {env : CharClient.Env} {cl : CharClient.State}

/-- What a request can do: the client is who it was, the characters it lists or adds are those
of its account, and the sessions are those there were, up to the `charid` of a select. -/
structure Serves (e : CharClient.Event) (cl cl' : CharClient.State) : Prop where
  userId : cl'.userId = cl.userId
  sessionId : cl'.sessionId = cl.sessionId
  loginState : cl'.loginState = .DEFAULT ↔ cl.loginState = .DEFAULT
  listed : ∀ id ∈ cl'.characterRealId, id ∈ cl.characterRealId ∨
    cl.loginState ≠ .DEFAULT ∧ ∃ row ∈ cl.tables.characters.rows, row.id = id ∧
      row.userid = cl.userId
  characters : ∀ row ∈ cl'.tables.characters.rows, row ∈ cl.tables.characters.rows ∨
    ∃ P, e = .create P (some row.id)
  sessions : ∀ row ∈ cl'.tables.sessions.rows, ∃ row₀ ∈ cl.tables.sessions.rows,
    row.id = row₀.id ∧ row.userid = row₀.userid ∧
      (row.charid = row₀.charid ∨ ∃ P, e = .select P)

/-- A request that leaves the tables and the list alone. -/
theorem Serves.of_tables {e : CharClient.Event} {cl' : CharClient.State}
    (huserId : cl'.userId = cl.userId) (hsessionId : cl'.sessionId = cl.sessionId)
    (hstate : cl'.loginState = .DEFAULT ↔ cl.loginState = .DEFAULT)
    (hlisted : cl'.characterRealId = cl.characterRealId) (htables : cl'.tables = cl.tables) :
    Serves e cl cl' where
  userId := huserId
  sessionId := hsessionId
  loginState := hstate
  listed := fun _ hid => Or.inl (hlisted ▸ hid)
  characters := fun _ hrow => Or.inl (htables ▸ hrow)
  sessions := fun row hrow => ⟨row, htables ▸ hrow, rfl, rfl, Or.inl rfl⟩

theorem serves_list : Serves .list cl (CharClient.sendCharListReply env cl).state := by
  rw [CharClient.sendCharListReply]
  split_ifs with hstate
  · exact .of_tables rfl rfl Iff.rfl rfl rfl
  · refine ⟨rfl, rfl, Iff.rfl, fun id hid => Or.inr ⟨by simp [not_not.mp hstate], ?_⟩,
      fun _ hrow => Or.inl hrow, fun row hrow => ⟨row, hrow, rfl, rfl, Or.inl rfl⟩⟩
    -- what is listed is what the SELECT gives for the account
    obtain ⟨row, hrow, rfl⟩ := List.mem_map.mp hid
    obtain ⟨hrow, huserid⟩ := List.mem_filter.mp hrow
    exact ⟨row, hrow, rfl, of_decide_eq_true huserid⟩

/-- `create_char` adds a character under the number it is given. -/
theorem mem_createChar {my : CharClient.Mysql} {t t' : CharClient.Tables} {id : Option ℕ}
    {name : List Byte} {userid : ℕ} {race face hair stone : BitVec 8}
    (h : CharClient.createChar my t id name userid race face hair stone = some t') :
    t'.sessions = t.sessions ∧ ∀ row ∈ t'.characters.rows, row ∈ t.characters.rows ∨
      id = some row.id := by
  simp only [CharClient.createChar, Option.bind_eq_bind, Option.bind_eq_some_iff] at h
  obtain ⟨charid, rfl, _, _, characters, hinsert, h⟩ := h
  obtain rfl := Option.some.inj h
  refine ⟨rfl, fun row hrow => ?_⟩
  rcases (Table.mem_insert hinsert).mp hrow with hrow | rfl
  · exact Or.inl hrow
  · exact Or.inr rfl

theorem serves_create {P : CharClient.CliCreateCharReq} (hquoted : Quoted P.name separator)
    (id : Option ℕ) :
    Serves (.create P id) cl (CharClient.sendCharCreateReply env cl P id).state := by
  rw [CharClient.sendCharCreateReply]
  split_ifs
  · exact .of_tables rfl rfl Iff.rfl rfl rfl
  split
  · next tables hcall =>
      obtain ⟨text, htext⟩ := hquoted
      -- the name stays in its quotes, so the call is `create_char`
      simp only [CharClient.callCreateChar, htext, Option.bind_some, if_true] at hcall
      obtain ⟨userid, _, hcall⟩ := Option.bind_eq_some_iff.mp hcall
      obtain ⟨name, _, hcreate⟩ := Option.bind_eq_some_iff.mp hcall
      obtain ⟨hsessions, hcharacters⟩ := mem_createChar hcreate
      refine ⟨rfl, rfl, Iff.rfl, fun _ hid => Or.inl hid, fun row hrow => ?_, fun row hrow => ?_⟩
      · exact (hcharacters row hrow).imp_right fun hid => ⟨P, by rw [hid]⟩
      · exact ⟨row, hsessions ▸ hrow, rfl, rfl, Or.inl rfl⟩
  · exact .of_tables rfl rfl Iff.rfl rfl rfl

theorem serves_delete {P : CharClient.CliDeleteCharReq} (hquoted : Quoted P.name closing)
    (now : BitVec 32) :
    Serves (.delete P now) cl (CharClient.sendCharDeleteReply env cl P now).state := by
  rw [CharClient.sendCharDeleteReply]
  split_ifs
  · exact .of_tables rfl rfl Iff.rfl rfl rfl
  · exact .of_tables rfl rfl Iff.rfl rfl rfl
  · split
    · next tables hcall =>
        obtain ⟨text, htext⟩ := hquoted
        -- the call is `delete_character`, which only deletes
        simp only [CharClient.callDeleteCharacter, htext, Option.bind_some, if_true] at hcall
        obtain ⟨charid, _, hcall⟩ := Option.bind_eq_some_iff.mp hcall
        obtain ⟨name, _, rfl⟩ := Option.map_eq_some_iff.mp hcall
        refine ⟨rfl, rfl, Iff.rfl, fun _ hid => Or.inl hid, fun row hrow => Or.inl ?_,
          fun row hrow => ⟨row, hrow, rfl, rfl, Or.inl rfl⟩⟩
        exact (Table.mem_delete.mp hrow).1
    · exact .of_tables rfl rfl Iff.rfl rfl rfl
  · exact .of_tables rfl rfl Iff.rfl rfl rfl

/-- A row after `update_session_with_character` is one from before, but for its `charid`. -/
theorem mem_updateSessionWithCharacter {t : CharClient.Tables} {sessionid charid : ℕ}
    {row : SessionRow}
    (h : row ∈ (CharClient.updateSessionWithCharacter t sessionid charid).sessions.rows) :
    ∃ row₀ ∈ t.sessions.rows, row.id = row₀.id ∧ row.userid = row₀.userid ∧
      (row.charid = row₀.charid ∨ row.id = sessionid ∧ row.charid = some charid) := by
  obtain ⟨row₀, hrow₀, rfl⟩ := List.mem_map.mp h
  refine ⟨row₀, hrow₀, ?_⟩
  -- the row of the session, and any other
  by_cases hid : row₀.id = sessionid
  · simp [hid]
  · simp [hid]

theorem serves_select (P : CharClient.CliSelectCharReq) :
    Serves (.select P) cl (CharClient.sendCharSelectReply env cl P).state := by
  rw [CharClient.sendCharSelectReply]
  dsimp only
  split_ifs with hstate
  · exact .of_tables rfl rfl Iff.rfl rfl rfl
  · exact .of_tables rfl rfl (by simp [not_not.mp hstate]) rfl rfl
  · split
    · exact .of_tables rfl rfl (by simp [not_not.mp hstate]) rfl rfl
    · next tables hcall =>
        obtain ⟨sessionid, _, hcall⟩ := Option.bind_eq_some_iff.mp hcall
        obtain ⟨charid, _, rfl⟩ := Option.map_eq_some_iff.mp hcall
        refine ⟨rfl, rfl, by simp [not_not.mp hstate], fun _ hid => Or.inl hid,
          fun row hrow => Or.inl hrow, fun row hrow => ?_⟩
        obtain ⟨row₀, hrow₀, hid, huserid, _⟩ := mem_updateSessionWithCharacter hrow
        exact ⟨row₀, hrow₀, hid, huserid, Or.inr ⟨P, rfl⟩⟩

theorem serves_next {s : State} {c : ℕ} {e : CharClient.Event} {nextId : ℕ}
    (hquoted : quoted s (.char c e)) (hid : increment s.nextId e = some nextId) :
    Serves e cl (CharClient.next env cl e) := by
  cases e with
  | list => exact serves_list
  | create P id => exact serves_create hquoted id
  | delete P now => exact serves_delete hquoted now
  | select P => exact serves_select P
  | others tables iscList => exact absurd hid (by simp [increment])

end Request

/-! ## The accounts stay -/

/-- That is the password of the account. -/
def Knows (my : Mysql) (accounts : Accounts) (password : List Byte) (userid : ℕ) : Prop :=
  ∃ row ∈ accounts.rows, row.id = userid ∧ my.samePassword (escapeData password) row = true

/-- The accounts are still there, with their names and passwords. -/
def AccountsStay (accounts accounts' : Accounts) : Prop :=
  ∀ row ∈ accounts.rows, ∃ row' ∈ accounts'.rows, row'.id = row.id ∧
    row'.username = row.username ∧ row'.password = row.password ∧ row'.salt = row.salt

namespace AccountsStay

variable {my : Mysql} {accounts accounts' : Accounts}

theorem refl (accounts : Accounts) : AccountsStay accounts accounts :=
  fun row hrow => ⟨row, hrow, rfl, rfl, rfl, rfl⟩

/-- An UPDATE of other columns. -/
theorem update {p : AccountRow → Bool} {f : AccountRow → AccountRow}
    {hf : ∀ row, (f row).id = row.id}
    (h : ∀ row, (f row).username = row.username ∧ (f row).password = row.password ∧
      (f row).salt = row.salt) : AccountsStay accounts (accounts.update p f hf) := by
  intro row hrow
  refine ⟨_, Table.mem_update.mpr ⟨row, hrow, rfl⟩, ?_⟩
  split_ifs
  · exact ⟨hf row, h row⟩
  · exact ⟨rfl, rfl, rfl, rfl⟩

theorem setOffline (userid : ℕ) : AccountsStay accounts (Database.setOffline accounts userid) :=
  update fun _ => ⟨rfl, rfl, rfl⟩

theorem createAccount {username clientpass salt : List Byte} {id : ℕ}
    (h : Login.createAccount my accounts username clientpass id salt = some accounts') :
    AccountsStay accounts accounts' := by
  unfold Login.createAccount at h
  dsimp only at h
  split at h
  · exact absurd h (by simp)
  · exact fun row hrow => ⟨row, (Table.mem_insert h).mpr (Or.inl hrow), rfl, rfl, rfl, rfl⟩

theorem samePassword {row row' : AccountRow} (hpassword : row'.password = row.password)
    (hsalt : row'.salt = row.salt) (clientpass : List Byte) :
    my.samePassword clientpass row' = my.samePassword clientpass row := by
  rw [Mysql.samePassword, hpassword, hsalt, Mysql.samePassword]

theorem knows (h : AccountsStay accounts accounts') {password : List Byte} {userid : ℕ} :
    Knows my accounts password userid → Knows my accounts' password userid := by
  rintro ⟨row, hrow, hid, hpass⟩
  obtain ⟨row', hrow', hid', _, hpassword, hsalt⟩ := h row hrow
  exact ⟨row', hrow', hid'.trans hid, (samePassword hpassword hsalt _).trans hpass⟩

end AccountsStay

/-! ## Who is let in -/

/-- The row of the SELECT of a `JoinServerReply`. -/
theorem of_selectJoined {my : Mysql} {accounts : Accounts} {sessions : Sessions}
    {sessionID : ℕ} {password : List Byte} {row : SessionRow} {account : AccountRow}
    (h : (selectJoined my accounts sessions sessionID (escapeData password)).head? =
      some (row, account)) :
    row ∈ sessions.rows ∧ row.id = sessionID ∧ Knows my accounts password row.userid := by
  obtain ⟨hmem, hsame⟩ := List.mem_filter.mp (List.mem_of_mem_head? h)
  obtain ⟨hrow, haccount⟩ := List.pair_mem_product.mp hmem
  simp only [Bool.and_eq_true, decide_eq_true_eq] at hsame
  -- the three conditions of the WHERE
  obtain ⟨⟨huserid, hid⟩, hpass⟩ := hsame
  exact ⟨hrow, hid, account, haccount, huserid.symm, hpass⟩

/-- The client of a char server that is let in has the session id and the account of a row. -/
theorem joinServerReply_cases (my : Mysql) (accounts : Accounts) (cl : CharClient.State)
    (P : CliJoinServerReq) (channelid : ℕ) :
    joinServerReply my accounts cl P channelid = cl ∨
    cl.loginState = .DEFAULT ∧
      (joinServerReply my accounts cl P channelid).tables = cl.tables ∧
      (joinServerReply my accounts cl P channelid).characterRealId = cl.characterRealId ∧
      (joinServerReply my accounts cl P channelid).loginState ≠ .DEFAULT ∧
      (joinServerReply my accounts cl P channelid).sessionId = P.sessionId ∧
      ∃ row ∈ cl.tables.sessions.rows, row.id = P.sessionId ∧
        (joinServerReply my accounts cl P channelid).userId = row.userid ∧
        Knows my accounts P.password row.userid := by
  unfold joinServerReply
  dsimp only
  split_ifs with hstate
  · exact Or.inl rfl
  split
  · exact Or.inl rfl
  next row account hhead =>
    obtain ⟨hrow, hid, hknows⟩ := of_selectJoined hhead
    split_ifs
    · exact Or.inr ⟨not_not.mp hstate, rfl, rfl, by simp, rfl, row, hrow, hid, rfl, hknows⟩
    · exact Or.inl rfl

/-- What a client of a char server can be after an event: who it was, with a list of characters
of its account, or one that has joined with a row. -/
inductive CharEffect (my : Mysql) (s : State) (e : Event) (c : ℕ) (cl : CharClient.State) : Prop
  | stays (hstate : cl.loginState = .DEFAULT ↔ (s.chars c).loginState = .DEFAULT)
      (hsessionId : cl.sessionId = (s.chars c).sessionId)
      (huserId : cl.userId = (s.chars c).userId)
      (hlisted : ∀ id ∈ cl.characterRealId, id ∈ (s.chars c).characterRealId ∨
        (s.chars c).loginState ≠ .DEFAULT ∧ ∃ row ∈ s.characters.rows, row.id = id ∧
          row.userid = (s.chars c).userId)
  | joins (P : CliJoinServerReq) (channelid : ℕ) (he : e = .charJoin c P channelid)
      (hdefault : (s.chars c).loginState = .DEFAULT) (row : SessionRow)
      (hrow : row ∈ s.sessions.rows) (hid : row.id = P.sessionId)
      (hsessionId : cl.sessionId = P.sessionId) (huserId : cl.userId = row.userid)
      (hlisted : cl.characterRealId = (s.chars c).characterRealId)
      (hknows : Knows my s.accounts P.password row.userid)

theorem CharEffect.refl (my : Mysql) (s : State) (e : Event) (c : ℕ) :
    CharEffect my s e c (s.chars c) :=
  .stays Iff.rfl rfl rfl fun _ hid => Or.inl hid

/-- A client of a map server that has been let in, even if it has left since. -/
def Engaged (cl : MapClient.Client) : Prop :=
  cl.entity = true ∨ cl.loginState ≠ .DEFAULT

/-- What a client of a map server can be after an event: a new one, who it was, or one that has
joined with a row. -/
inductive MapEffect (my : Mysql) (m : MapClient.State) (e : MapClient.Event) (c : ℕ)
    (cl : MapClient.Client) : Prop
  | accepted (hnew : ¬ Engaged cl)
  | stays (cl₀ : MapClient.Client) (hcl : m.clients c = some cl₀)
      (hengaged : Engaged cl → Engaged cl₀) (hsessionId : cl.sessionId = cl₀.sessionId)
      (huserid : cl.userid = cl₀.userid) (hcharid : cl.charid = cl₀.charid)
  | joins (P : CliJoinServerReq) (outcome : MapClient.Outcome)
      (he : e = .joinServerReply c P outcome) (row : SessionRow) (hrow : row ∈ m.sessions.rows)
      (hid : row.id = P.sessionId) (hsessionId : cl.sessionId = P.sessionId)
      (huserid : cl.userid = row.userid) (hcharid : cl.charid = row.charid.getD 0)
      (hknows : Knows my m.accounts P.password row.userid)

/-- The rows are those there were, up to the other columns. -/
def RowsFrom (sessions sessions' : Sessions) : Prop :=
  ∀ row ∈ sessions'.rows, ∃ row₀ ∈ sessions.rows,
    row.id = row₀.id ∧ row.userid = row₀.userid ∧ row.charid = row₀.charid

theorem RowsFrom.refl (sessions : Sessions) : RowsFrom sessions sessions :=
  fun row hrow => ⟨row, hrow, rfl, rfl, rfl⟩

theorem RowsFrom.delete {sessions : Sessions} {p : SessionRow → Bool} :
    RowsFrom sessions (sessions.delete p) :=
  fun row hrow => ⟨row, (Table.mem_delete.mp hrow).1, rfl, rfl, rfl⟩

theorem RowsFrom.update {sessions : Sessions} {p : SessionRow → Bool}
    {f : SessionRow → SessionRow} {hf : ∀ row, (f row).id = row.id}
    (h : ∀ row, (f row).userid = row.userid ∧ (f row).charid = row.charid) :
    RowsFrom sessions (sessions.update p f hf) := by
  intro row hrow
  obtain ⟨row₀, hrow₀, rfl⟩ := Table.mem_update.mp hrow
  refine ⟨row₀, hrow₀, ?_⟩
  split_ifs
  · exact ⟨hf row₀, h row₀⟩
  · exact ⟨rfl, rfl, rfl⟩

/-- What `CMapClient::JoinServerReply` leaves: the client as it was or let in with a row, and
the rows. -/
theorem mapJoin_cases (my : Mysql) (config : MapClient.Config) (accounts : Accounts)
    (sessions : Sessions) (cl : MapClient.Client) (P : CliJoinServerReq)
    (outcome : MapClient.Outcome) {cl' : MapClient.Client} {sessions' : Sessions}
    (h : MapClient.joinServerReply my config accounts sessions cl P outcome = (cl', sessions')) :
    RowsFrom sessions sessions' ∧
    ((Engaged cl' → Engaged cl) ∧ cl'.sessionId = cl.sessionId ∧ cl'.userid = cl.userid ∧
        cl'.charid = cl.charid ∨
      ∃ row ∈ sessions.rows, row.id = P.sessionId ∧ cl'.sessionId = P.sessionId ∧
        cl'.userid = row.userid ∧ cl'.charid = row.charid.getD 0 ∧
        Knows my accounts P.password row.userid) := by
  unfold MapClient.joinServerReply at h
  dsimp only at h
  split_ifs at h
  · obtain ⟨rfl, rfl⟩ := Prod.mk.inj h
    exact ⟨RowsFrom.refl _, Or.inl ⟨id, rfl, rfl, rfl⟩⟩
  · obtain ⟨rfl, rfl⟩ := Prod.mk.inj h
    exact ⟨RowsFrom.refl _, Or.inl ⟨id, rfl, rfl, rfl⟩⟩
  split at h
  · obtain ⟨rfl, rfl⟩ := Prod.mk.inj h
    exact ⟨RowsFrom.refl _, Or.inl ⟨id, rfl, rfl, rfl⟩⟩
  next row account hhead =>
    -- the row is found: what happens later changes nothing of who the client is
    obtain ⟨hrow, hid, hknows⟩ := of_selectJoined hhead
    cases outcome with
    | ok =>
        obtain ⟨rfl, rfl⟩ := Prod.mk.inj h
        exact ⟨RowsFrom.update fun _ => ⟨rfl, rfl⟩,
          Or.inr ⟨row, hrow, hid, rfl, rfl, rfl, hknows⟩⟩
    | selectThrows | loadThrows | noCharacter | updateThrows =>
        obtain ⟨rfl, rfl⟩ := Prod.mk.inj h
        exact ⟨RowsFrom.refl _, Or.inr ⟨row, hrow, hid, rfl, rfl, rfl, hknows⟩⟩

theorem map_next {env : MapClient.Env} {m m' : MapClient.State} {e : MapClient.Event}
    (he : ∀ accounts sessions, e ≠ .others accounts sessions)
    (h : MapClient.next env m e = some m') :
    AccountsStay m.accounts m'.accounts ∧ RowsFrom m.sessions m'.sessions ∧
      ∀ c cl, m'.clients c = some cl → MapEffect env.mysql m e c cl := by
  -- a client that the event is not about stays
  have hothers : ∀ {c₀ : ℕ} {cl₀ : MapClient.Client}, MapEffect env.mysql m e c₀ cl₀ →
      ∀ c cl, Function.update m.clients c₀ (some cl₀) c = some cl →
        MapEffect env.mysql m e c cl := by
    intro c₀ cl₀ heffect c cl hcl
    rw [Function.update_apply] at hcl
    split_ifs at hcl with hc
    · obtain rfl := Option.some.inj hcl
      exact hc ▸ heffect
    · exact .stays cl hcl id rfl rfl rfl
  cases e with
  | onAccepted c =>
      -- only a client that was not there is accepted
      simp only [MapClient.next] at h
      split at h
      · exact absurd h (by simp)
      · obtain rfl := Option.some.inj h
        exact ⟨AccountsStay.refl _, RowsFrom.refl _, hothers (.accepted (by simp [Engaged]))⟩
  | joinServerReply c P outcome =>
      obtain ⟨cl, hcl, rfl⟩ := Option.map_eq_some_iff.mp h
      obtain ⟨hrows, hstays | ⟨row, hrow, hid, hsessionId, huserid, hcharid, hknows⟩⟩ :=
        mapJoin_cases env.mysql env.config m.accounts m.sessions cl P outcome rfl
      · exact ⟨AccountsStay.refl _, hrows,
          hothers (.stays cl hcl hstays.1 hstays.2.1 hstays.2.2.1 hstays.2.2.2)⟩
      · exact ⟨AccountsStay.refl _, hrows,
          hothers (.joins P outcome rfl row hrow hid hsessionId huserid hcharid hknows)⟩
  | switchServer c =>
      simp only [MapClient.next] at h
      split at h
      · next cl hcl =>
          -- it switches with an entity, so it had been let in
          obtain ⟨hentity, h⟩ := Option.ite_none_right_eq_some.mp h
          obtain rfl := Option.some.inj h
          exact ⟨AccountsStay.refl _, RowsFrom.refl _,
            hothers (.stays cl hcl (fun _ => Or.inl hentity) rfl rfl rfl)⟩
      · exact absurd h (by simp)
  | onDisconnected c =>
      obtain ⟨cl, hcl, rfl⟩ := Option.map_eq_some_iff.mp h
      unfold MapClient.onDisconnected
      dsimp only
      split_ifs with hstate hswitching
      · exact ⟨AccountsStay.refl _, RowsFrom.refl _, hothers (.stays cl hcl id rfl rfl rfl)⟩
      · exact ⟨AccountsStay.setOffline _, RowsFrom.refl _,
          hothers (.stays cl hcl (fun _ => Or.inr hstate) rfl rfl rfl)⟩
      · exact ⟨AccountsStay.refl _, RowsFrom.refl _,
          hothers (.stays cl hcl (fun _ => Or.inr hstate) rfl rfl rfl)⟩
  | others accounts sessions => exact absurd rfl (he accounts sessions)

end OsIrose.Handover

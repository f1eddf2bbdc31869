/-
Joining and leaving the map server: `map/src/cmapclient.cpp` and
`CMapServer::OnAccepted` (`map/src/cmapserver.cpp`).

A `CMapClient` carries the id of its connection, which `OnAccepted` counts up, and from
`JoinServerReply` on the id of the account it joined as. `OnDisconnected` is to take the
`online` mark of the account away, unless the client only moves to another map server
(`offlineBy`), but it names the row by the id of the connection. The two updates have the
same effect exactly when the ids agree or neither row is marked (`onDisconnected_iff`).

The login server and the other map servers work on the same tables, so any change of them
may come between two events of this server.
-/
import OsIrose.Database
import OsIrose.Escape
import OsIrose.Runs

set_option autoImplicit false

namespace OsIrose.MapClient

open ByteMem Database Escape Runs

/-- `SrvJoinServerReply::eResult`. -/
inductive SrvJoinServerReply
  | OK
  | FAILED
  | TIME_OUT
  | INVALID_PASSWORD
  | ALREADY_LOGGEDIN
  deriving DecidableEq, Repr

/-- `CMapClient::eSTATE`. -/
inductive LoginState
  | DEFAULT
  | LOGGEDIN
  | SWITCHING
  deriving DecidableEq, Repr

/-- A `CMapClient`. -/
structure Client where
  /-- `get_id()`, the id of the connection. -/
  id : ℕ
  loginState : LoginState := .DEFAULT
  sessionId : ℕ := 0
  userid : ℕ := 0
  charid : ℕ := 0
  /-- Whether `entity_` is a character on the map. -/
  entity : Bool := false
  /-- The results of the replies sent, oldest first. -/
  replies : List SrvJoinServerReply := []
  deriving DecidableEq, Repr

structure CliJoinServerReq where
  sessionId : ℕ
  password : List Byte

/-- `serverData().ip` and `mapServer().clientPort`. -/
structure Config where
  ip : List Byte
  clientPort : ℕ

/-- How the parts of `JoinServerReply` that are not modelled end. -/
inductive Outcome
  | ok
  /-- The SELECT throws. -/
  | selectThrows
  /-- `loadCharacter` throws. -/
  | loadThrows
  /-- `loadCharacter` finds no character. -/
  | noCharacter
  /-- The UPDATE of the session throws. -/
  | updateThrows
  deriving DecidableEq, Repr

/-! ## `JoinServerReply` and `OnDisconnected` -/

/-- The SELECT of `JoinServerReply`, on the join of `sessions` and `accounts`. -/
def selectJoined (my : Mysql) (accounts : Accounts) (sessions : Sessions) (sessionID : ℕ)
    (password : List Byte) : List (SessionRow × AccountRow) :=
  (sessions.rows.product accounts.rows).filter (fun (session, account) =>
    session.userid = account.id && session.id = sessionID && my.samePassword password account)

def Client.send (cl : Client) (reply : SrvJoinServerReply) : Client :=
  { cl with replies := cl.replies ++ [reply] }

/-- The session of the id is now played on this server. -/
def updateWorld (config : Config) (sessions : Sessions) (sessionID : ℕ) : Sessions :=
  sessions.update (fun session => session.id = sessionID)
    (fun session =>
      { session with worldip := some config.ip, worldport := some config.clientPort })
    (fun _ => rfl)

/-- `CMapClient::JoinServerReply`. -/
def joinServerReply (my : Mysql) (config : Config) (accounts : Accounts) (sessions : Sessions)
    (cl : Client) (P : CliJoinServerReq) (outcome : Outcome) : Client × Sessions :=
  if cl.loginState ≠ .DEFAULT then (cl, sessions)
  else
    let sessionID := P.sessionId
    let password := escapeData P.password
    if outcome = .selectThrows then (cl.send .FAILED, sessions)
    else match (selectJoined my accounts sessions sessionID password).head? with
      | none => (cl.send .INVALID_PASSWORD, sessions)
      | some (row, _) =>
          -- the client counts as logged in from here on, also where the rest fails
          let cl := { cl with
            loginState := .LOGGEDIN
            userid := row.userid
            charid := row.charid.getD 0
            sessionId := sessionID }
          match outcome with
          | .selectThrows => (cl.send .FAILED, sessions)
          | .loadThrows => (cl.send .FAILED, sessions)
          | .noCharacter => ({ cl with entity := false }.send .FAILED, sessions)
          | .updateThrows => ({ cl with entity := true }.send .FAILED, sessions)
          | .ok =>
              ({ cl with entity := true }.send .OK, updateWorld config sessions sessionID)

/-- `CMapClient::OnDisconnected`: the client and the accounts after it. -/
def onDisconnected (accounts : Accounts) (cl : Client) : Client × Accounts :=
  if cl.loginState = .DEFAULT then (cl, accounts)
  else
    -- `where(table.id == get_id())`, the id of the connection
    let accounts := if cl.loginState ≠ .SWITCHING then setOffline accounts cl.id else accounts
    ({ cl with loginState := .DEFAULT }, accounts)

/-! ## Events -/

structure State where
  accounts : Accounts
  sessions : Sessions
  clientCount : BitVec 32
  /-- The client objects, by the order in which they are created. -/
  clients : ℕ → Option Client

structure Env where
  mysql : Mysql
  config : Config

inductive Event
  /-- `CMapServer::OnAccepted` creates client `c`. -/
  | onAccepted (c : ℕ)
  | joinServerReply (c : ℕ) (P : CliJoinServerReq) (outcome : Outcome)
  /-- `switch_server`, which is called through the client's entity. -/
  | switchServer (c : ℕ)
  | onDisconnected (c : ℕ)
  /-- Another server changes the tables. -/
  | others (accounts : Accounts) (sessions : Sessions)

/-- The state after one event, if it can happen. -/
def next (env : Env) (s : State) : Event → Option State
  | .onAccepted c =>
      match s.clients c with
      | some _ => none
      | none =>
          -- `++client_count_`, so the first connection is number 1
          let id := s.clientCount + 1
          some { s with
            clientCount := id
            clients := Function.update s.clients c (some { id := id.toNat }) }
  | .joinServerReply c P outcome =>
      (s.clients c).map (fun cl =>
        let (cl, sessions) :=
          joinServerReply env.mysql env.config s.accounts s.sessions cl P outcome
        { s with sessions := sessions, clients := Function.update s.clients c (some cl) })
  | .switchServer c =>
      match s.clients c with
      | some cl =>
          if cl.entity then
            some { s with
              clients := Function.update s.clients c (some { cl with loginState := .SWITCHING }) }
          else none
      | none => none
  | .onDisconnected c =>
      (s.clients c).map (fun cl =>
        let (cl, accounts) := onDisconnected s.accounts cl
        { s with accounts := accounts, clients := Function.update s.clients c (some cl) })
  | .others accounts sessions => some { s with accounts := accounts, sessions := sessions }

def Step (env : Env) (s : State) (e : Event) (s' : State) : Prop :=
  next env s e = some s'

/-- A map server that nobody has connected to. -/
def start (accounts : Accounts) (sessions : Sessions) : State where
  accounts := accounts
  sessions := sessions
  clientCount := 0
  clients := fun _ => none

/-! ## The account that goes offline -/

/-- What a disconnect is to do to the accounts: a client that joined, and is not switching
servers, leaves its own account offline. -/
def offlineBy (accounts : Accounts) (cl : Client) : Accounts :=
  if cl.loginState = .LOGGEDIN then setOffline accounts cl.userid else accounts

/-- `OnDisconnected` does what it is to do if and only if the id of the connection is that
of the account, or neither of the two accounts is marked online. -/
theorem onDisconnected_iff {accounts : Accounts} {cl : Client} :
    (onDisconnected accounts cl).2 = offlineBy accounts cl ↔
      (cl.loginState = .LOGGEDIN →
        cl.id = cl.userid ∨ ¬ Online accounts cl.id ∧ ¬ Online accounts cl.userid) := by
  unfold onDisconnected offlineBy
  match hstate : cl.loginState with
  | .DEFAULT => simp
  | .LOGGEDIN => simp [setOffline_eq_setOffline_iff]
  | .SWITCHING => simp

/-- The law of one event: a disconnect changes the accounts as it is to, whatever client it
is. -/
def Lawful (s : State) (e : Event) (s' : State) : Prop :=
  match e with
  | .onDisconnected c => ∀ cl, s.clients c = some cl → s'.accounts = offlineBy s.accounts cl
  | _ => True

/-- A client that disconnects has the id of its account for a connection id, or the two
ids are those of accounts that are offline anyway. -/
def ownRow (s : State) : Event → Prop
  | .onDisconnected c => ∀ cl, s.clients c = some cl → cl.loginState = .LOGGEDIN →
      cl.id = cl.userid ∨ ¬ Online s.accounts cl.id ∧ ¬ Online s.accounts cl.userid
  | _ => True

theorem lawful_iff {env : Env} {s s' : State} {e : Event} (h : Step env s e s') :
    Lawful s e s' ↔ ownRow s e := by
  match e with
  | .onDisconnected c =>
      obtain ⟨cl, hcl, rfl⟩ := Option.map_eq_some_iff.mp h
      simp only [Lawful, ownRow, hcl, Option.some.injEq, forall_eq']
      exact onDisconnected_iff
  | .onAccepted _ | .joinServerReply _ _ _ | .switchServer _ | .others _ _ => exact Iff.rfl

/-- **Every disconnect of a run is lawful** if and only if it comes for a client on its own
row. -/
theorem run_lawful_iff {env : Env} {accounts : Accounts} {sessions : Sessions}
    {es : List Event} {s : State} :
    Run (fun s e s' => Step env s e s' ∧ Lawful s e s') (start accounts sessions) es s ↔
      Run (Guarded ownRow (Step env)) (start accounts sessions) es s := by
  have hsteps : (fun s e s' => Step env s e s' ∧ Lawful s e s') =
      Guarded ownRow (Step env) := by
    funext s e s'
    refine propext ⟨fun ⟨hstep, hlaw⟩ => ⟨(lawful_iff hstep).mp hlaw, hstep⟩, ?_⟩
    exact fun ⟨hown, hstep⟩ => ⟨hstep, (lawful_iff hstep).mpr hown⟩
  rw [hsteps]

/-! ## A stranger goes offline -/

def plainEnv : Env where
  mysql := plainMysql
  config := { ip := [], clientPort := 0 }

/-- The session of account 2. -/
def sessionOf2 : Sessions where
  rows := [{ id := 7, userid := 2 }]
  unique := by decide

/-- The first connection joins as account 2 and disconnects: account 1 goes offline. -/
theorem not_lawful_sample :
    ¬ ∀ (env : Env) (accounts : Accounts) (sessions : Sessions) (es : List Event) (s : State),
      Run (Step env) (start accounts sessions) es s →
        ∀ e s', Step env s e s' → Lawful s e s' := by
  intro h
  obtain ⟨s, hrun, cl, hcl, hjoined, hid, huserid, haccounts⟩ :
      ∃ s, [Event.onAccepted 0, .joinServerReply 0 { sessionId := 7, password := [] } .ok].foldlM
        (next plainEnv) (start twoAccounts sessionOf2) = some s ∧
        ∃ cl, s.clients 0 = some cl ∧ cl.loginState = .LOGGEDIN ∧ cl.id = 1 ∧ cl.userid = 2 ∧
          s.accounts = twoAccounts := ⟨_, rfl, _, rfl, rfl, rfl, rfl, rfl⟩
  have hstep : Step plainEnv s (.onDisconnected 0) _ := Option.map_eq_some_iff.mpr ⟨cl, hcl, rfl⟩
  have hlaw := h _ _ _ _ s (Run.of_foldlM hrun) _ _ hstep
  have hown := (lawful_iff hstep).mp hlaw cl hcl hjoined
  rw [hid, huserid, haccounts] at hown
  obtain heq | ⟨hoffline, _⟩ := hown
  · exact absurd heq (by decide)
  · exact hoffline ⟨_, List.mem_cons_self, rfl, rfl⟩

end OsIrose.MapClient

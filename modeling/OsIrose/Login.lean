/-
The login server's accounts: `login/src/cloginclient.cpp`.

`CLoginClient::UserLogin` reads the account's row, then the sessions of the account, and
only then writes `online = 1`; `CLoginClient::OnDisconnected` reads a session and then
writes `online = 0`. The statements of any number of connections interleave, so every
statement is an event of its own here, and a connection's `userLogin` and
`onDisconnected` say which one it executes next. `UserLogin` decides on the row it read,
not on the row that is there when it writes.

For each account, `online` and the connections that got `OK` are a `Lock`: the UPDATE of
`UserLogin` takes it and the UPDATE of `OnDisconnected` frees it. A connection gets `OK`
alone if both come when the lock allows it (`orderly`, `gotOk_unique`); nothing in the
code makes sure of that.

The network layer may call `OnDisconnected` several times for a connection, and a handler
may still be at work when its socket is closed. What a reply carries beside its result is
left out, and so are `lastip` and `lasttime`, which nothing reads.
-/
import OsIrose.Database
import OsIrose.Escape
import OsIrose.Lock

set_option autoImplicit false

namespace OsIrose.Login

open ByteMem Database Escape Runs

/-- `SrvLoginReply::eResult`. -/
inductive SrvLoginReply
  | OK
  | FAILED
  | UNKNOWN_ACCOUNT
  | INVALID_PASSWORD
  | ALREADY_LOGGEDIN
  | REFUSED_ACCOUNT
  | NEED_CHARGE
  | NO_RIGHT_TO_CONNECT
  | TOO_MANY_USERS
  | NO_NAME
  | INVALID_VERSION
  | OUTSIDE_REGION
  deriving DecidableEq, Repr

/-- `CLoginClient::eSTATE`. -/
inductive LoginState
  | DEFAULT
  | LOGGEDIN
  | TRANSFERING
  deriving DecidableEq, Repr

structure CliLoginReq where
  username : List Byte
  password : List Byte

/-- The next statement of `UserLogin`, with the locals it uses. -/
inductive UserLogin
  | idle
  | selectAccount (username clientpass : List Byte)
  | selectSession (row : AccountRow)
  | updateAccount (row : AccountRow)
  | replyOk
  | selectUsername (username clientpass : List Byte)
  | createAccount (username clientpass : List Byte)
  deriving DecidableEq

/-- The next statement of `OnDisconnected`. -/
inductive OnDisconnected
  | idle
  | selectSession
  | updateAccount
  deriving DecidableEq

/-- A `CLoginClient`. -/
structure Client where
  accessRights : BitVec 16 := 0
  loginState : LoginState := .DEFAULT
  userid : ℕ := 0
  sessionId : ℕ := 0
  /-- The results of the replies sent, oldest first. -/
  replies : List SrvLoginReply := []
  userLogin : UserLogin := .idle
  /-- The socket has been shut down. -/
  closed : Bool := false
  onDisconnected : OnDisconnected := .idle

structure State where
  accounts : Accounts
  sessions : Sessions
  clients : ℕ → Client

/-- `createAccountOnFail` of the configuration, and the MySQL server. -/
structure Env where
  mysql : Mysql
  createAccountOnFail : Bool

/-! ## `UserLogin` -/

/-- `CLoginClient::SendLoginReply`; `UserLogin` returns after it. -/
def Client.sendLoginReply (cl : Client) (result : SrvLoginReply) : Client :=
  { cl with
    loginState := if result = .OK then .LOGGEDIN else cl.loginState
    replies := cl.replies ++ [result]
    userLogin := .idle }

/-- `CLoginClient::UserLogin` up to its first statement. -/
def Client.beginLogin (cl : Client) (P : CliLoginReq) (serverCount : ℕ) : Client :=
  if cl.loginState ≠ .DEFAULT then cl
  -- the servers are under inspection
  else if serverCount < 1 then cl.sendLoginReply .FAILED
  else { cl with userLogin := .selectAccount (escapeData P.username) (escapeData P.password) }

/-- The SELECT of the account with that name and password. -/
def Client.selectAccount (cl : Client) (my : Mysql) (accounts : Accounts)
    (username clientpass : List Byte) : Client :=
  let res := accounts.select
    (fun row => my.sameText row.username username && my.samePassword clientpass row)
  -- `res.front()`
  match res.head? with
  | some row => { cl with userLogin := .selectSession row }
  | none => { cl with userLogin := .selectUsername username clientpass }

/-- The SELECT of the account's sessions, and the decision on the row read before. -/
def Client.selectSession (cl : Client) (sessions : Sessions) (now : ℕ) (row : AccountRow) :
    Client :=
  let ses := sessions.select (fun session => session.userid = row.id)
  let accessRights := match row.access with
    | some access => BitVec.ofInt 16 access
    | none => cl.accessRights
  let cl := { cl with accessRights := accessRights }
  -- banned
  if accessRights < 1 then cl.sendLoginReply .NO_RIGHT_TO_CONNECT
  -- `online` of the row read, which another connection may have changed since
  else if !row.online && ses.isEmpty then
    { cl with
      userid := row.id
      sessionId := now % 2 ^ 32
      userLogin := .updateAccount row }
  else cl.sendLoginReply .ALREADY_LOGGEDIN

/-- The UPDATE of the account; `loginCount` is that of the row read. -/
def updateAccount (accounts : Accounts) (userid : ℕ) (row : AccountRow) : Accounts :=
  accounts.update (fun row' => row'.id = userid)
    (fun row' => { row' with online := true, loginCount := row.loginCount + 1 }) (fun _ => rfl)

/-- The SELECT of an account with that name, after the first one found none. -/
def Client.selectUsername (cl : Client) (env : Env) (accounts : Accounts)
    (username clientpass : List Byte) : Client :=
  let res := accounts.select (fun row => env.mysql.sameText row.username username)
  if !res.isEmpty then cl.sendLoginReply .INVALID_PASSWORD
  else if env.createAccountOnFail then
    { cl with userLogin := .createAccount username clientpass }
  else cl.sendLoginReply .UNKNOWN_ACCOUNT

/-- `CALL create_account('username', 'clientpass')`, with the id and the salt that the
server generates. -/
def createAccount (my : Mysql) (accounts : Accounts) (username clientpass : List Byte)
    (id : ℕ) (salt : List Byte) : Option Accounts :=
  let user := my.literal username
  -- `username` is a unique key
  if accounts.rows.any (fun row => my.sameText row.username user) then none
  else accounts.insert
    { id := id
      username := user
      password := my.sha2 (my.literal clientpass ++ salt)
      salt := salt }

/-! ## Events -/

inductive Event
  /-- `UserLogin` is called; the server list has `serverCount` CHAR servers. -/
  | userLogin (c : ℕ) (P : CliLoginReq) (serverCount : ℕ)
  | selectAccount (c : ℕ)
  | selectSession (c now : ℕ)
  | updateAccount (c : ℕ)
  /-- `SendLoginReply(OK)`. -/
  | replyOk (c : ℕ)
  | selectUsername (c : ℕ)
  | createAccount (c id : ℕ) (salt : List Byte)
  /-- The next statement of `UserLogin` throws. -/
  | throws (c : ℕ)
  /-- The socket is shut down, `OnDisconnected` is called. -/
  | disconnect (c : ℕ)
  | selectOldSession (c : ℕ)
  | updateOffline (c : ℕ)

def State.setClient (s : State) (c : ℕ) (cl : Client) : State :=
  { s with clients := Function.update s.clients c cl }

@[simp] theorem setClient_clients (s : State) (c : ℕ) (cl : Client) :
    (s.setClient c cl).clients = Function.update s.clients c cl := rfl

/-- The state after one event, if it can happen. -/
def next (env : Env) (s : State) : Event → Option State
  | .userLogin c P serverCount =>
      let cl := s.clients c
      if cl.userLogin = .idle then some (s.setClient c (cl.beginLogin P serverCount)) else none
  | .selectAccount c =>
      let cl := s.clients c
      match cl.userLogin with
      | .selectAccount username clientpass =>
          some (s.setClient c (cl.selectAccount env.mysql s.accounts username clientpass))
      | _ => none
  | .selectSession c now =>
      let cl := s.clients c
      match cl.userLogin with
      | .selectSession row => some (s.setClient c (cl.selectSession s.sessions now row))
      | _ => none
  | .updateAccount c =>
      let cl := s.clients c
      match cl.userLogin with
      | .updateAccount row =>
          some ({ s with accounts := updateAccount s.accounts cl.userid row }.setClient c
            { cl with userLogin := .replyOk })
      | _ => none
  | .replyOk c =>
      let cl := s.clients c
      if cl.userLogin = .replyOk then some (s.setClient c (cl.sendLoginReply .OK)) else none
  | .selectUsername c =>
      let cl := s.clients c
      match cl.userLogin with
      | .selectUsername username clientpass =>
          some (s.setClient c (cl.selectUsername env s.accounts username clientpass))
      | _ => none
  | .createAccount c id salt =>
      let cl := s.clients c
      match cl.userLogin with
      | .createAccount username clientpass =>
          (createAccount env.mysql s.accounts username clientpass id salt).map (fun accounts =>
            { s with accounts := accounts }.setClient c (cl.sendLoginReply .UNKNOWN_ACCOUNT))
      | _ => none
  | .throws c =>
      let cl := s.clients c
      if cl.userLogin = .idle ∨ cl.userLogin = .replyOk then none
      else some (s.setClient c (cl.sendLoginReply .FAILED))
  | .disconnect c =>
      let cl := s.clients c
      if cl.onDisconnected = .idle then
        some (s.setClient c { cl with closed := true, onDisconnected := .selectSession })
      else none
  | .selectOldSession c =>
      let cl := s.clients c
      if cl.onDisconnected = .selectSession then
        -- a client that went on to the char server has a session under its own id
        let res := s.sessions.select (fun session => session.id = cl.sessionId)
        some (s.setClient c
          { cl with onDisconnected := if res.isEmpty then .updateAccount else .idle })
      else none
  | .updateOffline c =>
      let cl := s.clients c
      if cl.onDisconnected = .updateAccount then
        some ({ s with accounts := setOffline s.accounts cl.userid }.setClient c
          { cl with onDisconnected := .idle })
      else none

def Step (env : Env) (s : State) (e : Event) (s' : State) : Prop :=
  next env s e = some s'

/-- New connections to a server with these tables. -/
def start (accounts : Accounts) (sessions : Sessions) : State where
  accounts := accounts
  sessions := sessions
  clients := fun _ => {}

/-! ## What a connection can do to its own state -/

/-- The connection has account `a` to itself, as far as it knows: the UPDATE was its own, or
it got `OK`, and it has not been disconnected. -/
def Client.Holds (cl : Client) (a : ℕ) : Prop :=
  cl.userid = a ∧ cl.closed = false ∧ (cl.userLogin = .replyOk ∨ .OK ∈ cl.replies)

/-- A connection that got `OK` is past `DEFAULT`, where `UserLogin` does nothing more. -/
structure Client.Sound (cl : Client) : Prop where
  replied : .OK ∈ cl.replies → cl.loginState ≠ .DEFAULT
  busy : cl.userLogin ≠ .idle → cl.loginState = .DEFAULT

/-- A change that keeps a connection sound and gives it no account. -/
structure Client.Keeps (cl cl' : Client) : Prop where
  sound : cl'.Sound
  holds : ∀ a, cl'.Holds a → cl.Holds a

/-- What a statement of `UserLogin` does to its connection, but for the UPDATE and `OK`. -/
inductive Client.Moves (cl : Client) : Client → Prop
  | stay : Moves cl cl
  /-- It goes on to a statement other than its reply `OK`. -/
  | goto (hdefault : cl.loginState = .DEFAULT) {rights : BitVec 16} {userid sessionId : ℕ}
      {st : UserLogin} (hst : st ≠ .replyOk) :
      Moves cl { cl with
        accessRights := rights, userid := userid, sessionId := sessionId, userLogin := st }
  | reply {result : SrvLoginReply} (hresult : result ≠ .OK) {rights : BitVec 16} :
      Moves cl ({ cl with accessRights := rights }.sendLoginReply result)

namespace Client

variable {cl : Client}

theorem keeps_self (h : cl.Sound) : cl.Keeps cl where
  sound := h
  holds := fun _ ha => ha

theorem moves_beginLogin (P : CliLoginReq) (serverCount : ℕ) :
    cl.Moves (cl.beginLogin P serverCount) := by
  unfold beginLogin
  split_ifs with hstate hcount
  · exact .stay
  · exact .reply (by simp)
  · exact .goto (not_not.mp hstate) (by simp)

theorem moves_selectAccount (hdefault : cl.loginState = .DEFAULT) (my : Mysql)
    (accounts : Accounts) (username clientpass : List Byte) :
    cl.Moves (cl.selectAccount my accounts username clientpass) := by
  unfold selectAccount
  dsimp only
  split <;> exact .goto hdefault (by simp)

theorem moves_selectSession (hdefault : cl.loginState = .DEFAULT) (sessions : Sessions)
    (now : ℕ) (row : AccountRow) : cl.Moves (cl.selectSession sessions now row) := by
  unfold selectSession
  dsimp only
  split_ifs
  · exact .reply (by simp)
  · exact .goto hdefault (by simp)
  · exact .reply (by simp)

theorem moves_selectUsername (hdefault : cl.loginState = .DEFAULT) (env : Env)
    (accounts : Accounts) (username clientpass : List Byte) :
    cl.Moves (cl.selectUsername env accounts username clientpass) := by
  unfold selectUsername
  dsimp only
  split_ifs
  · exact .reply (by simp)
  · exact .goto hdefault (by simp)
  · exact .reply (by simp)

theorem Moves.keeps {cl' : Client} (hmoves : cl.Moves cl') (h : cl.Sound) : cl.Keeps cl' := by
  cases hmoves with
  | stay => exact keeps_self h
  | goto hdefault hst =>
      refine ⟨⟨h.replied, fun _ => hdefault⟩, ?_⟩
      rintro a ⟨_, _, hreply | hok⟩
      · exact absurd hreply hst
      · exact absurd hdefault (h.replied hok)
  | @reply result hresult rights =>
      have hok : .OK ∈ cl.replies ++ [result] ↔ .OK ∈ cl.replies := by
        simp [hresult.symm]
      refine ⟨⟨?_, fun hbusy => absurd rfl hbusy⟩, ?_⟩
      · show .OK ∈ cl.replies ++ [result] → _
        rw [hok, sendLoginReply, if_neg hresult]
        exact h.replied
      · rintro a ⟨huserid, hclosed, hreply | hreply⟩
        · exact absurd hreply (by simp [sendLoginReply])
        · exact ⟨huserid, hclosed, Or.inr (hok.mp hreply)⟩

/-- `OK` goes to a connection whose UPDATE made it a holder. -/
theorem keeps_replyOk (hreply : cl.userLogin = .replyOk) : cl.Keeps (cl.sendLoginReply .OK) where
  sound := ⟨fun _ => by simp [sendLoginReply], fun hbusy => absurd rfl hbusy⟩
  holds := fun _ ⟨huserid, hclosed, _⟩ => ⟨huserid, hclosed, Or.inl hreply⟩

/-- The UPDATE makes a connection that is still there a holder of its account. -/
theorem sound_updateAccount {row : AccountRow} (h : cl.Sound)
    (hst : cl.userLogin = .updateAccount row) : Client.Sound { cl with userLogin := .replyOk } :=
  ⟨h.replied, fun _ => h.busy (by simp [hst])⟩

/-- What `OnDisconnected` changes of its own connection. -/
theorem keeps_onDisconnected (h : cl.Sound) {closed : Bool} (hclosed : cl.closed ≤ closed)
    {st : OnDisconnected} : cl.Keeps { cl with closed := closed, onDisconnected := st } where
  sound := ⟨h.replied, h.busy⟩
  holds := fun _ ⟨huserid, hopen, hreply⟩ =>
    ⟨huserid, Bool.eq_false_of_le_false (hclosed.trans_eq hopen), hreply⟩

end Client

/-! ## What a step can do -/

def State.Sound (s : State) : Prop :=
  ∀ c, (s.clients c).Sound

theorem sound_start (accounts : Accounts) (sessions : Sessions) :
    (start accounts sessions).Sound :=
  fun _ => ⟨fun h => absurd h List.not_mem_nil, fun h => absurd rfl h⟩

theorem keeps_setClient {s : State} (hs : s.Sound) {c : ℕ} {cl : Client}
    (hkeeps : (s.clients c).Keeps cl) (d : ℕ) :
    (s.clients d).Keeps (Function.update s.clients c cl d) := by
  by_cases hd : d = c
  · subst hd
    rw [Function.update_self]
    exact hkeeps
  · rw [Function.update_of_ne hd]
    exact Client.keeps_self (hs d)

theorem online_createAccount {my : Mysql} {accounts accounts' : Accounts}
    {username clientpass : List Byte} {id : ℕ} {salt : List Byte}
    (h : createAccount my accounts username clientpass id salt = some accounts') {a : ℕ}
    (ha : Online accounts a) : Online accounts' a := by
  unfold createAccount at h
  dsimp only at h
  split at h
  · exact absurd h (by simp)
  · obtain ⟨row, hrow, honline⟩ := ha
    exact ⟨row, (Table.mem_insert h).mpr (Or.inl hrow), honline⟩

theorem online_updateAccount_iff {accounts : Accounts} {userid a : ℕ} {row : AccountRow} :
    Online (updateAccount accounts userid row) a ↔
      Online accounts a ∨ a = userid ∧ ∃ row' ∈ accounts.rows, row'.id = userid := by
  unfold Online updateAccount
  simp only [Table.mem_update, decide_eq_true_eq]
  constructor
  · rintro ⟨_, ⟨row', hrow', rfl⟩, hid, honline⟩
    by_cases heq : row'.id = userid
    · simp only [heq, if_true] at hid
      exact Or.inr ⟨hid.symm, row', hrow', heq⟩
    · simp only [heq, if_false] at hid honline
      exact Or.inl ⟨row', hrow', hid, honline⟩
  · rintro (⟨row', hrow', rfl, honline⟩ | ⟨rfl, row', hrow', rfl⟩)
    · refine ⟨_, ⟨row', hrow', rfl⟩, ?_⟩
      split_ifs <;> simp [honline]
    · exact ⟨_, ⟨row', hrow', if_pos rfl⟩, rfl, rfl⟩

/-- What an event does: the moves of `UserLogin`, its UPDATE, its `OK`, and the three statements
of `OnDisconnected`. -/
inductive Effect (s : State) : Event → State → Prop
  | moves {e : Event} {c : ℕ} {cl : Client} {accounts : Accounts}
      (hmoves : (s.clients c).Moves cl)
      (honline : ∀ a, Online s.accounts a → Online accounts a) :
      Effect s e ({ s with accounts := accounts }.setClient c cl)
  | updateAccount {c : ℕ} {row : AccountRow} (hst : (s.clients c).userLogin = .updateAccount row) :
      Effect s (.updateAccount c)
        ({ s with accounts := updateAccount s.accounts (s.clients c).userid row }.setClient c
          { s.clients c with userLogin := .replyOk })
  | replyOk {c : ℕ} (hst : (s.clients c).userLogin = .replyOk) :
      Effect s (.replyOk c) (s.setClient c ((s.clients c).sendLoginReply .OK))
  | disconnect {c : ℕ} : Effect s (.disconnect c)
      (s.setClient c { s.clients c with closed := true, onDisconnected := .selectSession })
  | selectOldSession {c : ℕ} : Effect s (.selectOldSession c)
      (s.setClient c { s.clients c with
        onDisconnected :=
          if (s.sessions.select (fun session => session.id = (s.clients c).sessionId)).isEmpty then
            .updateAccount else .idle })
  | updateOffline {c : ℕ} : Effect s (.updateOffline c)
      ({ s with accounts := setOffline s.accounts (s.clients c).userid }.setClient c
        { s.clients c with onDisconnected := .idle })

theorem effect_of_step {env : Env} {s s' : State} {e : Event} (hs : s.Sound)
    (h : Step env s e s') : Effect s e s' := by
  have hdefault : ∀ {c : ℕ} {st : UserLogin}, (s.clients c).userLogin = st → st ≠ .idle →
      (s.clients c).loginState = .DEFAULT := by
    intro c st hst hne
    exact (hs c).busy (hst ▸ hne)
  match e with
  | .userLogin c P serverCount =>
      obtain ⟨_, h⟩ := Option.ite_none_right_eq_some.mp h
      obtain rfl := Option.some.inj h
      exact .moves (Client.moves_beginLogin P serverCount) (fun _ ha => ha)
  | .selectAccount c =>
      simp only [Step, next] at h
      split at h
      · next username clientpass hst =>
          obtain rfl := Option.some.inj h
          exact .moves (Client.moves_selectAccount (hdefault hst (by simp)) _ _ _ _)
            (fun _ ha => ha)
      · exact absurd h (by simp)
  | .selectSession c now =>
      simp only [Step, next] at h
      split at h
      · next row hst =>
          obtain rfl := Option.some.inj h
          exact .moves (Client.moves_selectSession (hdefault hst (by simp)) _ _ _) (fun _ ha => ha)
      · exact absurd h (by simp)
  | .updateAccount c =>
      simp only [Step, next] at h
      split at h
      · next row hst =>
          obtain rfl := Option.some.inj h
          exact .updateAccount hst
      · exact absurd h (by simp)
  | .replyOk c =>
      obtain ⟨hst, h⟩ := Option.ite_none_right_eq_some.mp h
      obtain rfl := Option.some.inj h
      exact .replyOk hst
  | .selectUsername c =>
      simp only [Step, next] at h
      split at h
      · next username clientpass hst =>
          obtain rfl := Option.some.inj h
          exact .moves (Client.moves_selectUsername (hdefault hst (by simp)) _ _ _ _)
            (fun _ ha => ha)
      · exact absurd h (by simp)
  | .createAccount c id salt =>
      simp only [Step, next] at h
      split at h
      · obtain ⟨accounts, haccounts, rfl⟩ := Option.map_eq_some_iff.mp h
        exact .moves (.reply (by simp)) (fun _ ha => online_createAccount haccounts ha)
      · exact absurd h (by simp)
  | .throws c =>
      obtain ⟨_, h⟩ := Option.ite_none_left_eq_some.mp h
      obtain rfl := Option.some.inj h
      exact .moves (.reply (by simp)) (fun _ ha => ha)
  | .disconnect c =>
      obtain ⟨_, h⟩ := Option.ite_none_right_eq_some.mp h
      obtain rfl := Option.some.inj h
      exact .disconnect
  | .selectOldSession c =>
      obtain ⟨_, h⟩ := Option.ite_none_right_eq_some.mp h
      obtain rfl := Option.some.inj h
      exact .selectOldSession
  | .updateOffline c =>
      obtain ⟨_, h⟩ := Option.ite_none_right_eq_some.mp h
      obtain rfl := Option.some.inj h
      exact .updateOffline

/-- The two writes of `online`, and everything else. -/
theorem step_cases {env : Env} {s s' : State} {e : Event} (hs : s.Sound)
    (h : Step env s e s') :
    (∃ c row, e = .updateAccount c ∧
      s'.accounts = updateAccount s.accounts (s.clients c).userid row ∧ s'.Sound ∧
      ∀ d a, (s'.clients d).Holds a →
        d = c ∧ a = (s.clients c).userid ∨ (s.clients d).Holds a) ∨
    (∃ c, e = .updateOffline c ∧ s'.accounts = setOffline s.accounts (s.clients c).userid ∧
      ∀ d, (s.clients d).Keeps (s'.clients d)) ∨
    ((∀ a, Online s.accounts a → Online s'.accounts a) ∧
      ∀ d, (s.clients d).Keeps (s'.clients d)) := by
  cases effect_of_step hs h with
  | @moves _ c _ _ hmoves honline =>
      exact Or.inr (Or.inr ⟨honline, keeps_setClient hs (hmoves.keeps (hs c))⟩)
  | @updateAccount c row hst =>
      refine Or.inl ⟨c, row, rfl, rfl, fun d => ?_, fun d a hd => ?_⟩
      · rw [setClient_clients, Function.update_apply]
        split_ifs
        · exact Client.sound_updateAccount (hs c) hst
        · exact hs d
      · rw [setClient_clients, Function.update_apply] at hd
        split_ifs at hd with hdc
        · exact Or.inl ⟨hdc, hd.1.symm⟩
        · exact Or.inr hd
  | replyOk hst =>
      exact Or.inr (Or.inr ⟨fun _ ha => ha, keeps_setClient hs (Client.keeps_replyOk hst)⟩)
  | @disconnect c =>
      exact Or.inr (Or.inr ⟨fun _ ha => ha,
        keeps_setClient hs (Client.keeps_onDisconnected (hs c) le_top)⟩)
  | @selectOldSession c =>
      exact Or.inr (Or.inr ⟨fun _ ha => ha,
        keeps_setClient hs (Client.keeps_onDisconnected (hs c) le_rfl)⟩)
  | @updateOffline c =>
      exact Or.inr (Or.inl ⟨c, rfl, rfl,
        keeps_setClient hs (Client.keeps_onDisconnected (hs c) le_rfl)⟩)

theorem sound_step {env : Env} {s s' : State} {e : Event} (hs : s.Sound)
    (h : Step env s e s') : s'.Sound := by
  obtain ⟨_, _, _, _, hsound, _⟩ | ⟨_, _, _, hkeeps⟩ | ⟨_, hkeeps⟩ := step_cases hs h
  · exact hsound
  · exact fun d => (hkeeps d).sound
  · exact fun d => (hkeeps d).sound

/-! ## `online` as a lock -/

/-- The account's `online`, and the connections that hold the account. -/
def lockOf (a : ℕ) (s : State) : Lock ℕ where
  taken := Online s.accounts a
  holders := {c | (s.clients c).Holds a}

/-- `UserLogin` marks an account online that is still offline, and `OnDisconnected` marks
no account offline that another connection holds. -/
def orderly (s : State) : Event → Prop
  | .updateAccount c =>
      ∃ row ∈ s.accounts.rows, row.id = (s.clients c).userid ∧ row.online = false
  | .updateOffline c => ∀ d, ¬ (s.clients d).Holds (s.clients c).userid
  | _ => True

theorem lock_step {env : Env} {s s' : State} {e : Event} (hs : s.Sound)
    (h : Guarded orderly (Step env) s e s') (a : ℕ) :
    ∃ act, Guarded Lock.guard Lock.Step (lockOf a s) act (lockOf a s') := by
  obtain ⟨hguard, h⟩ := h
  obtain ⟨c, row, rfl, haccounts, _, hholds⟩ | ⟨c, rfl, haccounts, hkeeps⟩ | ⟨honline, hkeeps⟩ :=
    step_cases hs h
  · obtain ⟨row', hrow', hid, hoffline⟩ := hguard
    have hiff : Online s'.accounts a ↔ _ := haccounts ▸ online_updateAccount_iff
    by_cases ha : a = (s.clients c).userid
    · -- the row is the only one of the account, so the lock is free
      have hfree : ¬ Online s.accounts a := by
        rintro ⟨row'', hrow'', hid'', honline⟩
        obtain rfl := Table.eq_of_key hrow'' hrow' (by rw [hid'', hid, ha])
        exact absurd honline (by simp [hoffline])
      refine ⟨.take c, hfree, hiff.mpr (Or.inr ⟨ha, row', hrow', hid⟩), fun d hd => ?_⟩
      exact (hholds d a hd).imp And.left id
    · refine ⟨.keep, trivial, fun h => hiff.mpr (Or.inl h), fun d hd => ?_⟩
      exact (hholds d a hd).resolve_left (fun h => ha h.2)
  · -- `OnDisconnected` frees the lock of its own account and leaves the others as they are
    have hholders : (lockOf a s').holders ⊆ (lockOf a s).holders := fun d => (hkeeps d).holds a
    by_cases ha : a = (s.clients c).userid
    · refine ⟨.free, ?_, hholders⟩
      subst ha
      exact Set.eq_empty_iff_forall_notMem.mpr hguard
    · refine ⟨.keep, trivial, ?_, hholders⟩
      show Online s.accounts a → Online s'.accounts a
      rw [haccounts, online_setOffline_iff]
      exact fun h => ⟨h, ha⟩
  · exact ⟨.keep, trivial, honline a, fun d => (hkeeps d).holds a⟩

/-! ## At most one connection -/

/-- The connection got `OK` for account `a` and has not been disconnected. -/
def GotOk (s : State) (c a : ℕ) : Prop :=
  .OK ∈ (s.clients c).replies ∧ (s.clients c).userid = a ∧ (s.clients c).closed = false

theorem exclusive_lockOf {env : Env} {accounts : Accounts} {sessions : Sessions}
    {es : List Event} {s : State}
    (h : Run (Guarded orderly (Step env)) (start accounts sessions) es s) (a : ℕ) :
    (lockOf a s).Exclusive := by
  obtain ⟨_, hlock⟩ := h.simulate (sound_start accounts sessions)
    (fun _ _ _ hs hstep => sound_step hs hstep.2) (fun _ _ _ hs hstep => lock_step hs hstep a)
  have hnone : (lockOf a (start accounts sessions)).holders = ∅ := by
    refine Set.eq_empty_iff_forall_notMem.mpr ?_
    rintro c ⟨_, _, hreply | hok⟩
    · exact absurd hreply (by simp [start])
    · exact absurd hok List.not_mem_nil
  refine Lock.exclusive_of_run ⟨?_, fun hne => absurd hnone hne.ne_empty⟩ hlock
  rw [hnone]
  exact Set.subsingleton_empty

/-- **At most one connection** has `OK` for an account, in every interleaving whose writes
of `online` are orderly. -/
theorem gotOk_unique {env : Env} {accounts : Accounts} {sessions : Sessions}
    {es : List Event} {s : State}
    (h : Run (Guarded orderly (Step env)) (start accounts sessions) es s) {c d a : ℕ}
    (hc : GotOk s c a) (hd : GotOk s d a) : c = d :=
  (exclusive_lockOf h a).subsingleton ⟨hc.2.1, hc.2.2, Or.inr hc.1⟩
    ⟨hd.2.1, hd.2.2, Or.inr hd.1⟩

/-! ## Two connections at once -/

def plainEnv : Env where
  mysql := plainMysql
  createAccountOnFail := false

/-- One account, `a`, with an empty password. -/
def oneAccount : Accounts where
  rows := [{ id := 1, username := [0x61] }]
  unique := List.nodup_singleton _

def noSessions : Sessions where
  rows := []
  unique := List.nodup_nil

def loginA : CliLoginReq where
  username := [0x61]
  password := []

theorem gotOk_unique_sample : ∃ s, GotOk s 0 1 ∧ ∀ c, GotOk s c 1 → c = 0 := by
  obtain ⟨s, hrun, s', hupdate, s'', hreply, hguard, hok⟩ :
      ∃ s, [Event.userLogin 0 loginA 1, .selectAccount 0, .selectSession 0 0].foldlM
        (next plainEnv) (start oneAccount noSessions) = some s ∧
        ∃ s', next plainEnv s (.updateAccount 0) = some s' ∧
          ∃ s'', next plainEnv s' (.replyOk 0) = some s'' ∧
            orderly s (.updateAccount 0) ∧ GotOk s'' 0 1 :=
    ⟨_, rfl, _, rfl, _, rfl, ⟨_, List.mem_singleton.mpr rfl, rfl, rfl⟩, by decide, rfl, rfl⟩
  have hbegin := (Run.of_foldlM hrun).guarded orderly (by simp [orderly])
  have hlast : Guarded orderly (Step plainEnv) s' (.replyOk 0) s'' := ⟨trivial, hreply⟩
  have hall := Run.snoc (Run.snoc hbegin ⟨hguard, hupdate⟩) hlast
  exact ⟨s'', hok, fun c hc => gotOk_unique hall hc hok⟩

/-- Two connections read the account before either of them writes: both get `OK`. -/
theorem not_gotOk_unique_sample :
    ¬ ∀ (env : Env) (accounts : Accounts) (sessions : Sessions) (es : List Event) (s : State),
      Run (Step env) (start accounts sessions) es s →
        ∀ c d a, GotOk s c a → GotOk s d a → c = d := by
  intro h
  obtain ⟨s, hrun, h0, h1⟩ :
      ∃ s, [Event.userLogin 0 loginA 1, .selectAccount 0, .userLogin 1 loginA 1,
        .selectAccount 1, .selectSession 0 0, .selectSession 1 0, .updateAccount 0,
        .updateAccount 1, .replyOk 0, .replyOk 1].foldlM (next plainEnv)
          (start oneAccount noSessions) = some s ∧ GotOk s 0 1 ∧ GotOk s 1 1 :=
    ⟨_, rfl, ⟨by decide, rfl, rfl⟩, ⟨by decide, rfl, rfl⟩⟩
  exact absurd (h _ _ _ _ s (Run.of_foldlM hrun) 0 1 1 h0 h1) (by decide)

end OsIrose.Login

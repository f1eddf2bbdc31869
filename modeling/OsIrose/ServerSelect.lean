/-
The choice of a server: `CLoginClient::ServerSelect`, `login/src/cloginclient.cpp`.

The handler sets the state of the connection first, searches the list of servers then, and
has a reply for one outcome only: a char server with that id, and its row inserted. A search
that finds none and an INSERT that throws leave a client that gets no reply and may not
choose again. `select_iff` says when it comes to that.

The INSERT is one of `sessions` with its primary key and its signed column of 32 bits, on a
database that may be out of reach.
-/
import OsIrose.Channels
import OsIrose.Login

set_option autoImplicit false

namespace OsIrose.ServerSelect

open Channels (LoginISC)
open Database (SessionRow)
open Login (Client LoginState)

structure CliSrvSelectReq where
  serverId : BitVec 32
  channelId : BitVec 8

/-- `SrvSrvSelectReply::eResult`. -/
inductive Result
  | OK
  | FAILED
  | FULL
  | INVALID_CHANNEL
  | CHANNEL_NOT_ACTIVE
  | INVALID_AGE
  deriving DecidableEq, Repr

structure SrvSrvSelectReply where
  result : Result
  sessionId : ℕ
  cryptVal : ℕ
  ip : String
  port : BitVec 16
  deriving DecidableEq, Repr

/-- A row of `sessions` with the channel. -/
structure ChannelSession extends SessionRow where
  channelid : ℕ
  deriving DecidableEq, Repr

abbrev ChannelSessions := Table fun row : ChannelSession => row.id

structure State where
  client : Client
  sessions : ChannelSessions
  /-- The `SRV_SELECT_REPLY` packets sent to the client. -/
  sent : List SrvSrvSelectReply := []

/-- How a handler ends. -/
inductive Ending
  | returned (answer : Bool)
  | thrown
  deriving DecidableEq, Repr

/-- The INSERT of the handler; `none` if it throws. -/
def insertSession (reachable : Bool) (sessions : ChannelSessions) (cl : Client)
    (channelID : BitVec 8) (now : ℕ) : Option ChannelSessions :=
  if reachable ∧ cl.sessionId < 2 ^ 31 then
    sessions.insert
      { id := cl.sessionId, userid := cl.userid, time := now, channelid := channelID.toNat }
  else none

/-- `CLoginClient::ServerSelect`. -/
def serverSelect (iscList : List LoginISC) (reachable : Bool) (now : ℕ) (P : CliSrvSelectReq)
    (s : State) : State × Ending :=
  if s.client.loginState ≠ .LOGGEDIN then (s, .returned true)
  else
    let serverID := P.serverId - 1
    let channelID := P.channelId - 1
    -- before the search
    let s := { s with client := { s.client with loginState := .TRANSFERING } }
    match iscList.find? (fun server => server.type = .CHAR ∧ server.id = serverID) with
    | none => (s, .returned true)
    | some server => match insertSession reachable s.sessions s.client channelID now with
      | none => (s, .thrown)
      | some sessions =>
          ({ s with
              sessions := sessions
              sent := s.sent ++ [{ result := .OK, sessionId := s.client.sessionId, cryptVal := 0,
                                   ip := server.address, port := server.port }] },
            .returned true)

/-! ## What a choice is to come to -/

section

variable (iscList : List LoginISC) (P : CliSrvSelectReq) (s s' : State)

/-- The client is on its way: one of the char servers has the id, there is one row more, for
this session and with the channel asked for, and the only reply sends the client there. -/
structure Served : Prop where
  loginState : s'.client.loginState = .TRANSFERING
  session : ∃ row, s'.sessions.rows = s.sessions.rows ++ [row] ∧
    row.id = s.client.sessionId ∧ row.userid = s.client.userid ∧
    Channels.serverSelect iscList P.serverId P.channelId = some row.channelid
  reply : ∃ server ∈ iscList, server.type = .CHAR ∧ server.id = P.serverId - 1 ∧
    ∃ reply, s'.sent = s.sent ++ [reply] ∧ reply.result = .OK ∧
      reply.sessionId = s.client.sessionId ∧ reply.ip = server.address ∧
      reply.port = server.port

/-- The client is told, and may choose again. -/
structure Refused : Prop where
  loginState : s'.client.loginState = s.client.loginState
  sessions : s'.sessions = s.sessions
  reply : ∃ reply, s'.sent = s.sent ++ [reply] ∧ reply.result ≠ .OK

/-- A char server has the id. -/
def Listed : Prop := ∃ server ∈ iscList, server.type = .CHAR ∧ server.id = P.serverId - 1

end

/-- The database takes the row of the session. -/
structure Inserts (reachable : Bool) (s : State) : Prop where
  reachable : reachable = true
  fits : s.client.sessionId < 2 ^ 31
  fresh : ∀ row ∈ s.sessions.rows, row.id ≠ s.client.sessionId

section

variable {iscList : List LoginISC} {reachable : Bool} {now : ℕ} {P : CliSrvSelectReq} {s : State}

theorem find_eq_none_iff :
    iscList.find? (fun server => server.type = .CHAR ∧ server.id = P.serverId - 1) = none ↔
      ¬ Listed iscList P := by
  simp [List.find?_eq_none, Listed]

theorem insertSession_eq_none_iff {cl : Client} {channelID : BitVec 8} :
    insertSession reachable s.sessions cl channelID now = none ↔
      ¬ (reachable = true ∧ cl.sessionId < 2 ^ 31 ∧
        ∀ row ∈ s.sessions.rows, row.id ≠ cl.sessionId) := by
  unfold insertSession Table.insert
  split_ifs with hreach hmem
  · obtain ⟨row, hrow, hid⟩ := List.mem_map.mp hmem
    simp only [true_iff]
    exact fun h => h.2.2 row hrow hid
  · simp only [false_iff, not_not]
    exact ⟨hreach.1, hreach.2, fun row hrow hid => hmem (List.mem_map.mpr ⟨row, hrow, hid⟩)⟩
  · simp only [true_iff]
    exact fun h => hreach ⟨h.1, h.2.1⟩

theorem insertSession_eq_some {sessions : ChannelSessions} {cl : Client} {channelID : BitVec 8}
    (h : insertSession reachable s.sessions cl channelID now = some sessions) :
    sessions.rows = s.sessions.rows ++
      [{ id := cl.sessionId, userid := cl.userid, time := now,
         channelid := channelID.toNat }] := by
  unfold insertSession Table.insert at h
  split_ifs at h
  rw [← Option.some.inj h]

/-- Where the handler sends no reply, the client is neither on its way nor told. -/
theorem not_settled_of_unsent {s' : State} (h : s'.sent = s.sent) :
    ¬ (Served iscList P s s' ∨ Refused s s') := by
  rintro (⟨-, -, _, -, -, -, reply, hsent, -⟩ | ⟨-, -, reply, hsent, -⟩)
  · simp [h] at hsent
  · simp [h] at hsent

end

/-- **When a choice comes to what it should**: a char server has the id and the database takes
the row. -/
theorem select_iff (iscList : List LoginISC) (reachable : Bool) (now : ℕ) (P : CliSrvSelectReq)
    (s : State) (hlogged : s.client.loginState = .LOGGEDIN) :
    (Served iscList P s (serverSelect iscList reachable now P s).1 ∨
        Refused s (serverSelect iscList reachable now P s).1) ↔
      Listed iscList P ∧ Inserts reachable s := by
  unfold serverSelect
  rw [if_neg (by simp [hlogged])]
  dsimp only
  cases hfind : iscList.find? (fun server => server.type = .CHAR ∧ server.id = P.serverId - 1) with
  | none =>
      refine iff_of_false (not_settled_of_unsent rfl) fun h => ?_
      exact find_eq_none_iff.mp hfind h.1
  | some server =>
      have hmem : server ∈ iscList := List.mem_of_find?_eq_some hfind
      have hserver : server.type = .CHAR ∧ server.id = P.serverId - 1 := by
        simpa using List.find?_some hfind
      dsimp only
      cases hinsert : insertSession reachable s.sessions
          { s.client with loginState := .TRANSFERING } (P.channelId - 1) now with
      | none =>
          refine iff_of_false (not_settled_of_unsent rfl) fun h => ?_
          exact insertSession_eq_none_iff.mp hinsert ⟨h.2.reachable, h.2.fits, h.2.fresh⟩
      | some sessions =>
          refine iff_of_true (.inl ⟨rfl, ⟨_, insertSession_eq_some hinsert, rfl, rfl, ?_⟩, ?_⟩) ?_
          · simp only [Channels.serverSelect, hfind, Option.map_some]
          · exact ⟨server, hmem, hserver.1, hserver.2, _, rfl, rfl, rfl, rfl, rfl⟩
          · have hsome : insertSession reachable s.sessions
                { s.client with loginState := .TRANSFERING } (P.channelId - 1) now ≠ none :=
              fun hnone => Option.some_ne_none _ (hinsert.symm.trans hnone)
            obtain ⟨hreach, hfits, hfresh⟩ :=
              not_not.mp (fun h => hsome (insertSession_eq_none_iff.mpr h))
            exact ⟨⟨server, hmem, hserver⟩, hreach, hfits, hfresh⟩

/-! ## Two clients -/

/-- A client that is logged in, with session 5 of account 1. -/
def loggedIn : State where
  client := { loginState := .LOGGEDIN, userid := 1, sessionId := 5 }
  sessions := { rows := [], unique := List.nodup_nil }

/-- One char server. -/
def oneWorld : List LoginISC :=
  [{ id := 0, type := .CHAR, serverName := "world", address := "10.0.0.1", port := 29100 }]

/-- The client chooses the server with the id it was shown. -/
theorem select_oneWorld :
    Served oneWorld ⟨1, 1⟩ loggedIn (serverSelect oneWorld true 0 ⟨1, 1⟩ loggedIn).1 ∨
      Refused loggedIn (serverSelect oneWorld true 0 ⟨1, 1⟩ loggedIn).1 :=
  (select_iff oneWorld true 0 ⟨1, 1⟩ loggedIn rfl).mpr
    ⟨⟨_, List.mem_singleton.mpr rfl, rfl, rfl⟩,
      rfl, by decide, fun row hrow => absurd hrow List.not_mem_nil⟩

/-- A server that has gone in the meantime: no reply, and no way back. -/
theorem not_select_gone :
    ¬ (Served [] ⟨1, 1⟩ loggedIn (serverSelect [] true 0 ⟨1, 1⟩ loggedIn).1 ∨
      Refused loggedIn (serverSelect [] true 0 ⟨1, 1⟩ loggedIn).1) := by
  rintro (h | h)
  · obtain ⟨server, hserver, -⟩ := h.reply
    exact absurd hserver List.not_mem_nil
  · exact absurd h.loginState (by decide)

end OsIrose.ServerSelect

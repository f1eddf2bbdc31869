/-
Keeping a session alive: `updateSession` of the map and the char server
(`map/src/cmapclient.cpp`, `char/src/ccharclient.cpp`) and `deleteStaleSessions` of the
login server (`login/src/main.cpp`).

A client says `PAKCS_ALIVE`; `updateSession` then sets the time of its session, and the
login server deletes the sessions whose time is five minutes back. `updateSession` does
nothing for two minutes after it last did something, for whichever client that was: its
clock is a static of the function. And the map server names the row by the id of the
connection, not of the account (`key`).

Time is in milliseconds. The servers' steady clocks run with the system clock and start
anywhere; what is below a period after their start counts as throttled, since the statics
start at 0. Between the two statements of `deleteStaleSessions` anything may happen.
-/
import OsIrose.Database
import OsIrose.Runs

set_option autoImplicit false

namespace OsIrose.Session

open Database Runs

def minutes (n : ℕ) : ℕ := n * 60000

/-- A `timestamp` column keeps whole seconds, rounded. -/
def timestamp (now : ℕ) : ℕ := (now + 500) / 1000 * 1000

/-- `session.time < floor<minutes>(now) - 5min`. -/
def stale (now : ℕ) (session : SessionRow) : Bool :=
  session.time < now / minutes 1 * minutes 1 - minutes 5

/-- What `updateSession` reads of a `CMapClient` or `CCharClient`. -/
structure Client where
  /-- `get_id()`. -/
  id : ℕ
  userid : ℕ
  /-- The login state is `LOGGEDIN`. -/
  loggedIn : Bool
  deriving DecidableEq, Repr

inductive Server
  | map
  | char
  deriving DecidableEq, Repr

/-- The value `updateSession` compares `session.userid` with. -/
def key : Server → Client → ℕ
  | .map, cl => cl.id
  | .char, cl => cl.userid

structure State where
  now : ℕ
  /-- `GetTickCount()` of the server. -/
  tick : ℕ
  /-- The static of `updateSession`. -/
  time : ℕ
  /-- `GetTickCount()` of the login server. -/
  loginTick : ℕ
  /-- The static of `deleteStaleSessions`. -/
  staleTime : ℕ
  /-- `deleteStaleSessions` is between its two statements. -/
  deleting : Bool
  accounts : Accounts
  sessions : Sessions
  clients : ℕ → Client
  /-- When a client last joined or said `PAKCS_ALIVE`; no code reads it. -/
  lastAlive : ℕ → ℕ

/-! ## The functions -/

/-- `UPDATE sessions SET time = now WHERE userid = userid`. -/
def refresh (sessions : Sessions) (userid now : ℕ) : Sessions :=
  sessions.update (fun session => session.userid = userid)
    (fun session => { session with time := timestamp now }) (fun _ => rfl)

/-- `updateSession`. -/
def updateSession (srv : Server) (s : State) (cl : Client) : State :=
  -- `time` is one for all clients of the server
  if s.tick - s.time < minutes 2 then s
  else { s with time := s.tick, sessions := refresh s.sessions (key srv cl) s.now }

/-- The `PAKCS_ALIVE` case of `HandlePacket`. -/
def alive (srv : Server) (s : State) (c : ℕ) : State :=
  let s' := if !(s.clients c).loggedIn then s else updateSession srv s (s.clients c)
  { s' with lastAlive := Function.update s.lastAlive c s.now }

/-- `UPDATE accounts JOIN sessions … SET online = 0 WHERE` the session is stale. -/
def setStaleOffline (accounts : Accounts) (sessions : Sessions) (now : ℕ) : Accounts :=
  accounts.update
    (fun row => sessions.rows.any (fun session => row.id = session.userid && stale now session))
    AccountRow.setOffline AccountRow.setOffline_id

/-- `deleteStaleSessions` up to its first statement. -/
def deleteStaleSessions (s : State) : State :=
  if s.loginTick - s.staleTime < minutes 5 then s
  else { s with
    staleTime := s.loginTick
    accounts := setStaleOffline s.accounts s.sessions s.now
    deleting := true }

/-- The second statement of `deleteStaleSessions`. -/
def removeStaleSessions (s : State) : State :=
  { s with sessions := s.sessions.delete (stale s.now), deleting := false }

/-! ## Events -/

inductive Event
  /-- Time passes. -/
  | wait (d : ℕ)
  | alive (c : ℕ)
  /-- A client joins: `JoinServerReply` found a session of the account. -/
  | join (c id userid : ℕ)
  /-- A client stops being `LOGGEDIN`. -/
  | leave (c : ℕ)
  /-- `CLoginClient::ServerSelect` inserts a session. -/
  | serverSelect (id userid : ℕ)
  /-- `CCharClient::OnDisconnected` deletes the sessions of an account. -/
  | endSessions (userid : ℕ)
  | deleteStaleSessions
  | removeStaleSessions
  /-- Other statements on the accounts. -/
  | others (accounts : Accounts)

/-- The state after one event, if it can happen. -/
def next (srv : Server) (s : State) : Event → Option State
  | .wait d =>
      some { s with now := s.now + d, tick := s.tick + d, loginTick := s.loginTick + d }
  | .alive c => some (alive srv s c)
  | .join c id userid =>
      if (s.clients c).loggedIn = false ∧ (s.sessions.rows.any (·.userid = userid)) then
        some { s with
          clients := Function.update s.clients c { id := id, userid := userid, loggedIn := true }
          lastAlive := Function.update s.lastAlive c s.now }
      else none
  | .leave c =>
      some { s with
        clients := Function.update s.clients c { s.clients c with loggedIn := false } }
  | .serverSelect id userid =>
      (s.sessions.insert { id := id, userid := userid, time := timestamp s.now }).map
        (fun sessions => { s with sessions := sessions })
  | .endSessions userid =>
      -- the sessions go only if the account is still marked online
      let online := s.accounts.rows.any (fun row => row.id = userid && row.online)
      some { s with
        sessions := if online then s.sessions.delete (fun session => session.userid = userid)
          else s.sessions
        accounts := setOffline s.accounts userid }
  | .deleteStaleSessions => if s.deleting then none else some (deleteStaleSessions s)
  | .removeStaleSessions => if s.deleting then some (removeStaleSessions s) else none
  | .others accounts => some { s with accounts := accounts }

def Step (srv : Server) (s : State) (e : Event) (s' : State) : Prop :=
  next srv s e = some s'

/-- A server nobody has joined, at any time after its start and that of the login server. -/
def start (now tick loginTick : ℕ) (accounts : Accounts) (sessions : Sessions) : State where
  now := now
  tick := tick
  time := 0
  loginTick := loginTick
  staleTime := 0
  deleting := false
  accounts := accounts
  sessions := sessions
  clients := fun _ => { id := 0, userid := 0, loggedIn := false }
  lastAlive := fun _ => now

/-! ## How old the sessions of an account are -/

/-- At `t` no session of the account is older than `age`. -/
def Young (sessions : Sessions) (userid t age : ℕ) : Prop :=
  ∀ row ∈ sessions.rows, row.userid = userid → t ≤ row.time + age

instance (sessions : Sessions) (userid t age : ℕ) : Decidable (Young sessions userid t age) :=
  inferInstanceAs (Decidable (∀ row ∈ sessions.rows, _))

def HasSession (sessions : Sessions) (userid : ℕ) : Prop :=
  ∃ row ∈ sessions.rows, row.userid = userid

section Refresh

variable {sessions : Sessions} {userid k now t age : ℕ}

theorem le_timestamp (now : ℕ) : now ≤ timestamp now + 500 := by
  unfold timestamp
  omega

theorem hasSession_refresh (h : HasSession sessions userid) :
    HasSession (refresh sessions k now) userid := by
  obtain ⟨row, hrow, rfl⟩ := h
  by_cases hk : row.userid = k
  · exact ⟨_, Table.mem_update_of_mem hrow (decide_eq_true hk), rfl⟩
  · exact ⟨row, Table.mem_update_of_not hrow (decide_eq_false hk), rfl⟩

/-- The sessions of `k` are as young as can be after their refresh. -/
theorem young_refresh (h : userid = k ∨ Young sessions userid t age) (ht : t ≤ now)
    (hage : 500 ≤ age) : Young (refresh sessions k now) userid t age := by
  have hnow := le_timestamp now
  intro row hrow huserid
  obtain ⟨row, hmem, rfl⟩ := Table.mem_update.mp hrow
  by_cases hk : row.userid = k
  · simp only [hk, decide_true, if_true]
    omega
  · simp only [hk, decide_false, Bool.false_eq_true, if_false] at huserid ⊢
    exact h.elim (fun heq => absurd (huserid.trans heq) hk) (fun hyoung => hyoung row hmem huserid)

/-- A session that is at most five minutes old is not stale. -/
theorem not_stale_of_le {row : SessionRow} (h : now ≤ row.time + minutes 5) :
    stale now row = false := by
  have hfloor : now / minutes 1 * minutes 1 ≤ now := Nat.div_mul_le_self _ _
  unfold stale
  simp only [decide_eq_false_iff_not]
  omega

end Refresh

/-- What a step leaves of an account and its sessions. -/
structure Spared (s s' : State) (userid : ℕ) : Prop where
  account : ∀ row ∈ s.accounts.rows, row.id = userid → row ∈ s'.accounts.rows
  session : ∀ row ∈ s.sessions.rows, row.userid = userid → row ∈ s'.sessions.rows

theorem mem_setStaleOffline {accounts : Accounts} {sessions : Sessions} {now : ℕ}
    {row : AccountRow} (hrow : row ∈ accounts.rows)
    (h : ∀ session ∈ sessions.rows, session.userid = row.id → stale now session = false) :
    row ∈ (setStaleOffline accounts sessions now).rows := by
  refine Table.mem_update_of_not hrow (List.any_eq_false.mpr fun session hsession => ?_)
  simp only [Bool.and_eq_true, decide_eq_true_eq, not_and, Bool.not_eq_true]
  exact fun heq => h session hsession heq.symm

/-- The reaper spares an account whose sessions are at most five minutes old. -/
theorem spared_of_young {srv : Server} {s s' : State} {e : Event} {userid : ℕ}
    (hyoung : Young s.sessions userid s.now (minutes 5))
    (he : e = .deleteStaleSessions ∨ e = .removeStaleSessions) (h : Step srv s e s') :
    Spared s s' userid := by
  have hnot : ∀ row ∈ s.sessions.rows, row.userid = userid → stale s.now row = false :=
    fun row hrow huserid => not_stale_of_le (hyoung row hrow huserid)
  obtain rfl | rfl := he
  · obtain ⟨_, h⟩ := Option.ite_none_left_eq_some.mp h
    obtain rfl := Option.some.inj h
    unfold deleteStaleSessions
    split_ifs
    · exact ⟨fun row hrow _ => hrow, fun row hrow _ => hrow⟩
    · refine ⟨fun row hrow hid => mem_setStaleOffline hrow ?_, fun row hrow _ => hrow⟩
      exact fun session hsession heq => hnot session hsession (heq.trans hid)
  · obtain ⟨_, h⟩ := Option.ite_none_right_eq_some.mp h
    obtain rfl := Option.some.inj h
    exact ⟨fun row hrow _ => hrow,
      fun row hrow huserid => Table.mem_delete.mpr ⟨hrow, hnot row hrow huserid⟩⟩

/-! ## The guarantee -/

/-- The client stays connected and says `PAKCS_ALIVE` at least every two minutes. -/
def KeepsAlive (c : ℕ) (s : State) : Event → Prop
  | .wait d => (s.clients c).loggedIn → s.now + d ≤ s.lastAlive c + minutes 2
  | .endSessions userid => (s.clients c).loggedIn → userid ≠ (s.clients c).userid
  | _ => True

/-- When the client joins its session is at most three minutes old. When it says
`PAKCS_ALIVE` later, either that still holds, or `updateSession` has done nothing for two
minutes and names the client's own account. -/
def Heard (srv : Server) (c : ℕ) (s : State) : Event → Prop
  | .join c' _ userid => c' = c → Young s.sessions userid s.now (minutes 3)
  | .alive c' => c' = c → (s.clients c).loggedIn →
      Young s.sessions (s.clients c).userid s.now (minutes 3) ∨
        minutes 2 ≤ s.tick - s.time ∧ key srv (s.clients c) = (s.clients c).userid
  | _ => True

instance (c : ℕ) (s : State) (e : Event) : Decidable (KeepsAlive c s e) :=
  match e with
  | .wait d =>
      inferInstanceAs (Decidable ((s.clients c).loggedIn → s.now + d ≤ s.lastAlive c + minutes 2))
  | .endSessions userid =>
      inferInstanceAs (Decidable ((s.clients c).loggedIn → userid ≠ (s.clients c).userid))
  | .alive _ | .join _ _ _ | .leave _ | .serverSelect _ _ | .deleteStaleSessions
  | .removeStaleSessions | .others _ => instDecidableTrue

instance (srv : Server) (c : ℕ) (s : State) (e : Event) : Decidable (Heard srv c s e) :=
  match e with
  | .join c' _ userid =>
      inferInstanceAs (Decidable (c' = c → Young s.sessions userid s.now (minutes 3)))
  | .alive c' =>
      inferInstanceAs (Decidable (c' = c → (s.clients c).loggedIn →
        Young s.sessions (s.clients c).userid s.now (minutes 3) ∨
          minutes 2 ≤ s.tick - s.time ∧ key srv (s.clients c) = (s.clients c).userid))
  | .wait _ | .leave _ | .serverSelect _ _ | .endSessions _ | .deleteStaleSessions
  | .removeStaleSessions | .others _ => instDecidableTrue

/-- What holds between two events of a client that is heard. -/
structure Kept (c : ℕ) (s : State) : Prop where
  session : HasSession s.sessions (s.clients c).userid
  young : Young s.sessions (s.clients c).userid (s.lastAlive c) (minutes 3)
  recent : s.now ≤ s.lastAlive c + minutes 2
  past : s.lastAlive c ≤ s.now

theorem Kept.young_now {c : ℕ} {s : State} (h : Kept c s) :
    Young s.sessions (s.clients c).userid s.now (minutes 5) := by
  intro row hrow huserid
  have hyoung := h.young row hrow huserid
  have hrecent := h.recent
  unfold minutes at *
  omega

/-- Whether `updateSession` does something. -/
theorem updateSession_cases (srv : Server) (s : State) (cl : Client) :
    s.tick - s.time < minutes 2 ∧ updateSession srv s cl = s ∨
      updateSession srv s cl =
        { s with time := s.tick, sessions := refresh s.sessions (key srv cl) s.now } := by
  unfold updateSession
  split_ifs with htime
  · exact Or.inl ⟨htime, rfl⟩
  · exact Or.inr rfl

/-- A step that leaves the client and the clock alone. -/
theorem Kept.frame {c : ℕ} {s s' : State} (h : Kept c s) (hclient : s'.clients c = s.clients c)
    (halive : s'.lastAlive c = s.lastAlive c) (hnow : s'.now = s.now)
    (hhas : HasSession s.sessions (s.clients c).userid →
      HasSession s'.sessions (s.clients c).userid)
    (hyoung : Young s.sessions (s.clients c).userid (s.lastAlive c) (minutes 3) →
      Young s'.sessions (s.clients c).userid (s.lastAlive c) (minutes 3)) : Kept c s' where
  session := hclient ▸ hhas h.session
  young := hclient ▸ halive ▸ hyoung h.young
  recent := halive ▸ hnow ▸ h.recent
  past := halive ▸ hnow ▸ h.past

/-- `PAKCS_ALIVE` of any client refreshes sessions or leaves them as they are. -/
theorem kept_updateSession {srv : Server} {c : ℕ} {s : State} (cl : Client) (h : Kept c s) :
    Kept c (updateSession srv s cl) := by
  obtain ⟨_, heq⟩ | heq := updateSession_cases srv s cl
  · rw [heq]
    exact h
  · rw [heq]
    exact h.frame rfl rfl rfl hasSession_refresh
      (fun hyoung => young_refresh (Or.inr hyoung) h.past (by decide))

/-- After `PAKCS_ALIVE` of the client itself its session is young again. -/
theorem young_updateSession {srv : Server} {c : ℕ} {s : State}
    (hlogged : (s.clients c).loggedIn) (hheard : Heard srv c s (.alive c)) :
    Young (updateSession srv s (s.clients c)).sessions (s.clients c).userid s.now
      (minutes 3) := by
  -- the session is young anyway, or `updateSession` runs and names it
  obtain hyoung | ⟨hopen, hkey⟩ := hheard rfl hlogged
  · obtain ⟨_, heq⟩ | heq := updateSession_cases srv s (s.clients c)
    · rw [heq]
      exact hyoung
    · rw [heq]
      exact young_refresh (Or.inr hyoung) le_rfl (by decide)
  · obtain ⟨hclosed, _⟩ | heq := updateSession_cases srv s (s.clients c)
    · exact absurd hclosed (not_lt.mpr hopen)
    · rw [heq]
      exact young_refresh (Or.inl hkey.symm) le_rfl (by decide)

theorem updateSession_clients (srv : Server) (s : State) (cl : Client) :
    (updateSession srv s cl).clients = s.clients ∧ (updateSession srv s cl).now = s.now ∧
      (updateSession srv s cl).lastAlive = s.lastAlive := by
  unfold updateSession
  split_ifs <;> exact ⟨rfl, rfl, rfl⟩

theorem kept_alive {srv : Server} {c c' : ℕ} {s : State} (h : (s.clients c).loggedIn → Kept c s)
    (hheard : Heard srv c s (.alive c')) (hlogged : ((alive srv s c').clients c).loggedIn) :
    Kept c (alive srv s c') := by
  obtain ⟨hclients, hnow, halive⟩ := updateSession_clients srv s (s.clients c')
  have hsame : (alive srv s c').clients = s.clients := by
    unfold alive
    dsimp only
    split_ifs
    · rfl
    · exact hclients
  rw [hsame] at hlogged
  have hk := h hlogged
  by_cases hc : c' = c
  · -- the client itself: its session is young at this moment
    subst hc
    have hyoung := young_updateSession hlogged hheard
    have hk' := @kept_updateSession srv c' s (s.clients c') hk
    unfold alive
    rw [if_neg (by simp [hlogged])]
    refine ⟨hk'.session, ?_, ?_, ?_⟩
    · show Young _ ((updateSession srv s (s.clients c')).clients c').userid
        (Function.update s.lastAlive c' s.now c') (minutes 3)
      rw [Function.update_self, hclients]
      exact hyoung
    · show (updateSession srv s (s.clients c')).now ≤
        Function.update s.lastAlive c' s.now c' + minutes 2
      rw [Function.update_self, hnow]
      exact Nat.le_add_right _ _
    · show Function.update s.lastAlive c' s.now c' ≤ (updateSession srv s (s.clients c')).now
      rw [Function.update_self, hnow]
  · have hother : Function.update s.lastAlive c' s.now c = s.lastAlive c :=
      Function.update_of_ne (Ne.symm hc) _ _
    unfold alive
    dsimp only
    split_ifs
    · exact hk.frame rfl hother rfl id id
    · have hk' := @kept_updateSession srv c s (s.clients c') hk
      exact hk'.frame rfl (by rw [halive]; exact hother) rfl id id

/-- A step of a client that is heard. -/
theorem kept_step {srv : Server} {c : ℕ} {s s' : State} {e : Event}
    (h : (s.clients c).loggedIn → Kept c s)
    (hstep : Guarded (fun s e => KeepsAlive c s e ∧ Heard srv c s e) (Step srv) s e s')
    (hlogged : (s'.clients c).loggedIn) : Kept c s' := by
  obtain ⟨⟨hkeeps, hheard⟩, hstep⟩ := hstep
  match e with
  | .wait d =>
      obtain rfl := Option.some.inj hstep
      have hk := h hlogged
      exact ⟨hk.session, hk.young, hkeeps hlogged, hk.past.trans (Nat.le_add_right _ _)⟩
  | .alive c' =>
      obtain rfl := Option.some.inj hstep
      exact kept_alive h hheard hlogged
  | .join c' connection userid =>
      obtain ⟨⟨_, hsession⟩, hstep⟩ := Option.ite_none_right_eq_some.mp hstep
      obtain rfl := Option.some.inj hstep
      by_cases hc : c' = c
      · subst hc
        -- the client's clock starts when it joins
        obtain ⟨row, hrow, huserid⟩ := List.any_eq_true.mp hsession
        refine ⟨⟨row, hrow, ?_⟩, ?_, ?_, ?_⟩ <;> dsimp only <;> simp only [Function.update_self]
        · exact of_decide_eq_true huserid
        · exact hheard rfl
        · exact Nat.le_add_right _ _
        · exact le_rfl
      · have hclient := Function.update_of_ne (Ne.symm hc)
          ({ id := connection, userid := userid, loggedIn := true } : Client) s.clients
        dsimp only at hlogged
        rw [hclient] at hlogged
        exact (h hlogged).frame hclient (Function.update_of_ne (Ne.symm hc) _ _) rfl id id
  | .leave c' =>
      obtain rfl := Option.some.inj hstep
      by_cases hc : c' = c
      · subst hc
        dsimp only at hlogged
        rw [Function.update_self] at hlogged
        exact absurd hlogged (by simp)
      · have hclient := Function.update_of_ne (Ne.symm hc)
          ({ s.clients c' with loggedIn := false } : Client) s.clients
        dsimp only at hlogged
        rw [hclient] at hlogged
        exact (h hlogged).frame hclient rfl rfl id id
  | .serverSelect id userid =>
      obtain ⟨sessions, hinsert, rfl⟩ := Option.map_eq_some_iff.mp hstep
      have hk := h hlogged
      refine hk.frame rfl rfl rfl ?_ ?_
      · rintro ⟨row, hrow, heq⟩
        exact ⟨row, (Table.mem_insert hinsert).mpr (Or.inl hrow), heq⟩
      · intro hyoung row hrow heq
        obtain hold | rfl := (Table.mem_insert hinsert).mp hrow
        · exact hyoung row hold heq
        · -- a new session has the time of now
          have hpast := hk.past
          have hnow := le_timestamp s.now
          unfold minutes
          dsimp only
          omega
  | .endSessions userid =>
      obtain rfl := Option.some.inj hstep
      have hne := hkeeps hlogged
      refine (h hlogged).frame rfl rfl rfl ?_ ?_
      · rintro ⟨row, hrow, heq⟩
        refine ⟨row, ?_, heq⟩
        dsimp only
        split_ifs
        · exact Table.mem_delete.mpr ⟨hrow, decide_eq_false (heq ▸ hne.symm)⟩
        · exact hrow
      · intro hyoung row hrow heq
        dsimp only at hrow
        split_ifs at hrow
        · exact hyoung row (Table.mem_delete.mp hrow).1 heq
        · exact hyoung row hrow heq
  | .deleteStaleSessions =>
      obtain ⟨_, hstep⟩ := Option.ite_none_left_eq_some.mp hstep
      obtain rfl := Option.some.inj hstep
      unfold deleteStaleSessions at *
      split_ifs at *
      · exact h hlogged
      · exact (h hlogged).frame rfl rfl rfl id id
  | .removeStaleSessions =>
      have hstep' := hstep
      obtain ⟨_, hstep⟩ := Option.ite_none_right_eq_some.mp hstep
      obtain rfl := Option.some.inj hstep
      have hk := h hlogged
      have hspared := spared_of_young hk.young_now (Or.inr rfl) hstep'
      refine hk.frame rfl rfl rfl ?_ ?_
      · rintro ⟨row, hrow, heq⟩
        exact ⟨row, hspared.session row hrow heq, heq⟩
      · exact fun hyoung row hrow heq => hyoung row (Table.mem_delete.mp hrow).1 heq
  | .others accounts =>
      obtain rfl := Option.some.inj hstep
      exact (h hlogged).frame rfl rfl rfl id id

/-- A session for each of the two accounts, of this moment. -/
def twoSessions : Sessions where
  rows := [{ id := 7, userid := 1, time := 1000000 }, { id := 8, userid := 2, time := 1000000 }]
  unique := by decide

def startTwo : State :=
  start 1000000 600000 600000 twoAccounts twoSessions

end OsIrose.Session

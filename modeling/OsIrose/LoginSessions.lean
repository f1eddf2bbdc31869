/-
The session ids of the login server: `login/src/cloginclient.cpp`.

`UserLogin` takes the second the clock shows as the session id of the connection,
`ServerSelect` inserts a row of `sessions` under it, and `OnDisconnected` leaves the account
online if there is a row under it. A second is not an id: two logins of one second share it,
and then the second of two `ServerSelect` fails on the primary key, and a player who leaves
is taken for one who moved on. All is well if every login is given a second that nobody else
bears (`fresh`, `sessions_own`).

The run of statements is that of `Login`, with `ServerSelect` added: its change of the state
of the connection is one event and its INSERT another. An INSERT that fails throws, which
ends `ServerSelect`.
-/
import OsIrose.Login

set_option autoImplicit false

namespace OsIrose.LoginSessions

open Database Login Runs

/-- The next statement of `ServerSelect`. -/
inductive ServerSelect
  | idle
  | insertSession
  deriving DecidableEq

structure State where
  login : Login.State
  serverSelect : ℕ → ServerSelect
  /-- `OnDisconnected` has come to its end. -/
  left : ℕ → Bool

inductive Event
  /-- A statement of `UserLogin` or of `OnDisconnected`. -/
  | login (e : Login.Event)
  /-- `ServerSelect` is called; `found` tells whether the server is in the list. -/
  | serverSelect (c : ℕ) (found : Bool)
  | insertSession (c now : ℕ)

def State.client (s : State) (c : ℕ) : Client :=
  s.login.clients c

/-- The row that `ServerSelect` inserts. -/
def sessionRow (cl : Client) (now : ℕ) : SessionRow where
  id := cl.sessionId
  userid := cl.userid
  time := now

/-- The INSERT of `ServerSelect`; `sessions.id` is a signed column of 32 bits. -/
def insertSession (sessions : Sessions) (cl : Client) (now : ℕ) : Option Sessions :=
  if cl.sessionId < 2 ^ 31 then sessions.insert (sessionRow cl now) else none

/-- The state after one event, if it can happen. -/
def next (env : Env) (s : State) : Event → Option State
  | .login e =>
      (Login.next env s.login e).map (fun login =>
        { s with
          login := login
          left := fun c => s.left c ||
            (login.clients c).closed && decide ((login.clients c).onDisconnected = .idle) })
  | .serverSelect c found =>
      -- the handlers of a connection run one after another
      if (s.client c).userLogin = .idle ∧ s.serverSelect c = .idle then
        if (s.client c).loginState ≠ .LOGGEDIN then some s
        else some { s with
          login := s.login.setClient c { s.client c with loginState := .TRANSFERING }
          serverSelect := Function.update s.serverSelect c
            (if found then .insertSession else .idle) }
      else none
  | .insertSession c now =>
      if s.serverSelect c = .insertSession then
        some { s with
          login := { s.login with
            sessions := (insertSession s.login.sessions (s.client c) now).getD s.login.sessions }
          serverSelect := Function.update s.serverSelect c .idle }
      else none

def Step (env : Env) (s : State) (e : Event) (s' : State) : Prop :=
  next env s e = some s'

/-- New connections to a server with these tables. -/
def start (accounts : Accounts) (sessions : Sessions) : State where
  login := Login.start accounts sessions
  serverSelect := fun _ => .idle
  left := fun _ => false

/-! ## What a statement of `UserLogin` and `OnDisconnected` can do -/

/-- A change that gives no `OK` and keeps the session id of a connection that is logged
in. -/
structure Follows (cl cl' : Client) : Prop where
  loginState : cl'.loginState = cl.loginState
  ok : .OK ∈ cl'.replies ↔ .OK ∈ cl.replies
  sessionId : cl.loginState ≠ .DEFAULT → cl'.sessionId = cl.sessionId

/-- A change that has nothing to do with `OnDisconnected` either. -/
structure Stays (cl cl' : Client) : Prop extends Follows cl cl' where
  closed : cl'.closed = cl.closed
  onDisconnected : cl'.onDisconnected = cl.onDisconnected

theorem Stays.refl (cl : Client) : Stays cl cl :=
  ⟨⟨rfl, Iff.rfl, fun _ => rfl⟩, rfl, rfl⟩

theorem stays_of_moves {cl cl' : Client} (h : cl.Moves cl') : Stays cl cl' := by
  cases h with
  | stay => exact Stays.refl cl
  | goto hdefault => exact ⟨⟨rfl, Iff.rfl, fun h => absurd hdefault h⟩, rfl, rfl⟩
  | reply hresult =>
      exact ⟨⟨if_neg hresult, by simp [Client.sendLoginReply, hresult.symm], fun _ => rfl⟩,
        rfl, rfl⟩

theorem stays_update {f : ℕ → Client} {c : ℕ} {cl : Client} (h : Stays (f c) cl) (d : ℕ) :
    Stays (f d) (Function.update f c cl d) := by
  by_cases hd : d = c
  · subst hd
    rw [Function.update_self]
    exact h
  · rw [Function.update_of_ne hd]
    exact Stays.refl _

/-- `OnDisconnected` follows its connection. -/
theorem follows_onDisconnected {f : ℕ → Client} {c : ℕ} {closed : Bool} {st : OnDisconnected}
    (d : ℕ) :
    Follows (f d) (Function.update f c { f c with closed := closed, onDisconnected := st } d) := by
  by_cases hd : d = c
  · subst hd
    rw [Function.update_self]
    exact ⟨rfl, Iff.rfl, fun _ => rfl⟩
  · rw [Function.update_of_ne hd]
    exact (Stays.refl _).toFollows

/-- `OK`, the three statements of `OnDisconnected`, and everything else. -/
theorem login_cases {env : Env} {s s' : Login.State} {e : Login.Event} (hs : s.Sound)
    (h : Login.Step env s e s') :
    s'.sessions = s.sessions ∧
    ((∀ d, Stays (s.clients d) (s'.clients d)) ∨
    (∃ c, e = .replyOk c ∧ (s.clients c).loginState = .DEFAULT ∧
      s' = s.setClient c ((s.clients c).sendLoginReply .OK)) ∨
    (∃ c, s' = s.setClient c
      { s.clients c with closed := true, onDisconnected := .selectSession }) ∨
    (∃ c, s' = s.setClient c { s.clients c with
      onDisconnected :=
        if (s.sessions.select (fun session => session.id = (s.clients c).sessionId)).isEmpty then
          .updateAccount else .idle }) ∨
    (∃ c, s' = { s with accounts := setOffline s.accounts (s.clients c).userid }.setClient c
      { s.clients c with onDisconnected := .idle })) := by
  cases effect_of_step hs h with
  | moves hmoves => exact ⟨rfl, Or.inl (stays_update (stays_of_moves hmoves))⟩
  | updateAccount =>
      -- the UPDATE leaves the connection itself at its next statement
      exact ⟨rfl, Or.inl (stays_update ⟨⟨rfl, Iff.rfl, fun _ => rfl⟩, rfl, rfl⟩)⟩
  | @replyOk c hst =>
      exact ⟨rfl, Or.inr (Or.inl ⟨c, rfl, (hs c).busy (by simp [hst]), rfl⟩)⟩
  | @disconnect c => exact ⟨rfl, Or.inr (Or.inr (Or.inl ⟨c, rfl⟩))⟩
  | @selectOldSession c => exact ⟨rfl, Or.inr (Or.inr (Or.inr (Or.inl ⟨c, rfl⟩)))⟩
  | @updateOffline c => exact ⟨rfl, Or.inr (Or.inr (Or.inr (Or.inr ⟨c, rfl⟩)))⟩

theorem follows_or_replyOk {env : Env} {s s' : Login.State} {e : Login.Event} (hs : s.Sound)
    (h : Login.Step env s e s') :
    (∀ d, Follows (s.clients d) (s'.clients d)) ∨
    ∃ c, e = .replyOk c ∧ (s.clients c).loginState = .DEFAULT ∧
      s' = s.setClient c ((s.clients c).sendLoginReply .OK) := by
  obtain ⟨_, hstays | hreply | ⟨c, rfl⟩ | ⟨c, rfl⟩ | ⟨c, rfl⟩⟩ := login_cases hs h
  · exact Or.inl (fun d => (hstays d).toFollows)
  · exact Or.inr hreply
  · exact Or.inl follows_onDisconnected
  · exact Or.inl follows_onDisconnected
  · exact Or.inl follows_onDisconnected

/-- A socket that has been shut down stays so. -/
theorem closed_step {env : Env} {s s' : Login.State} {e : Login.Event} (hs : s.Sound)
    (h : Login.Step env s e s') {d : ℕ} (hd : (s.clients d).closed = true) :
    (s'.clients d).closed = true := by
  have hupdate : ∀ {c : ℕ} {cl : Client}, ((s.clients c).closed = true → cl.closed = true) →
      (Function.update s.clients c cl d).closed = true := by
    intro c cl hcl
    rw [Function.update_apply]
    split_ifs with hdc
    · exact hcl (hdc ▸ hd)
    · exact hd
  obtain ⟨_, hstays | ⟨c, _, _, rfl⟩ | ⟨c, rfl⟩ | ⟨c, rfl⟩ | ⟨c, rfl⟩⟩ := login_cases hs h
  · exact (hstays d).closed.trans hd
  · exact hupdate id
  · exact hupdate (fun _ => rfl)
  · exact hupdate id
  · exact hupdate id

/-! ## Who bears a session id -/

/-- The connection got `OK`, and its `OnDisconnected` or its INSERT is still to come. -/
def Bears (s : State) (c : ℕ) : Prop :=
  .OK ∈ (s.client c).replies ∧ (s.left c = false ∨ s.serverSelect c = .insertSession)

/-- The connection may still insert its row. -/
def Active (s : State) (c : ℕ) : Prop :=
  (s.client c).loginState = .LOGGEDIN ∨ s.serverSelect c = .insertSession

/-- Nobody else has the session id of the connection, and it fits into `sessions.id`. -/
structure Free (s : State) (c : ℕ) : Prop where
  fits : (s.client c).sessionId < 2 ^ 31
  bears : ∀ d, d ≠ c → Bears s d → (s.client d).sessionId ≠ (s.client c).sessionId
  rows : ∀ row ∈ s.login.sessions.rows, row.id ≠ (s.client c).sessionId

/-- A login gets `OK` under a free session id, and a `ServerSelect` that comes after the end
of `OnDisconnected` finds it free again. -/
def fresh (s : State) : Event → Prop
  | .login (.replyOk c) => Free s c
  | .serverSelect c _ => s.left c = true → (s.client c).loginState = .LOGGEDIN → Free s c
  | _ => True

/-- The session ids of the connections are their own. -/
structure Own (s : State) : Prop where
  bears : ∀ c d, d ≠ c → Bears s c → Bears s d → (s.client d).sessionId ≠ (s.client c).sessionId
  free : ∀ c, Bears s c → Active s c → Free s c

/-- What the fields of a connection say of its past. -/
structure Tracked (s : State) : Prop where
  sound : s.login.Sound
  ok : ∀ c, (s.client c).loginState ≠ .DEFAULT → .OK ∈ (s.client c).replies
  pending : ∀ c, s.serverSelect c = .insertSession → (s.client c).loginState = .TRANSFERING
  here : ∀ c, s.left c = false → (s.client c).closed = true → (s.client c).onDisconnected ≠ .idle
  gone : ∀ c, s.left c = true → (s.client c).closed = true

theorem own_step {s s' : State} (h : Own s) (c : ℕ)
    (hrows : s'.login.sessions = s.login.sessions)
    (hbears : ∀ d, Bears s' d → (s'.client d).sessionId = (s.client d).sessionId ∧
      (Bears s d ∧ (Active s' d → Active s d) ∨ d = c ∧ Free s d)) : Own s' := by
  have hdistinct : ∀ d e, e ≠ d → Bears s' d → Bears s' e →
      (s'.client e).sessionId ≠ (s'.client d).sessionId := by
    intro d e hne hd he
    obtain ⟨hidd, hd⟩ := hbears d hd
    obtain ⟨hide, he⟩ := hbears e he
    rw [hidd, hide]
    -- one of the two at most has just got its id, and that one is free
    rcases hd with ⟨hd, _⟩ | ⟨rfl, hfree⟩
    · rcases he with ⟨he, _⟩ | ⟨rfl, hfree⟩
      · exact h.bears d e hne hd he
      · exact (hfree.bears d hne.symm hd).symm
    · rcases he with ⟨he, _⟩ | ⟨rfl, _⟩
      · exact hfree.bears e hne he
      · exact absurd rfl hne
  refine ⟨hdistinct, fun d hd hactive => ?_⟩
  obtain ⟨hid, hold⟩ := hbears d hd
  have hfree : Free s d := by
    rcases hold with ⟨hb, ha⟩ | ⟨_, hfree⟩
    · exact h.free d hb (ha hactive)
    · exact hfree
  exact ⟨hid ▸ hfree.fits, fun e hne he => hdistinct d e hne hd he,
    hrows ▸ hid ▸ hfree.rows⟩

/-! ## One step -/

section Step

variable {env : Env} {s s' : State}

theorem login_eq {e : Login.Event} (h : Step env s (.login e) s') :
    ∃ login, Login.Step env s.login e login ∧ s' = { s with
      login := login
      left := fun c => s.left c ||
        (login.clients c).closed && decide ((login.clients c).onDisconnected = .idle) } := by
  obtain ⟨login, hlogin, rfl⟩ := Option.map_eq_some_iff.mp h
  exact ⟨login, hlogin, rfl⟩

/-- A `ServerSelect` that is refused, and one that is not. -/
theorem serverSelect_eq {c : ℕ} {found : Bool} (h : Step env s (.serverSelect c found) s') :
    s' = s ∨ (s.client c).loginState = .LOGGEDIN ∧ (s.client c).userLogin = .idle ∧ s' = { s with
      login := s.login.setClient c { s.client c with loginState := .TRANSFERING }
      serverSelect := Function.update s.serverSelect c
        (if found then .insertSession else .idle) } := by
  obtain ⟨⟨hidle, _⟩, h⟩ := Option.ite_none_right_eq_some.mp h
  split at h
  · exact Or.inl (Option.some.inj h).symm
  · next hstate => exact Or.inr ⟨not_not.mp hstate, hidle, (Option.some.inj h).symm⟩

theorem insertSession_eq {c now : ℕ} (h : Step env s (.insertSession c now) s') :
    s.serverSelect c = .insertSession ∧ s' = { s with
      login := { s.login with
        sessions := (insertSession s.login.sessions (s.client c) now).getD s.login.sessions }
      serverSelect := Function.update s.serverSelect c .idle } := by
  obtain ⟨hpending, h⟩ := Option.ite_none_right_eq_some.mp h
  exact ⟨hpending, (Option.some.inj h).symm⟩

theorem tracked_login {e : Login.Event} (hs : Tracked s) (h : Step env s (.login e) s') :
    Tracked s' := by
  obtain ⟨login, hlogin, rfl⟩ := login_eq h
  have hsound := Login.sound_step hs.sound hlogin
  have hhere : ∀ c, (s.left c || (login.clients c).closed &&
      decide ((login.clients c).onDisconnected = .idle)) = false →
      (login.clients c).closed = true → (login.clients c).onDisconnected ≠ .idle := by
    intro c hleft hclosed hidle
    simp [hclosed, hidle] at hleft
  have hgone : ∀ c, (s.left c || (login.clients c).closed &&
      decide ((login.clients c).onDisconnected = .idle)) = true →
      (login.clients c).closed = true := by
    intro c hleft
    rcases (Bool.or_eq_true _ _).mp hleft with hleft | hleft
    · exact closed_step hs.sound hlogin (hs.gone c hleft)
    · exact ((Bool.and_eq_true _ _).mp hleft).1
  rcases follows_or_replyOk hs.sound hlogin with hfollows | ⟨c, _, hdefault, rfl⟩
  · refine ⟨hsound, fun d hd => ?_, fun d hd => ?_, hhere, hgone⟩
    · exact (hfollows d).ok.mpr (hs.ok d ((hfollows d).loginState ▸ hd))
    · exact (hfollows d).loginState.trans (hs.pending d hd)
  · refine ⟨hsound, fun d hd => ?_, fun d hd => ?_, hhere, hgone⟩
    · simp only [State.client, setClient_clients, Function.update_apply] at hd ⊢
      split_ifs at hd ⊢
      · simp [Client.sendLoginReply]
      · exact hs.ok d hd
    · -- `ServerSelect` is past `DEFAULT`, so it is another connection
      have hpending := hs.pending d hd
      have hne : d ≠ c := by
        rintro rfl
        exact absurd (hdefault.symm.trans hpending) (by simp)
      simp only [State.client, setClient_clients, Function.update_of_ne hne]
      exact hpending

theorem tracked_step {e : Event} (hs : Tracked s) (h : Step env s e s') : Tracked s' := by
  cases e with
  | login e => exact tracked_login hs h
  | serverSelect c found =>
      obtain rfl | ⟨hstate, hidle, rfl⟩ := serverSelect_eq h
      · exact hs
      -- only the state of the connection changes, and it was and is past `DEFAULT`
      have hok := hs.ok c (by simp [hstate])
      refine ⟨fun d => ?_, fun d hd => ?_, fun d hd => ?_, fun d => ?_, fun d => ?_⟩ <;>
        simp only [State.client, setClient_clients, Function.update_apply] at *
      · split_ifs
        · exact ⟨fun _ => by simp, fun hbusy => absurd hidle hbusy⟩
        · exact hs.sound d
      · split_ifs at hd ⊢
        · exact hok
        · exact hs.ok d hd
      · split_ifs at hd ⊢
        · rfl
        · exact hs.pending d hd
      · split_ifs with hdc
        · exact hdc ▸ hs.here c
        · exact hs.here d
      · split_ifs with hdc
        · exact hdc ▸ hs.gone c
        · exact hs.gone d
  | insertSession c now =>
      obtain ⟨_, rfl⟩ := insertSession_eq h
      refine ⟨hs.sound, hs.ok, fun d hd => ?_, hs.here, hs.gone⟩
      refine hs.pending d ?_
      simp only [Function.update_apply] at hd
      split_ifs at hd
      exact hd

/-- The INSERT of a connection with a free session id succeeds. -/
theorem insertSession_of_free {c : ℕ} (h : Free s c) (now : ℕ) :
    ∃ sessions, insertSession s.login.sessions (s.client c) now = some sessions ∧
      sessions.rows = s.login.sessions.rows ++ [sessionRow (s.client c) now] := by
  obtain ⟨sessions, hinsert, hrows⟩ :=
    Table.insert_of_notMem (r := sessionRow (s.client c) now) h.rows
  exact ⟨sessions, (if_pos h.fits).trans hinsert, hrows⟩

/-- A connection that is about to insert bears its session id. -/
theorem free_of_pending (hs : Tracked s) (hown : Own s) {c : ℕ}
    (hpending : s.serverSelect c = .insertSession) : Free s c := by
  have hok := hs.ok c (by simp [hs.pending c hpending])
  exact hown.free c ⟨hok, Or.inr hpending⟩ (Or.inr hpending)

theorem own_insertSession (hs : Tracked s) (hown : Own s) {c now : ℕ}
    (h : Step env s (.insertSession c now) s') : Own s' := by
  obtain ⟨hpending, rfl⟩ := insertSession_eq h
  obtain ⟨sessions, hinsert, hrows⟩ := insertSession_of_free (free_of_pending hs hown hpending) now
  have htransfering := hs.pending c hpending
  have hc : Bears s c := ⟨hs.ok c (by simp [htransfering]), Or.inr hpending⟩
  -- no connection bears an id that did not before
  have hbears : ∀ d, Bears { s with
      login := { s.login with
        sessions := (insertSession s.login.sessions (s.client c) now).getD s.login.sessions }
      serverSelect := Function.update s.serverSelect c .idle } d → Bears s d := by
    intro d hd
    by_cases hdc : d = c
    · exact hdc ▸ hc
    · simpa only [Bears, State.client, Function.update_of_ne hdc] using hd
  refine ⟨fun d d' hne hd hd' => hown.bears d d' hne (hbears d hd) (hbears d' hd'), ?_⟩
  intro d hd hactive
  -- the connection that has inserted its row has nothing more to insert
  have hdc : d ≠ c := by
    rintro rfl
    simp only [Active, Function.update_self, State.client] at hactive htransfering
    simp [htransfering] at hactive
  have hactive' : Active s d := by
    simpa only [Active, State.client, Function.update_of_ne hdc] using hactive
  have hfree := hown.free d (hbears d hd) hactive'
  refine ⟨hfree.fits, fun d' hne hd' => hfree.bears d' hne (hbears d' hd'), fun row hrow => ?_⟩
  simp only [hinsert, Option.getD_some, hrows, List.mem_append, List.mem_singleton] at hrow
  -- the new row has the id of its own connection
  rcases hrow with hrow | rfl
  · exact hfree.rows row hrow
  · exact hfree.bears c hdc.symm hc

/-- A guarded step leaves every session id with the connection that bears it. -/
theorem own_next {e : Event} (hs : Tracked s) (hown : Own s)
    (h : Guarded fresh (Step env) s e s') : Own s' := by
  obtain ⟨hfresh, h⟩ := h
  cases e with
  | login e =>
      obtain ⟨login, hlogin, rfl⟩ := login_eq h
      obtain ⟨hsessions, _⟩ := login_cases hs.sound hlogin
      rcases follows_or_replyOk hs.sound hlogin with hfollows | ⟨c, rfl, _, rfl⟩
      · refine own_step hown 0 hsessions (fun d hd => ?_)
        have hok : .OK ∈ (s.client d).replies := (hfollows d).ok.mp hd.1
        have hbears : Bears s d := ⟨hok, hd.2.imp_left (fun h => (Bool.or_eq_false_iff.mp h).1)⟩
        refine ⟨(hfollows d).sessionId ((hs.sound d).replied hok), Or.inl ⟨hbears, ?_⟩⟩
        exact Or.imp_left (fun h => (hfollows d).loginState ▸ h)
      · -- the connection gets `OK` under an id that is free
        refine own_step hown c hsessions (fun d hd => ?_)
        simp only [Bears, Active, State.client, setClient_clients, Function.update_apply] at hd ⊢
        split_ifs at hd ⊢ with hdc
        · subst hdc
          exact ⟨rfl, Or.inr ⟨rfl, hfresh⟩⟩
        · exact ⟨rfl, Or.inl ⟨⟨hd.1, hd.2.imp_left (fun h => (Bool.or_eq_false_iff.mp h).1)⟩, id⟩⟩
  | serverSelect c found =>
      obtain rfl | ⟨hstate, hidle, rfl⟩ := serverSelect_eq h
      · exact hown
      have hok := hs.ok c (by simp [hstate])
      refine own_step hown c rfl (fun d hd => ?_)
      simp only [Bears, Active, State.client, setClient_clients, Function.update_apply] at hd ⊢
      split_ifs at hd ⊢ with hdc hfound
      · subst hdc
        refine ⟨rfl, ?_⟩
        -- after the end of `OnDisconnected` it bears the id anew
        by_cases hleft : s.left d = true
        · exact Or.inr ⟨rfl, hfresh hleft hstate⟩
        · exact Or.inl ⟨⟨hok, Or.inl (Bool.eq_false_of_not_eq_true hleft)⟩,
            fun _ => Or.inl hstate⟩
      · subst hdc
        exact ⟨rfl, Or.inl ⟨⟨hok, hd.2.imp_right (by simp)⟩, fun h => Or.inl hstate⟩⟩
      · exact ⟨rfl, Or.inl ⟨hd, id⟩⟩
  | insertSession c now => exact own_insertSession hs hown h

end Step

/-! ## Every run -/

/-- Connections that are logged in to different accounts have different session ids. -/
def DistinctIds (s : State) : Prop :=
  ∀ c d a b, GotOk s.login c a → GotOk s.login d b → a ≠ b →
    (s.client c).sessionId ≠ (s.client d).sessionId

/-- A `ServerSelect` that has come to its INSERT inserts the row of its own account. -/
def InsertsOwn (env : Env) (s : State) : Prop :=
  ∀ c now s', Step env s (.insertSession c now) s' →
    s'.login.sessions.rows = s.login.sessions.rows ++ [sessionRow (s.client c) now]

/-- A connection that got `OK` and leaves before `ServerSelect` leaves its account offline. -/
def LeavesOffline (env : Env) (s : State) : Prop :=
  ∀ e s', Step env s e s' → ∀ c, s.left c = false → s'.left c = true →
    .OK ∈ (s.client c).replies → (s.client c).loginState = .LOGGEDIN →
    ¬ Online s'.login.accounts (s.client c).userid

theorem leavesOffline {env : Env} {s : State} (hs : Tracked s) (hown : Own s) :
    LeavesOffline env s := by
  intro e s' h c hleft hleft' hok hstate
  cases e with
  | serverSelect c found =>
      obtain rfl | ⟨_, _, rfl⟩ := serverSelect_eq h
      · exact absurd (hleft.symm.trans hleft') (by simp)
      · exact absurd (hleft.symm.trans hleft') (by simp)
  | insertSession c now =>
      obtain ⟨_, rfl⟩ := insertSession_eq h
      exact absurd (hleft.symm.trans hleft') (by simp)
  | login e =>
      obtain ⟨login, hlogin, rfl⟩ := login_eq h
      obtain ⟨hclosed, hidle⟩ : (login.clients c).closed = true ∧
          (login.clients c).onDisconnected = .idle := by
        simpa [hleft] using hleft'
      -- it left in this step, so this is a step of its `OnDisconnected`
      have hhere : ¬ ((s.client c).closed = true ∧ (s.client c).onDisconnected = .idle) :=
        fun h => hs.here c hleft h.1 h.2
      have hself : ∀ {d : ℕ} {cl : Client},
          login.clients = Function.update s.login.clients d cl →
          d = c ∧ cl.closed = true ∧ cl.onDisconnected = .idle := by
        intro d cl hclients
        rw [hclients, Function.update_apply] at hclosed hidle
        split_ifs at hclosed hidle with hcd
        · exact ⟨hcd.symm, hclosed, hidle⟩
        · exact absurd ⟨hclosed, hidle⟩ hhere
      obtain ⟨_, hstays | ⟨d, _, _, rfl⟩ | ⟨d, rfl⟩ | ⟨d, rfl⟩ | ⟨d, rfl⟩⟩ :=
        login_cases hs.sound hlogin
      · exact absurd ⟨(hstays c).closed ▸ hclosed, (hstays c).onDisconnected ▸ hidle⟩ hhere
      · obtain ⟨rfl, hclosed, hidle⟩ := hself rfl
        exact absurd ⟨hclosed, hidle⟩ hhere
      · obtain ⟨_, _, hidle⟩ := hself rfl
        exact absurd hidle (by simp)
      · -- a row under the session id would be that of somebody else
        obtain ⟨rfl, _, hidle⟩ := hself rfl
        have hfree := hown.free d ⟨hok, Or.inl hleft⟩ (Or.inl hstate)
        have hempty : s.login.sessions.select
            (fun session => session.id = (s.login.clients d).sessionId) = [] := by
          refine List.filter_eq_nil_iff.mpr (fun row hrow => ?_)
          simpa [State.client] using hfree.rows row hrow
        simp [hempty] at hidle
      · obtain ⟨rfl, _, _⟩ := hself rfl
        show ¬ Online (setOffline s.login.accounts _) _
        rw [online_setOffline_iff]
        exact fun h => h.2 rfl

theorem tracked_start (accounts : Accounts) (sessions : Sessions) :
    Tracked (start accounts sessions) where
  sound := sound_start accounts sessions
  ok := fun _ h => absurd rfl h
  pending := fun _ h => absurd h (by simp [start])
  here := fun _ _ h => absurd h (by simp [start, Login.start, State.client])
  gone := fun _ h => absurd h (by simp [start])

theorem own_start (accounts : Accounts) (sessions : Sessions) :
    Own (start accounts sessions) where
  bears := fun _ _ _ h => absurd h.1 List.not_mem_nil
  free := fun _ h => absurd h.1 List.not_mem_nil

/-- **The session ids are the connections' own**, in every interleaving in which a login
gets `OK` only in a second that nobody else bears. -/
theorem sessions_own {env : Env} {accounts : Accounts} {sessions : Sessions}
    {es : List Event} {s : State}
    (h : Run (Guarded fresh (Step env)) (start accounts sessions) es s) :
    DistinctIds s ∧ InsertsOwn env s ∧ LeavesOffline env s := by
  have hstep : ∀ s e s', Tracked s ∧ Own s → Guarded fresh (Step env) s e s' →
      Tracked s' ∧ Own s' :=
    fun _ _ _ ⟨hs, hown⟩ hstep => ⟨tracked_step hs hstep.2, own_next hs hown hstep⟩
  obtain ⟨hs, hown⟩ : Tracked s ∧ Own s :=
    h.state_invariant ⟨tracked_start accounts sessions, own_start accounts sessions⟩ hstep
  have hbears : ∀ {c a : ℕ}, GotOk s.login c a → Bears s c := by
    rintro c a ⟨hok, _, hopen⟩
    refine ⟨hok, Or.inl (Bool.eq_false_of_not_eq_true (fun hleft => ?_))⟩
    exact absurd (hopen.symm.trans (hs.gone c hleft)) (by simp)
  refine ⟨fun c d a b hc hd hab => ?_, fun c now s' hstep => ?_, leavesOffline hs hown⟩
  · refine hown.bears d c ?_ (hbears hd) (hbears hc)
    rintro rfl
    exact hab (hc.2.1.symm.trans hd.2.1)
  · obtain ⟨hpending, rfl⟩ := insertSession_eq hstep
    obtain ⟨sessions, hinsert, hrows⟩ :=
      insertSession_of_free (free_of_pending hs hown hpending) now
    simp only [hinsert, Option.getD_some, hrows]

/-! ## Two logins of one second -/

/-- Two accounts, `a` and `b`, with empty passwords. -/
def twoOffline : Accounts where
  rows := [{ id := 1, username := [0x61] }, { id := 2, username := [0x62] }]
  unique := by decide

/-- Connection `c` logs in as the user with that name, in second `now`, up to its reply. -/
def logsIn (c : ℕ) (name : ByteMem.Byte) (now : ℕ) : List Event :=
  [.login (.userLogin c { username := [name], password := [] } 1), .login (.selectAccount c),
    .login (.selectSession c now), .login (.updateAccount c)]

theorem sessions_own_sample : ∃ s, GotOk s.login 0 1 ∧ GotOk s.login 1 2 ∧
    DistinctIds s ∧ InsertsOwn plainEnv s ∧ LeavesOffline plainEnv s := by
  obtain ⟨s, hrun, s', hreply, s'', hreply', hsilent, hid, hrows, hsilent', hids, hrows', hok,
      hok'⟩ :
      ∃ s, (logsIn 0 0x61 100 ++ logsIn 1 0x62 101).foldlM (next plainEnv)
        (start twoOffline noSessions) = some s ∧
        ∃ s', next plainEnv s (.login (.replyOk 0)) = some s' ∧
          ∃ s'', next plainEnv s' (.login (.replyOk 1)) = some s'' ∧
            (∀ d, (s.client d).replies = []) ∧ (s.client 0).sessionId = 100 ∧
            s.login.sessions.rows = [] ∧ (∀ d, (s'.client (d + 1)).replies = []) ∧
            ((s'.client 0).sessionId = 100 ∧ (s'.client 1).sessionId = 101) ∧
            s'.login.sessions.rows = [] ∧ GotOk s''.login 0 1 ∧ GotOk s''.login 1 2 :=
    ⟨_, rfl, _, rfl, _, rfl, fun | 0 => rfl | 1 => rfl | _ + 2 => rfl, rfl, rfl,
      fun | 0 => rfl | _ + 1 => rfl, ⟨rfl, rfl⟩, rfl, ⟨by decide, rfl, rfl⟩, by decide, rfl, rfl⟩
  have hfree : Free s 0 := by
    refine ⟨by simp [hid], fun d _ hbears => ?_, by simp [hrows]⟩
    exact absurd hbears.1 (by simp [hsilent])
  have hfree' : Free s' 1 := by
    refine ⟨by simp [hids], fun d hd hbears => ?_, by simp [hrows']⟩
    cases d with
    | zero => simp [hids]
    | succ d => exact absurd hbears.1 (by simp [hsilent'])
  have hbegin := (Run.of_foldlM hrun).guarded fresh (by simp [logsIn, fresh])
  have hfirst : Guarded fresh (Step plainEnv) s (.login (.replyOk 0)) s' := ⟨hfree, hreply⟩
  have hlast : Guarded fresh (Step plainEnv) s' (.login (.replyOk 1)) s'' := ⟨hfree', hreply'⟩
  exact ⟨s'', hok, hok', sessions_own (Run.snoc (Run.snoc hbegin hfirst) hlast)⟩

/-- Two players of different accounts log in in the same second, and the first selects a
server. -/
def sameSecond : List Event :=
  logsIn 0 0x61 100 ++ [.login (.replyOk 0)] ++ logsIn 1 0x62 100 ++
    [.login (.replyOk 1), .serverSelect 0 true, .insertSession 0 0]

/-- They have the same session id. If the second selects a server as well, no row is
inserted for it, and if it leaves, its account stays online. -/
theorem not_sessions_own_sample : ∃ s t u,
    (Run (Step plainEnv) (start twoOffline noSessions) sameSecond s ∧ ¬ DistinctIds s) ∧
    (Run (Step plainEnv) (start twoOffline noSessions) (sameSecond ++ [.serverSelect 1 true]) t ∧
      ¬ InsertsOwn plainEnv t) ∧
    Run (Step plainEnv) (start twoOffline noSessions)
      (sameSecond ++ [.login (.disconnect 1)]) u ∧ ¬ LeavesOffline plainEnv u := by
  obtain ⟨s, hrun, hok, hok', hids, t, hselect, hnone, t', hinsert, u, hdisconnect, u', hlast,
      hleft, hleft', hreply, hstate, honline⟩ :
      ∃ s, sameSecond.foldlM (next plainEnv) (start twoOffline noSessions) = some s ∧
        GotOk s.login 0 1 ∧ GotOk s.login 1 2 ∧
        (s.client 0).sessionId = (s.client 1).sessionId ∧
        ∃ t, next plainEnv s (.serverSelect 1 true) = some t ∧
          insertSession t.login.sessions (t.client 1) 0 = none ∧
          ∃ t', next plainEnv t (.insertSession 1 0) = some t' ∧
        ∃ u, next plainEnv s (.login (.disconnect 1)) = some u ∧
          ∃ u', next plainEnv u (.login (.selectOldSession 1)) = some u' ∧
            u.left 1 = false ∧ u'.left 1 = true ∧
            .OK ∈ (u.client 1).replies ∧ (u.client 1).loginState = .LOGGEDIN ∧
            u'.login.accounts.rows.any
              (fun row => decide (row.id = (u.client 1).userid ∧ row.online = true)) = true :=
    ⟨_, rfl, ⟨by decide, rfl, rfl⟩, ⟨by decide, rfl, rfl⟩, rfl, _, rfl, rfl, _, rfl, _, rfl, _,
      rfl, rfl, rfl, by decide, rfl, by decide⟩
  have hsecond := Run.of_foldlM hrun
  refine ⟨s, t, u, ⟨hsecond, fun h => ?_⟩, ⟨Run.snoc hsecond hselect, fun h => ?_⟩,
    Run.snoc hsecond hdisconnect, fun h => ?_⟩
  · exact h 0 1 1 2 hok hok' (by decide) hids
  · obtain ⟨_, rfl⟩ := insertSession_eq hinsert
    have hrows := h 1 0 _ hinsert
    simp [hnone] at hrows
  · obtain ⟨row, hrow, honline⟩ := List.any_eq_true.mp honline
    exact h _ u' hlast 1 hleft hleft' hreply hstate ⟨row, hrow, of_decide_eq_true honline⟩

end OsIrose.LoginSessions

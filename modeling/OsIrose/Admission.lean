/-
Who is let in by the char servers and the map servers.

`Moves` says once what an event of any server does to the clients and the tables. From it
follows what the rows of `sessions` and the clients rest on (`Traced`): the account of a row is
the one that the login server gave `OK` for, under the session id of the row, and a connection
gets `OK` only with the credentials of its account (`Shown`). So in every interleaving whoever is
let in as an account carries a session id that was given to a connection which had sent the user
name and the password of the account, and has sent the password itself (`authenticated`).
-/
import OsIrose.Handover

set_option autoImplicit false

namespace OsIrose.Handover

open ByteMem Database Runs
open CharClient (CharacterRow)
open Characters (InventoryRow)
open Escape (escapeData)
open MapClient (CliJoinServerReq)

/-! ## What is known of a client -/

/-- Connection `d` of the login server has sent the user name and the password of the
account. -/
def Credentials (my : Mysql) (accounts : Accounts) (es : List Event) (d userid : ℕ) : Prop :=
  ∃ P serverCount, .login (.login (.userLogin d P serverCount)) ∈ es ∧
    ∃ row ∈ accounts.rows, row.id = userid ∧
      my.sameText row.username (escapeData P.username) = true ∧
      my.samePassword (escapeData P.password) row = true

/-- Connection `d` of the login server got `OK` for the account, under that session id. -/
def GotOk (s : State) (d sessionId userid : ℕ) : Prop :=
  .OK ∈ (s.login.client d).replies ∧ (s.login.client d).sessionId = sessionId ∧
    (s.login.client d).userid = userid

/-- The session id was given out for the account. -/
def Issued (s : State) (sessionId userid : ℕ) : Prop :=
  ∃ d, GotOk s d sessionId userid

/-- One of the requests was sent with the session id and the password of the account. -/
def Sent (my : Mysql) (accounts : Accounts) (asked : CliJoinServerReq → Prop)
    (sessionId userid : ℕ) : Prop :=
  ∃ P, asked P ∧ P.sessionId = sessionId ∧ Knows my accounts P.password userid

/-- A client that asked to join with such a request is let in by right: it has sent the session
id and the password of the account, and the session id is one that the login server gave to a
connection which had sent the name and the password of the account. -/
def Rightful (env : Env) (es : List Event) (s : State) (asked : CliJoinServerReq → Prop)
    (sessionId userid : ℕ) : Prop :=
  Sent env.login.mysql s.accounts asked sessionId userid ∧
  ∃ d, GotOk s d sessionId userid ∧ Credentials env.login.mysql s.accounts es d userid

/-- Everyone that is let in is let in by right. -/
structure Authentic (env : Env) (es : List Event) (s : State) : Prop where
  chars : ∀ c, (s.chars c).loginState ≠ .DEFAULT →
    Rightful env es s (fun P => ∃ channelid, .charJoin c P channelid ∈ es)
      (s.chars c).sessionId (s.chars c).userId
  maps : ∀ k c cl, (s.maps k).clients c = some cl → cl.loginState ≠ .DEFAULT →
    Rightful env es s (fun P => ∃ outcome, .map k (.joinServerReply c P outcome) ∈ es)
      cl.sessionId cl.userid

/-- The accounts stay, and the credentials with them. -/
theorem AccountsStay.credentials {my : Mysql} {accounts accounts' : Accounts}
    (h : AccountsStay accounts accounts') {es : List Event} {d userid : ℕ} :
    Credentials my accounts es d userid → Credentials my accounts' es d userid := by
  rintro ⟨P, serverCount, hP, row, hrow, hid, hname, hpass⟩
  obtain ⟨row', hrow', hid', husername, hpassword, hsalt⟩ := h row hrow
  exact ⟨P, serverCount, hP, row', hrow', hid'.trans hid, husername ▸ hname,
    (samePassword hpassword hsalt _).trans hpass⟩

theorem Credentials.append {my : Mysql} {accounts : Accounts} {es : List Event} {d userid : ℕ}
    (h : Credentials my accounts es d userid) (e : Event) :
    Credentials my accounts (es ++ [e]) d userid := by
  obtain ⟨P, serverCount, hP, hrow⟩ := h
  exact ⟨P, serverCount, List.mem_append_left _ hP, hrow⟩

/-! ## The login server gives `OK` for credentials -/

/-- What a connection of the login server has shown, as far as its `UserLogin` has come. -/
structure Shown (my : Mysql) (accounts : Accounts) (es : List Event) (d : ℕ)
    (cl : Login.Client) : Prop where
  asked : ∀ username clientpass, cl.userLogin = .selectAccount username clientpass →
    ∃ P serverCount, .login (.login (.userLogin d P serverCount)) ∈ es ∧
      username = escapeData P.username ∧ clientpass = escapeData P.password
  found : ∀ row, cl.userLogin = .selectSession row → Credentials my accounts es d row.id
  updates : ∀ row, cl.userLogin = .updateAccount row → Credentials my accounts es d cl.userid
  replies : cl.userLogin = .replyOk → Credentials my accounts es d cl.userid
  ok : .OK ∈ cl.replies → Credentials my accounts es d cl.userid

namespace Shown

variable {my : Mysql} {accounts accounts' : Accounts} {es : List Event} {d : ℕ}
  {cl cl' : Login.Client}

theorem mono (h : Shown my accounts es d cl) (haccounts : AccountsStay accounts accounts')
    (e : Event) : Shown my accounts' (es ++ [e]) d cl where
  asked := fun username clientpass hst => by
    obtain ⟨P, serverCount, hP, htexts⟩ := h.asked username clientpass hst
    exact ⟨P, serverCount, List.mem_append_left _ hP, htexts⟩
  found := fun row hst => (haccounts.credentials (h.found row hst)).append e
  updates := fun row hst => (haccounts.credentials (h.updates row hst)).append e
  replies := fun hst => (haccounts.credentials (h.replies hst)).append e
  ok := fun hok => (haccounts.credentials (h.ok hok)).append e

/-- A change that is not one of `UserLogin`. -/
theorem congr (h : Shown my accounts es d cl) (huserLogin : cl'.userLogin = cl.userLogin)
    (huserid : cl'.userid = cl.userid) (hreplies : cl'.replies = cl.replies) :
    Shown my accounts es d cl' where
  asked := fun username clientpass hst => h.asked username clientpass (huserLogin ▸ hst)
  found := fun row hst => h.found row (huserLogin ▸ hst)
  updates := fun row hst => huserid ▸ h.updates row (huserLogin ▸ hst)
  replies := fun hst => huserid ▸ h.replies (huserLogin ▸ hst)
  ok := fun hok => huserid ▸ h.ok (hreplies ▸ hok)

/-- A reply other than `OK` ends `UserLogin`. -/
theorem sendLoginReply (h : Shown my accounts es d cl) {result : Login.SrvLoginReply}
    (hresult : result ≠ .OK) : Shown my accounts es d (cl.sendLoginReply result) where
  asked := fun _ _ hst => absurd hst (by simp [Login.Client.sendLoginReply])
  found := fun _ hst => absurd hst (by simp [Login.Client.sendLoginReply])
  updates := fun _ hst => absurd hst (by simp [Login.Client.sendLoginReply])
  replies := fun hst => absurd hst (by simp [Login.Client.sendLoginReply])
  ok := fun hok => h.ok (by simpa [Login.Client.sendLoginReply, hresult.symm] using hok)

/-- A statement of `UserLogin` of a connection that has no `OK` yet. -/
theorem goto {st : Login.UserLogin} (hreplies : cl'.replies = cl.replies)
    (hok : .OK ∉ cl.replies) (hst : cl'.userLogin = st)
    (h : match st with
      | .selectAccount username clientpass =>
          ∃ P serverCount, .login (.login (.userLogin d P serverCount)) ∈ es ∧
            username = escapeData P.username ∧ clientpass = escapeData P.password
      | .selectSession row => Credentials my accounts es d row.id
      | .updateAccount _ | .replyOk => Credentials my accounts es d cl'.userid
      | _ => True) : Shown my accounts es d cl' where
  asked := fun username clientpass heq => by
    obtain rfl := hst.symm.trans heq
    exact h
  found := fun row heq => by
    obtain rfl := hst.symm.trans heq
    exact h
  updates := fun row heq => by
    obtain rfl := hst.symm.trans heq
    exact h
  replies := fun heq => by
    obtain rfl := hst.symm.trans heq
    exact h
  ok := fun hmem => absurd (hreplies ▸ hmem) hok

end Shown

theorem shown_update {my : Mysql} {accounts : Accounts} {es : List Event}
    {f : ℕ → Login.Client} (h : ∀ d, Shown my accounts es d (f d)) {c : ℕ} {cl : Login.Client}
    (hcl : Shown my accounts es c cl) (d : ℕ) :
    Shown my accounts es d (Function.update f c cl d) := by
  by_cases hd : d = c
  · subst hd
    rw [Function.update_self]
    exact hcl
  · rw [Function.update_of_ne hd]
    exact h d

section Login

variable {env : Login.Env} {s s' : Login.State} {es : List Event}

/-- The SELECT of the account finds one whose name and password were sent. -/
theorem shown_selectAccount {c : ℕ} {username clientpass : List Byte}
    (h : Shown env.mysql s.accounts es c (s.clients c)) (hok : .OK ∉ (s.clients c).replies)
    (hst : (s.clients c).userLogin = .selectAccount username clientpass) :
    Shown env.mysql s.accounts es c
      ((s.clients c).selectAccount env.mysql s.accounts username clientpass) := by
  obtain ⟨P, serverCount, hP, rfl, rfl⟩ := h.asked _ _ hst
  unfold Login.Client.selectAccount
  dsimp only
  split
  · next row hhead =>
      obtain ⟨hrow, hsame⟩ := List.mem_filter.mp (List.mem_of_mem_head? hhead)
      -- the WHERE compares the name, the SELECT compares the password
      rw [Bool.and_eq_true] at hsame
      exact .goto rfl hok rfl ⟨P, serverCount, hP, row, hrow, rfl, hsame.1, hsame.2⟩
  · exact .goto rfl hok rfl trivial

theorem shown_selectSession {c now : ℕ} {row : AccountRow}
    (h : Shown env.mysql s.accounts es c (s.clients c)) (hok : .OK ∉ (s.clients c).replies)
    (hst : (s.clients c).userLogin = .selectSession row) :
    Shown env.mysql s.accounts es c ((s.clients c).selectSession s.sessions now row) := by
  have hrow := h.found row hst
  unfold Login.Client.selectSession
  dsimp only
  split_ifs
  · refine Shown.sendLoginReply ?_ (by simp)
    exact h.congr rfl rfl rfl
  · -- the account of the row that was found goes on
    exact .goto rfl hok rfl hrow
  · refine Shown.sendLoginReply ?_ (by simp)
    exact h.congr rfl rfl rfl

/-- A statement of the login server leaves the accounts with their passwords, and a connection
gets on in `UserLogin` only with the credentials of its account. -/
theorem shown_login {e : Login.Event} (hs : s.Sound) (h : Login.Step env s e s')
    (hshown : ∀ d, Shown env.mysql s.accounts es d (s.clients d)) :
    AccountsStay s.accounts s'.accounts ∧
      ∀ d, Shown env.mysql s'.accounts (es ++ [.login (.login e)]) d (s'.clients d) := by
  have hmono : ∀ {accounts : Accounts}, AccountsStay s.accounts accounts →
      ∀ d, Shown env.mysql accounts (es ++ [.login (.login e)]) d (s.clients d) :=
    fun haccounts d => (hshown d).mono haccounts _
  have hsame := hmono (AccountsStay.refl s.accounts)
  -- a connection in `UserLogin` has no `OK` yet
  have hbusy : ∀ {c : ℕ} {st : Login.UserLogin}, (s.clients c).userLogin = st → st ≠ .idle →
      .OK ∉ (s.clients c).replies := by
    intro c st hst hne hok
    exact (hs c).replied hok ((hs c).busy (hst ▸ hne))
  cases e with
  | userLogin c P serverCount =>
      obtain ⟨hidle, h⟩ := Option.ite_none_right_eq_some.mp h
      obtain rfl := Option.some.inj h
      refine ⟨AccountsStay.refl _, shown_update hsame ?_⟩
      unfold Login.Client.beginLogin
      split_ifs with hstate
      · exact hsame c
      · exact (hsame c).sendLoginReply (by simp)
      · -- what is asked for is what this event sends
        have hok : .OK ∉ (s.clients c).replies :=
          fun hok => (hs c).replied hok (not_not.mp hstate)
        exact .goto rfl hok rfl
          ⟨P, serverCount, List.mem_append_right _ (List.mem_singleton.mpr rfl), rfl, rfl⟩
  | selectAccount c =>
      simp only [Login.Step, Login.next] at h
      split at h
      · next hst =>
          obtain rfl := Option.some.inj h
          exact ⟨AccountsStay.refl _,
            shown_update hsame (shown_selectAccount (hsame c) (hbusy hst (by simp)) hst)⟩
      · exact absurd h (by simp)
  | selectSession c now =>
      simp only [Login.Step, Login.next] at h
      split at h
      · next hst =>
          obtain rfl := Option.some.inj h
          exact ⟨AccountsStay.refl _,
            shown_update hsame (shown_selectSession (hsame c) (hbusy hst (by simp)) hst)⟩
      · exact absurd h (by simp)
  | updateAccount c =>
      simp only [Login.Step, Login.next] at h
      split at h
      · next row hst =>
          obtain rfl := Option.some.inj h
          have haccounts : AccountsStay s.accounts
              (Login.updateAccount s.accounts (s.clients c).userid row) :=
            AccountsStay.update fun _ => ⟨rfl, rfl, rfl⟩
          have hc := hmono haccounts c
          exact ⟨haccounts, shown_update (hmono haccounts)
            (.goto rfl (hbusy hst (by simp)) rfl (hc.updates row hst))⟩
      · exact absurd h (by simp)
  | replyOk c =>
      obtain ⟨hst, h⟩ := Option.ite_none_right_eq_some.mp h
      obtain rfl := Option.some.inj h
      refine ⟨AccountsStay.refl _, shown_update hsame ?_⟩
      -- the one place that replies `OK`
      have hcredentials := (hsame c).replies hst
      exact ⟨fun _ _ h => absurd h (by simp [Login.Client.sendLoginReply]),
        fun _ h => absurd h (by simp [Login.Client.sendLoginReply]),
        fun _ h => absurd h (by simp [Login.Client.sendLoginReply]),
        fun h => absurd h (by simp [Login.Client.sendLoginReply]), fun _ => hcredentials⟩
  | selectUsername c =>
      simp only [Login.Step, Login.next] at h
      split at h
      · next hst =>
          obtain rfl := Option.some.inj h
          refine ⟨AccountsStay.refl _, shown_update hsame ?_⟩
          unfold Login.Client.selectUsername
          dsimp only
          split_ifs
          · exact (hsame c).sendLoginReply (by simp)
          · exact .goto rfl (hbusy hst (by simp)) rfl trivial
          · exact (hsame c).sendLoginReply (by simp)
      · exact absurd h (by simp)
  | createAccount c id salt =>
      simp only [Login.Step, Login.next] at h
      split at h
      · obtain ⟨accounts, haccounts, rfl⟩ := Option.map_eq_some_iff.mp h
        -- a new account is nobody's yet, and the reply is no `OK`
        have hstay := AccountsStay.createAccount haccounts
        exact ⟨hstay, shown_update (hmono hstay) ((hmono hstay c).sendLoginReply (by simp))⟩
      · exact absurd h (by simp)
  | throws c =>
      obtain ⟨_, h⟩ := Option.ite_none_left_eq_some.mp h
      obtain rfl := Option.some.inj h
      exact ⟨AccountsStay.refl _, shown_update hsame ((hsame c).sendLoginReply (by simp))⟩
  | disconnect c =>
      obtain ⟨_, h⟩ := Option.ite_none_right_eq_some.mp h
      obtain rfl := Option.some.inj h
      exact ⟨AccountsStay.refl _, shown_update hsame ((hsame c).congr rfl rfl rfl)⟩
  | selectOldSession c =>
      obtain ⟨_, h⟩ := Option.ite_none_right_eq_some.mp h
      obtain rfl := Option.some.inj h
      exact ⟨AccountsStay.refl _, shown_update hsame ((hsame c).congr rfl rfl rfl)⟩
  | updateOffline c =>
      obtain ⟨_, h⟩ := Option.ite_none_right_eq_some.mp h
      obtain rfl := Option.some.inj h
      have haccounts := @AccountsStay.setOffline s.accounts (s.clients c).userid
      exact ⟨haccounts, shown_update (hmono haccounts) ((hmono haccounts c).congr rfl rfl rfl)⟩

end Login

/-! ## What an event does -/

/-- A connection that got `OK` keeps its session id and its account. -/
theorem ok_login {env : Login.Env} {s s' : Login.State} {e : Login.Event} (hs : s.Sound)
    (h : Login.Step env s e s') {d : ℕ} (hok : .OK ∈ (s.clients d).replies) :
    .OK ∈ (s'.clients d).replies ∧ (s'.clients d).sessionId = (s.clients d).sessionId ∧
      (s'.clients d).userid = (s.clients d).userid := by
  -- what an event does to its own connection is all that it does to one
  have hupdate : ∀ {c : ℕ} {cl : Login.Client}, (d = c → .OK ∈ cl.replies ∧
      cl.sessionId = (s.clients c).sessionId ∧ cl.userid = (s.clients c).userid) →
      .OK ∈ (Function.update s.clients c cl d).replies ∧
        (Function.update s.clients c cl d).sessionId = (s.clients d).sessionId ∧
        (Function.update s.clients c cl d).userid = (s.clients d).userid := by
    intro c cl hcl
    by_cases hd : d = c
    · subst hd
      rw [Function.update_self]
      exact hcl rfl
    · rw [Function.update_of_ne hd]
      exact ⟨hok, rfl, rfl⟩
  cases Login.effect_of_step hs h with
  | moves hmoves =>
      refine hupdate fun hd => ?_
      subst hd
      cases hmoves with
      | stay => exact ⟨hok, rfl, rfl⟩
      -- `UserLogin` is over once it has replied
      | goto hdefault => exact absurd hdefault ((hs d).replied hok)
      | reply => exact ⟨List.mem_append_left _ hok, rfl, rfl⟩
  | updateAccount | disconnect | selectOldSession | updateOffline =>
      refine hupdate fun hd => ?_
      subst hd
      exact ⟨hok, rfl, rfl⟩
  | replyOk =>
      refine hupdate fun hd => ?_
      subst hd
      exact ⟨List.mem_append_left _ hok, rfl, rfl⟩

/-- What an event can do to the clients and the tables. -/
structure Moves (my : Mysql) (s : State) (e : Event) (s' : State) : Prop where
  accounts : AccountsStay s.accounts s'.accounts
  gotOk : ∀ d sessionId userid, GotOk s d sessionId userid → GotOk s' d sessionId userid
  /-- A row is one from before, up to the `charid` of a select, or one of `ServerSelect`. -/
  sessions : ∀ row ∈ s'.sessions.rows,
    (∃ row₀ ∈ s.sessions.rows, row.id = row₀.id ∧ row.userid = row₀.userid ∧
      (row.charid = row₀.charid ∨ ∃ c P, e = .char c (.select P))) ∨
    row.charid = none ∧ Issued s row.id row.userid
  nextId : s.nextId ≤ s'.nextId
  /-- A character that was not there has a number of its own. -/
  characters : ∀ row ∈ s'.characters.rows,
    (∃ row₀ ∈ s.characters.rows, row.id = row₀.id ∧ row.userid = row₀.userid) ∨
    s.nextId ≤ row.id ∧ row.id < s'.nextId
  chars : ∀ c, CharEffect my s e c (s'.chars c)
  maps : ∀ k c cl, (s'.maps k).clients c = some cl → (s.maps k).clients c = some cl ∨
    ∃ e', e = .map k e' ∧ MapEffect my (s.map k) e' c cl

/-- The connections of the login server, with what they have shown. -/
structure LoginKnown (my : Mysql) (es : List Event) (s : State) : Prop where
  tracked : LoginSessions.Tracked s.login
  shown : ∀ d, Shown my s.accounts es d (s.login.client d)

section Step

variable {env : Env} {s s' : State} {es : List Event}

/-- Statements on the tables that no client notices. -/
theorem moves_setTables {my : Mysql} {e : Event} {accounts : Accounts} {sessions : Sessions}
    (haccounts : AccountsStay s.accounts accounts) (hsessions : RowsFrom s.sessions sessions) :
    Moves my s e (s.setTables accounts sessions) where
  accounts := haccounts
  gotOk := fun _ _ _ h => h
  sessions := fun row hrow => by
    obtain ⟨row₀, hrow₀, hid, huserid, hcharid⟩ := hsessions row hrow
    exact Or.inl ⟨row₀, hrow₀, hid, huserid, Or.inl hcharid⟩
  nextId := le_rfl
  characters := fun row hrow => Or.inl ⟨row, hrow, rfl, rfl⟩
  chars := fun c => CharEffect.refl my s e c
  maps := fun _ _ _ hcl => Or.inl hcl

theorem known_setTables {my : Mysql} {accounts : Accounts} {sessions : Sessions}
    (h : LoginKnown my es s) (haccounts : AccountsStay s.accounts accounts) (e : Event) :
    LoginKnown my (es ++ [e]) (s.setTables accounts sessions) where
  tracked := ⟨h.tracked.sound, h.tracked.ok, h.tracked.pending, h.tracked.here, h.tracked.gone⟩
  shown := fun d => (h.shown d).mono haccounts e

/-- What only the login server of the state counts for. -/
theorem LoginKnown.congr {my : Mysql} (h : LoginKnown my es s) (hlogin : s'.login = s.login) :
    LoginKnown my es s' where
  tracked := hlogin ▸ h.tracked
  shown := fun d => by
    rw [State.accounts, hlogin]
    exact h.shown d

theorem insertSession_mem {sessions : Sessions} {cl : Login.Client} {now : ℕ} {row : SessionRow}
    (h : row ∈ ((LoginSessions.insertSession sessions cl now).getD sessions).rows) :
    row ∈ sessions.rows ∨ row = LoginSessions.sessionRow cl now := by
  unfold LoginSessions.insertSession at h
  split_ifs at h
  · -- the INSERT may fail: then nothing changes
    cases hinsert : sessions.insert (LoginSessions.sessionRow cl now) with
    | none =>
        rw [hinsert] at h
        exact Or.inl h
    | some sessions' =>
        rw [hinsert] at h
        exact (Table.mem_insert hinsert).mp h
  · exact Or.inl h

theorem moves_login {e : LoginSessions.Event} (h : LoginKnown env.login.mysql es s)
    (hstep : Step env s (.login e) s') :
    Moves env.login.mysql s (.login e) s' ∧
      LoginKnown env.login.mysql (es ++ [.login e]) s' := by
  obtain ⟨login, hlogin, rfl⟩ := Option.map_eq_some_iff.mp hstep
  have htracked := LoginSessions.tracked_step h.tracked hlogin
  -- the char servers and the map servers stay as they are
  have hmoves : AccountsStay s.accounts login.login.accounts →
      (∀ d sessionId userid, GotOk s d sessionId userid →
        GotOk { s with login := login } d sessionId userid) →
      (∀ row ∈ login.login.sessions.rows, row ∈ s.sessions.rows ∨
        row.charid = none ∧ Issued s row.id row.userid) →
      Moves env.login.mysql s (.login e) { s with login := login } := by
    intro haccounts hgotOk hrows
    refine ⟨haccounts, hgotOk, fun row hrow => ?_, le_rfl,
      fun row hrow => Or.inl ⟨row, hrow, rfl, rfl⟩, fun c => CharEffect.refl _ _ _ c,
      fun _ _ _ hcl => Or.inl hcl⟩
    exact (hrows row hrow).imp_left fun hrow => ⟨row, hrow, rfl, rfl, Or.inl rfl⟩
  cases e with
  | login e =>
      obtain ⟨server, hserver, rfl⟩ := LoginSessions.login_eq hlogin
      obtain ⟨haccounts, hshown⟩ := shown_login h.tracked.sound hserver h.shown
      refine ⟨hmoves haccounts ?_ ?_, htracked, hshown⟩
      · rintro d _ _ ⟨hok, rfl, rfl⟩
        exact ok_login h.tracked.sound hserver hok
      · rw [(LoginSessions.login_cases h.tracked.sound hserver).1]
        exact fun _ hrow => Or.inl hrow
  | serverSelect c found =>
      have hmono := fun d => (h.shown d).mono (AccountsStay.refl _)
        (.login (.serverSelect c found))
      obtain rfl | ⟨_, _, rfl⟩ := LoginSessions.serverSelect_eq hlogin
      · exact ⟨hmoves (AccountsStay.refl _) (fun _ _ _ h => h) (fun _ hrow => Or.inl hrow),
          htracked, hmono⟩
      · -- only the state of the connection changes
        refine ⟨hmoves (AccountsStay.refl _) ?_ (fun _ hrow => Or.inl hrow), htracked,
          shown_update hmono ((hmono c).congr rfl rfl rfl)⟩
        rintro d _ _ ⟨hok, rfl, rfl⟩
        simp only [GotOk, LoginSessions.State.client, Login.setClient_clients,
          Function.update_apply] at hok ⊢
        split_ifs with hd
        · subst hd
          exact ⟨hok, rfl, rfl⟩
        · exact ⟨hok, rfl, rfl⟩
  | insertSession c now =>
      obtain ⟨hpending, rfl⟩ := LoginSessions.insertSession_eq hlogin
      refine ⟨hmoves (AccountsStay.refl _) (fun _ _ _ h => h) fun row hrow => ?_, htracked,
        fun d => (h.shown d).mono (AccountsStay.refl _) _⟩
      refine (insertSession_mem hrow).imp_right ?_
      rintro rfl
      -- the row is for a connection that got `OK`
      have htransfering := h.tracked.pending c hpending
      exact ⟨rfl, c, h.tracked.ok c (by simp [htransfering]), rfl, rfl⟩

/-- A change of one client of a char server, and of the tables with it. -/
theorem moves_setChar {my : Mysql} {e : Event} {c : ℕ} {cl : CharClient.State} {nextId : ℕ}
    (hsessions : ∀ row ∈ cl.tables.sessions.rows, ∃ row₀ ∈ s.sessions.rows,
      row.id = row₀.id ∧ row.userid = row₀.userid ∧
        (row.charid = row₀.charid ∨ ∃ c P, e = .char c (.select P)))
    (hnextId : s.nextId ≤ nextId)
    (hcharacters : ∀ row ∈ cl.tables.characters.rows, row ∈ s.characters.rows ∨
      s.nextId ≤ row.id ∧ row.id < nextId)
    (hcl : CharEffect my s e c cl) :
    Moves my s e { s.setChar c cl with nextId := nextId } where
  accounts := AccountsStay.refl _
  gotOk := fun _ _ _ h => h
  sessions := fun row hrow => Or.inl (hsessions row hrow)
  nextId := hnextId
  characters := fun row hrow =>
    (hcharacters row hrow).imp_left fun hrow => ⟨row, hrow, rfl, rfl⟩
  chars := fun d => by
    show CharEffect my s e d (Function.update s.chars c cl d)
    by_cases hd : d = c
    · subst hd
      rw [Function.update_self]
      exact hcl
    · rw [Function.update_of_ne hd]
      exact CharEffect.refl my s e d
  maps := fun _ _ _ hcl => Or.inl hcl

theorem moves_charJoin {c : ℕ} {P : CliJoinServerReq} {channelid : ℕ}
    (h : Step env s (.charJoin c P channelid) s') :
    Moves env.login.mysql s (.charJoin c P channelid) s' := by
  obtain rfl := Option.some.inj h
  have hsame : ∀ row ∈ s.sessions.rows, ∃ row₀ ∈ s.sessions.rows, row.id = row₀.id ∧
      row.userid = row₀.userid ∧ (row.charid = row₀.charid ∨
        ∃ c' P', Event.charJoin c P channelid = .char c' (.select P')) :=
    fun row hrow => ⟨row, hrow, rfl, rfl, Or.inl rfl⟩
  obtain hcl | ⟨hdefault, htables, hlisted, _, hsessionId, row, hrow, hid, huserId, hknows⟩ :=
    joinServerReply_cases env.login.mysql s.accounts (s.char c) P channelid
  · -- it is not let in
    rw [hcl]
    exact moves_setChar hsame le_rfl (fun _ hrow => Or.inl hrow)
      (.stays Iff.rfl rfl rfl fun _ hid => Or.inl hid)
  · refine moves_setChar ?_ le_rfl ?_
      (.joins P channelid rfl hdefault row hrow hid hsessionId huserId hlisted hknows)
    · rw [htables]
      exact hsame
    · rw [htables]
      exact fun _ hrow => Or.inl hrow

theorem moves_char {c : ℕ} {e : CharClient.Event} (hquoted : quoted s (.char c e))
    (h : Step env s (.char c e) s') : Moves env.login.mysql s (.char c e) s' := by
  obtain ⟨nextId, hid, rfl⟩ := Option.map_eq_some_iff.mp h
  have hserves := @serves_next env.char (s.char c) s c e nextId hquoted hid
  -- the number is the next one or a later one, which then counts as used up
  have hnextId : s.nextId ≤ nextId ∧
      ∀ P n, e = .create P (some n) → s.nextId ≤ n ∧ n < nextId := by
    unfold increment at hid
    split at hid
    · obtain ⟨hle, hid⟩ := Option.ite_none_right_eq_some.mp hid
      obtain rfl := Option.some.inj hid
      refine ⟨by omega, fun P n hn => ?_⟩
      simp only [CharClient.Event.create.injEq, Option.some.injEq] at hn
      omega
    · exact absurd hid (by simp)
    · next hcreate _ =>
        obtain rfl := Option.some.inj hid
        exact ⟨le_rfl, fun P n hn => absurd hn (hcreate P n)⟩
  refine moves_setChar ?_ hnextId.1 ?_ (.stays hserves.loginState hserves.sessionId
    hserves.userId hserves.listed)
  · intro row hrow
    obtain ⟨row₀, hrow₀, hid, huserid, hcharid⟩ := hserves.sessions row hrow
    refine ⟨row₀, hrow₀, hid, huserid, hcharid.imp_right ?_⟩
    rintro ⟨P, rfl⟩
    exact ⟨c, P, rfl⟩
  · intro row hrow
    refine (hserves.characters row hrow).imp_right ?_
    rintro ⟨P, he⟩
    exact hnextId.2 P row.id he

theorem moves_map {k : ℕ} {e : MapClient.Event} {m : MapClient.State}
    (he : ∀ accounts sessions, e ≠ .others accounts sessions)
    (h : MapClient.next { mysql := env.login.mysql, config := env.config k } (s.map k) e =
      some m) :
    Moves env.login.mysql s (.map k e) (s.setMap k m) := by
  obtain ⟨haccounts, hsessions, hclients⟩ := map_next he h
  refine ⟨haccounts, fun _ _ _ h => h, fun row hrow => ?_, le_rfl,
    fun row hrow => Or.inl ⟨row, hrow, rfl, rfl⟩, fun c => CharEffect.refl _ _ _ c, ?_⟩
  · obtain ⟨row₀, hrow₀, hid, huserid, hcharid⟩ := hsessions row hrow
    exact Or.inl ⟨row₀, hrow₀, hid, huserid, Or.inl hcharid⟩
  · intro k' c cl hcl
    simp only [State.setMap, Function.update_apply] at hcl
    split_ifs at hcl with hk
    · subst hk
      exact Or.inr ⟨e, rfl, hclients c cl hcl⟩
    · exact Or.inl hcl

/-- **What an event does**, whichever server it is of. -/
theorem moves_of_step {e : Event} (hs : LoginKnown env.login.mysql es s) (hquoted : quoted s e)
    (h : Step env s e s') :
    Moves env.login.mysql s e s' ∧ LoginKnown env.login.mysql (es ++ [e]) s' := by
  have hknown : ∀ {accounts : Accounts} {sessions : Sessions}, AccountsStay s.accounts accounts →
      LoginKnown env.login.mysql (es ++ [e]) (s.setTables accounts sessions) :=
    fun haccounts => known_setTables hs haccounts e
  have hoffline : ∀ {p : AccountRow → Bool}, AccountsStay s.accounts
      (s.accounts.update p AccountRow.setOffline AccountRow.setOffline_id) :=
    fun {p} => AccountsStay.update fun _ => ⟨rfl, rfl, rfl⟩
  cases e with
  | login e => exact moves_login hs h
  | setStaleOffline now =>
      obtain rfl := Option.some.inj h
      exact ⟨moves_setTables hoffline (RowsFrom.refl _), hknown hoffline⟩
  | removeStaleSessions now =>
      obtain rfl := Option.some.inj h
      exact ⟨moves_setTables (AccountsStay.refl _) RowsFrom.delete,
        hknown (AccountsStay.refl _)⟩
  | charJoin c P channelid =>
      refine ⟨moves_charJoin h, ?_⟩
      obtain rfl := Option.some.inj h
      exact (hknown (AccountsStay.refl _)).congr rfl
  | char c e =>
      refine ⟨moves_char hquoted h, ?_⟩
      obtain ⟨nextId, _, rfl⟩ := Option.map_eq_some_iff.mp h
      exact (hknown (AccountsStay.refl _)).congr rfl
  | endSessions c =>
      obtain rfl := Option.some.inj h
      exact ⟨moves_setTables (AccountsStay.refl _) RowsFrom.delete,
        hknown (AccountsStay.refl _)⟩
  | charOffline c =>
      obtain rfl := Option.some.inj h
      exact ⟨moves_setTables hoffline (RowsFrom.refl _), hknown hoffline⟩
  | map k e =>
      -- the tables change by events of their own
      have he : ∀ accounts sessions, e ≠ .others accounts sessions := by
        rintro accounts sessions rfl
        exact absurd h (by simp [Step, next])
      have hnext : (MapClient.next { mysql := env.login.mysql, config := env.config k }
          (s.map k) e).map (s.setMap k) = some s' := by
        cases e with
        | others accounts sessions => exact absurd rfl (he accounts sessions)
        | onAccepted | joinServerReply | switchServer | onDisconnected => exact h
      obtain ⟨m, hm, rfl⟩ := Option.map_eq_some_iff.mp hnext
      have hmoves := moves_map he hm
      exact ⟨hmoves, (known_setTables hs hmoves.accounts _).congr rfl⟩
  | saveCharacter charid level job map inventory =>
      obtain rfl := Option.some.inj h
      refine ⟨⟨AccountsStay.refl _, fun _ _ _ h => h,
        fun row hrow => Or.inl ⟨row, hrow, rfl, rfl, Or.inl rfl⟩, le_rfl, fun row hrow => ?_,
        fun c => CharEffect.refl _ _ _ c, fun _ _ _ hcl => Or.inl hcl⟩,
        (hknown (AccountsStay.refl _)).congr rfl⟩
      -- a saved character keeps its id and its account
      obtain ⟨row₀, hrow₀, rfl⟩ := List.mem_map.mp hrow
      refine Or.inl ⟨row₀, hrow₀, ?_⟩
      split_ifs <;> exact ⟨rfl, rfl⟩
  | updateSession userid now =>
      obtain rfl := Option.some.inj h
      exact ⟨moves_setTables (AccountsStay.refl _) (RowsFrom.update fun _ => ⟨rfl, rfl⟩),
        hknown (AccountsStay.refl _)⟩

end Step

/-! ## Everyone is let in by right -/

theorem Sent.mono {my : Mysql} {accounts accounts' : Accounts}
    {asked asked' : CliJoinServerReq → Prop} {sessionId userid : ℕ}
    (h : Sent my accounts asked sessionId userid) (haccounts : AccountsStay accounts accounts')
    (hasked : ∀ P, asked P → asked' P) : Sent my accounts' asked' sessionId userid := by
  obtain ⟨P, hP, hid, hknows⟩ := h
  exact ⟨P, hasked P hP, hid, haccounts.knows hknows⟩

/-- What the clients and the rows are known to rest on. -/
structure Traced (my : Mysql) (es : List Event) (s : State) : Prop where
  login : LoginKnown my es s
  rows : ∀ row ∈ s.sessions.rows, Issued s row.id row.userid
  chars : ∀ c, (s.chars c).loginState ≠ .DEFAULT →
    Sent my s.accounts (fun P => ∃ channelid, .charJoin c P channelid ∈ es)
      (s.chars c).sessionId (s.chars c).userId ∧
    Issued s (s.chars c).sessionId (s.chars c).userId
  maps : ∀ k c cl, (s.maps k).clients c = some cl → Engaged cl →
    Sent my s.accounts (fun P => ∃ outcome, .map k (.joinServerReply c P outcome) ∈ es)
      cl.sessionId cl.userid ∧
    Issued s cl.sessionId cl.userid

theorem traced_start (my : Mysql) (accounts : Accounts) (characters : Table CharacterRow.id)
    (inventory : List InventoryRow) (nextId : ℕ) :
    Traced my [] (start accounts characters inventory nextId) where
  login :=
    { tracked := LoginSessions.tracked_start accounts _
      shown := fun _ => ⟨fun _ _ h => absurd h (by simp [start, LoginSessions.start, Login.start,
          LoginSessions.State.client]), fun _ h => absurd h (by simp [start, LoginSessions.start,
          Login.start, LoginSessions.State.client]), fun _ h => absurd h (by simp [start,
          LoginSessions.start, Login.start, LoginSessions.State.client]), fun h => absurd h (by
          simp [start, LoginSessions.start, Login.start, LoginSessions.State.client]),
        fun h => absurd h List.not_mem_nil⟩ }
  rows := fun _ hrow => absurd hrow List.not_mem_nil
  chars := fun _ h => absurd rfl h
  maps := fun _ _ _ hcl => absurd hcl (by simp [start])

theorem traced_step {env : Env} {s s' : State} {es : List Event} {e : Event}
    (hs : Traced env.login.mysql es s) (h : Guarded quoted (Step env) s e s') :
    Traced env.login.mysql (es ++ [e]) s' := by
  obtain ⟨hquoted, hstep⟩ := h
  obtain ⟨hmoves, hlogin⟩ := moves_of_step hs.login hquoted hstep
  -- what was issued stays issued
  have hissued : ∀ {sessionId userid : ℕ}, Issued s sessionId userid →
      Issued s' sessionId userid := by
    rintro sessionId userid ⟨d, hd⟩
    exact ⟨d, hmoves.gotOk d sessionId userid hd⟩
  have hlast : e ∈ es ++ [e] := List.mem_append_right _ (List.mem_singleton.mpr rfl)
  refine ⟨hlogin, fun row hrow => ?_, fun c hstate => ?_, fun k c cl hcl hengaged => ?_⟩
  · rcases hmoves.sessions row hrow with ⟨row₀, hrow₀, hid, huserid, _⟩ | ⟨_, hnew⟩
    · rw [hid, huserid]
      exact hissued (hs.rows row₀ hrow₀)
    · -- a row of `ServerSelect`
      exact hissued hnew
  · cases hmoves.chars c with
    | stays hsame hsessionId huserId =>
        obtain ⟨hsent, hold⟩ := hs.chars c (fun hdefault => hstate (hsame.mpr hdefault))
        rw [hsessionId, huserId]
        refine ⟨hsent.mono hmoves.accounts ?_, hissued hold⟩
        exact fun P ⟨channelid, hP⟩ => ⟨channelid, List.mem_append_left _ hP⟩
    | joins P channelid he _ row hrow hid hsessionId huserId _ hknows =>
        rw [hsessionId, huserId]
        -- it was let in with a row, and every row is issued
        refine ⟨⟨P, ⟨channelid, he ▸ hlast⟩, rfl, hmoves.accounts.knows hknows⟩, ?_⟩
        exact hid ▸ hissued (hs.rows row hrow)
  · -- a client that the event is not about has been let in before
    have hbefore : ∀ cl₀, (s.maps k).clients c = some cl₀ → Engaged cl₀ →
        Sent env.login.mysql s'.accounts
          (fun P => ∃ outcome, .map k (.joinServerReply c P outcome) ∈ es ++ [e])
          cl₀.sessionId cl₀.userid ∧ Issued s' cl₀.sessionId cl₀.userid := by
      intro cl₀ hcl₀ hengaged₀
      obtain ⟨hsent, hold⟩ := hs.maps k c cl₀ hcl₀ hengaged₀
      refine ⟨hsent.mono hmoves.accounts ?_, hissued hold⟩
      exact fun P ⟨outcome, hP⟩ => ⟨outcome, List.mem_append_left _ hP⟩
    rcases hmoves.maps k c cl hcl with hcl₀ | ⟨e', rfl, heffect⟩
    · exact hbefore cl hcl₀ hengaged
    cases heffect with
    -- a connection that is new has not been let in
    | accepted hnew => exact absurd hengaged hnew
    | stays cl₀ hcl₀ hback hsessionId huserid =>
        rw [hsessionId, huserid]
        exact hbefore cl₀ hcl₀ (hback hengaged)
    | joins P outcome he row hrow hid hsessionId huserid _ hknows =>
        subst he
        rw [hsessionId, huserid]
        refine ⟨⟨P, ⟨outcome, hlast⟩, rfl, hmoves.accounts.knows hknows⟩, ?_⟩
        exact hid ▸ hissued (hs.rows row hrow)

theorem traced_of_run {env : Env} {accounts : Accounts} {characters : Table CharacterRow.id}
    {inventory : List InventoryRow} {nextId : ℕ} {es : List Event} {s : State}
    (h : Run (Guarded quoted (Step env)) (start accounts characters inventory nextId) es s) :
    Traced env.login.mysql es s :=
  h.invariant (traced_start _ accounts characters inventory nextId)
    fun _ _ _ _ hs hstep => traced_step hs hstep

def plainEnv : Env where
  login := Login.plainEnv
  char := CharClient.plainEnv
  config := fun _ => { ip := [], clientPort := 0 }

/-- The user `a` logs in, selects a server, joins the char server, selects its character and
joins a map server. -/
def journey : List Event :=
  (LoginSessions.logsIn 0 0x61 100).map .login ++
  [.login (.login (.replyOk 0)), .login (.serverSelect 0 true), .login (.insertSession 0 0),
    .charJoin 0 { sessionId := 100, password := [] } 0, .char 0 .list, .char 0 (.select ⟨0⟩),
    .map 0 (.onAccepted 0), .map 0 (.joinServerReply 0 { sessionId := 100, password := [] } .ok)]

end OsIrose.Handover

/-
Whose character a client plays.

The character that a map server loads is that of the `charid` of a row of `sessions`. A client of
a char server writes it by the session id that it joined with and an index into the list it was
last sent (`char/src/ccharclient.cpp`), and nothing compares the account of the row with that of
the character again. It is right for all that (`own_characters`), as long as no two accounts get
`OK` under one session id, a select has an index of the list, and the names stay between their
quotes (`orderly`). The ids do not do it by themselves: they are the seconds of the clock, and a
row lives no longer than five minutes without news. `not_own_characters_sameSecond` is a run in
which an account plays the character of another one.
-/
import OsIrose.Admission

set_option autoImplicit false

namespace OsIrose.Handover

open ByteMem Database Runs
open CharClient (CharacterRow)
open Characters (InventoryRow)
open MapClient (CliJoinServerReq)

/-! ## Characters of an account -/

/-- The character with that number is one of the account, if there is any. -/
def Owns (s : State) (userid id : ℕ) : Prop :=
  ∀ row ∈ s.characters.rows, row.id = id → row.userid = userid

/-- Every list and every map server has characters of the right account. -/
structure OwnCharacters (s : State) : Prop where
  listed : ∀ c, ∀ id ∈ (s.chars c).characterRealId, Owns s (s.chars c).userId id
  played : ∀ k c cl, (s.maps k).clients c = some cl → cl.loginState ≠ .DEFAULT →
    Owns s cl.userid cl.charid

/-- The numbers of the characters are positive and below the next of `AUTO_INCREMENT`. -/
structure Numbered (characters : Table CharacterRow.id) (nextId : ℕ) : Prop where
  pos : 0 < nextId
  ids : ∀ row ∈ characters.rows, 0 < row.id ∧ row.id < nextId

/-- A login gets `OK` under a session id that no other account got, and a select has an index of
the list. -/
def orderly (s : State) (e : Event) : Prop :=
  quoted s e ∧
  match e with
  | .login (.login (.replyOk c)) =>
      ∀ userid, Issued s (s.login.client c).sessionId userid → userid = (s.login.client c).userid
  | .char c (.select P) => (s.chars c).loginState = .LOGGEDIN →
      ∃ id, (s.chars c).characterRealId[P.charId.toNat]? = some id ∧ id < 2 ^ 31
  | _ => True

/-! ## Numbers that stay with an account -/

/-- The number has been given out, to a character of the account if to any. -/
def Belongs (s : State) (userid id : ℕ) : Prop :=
  id < s.nextId ∧ Owns s userid id

/-- What the characters are known by: one account for each session id, and numbers that belong to
the account of the row, of the list and of the client. -/
structure Owned (s : State) : Prop where
  one : ∀ sessionId a b, Issued s sessionId a → Issued s sessionId b → a = b
  numbered : Numbered s.characters s.nextId
  chosen : ∀ row ∈ s.sessions.rows, ∀ id, row.charid = some id → Belongs s row.userid id
  empty : ∀ c, (s.chars c).loginState = .DEFAULT → (s.chars c).characterRealId = []
  listed : ∀ c, ∀ id ∈ (s.chars c).characterRealId, Belongs s (s.chars c).userId id
  played : ∀ k c cl, (s.maps k).clients c = some cl → Engaged cl → Belongs s cl.userid cl.charid

section Step

variable {env : Env} {s s' : State} {es : List Event} {e : Event}

/-- A number that is given out is given to no other character. -/
theorem Belongs.moves {my : Mysql} {userid id : ℕ} (h : Belongs s userid id)
    (hmoves : Moves my s e s') : Belongs s' userid id := by
  refine ⟨h.1.trans_le hmoves.nextId, fun row hrow hid => ?_⟩
  rcases hmoves.characters row hrow with ⟨row₀, hrow₀, hid₀, huserid⟩ | ⟨hnew, _⟩
  · exact huserid.trans (h.2 row₀ hrow₀ (hid₀.symm.trans hid))
  · exact absurd h.1 (by omega)

theorem Numbered.moves {my : Mysql} (h : Numbered s.characters s.nextId)
    (hmoves : Moves my s e s') : Numbered s'.characters s'.nextId := by
  refine ⟨h.pos.trans_le hmoves.nextId, fun row hrow => ?_⟩
  rcases hmoves.characters row hrow with ⟨row₀, hrow₀, hid, _⟩ | ⟨hnew, hlt⟩
  · rw [hid]
    exact ⟨(h.ids row₀ hrow₀).1, (h.ids row₀ hrow₀).2.trans_le hmoves.nextId⟩
  · exact ⟨h.pos.trans_le hnew, hlt⟩

/-- There is no character of number 0. -/
theorem Numbered.belongs_zero (h : Numbered s.characters s.nextId) (userid : ℕ) :
    Belongs s userid 0 := by
  refine ⟨h.pos, fun row hrow hid => ?_⟩
  exact absurd (h.ids row hrow).1 (by omega)

/-- A character of the account has a number that belongs to it. -/
theorem Numbered.belongs_of_mem (h : Numbered s.characters s.nextId) {row : CharacterRow}
    (hrow : row ∈ s.characters.rows) : Belongs s row.userid row.id := by
  refine ⟨(h.ids row hrow).2, fun row' hrow' hid => ?_⟩
  rw [Table.eq_of_key hrow' hrow hid]

/-- A connection that has `OK` had it before, or it got it by this event. -/
theorem gotOk_of_step (hs : LoginKnown env.login.mysql es s) (h : Step env s e s')
    {d sessionId userid : ℕ} (hok : GotOk s' d sessionId userid) :
    GotOk s d sessionId userid ∨ e = .login (.login (.replyOk d)) ∧
      (s.login.client d).sessionId = sessionId ∧ (s.login.client d).userid = userid := by
  cases e with
  | login e =>
      obtain ⟨login, hlogin, rfl⟩ := Option.map_eq_some_iff.mp h
      cases e with
      | login e =>
          obtain ⟨server, hserver, rfl⟩ := LoginSessions.login_eq hlogin
          obtain ⟨hreplied, hid, huserid⟩ := hok
          rcases LoginSessions.follows_or_replyOk hs.tracked.sound hserver with
            hfollows | ⟨c, rfl, _, rfl⟩
          · have hold := (hfollows d).ok.mp hreplied
            obtain ⟨_, hid₀, huserid₀⟩ := ok_login hs.tracked.sound hserver hold
            exact Or.inl ⟨hold, hid₀.symm.trans hid, huserid₀.symm.trans huserid⟩
          · simp only [LoginSessions.State.client, Login.setClient_clients,
              Function.update_apply] at hreplied hid huserid
            split_ifs at hreplied hid huserid with hd
            · subst hd
              exact Or.inr ⟨rfl, hid, huserid⟩
            · exact Or.inl ⟨hreplied, hid, huserid⟩
      | serverSelect c found =>
          obtain rfl | ⟨_, _, rfl⟩ := LoginSessions.serverSelect_eq hlogin
          · exact Or.inl hok
          · obtain ⟨hreplied, hid, huserid⟩ := hok
            simp only [LoginSessions.State.client, Login.setClient_clients,
              Function.update_apply] at hreplied hid huserid
            split_ifs at hreplied hid huserid with hd
            · subst hd
              exact Or.inl ⟨hreplied, hid, huserid⟩
            · exact Or.inl ⟨hreplied, hid, huserid⟩
      | insertSession c now =>
          obtain ⟨_, rfl⟩ := LoginSessions.insertSession_eq hlogin
          exact Or.inl hok
  | char c e =>
      obtain ⟨nextId, _, rfl⟩ := Option.map_eq_some_iff.mp h
      exact Or.inl hok
  | map k e =>
      cases e with
      | others accounts sessions => exact absurd h (by simp [Step, next])
      | onAccepted | joinServerReply | switchServer | onDisconnected =>
          obtain ⟨m, _, rfl⟩ := Option.map_eq_some_iff.mp h
          exact Or.inl hok
  | setStaleOffline | removeStaleSessions | charJoin | endSessions | charOffline
  | saveCharacter | updateSession =>
      obtain rfl := Option.some.inj h
      exact Or.inl hok

/-- Session ids stay with one account. -/
theorem one_of_step (hs : LoginKnown env.login.mysql es s) (horderly : orderly s e)
    (h : Step env s e s')
    (hone : ∀ sessionId a b, Issued s sessionId a → Issued s sessionId b → a = b)
    (sessionId a b : ℕ) (ha : Issued s' sessionId a) (hb : Issued s' sessionId b) : a = b := by
  obtain ⟨d, hd⟩ := ha
  obtain ⟨d', hd'⟩ := hb
  rcases gotOk_of_step hs h hd with hold | ⟨rfl, rfl, rfl⟩
  · rcases gotOk_of_step hs h hd' with hold' | ⟨rfl, rfl, rfl⟩
    · exact hone sessionId a b ⟨d, hold⟩ ⟨d', hold'⟩
    · exact horderly.2 a ⟨d, hold⟩
  · rcases gotOk_of_step hs h hd' with hold' | ⟨he, _, rfl⟩
    · exact (horderly.2 b ⟨d', hold'⟩).symm
    · -- both got it now, so they are one connection
      simp only [Event.login.injEq, LoginSessions.Event.login.injEq,
        Login.Event.replyOk.injEq] at he
      rw [he]

/-- A select writes a number of the list into the rows under the session id of the client. -/
theorem sessions_select {c : ℕ} {P : CharClient.CliSelectCharReq}
    (horderly : orderly s (.char c (.select P))) (h : Step env s (.char c (.select P)) s') :
    ∀ row ∈ s'.sessions.rows, ∃ row₀ ∈ s.sessions.rows, row.userid = row₀.userid ∧
      (row.charid = row₀.charid ∨ (s.chars c).loginState = .LOGGEDIN ∧
        row₀.id = (s.chars c).sessionId ∧ ∃ id ∈ (s.chars c).characterRealId,
          row.charid = some id) := by
  obtain rfl := Option.some.inj h
  intro row hrow
  by_cases hstate : (s.chars c).loginState = .LOGGEDIN
  · obtain ⟨id, hid, hlt⟩ := horderly.2 hstate
    obtain ⟨htables, _⟩ := @CharClient.sendCharSelectReply_of_listed env.char (s.char c) P id
      hstate hid hlt
    have hrow' : row ∈ (CharClient.updateSessionWithCharacter (s.char c).tables
        (s.chars c).sessionId id).sessions.rows := htables ▸ hrow
    obtain ⟨row₀, hrow₀, hid₀, huserid, hcharid⟩ := mem_updateSessionWithCharacter hrow'
    refine ⟨row₀, hrow₀, huserid, hcharid.imp_right fun ⟨hsession, hcharid⟩ => ?_⟩
    exact ⟨hstate, hid₀.symm.trans hsession, id, List.mem_of_getElem? hid, hcharid⟩
  · -- the request is passed over
    have hsame : CharClient.sendCharSelectReply env.char (s.char c) P =
        { state := s.char c, result := .returned true } := if_pos hstate
    have hrow' : row ∈
        (CharClient.sendCharSelectReply env.char (s.char c) P).state.tables.sessions.rows := hrow
    rw [hsame] at hrow'
    exact ⟨row, hrow', rfl, Or.inl rfl⟩

theorem owned_step (ht : Traced env.login.mysql es s) (hs : Owned s)
    (h : Guarded orderly (Step env) s e s') : Owned s' := by
  obtain ⟨horderly, hstep⟩ := h
  obtain ⟨hmoves, _⟩ := moves_of_step ht.login horderly.1 hstep
  refine ⟨one_of_step ht.login horderly hstep hs.one, hs.numbered.moves hmoves, ?_, fun c => ?_,
    fun c => ?_, fun k c cl hcl hengaged => ?_⟩
  · intro row hrow id hcharid
    rcases hmoves.sessions row hrow with ⟨row₀, hrow₀, _, huserid, hsame | ⟨c, P, rfl⟩⟩ | ⟨hnone, _⟩
    · rw [huserid]
      exact (hs.chosen row₀ hrow₀ id (hsame ▸ hcharid)).moves hmoves
    · obtain ⟨row₀, hrow₀, huserid, hsame | ⟨hstate, hid, id', hlisted, hcharid'⟩⟩ :=
        sessions_select horderly hstep row hrow
      · rw [huserid]
        exact (hs.chosen row₀ hrow₀ id (hsame ▸ hcharid)).moves hmoves
      · -- the row and the client have the session id of one account
        obtain rfl := Option.some.inj (hcharid.symm.trans hcharid')
        have hclient := (ht.chars c (by simp [hstate])).2
        have hsameUser : row₀.userid = (s.chars c).userId :=
          hs.one _ _ _ (hid ▸ ht.rows row₀ hrow₀) hclient
        rw [huserid, hsameUser]
        exact (hs.listed c id hlisted).moves hmoves
    · exact absurd (hnone.symm.trans hcharid) (by simp)
  · intro hdefault
    cases hmoves.chars c with
    | stays hstate _ _ hlisted =>
        refine List.eq_nil_iff_forall_not_mem.mpr fun id hid => ?_
        rcases hlisted id hid with hold | ⟨hin, _⟩
        · rw [hs.empty c (hstate.mp hdefault)] at hold
          exact List.not_mem_nil hold
        · exact hin (hstate.mp hdefault)
    | joins _ _ _ hbefore _ _ _ _ _ hlisted =>
        exact hlisted.trans (hs.empty c hbefore)
  · intro id hid
    cases hmoves.chars c with
    | stays _ _ huserId hlisted =>
        rw [huserId]
        rcases hlisted id hid with hold | ⟨_, row, hrow, rfl, huserid⟩
        · exact (hs.listed c id hold).moves hmoves
        · exact huserid ▸ (hs.numbered.belongs_of_mem hrow).moves hmoves
    | joins _ _ _ hbefore _ _ _ _ _ hlisted =>
        rw [hlisted, hs.empty c hbefore] at hid
        exact absurd hid List.not_mem_nil
  · rcases hmoves.maps k c cl hcl with hcl₀ | ⟨e', _, heffect⟩
    · exact (hs.played k c cl hcl₀ hengaged).moves hmoves
    cases heffect with
    | accepted hnew => exact absurd hengaged hnew
    | stays cl₀ hcl₀ hback _ huserid hcharid =>
        rw [huserid, hcharid]
        exact (hs.played k c cl₀ hcl₀ (hback hengaged)).moves hmoves
    | joins P outcome _ row hrow _ _ huserid hcharid _ =>
        rw [huserid, hcharid]
        cases hchosen : row.charid with
        | none => exact (hs.numbered.belongs_zero _).moves hmoves
        | some id => exact (hs.chosen row hrow id hchosen).moves hmoves

end Step

theorem numbered_firstCharacter : Numbered CharClient.firstCharacter 2 :=
  ⟨by decide, by decide⟩

/-- The users `a` and `b` log in in one second. `a` has joined the char server when its row goes
stale, and selects its character when `b` has a row under the same session id. -/
def sameSecond : List Event :=
  (LoginSessions.logsIn 0 0x61 100).map .login ++ [.login (.login (.replyOk 0))] ++
  (LoginSessions.logsIn 1 0x62 100).map .login ++ [.login (.login (.replyOk 1)),
    .login (.serverSelect 0 true), .login (.insertSession 0 0),
    .charJoin 0 { sessionId := 100, password := [] } 0, .char 0 .list,
    .removeStaleSessions 1000000, .login (.serverSelect 1 true),
    .login (.insertSession 1 1000000), .char 0 (.select ⟨0⟩), .map 0 (.onAccepted 0),
    .map 0 (.joinServerReply 0 { sessionId := 100, password := [] } .ok)]

/-- `b` plays the character of `a`. -/
theorem not_own_characters_sameSecond : ∃ s,
    Run (Guarded quoted (Step plainEnv))
      (start LoginSessions.twoOffline CharClient.firstCharacter [] 2) sameSecond s ∧
    ¬ OwnCharacters s := by
  obtain ⟨s, hrun, cl, hcl, hstate, huserid, hcharid, row, hrow, hid, hrowUserid⟩ :
      ∃ s, sameSecond.foldlM (next plainEnv)
        (start LoginSessions.twoOffline CharClient.firstCharacter [] 2) = some s ∧
      ∃ cl, (s.maps 0).clients 0 = some cl ∧ cl.loginState = .LOGGEDIN ∧ cl.userid = 2 ∧
        cl.charid = 1 ∧ ∃ row ∈ s.characters.rows, row.id = 1 ∧ row.userid = 1 :=
    ⟨_, rfl, _, rfl, rfl, rfl, rfl, _, List.mem_cons_self, rfl, rfl⟩
  refine ⟨s, (Run.of_foldlM hrun).guarded quoted
    (by simp [sameSecond, LoginSessions.logsIn, quoted]), fun h => ?_⟩
  have hown := h.played 0 0 cl hcl (by simp [hstate]) row hrow (hid.trans hcharid.symm)
  rw [hrowUserid, huserid] at hown
  exact absurd hown (by decide)

end OsIrose.Handover

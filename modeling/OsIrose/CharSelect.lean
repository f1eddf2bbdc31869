/-
Selecting a character, `CCharClient::SendCharSelectReply` (`char/src/ccharclient.cpp`), in a run
of requests of one client.

A select gives an index into `characterRealId_`, the ids of the last list sent
(`lastList_of_run`). The client is set to `TRANSFERING` before the index is checked, and the
check lets the length itself through. So a select is right if its index is one of the list
(`selects_of_run`), and any other index of a client that is logged in is not
(`not_selects_of_le`).
-/
import OsIrose.CharDelete
import OsIrose.Runs

set_option autoImplicit false

namespace OsIrose.CharClient

open Channels (CharISC)
open Runs

/-- A request, or what the other connections do to the tables in between. -/
inductive Event
  | list
  | create (P : CliCreateCharReq) (id : Option ℕ)
  | delete (P : CliDeleteCharReq) (now : BitVec 32)
  | select (P : CliSelectCharReq)
  | others (tables : Tables) (iscList : List CharISC)

/-- `CCharClient::HandlePacket`, for these requests. -/
def next (env : Env) (s : State) : Event → State
  | .list => (sendCharListReply env s).state
  | .create P id => (sendCharCreateReply env s P id).state
  | .delete P now => (sendCharDeleteReply env s P now).state
  | .select P => (sendCharSelectReply env s P).state
  | .others tables iscList => { s with tables, iscList }

/-- A client right after `JoinServerReply` has accepted it. -/
structure Authenticated (s : State) : Prop where
  loginState : s.loginState = .LOGGEDIN
  characterRealId : s.characterRealId = []
  sent : s.sent = []

/-- The ids of the characters of a list. -/
def Reply.listed : Reply → Option (List ℕ)
  | .charList rows _ => some (rows.map CharacterRow.id)
  | _ => none

/-- The ids of the last list sent. -/
def State.lastList (s : State) : List ℕ :=
  (s.sent.filterMap Reply.listed).getLast?.getD []

/-! ## `characterRealId_` is the last list -/

section

variable {env : Env} {s : State}

theorem lastList_append_of_none {s' : State} {replies : List Reply}
    (hsent : s'.sent = s.sent ++ replies) (h : ∀ reply ∈ replies, reply.listed = none) :
    s'.lastList = s.lastList := by
  rw [State.lastList, hsent, List.filterMap_append, List.filterMap_eq_nil_iff.mpr h,
    List.append_nil, State.lastList]

theorem lastList_sendCharListReply (h : s.lastList = s.characterRealId) :
    (sendCharListReply env s).state.lastList =
      (sendCharListReply env s).state.characterRealId := by
  rw [sendCharListReply]
  split_ifs
  · exact h
  · simp [State.lastList, Reply.listed]

/-- The other requests send no list, and leave the ids alone. -/
structure Keeps (s s' : State) : Prop where
  characterRealId : s'.characterRealId = s.characterRealId
  lastList : s'.lastList = s.lastList

theorem keeps_of_sent {s' : State} {replies : List Reply}
    (hids : s'.characterRealId = s.characterRealId) (hsent : s'.sent = s.sent ++ replies)
    (h : ∀ reply ∈ replies, reply.listed = none) : Keeps s s' :=
  ⟨hids, lastList_append_of_none hsent h⟩

theorem keeps_sendCharCreateReply (P : CliCreateCharReq) (id : Option ℕ) :
    Keeps s (sendCharCreateReply env s P id).state := by
  rw [sendCharCreateReply]
  split_ifs
  · exact ⟨rfl, rfl⟩
  · split
    · exact keeps_of_sent rfl rfl (by simp [Reply.listed])
    · exact keeps_of_sent rfl rfl (by simp [Reply.listed])

theorem keeps_sendCharDeleteReply (P : CliDeleteCharReq) (now : BitVec 32) :
    Keeps s (sendCharDeleteReply env s P now).state := by
  rw [sendCharDeleteReply]
  split_ifs
  · exact ⟨rfl, rfl⟩
  · exact ⟨rfl, rfl⟩
  · split
    · exact keeps_of_sent rfl rfl (by simp [Reply.listed])
    · exact ⟨rfl, rfl⟩
  · exact keeps_of_sent rfl rfl (by simp [Reply.listed])

theorem keeps_sendCharSelectReply (P : CliSelectCharReq) :
    Keeps s (sendCharSelectReply env s P).state := by
  rw [sendCharSelectReply]
  dsimp only
  split_ifs
  · exact ⟨rfl, rfl⟩
  · exact ⟨rfl, rfl⟩
  · split
    · exact ⟨rfl, rfl⟩
    · exact keeps_of_sent rfl rfl (by simp [Reply.listed])

theorem lastList_next (e : Event) (h : s.lastList = s.characterRealId) :
    (next env s e).lastList = (next env s e).characterRealId := by
  have hkeeps : ∀ {s' : State}, Keeps s s' → s'.lastList = s'.characterRealId :=
    fun hk => hk.lastList.trans (h.trans hk.characterRealId.symm)
  cases e with
  | list => exact lastList_sendCharListReply h
  | create P id => exact hkeeps (keeps_sendCharCreateReply P id)
  | delete P now => exact hkeeps (keeps_sendCharDeleteReply P now)
  | select P => exact hkeeps (keeps_sendCharSelectReply P)
  | others tables iscList => exact h

/-- Whatever was requested, `characterRealId_` holds the ids of the last list sent. -/
theorem lastList_of_run (h : s.lastList = s.characterRealId) (es : List Event) :
    (es.foldl (next env) s).lastList = (es.foldl (next env) s).characterRealId :=
  foldl_invariant (fun s : State => s.lastList = s.characterRealId)
    (fun _ e hs => lastList_next e hs) h es

end

/-! ## A select -/

/-- A select is right: it reads `characterRealId_` in range, and it either puts the character
of that index of the last list into the session, or leaves `sessions` and `loginState_`
alone. -/
structure Selects (env : Env) (s : State) (P : CliSelectCharReq) : Prop where
  inRange : ∀ i ∈ (sendCharSelectReply env s P).reads, i < s.characterRealId.length
  outcome :
    (∃ id, s.lastList[P.charId.toNat]? = some id ∧
      (sendCharSelectReply env s P).state.tables.sessions =
        (updateSessionWithCharacter s.tables s.sessionId id).sessions) ∨
    ((sendCharSelectReply env s P).state.tables.sessions = s.tables.sessions ∧
      (sendCharSelectReply env s P).state.loginState = s.loginState)

/-- The index is one of the last list, and the id there is a number of an `INT`; or the client
is not logged in. -/
def Listed (s : State) (P : CliSelectCharReq) : Prop :=
  s.loginState = .LOGGEDIN → ∃ id, s.lastList[P.charId.toNat]? = some id ∧ id < 2 ^ 31

section

variable {env : Env} {s : State} {P : CliSelectCharReq}

/-- A listed character is selected. -/
theorem sendCharSelectReply_of_listed {id : ℕ} (hstate : s.loginState = .LOGGEDIN)
    (hid : s.characterRealId[P.charId.toNat]? = some id) (hlt : id < 2 ^ 31) :
    (sendCharSelectReply env s P).state.tables =
        updateSessionWithCharacter s.tables s.sessionId id ∧
      (sendCharSelectReply env s P).reads = [P.charId.toNat, P.charId.toNat] := by
  obtain ⟨hrange, -⟩ := List.getElem?_eq_some_iff.mp hid
  have hread : s.characterRealId.getD P.charId.toNat (env.behind P.charId.toNat) = id := by
    rw [List.getD_eq_getElem?_getD, hid, Option.getD_some]
  have hcall : callUpdateSession env.my s.tables s.sessionId id =
      some (updateSessionWithCharacter s.tables s.sessionId id) := by
    rw [callUpdateSession, env.my.int_of_lt _ s.sessionId_lt, env.my.int_of_lt _ hlt]
    rfl
  rw [sendCharSelectReply, if_neg (not_not.mpr hstate)]
  dsimp only
  rw [if_neg (by omega), hread, hcall]
  exact ⟨rfl, rfl⟩

theorem selects_of_listed (hlist : s.lastList = s.characterRealId) (h : Listed s P) :
    Selects env s P := by
  by_cases hstate : s.loginState = .LOGGEDIN
  · obtain ⟨id, hid, hlt⟩ := h hstate
    have hid' := hlist ▸ hid
    obtain ⟨htables, hreads⟩ := @sendCharSelectReply_of_listed env s P id hstate hid' hlt
    refine ⟨fun i hi => ?_, Or.inl ⟨id, hid, by rw [htables]⟩⟩
    have hi' : i = P.charId.toNat := by simpa [hreads] using hi
    exact hi' ▸ (List.getElem?_eq_some_iff.mp hid').1
  · -- the request is passed over
    have hsame : sendCharSelectReply env s P = { state := s, result := .returned true } :=
      if_pos hstate
    refine ⟨fun i hi => ?_, Or.inr ⟨by rw [hsame], by rw [hsame]⟩⟩
    rw [hsame] at hi
    exact absurd hi List.not_mem_nil

/-- An index behind the list is not: behind the length nothing is selected and the client is
set to `TRANSFERING` all the same, and the length itself is used as an index. -/
theorem not_selects_of_le (hlist : s.lastList = s.characterRealId)
    (hstate : s.loginState = .LOGGEDIN) (hle : s.characterRealId.length ≤ P.charId.toNat) :
    ¬ Selects env s P := by
  rintro ⟨hrange, houtcome⟩
  rw [sendCharSelectReply, if_neg (not_not.mpr hstate)] at hrange houtcome
  dsimp only at hrange houtcome
  by_cases hlt : s.characterRealId.length < P.charId.toNat
  · rw [if_pos hlt] at houtcome
    rcases houtcome with ⟨id, hid, -⟩ | ⟨-, hstate'⟩
    · rw [hlist, List.getElem?_eq_none hle] at hid
      exact absurd hid (by simp)
    · rw [hstate] at hstate'
      exact LoginState.noConfusion hstate'
  · rw [if_neg hlt] at hrange
    have hread := hrange P.charId.toNat
    split at hread
    · exact absurd (hread List.mem_cons_self) (by omega)
    · exact absurd (hread List.mem_cons_self) (by omega)

end

/-- **Every select of a run is right**, if each that finds the client logged in has an index of
the last list. -/
theorem selects_of_run {env : Env} {s : State} (hs : Authenticated s) {es : List Event}
    (h : ∀ p P, p ++ [.select P] <+: es → Listed (p.foldl (next env) s) P) :
    ∀ p P, p ++ [.select P] <+: es → Selects env (p.foldl (next env) s) P := by
  have hstart : s.lastList = s.characterRealId := by
    rw [State.lastList, hs.sent, hs.characterRealId]
    rfl
  intro p P hp
  exact selects_of_listed (lastList_of_run hstart p) (h p P hp)

/-! ## A client with one character -/

/-- Account 1 with its character and a session. -/
def oneSession : State :=
  { loggedIn firstCharacter with
    sessionId := 5
    sessionId_lt := by decide
    tables :=
      { characters := firstCharacter
        inventory := []
        sessions := { rows := [{ id := 5, userid := 1 }], unique := by decide } } }

theorem authenticated_oneSession : Authenticated oneSession := ⟨rfl, rfl, rfl⟩

theorem selects_of_run_first :
    Selects plainEnv ([.list].foldl (next plainEnv) oneSession) ⟨0⟩ := by
  refine @selects_of_run plainEnv oneSession authenticated_oneSession [.list, .select ⟨0⟩] ?_
    [.list] ⟨0⟩ (List.prefix_refl _)
  rintro p P ⟨t, ht⟩
  match p with
  | [] => exact absurd ht (by simp)
  | [e] =>
      simp only [List.cons_append, List.nil_append, List.cons.injEq, Event.select.injEq] at ht
      obtain ⟨rfl, rfl, -⟩ := ht
      exact fun _ => ⟨1, rfl, by decide⟩
  | e :: e' :: p => exact absurd (congrArg List.length ht) (by simp)

/-- A select before any list. -/
theorem not_selects_first :
    ¬ ∀ (env : Env) (s : State) (es : List Event), Authenticated s →
      ∀ p P, p ++ [.select P] <+: es → Selects env (p.foldl (next env) s) P := by
  intro h
  have hselect := h plainEnv oneSession [.select ⟨0⟩] authenticated_oneSession [] ⟨0⟩
    (List.prefix_refl _)
  exact not_selects_of_le rfl rfl (Nat.zero_le _) hselect

end OsIrose.CharClient

/-
What a delete request removes, `CCharClient::SendCharDeleteReply` (`char/src/ccharclient.cpp`)
and `delete_character` (`Database/osirose.sql`).

The request gives the name of one of the account's characters. The client passes its user id and
the name on, and the procedure removes the character with that *character* id and that name. The
two numbers come from different columns, so the account's own character goes only if its id
happens to be the number of the account, and another account's character goes if its does
(`characters_sendCharDeleteReply_iff`).
-/
import OsIrose.CharClient

set_option autoImplicit false

namespace OsIrose.CharClient

open ByteMem
open Escape (backslash escapeChar escapeData scan quote)
open Packet (MAX_EQUIPPED_ITEMS)

/-! ## The name in the call -/

/-- `escapeData` leaves the text alone. -/
def Unescaped (name : List Byte) : Prop := ∀ c ∈ name, escapeChar c = [c]

instance (name : List Byte) : Decidable (Unescaped name) :=
  inferInstanceAs (Decidable (∀ c ∈ name, escapeChar c = [c]))

theorem Unescaped.quote_notMem {name : List Byte} (h : Unescaped name) : quote ∉ name :=
  fun hmem => absurd (h quote hmem) (by decide)

theorem Unescaped.escapeData_eq {name : List Byte} (h : Unescaped name) :
    escapeData name = name := by
  rw [Escape.escapeData_eq]
  induction name with
  | nil => rfl
  | cons c name ih =>
      rw [List.flatMap_cons, h c List.mem_cons_self,
        ih (fun c' hc' => h c' (List.mem_cons_of_mem c hc'))]
      rfl

/-- What `_name` of `delete_character` holds; `none` if the server refuses the call. -/
def Mysql.nameArg (my : Mysql) (name : List Byte) : Option (List Byte) :=
  (scan (name.takeWhile (· ≠ 0) ++ quote :: closing)).bind fun r => my.varchar 20 r.1

/-- The call is one for a character of that name. -/
def Mysql.called (my : Mysql) (name : List Byte) (row : CharacterRow) : Bool :=
  (my.nameArg name).any (my.sameText row.name)

theorem callDeleteCharacter_eq {my : Mysql} {t : Tables} {charid : ℕ} {name : List Byte}
    (hcharid : charid < 2 ^ 31) (hname : Unescaped name) :
    callDeleteCharacter my t charid name =
      (my.nameArg name).map (deleteCharacter my t charid) := by
  have hcstr : Unescaped (name.takeWhile (· ≠ 0)) :=
    fun c hc => hname c (List.takeWhile_subset _ hc)
  rw [callDeleteCharacter, Mysql.nameArg, escaped, hcstr.escapeData_eq]
  cases hscan : scan (name.takeWhile (· ≠ 0) ++ quote :: closing) with
  | none => rfl
  | some r =>
      have hrest := Escape.eq_of_scan hcstr.quote_notMem (by decide) hscan
      rw [Option.bind_some, Option.bind_some, if_pos hrest, my.int_of_lt charid hcharid,
        Option.bind_some]

/-! ## The rows that go -/

section

variable {env : Env} {s : State} {P : CliDeleteCharReq} (now : BitVec 32)

/-- A delete removes the character whose *id* is the number of the account, if the call
names it. -/
theorem characters_sendCharDeleteReply (hstate : s.loginState = .LOGGEDIN)
    (hcharId : P.charId ≤ 6) (hdelete : P.isDelete ≠ 0) (hname : Unescaped P.name) :
    (sendCharDeleteReply env s P now).state.tables.characters =
      s.tables.characters.delete (fun row => row.id = s.userId ∧ env.my.called P.name row) := by
  rw [sendCharDeleteReply, if_neg (not_not.mpr hstate), if_neg (by simpa using hcharId),
    if_pos hdelete, callDeleteCharacter_eq s.userId_lt hname]
  cases harg : env.my.nameArg P.name with
  | none =>
      -- the call is refused, and names no character
      refine (Table.delete_eq_self_iff.mpr fun row _ => ?_).symm
      simp [Mysql.called, harg]
  | some text => simp only [Option.map_some, deleteCharacter, Mysql.called, harg, Option.any_some]

/-- A delete of a name by an account that is right for these characters: the account's
character of that name has the account's number for an id, and a character with this number
that the call names is the account's. -/
structure Agrees (my : Mysql) (rows : List CharacterRow) (userid : ℕ) (name : List Byte) :
    Prop where
  own : ∀ row ∈ rows, row.userid = userid → my.sameText row.name name →
    row.id = userid ∧ my.called name row
  others : ∀ row ∈ rows, row.id = userid → my.called name row →
    row.userid = userid ∧ my.sameText row.name name

/-- For a name that is passed on as it is, this is about the characters of that name. -/
theorem agrees_iff_of_plain {my : Mysql} {rows : List CharacterRow} {userid : ℕ}
    {name : List Byte} (h : my.nameArg name = some name) :
    Agrees my rows userid name ↔
      ∀ row ∈ rows, my.sameText row.name name → (row.id = userid ↔ row.userid = userid) := by
  have hcalled : ∀ row, my.called name row = my.sameText row.name name := fun row => by
    rw [Mysql.called, h, Option.any_some]
  constructor
  · intro hagrees row hrow hname
    constructor
    · intro hid
      exact (hagrees.others row hrow hid ((hcalled row).trans hname)).1
    · intro huserid
      exact (hagrees.own row hrow huserid hname).1
  · intro hrows
    constructor
    · intro row hrow huserid hname
      exact ⟨(hrows row hrow hname).mpr huserid, (hcalled row).trans hname⟩
    · intro row hrow hid hcall
      have hname := (hcalled row).symm.trans hcall
      exact ⟨(hrows row hrow hname).mp hid, hname⟩

/-- **What a delete request removes** is the account's character of that name if and only if
the two numbers agree. -/
theorem characters_sendCharDeleteReply_iff (hstate : s.loginState = .LOGGEDIN)
    (hcharId : P.charId ≤ 6) (hdelete : P.isDelete ≠ 0) (hname : Unescaped P.name) :
    (sendCharDeleteReply env s P now).state.tables.characters =
        s.tables.characters.delete
          (fun row => row.userid = s.userId ∧ env.my.sameText row.name P.name) ↔
      Agrees env.my s.tables.characters.rows s.userId P.name := by
  rw [characters_sendCharDeleteReply now hstate hcharId hdelete hname,
    Table.delete_eq_delete_iff]
  simp only [decide_eq_decide]
  constructor
  · intro h
    constructor
    · intro row hrow huserid htext
      exact (h row hrow).mpr ⟨huserid, htext⟩
    · intro row hrow hid hcalled
      exact (h row hrow).mp ⟨hid, hcalled⟩
  · intro h row hrow
    constructor
    · rintro ⟨hid, hcalled⟩
      exact h.others row hrow hid hcalled
    · rintro ⟨huserid, htext⟩
      exact h.own row hrow huserid htext

end

/-! ## Two accounts -/

/-- A server that compares byte by byte and refuses what does not fit. -/
def plainMysql : Mysql where
  sameText := fun a b => a == b
  varchar n text := if text.length ≤ n then some text else none
  int n := if n < 2 ^ 31 then some n else none
  int_of_lt _ h := if_pos h
  other _ _ := none

def plainEnv : Env where
  my := plainMysql
  words _ := List.Vector.replicate MAX_EQUIPPED_ITEMS 0
  behind _ := 0

/-- Account 1 with these characters. -/
def loggedIn (characters : Table CharacterRow.id) : State where
  loginState := .LOGGEDIN
  userId := 1
  tables := { characters, inventory := [], sessions := ⟨[], List.nodup_nil⟩ }

def deleteA : CliDeleteCharReq where
  charId := 0
  isDelete := 1
  name := [0x61]

/-- The first account's first character. -/
def firstCharacter : Table CharacterRow.id where
  rows := [{ id := 1, userid := 1, name := [0x61] }]
  unique := by decide

theorem characters_sendCharDeleteReply_first :
    (sendCharDeleteReply plainEnv (loggedIn firstCharacter) deleteA 0).state.tables.characters.rows
      = [] := by
  have hagrees : Agrees plainMysql firstCharacter.rows 1 deleteA.name :=
    (agrees_iff_of_plain rfl).mpr (by decide)
  have hdelete := (@characters_sendCharDeleteReply_iff plainEnv (loggedIn firstCharacter) deleteA 0
    rfl (by decide) (by decide) (by decide)).mpr hagrees
  rw [hdelete]
  decide

/-- The first character is another account's. -/
def otherCharacter : Table CharacterRow.id where
  rows := [{ id := 1, userid := 2, name := [0x61] }]
  unique := by decide

theorem not_characters_sendCharDeleteReply_other :
    ¬ ∀ (env : Env) (s : State) (P : CliDeleteCharReq) (now : BitVec 32),
      s.loginState = .LOGGEDIN → P.charId ≤ 6 → P.isDelete ≠ 0 → Unescaped P.name →
        (sendCharDeleteReply env s P now).state.tables.characters =
          s.tables.characters.delete
            (fun row => row.userid = s.userId ∧ env.my.sameText row.name P.name) := by
  intro h
  have hgone := h plainEnv (loggedIn otherCharacter) deleteA 0 rfl (by decide) (by decide)
    (by decide)
  rw [characters_sendCharDeleteReply 0 rfl (by decide) (by decide) (by decide)] at hgone
  exact absurd (congrArg Table.rows hgone) (by decide)

end OsIrose.CharClient

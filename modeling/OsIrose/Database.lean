/-
The tables of `Database/osirose.sql` that the servers share.

The columns are those the modelled statements read. `online` is nullable in the schema; a
NULL reads as 0, so it is a `Bool` here. `sessions.time` is a count of milliseconds that
the server stores in whole seconds (`Session.timestamp`).
-/
import OsIrose.ByteMem
import OsIrose.Table

set_option autoImplicit false

namespace OsIrose.Database

open ByteMem

/-- A row of `accounts`. -/
@[ext]
structure AccountRow where
  id : ℕ
  username : List Byte := []
  password : List Byte := []
  salt : List Byte := []
  /-- `none` for NULL, as for every nullable column below. -/
  access : Option ℤ := some 100
  platinium : Bool := false
  online : Bool := false
  loginCount : ℤ := 0
  deriving DecidableEq, Repr

/-- A row of `sessions`. -/
structure SessionRow where
  id : ℕ
  userid : ℕ
  time : ℕ := 0
  charid : Option ℕ := none
  worldip : Option (List Byte) := none
  worldport : Option ℕ := none
  deriving DecidableEq, Repr

abbrev Accounts := Table AccountRow.id

abbrev Sessions := Table SessionRow.id

/-- What the MySQL server computes for the servers: the comparison of the texts of a column
under its collation, `SHA2(…, 256)`, and the value of the literal with a given text. -/
structure Mysql where
  sameText : List Byte → List Byte → Bool
  sha2 : List Byte → List Byte
  literal : List Byte → List Byte

/-- `accounts.password = SHA2(CONCAT('clientpass', salt), 256)`. -/
def Mysql.samePassword (my : Mysql) (clientpass : List Byte) (row : AccountRow) : Bool :=
  my.sameText row.password (my.sha2 (my.literal clientpass ++ row.salt))

/-- `SET online = 0`. -/
def AccountRow.setOffline (row : AccountRow) : AccountRow := { row with online := false }

@[simp] theorem AccountRow.setOffline_id (row : AccountRow) : row.setOffline.id = row.id := rfl

@[simp] theorem AccountRow.setOffline_online (row : AccountRow) :
    row.setOffline.online = false := rfl

theorem AccountRow.setOffline_eq_self_iff {row : AccountRow} :
    row.setOffline = row ↔ row.online = false := by
  rw [AccountRow.ext_iff]
  simp only [AccountRow.setOffline, true_and, and_true]
  exact eq_comm

/-- `UPDATE accounts SET online = 0 WHERE id = userid`. -/
def setOffline (accounts : Accounts) (userid : ℕ) : Accounts :=
  accounts.update (fun row => row.id = userid) AccountRow.setOffline AccountRow.setOffline_id

/-- The account is marked online. -/
def Online (accounts : Accounts) (userid : ℕ) : Prop :=
  ∃ row ∈ accounts.rows, row.id = userid ∧ row.online = true

/-- Setting an account offline leaves the mark of the others alone. -/
theorem online_setOffline_iff {accounts : Accounts} {userid a : ℕ} :
    Online (setOffline accounts userid) a ↔ Online accounts a ∧ a ≠ userid := by
  unfold Online setOffline
  simp only [Table.mem_update, decide_eq_true_eq]
  constructor
  · rintro ⟨_, ⟨row, hrow, rfl⟩, hid, honline⟩
    by_cases heq : row.id = userid
    · simp [heq] at honline
    · simp only [heq, if_false] at hid honline
      exact ⟨⟨row, hrow, hid, honline⟩, hid ▸ heq⟩
  · rintro ⟨⟨row, hrow, rfl, honline⟩, hne⟩
    exact ⟨row, ⟨row, hrow, if_neg hne⟩, rfl, honline⟩

/-- Setting an account offline changes nothing if and only if it is not marked online. -/
theorem setOffline_eq_self_iff {accounts : Accounts} {userid : ℕ} :
    setOffline accounts userid = accounts ↔ ¬ Online accounts userid := by
  unfold setOffline Online
  rw [Table.update_eq_self_iff]
  simp only [decide_eq_true_eq, AccountRow.setOffline_eq_self_iff, not_exists, not_and,
    Bool.not_eq_true]

/-- Setting either of two accounts offline is the same only if it is the same account, or
neither is marked online. -/
theorem setOffline_eq_setOffline_iff {accounts : Accounts} {a b : ℕ} :
    setOffline accounts a = setOffline accounts b ↔
      a = b ∨ ¬ Online accounts a ∧ ¬ Online accounts b := by
  constructor
  · intro h
    by_cases hab : a = b
    · exact Or.inl hab
    · -- each of the two marks is gone on one side, so it was not there
      have ha := @online_setOffline_iff accounts b a
      have hb := @online_setOffline_iff accounts a b
      rw [← h, online_setOffline_iff] at ha
      rw [h, online_setOffline_iff] at hb
      tauto
  · rintro (rfl | ⟨ha, hb⟩)
    · rfl
    · rw [setOffline_eq_self_iff.mpr ha, setOffline_eq_self_iff.mpr hb]

/-- A server that compares texts byte by byte and takes literals and hashes as they are. -/
def plainMysql : Mysql where
  sameText := fun a b => a == b
  sha2 := id
  literal := id

/-- Two accounts, both online, with empty passwords. -/
def twoAccounts : Accounts where
  rows := [{ id := 1, online := true }, { id := 2, online := true }]
  unique := by decide

end OsIrose.Database

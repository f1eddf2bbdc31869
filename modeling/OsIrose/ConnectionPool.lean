/-
The pool of database connections: `core/include/connectionpool.h`.

A connection that was made stays in the vector of its name for good, and a flag beside it
says whether it is in use. `getConnection` sets the first flag that is not set, or has the
factory make one more connection; the destructor of a `Wrapper` looks the connection up again,
by name and address, and clears the flag. What ties the flags to the wrappers is `Linked`: the
addresses are distinct, within a name and between names, so the entry that is found is the one
the wrapper refers to. Hence no connection ever has two users (`exclusive_run`).

A connection is its address, which is not null; a factory makes one at an address where no
other connection of the pool is. A `Wrapper` keeps a reference to its name, which is a constant
wherever one is made: `Core::osirose`.
-/
import OsIrose.Runs
import Mathlib.Data.List.Nodup
import Mathlib.Logic.Function.Basic
import Mathlib.Data.Finset.Insert

set_option autoImplicit false

namespace OsIrose.Core

open Function Runs

/-- A `ConnectionPool<T>::Wrapper`; `C` are the addresses, `T *`. -/
structure Wrapper (C : Type*) where
  conn : C
  name : String
  deriving DecidableEq

structure ConnectionPool (C : Type*) where
  /-- The names that have a factory. -/
  factories : Finset String := ∅
  /-- `false` for a connection that is available. -/
  connections : String → List (Bool × C) := fun _ => []

section Code

variable {C : Type*} [DecidableEq C]

/-- The loop of `getConnection`: the first connection that is available is in use now. -/
def mark : List (Bool × C) → Option (C × List (Bool × C))
  | [] => none
  | conn :: conns =>
      if conn.1 = false then some (conn.2, (true, conn.2) :: conns)
      else (mark conns).map (Prod.map id (conn :: ·))

/-- The loop of `unMark`. -/
def clear (value : C) : List (Bool × C) → List (Bool × C)
  | [] => []
  | conn :: conns =>
      if conn.1 = true ∧ conn.2 = value then (false, conn.2) :: conns
      else conn :: clear value conns

namespace ConnectionPool

def addConnector (pool : ConnectionPool C) (name : String) : ConnectionPool C :=
  { pool with factories := insert name pool.factories }

/-- `getConnection`; `made` is what the factory makes, if it is called. `none` is an
`AssertionFailureException`. -/
def getConnection (pool : ConnectionPool C) (name : String) (made : C) :
    Option (Wrapper C × ConnectionPool C) :=
  if name ∈ pool.factories then
    match mark (pool.connections name) with
    | some (conn, conns) =>
        some ({ conn, name }, { pool with connections := update pool.connections name conns })
    | none =>
        some ({ conn := made, name }, { pool with
          connections :=
            update pool.connections name (pool.connections name ++ [(true, made)]) })
  else none

def unMark (pool : ConnectionPool C) (name : String) (value : C) : ConnectionPool C :=
  { pool with
    connections := update pool.connections name (clear value (pool.connections name)) }

/-- Where the connections of a name are. -/
def addresses (pool : ConnectionPool C) (name : String) : List C :=
  (pool.connections name).map Prod.snd

end ConnectionPool

/-! ## The pool and its users -/

structure Usage (C : Type*) where
  pool : ConnectionPool C := {}
  /-- The wrappers that are alive. -/
  wrappers : List (Wrapper C) := []

inductive Event (C : Type*)
  | addConnector (name : String)
  | getConnection (name : String) (made : C)
  /-- `~Wrapper` -/
  | destroy (wrapper : Wrapper C)

inductive Step (s : Usage C) : Event C → Usage C → Prop
  | addConnector (name : String) :
      Step s (.addConnector name) { s with pool := s.pool.addConnector name }
  | getConnection {name : String} {made : C} {wrapper : Wrapper C} {pool : ConnectionPool C}
      (hfresh : ∀ name', made ∉ s.pool.addresses name')
      (hget : s.pool.getConnection name made = some (wrapper, pool)) :
      Step s (.getConnection name made) { pool, wrappers := wrapper :: s.wrappers }
  | refused {name : String} {made : C} (hget : s.pool.getConnection name made = none) :
      Step s (.getConnection name made) s
  | destroy {wrapper : Wrapper C} (hmem : wrapper ∈ s.wrappers) :
      Step s (.destroy wrapper)
        { pool := s.pool.unMark wrapper.name wrapper.conn
          wrappers := s.wrappers.erase wrapper }

/-! ## What the users may rely on -/

namespace Usage

/-- No two live wrappers refer to one connection, and the connections in use are those that
one live wrapper refers to. -/
structure Exclusive (s : Usage C) : Prop where
  distinct : (s.wrappers.map Wrapper.conn).Nodup
  pooled : ∀ w ∈ s.wrappers, w.conn ∈ s.pool.addresses w.name
  inUse_iff : ∀ name inUse conn, (inUse, conn) ∈ s.pool.connections name →
    (inUse = true ↔ (s.wrappers.map Wrapper.conn).count conn = 1)

/-- A step that leads to `s'` makes a connection only if those of its name are in use. -/
def MadeForNeed (s s' : Usage C) : Prop :=
  ∀ name conn, conn ∈ s'.pool.addresses name → conn ∉ s.pool.addresses name →
    ∀ entry ∈ s.pool.connections name,
      entry.1 = true ∧ ∃ w ∈ s.wrappers, w.name = name ∧ w.conn = entry.2

end Usage

end Code

/-! ## One flag changes -/

section Flags

variable {C : Type*}

/-- The flag of one entry changes. -/
def Switched (conn : C) (inUse : Bool) (conns conns' : List (Bool × C)) : Prop :=
  ∃ before after, conns = before ++ ((!inUse), conn) :: after ∧
    conns' = before ++ (inUse, conn) :: after

variable {conn : C} {inUse : Bool} {conns conns' : List (Bool × C)}

theorem Switched.cons (h : Switched conn inUse conns conns') (entry : Bool × C) :
    Switched conn inUse (entry :: conns) (entry :: conns') := by
  obtain ⟨before, after, rfl, rfl⟩ := h
  exact ⟨entry :: before, after, rfl, rfl⟩

theorem Switched.map_snd (h : Switched conn inUse conns conns') :
    conns'.map Prod.snd = conns.map Prod.snd := by
  obtain ⟨before, after, rfl, rfl⟩ := h
  simp

theorem Switched.mem (h : Switched conn inUse conns conns') : ((!inUse), conn) ∈ conns := by
  obtain ⟨before, after, rfl, rfl⟩ := h
  simp

/-- Where the connections are distinct no other flag changes. -/
theorem Switched.mem_iff (h : Switched conn inUse conns conns')
    (hnodup : (conns.map Prod.snd).Nodup) (entry : Bool × C) :
    entry ∈ conns' ↔ entry = (inUse, conn) ∨ entry ∈ conns ∧ entry.2 ≠ conn := by
  obtain ⟨before, after, rfl, rfl⟩ := h
  rw [List.map_append, List.map_cons, List.nodup_middle, List.nodup_cons, List.mem_append,
    not_or] at hnodup
  obtain ⟨⟨hbefore, hafter⟩, _⟩ := hnodup
  have hne : ∀ {l : List (Bool × C)}, conn ∉ l.map Prod.snd → entry ∈ l → entry.2 ≠ conn :=
    fun hl hentry heq => hl (List.mem_map.mpr ⟨entry, hentry, heq⟩)
  simp only [List.mem_append, List.mem_cons]
  constructor
  · rintro (hentry | rfl | hentry)
    · exact Or.inr ⟨Or.inl hentry, hne hbefore hentry⟩
    · exact Or.inl rfl
    · exact Or.inr ⟨Or.inr (Or.inr hentry), hne hafter hentry⟩
  · rintro (rfl | ⟨hentry | rfl | hentry, hother⟩)
    · exact Or.inr (Or.inl rfl)
    · exact Or.inl hentry
    · exact absurd rfl hother
    · exact Or.inr (Or.inr hentry)

/-- The loop of `getConnection` finds a connection that is available, or there is none. -/
theorem mark_eq_some (h : mark conns = some (conn, conns')) : Switched conn true conns conns' := by
  induction conns generalizing conns' with
  | nil => simp [mark] at h
  | cons entry conns ih =>
      rw [mark] at h
      split_ifs at h with hfree
      · obtain ⟨rfl, rfl⟩ := Prod.mk.inj (Option.some.inj h)
        exact ⟨[], conns, by rw [List.nil_append, Bool.not_true, ← hfree], rfl⟩
      · obtain ⟨⟨conn', conns''⟩, hmark, hcons⟩ := Option.map_eq_some_iff.mp h
        obtain ⟨rfl, rfl⟩ := Prod.mk.inj hcons
        exact (ih hmark).cons entry

theorem mark_eq_none (h : mark conns = none) : ∀ entry ∈ conns, entry.1 = true := by
  induction conns with
  | nil => exact fun _ hentry => absurd hentry List.not_mem_nil
  | cons entry conns ih =>
      rw [mark] at h
      split_ifs at h with hfree
      refine List.forall_mem_cons.mpr ⟨Bool.eq_true_of_not_eq_false hfree, ih ?_⟩
      exact Option.map_eq_none_iff.mp h

/-- The loop of `unMark` finds the connection it looks for. -/
theorem switched_clear [DecidableEq C] (hmem : (true, conn) ∈ conns) :
    Switched conn false conns (clear conn conns) := by
  induction conns with
  | nil => exact absurd hmem List.not_mem_nil
  | cons entry conns ih =>
      rw [clear]
      split_ifs with hfound
      · obtain ⟨hflag, rfl⟩ := hfound
        exact ⟨[], conns, by rw [List.nil_append, Bool.not_false, ← hflag], rfl⟩
      · obtain rfl | hmem := List.mem_cons.mp hmem
        · exact absurd ⟨rfl, rfl⟩ hfound
        · exact (ih hmem).cons entry

/-- **What `getConnection` does**: a connection that was available is in use, or all were in
use and there is one more. -/
theorem ConnectionPool.getConnection_cases [DecidableEq C] {pool pool' : ConnectionPool C}
    {name : String} {made : C} {wrapper : Wrapper C}
    (h : pool.getConnection name made = some (wrapper, pool')) :
    (∃ conn conns, Switched conn true (pool.connections name) conns ∧ wrapper = { conn, name } ∧
      pool' = { pool with connections := update pool.connections name conns }) ∨
    ((∀ entry ∈ pool.connections name, entry.1 = true) ∧ wrapper = { conn := made, name } ∧
      pool' = { pool with
        connections :=
          update pool.connections name (pool.connections name ++ [(true, made)]) }) := by
  unfold ConnectionPool.getConnection at h
  split_ifs at h
  split at h
  · obtain ⟨rfl, rfl⟩ := Prod.mk.inj (Option.some.inj h)
    exact Or.inl ⟨_, _, mark_eq_some ‹_›, rfl, rfl⟩
  · obtain ⟨rfl, rfl⟩ := Prod.mk.inj (Option.some.inj h)
    exact Or.inr ⟨mark_eq_none ‹_›, rfl, rfl⟩

end Flags

/-! ## What links the flags and the wrappers -/

namespace Usage

variable {C : Type*} {s s' : Usage C}

structure Linked (s : Usage C) : Prop where
  nodup : ∀ name, (s.pool.addresses name).Nodup
  own : ∀ name name' conn, conn ∈ s.pool.addresses name → conn ∈ s.pool.addresses name' →
    name = name'
  distinct : (s.wrappers.map Wrapper.conn).Nodup
  mem_iff : ∀ name conn, ({ conn, name } : Wrapper C) ∈ s.wrappers ↔
    (true, conn) ∈ s.pool.connections name

theorem linked_start : Linked ({} : Usage C) where
  nodup _ := List.nodup_nil
  own _ _ _ h := absurd h List.not_mem_nil
  distinct := List.nodup_nil
  mem_iff _ _ := iff_of_false List.not_mem_nil List.not_mem_nil

theorem Linked.mem_addresses (h : s.Linked) {w : Wrapper C} (hw : w ∈ s.wrappers) :
    w.conn ∈ s.pool.addresses w.name :=
  List.mem_map.mpr ⟨_, (h.mem_iff w.name w.conn).mp hw, rfl⟩

/-- An address has one flag. -/
theorem Linked.flag_unique (h : s.Linked) {name : String} {conn : C} {a b : Bool}
    (ha : (a, conn) ∈ s.pool.connections name) (hb : (b, conn) ∈ s.pool.connections name) :
    a = b :=
  congrArg Prod.fst (List.inj_on_of_nodup_map (h.nodup name) ha hb rfl)

/-- Nobody refers to a connection whose flag is not set. -/
theorem Linked.unused (h : s.Linked) {name : String} {conn : C}
    (hfree : (false, conn) ∈ s.pool.connections name) :
    conn ∉ s.wrappers.map Wrapper.conn := by
  intro hused
  obtain ⟨w, hw, rfl⟩ := List.mem_map.mp hused
  have hname : name = w.name :=
    h.own _ _ _ (List.mem_map.mpr ⟨_, hfree, rfl⟩) (h.mem_addresses hw)
  subst hname
  exact absurd (h.flag_unique hfree ((h.mem_iff w.name w.conn).mp hw)) (by decide)

/-- A flag that changes changes nothing else. -/
theorem addresses_update_of_switched {pool : ConnectionPool C} {name : String} {conn : C}
    {inUse : Bool} {conns : List (Bool × C)}
    (hswitched : Switched conn inUse (pool.connections name) conns) :
    ({ pool with connections := update pool.connections name conns } :
      ConnectionPool C).addresses = pool.addresses := by
  funext name'
  by_cases hname : name' = name
  · subst hname
    simp only [ConnectionPool.addresses, update_self]
    exact hswitched.map_snd
  · simp only [ConnectionPool.addresses, update_of_ne hname]

/-- A connection that was available gets a user. -/
theorem Linked.acquire (h : s.Linked) {name : String} {conn : C} {conns : List (Bool × C)}
    (hswitched : Switched conn true (s.pool.connections name) conns) :
    Linked
      { pool := { s.pool with connections := update s.pool.connections name conns }
        wrappers := { conn, name } :: s.wrappers } where
  nodup := by
    rw [addresses_update_of_switched hswitched]
    exact h.nodup
  own := by
    rw [addresses_update_of_switched hswitched]
    exact h.own
  distinct := List.nodup_cons.mpr ⟨h.unused hswitched.mem, h.distinct⟩
  mem_iff := by
    intro name' conn'
    rw [List.mem_cons, h.mem_iff]
    by_cases hname : name' = name
    · subst hname
      dsimp only
      rw [update_self, hswitched.mem_iff (h.nodup name')]
      simp only [Wrapper.mk.injEq, Prod.mk.injEq, and_true, true_and]
      tauto
    · dsimp only
      rw [update_of_ne hname]
      simp [hname]

/-- A connection that is made is behind those of its name. -/
theorem addresses_make (pool : ConnectionPool C) (name : String) (made : C) (name' : String) :
    ConnectionPool.addresses { pool with
        connections :=
          update pool.connections name (pool.connections name ++ [(true, made)]) } name' =
      pool.addresses name' ++ if name' = name then [made] else [] := by
  by_cases hname : name' = name
  · subst hname
    simp [ConnectionPool.addresses]
  · simp [ConnectionPool.addresses, hname]

/-- A connection that is made has a user. -/
theorem Linked.make (h : s.Linked) {name : String} {made : C}
    (hfresh : ∀ name', made ∉ s.pool.addresses name') :
    Linked
      { pool := { s.pool with
          connections :=
            update s.pool.connections name (s.pool.connections name ++ [(true, made)]) }
        wrappers := { conn := made, name } :: s.wrappers } := by
  have hmem : ∀ {name' conn}, conn ∈ s.pool.addresses name' ++ (if name' = name then [made]
      else []) → conn ∈ s.pool.addresses name' ∧ conn ≠ made ∨ name' = name ∧ conn = made := by
    intro name' conn hconn
    obtain hconn | hconn := List.mem_append.mp hconn
    · exact Or.inl ⟨hconn, fun heq => hfresh name' (heq ▸ hconn)⟩
    · split_ifs at hconn with hname
      · exact Or.inr ⟨hname, List.mem_singleton.mp hconn⟩
      · exact absurd hconn List.not_mem_nil
  refine ⟨fun name' => ?_, fun name₁ name₂ conn h₁ h₂ => ?_, ?_, fun name' conn => ?_⟩
  · rw [addresses_make, List.nodup_append]
    refine ⟨h.nodup name', by split_ifs <;> simp, fun conn hconn conn' hconn' heq => ?_⟩
    split_ifs at hconn' with hname
    · exact hfresh name' (List.mem_singleton.mp hconn' ▸ heq ▸ hconn)
    · exact List.not_mem_nil hconn'
  · rw [addresses_make] at h₁ h₂
    obtain ⟨h₁, hne⟩ | ⟨rfl, rfl⟩ := hmem h₁
    · obtain ⟨h₂, _⟩ | ⟨_, heq⟩ := hmem h₂
      · exact h.own _ _ _ h₁ h₂
      · exact absurd heq hne
    · obtain ⟨_, hne⟩ | ⟨heq, _⟩ := hmem h₂
      · exact absurd rfl hne
      · exact heq.symm
  · refine List.nodup_cons.mpr ⟨fun hused => ?_, h.distinct⟩
    obtain ⟨w, hw, rfl⟩ := List.mem_map.mp hused
    exact hfresh _ (h.mem_addresses hw)
  · rw [List.mem_cons, h.mem_iff]
    by_cases hname : name' = name
    · subst hname
      simp [or_comm]
    · simp [hname]

/-- A connection loses its user. -/
theorem Linked.release [DecidableEq C] (h : s.Linked) {w : Wrapper C} (hw : w ∈ s.wrappers) :
    Linked
      { pool := s.pool.unMark w.name w.conn
        wrappers := s.wrappers.erase w } := by
  have hswitched : Switched w.conn false (s.pool.connections w.name)
      (clear w.conn (s.pool.connections w.name)) :=
    switched_clear ((h.mem_iff w.name w.conn).mp hw)
  have hnodup : s.wrappers.Nodup := List.Nodup.of_map _ h.distinct
  refine ⟨?_, ?_, h.distinct.sublist (List.erase_sublist.map _), fun name conn => ?_⟩
  · rw [ConnectionPool.unMark, addresses_update_of_switched hswitched]
    exact h.nodup
  · rw [ConnectionPool.unMark, addresses_update_of_switched hswitched]
    exact h.own
  · rw [hnodup.mem_erase_iff, h.mem_iff]
    by_cases hname : name = w.name
    · subst hname
      simp only [ConnectionPool.unMark, update_self]
      rw [hswitched.mem_iff (h.nodup w.name)]
      have hwrapper : ({ conn, name := w.name } : Wrapper C) = w ↔ conn = w.conn :=
        ⟨fun heq => congrArg Wrapper.conn heq, fun heq => by rw [heq]⟩
      simp only [ne_eq, hwrapper, Prod.mk.injEq, Bool.true_eq_false, false_and, false_or]
      exact and_comm
    · simp only [ConnectionPool.unMark, update_of_ne hname]
      exact and_iff_right fun heq => hname (congrArg Wrapper.name heq)

/-! ## The results -/

variable [DecidableEq C]

/-- **What one step keeps.** -/
theorem Linked.step (h : s.Linked) {event : Event C} (hstep : Step s event s') : s'.Linked := by
  cases hstep with
  | addConnector name => exact ⟨h.nodup, h.own, h.distinct, h.mem_iff⟩
  | @getConnection name made wrapper pool hfresh hget =>
      obtain ⟨conn, conns, hswitched, rfl, rfl⟩ | ⟨_, rfl, rfl⟩ :=
        ConnectionPool.getConnection_cases hget
      · exact h.acquire hswitched
      · exact h.make hfresh
  | refused => exact h
  | destroy hmem => exact h.release hmem

theorem Linked.exclusive (h : s.Linked) : s.Exclusive where
  distinct := h.distinct
  pooled := fun _ => h.mem_addresses
  inUse_iff := by
    intro name inUse conn hentry
    cases inUse with
    | true =>
        have hused : conn ∈ s.wrappers.map Wrapper.conn :=
          List.mem_map.mpr ⟨_, (h.mem_iff name conn).mpr hentry, rfl⟩
        exact iff_of_true rfl (List.count_eq_one_of_mem h.distinct hused)
    | false =>
        refine iff_of_false Bool.false_ne_true ?_
        rw [List.count_eq_zero_of_not_mem (h.unused hentry)]
        exact Nat.zero_ne_one

/-- Only a call that finds no connection available makes one. -/
theorem Linked.madeForNeed (h : s.Linked) {event : Event C} (hstep : Step s event s') :
    s.MadeForNeed s' := by
  have hkept : ∀ {pool : ConnectionPool C}, pool.addresses = s.pool.addresses →
      ∀ name conn, conn ∈ pool.addresses name → conn ∉ s.pool.addresses name →
        ∀ entry ∈ s.pool.connections name,
          entry.1 = true ∧ ∃ w ∈ s.wrappers, w.name = name ∧ w.conn = entry.2 :=
    fun heq name conn hnew hold => absurd (heq ▸ hnew) hold
  cases hstep with
  | addConnector name => exact hkept rfl
  | @getConnection name made wrapper pool hfresh hget =>
      obtain ⟨conn, conns, hswitched, rfl, rfl⟩ | ⟨hall, rfl, rfl⟩ :=
        ConnectionPool.getConnection_cases hget
      · exact hkept (addresses_update_of_switched hswitched)
      · intro name' conn hnew hold entry hentry
        by_cases hname : name' = name
        · subst hname
          have hflag := hall entry hentry
          refine ⟨hflag, { conn := entry.2, name := name' }, ?_, rfl, rfl⟩
          exact (h.mem_iff name' entry.2).mpr (hflag ▸ hentry)
        · -- the connections of another name stay
          simp only [ConnectionPool.addresses, update_of_ne hname] at hnew hold
          exact absurd hnew hold
  | refused => exact hkept rfl
  | @destroy w hmem =>
      exact hkept (addresses_update_of_switched
        (switched_clear ((h.mem_iff w.name w.conn).mp hmem)))

/-- **Every connection has at most one user**, in every state reached, and one is made only
if all others of its name have theirs. -/
theorem exclusive_run {events : List (Event C)} (h : Run Step {} events s) :
    s.Exclusive ∧ ∀ event s', Step s event s' → s.MadeForNeed s' := by
  have hlinked : s.Linked := h.state_invariant linked_start fun _ _ _ h hstep => h.step hstep
  exact ⟨hlinked.exclusive, fun _ _ hstep => hlinked.madeForNeed hstep⟩

/-- Two users after one another: there is one connection. -/
theorem exclusive_run_sample :
    ∃ s : Usage ℕ, s.wrappers = [⟨1, "osirose"⟩] ∧
      s.pool.connections "osirose" = [(true, 1)] ∧ s.Exclusive := by
  have hfirst : Run Step ({} : Usage ℕ)
      ([] ++ [.addConnector "osirose"] ++ [.getConnection "osirose" 1]) _ :=
    (Run.nil.snoc (Step.addConnector "osirose")).snoc
      (Step.getConnection (fun _ => List.not_mem_nil) rfl)
  have hsecond := hfirst.snoc (Step.destroy List.mem_cons_self)
  have hthird := hsecond.snoc (@Step.getConnection _ _ _ "osirose" 2 _ _ ?_ rfl)
  · exact ⟨_, rfl, rfl, (exclusive_run hthird).1⟩
  · intro name
    by_cases hname : name = "osirose"
    · subst hname
      decide
    · simp [ConnectionPool.addresses, ConnectionPool.unMark, ConnectionPool.addConnector, hname]

end Usage

end OsIrose.Core

/-
Groups with members and a leader.

A `Roster` keeps who is in which group twice: with each entity its group, and with each
group the list of its members. A group has a leader, and a group of one does not exist:
when a member of a group of two leaves, both are out (`Roster.leave`). `Roster.apply` gives
the actions on a roster, and `Roster.Enabled` says when an action makes sense; an enabled
action keeps a roster `Consistent`.
-/
import Mathlib.Data.List.Basic
import Mathlib.Data.List.Nodup
import Mathlib.Logic.Function.Basic

set_option autoImplicit false

namespace OsIrose.Groups

open Function

variable {ε γ : Type*} [DecidableEq ε] [DecidableEq γ]

@[ext]
structure Roster (ε γ : Type*) where
  group : ε → Option γ
  members : γ → List ε
  leader : γ → Option ε

inductive Action (ε γ : Type*)
  | stay
  /-- `b` follows the call of `a`, who leads the new group. -/
  | found (g : γ) (a b : ε)
  | join (e : ε) (g : γ)
  | leave (e : ε)
  | appoint (e : ε) (g : γ)

/-- Who is in a group afterwards, and was not before. -/
def Action.newcomers : Action ε γ → List ε
  | .found _ a b => [a, b]
  | .join e _ => [e]
  | _ => []

namespace Roster

/-- All members of the group are out. -/
def disband (r : Roster ε γ) (g : γ) : Roster ε γ where
  group e := if r.group e = some g then none else r.group e
  members := update r.members g []
  leader := update r.leader g none

/-- The member who leads the group after `e` has left it. -/
def successor (r : Roster ε γ) (g : γ) (e : ε) : Option ε :=
  if r.leader g = some e then ((r.members g).erase e).head? else r.leader g

def leave (r : Roster ε γ) (e : ε) : Roster ε γ :=
  match r.group e with
  | none => r
  | some g =>
      if (r.members g).length ≤ 2 then r.disband g
      else
        { group := update r.group e none
          members := update r.members g ((r.members g).erase e)
          leader := update r.leader g (r.successor g e) }

theorem leave_of_none {r : Roster ε γ} {e : ε} (h : r.group e = none) : r.leave e = r := by
  simp [leave, h]

theorem leave_of_pair {r : Roster ε γ} {e : ε} {g : γ} (h : r.group e = some g)
    (hlen : (r.members g).length ≤ 2) : r.leave e = r.disband g := by
  simp [leave, h, hlen]

theorem leave_of_many {r : Roster ε γ} {e : ε} {g : γ} (h : r.group e = some g)
    (hlen : 2 < (r.members g).length) :
    r.leave e =
      { group := update r.group e none
        members := update r.members g ((r.members g).erase e)
        leader := update r.leader g (r.successor g e) } := by
  simp [leave, h, Nat.not_le.mpr hlen]

def apply (r : Roster ε γ) : Action ε γ → Roster ε γ
  | .stay => r
  | .found g a b =>
      { group := update (update r.group a (some g)) b (some g)
        members := update r.members g [a, b]
        leader := update r.leader g (some a) }
  | .join e g =>
      { r with
        group := update r.group e (some g)
        members := update r.members g (r.members g ++ [e]) }
  | .leave e => r.leave e
  | .appoint e g => { r with leader := update r.leader g (some e) }

/-- The action makes sense. -/
def Enabled (r : Roster ε γ) : Action ε γ → Prop
  | .stay => True
  | .found g a b => a ≠ b ∧ r.group a = none ∧ r.group b = none ∧ r.members g = []
  | .join e g => r.group e = none ∧ r.members g ≠ []
  | .leave _ => True
  | .appoint e g => e ∈ r.members g

/-- What is recorded about a group agrees, and the group has a leader and a second member
if it has any. -/
structure Sound (r : Roster ε γ) (g : γ) : Prop where
  nodup : (r.members g).Nodup
  mem_iff : ∀ e, e ∈ r.members g ↔ r.group e = some g
  leader_mem : ∀ e, r.leader g = some e → e ∈ r.members g
  led : r.members g ≠ [] → r.leader g ≠ none
  two_le : r.members g ≠ [] → 2 ≤ (r.members g).length

def Consistent (r : Roster ε γ) : Prop :=
  ∀ g, r.Sound g

variable {r r' : Roster ε γ}

section

omit [DecidableEq ε] [DecidableEq γ]

/-- The frame rule: what is recorded about the group stays. -/
theorem Sound.congr {g : γ} (h : r.Sound g) (hmembers : r'.members g = r.members g)
    (hleader : r'.leader g = r.leader g)
    (hgroup : ∀ e, r'.group e = some g ↔ r.group e = some g) : r'.Sound g where
  nodup := hmembers ▸ h.nodup
  mem_iff e := by rw [hmembers, hgroup, h.mem_iff]
  leader_mem e he := hmembers ▸ h.leader_mem e (hleader ▸ he)
  led hne := hleader ▸ h.led (hmembers ▸ hne)
  two_le hne := hmembers ▸ h.two_le (hmembers ▸ hne)

theorem Sound.members_ne_nil {g : γ} (h : r.Sound g) {e : ε} (he : r.group e = some g) :
    r.members g ≠ [] :=
  List.ne_nil_of_mem ((h.mem_iff e).mpr he)

/-- A group without members, and of which nobody is a member, has no leader. -/
theorem Sound.of_nil {g : γ} (hmembers : r.members g = []) (hleader : r.leader g = none)
    (hgroup : ∀ e, r.group e ≠ some g) : r.Sound g where
  nodup := hmembers ▸ List.nodup_nil
  mem_iff e := by simp [hmembers, hgroup]
  leader_mem e he := by simp [hleader] at he
  led hne := absurd hmembers hne
  two_le hne := absurd hmembers hne

end

/-! ## What leaving does to the groups -/

theorem leave_members_of_ne {e : ε} {g : γ} (h : r.group e ≠ some g) :
    (r.leave e).members g = r.members g ∧ (r.leave e).leader g = r.leader g := by
  cases hgroup : r.group e with
  | none => simp [leave_of_none hgroup]
  | some g' =>
      have hg : g ≠ g' := fun hg => h (hg ▸ hgroup)
      by_cases hlen : (r.members g').length ≤ 2
      · simp [leave_of_pair hgroup hlen, Roster.disband, hg]
      · simp [leave_of_many hgroup (Nat.not_le.mp hlen), hg]

theorem group_leave {e e' : ε} {g : γ} (h : (r.leave e).group e' = some g) :
    e' ≠ e ∧ r.group e' = some g := by
  cases hgroup : r.group e with
  | none =>
      rw [leave_of_none hgroup] at h
      refine ⟨?_, h⟩
      rintro rfl
      rw [hgroup] at h
      exact absurd h (by simp)
  | some g' =>
      by_cases hlen : (r.members g').length ≤ 2
      · rw [leave_of_pair hgroup hlen] at h
        have hdisband : (if r.group e' = some g' then none else r.group e') = some g := h
        split_ifs at hdisband with hmate
        refine ⟨?_, hdisband⟩
        rintro rfl
        exact hmate hgroup
      · rw [leave_of_many hgroup (Nat.not_le.mp hlen)] at h
        have hupdate : update r.group e none e' = some g := h
        have hne : e' ≠ e := by
          rintro rfl
          rw [update_self] at hupdate
          exact absurd hupdate (by simp)
        rw [update_of_ne hne] at hupdate
        exact ⟨hne, hupdate⟩

theorem length_leave_le (r : Roster ε γ) (e : ε) (g : γ) :
    ((r.leave e).members g).length ≤ (r.members g).length := by
  by_cases hgroup : r.group e = some g
  · by_cases hlen : (r.members g).length ≤ 2
    · simp [leave_of_pair hgroup hlen, Roster.disband]
    · simpa [leave_of_many hgroup (Nat.not_le.mp hlen)] using List.length_erase_le
  · exact Nat.le_of_eq (congrArg _ (leave_members_of_ne hgroup).1)

/-- Nobody else comes into a group. -/
theorem group_apply {a : Action ε γ} {e : ε} {g : γ} (h : (r.apply a).group e = some g) :
    r.group e = some g ∨ e ∈ a.newcomers := by
  cases a with
  | stay => exact Or.inl h
  | found g' a b =>
      by_cases hb : e = b
      · exact Or.inr (by simp [Action.newcomers, hb])
      by_cases ha : e = a
      · exact Or.inr (by simp [Action.newcomers, ha])
      have hupdate : update (update r.group a (some g')) b (some g') e = some g := h
      rw [update_of_ne hb, update_of_ne ha] at hupdate
      exact Or.inl hupdate
  | join e' g' =>
      by_cases he : e = e'
      · exact Or.inr (by simp [Action.newcomers, he])
      have hupdate : update r.group e' (some g') e = some g := h
      rw [update_of_ne he] at hupdate
      exact Or.inl hupdate
  | leave e' => exact Or.inl (group_leave h).2
  | appoint e' g' => exact Or.inl h

/-- No group has more than `n` members. -/
def Fits (n : ℕ) (r : Roster ε γ) : Prop :=
  ∀ g, (r.members g).length ≤ n

/-- A bound on the size of the groups is broken by joining a group of that size only. -/
theorem Fits.apply_iff {n : ℕ} (h : r.Fits n) (hn : 2 ≤ n) (a : Action ε γ) :
    (r.apply a).Fits n ↔ ¬ ∃ e g, a = .join e g ∧ n ≤ (r.members g).length := by
  match a with
  | .stay => simpa [Roster.apply] using h
  | .found g a b =>
      refine iff_of_true (fun g' => ?_) (by simp)
      by_cases hg : g' = g
      · simpa [Roster.apply, hg] using hn
      · simpa [Roster.apply, hg] using h g'
  | .join e g =>
      constructor
      · rintro hfits ⟨_, _, heq, hle⟩
        obtain ⟨rfl, rfl⟩ := Action.join.inj heq
        have hlen := hfits g
        simp only [Roster.apply, update_self, List.length_append, List.length_singleton] at hlen
        omega
      · intro hjoins g'
        have hlt : (r.members g).length < n := Nat.not_le.mp (fun hle => hjoins ⟨e, g, rfl, hle⟩)
        by_cases hg : g' = g
        · simpa [Roster.apply, hg, Nat.succ_le_iff] using hlt
        · simpa [Roster.apply, hg] using h g'
  | .leave e =>
      exact iff_of_true (fun g => Nat.le_trans (length_leave_le r e g) (h g)) (by simp)
  | .appoint e g => exact iff_of_true h (by simp)

/-! ## Every action keeps the roster consistent -/

omit [DecidableEq ε] in
theorem Consistent.disband (h : r.Consistent) (g : γ) : (r.disband g).Consistent := by
  intro g'
  by_cases hg : g' = g
  · refine .of_nil (by simp [Roster.disband, hg]) (by simp [Roster.disband, hg]) (fun e => ?_)
    simp only [Roster.disband, hg]
    split <;> simp_all
  · refine (h g').congr (update_of_ne hg _ _) (update_of_ne hg _ _) (fun e => ?_)
    simp only [Roster.disband]
    split
    · rename_i he
      simp [he, Ne.symm hg]
    · rfl

omit [DecidableEq γ] in
theorem successor_mem (h : r.Consistent) {g : γ} {e l : ε} (hl : r.successor g e = some l) :
    l ∈ (r.members g).erase e := by
  simp only [successor] at hl
  split at hl
  · exact List.mem_of_mem_head? hl
  · rename_i hne
    have hle : l ≠ e := fun heq => hne (heq ▸ hl)
    exact (List.mem_erase_of_ne hle).mpr ((h g).leader_mem l hl)

theorem Consistent.leave (h : r.Consistent) (e : ε) : (r.leave e).Consistent := by
  cases hgroup : r.group e with
  | none => rwa [leave_of_none hgroup]
  | some g =>
      by_cases hlen : (r.members g).length ≤ 2
      · rw [leave_of_pair hgroup hlen]
        exact h.disband g
      · rw [leave_of_many hgroup (Nat.not_le.mp hlen)]
        have hmem : e ∈ r.members g := ((h g).mem_iff e).mpr hgroup
        have hrest : 2 ≤ ((r.members g).erase e).length := by
          rw [List.length_erase_of_mem hmem]
          omega
        intro g'
        by_cases hg : g' = g
        · subst hg
          refine ⟨by simpa using (h g').nodup.erase e, fun x => ?_, fun l hl => ?_, fun _ => ?_,
            fun _ => by simpa using hrest⟩
          · by_cases hx : x = e
            · simp [hx, (h g').nodup.not_mem_erase]
            · simp [hx, List.mem_erase_of_ne hx, (h g').mem_iff]
          · simpa using successor_mem h (by simpa using hl)
          · simp only [update_self, successor]
            split
            · rw [Ne, List.head?_eq_none_iff, ← List.length_eq_zero_iff]
              omega
            · exact (h g').led (List.ne_nil_of_mem hmem)
        · refine (h g').congr (update_of_ne hg _ _) (update_of_ne hg _ _) (fun x => ?_)
          by_cases hx : x = e
          · simp [hx, hgroup, Ne.symm hg]
          · simp [hx]

theorem Consistent.apply (h : r.Consistent) {a : Action ε γ} (ha : r.Enabled a) :
    (r.apply a).Consistent := by
  match a with
  | .stay => exact h
  | .found g a b =>
      obtain ⟨hne, hga, hgb, hnil⟩ := ha
      intro g'
      by_cases hg : g' = g
      · subst hg
        have hnone : ∀ e, r.group e ≠ some g' := fun e he => (h g').members_ne_nil he hnil
        refine ⟨by simpa [Roster.apply] using hne, fun e => ?_, fun l hl => ?_, ?_, ?_⟩
        · by_cases heb : e = b
          · simp [Roster.apply, heb]
          · by_cases hea : e = a
            · simp [Roster.apply, hea, update_of_ne hne]
            · simp [Roster.apply, heb, hea, hnone]
        · have hla : l = a := by simpa [Roster.apply, eq_comm] using hl
          simp [Roster.apply, hla]
        · simp [Roster.apply]
        · simp [Roster.apply]
      · refine (h g').congr (update_of_ne hg _ _) (update_of_ne hg _ _) (fun e => ?_)
        by_cases heb : e = b
        · simp [Roster.apply, heb, hgb, Ne.symm hg]
        · by_cases hea : e = a
          · simp [Roster.apply, hea, update_of_ne hne, hga, Ne.symm hg]
          · simp [Roster.apply, heb, hea]
  | .join e g =>
      obtain ⟨hgroup, hne⟩ := ha
      intro g'
      by_cases hg : g' = g
      · subst hg
        have hmem : e ∉ r.members g' := by simp [(h g').mem_iff, hgroup]
        refine ⟨?_, fun x => ?_, fun l hl => ?_, fun _ => (h g').led hne, fun _ => ?_⟩
        · simpa [Roster.apply, List.nodup_append, hmem] using
            ⟨(h g').nodup, fun x hx heq => hmem (heq ▸ hx)⟩
        · by_cases hx : x = e
          · simp [Roster.apply, hx]
          · simp [Roster.apply, hx, (h g').mem_iff]
        · simp [Roster.apply, (h g').leader_mem l hl]
        · have hlen := (h g').two_le hne
          simp only [Roster.apply, update_self, List.length_append]
          omega
      · refine (h g').congr (update_of_ne hg _ _) rfl (fun x => ?_)
        by_cases hx : x = e
        · simp [Roster.apply, hx, hgroup, Ne.symm hg]
        · simp [Roster.apply, hx]
  | .leave e => exact h.leave e
  | .appoint e g =>
      intro g'
      by_cases hg : g' = g
      · subst hg
        refine ⟨(h g').nodup, (h g').mem_iff, fun l hl => ?_, fun _ => ?_, (h g').two_le⟩
        · have hle : l = e := by simpa [Roster.apply, eq_comm] using hl
          exact hle ▸ ha
        · simp [Roster.apply]
      · exact (h g').congr rfl (update_of_ne hg _ _) (fun _ => Iff.rfl)

end Roster

end OsIrose.Groups

/-
The rules of a party: how many members it has, and who may put others out of it.

`capacity_` is declared and never looked at, so a party grows past it when an accepted
reply finds it full (`fits_iff`). A hand-over is for the leader alone, and so is putting
out others, with two exceptions: whoever leaves a party of two takes the other one along
(`authorised_of_not_kick`), and a `KICK` is taken from any member.
-/
import OsIrose.PartyRoster

set_option autoImplicit false

namespace OsIrose.Parties

open Function Groups Runs

variable {w : World}

/-! ## The size of a party -/

/-- No party has more members than its capacity. -/
def World.Fits (w : World) : Prop :=
  ∀ p, w.InUse p → (w.bases p).members.length ≤ (w.bases p).capacity

theorem World.Inv.fits_roster_iff (h : w.Inv) : w.Fits ↔ w.roster.Fits 5 := by
  have hcapacity : ∀ p, (w.bases p).capacity = 5 := h.capacity
  refine ⟨fun hfits p => ?_, fun hfits p _ => by simpa [hcapacity] using hfits p⟩
  rcases List.eq_nil_or_concat (w.bases p).members with hnil | ⟨rest, e, hcons⟩
  · simp [hnil]
  · have he : w.group e = some p := h.mem_iff.mp (by simp [hcons])
    simpa [hcapacity] using hfits p ⟨e, he⟩

/-- An accepted reply gets an entity into a party that has as many members as it may. -/
def Overfills (w : World) (ev : Event) : Prop :=
  ∃ e p, action w ev = .join e p ∧ (w.bases p).capacity ≤ (w.bases p).members.length

/-- Every party of a run keeps to its capacity exactly as long as no reply is accepted into
a party that is full. -/
theorem fits_iff (env : Env) (es : List Event) :
    (∀ p, p <+: es → (p.foldl next (start env)).Fits) ↔
      ∀ p ev, p ++ [ev] <+: es → ¬ Overfills (p.foldl next (start env)) ev := by
  refine @foldl_reached_iff _ _ (start env) next World.Inv World.Fits
    (fun w ev => ¬ Overfills w ev) (fun _ ev h => h.next ev) (fun w ev h hfits => ?_)
    (inv_start env) (fun p _ => by simp [start]) es
  rw [(h.next ev).fits_roster_iff, (next_effect w ev).roster h,
    (h.fits_roster_iff.mp hfits).apply_iff (by decide)]
  simp [Overfills, h.capacity]

/-- A party of six. -/
theorem six_members :
    ¬ ∀ (env : Env) (es : List Event), (es.foldl next (start env)).Fits := by
  intro h
  let es := invite .MAKE .ACCEPT_MAKE 1 2 ++ invite .JOIN .ACCEPT_JOIN 1 3 ++
    invite .JOIN .ACCEPT_JOIN 1 4 ++ invite .JOIN .ACCEPT_JOIN 1 5 ++ invite .JOIN .ACCEPT_JOIN 1 6
  have hgroup : (es.foldl next (start everyone)).group 1 = some 0 := by decide +kernel
  have hmembers : ((es.foldl next (start everyone)).bases 0).members.length = 6 := by
    decide +kernel
  have hcapacity : ((es.foldl next (start everyone)).bases 0).capacity = 5 := by decide +kernel
  have hfits := h everyone es 0 ⟨1, hgroup⟩
  omega

/-! ## Who decides about whom -/

/-- Whoever does not lead the party `p` leaves the other members and the leadership as they
were. -/
structure Untouched (w w' : World) (e : Entity) (p : Addr) : Prop where
  members : ∀ x, x ≠ e → (x ∈ (w'.bases p).members ↔ x ∈ (w.bases p).members)
  leader : (w'.bases p).leader = (w.bases p).leader

/-- What a request does to a party that its sender does not lead. -/
def Authorised (w : World) (e : Entity) (packet : CliPartyReq) : Prop :=
  ∀ p, w.InUse p → (w.bases p).leader ≠ e → Untouched w (next w (.req e packet)) e p

theorem untouched_of_roster {w' : World} {e : Entity} {p : Addr}
    (hne : (w.bases p).members ≠ []) (hmembers : w'.roster.members p = w.roster.members p)
    (hleader : w'.roster.leader p = w.roster.leader p) : Untouched w w' e p where
  members x _ := by
    have hsame : (w'.bases p).members = (w.bases p).members := hmembers
    rw [hsame]
  leader := by
    have hsame : (w'.bases p).members = (w.bases p).members := hmembers
    rw [World.roster_leader hne, World.roster_leader (hsame ▸ hne)] at hleader
    exact Option.some.inj hleader

/-- The actions of a request. -/
theorem action_req (w : World) (e : Entity) (packet : CliPartyReq) :
    action w (.req e packet) = .stay ∨
    (action w (.req e packet) = .leave e ∧ packet.request = .LEFT) ∨
    (∃ other p, action w (.req e packet) = .appoint other p ∧ (w.bases p).leader = e) ∨
    (∃ other p, action w (.req e packet) = .leave other ∧ packet.request = .KICK ∧
      w.group e = some p ∧ other ∈ (w.bases p).members) := by
  cases hfind : w.find packet.idXorTag with
  | none => exact .inl (by simp [action, hfind])
  | some other =>
      cases hrequest : packet.request with
      | MAKE | JOIN | other => exact .inl (by simp [action, hfind, hrequest])
      | LEFT => exact .inr (.inl ⟨by simp [action, hfind, hrequest], rfl⟩)
      | CHANGE_OWNER =>
          cases hgroup : w.group e with
          | none => exact .inl (by simp [action, hfind, hrequest, hgroup])
          | some p =>
              by_cases hleads : (w.bases p).leader = e ∧ other ∈ (w.bases p).members
              · exact .inr (.inr (.inl ⟨other, p, by simp [action, hfind, hrequest, hgroup, hleads],
                  hleads.1⟩))
              · exact .inl (by simp [action, hfind, hrequest, hgroup, hleads])
      | KICK =>
          cases hgroup : w.group e with
          | none => exact .inl (by simp [action, hfind, hrequest, hgroup])
          | some p =>
              by_cases hmem : other ∈ (w.bases p).members
              · exact .inr (.inr (.inr ⟨other, p,
                  by simp [action, hfind, hrequest, hgroup, hmem], rfl, rfl, hmem⟩))
              · exact .inl (by simp [action, hfind, hrequest, hgroup, hmem])

/-- A member that does not lead the party leaves it: the others stay, unless it was a party
of two. -/
theorem World.Inv.untouched_of_leave (h : w.Inv) {w' : World} {e : Entity} {p : Addr}
    (hroster : w'.roster = w.roster.leave e) (hgroup : w.group e = some p)
    (hleads : (w.bases p).leader ≠ e) (hlen : 2 < (w.bases p).members.length) :
    Untouched w w' e p := by
  have hmem : e ∈ (w.bases p).members := h.mem_iff.mpr hgroup
  have hleader : (w.bases p).leader ∈ (w.bases p).members.erase e :=
    (List.mem_erase_of_ne hleads).mpr (h.leader_mem (List.ne_nil_of_mem hmem))
  rw [@Roster.leave_of_many _ _ _ _ w.roster e p hgroup hlen] at hroster
  have hmembers : (w'.bases p).members = (w.bases p).members.erase e := by
    simpa using congrFun (congrArg Roster.members hroster) p
  refine ⟨fun x hx => by rw [hmembers, List.mem_erase_of_ne hx], ?_⟩
  have hsame := congrFun (congrArg Roster.leader hroster) p
  rw [World.roster_leader (by simpa [hmembers] using List.ne_nil_of_mem hleader)] at hsame
  simpa [Roster.successor, World.roster_leader (List.ne_nil_of_mem hmem), hleads] using hsame

/-- **A request of a member that does not lead the party** leaves the other members and the
leadership alone, apart from the end of a party of two. -/
theorem authorised_of_not_kick (env : Env) (es : List Event) (e : Entity) (packet : CliPartyReq)
    (hkick : packet.request = .KICK → ∀ p, (es.foldl next (start env)).group e = some p →
      ((es.foldl next (start env)).bases p).leader = e)
    (p : Addr) (huse : (es.foldl next (start env)).InUse p)
    (hleads : ((es.foldl next (start env)).bases p).leader ≠ e) :
    Untouched (es.foldl next (start env)) (next (es.foldl next (start env)) (.req e packet)) e p ∨
      (packet.request = .LEFT ∧ (es.foldl next (start env)).group e = some p ∧
        ((es.foldl next (start env)).bases p).members.length = 2 ∧
        ((next (es.foldl next (start env)) (.req e packet)).bases p).members = []) := by
  have h := inv_foldl env es
  generalize es.foldl next (start env) = w at *
  obtain ⟨x, hx⟩ := huse
  have hne : (w.bases p).members ≠ [] := List.ne_nil_of_mem (h.mem_iff.mpr hx)
  have hroster := (next_effect w (.req e packet)).roster h
  rcases action_req w e packet with hact | ⟨hact, hrequest⟩ | ⟨other, q, hact, hq⟩ |
    ⟨other, q, hact, hrequest, hgroup, hmem⟩
  · left
    rw [hact] at hroster
    exact untouched_of_roster hne (by rw [hroster]; rfl) (by rw [hroster]; rfl)
  · rw [hact] at hroster
    by_cases hgroup : w.group e = some p
    · rcases Nat.lt_or_eq_of_le (h.two_le hgroup) with hlen | hlen
      · exact .inl (h.untouched_of_leave hroster hgroup hleads hlen)
      · refine .inr ⟨hrequest, hgroup, hlen.symm, ?_⟩
        have hpair := @Roster.leave_of_pair _ _ _ _ w.roster e p hgroup (Nat.le_of_eq hlen.symm)
        simpa [Roster.disband] using
          congrFun (congrArg Roster.members (hroster.trans hpair)) p
    · have hsame := @Roster.leave_members_of_ne _ _ _ _ w.roster e p hgroup
      exact .inl (untouched_of_roster hne (hroster ▸ hsame.1) (hroster ▸ hsame.2))
  · -- the party handed over is another one
    have hpq : p ≠ q := by
      rintro rfl
      exact hleads hq
    rw [hact] at hroster
    exact .inl (untouched_of_roster hne (by rw [hroster]; rfl)
      (by rw [hroster]; exact update_of_ne hpq _ _))
  · -- the sender leads the party it puts the other out of
    have hpq : w.group other ≠ some p := by
      intro hother
      rw [h.mem_iff.mp hmem] at hother
      exact hleads (Option.some.inj hother ▸ hkick hrequest q hgroup)
    rw [hact] at hroster
    have hsame := @Roster.leave_members_of_ne _ _ _ _ w.roster other p hpq
    exact .inl (untouched_of_roster hne (hroster ▸ hsame.1) (hroster ▸ hsame.2))

/-- In a party of three, a member that does not lead it leaves. -/
theorem authorised_left :
    let es := invite .MAKE .ACCEPT_MAKE 1 2 ++ invite .JOIN .ACCEPT_JOIN 1 3
    Untouched (es.foldl next (start everyone))
        (next (es.foldl next (start everyone)) (.req 2 ⟨.LEFT, 1⟩)) 2 0 ∨
      (Request.LEFT = .LEFT ∧ (es.foldl next (start everyone)).group 2 = some 0 ∧
        ((es.foldl next (start everyone)).bases 0).members.length = 2 ∧
        ((next (es.foldl next (start everyone)) (.req 2 ⟨.LEFT, 1⟩)).bases 0).members = []) :=
  authorised_of_not_kick everyone _ 2 ⟨.LEFT, 1⟩ (by simp) 0 ⟨1, by decide +kernel⟩
    (by decide +kernel)

/-- A member that does not lead the party leaves a party of two, and the leader is out. -/
theorem leader_left_alone :
    ¬ ∀ (env : Env) (es : List Event) (e : Entity) (packet : CliPartyReq),
      Authorised (es.foldl next (start env)) e packet := by
  intro h
  let es := invite .MAKE .ACCEPT_MAKE 1 2
  have huse : (es.foldl next (start everyone)).group 1 = some 0 := by decide +kernel
  have hleads : ((es.foldl next (start everyone)).bases 0).leader ≠ 2 := by decide +kernel
  have hbefore : 1 ∈ ((es.foldl next (start everyone)).bases 0).members := by decide +kernel
  have hafter :
      1 ∉ ((next (es.foldl next (start everyone)) (.req 2 ⟨.LEFT, 1⟩)).bases 0).members := by
    decide +kernel
  exact hafter (((h everyone es 2 ⟨.LEFT, 1⟩ 0 ⟨1, huse⟩ hleads).members 1 (by decide)).mpr hbefore)

end OsIrose.Parties

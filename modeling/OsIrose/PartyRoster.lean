/-
The parties as a roster of groups.

Seen without the packets and the pending requests, the party system is a `Groups.Roster`:
what an event does to it is an action that can be read off the event and the state
(`action`), and the event carries it out (`next_roster`). So the two records of the
membership always agree, and every party has a leader and a second member.

What goes wrong is on the way: when a member of a party of two leaves it, the callback
removes the component of the other one too, and `removeMember` then looks for a new leader
on a list without members (`next_faulted`).
-/
import OsIrose.Parties

set_option autoImplicit false

namespace OsIrose.Parties

open Function Groups Runs

/-- The replies that accept. -/
def Reply.accepts : Reply → Bool
  | .ACCEPT_MAKE | .ACCEPT_JOIN => true
  | _ => false

namespace World

/-- Who is in which party, and who leads it. -/
def roster (w : World) : Roster Entity Addr where
  group := w.group
  members p := (w.bases p).members
  leader p := if (w.bases p).members = [] then none else some (w.bases p).leader

@[simp] theorem roster_group (w : World) (e : Entity) : w.roster.group e = w.group e := rfl

@[simp] theorem roster_members (w : World) (p : Addr) :
    w.roster.members p = (w.bases p).members := rfl

theorem roster_leader {w : World} {p : Addr} (hne : (w.bases p).members ≠ []) :
    w.roster.leader p = some (w.bases p).leader := by
  simp [roster, hne]

/-- What every reachable state satisfies. -/
structure Inv (w : World) : Prop where
  consistent : w.roster.Consistent
  unused : ∀ p, w.fresh ≤ p → (w.bases p).members = []
  capacity : ∀ p, (w.bases p).capacity = 5

variable {w : World}

theorem group_of_component {e : Entity} {c : Party} (h : w.component e = some c) :
    w.group e = c.party := by
  simp [group, h]

theorem Inv.mem_iff (h : w.Inv) {p : Addr} {e : Entity} :
    e ∈ (w.bases p).members ↔ w.group e = some p :=
  (h.consistent p).mem_iff e

theorem Inv.leader_mem (h : w.Inv) {p : Addr} (hne : (w.bases p).members ≠ []) :
    (w.bases p).leader ∈ (w.bases p).members :=
  (h.consistent p).leader_mem _ (by simp [roster, hne])

theorem Inv.two_le (h : w.Inv) {p : Addr} {e : Entity} (he : w.group e = some p) :
    2 ≤ (w.bases p).members.length :=
  (h.consistent p).two_le ((h.consistent p).members_ne_nil he)

/-! ## What the removal of a component does -/

theorem removeFuel_of_no_party {e : Entity} (h : w.group e = none) (fuel : ℕ) :
    w.removeFuel fuel e = w.setComponent e none := by
  rw [removeFuel]
  cases hc : w.component e with
  | none => simp [setComponent, ← hc]
  | some c =>
      have hparty : c.party = none := by rw [← group_of_component hc, h]
      simp [hparty]

@[simp] theorem setComponent_setComponent (w : World) (e : Entity) (c c' : Option Party) :
    (w.setComponent e c).setComponent e c' = w.setComponent e c' := by
  simp [setComponent]

theorem removeParty_of_no_party {e : Entity} (h : w.group e = none) :
    w.removeParty e = w.setComponent e none := by
  simp [removeParty, h, removeFuel_of_no_party]

/-- The last member is removed from within the callback: `members_[0]` of nothing. -/
theorem removeFuel_of_last {e : Entity} {p : Addr} (hgroup : w.group e = some p)
    (hmembers : (w.bases p).members = [e]) (hleader : (w.bases p).leader = e) (fuel : ℕ) :
    ∃ sent, w.removeFuel fuel e =
      { w with
        component := Function.update w.component e none
        bases := Function.update w.bases p { w.bases p with members := [] }
        faulted := true
        sent := sent } := by
  obtain ⟨c, hc, hparty⟩ := Option.bind_eq_some_iff.mp hgroup
  rw [removeFuel]
  have hremove : (w.bases p).removeMember e =
      some ({ w.bases p with members := [] }, true) := by
    simp [PartyBase.removeMember, PartyBase.isMember, hmembers, hleader]
  cases fuel <;> exact ⟨_, by simp [hc, hparty, hremove, setBase, setComponent, send]; rfl⟩

/-- The leader of the party after `e` has left it. -/
def successor (base : PartyBase) (e : Entity) : Entity :=
  if base.leader = e then (base.members.erase e).headD e else base.leader

theorem removeMember_of_mem {base : PartyBase} {e : Entity} (hmem : e ∈ base.members)
    (hrest : base.members.erase e ≠ []) :
    base.removeMember e =
      some ({ base with members := base.members.erase e, leader := successor base e }, false) := by
  by_cases hleader : base.leader = e
  · cases hcons : base.members.erase e with
    | nil => exact absurd hcons hrest
    | cons first rest =>
        simp [PartyBase.removeMember, PartyBase.isMember, hmem, hleader, hcons, successor]
  · simp [PartyBase.removeMember, PartyBase.isMember, hmem, hleader, successor]

/-- Who stays in a party of three or more. -/
theorem Inv.erase_of_many (h : w.Inv) {e : Entity} {p : Addr} (hgroup : w.group e = some p)
    (hlen : 2 < (w.bases p).members.length) :
    ∃ first second rest, (w.bases p).members.erase e = first :: second :: rest := by
  have hlen' := List.length_erase_of_mem (h.mem_iff.mpr hgroup)
  match herase : (w.bases p).members.erase e with
  | [] | [_] => simp only [herase, List.length_nil, List.length_singleton] at hlen'; omega
  | first :: second :: rest => exact ⟨first, second, rest, rfl⟩

/-- Who stays in a party of two, and leads it by then. -/
theorem Inv.erase_of_two (h : w.Inv) {e : Entity} {p : Addr} (hgroup : w.group e = some p)
    (hlen : (w.bases p).members.length = 2) :
    ∃ last, (w.bases p).members.erase e = [last] ∧ successor (w.bases p) e = last ∧
      last ∈ (w.bases p).members := by
  have hmem := h.mem_iff.mpr hgroup
  obtain ⟨last, hlast⟩ : ∃ last, (w.bases p).members.erase e = [last] := by
    rw [← List.length_eq_one_iff, List.length_erase_of_mem hmem, hlen]
  have hleader : successor (w.bases p) e = last := by
    rw [successor]
    split
    · simp [hlast]
    · rename_i hne
      have hleads := h.leader_mem (List.ne_nil_of_mem hmem)
      rw [← List.mem_erase_of_ne hne, hlast, List.mem_singleton] at hleads
      exact hleads
  exact ⟨last, hlast, hleader, List.mem_of_mem_erase (hlast.symm ▸ List.mem_singleton_self last)⟩

/-- A party of three or more loses a member. -/
theorem Inv.removeParty_of_many (h : w.Inv) {e : Entity} {p : Addr}
    (hgroup : w.group e = some p) (hlen : 2 < (w.bases p).members.length) :
    ∃ sent, w.removeParty e =
      { w with
        component := Function.update w.component e none
        bases := Function.update w.bases p
          { w.bases p with
            members := (w.bases p).members.erase e
            leader := successor (w.bases p) e }
        sent := sent } := by
  obtain ⟨c, hc, hparty⟩ := Option.bind_eq_some_iff.mp hgroup
  have hmem := h.mem_iff.mpr hgroup
  obtain ⟨first, second, rest, hrest⟩ := h.erase_of_many hgroup hlen
  have hremove := removeMember_of_mem hmem (by simp [hrest])
  simp only [removeParty, hgroup]
  rw [removeFuel]
  exact ⟨_, by
    simp only [hc, hparty, hremove, setBase, setComponent, send, hrest, Bool.or_false]
    rfl⟩

/-- A party of two loses a member, and with it the other. -/
theorem Inv.removeParty_of_two (h : w.Inv) {e : Entity} {p : Addr}
    (hgroup : w.group e = some p) (hlen : (w.bases p).members.length = 2) :
    ∃ last sent, (w.bases p).members.erase e = [last] ∧ w.removeParty e =
      { w with
        component := Function.update (Function.update w.component last none) e none
        bases := Function.update w.bases p { w.bases p with members := [], leader := last }
        faulted := true
        sent := sent } := by
  obtain ⟨c, hc, hparty⟩ := Option.bind_eq_some_iff.mp hgroup
  have hmem := h.mem_iff.mpr hgroup
  obtain ⟨last, hlast, hleader, hmemlast⟩ := h.erase_of_two hgroup hlen
  have hremove := removeMember_of_mem hmem (by simp [hlast])
  -- the removal from within the callback, whatever has been sent by then
  have hnested : ∀ sent, ∃ sent', removeFuel 1
      { w with
        bases := Function.update w.bases p
          { w.bases p with members := [last], leader := last }
        sent := sent } last =
      { w with
        component := Function.update w.component last none
        bases := Function.update w.bases p { w.bases p with members := [], leader := last }
        faulted := true
        sent := sent' } := by
    intro sent
    obtain ⟨sent', hsent'⟩ := @removeFuel_of_last
      { w with
        bases := Function.update w.bases p { w.bases p with members := [last], leader := last }
        sent := sent } last p (h.mem_iff.mp hmemlast) (by simp) (by simp) 1
    exact ⟨sent', by simpa using hsent'⟩
  choose sent' hnested using hnested
  simp only [removeParty, hgroup]
  rw [removeFuel]
  exact ⟨last, _, hlast, by
    simp only [hc, hparty, hremove, setBase, setComponent, send, hlast, hleader, hlen,
      Bool.or_false, hnested]
    rfl⟩

/-- The entity is in a party of two. -/
def Paired (w : World) (e : Entity) : Prop :=
  ∃ p, w.group e = some p ∧ (w.bases p).members.length = 2

/-- The three things that the removal of a component can do. -/
theorem Inv.removeParty_cases (h : w.Inv) (e : Entity) :
    (w.group e = none ∧ w.removeParty e = w.setComponent e none) ∨
    (∃ p sent, w.group e = some p ∧ 2 < (w.bases p).members.length ∧ w.removeParty e =
      { w with
        component := Function.update w.component e none
        bases := Function.update w.bases p
          { w.bases p with
            members := (w.bases p).members.erase e
            leader := successor (w.bases p) e }
        sent := sent }) ∨
    (∃ p last sent, w.group e = some p ∧ (w.bases p).members.length = 2 ∧
      (w.bases p).members.erase e = [last] ∧ w.removeParty e =
      { w with
        component := Function.update (Function.update w.component last none) e none
        bases := Function.update w.bases p { w.bases p with members := [], leader := last }
        faulted := true
        sent := sent }) := by
  cases hgroup : w.group e with
  | none =>
      left
      exact ⟨rfl, removeParty_of_no_party hgroup⟩
  | some p =>
      right
      rcases Nat.lt_or_eq_of_le (h.two_le hgroup) with hlen | hlen
      · obtain ⟨sent, hsent⟩ := h.removeParty_of_many hgroup hlen
        exact .inl ⟨p, sent, rfl, hlen, hsent⟩
      · obtain ⟨last, sent, hlast, hsent⟩ := h.removeParty_of_two hgroup hlen.symm
        exact .inr ⟨p, last, sent, rfl, hlen.symm, hlast, hsent⟩

/-- The mark that an entity is kicked says nothing about its party. -/
theorem bind_party_kicked (w : World) (e : Entity) :
    ((w.component e).map fun c => { c with isKicked := true }).bind (·.party) = w.group e := by
  cases he : w.component e <;> simp [group, he]

theorem roster_setComponent {e : Entity} {c : Option Party}
    (h : c.bind (·.party) = w.group e) : (w.setComponent e c).roster = w.roster := by
  refine Roster.ext (funext fun x => ?_) rfl rfl
  by_cases hx : x = e
  · subst hx
    simpa [group, setComponent] using h
  · simp [group, setComponent, hx]

/-- **The removal of a component takes the entity out of its party.** -/
theorem Inv.roster_removeParty (h : w.Inv) (e : Entity) :
    (w.removeParty e).roster = w.roster.leave e := by
  rcases h.removeParty_cases e with ⟨hgroup, heq⟩ | ⟨p, sent, hgroup, hlen, heq⟩ |
    ⟨p, last, sent, hgroup, hlen, hlast, heq⟩
  · rw [heq, roster_setComponent (by simp [hgroup]), Roster.leave_of_none (by simp [hgroup])]
  · have hne : (w.bases p).members ≠ [] := List.ne_nil_of_length_pos (by omega)
    have hrest : (w.bases p).members.erase e ≠ [] := by
      apply List.ne_nil_of_length_pos
      rw [List.length_erase_of_mem (h.mem_iff.mpr hgroup)]
      omega
    rw [heq, @Roster.leave_of_many _ _ _ _ w.roster e p hgroup hlen]
    refine Roster.ext (funext fun x => ?_) (funext fun q => ?_) (funext fun q => ?_)
    · by_cases hx : x = e <;> simp [group, hx]
    · by_cases hq : q = p <;> simp [hq]
    · by_cases hq : q = p
      · subst hq
        rw [roster_leader (by simpa using hrest)]
        simp only [update_self, Roster.successor, roster_leader hne, roster_members, successor,
          Option.some.injEq]
        split
        · obtain ⟨first, rest, hcons⟩ := List.exists_cons_of_ne_nil hrest
          simp [hcons]
        · rfl
      · simp [roster, hq]
  · -- the members of the party are the one who leaves and the one who is left
    have hmem : ∀ x, w.group x = some p ↔ x = e ∨ x = last := by
      intro x
      rw [← h.mem_iff]
      by_cases hx : x = e
      · simp [hx, h.mem_iff, hgroup]
      · rw [← List.mem_erase_of_ne hx, hlast, List.mem_singleton]
        simp [hx]
    rw [heq, @Roster.leave_of_pair _ _ _ _ w.roster e p hgroup (Nat.le_of_eq hlen)]
    refine Roster.ext (funext fun x => ?_) (funext fun q => ?_) (funext fun q => ?_)
    · by_cases hx : x = e ∨ x = last
      · have hgone : (w.roster.disband p).group x = none := by
          simp [Roster.disband, (hmem x).mpr hx]
        rw [hgone]
        rcases hx with rfl | rfl
        · simp [group]
        · by_cases hxe : x = e <;> simp [group, hxe]
      · have hstays : (w.roster.disband p).group x = w.group x := by
          simp [Roster.disband, hmem x, hx]
        rw [hstays]
        simp [group, not_or.mp hx]
    · by_cases hq : q = p <;> simp [Roster.disband, hq]
    · by_cases hq : q = p <;> simp [roster, Roster.disband, hq]

/-! ## What the handlers do -/

/-- No party is made, and those without members stay so. -/
structure Keeps (w w' : World) : Prop where
  fresh : w'.fresh = w.fresh
  capacity : ∀ p, (w'.bases p).capacity = (w.bases p).capacity
  unused : ∀ p, (w.bases p).members = [] → (w'.bases p).members = []

theorem Keeps.inv {w' : World} (hkeeps : Keeps w w') (h : w.Inv)
    (hconsistent : w'.roster.Consistent) : w'.Inv where
  consistent := hconsistent
  unused p hp := hkeeps.unused p (h.unused p (hkeeps.fresh ▸ hp))
  capacity p := (hkeeps.capacity p).trans (h.capacity p)

theorem keeps_of_update {w' : World} {p : Addr} {base : PartyBase} (hfresh : w'.fresh = w.fresh)
    (hbases : w'.bases = Function.update w.bases p base)
    (hcapacity : base.capacity = (w.bases p).capacity)
    (hunused : (w.bases p).members = [] → base.members = []) : Keeps w w' := by
  refine ⟨hfresh, fun q => ?_, fun q hnil => ?_⟩
  · by_cases hq : q = p <;> simp [hbases, hq, hcapacity]
  · by_cases hq : q = p
    · subst hq
      simpa [hbases] using hunused hnil
    · simpa [hbases, hq] using hnil

theorem Inv.keeps_removeParty (h : w.Inv) (e : Entity) : Keeps w (w.removeParty e) := by
  rcases h.removeParty_cases e with ⟨_, heq⟩ | ⟨p, _, _, _, heq⟩ | ⟨p, _, _, _, _, _, heq⟩
  · rw [heq]
    exact ⟨rfl, fun _ => rfl, fun _ hnil => hnil⟩
  · rw [heq]
    exact keeps_of_update rfl rfl rfl (fun hnil => by simp [hnil])
  · rw [heq]
    exact keeps_of_update rfl rfl rfl (fun _ => rfl)

theorem Inv.faulted_removeParty (h : w.Inv) (e : Entity) :
    (w.removeParty e).faulted = true ↔ w.faulted = true ∨ w.Paired e := by
  rcases h.removeParty_cases e with ⟨hgroup, heq⟩ | ⟨p, _, hgroup, hlen, heq⟩ |
    ⟨p, _, _, hgroup, hlen, _, heq⟩
  · simp [heq, setComponent, Paired, hgroup]
  · have hne : (w.bases p).members.length ≠ 2 := Nat.ne_of_gt hlen
    simp [heq, Paired, hgroup, hne]
  · simp [heq, Paired, hgroup, hlen]

@[simp] theorem send_roster (targets : List Entity) (packet : Packet) :
    (w.send targets packet).roster = w.roster := rfl

@[simp] theorem send_component (targets : List Entity) (packet : Packet) :
    (w.send targets packet).component = w.component := rfl

theorem addPartyMember_of_old {leader newMember : Entity}
    (h : (w.component newMember).isSome) : w.addPartyMember leader newMember = w := by
  cases hleader : w.component leader <;> simp [addPartyMember, hleader, h]

/-- What `addPartyMember` does where the inviter has a party. -/
theorem addPartyMember_of_party {leader newMember : Entity} {c : Party} {p : Addr}
    (hleader : w.component leader = some c) (hnew : w.component newMember = none)
    (hparty : c.party = some p) :
    ∃ sent, w.addPartyMember leader newMember =
      { w with
        component := Function.update w.component newMember (some { party := some p })
        bases := Function.update w.bases p ((w.bases p).addMember newMember)
        sent := sent } :=
  ⟨_, by simp only [addPartyMember, hleader, hnew, hparty, setComponent, send, setBase]; rfl⟩

/-- What it does where the party has yet to be made. -/
theorem addPartyMember_of_request {leader newMember : Entity} {c : Party}
    (hleader : w.component leader = some c) (hnew : w.component newMember = none)
    (hparty : c.party = none) :
    ∃ sent, w.addPartyMember leader newMember =
      { w with
        component := Function.update
          (Function.update w.component leader (some { c with party := some w.fresh }))
          newMember (some { party := some w.fresh })
        bases := Function.update w.bases w.fresh ((PartyBase.make leader).addMember newMember)
        fresh := w.fresh + 1
        sent := sent } :=
  ⟨_, by
    simp only [addPartyMember, hleader, hnew, hparty, setComponent, send, setBase, update_self,
      update_idem]
    rfl⟩

/-- The inviter, with its component, into whose party the reply gets the entity. -/
def admits (w : World) (entity : Entity) (packet : CliPartyReply) : Option (Entity × Party) := do
  let other ← w.find packet.idXorTag
  let c ← w.component other
  if c.isRequested && packet.reply.accepts && (w.component entity).isNone then
    some (other, c)
  else none

theorem admits_eq_some {entity other : Entity} {packet : CliPartyReply} {c : Party} :
    w.admits entity packet = some (other, c) ↔
      w.find packet.idXorTag = some other ∧ w.component other = some c ∧
        (c.isRequested = true ∧ packet.reply.accepts = true) ∧ w.component entity = none := by
  simp only [admits, Option.bind_eq_bind, Option.bind_eq_some_iff, Option.ite_none_right_eq_some,
    Bool.and_eq_true, Option.isNone_iff_eq_none, Option.some.injEq, Prod.mk.injEq]
  constructor
  · rintro ⟨_, hfind, _, hc, hjoins, rfl, rfl⟩
    exact ⟨hfind, hc, hjoins⟩
  · rintro ⟨hfind, hc, hjoins⟩
    exact ⟨other, hfind, c, hc, hjoins, rfl, rfl⟩

theorem processPartyReply_of_admits {entity other : Entity} {packet : CliPartyReply} {c : Party}
    (h : w.admits entity packet = some (other, c)) :
    w.processPartyReply entity packet =
      ((w.setComponent other (some { c with isRequested := false })).send [other]
        (.partyReply packet.reply entity)).addPartyMember other entity := by
  obtain ⟨hfind, hc, ⟨hrequested, haccepts⟩, -⟩ := admits_eq_some.mp h
  simp only [processPartyReply, hfind, hc, hrequested]
  match hreply : packet.reply, haccepts with
  | .ACCEPT_MAKE, _ => rfl
  | .ACCEPT_JOIN, _ => rfl

theorem processPartyReply_of_declined {entity other : Entity} {packet : CliPartyReply} {c : Party}
    (hfind : w.find packet.idXorTag = some other) (hc : w.component other = some c)
    (hrequested : c.isRequested = true) (hreply : packet.reply = .BUSY ∨ packet.reply = .REJECT) :
    w.processPartyReply entity packet =
      (w.setComponent other
        (if c.party.isNone then none else some { c with isRequested := false })).send [other]
        (.partyReply packet.reply entity) := by
  cases hparty : c.party with
  | none =>
      have hremove := @removeParty_of_no_party
        (w.setComponent other (some { c with isRequested := false })) other
        (by simp [group, setComponent, hparty])
      rw [hparty, setComponent_setComponent] at hremove
      rcases hreply with hreply | hreply <;>
        simp [processPartyReply, hfind, hc, hrequested, hreply, hparty, hremove]
  | some p =>
      rcases hreply with hreply | hreply <;>
        simp [processPartyReply, hfind, hc, hrequested, hreply, hparty]

/-- An entity with a component accepts: the request is answered, and that is all. -/
theorem processPartyReply_of_old {entity other : Entity} {packet : CliPartyReply} {c : Party}
    (hfind : w.find packet.idXorTag = some other) (hc : w.component other = some c)
    (hrequested : c.isRequested = true) (haccepts : packet.reply.accepts = true)
    (hold : (w.component entity).isSome) :
    w.processPartyReply entity packet =
      (w.setComponent other (some { c with isRequested := false })).send [other]
        (.partyReply packet.reply entity) := by
  have hold' : ((w.setComponent other (some { c with isRequested := false })).component
      entity).isSome := by
    by_cases he : entity = other
    · simp [setComponent, he]
    · simpa [setComponent, he] using hold
  match hreply : packet.reply, haccepts with
  | .ACCEPT_MAKE, _ | .ACCEPT_JOIN, _ =>
      simp [processPartyReply, hfind, hc, hrequested, hreply, addPartyMember_of_old, hold']

/-- A reply that gets nobody into a party at most answers the request. -/
theorem processPartyReply_of_not_admits {entity : Entity} {packet : CliPartyReply}
    (h : w.admits entity packet = none) :
    w.processPartyReply entity packet = w ∨
    ∃ other c c', w.component other = some c ∧ c'.bind (·.party) = c.party ∧
      w.processPartyReply entity packet =
        (w.setComponent other c').send [other] (.partyReply packet.reply entity) := by
  cases hfind : w.find packet.idXorTag with
  | none => simp [processPartyReply, hfind]
  | some other =>
      cases hc : w.component other with
      | none => simp [processPartyReply, hfind, hc]
      | some c =>
          cases hrequested : c.isRequested with
          | false => simp [processPartyReply, hfind, hc, hrequested]
          | true =>
              -- an accepting reply comes from an entity with a component
              have hold : packet.reply.accepts = true → (w.component entity).isSome := by
                intro haccepts
                by_contra hnew
                have hnone : w.component entity = none := by simpa using hnew
                rw [admits_eq_some.mpr ⟨hfind, hc, ⟨hrequested, haccepts⟩, hnone⟩] at h
                exact absurd h (by simp)
              match hreply : packet.reply with
              | .BUSY | .REJECT =>
                  refine .inr ⟨other, c, _, hc, ?_, hreply ▸ processPartyReply_of_declined hfind hc
                    hrequested (by simp [hreply])⟩
                  split <;> simp_all
              | .ACCEPT_MAKE | .ACCEPT_JOIN =>
                  exact .inr ⟨other, c, _, hc, rfl, hreply ▸ processPartyReply_of_old hfind hc
                    hrequested (by simp [hreply, Reply.accepts])
                    (hold (by simp [hreply, Reply.accepts]))⟩
              | .NOT_FOUND | .DESTROY | .FULL_MEMBERS | .INVALID_LEVEL | .CHANGE_OWNER
              | .CHANGE_OWNER_DISCONNECT | .NO_CHANGE_TARGET | .KICK | .DISCONNECT | .REJOIN
              | .other _ => simp [processPartyReply, hfind, hc, hrequested, hreply]

theorem Inv.send (h : w.Inv) (targets : List Entity) (packet : Packet) :
    (w.send targets packet).Inv where
  consistent := h.consistent
  unused := h.unused
  capacity := h.capacity

theorem Inv.setComponent (h : w.Inv) {e : Entity} {c : Option Party}
    (hc : c.bind (·.party) = w.group e) : (w.setComponent e c).Inv where
  consistent := (roster_setComponent hc).symm ▸ h.consistent
  unused := h.unused
  capacity := h.capacity

theorem changeLeader_of_mem {leader newLeader : Entity} {p : Addr}
    (hgroup : w.group leader = some p) (hmem : newLeader ∈ (w.bases p).members) :
    ∃ sent, w.changeLeader leader newLeader =
      { w with
        bases := Function.update w.bases p { w.bases p with leader := newLeader }
        sent := sent } := by
  by_cases hsame : newLeader = (w.bases p).leader
  · refine ⟨w.sent, ?_⟩
    simp [changeLeader, hgroup, PartyBase.changeLeader, hsame]
  · exact ⟨_, by
      simp only [changeLeader, hgroup, PartyBase.changeLeader, PartyBase.isMember, hmem, hsame,
        setBase, send]
      rfl⟩

theorem changeLeader_of_not_mem {leader newLeader : Entity} {p : Addr}
    (hgroup : w.group leader = some p) (hmem : newLeader ∉ (w.bases p).members) :
    w.changeLeader leader newLeader = w := by
  simp [changeLeader, hgroup, PartyBase.changeLeader, PartyBase.isMember, hmem]

/-- The hand-over of a party appoints the new leader. -/
theorem roster_changeLeader {leader newLeader : Entity} {p : Addr}
    (hgroup : w.group leader = some p) (hmem : newLeader ∈ (w.bases p).members) :
    (w.changeLeader leader newLeader).roster = w.roster.apply (.appoint newLeader p) := by
  obtain ⟨sent, heq⟩ := changeLeader_of_mem hgroup hmem
  rw [heq]
  refine Roster.ext rfl (funext fun q => ?_) (funext fun q => ?_)
  · by_cases hq : q = p <;> simp [Roster.apply, hq]
  · by_cases hq : q = p
    · subst hq
      simp [Roster.apply, roster, List.ne_nil_of_mem hmem]
    · simp [Roster.apply, roster, hq]

/-- A new member joins the party of the inviter, or founds one with it. -/
theorem Inv.roster_addPartyMember (h : w.Inv) {leader newMember : Entity} {c : Party}
    (hleader : w.component leader = some c) (hnew : w.component newMember = none) :
    (w.addPartyMember leader newMember).roster = w.roster.apply
      (match c.party with
        | none => .found w.fresh leader newMember
        | some p => .join newMember p) := by
  have hgroup : w.group newMember = none := by simp [group, hnew]
  cases hparty : c.party with
  | some p =>
      obtain ⟨sent, heq⟩ := addPartyMember_of_party hleader hnew hparty
      have hmem : newMember ∉ (w.bases p).members := by simp [h.mem_iff, hgroup]
      have hne : (w.bases p).members ≠ [] :=
        List.ne_nil_of_mem (h.mem_iff.mpr ((group_of_component hleader).trans hparty))
      rw [heq]
      refine Roster.ext (funext fun x => ?_) (funext fun q => ?_) (funext fun q => ?_)
      · by_cases hx : x = newMember <;> simp [Roster.apply, group, hx]
      · by_cases hq : q = p
        · simp [Roster.apply, hq, PartyBase.addMember, PartyBase.isMember, hmem]
        · simp [Roster.apply, hq]
      · by_cases hq : q = p
        · subst hq
          simp [Roster.apply, roster, PartyBase.addMember, PartyBase.isMember, hmem, hne]
        · simp [Roster.apply, roster, hq]
  | none =>
      obtain ⟨sent, heq⟩ := addPartyMember_of_request hleader hnew hparty
      have hne : newMember ≠ leader := by
        rintro rfl
        simp [hleader] at hnew
      rw [heq]
      refine Roster.ext (funext fun x => ?_) (funext fun q => ?_) (funext fun q => ?_)
      · by_cases hx : x = newMember
        · simp [Roster.apply, group, hx]
        · by_cases hxl : x = leader <;> simp [Roster.apply, group, hx, hxl, hne.symm]
      · by_cases hq : q = w.fresh
        · simp [Roster.apply, hq, PartyBase.addMember, PartyBase.isMember, PartyBase.make, hne]
        · simp [Roster.apply, hq]
      · by_cases hq : q = w.fresh
        · simp [Roster.apply, roster, hq, PartyBase.addMember, PartyBase.isMember, PartyBase.make,
            hne]
        · simp [Roster.apply, roster, hq]

end World

/-! ## The action of an event -/

/-- What an event does to the parties. -/
def action (w : World) : Event → Groups.Action Entity Addr
  | .env _ => .stay
  | .req entity packet => match w.find packet.idXorTag, packet.request with
      | some _, .LEFT => .leave entity
      | some other, .CHANGE_OWNER => match w.group entity with
          | none => .stay
          | some p =>
              if (w.bases p).leader = entity ∧ other ∈ (w.bases p).members then .appoint other p
              else .stay
      | some other, .KICK => match w.group entity with
          | none => .stay
          | some p => if other ∈ (w.bases p).members then .leave other else .stay
      | _, _ => .stay
  | .reply entity packet => match w.admits entity packet with
      | none => .stay
      | some (other, c) => match c.party with
          | none => .found w.fresh other entity
          | some p => .join entity p
  | .update => .stay
  | .destroy entity => .leave entity

variable {w : World}

/-- What carries an action out. -/
inductive Effect (w : World) : Groups.Action Entity Addr → World → Prop
  | quiet {w' : World} (hgroup : ∀ e, w'.group e = w.group e) (hbases : w'.bases = w.bases)
      (hfresh : w'.fresh = w.fresh) (hfaulted : w'.faulted = w.faulted) : Effect w .stay w'
  | leave {e : Entity} {c : Option Party} (hc : c.bind (·.party) = w.group e) :
      Effect w (.leave e) ((w.setComponent e c).removeParty e)
  | appoint {e other : Entity} {p : Addr} (hgroup : w.group e = some p)
      (hmem : other ∈ (w.bases p).members) : Effect w (.appoint other p) (w.changeLeader e other)
  | accept {other entity : Entity} {c c' : Party} {targets : List Entity} {packet : Packet}
      (hc : w.component other = some c) (hnew : w.component entity = none)
      (hparty : c'.party = c.party) :
      Effect w
        (match c.party with
          | none => .found w.fresh other entity
          | some p => .join entity p)
        (((w.setComponent other (some c')).send targets packet).addPartyMember other entity)

theorem Effect.refl (w : World) : Effect w .stay w :=
  .quiet (fun _ => rfl) rfl rfl rfl

theorem Effect.setComponent {e : Entity} {c : Option Party} (h : c.bind (·.party) = w.group e)
    (targets : List Entity) (packet : Packet) :
    Effect w .stay ((w.setComponent e c).send targets packet) :=
  .quiet (fun x => congrFun (congrArg Roster.group (World.roster_setComponent h)) x) rfl rfl rfl

theorem Effect.removeParty (w : World) (e : Entity) : Effect w (.leave e) (w.removeParty e) := by
  have hself : w.setComponent e (w.component e) = w := by simp [World.setComponent]
  have hleave := @Effect.leave w e (w.component e) rfl
  rwa [hself] at hleave

theorem processPartyReq_effect (w : World) (entity : Entity) (packet : CliPartyReq) :
    Effect w (action w (.req entity packet)) (w.processPartyReq entity packet) := by
  cases hfind : w.find packet.idXorTag with
  | none =>
      simp only [World.processPartyReq, action, hfind]
      exact .quiet (fun _ => rfl) rfl rfl rfl
  | some other =>
      match hrequest : packet.request with
      | .MAKE =>
          cases hgroup : w.group entity with
          | none =>
              simp only [World.processPartyReq, action, hfind, hrequest, hgroup]
              exact .setComponent (by simp [hgroup]) _ _
          | some p =>
              simp only [World.processPartyReq, action, hfind, hrequest, hgroup]
              exact .refl w
      | .JOIN =>
          match hc : w.component entity with
          | none =>
              simp only [World.processPartyReq, action, hfind, hrequest, hc]
              exact .refl w
          | some { party := none, .. } =>
              simp only [World.processPartyReq, action, hfind, hrequest, hc]
              exact .refl w
          | some { party := some p, .. } =>
              simp only [World.processPartyReq, action, hfind, hrequest, hc]
              exact .setComponent (by simp [World.group_of_component hc]) _ _
      | .LEFT =>
          simp only [World.processPartyReq, action, hfind, hrequest]
          have hself : w.component entity = none → w = w.removeParty entity := by
            intro hnone
            have hgroup : w.group entity = none := by simp [World.group, hnone]
            rw [World.removeParty_of_no_party hgroup, ← hnone]
            simp [World.setComponent]
          cases hc : w.component entity with
          | none => exact (hself hc) ▸ .removeParty w entity
          | some c => exact .removeParty w entity
      | .CHANGE_OWNER =>
          cases hgroup : w.group entity with
          | none =>
              simp only [World.processPartyReq, action, hfind, hrequest, hgroup]
              exact .refl w
          | some p =>
              simp only [World.processPartyReq, action, hfind, hrequest, hgroup]
              by_cases hleads : (w.bases p).leader = entity
              · by_cases hmem : other ∈ (w.bases p).members
                · simpa [hleads, hmem] using Effect.appoint hgroup hmem
                · simpa [hleads, hmem, World.changeLeader_of_not_mem hgroup hmem] using
                    Effect.refl w
              · simpa [hleads] using Effect.refl w
      | .KICK =>
          cases hgroup : w.group entity with
          | none =>
              simp only [World.processPartyReq, action, hfind, hrequest, hgroup]
              exact .refl w
          | some p =>
              simp only [World.processPartyReq, action, hfind, hrequest, hgroup]
              by_cases hmem : other ∈ (w.bases p).members
              · simpa [hmem, PartyBase.isMember] using Effect.leave (w.bind_party_kicked other)
              · simpa [hmem, PartyBase.isMember] using Effect.refl w
      | .other code =>
          simp only [World.processPartyReq, action, hfind, hrequest]
          exact .refl w

theorem processPartyReply_effect (w : World) (entity : Entity) (packet : CliPartyReply) :
    Effect w (action w (.reply entity packet)) (w.processPartyReply entity packet) := by
  match hadmits : w.admits entity packet with
  | none =>
      simp only [action, hadmits]
      rcases World.processPartyReply_of_not_admits hadmits with
        heq | ⟨other, c, c', hc, hparty, heq⟩
      · exact heq.symm ▸ .refl w
      · rw [heq]
        exact .setComponent (hparty.trans (World.group_of_component hc).symm) _ _
  | some (other, c) =>
      obtain ⟨-, hc, -, hnew⟩ := World.admits_eq_some.mp hadmits
      rw [World.processPartyReply_of_admits hadmits]
      simp only [action, hadmits]
      exact .accept hc hnew rfl

theorem update_effect (w : World) : Effect w .stay w.update := by
  refine .quiet (fun e => ?_) rfl rfl rfl
  cases hc : w.component e with
  | none => simp [World.group, World.update, hc]
  | some c =>
      simp only [World.group, World.update, hc]
      split
      · rename_i hpruned
        have hparty : c.party = none := by simp_all
        simp [hparty]
      · rfl

/-- **What an event does**, in the four ways there are. -/
theorem next_effect (w : World) (ev : Event) : Effect w (action w ev) (next w ev) :=
  match ev with
  | .env _ => .quiet (fun _ => rfl) rfl rfl rfl
  | .req entity packet => processPartyReq_effect w entity packet
  | .reply entity packet => processPartyReply_effect w entity packet
  | .update => update_effect w
  | .destroy entity => .removeParty w entity

/-! ## The refinement -/

variable {a : Groups.Action Entity Addr} {w' : World}

/-- The components of the inviter and the new member once the request is answered. -/
theorem World.answered_component {other entity : Entity} {c : Party}
    (hc : w.component other = some c) (hnew : w.component entity = none) (c' : Party)
    (targets : List Entity) (packet : Packet) :
    ((w.setComponent other (some c')).send targets packet).component other = some c' ∧
      ((w.setComponent other (some c')).send targets packet).component entity = none := by
  have hne : entity ≠ other := by
    rintro rfl
    simp [hc] at hnew
  simp [World.setComponent, hne, hnew]

theorem World.Inv.roster_accept (h : w.Inv) {other entity : Entity} {c c' : Party}
    (hc : w.component other = some c) (hnew : w.component entity = none)
    (hparty : c'.party = c.party) (targets : List Entity) (packet : Packet) :
    (((w.setComponent other (some c')).send targets packet).addPartyMember other entity).roster =
      w.roster.apply
        (match c.party with
          | none => .found w.fresh other entity
          | some p => .join entity p) := by
  obtain ⟨hother, hentity⟩ := answered_component hc hnew c' targets packet
  have hanswered : (some c').bind (·.party) = w.group other :=
    hparty.trans (World.group_of_component hc).symm
  have hadd := ((h.setComponent hanswered).send targets packet).roster_addPartyMember hother hentity
  rw [hadd, World.send_roster, World.roster_setComponent hanswered]
  cases hparty' : c.party <;> simp [hparty, hparty', World.send, World.setComponent]

/-- **The party system refines the roster.** -/
theorem Effect.roster (heffect : Effect w a w') (h : w.Inv) : w'.roster = w.roster.apply a := by
  match heffect with
  | .quiet hgroup hbases _ _ =>
      refine Roster.ext (funext hgroup) (funext fun p => ?_) (funext fun p => ?_)
      · simp [hbases, Roster.apply]
      · simp [World.roster, hbases, Roster.apply]
  | .leave hc =>
      rw [(h.setComponent hc).roster_removeParty, World.roster_setComponent hc, Roster.apply]
  | .appoint hgroup hmem => exact World.roster_changeLeader hgroup hmem
  | .accept hc hnew hparty => exact h.roster_accept hc hnew hparty _ _

theorem Effect.enabled (heffect : Effect w a w') (h : w.Inv) : w.roster.Enabled a := by
  match heffect with
  | .quiet _ _ _ _ => trivial
  | .leave _ => trivial
  | .appoint _ hmem => exact hmem
  | @Effect.accept _ other entity c _ _ _ hc hnew _ =>
      have hgroup : w.group entity = none := by simp [World.group, hnew]
      have hother := World.group_of_component hc
      cases hparty : c.party with
      | some p => exact ⟨hgroup, List.ne_nil_of_mem (h.mem_iff.mpr (hother.trans hparty))⟩
      | none =>
          refine ⟨?_, hother.trans hparty, hgroup, h.unused _ (Nat.le_refl _)⟩
          rintro rfl
          simp [hc] at hnew

theorem Effect.inv (heffect : Effect w a w') (h : w.Inv) : w'.Inv := by
  have hconsistent := h.consistent.apply (heffect.enabled h)
  rw [← heffect.roster h] at hconsistent
  match heffect with
  | .quiet _ hbases hfresh _ =>
      exact World.Keeps.inv
        ⟨hfresh, fun p => by rw [hbases], fun p hnil => by rwa [hbases]⟩ h hconsistent
  | .leave hc =>
      have hset := h.setComponent hc
      exact (hset.keeps_removeParty _).inv hset hconsistent
  | .appoint hgroup hmem =>
      obtain ⟨sent, heq⟩ := World.changeLeader_of_mem hgroup hmem
      refine World.Keeps.inv ?_ h hconsistent
      rw [heq]
      exact World.keeps_of_update rfl rfl rfl id
  | @Effect.accept _ other entity c c' targets packet hc hnew hparty =>
      obtain ⟨hother, hentity⟩ := World.answered_component hc hnew c' targets packet
      cases hc' : c'.party with
      | some p =>
          obtain ⟨sent, heq⟩ := World.addPartyMember_of_party hother hentity hc'
          have hmem : other ∈ (w.bases p).members := by
            rw [h.mem_iff, World.group_of_component hc, ← hparty, hc']
          refine World.Keeps.inv ?_ h hconsistent
          rw [heq]
          exact World.keeps_of_update rfl rfl (PartyBase.addMember_capacity _ _)
            (fun hnil => absurd hnil (List.ne_nil_of_mem hmem))
      | none =>
          obtain ⟨sent, heq⟩ := World.addPartyMember_of_request hother hentity hc'
          refine ⟨hconsistent, fun p hp => ?_, fun p => ?_⟩
          · rw [heq] at hp ⊢
            have hle : w.fresh + 1 ≤ p := hp
            have hpf : p ≠ w.fresh := Nat.ne_of_gt hle
            simpa [World.send, World.setComponent, hpf] using h.unused p (Nat.le_of_succ_le hle)
          · rw [heq]
            by_cases hpf : p = w.fresh
            · simp [World.send, World.setComponent, hpf, PartyBase.make]
            · simpa [World.send, World.setComponent, hpf] using h.capacity p

/-- The event makes an entity leave a party of two. -/
def Disbands (w : World) (ev : Event) : Prop :=
  ∃ e, action w ev = .leave e ∧ w.Paired e

theorem World.paired_iff {w w' : World} (h : w'.roster = w.roster) (e : Entity) :
    w'.Paired e ↔ w.Paired e := by
  have hgroup : w'.group e = w.group e := congrFun (congrArg Roster.group h) e
  have hmembers : ∀ p, (w'.bases p).members = (w.bases p).members :=
    fun p => congrFun (congrArg Roster.members h) p
  simp [World.Paired, hgroup, hmembers]

/-- **`members_[0]` of an empty list** is evaluated when a party of two loses a member. -/
theorem Effect.faulted (heffect : Effect w a w') (h : w.Inv) :
    w'.faulted = true ↔ w.faulted = true ∨ ∃ e, a = .leave e ∧ w.Paired e := by
  match heffect with
  | .quiet _ _ _ hfaulted => simp [hfaulted]
  | .leave hc =>
      rw [(h.setComponent hc).faulted_removeParty, World.paired_iff (World.roster_setComponent hc)]
      simp [World.setComponent]
  | .appoint hgroup hmem =>
      obtain ⟨sent, heq⟩ := World.changeLeader_of_mem hgroup hmem
      simp [heq]
  | @Effect.accept _ other entity c c' targets packet hc hnew hparty =>
      obtain ⟨hother, hentity⟩ := World.answered_component hc hnew c' targets packet
      cases hc' : c'.party with
      | some p =>
          obtain ⟨sent, heq⟩ := World.addPartyMember_of_party hother hentity hc'
          rw [heq, ← hparty, hc']
          simp [World.send, World.setComponent]
      | none =>
          obtain ⟨sent, heq⟩ := World.addPartyMember_of_request hother hentity hc'
          rw [heq, ← hparty, hc']
          simp [World.send, World.setComponent]

theorem World.Inv.next (h : w.Inv) (ev : Event) : (next w ev).Inv :=
  (next_effect w ev).inv h

theorem World.Inv.faulted_next (h : w.Inv) (ev : Event) :
    (Parties.next w ev).faulted = true ↔ w.faulted = true ∨ Disbands w ev :=
  (next_effect w ev).faulted h

theorem inv_start (env : Env) : (start env).Inv where
  consistent := fun p => .of_nil rfl rfl (fun e => by simp [World.group, start])
  unused := fun _ _ => rfl
  capacity := fun _ => rfl

/-- Every state reached satisfies the invariant. -/
theorem inv_foldl (env : Env) (es : List Event) : (es.foldl next (start env)).Inv := by
  refine (foldl_run next (start env) es).state_invariant (inv_start env) ?_
  rintro w ev _ h rfl
  exact h.next ev

/-! ## Membership -/

/-- Some component points to the party. -/
def World.InUse (w : World) (p : Addr) : Prop :=
  ∃ e, w.group e = some p

/-- What is to hold of the parties in every state. -/
structure World.Lawful (w : World) : Prop where
  nodup : ∀ p, w.InUse p → (w.bases p).members.Nodup
  leader : ∀ p, w.InUse p → (w.bases p).leader ∈ (w.bases p).members
  member : ∀ p, w.InUse p → ∀ e, e ∈ (w.bases p).members ↔
    ∃ c, w.component e = some c ∧ c.party = some p
  two : ∀ p, w.InUse p → 2 ≤ (w.bases p).members.length
  sound : w.faulted = false

theorem World.Inv.lawful (h : w.Inv) (hsound : w.faulted = false) : w.Lawful where
  nodup p _ := (h.consistent p).nodup
  leader := by
    rintro p ⟨e, he⟩
    exact h.leader_mem (List.ne_nil_of_mem (h.mem_iff.mpr he))
  member p _ e := by rw [h.mem_iff, World.group, Option.bind_eq_some_iff]
  two := by
    rintro p ⟨e, he⟩
    exact h.two_le he
  sound := hsound

/-- The parties are as they should be in every state of a run exactly as long as no step
makes an entity leave a party of two. -/
theorem lawful_run_iff (env : Env) (es : List Event) :
    (∀ p, p <+: es → (p.foldl next (start env)).Lawful) ↔
      ∀ p ev, p ++ [ev] <+: es → ¬ Disbands (p.foldl next (start env)) ev := by
  have hsound := @foldl_reached_iff _ _ (start env) next World.Inv (fun w => w.faulted = false)
    (fun w ev => ¬ Disbands w ev) (fun _ ev h => h.next ev)
    (fun w ev h hsound => by
      have hnext := h.faulted_next ev
      rw [← Bool.not_eq_true, hnext]
      simp [hsound])
    (inv_start env) rfl es
  rw [← hsound]
  exact ⟨fun h p hp => (h p hp).sound, fun h p hp => (inv_foldl env p).lawful (h p hp)⟩

/-- A party of two, which one of them leaves. -/
theorem pair_parted :
    ¬ ∀ (env : Env) (es : List Event), (es.foldl next (start env)).Lawful := by
  intro h
  have hfaulted : ((invite .MAKE .ACCEPT_MAKE 1 2 ++ [Event.req 2 ⟨.LEFT, 1⟩]).foldl next
      (start everyone)).faulted = true := by
    decide +kernel
  rw [(h everyone _).sound] at hfaulted
  exact absurd hfaulted (by decide)

end OsIrose.Parties

/-
What the others are told when a member leaves: the PARTY_MEMBER packets with the delete mark
of the callback of `PartySystem` (`map/src/systems/partysystem.cpp`), and `pack` of
`rosecommon/src/packets/srv_partymember.cpp`.

`pack` writes two names into such a packet, of the member that left and of the leader, and
takes them from the first two places of its list. The callback puts one entity into the
list. So no packet of the kind is right, and `departures_iff` says which steps send one: a
member leaves a party of three or more, and one of those who stay has a client.
-/
import OsIrose.PartyRoster

set_option autoImplicit false

namespace OsIrose.Parties

open Function Groups Runs

/-! ## The packet -/

/-- The places of its list that `SrvPartyMember::pack` reads. -/
def packReads (isDelete : Bool) (list : List Entity) : List ℕ :=
  if isDelete then [0, 1] else List.range list.length

/-- The entities whose tags it writes; `none` where it reads behind the list. -/
def packTags (isDelete : Bool) (list : List Entity) : List (Option Entity) :=
  (packReads isDelete list).map fun i => list[i]?

/-- Only places of the list are read. -/
def PackSafe (isDelete : Bool) (list : List Entity) : Prop :=
  ∀ i ∈ packReads isDelete list, i < list.length

/-- The packet that announces new members is safe, whatever it lists. -/
theorem packSafe_add (list : List Entity) : PackSafe false list := by
  intro i hi
  exact List.mem_range.mp hi

/-- A packet with the delete mark is safe from two entities on. -/
theorem packSafe_delete_iff (list : List Entity) : PackSafe true list ↔ 2 ≤ list.length := by
  simp [PackSafe, packReads]
  omega

/-! ## The packets with the delete mark -/

/-- The list of such a packet. -/
def Packet.deleteList : Packet → Option (List Entity)
  | .partyMember _ true list => some list
  | _ => none

namespace World

/-- Who has been sent one, and its list. -/
def deletes (w : World) : List (Entity × List Entity) :=
  w.sent.filterMap fun p => p.2.deleteList.map fun list => (p.1, list)

variable {w : World}

/-- Other packets do not count. -/
theorem deletes_send {packet : Packet} (hpacket : packet.deleteList = none)
    (targets : List Entity) : (w.send targets packet).deletes = w.deletes := by
  unfold deletes send
  rw [List.filterMap_append, List.filterMap_map]
  simp [hpacket]

theorem deletes_send_delete (targets : List Entity) (options : ℕ) (list : List Entity) :
    (w.send targets (.partyMember options true list)).deletes =
      w.deletes ++ (targets.filter w.env.client).map fun m => (m, list) := by
  unfold deletes send
  rw [List.filterMap_append, List.filterMap_map, ← List.filterMap_eq_map]
  rfl

@[simp] theorem deletes_setComponent (e : Entity) (c : Option Party) :
    (w.setComponent e c).deletes = w.deletes := rfl

@[simp] theorem deletes_setBase (p : Addr) (base : PartyBase) :
    (w.setBase p base).deletes = w.deletes := rfl

@[simp] theorem send_bases (targets : List Entity) (packet : Packet) :
    (w.send targets packet).bases = w.bases := rfl

@[simp] theorem send_env (targets : List Entity) (packet : Packet) :
    (w.send targets packet).env = w.env := rfl

/-- What `removeParty` announces: nothing where the party ends with it. -/
def announced (w : World) (e : Entity) : List (Entity × List Entity) :=
  match w.group e with
  | none => []
  | some p =>
      if 2 < (w.bases p).members.length then
        (((w.bases p).members.erase e).filter w.env.client).map fun m => (m, [e])
      else []

/-- The last member is removed and there is nobody to tell. -/
theorem deletes_removeFuel_of_last {e : Entity} {p : Addr} (hgroup : w.group e = some p)
    (hmembers : (w.bases p).members = [e]) (hleader : (w.bases p).leader = e) (fuel : ℕ) :
    (w.removeFuel fuel e).deletes = w.deletes := by
  obtain ⟨c, hc, hparty⟩ := Option.bind_eq_some_iff.mp hgroup
  have hremove : (w.bases p).removeMember e =
      some ({ w.bases p with members := [] }, true) := by
    simp [PartyBase.removeMember, PartyBase.isMember, hmembers, hleader]
  rw [removeFuel]
  simp only [hc, hparty, hremove, deletes_setComponent]
  rw [deletes_send_delete, deletes_send rfl]
  simp [setBase, send, deletes]

/-- A party of three or more loses a member. -/
theorem Inv.deletes_removeParty_of_many (h : w.Inv) {e : Entity} {p : Addr}
    (hgroup : w.group e = some p) (hlen : 2 < (w.bases p).members.length) :
    (w.removeParty e).deletes = w.deletes ++
      (((w.bases p).members.erase e).filter w.env.client).map fun m => (m, [e]) := by
  obtain ⟨c, hc, hparty⟩ := Option.bind_eq_some_iff.mp hgroup
  have hmem := h.mem_iff.mpr hgroup
  obtain ⟨first, second, rest, hrest⟩ := h.erase_of_many hgroup hlen
  have hremove := removeMember_of_mem hmem (by simp [hrest])
  simp only [removeParty, hgroup]
  rw [removeFuel]
  simp only [hc, hparty, hremove, deletes_setComponent]
  rw [hrest]
  dsimp only
  rw [deletes_send_delete, deletes_send rfl]
  simp [setBase, deletes]

/-- A party of two loses a member: by the time the rest is told, nobody is left. -/
theorem Inv.deletes_removeParty_of_two (h : w.Inv) {e : Entity} {p : Addr}
    (hgroup : w.group e = some p) (hlen : (w.bases p).members.length = 2) :
    (w.removeParty e).deletes = w.deletes := by
  obtain ⟨c, hc, hparty⟩ := Option.bind_eq_some_iff.mp hgroup
  have hmem := h.mem_iff.mpr hgroup
  obtain ⟨last, hlast, hleader, hmemlast⟩ := h.erase_of_two hgroup hlen
  have hremove := removeMember_of_mem hmem (by simp [hlast])
  simp only [removeParty, hgroup]
  rw [removeFuel]
  simp only [hc, hparty, hremove, deletes_setComponent, hlast, hlen, hleader, Bool.or_false]
  -- the callback for the last member, in the state in which it runs
  set w₁ := World.send { w.setBase p { w.bases p with members := [last], leader := last } with
      faulted := w.faulted } [e] (.partyReply .DESTROY (if c.isKicked then last else e)) with hw₁
  have hgroup₁ : w₁.group last = some p := h.mem_iff.mp hmemlast
  have hbase₁ : w₁.bases p = { w.bases p with members := [last], leader := last } := by
    simp [hw₁, setBase]
  have hdeletes₁ : w₁.deletes = w.deletes := by
    rw [hw₁, deletes_send rfl]
    rfl
  have hnested := deletes_removeFuel_of_last hgroup₁ (by rw [hbase₁]) (by rw [hbase₁]) 1
  obtain ⟨sent, hstate⟩ := removeFuel_of_last hgroup₁ (by rw [hbase₁]) (by rw [hbase₁]) 1
  have hmembers : ((w₁.removeFuel 1 last).bases p).members = [] := by
    rw [hstate]
    simp
  rw [deletes_send_delete, hmembers, hnested, hdeletes₁]
  exact List.append_nil _

/-- **The removal of a component** announces what `announced` says. -/
theorem Inv.deletes_removeParty (h : w.Inv) (e : Entity) :
    (w.removeParty e).deletes = w.deletes ++ w.announced e := by
  unfold announced
  cases hgroup : w.group e with
  | none => rw [removeParty_of_no_party hgroup, deletes_setComponent, List.append_nil]
  | some p =>
      dsimp only
      rcases Nat.lt_or_eq_of_le (h.two_le hgroup) with hlen | hlen
      · rw [if_pos hlen, h.deletes_removeParty_of_many hgroup hlen]
      · rw [if_neg (by omega), h.deletes_removeParty_of_two hgroup hlen.symm, List.append_nil]

theorem deletes_addPartyMember (leader newMember : Entity) :
    (w.addPartyMember leader newMember).deletes = w.deletes := by
  unfold addPartyMember
  split
  · rfl
  · split
    · rfl
    · dsimp only
      split
      · rw [deletes_setBase, deletes_send rfl, deletes_send rfl, deletes_setComponent]
      · rw [deletes_setBase, deletes_send rfl, deletes_send rfl, deletes_setComponent]
        rfl

theorem deletes_changeLeader (leader newLeader : Entity) :
    (w.changeLeader leader newLeader).deletes = w.deletes := by
  unfold changeLeader
  split
  · rfl
  · split
    · rfl
    · rw [deletes_send rfl, deletes_setBase]

end World

/-! ## A step -/

variable {w : World}

/-- What an event announces. -/
def announces (w : World) (ev : Event) : List (Entity × List Entity) :=
  match action w ev with
  | .leave e => w.announced e
  | _ => []

theorem deletes_processPartyReq (h : w.Inv) (entity : Entity) (packet : CliPartyReq) :
    (w.processPartyReq entity packet).deletes =
      w.deletes ++ announces w (.req entity packet) := by
  unfold announces
  cases hfind : w.find packet.idXorTag with
  | none =>
      simp only [World.processPartyReq, action, hfind]
      rw [World.deletes_send rfl, List.append_nil]
  | some other =>
      cases hrequest : packet.request with
      | MAKE =>
          simp only [World.processPartyReq, action, hfind, hrequest, List.append_nil]
          split
          · rfl
          · rw [World.deletes_send rfl, World.deletes_setComponent]
      | JOIN =>
          simp only [World.processPartyReq, action, hfind, hrequest, List.append_nil]
          split
          · rw [World.deletes_send rfl, World.deletes_setComponent]
          · rfl
      | LEFT =>
          simp only [World.processPartyReq, action, hfind, hrequest]
          split
          · rename_i hnone
            have hgroup : w.group entity = none := by
              rw [World.group, Option.isNone_iff_eq_none.mp hnone]
              rfl
            simp [World.announced, hgroup]
          · exact h.deletes_removeParty entity
      | CHANGE_OWNER =>
          simp only [World.processPartyReq, action, hfind, hrequest]
          cases hgroup : w.group entity with
          | none => simp
          | some p =>
              by_cases hleads : (w.bases p).leader = entity
              · by_cases hmem : other ∈ (w.bases p).members
                · simp [hleads, hmem, World.deletes_changeLeader]
                · simp [hleads, hmem, World.deletes_changeLeader]
              · simp [hleads]
      | KICK =>
          simp only [World.processPartyReq, action, hfind, hrequest]
          cases hgroup : w.group entity with
          | none => simp
          | some p =>
              by_cases hmem : other ∈ (w.bases p).members
              · have hkicked := w.bind_party_kicked other
                have hgroup' := World.roster_setComponent hkicked
                have hsame : World.announced (w.setComponent other ((w.component other).map
                    (fun c => { c with isKicked := true }))) other = w.announced other := by
                  have hother := congrFun (congrArg Roster.group hgroup') other
                  unfold World.announced
                  rw [show World.group (w.setComponent other _) other = w.group other from hother]
                  rfl
                have hremoved := (h.setComponent hkicked).deletes_removeParty other
                rw [hsame] at hremoved
                simpa [hmem, PartyBase.isMember] using hremoved
              · simp [hmem, PartyBase.isMember]
      | other code =>
          simp only [World.processPartyReq, action, hfind, hrequest, List.append_nil]

theorem deletes_processPartyReply (entity : Entity) (packet : CliPartyReply) :
    (w.processPartyReply entity packet).deletes = w.deletes := by
  cases hadmits : w.admits entity packet with
  | none =>
      rcases World.processPartyReply_of_not_admits hadmits with heq | ⟨other, c, c', -, -, heq⟩
      · rw [heq]
      · rw [heq, World.deletes_send rfl, World.deletes_setComponent]
  | some admitted =>
      rw [World.processPartyReply_of_admits hadmits, World.deletes_addPartyMember,
        World.deletes_send rfl, World.deletes_setComponent]

/-- **What an event announces**, to whom and in what list. -/
theorem deletes_next (h : w.Inv) (ev : Event) :
    (next w ev).deletes = w.deletes ++ announces w ev := by
  cases ev with
  | env env => exact (List.append_nil _).symm
  | req entity packet => exact deletes_processPartyReq h entity packet
  | reply entity packet =>
      have hnone : announces w (.reply entity packet) = [] := by
        simp only [announces, action]
        cases w.admits entity packet with
        | none => rfl
        | some admitted => cases hparty : admitted.2.party <;> simp [hparty]
      rw [hnone, List.append_nil]
      exact deletes_processPartyReply entity packet
  | update => exact (List.append_nil _).symm
  | destroy entity => exact h.deletes_removeParty entity

theorem mem_announces (h : w.Inv) {ev : Event} {x : Entity × List Entity} :
    x ∈ announces w ev ↔ ∃ e p, action w ev = .leave e ∧ w.group e = some p ∧
      2 < (w.bases p).members.length ∧ x.1 ∈ (w.bases p).members ∧ x.1 ≠ e ∧
      w.env.client x.1 = true ∧ x.2 = [e] := by
  obtain ⟨m, list⟩ := x
  unfold announces
  constructor
  · intro hx
    split at hx
    · rename_i e hleave
      unfold World.announced at hx
      split at hx
      · exact absurd hx List.not_mem_nil
      · rename_i p hgroup
        split at hx
        · rename_i hlen
          obtain ⟨m', hm', hpair⟩ := List.mem_map.mp hx
          obtain ⟨herase, hclient⟩ := List.mem_filter.mp hm'
          obtain ⟨rfl, rfl⟩ := Prod.mk.injEq .. ▸ hpair
          obtain ⟨hne, hmem⟩ := (h.consistent p).nodup.mem_erase_iff.mp herase
          exact ⟨e, p, hleave, hgroup, hlen, hmem, hne, hclient, rfl⟩
        · exact absurd hx List.not_mem_nil
    · exact absurd hx List.not_mem_nil
  · rintro ⟨e, p, hleave, hgroup, hlen, hmem, hne, hclient, hlist⟩
    dsimp only at hmem hne hclient hlist
    simp only [hleave, World.announced, hgroup, if_pos hlen, hlist]
    refine List.mem_map.mpr ⟨m, List.mem_filter.mpr ⟨?_, hclient⟩, rfl⟩
    exact (h.consistent p).nodup.mem_erase_iff.mpr ⟨hne, hmem⟩

/-! ## What the others are to be told -/

/-- A packet with the delete mark names a member that has left the party of its receiver,
and the leader of that party; and it is packed from what its list has. -/
structure DeleteRight (w w' : World) (receiver : Entity) (list : List Entity) : Prop where
  names : ∃ leaver p, w.group leaver = some p ∧ w'.group leaver ≠ some p ∧
    receiver ∈ (w'.bases p).members ∧
    packTags true list = [some leaver, some (w'.bases p).leader]
  safe : PackSafe true list

/-- Every packet with the delete mark that the event sends is right. -/
def StepRight (w : World) (ev : Event) : Prop :=
  ∀ x ∈ (next w ev).deletes.drop w.deletes.length, DeleteRight w (next w ev) x.1 x.2

/-- The event takes a member out of a party of three or more, and somebody who stays has a
client. -/
def TellsOthers (w : World) (ev : Event) : Prop :=
  ∃ e p m, action w ev = .leave e ∧ w.group e = some p ∧ 2 < (w.bases p).members.length ∧
    m ∈ (w.bases p).members ∧ m ≠ e ∧ w.env.client m = true

theorem stepRight_iff (h : w.Inv) (ev : Event) : StepRight w ev ↔ ¬ TellsOthers w ev := by
  unfold StepRight
  rw [deletes_next h ev, List.drop_left]
  constructor
  · rintro hright ⟨e, p, m, hleave, hgroup, hlen, hmem, hne, hclient⟩
    have hx : (m, [e]) ∈ announces w ev :=
      (mem_announces h).mpr ⟨e, p, hleave, hgroup, hlen, hmem, hne, hclient, rfl⟩
    -- the list has one entity, and two are read
    have hsafe := (packSafe_delete_iff [e]).mp (hright _ hx).safe
    exact absurd hsafe (by simp)
  · intro hquiet x hx
    obtain ⟨e, p, hleave, hgroup, hlen, hmem, hne, hclient, -⟩ := (mem_announces h).mp hx
    exact absurd ⟨e, p, x.1, hleave, hgroup, hlen, hmem, hne, hclient⟩ hquiet

/-- **When the others are told right**: in a run whose steps tell nobody. -/
theorem departures_iff (env : Env) (es : List Event) :
    (∀ p ev, p ++ [ev] <+: es → StepRight (p.foldl next (start env)) ev) ↔
      ∀ p ev, p ++ [ev] <+: es → ¬ TellsOthers (p.foldl next (start env)) ev := by
  constructor
  · exact fun h p ev hp => (stepRight_iff (inv_foldl env p) ev).mp (h p ev hp)
  · exact fun h p ev hp => (stepRight_iff (inv_foldl env p) ev).mpr (h p ev hp)

/-- A party of three, which one of them leaves. -/
theorem departure_untold :
    ¬ ∀ (env : Env) (es : List Event),
      ∀ p ev, p ++ [ev] <+: es → StepRight (p.foldl next (start env)) ev := by
  intro h
  let es := invite .MAKE .ACCEPT_MAKE 1 2 ++ invite .JOIN .ACCEPT_JOIN 1 3
  have hright := h everyone (es ++ [.req 2 ⟨.LEFT, 1⟩]) es (.req 2 ⟨.LEFT, 1⟩) List.prefix_rfl
  have hx : (1, [2]) ∈ (next (es.foldl next (start everyone)) (.req 2 ⟨.LEFT, 1⟩)).deletes.drop
      (es.foldl next (start everyone)).deletes.length := by
    decide +kernel
  exact absurd ((packSafe_delete_iff [2]).mp (hright _ hx).safe) (by decide)

end OsIrose.Parties

/-
The register of channels of a connection at the login server: `CLoginISC::ServerRegister`,
`CLoginISC::ServerShutdown` and the counter beside the list, `login/src/cloginisc.cpp`.

What the list is to say is a partial map from ids to registrations, the latest for each id
that is registered and not shut down since (`Registered`). The handlers lose it in three
ways: a registration is put in front of the list whether the id is there or not, its id is cut
to 16 bits, and a shutdown that removes an entry leaves the counter as it was.
`registry_iff` is the exact guard of a run: ids below 65536, none registered twice, and no
shutdown of an id that is registered.
-/
import OsIrose.Channels
import OsIrose.Runs
import Mathlib.Data.List.Count
import Mathlib.Data.List.Range
import Mathlib.Data.List.Perm.Subperm

set_option autoImplicit false

namespace OsIrose.ChannelRegistry

open Channels Function

/-- `IscShutdown`; `id` is an `int32_t`. -/
structure IscShutdown where
  serverType : ServerType
  id : BitVec 32

/-- A `CLoginISC` with the counter of its channels. -/
structure CountedISC extends LoginISC where
  channelCount : BitVec 32 := 0

/-- `CLoginISC::ServerRegister`. -/
def CountedISC.serverRegister (isc : CountedISC) (P : IscServerRegister) : CountedISC :=
  { toLoginISC := isc.toLoginISC.serverRegister P
    channelCount :=
      if P.serverType = .MAP_MASTER then isc.channelCount + 1 else isc.channelCount }

/-- `CLoginISC::ServerShutdown`. Both sides of the comparison are an `int`. -/
def CountedISC.serverShutdown (isc : CountedISC) (P : IscShutdown) : CountedISC :=
  { isc with
    channelList := isc.channelList.filter fun channel => channel.ChannelID.setWidth 32 ≠ P.id }

inductive Message
  | register (P : IscServerRegister)
  | shutdown (P : IscShutdown)

/-- `CLoginISC::HandlePacket` for the two messages. -/
def CountedISC.handle (isc : CountedISC) : Message → CountedISC
  | .register P => isc.serverRegister P
  | .shutdown P => isc.serverShutdown P

/-! ## What is registered -/

/-- The latest registration of each id that is registered and not shut down since. -/
abbrev Registered := BitVec 32 → Option IscServerRegister

/-- Only a registration of a map server is one of a channel. -/
def Registered.note (registered : Registered) : Message → Registered
  | .register P =>
      if P.serverType = .MAP_MASTER then update registered P.id (some P) else registered
  | .shutdown P => update registered P.id none

/-- The channel of a registration. -/
def channelOf (P : IscServerRegister) : ChannelInfo where
  channelName := P.name
  ChannelID := P.id.setWidth 16
  MinRight := P.right

/-- The entries of a list with that id. -/
def entries (list : List ChannelInfo) (id : BitVec 32) : List ChannelInfo :=
  list.filter fun channel => channel.ChannelID.setWidth 32 = id

/-- The list has one entry for each id that is registered, the channel of its registration,
and none for another id. -/
def Lists (registered : Registered) (list : List ChannelInfo) : Prop :=
  ∀ id, entries list id = (registered id).toList.map channelOf

/-! ## The login server and what it is to know -/

structure Login where
  isc : CountedISC
  registered : Registered

namespace Login

def receive (s : Login) (message : Message) : Login where
  isc := s.isc.handle message
  registered := s.registered.note message

/-- A connection nothing has been received on. -/
def start (isc : LoginISC) : Login where
  isc := { toLoginISC := { isc with channelList := [] } }
  registered := fun _ => none

structure Accurate (s : Login) : Prop where
  lists : Lists s.registered s.isc.channelList
  count : s.isc.channelCount.toNat = s.isc.channelList.length

/-- The messages that leave the register accurate. -/
def Harmless (s : Login) : Message → Prop
  | .register P =>
      P.serverType = .MAP_MASTER → P.id.toNat < 65536 ∧ s.registered P.id = none
  | .shutdown P => s.registered P.id = none

end Login

/-! ## A list that is right -/

theorem entries_cons (channel : ChannelInfo) (list : List ChannelInfo) (id : BitVec 32) :
    entries (channel :: list) id =
      if channel.ChannelID.setWidth 32 = id then channel :: entries list id
      else entries list id := by
  simp [entries, List.filter_cons]

/-- No entry has an id of more than 16 bits. -/
theorem entries_of_large (list : List ChannelInfo) {id : BitVec 32} (hid : 65536 ≤ id.toNat) :
    entries list id = [] := by
  refine List.filter_eq_nil_iff.mpr fun channel _ h => ?_
  have hsame := of_decide_eq_true h
  bv_omega

theorem setWidth_setWidth_eq_iff (id : BitVec 32) :
    (id.setWidth 16).setWidth 32 = id ↔ id.toNat < 65536 := by
  rw [← BitVec.toNat_inj]
  simp only [BitVec.toNat_setWidth]
  omega

namespace Lists

variable {registered : Registered} {list : List ChannelInfo}

theorem nil : Lists (fun _ => none) [] :=
  fun _ => rfl

theorem small (h : Lists registered list) {id : BitVec 32} (hid : registered id ≠ none) :
    id.toNat < 65536 := by
  by_contra hlarge
  have hempty := entries_of_large list (not_lt.mp hlarge)
  obtain ⟨P, hP⟩ := Option.ne_none_iff_exists'.mp hid
  rw [h id, hP] at hempty
  exact List.cons_ne_nil _ _ hempty

/-- A new id of 16 bits may be put in front. -/
theorem cons (h : Lists registered list) {P : IscServerRegister} (hid : P.id.toNat < 65536)
    (hnew : registered P.id = none) :
    Lists (update registered P.id (some P)) (channelOf P :: list) := by
  intro id
  have hwidth : (channelOf P).ChannelID.setWidth 32 = P.id :=
    (setWidth_setWidth_eq_iff P.id).mpr hid
  rw [entries_cons, hwidth, h id]
  by_cases hsame : P.id = id
  · subst hsame
    rw [if_pos rfl, update_self, hnew]
    rfl
  · rw [if_neg hsame, update_of_ne (Ne.symm hsame)]

/-- After a registration is put in front and the list is right, the id was new. -/
theorem of_cons (h : Lists registered list) {P : IscServerRegister}
    (hcons : Lists (update registered P.id (some P)) (channelOf P :: list)) :
    P.id.toNat < 65536 ∧ registered P.id = none := by
  have hid : P.id.toNat < 65536 := hcons.small (by simp)
  have hwidth : (channelOf P).ChannelID.setWidth 32 = P.id :=
    (setWidth_setWidth_eq_iff P.id).mpr hid
  have hone := hcons P.id
  rw [entries_cons, if_pos hwidth, h P.id, update_self] at hone
  refine ⟨hid, ?_⟩
  cases hregistered : registered P.id with
  | none => rfl
  | some P' =>
      rw [hregistered] at hone
      exact absurd (congrArg List.length hone) (by simp)

/-- What is removed with an id. -/
theorem remove (h : Lists registered list) (id : BitVec 32) :
    Lists (update registered id none)
      (list.filter fun channel => channel.ChannelID.setWidth 32 ≠ id) := by
  intro id'
  unfold entries
  rw [List.filter_filter]
  by_cases hsame : id' = id
  · subst hsame
    rw [update_self]
    exact List.filter_eq_nil_iff.mpr fun channel _ hboth => by simp at hboth
  · rw [update_of_ne hsame, ← h id', entries]
    refine List.filter_congr fun channel _ => ?_
    rw [Bool.eq_iff_iff]
    simp only [Bool.and_eq_true, decide_eq_true_eq]
    exact ⟨And.left, fun hid => ⟨hid, fun hid' => hsame (hid.symm.trans hid')⟩⟩

/-- The list gets shorter exactly when the id is registered. -/
theorem length_remove_iff (h : Lists registered list) (id : BitVec 32) :
    (list.filter fun channel => channel.ChannelID.setWidth 32 ≠ id).length = list.length ↔
      registered id = none := by
  have hentries : entries list id = [] ↔ registered id = none := by
    rw [h id, List.map_eq_nil_iff, Option.toList_eq_nil_iff]
  rw [← hentries, List.length_filter_eq_length_iff, entries, List.filter_eq_nil_iff]
  simp

/-- No two entries have the same id. -/
theorem nodup (h : Lists registered list) : (list.map ChannelInfo.ChannelID).Nodup := by
  rw [List.nodup_iff_count_le_one]
  intro id
  have hentries : List.count id (list.map ChannelInfo.ChannelID) =
      (entries list (id.setWidth 32)).length := by
    rw [List.count_eq_countP, List.countP_map, List.countP_eq_length_filter, entries]
    congr 1
    refine List.filter_congr fun channel _ => ?_
    rw [Bool.eq_iff_iff]
    simp only [comp_apply, beq_iff_eq, decide_eq_true_eq]
    constructor
    · exact fun hid => by rw [hid]
    · intro hid
      bv_omega
  rw [hentries, h, List.length_map]
  cases registered (id.setWidth 32) <;> simp

/-- So there are at most as many as there are ids. -/
theorem length_le (h : Lists registered list) : list.length ≤ 65536 := by
  have hnodup : ((list.map ChannelInfo.ChannelID).map BitVec.toNat).Nodup :=
    h.nodup.map fun _ _ => BitVec.eq_of_toNat_eq
  have hsub : (list.map ChannelInfo.ChannelID).map BitVec.toNat ⊆ List.range (65536) := by
    intro n hn
    obtain ⟨id, -, rfl⟩ := List.mem_map.mp hn
    exact List.mem_range.mpr id.isLt
  have hlength := (hnodup.subperm hsub).length_le
  rwa [List.length_map, List.length_map, List.length_range] at hlength

end Lists

/-! ## One message -/

namespace Login

variable {s : Login}

theorem receive_register {P : IscServerRegister} (hP : P.serverType = .MAP_MASTER) :
    (s.receive (.register P)).isc.channelList = channelOf P :: s.isc.channelList ∧
      (s.receive (.register P)).isc.channelCount = s.isc.channelCount + 1 ∧
      (s.receive (.register P)).registered = update s.registered P.id (some P) := by
  simp [receive, CountedISC.handle, CountedISC.serverRegister, LoginISC.serverRegister,
    Registered.note, hP, channelOf]

theorem receive_other {P : IscServerRegister} (hP : P.serverType ≠ .MAP_MASTER) :
    (s.receive (.register P)).isc.channelList = s.isc.channelList ∧
      (s.receive (.register P)).isc.channelCount = s.isc.channelCount ∧
      (s.receive (.register P)).registered = s.registered := by
  refine ⟨?_, if_neg hP, if_neg hP⟩
  show (s.isc.toLoginISC.serverRegister P).channelList = _
  unfold LoginISC.serverRegister
  split
  · rfl
  · exact absurd ‹_› hP
  · rfl

/-- **A message keeps the register accurate** exactly when it is harmless. -/
theorem Accurate.receive_iff (h : s.Accurate) (message : Message) :
    (s.receive message).Accurate ↔ s.Harmless message := by
  cases message with
  | register P =>
      by_cases hP : P.serverType = .MAP_MASTER
      · obtain ⟨hlist, hcount, hregistered⟩ := receive_register (s := s) hP
        constructor
        · intro hafter _
          have hlists := hafter.lists
          rw [hlist, hregistered] at hlists
          exact h.lists.of_cons hlists
        · intro hharmless
          obtain ⟨hid, hnew⟩ := hharmless hP
          refine ⟨by rw [hlist, hregistered]; exact h.lists.cons hid hnew, ?_⟩
          -- the counter does not wrap
          have hlength := h.lists.length_le
          have hbefore := h.count
          rw [hcount, hlist, List.length_cons, ← hbefore]
          bv_omega
      · obtain ⟨hlist, hcount, hregistered⟩ := receive_other (s := s) hP
        refine iff_of_true ⟨?_, ?_⟩ fun hP' => absurd hP' hP
        · rw [hlist, hregistered]
          exact h.lists
        · rw [hlist, hcount]
          exact h.count
  | shutdown P =>
      rw [Harmless, ← h.lists.length_remove_iff P.id, ← h.count]
      exact ⟨fun hafter => hafter.count.symm, fun hlength => ⟨h.lists.remove P.id, hlength.symm⟩⟩

/-- **When the register is accurate**: in every state reached if and only if every message
received is harmless in the state before it. -/
theorem registry_iff (isc : LoginISC) (messages : List Message) :
    (∀ received, received <+: messages → (received.foldl receive (start isc)).Accurate) ↔
      ∀ received message, received ++ [message] <+: messages →
        (received.foldl receive (start isc)).Harmless message := by
  have hstep : ∀ (s : Login) (message : Message), True → s.Accurate →
      ((s.receive message).Accurate ↔ s.Harmless message) :=
    fun _ message _ h => h.receive_iff message
  have hstart : (start isc).Accurate := ⟨Lists.nil, rfl⟩
  exact Runs.foldl_reached_iff (fun _ _ _ => trivial) hstep trivial hstart messages

/-- A map server that registers and is shut down: the list is empty, the counter at one. -/
theorem not_accurate_shutdown :
    ¬ ([.register ⟨.MAP_MASTER, "channel", "127.0.0.1", 29200, 0, 1⟩,
        .shutdown ⟨.MAP_MASTER, 1⟩].foldl receive (start { id := 0 })).Accurate :=
  fun h => absurd h.count (by decide)

end Login

end OsIrose.ChannelRegistry

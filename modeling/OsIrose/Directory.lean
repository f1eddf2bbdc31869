/-
The list of the channels at the login server against the map servers at the char server:
`char/src/ccharisc.cpp`, `char/src/ccharserver.cpp`, `rosecommon/src/croseserver.cpp`,
`core/src/cnetwork_asio.cpp` and `login/src/cloginisc.cpp`.

A map server connects to the char server and registers, the char server passes the registration
on to the login server, and when the map server goes away it sends an `ISC_SHUTDOWN` after it. The
login server's list is a replica of what is registered at the char server (`Replica`), and
`sound_iff` says when it is one in every state reached, with what is on its way counted in, and
the char server still able to work. Five things spoil it.

A connection is of type 0 before it registers, and 0 is `LOGIN`: the first `LOGIN` of the list
gets the registration, which need not be the link to the login server. An id of more than 16
bits is cut. A connection that ends by another error than a reset is shut down without an
`OnShutdown`. A link that is lost and made anew brings only the registration of the char server
itself. And the thread that times connections out holds the mutex that `OnShutdown` locks for a
registered one (`timeOuts`), and it is never free again.

Only the registrations of map servers are modelled; any other type of server would be passed on
under a type that was never set. A map server registers once on each connection.
-/
import OsIrose.ChannelRegistry
import OsIrose.Replica
import OsIrose.Runs

set_option autoImplicit false

namespace OsIrose.Directory

open Channels (CharISC ChannelInfo IscServerRegister ServerType)
open ChannelRegistry (CountedISC IscShutdown Message)
open Replica (Change anyRemoves apply foldl_apply_append perm_add_iff perm_remove_iff
  perm_restart_iff)
open Runs

/-! ## The char server -/

/-- A connection that `OnAccepted` has put into the list. -/
structure Conn where
  isc : CharISC
  active : Bool := true
  updateTime : ℕ
  /-- The name it registered with, which is only passed on. -/
  name : String := ""

/-- The link to the login server, which is behind all others in the list. -/
inductive Link
  | up
  /-- It is shut down and still in the list. -/
  | down
  | removed
  deriving DecidableEq, Repr

/-- The char server, what its link has queued and written, and its connection at the login
server. -/
structure State where
  accepted : List Conn := []
  serverCount : BitVec 32 := 0
  /-- `isc_list_mutex_` is held by a thread that waits for it. -/
  locked : Bool := false
  link : Link
  /-- `send_queue_` of the link. -/
  queue : List Message := []
  /-- Written, and not handled by the login server. -/
  wire : List Message := []
  login : CountedISC

/-- The registration of the char server itself. -/
structure World where
  P : IscServerRegister
  isChar : P.serverType = .CHAR

/-- The connection is a map server's that is registered. -/
def Conn.isMap (c : Conn) : Bool :=
  c.active ∧ c.isc.type = .MAP_MASTER

/-- Nothing was heard of the connection for two minutes. -/
def Conn.timedOut (c : Conn) (now : ℕ) : Bool :=
  c.active ∧ 120000 < now - c.updateTime

/-- `send` on the link. -/
def State.send (s : State) (message : Message) : State :=
  { s with queue := s.queue ++ [message] }

/-- `shutdown()` of a connection that is not the link, with its `OnShutdown`. -/
def shutdown (s : State) (i : ℕ) (c : Conn) : State :=
  let s := { s with accepted := s.accepted.set i { c with active := false } }
  -- `reconnect` does nothing, the connection was accepted
  if c.isc.type = .LOGIN then s
  else
    -- every connection of type `LOGIN` gets it, and the login server listens
    let packet := .shutdown { serverType := c.isc.type, id := c.isc.id }
    if s.link = .removed then s else s.send packet

/-- The loop of `ServerRegister`: the first connection of type `LOGIN` gets the packet. -/
def relay (s : State) (message : Message) : Option State :=
  if s.accepted.any fun c => c.isc.type = .LOGIN then some s
  else if s.link = .removed then none
  else some (s.send message)

/-- `CCharISC::ServerRegister`, and the `shutdown` if it returns false. -/
def serverRegister (s : State) (i : ℕ) (c : Conn) (P : IscServerRegister) : State :=
  let (isc, packet) := c.isc.serverRegister P
  let c := { c with isc := isc, name := P.name }
  let s := { s with accepted := s.accepted.set i c }
  (relay s (.register packet)).getD (shutdown s i c)

/-- The time-outs of a pass over the list, and whether it has come to a connection whose
`OnShutdown` locks the mutex that the pass holds. -/
def timeOuts (now : ℕ) : List Conn → List Conn × Bool
  | [] => ([], false)
  | c :: cs =>
      if c.timedOut now then
        if c.isc.type = .LOGIN then
          ({ c with active := false } :: (timeOuts now cs).1, (timeOuts now cs).2)
        else (c :: cs, true)
      else (c :: (timeOuts now cs).1, (timeOuts now cs).2)

inductive Event
  /-- `CCharServer::OnAccepted`. -/
  | accepted (now : ℕ)
  /-- Connection `i` of the list has sent an `ISC_SERVER_REGISTER`. -/
  | register (i : ℕ) (P : IscServerRegister)
  /-- A read of connection `i` completes, or one of its writes. -/
  | heard (i now : ℕ)
  /-- Connection `i` is closed or reset, or has sent an unknown packet: `shutdown()`. -/
  | closed (i : ℕ)
  /-- A read of connection `i` ends with another error: `shutdown(true)`. -/
  | failed (i : ℕ)
  /-- A pass of the thread of `CRoseServer`. -/
  | sweep (now : ℕ)
  /-- `shutdown()` of the link, also when it times out; the login server gives a new connection
  the number. -/
  | linkClosed (reconnected : Option (BitVec 32))
  /-- `shutdown(true)` of the link. -/
  | linkFailed
  /-- The link writes a packet of its queue. -/
  | written
  /-- The login server handles a packet. -/
  | delivered

/-- Connection `i`, if it can register with the packet. -/
def State.registering (s : State) (i : ℕ) (P : IscServerRegister) : Option Conn :=
  if s.locked then none
  else s.accepted[i]?.filter fun c =>
    c.active ∧ c.isc.type = .LOGIN ∧ P.serverType = .MAP_MASTER

/-- Connection `i`, if it is active. -/
def State.activeConn (s : State) (i : ℕ) : Option Conn :=
  s.accepted[i]?.filter Conn.active

/-- The link has been shut down, and it connects again if it can. -/
def linkClosed (world : World) (s : State) : Option (BitVec 32) → State
  | none => { s with link := .down }
  | some id =>
      -- `OnConnected` comes behind what the queue still holds
      { s with queue := s.queue ++ [.register world.P], wire := [], login := { id := id } }

/-- The link writes a packet. -/
def write (s : State) : State :=
  match s.link, s.queue with
  | .up, message :: queue => { s with queue := queue, wire := s.wire ++ [message] }
  | _, _ => s

/-- The login server handles a packet. -/
def deliver (s : State) : State :=
  match s.wire with
  | message :: wire => { s with wire := wire, login := s.login.handle message }
  | [] => s

/-- The state after one event; one that cannot happen changes nothing. -/
def next (world : World) (s : State) : Event → State
  | .accepted now =>
      if s.locked then s
      else { s with
        accepted := { isc := { id := s.serverCount }, updateTime := now } :: s.accepted
        serverCount := s.serverCount + 1 }
  | .register i P =>
      match s.registering i P with
      | none => s
      | some c => serverRegister s i c P
  | .heard i now =>
      { s with accepted := s.accepted.modify i fun c => { c with updateTime := now } }
  | .closed i =>
      match s.activeConn i with
      | none => s
      | some c =>
          -- `OnShutdown` of a registered connection waits for the mutex
          if s.locked ∧ c.isc.type ≠ .LOGIN then s else shutdown s i c
  | .failed i =>
      match s.activeConn i with
      | none => s
      | some c => { s with accepted := s.accepted.set i { c with active := false } }
  | .sweep now =>
      if s.locked then s
      else
        let swept := timeOuts now (s.accepted.filter Conn.active)
        { s with
          accepted := swept.1
          locked := swept.2
          link := if s.link = .down then .removed else s.link }
  | .linkClosed reconnected => if s.link ≠ .up then s else linkClosed world s reconnected
  | .linkFailed => if s.link ≠ .up then s else { s with link := .down }
  | .written => write s
  | .delivered => deliver s

/-- A char server whose link has just been made. -/
def start (world : World) (id : BitVec 32) : State where
  link := .up
  queue := [.register world.P]
  login := { id := id }

/-! ## The list and what it is to say -/

/-- The ids and the names of a list of channels. -/
def view (list : List ChannelInfo) : List (BitVec 32 × String) :=
  list.map fun channel => (channel.ChannelID.setWidth 32, channel.channelName)

/-- What the login server lists when all that is on its way has come. -/
def State.listed (s : State) : List (BitVec 32 × String) :=
  view ((s.wire ++ s.queue).foldl CountedISC.handle s.login).channelList

/-- The map servers that are registered at the char server. -/
def State.live (s : State) : List (BitVec 32 × String) :=
  (s.accepted.filter Conn.isMap).map fun c => (c.isc.id, c.name)

/-- The char server can work, and the login server lists the map servers there are. -/
structure Sound (s : State) : Prop where
  unlocked : s.locked = false
  listed : s.link = .up → s.listed.Perm s.live

/-- The events that leave it so. -/
def Harmless (s : State) : Event → Prop
  | .register i P => ∀ c, s.registering i P = some c → s.link = .up →
      c.isc.id.toNat < 65536 ∧
        ∀ j c', j ≠ i → s.accepted[j]? = some c' → c'.isc.type ≠ .LOGIN
  | .closed i => ∀ c, s.accepted[i]? = some c → c.isMap → s.link = .up →
      ∀ j c', j ≠ i → s.accepted[j]? = some c' → c'.isMap → c'.isc.id ≠ c.isc.id
  | .failed i => ∀ c, s.accepted[i]? = some c → c.isMap → s.link ≠ .up
  | .sweep now => ∀ c ∈ s.accepted, c.isMap → c.timedOut now = false
  | .linkClosed (some _) => s.link = .up →
      ∀ channel ∈ view (s.wire.foldl CountedISC.handle s.login).channelList,
        ∃ P, .shutdown P ∈ s.queue ∧ P.id = channel.1
  | _ => True

/-! ## The list as a replica -/

/-- What a message changes of the list. -/
def change : Message → Option (Change (BitVec 32) String)
  | .register P =>
      if P.serverType = .MAP_MASTER then some (.add ((P.id.setWidth 16).setWidth 32) P.name)
      else none
  | .shutdown P => some (.remove P.id)

theorem view_handle (isc : CountedISC) (message : Message) :
    view (isc.handle message).channelList =
      ([message].filterMap change).foldl apply (view isc.channelList) := by
  cases message with
  | register P =>
      by_cases hP : P.serverType = .MAP_MASTER
      · simp [CountedISC.handle, CountedISC.serverRegister, Channels.LoginISC.serverRegister,
          change, hP, apply, view]
      · -- any other server is left out of the list
        have hsame : (isc.toLoginISC.serverRegister P).channelList = isc.channelList := by
          unfold Channels.LoginISC.serverRegister
          split
          · rfl
          · exact absurd ‹_› hP
          · rfl
        simp [CountedISC.handle, CountedISC.serverRegister, change, hP, hsame]
  | shutdown P =>
      simp [CountedISC.handle, CountedISC.serverShutdown, change, apply, view, List.filter_map,
        Function.comp_def]

theorem view_foldl (messages : List Message) (isc : CountedISC) :
    view (messages.foldl CountedISC.handle isc).channelList =
      (messages.filterMap change).foldl apply (view isc.channelList) := by
  induction messages generalizing isc with
  | nil => rfl
  | cons message messages ih =>
      rw [List.foldl_cons, ih, view_handle, ← List.foldl_append, ← List.filterMap_append,
        List.singleton_append]

theorem listed_send (s : State) (message : Message) :
    (s.send message).listed = ([message].filterMap change).foldl apply s.listed := by
  rw [State.listed, State.send, ← List.append_assoc, List.foldl_append, List.foldl_cons,
    List.foldl_nil, view_handle]
  rfl

theorem anyRemoves_change_iff (messages : List Message) (id : BitVec 32) :
    anyRemoves (messages.filterMap change) id = true ↔
      ∃ P, .shutdown P ∈ messages ∧ P.id = id := by
  simp only [anyRemoves, List.any_eq_true, List.mem_filterMap]
  constructor
  · rintro ⟨c, ⟨message, hmessage, hc⟩, hremoves⟩
    cases message with
    | register P =>
        obtain ⟨_, hc⟩ := Option.ite_none_right_eq_some.mp hc
        obtain rfl := Option.some.inj hc
        exact absurd hremoves (by simp [Change.removes])
    | shutdown P =>
        obtain rfl := Option.some.inj hc
        exact ⟨P, hmessage, of_decide_eq_true hremoves⟩
  · rintro ⟨P, hP, hid⟩
    exact ⟨.remove P.id, ⟨.shutdown P, hP, rfl⟩, decide_eq_true hid⟩

/-! ## The map servers of a list of connections -/

def Conn.entry (c : Conn) : BitVec 32 × String :=
  (c.isc.id, c.name)

def mapsOf (conns : List Conn) : List (BitVec 32 × String) :=
  (conns.filter Conn.isMap).map Conn.entry

theorem live_eq (s : State) : s.live = mapsOf s.accepted := rfl

theorem mapsOf_append (conns conns' : List Conn) :
    mapsOf (conns ++ conns') = mapsOf conns ++ mapsOf conns' := by
  rw [mapsOf, List.filter_append, List.map_append]
  rfl

theorem mapsOf_cons (c : Conn) (conns : List Conn) :
    mapsOf (c :: conns) = if c.isMap then c.entry :: mapsOf conns else mapsOf conns := by
  rw [mapsOf, List.filter_cons]
  split_ifs <;> rfl

theorem mem_mapsOf {conns : List Conn} {entry : BitVec 32 × String} :
    entry ∈ mapsOf conns ↔ ∃ c ∈ conns, c.isMap = true ∧ c.entry = entry := by
  simp only [mapsOf, List.mem_map, List.mem_filter, and_assoc]

/-- A place of a list: what stands before and behind it. -/
theorem exists_place {conns : List Conn} {i : ℕ} {c : Conn} (h : conns[i]? = some c) :
    ∃ front back, conns = front ++ c :: back ∧
      (∀ c', conns.set i c' = front ++ c' :: back) ∧
      ∀ c', c' ∈ front ++ back ↔ ∃ j, j ≠ i ∧ conns[j]? = some c' := by
  obtain ⟨hlt, rfl⟩ := List.getElem?_eq_some_iff.mp h
  refine ⟨conns.take i, conns.drop (i + 1), ?_, fun c' => ?_, fun c' => ?_⟩
  · rw [List.getElem_cons_drop, List.take_append_drop]
  · rw [List.set_eq_take_append_cons_drop, if_pos hlt]
  · rw [List.mem_append, List.mem_iff_getElem?, List.mem_iff_getElem?]
    -- the others stand before it or behind it
    constructor
    · rintro (⟨j, hj⟩ | ⟨j, hj⟩)
      · rw [List.getElem?_take] at hj
        split_ifs at hj with hji
        exact ⟨j, by omega, hj⟩
      · rw [List.getElem?_drop] at hj
        exact ⟨i + 1 + j, by omega, hj⟩
    · rintro ⟨j, hne, hj⟩
      rcases Nat.lt_or_gt_of_ne hne with hlt' | hgt
      · exact Or.inl ⟨j, by rw [List.getElem?_take, if_pos hlt', hj]⟩
      · exact Or.inr ⟨j - (i + 1), by rw [List.getElem?_drop, ← hj]; congr 1; omega⟩

/-! ## One event -/

/-- A connection is of type `LOGIN` until it has registered. -/
def Typed (s : State) : Prop :=
  ∀ c ∈ s.accepted, c.isc.type = .LOGIN ∨ c.isc.type = .MAP_MASTER

theorem isMap_iff {c : Conn} : c.isMap = true ↔ c.active = true ∧ c.isc.type = .MAP_MASTER := by
  simp [Conn.isMap]

section Step

variable {s s' : State}

/-- A change that the list at the login server and the map servers do not notice. -/
theorem Sound.congr (hs : Sound s) (hlocked : s'.locked = false)
    (hlink : s'.link = .up → s.link = .up) (hlisted : s'.link = .up → s'.listed = s.listed)
    (hlive : s'.live = s.live) : Sound s' := by
  refine ⟨hlocked, fun hup => ?_⟩
  rw [hlisted hup, hlive]
  exact hs.listed (hlink hup)

/-- Nothing is asked of the list once the link is gone. -/
theorem Sound.of_not_up (hlocked : s'.locked = false) (hlink : s'.link ≠ .up) : Sound s' :=
  ⟨hlocked, fun hup => absurd hup hlink⟩

theorem activeConn_eq_some_iff {i : ℕ} {c : Conn} :
    s.activeConn i = some c ↔ s.accepted[i]? = some c ∧ c.active = true := by
  rw [State.activeConn, Option.filter_eq_some_iff]

/-- Without its connection `i` a list has the map servers before and behind it. -/
theorem live_set {conns front back : List Conn} {i : ℕ} {c : Conn} (hc : c.isMap = false)
    (hset : conns.set i c = front ++ c :: back) :
    mapsOf (conns.set i c) = mapsOf front ++ mapsOf back := by
  rw [hset, mapsOf_append, mapsOf_cons, hc]
  rfl

theorem sound_shutdown_iff (hs : Sound s) {i : ℕ} {c : Conn} (hc : s.accepted[i]? = some c)
    (hmap : c.isc.type ≠ .LOGIN → c.isMap = true) :
    Sound (shutdown s i c) ↔ (c.isMap → s.link = .up →
      ∀ j c', j ≠ i → s.accepted[j]? = some c' → c'.isMap → c'.isc.id ≠ c.isc.id) := by
  obtain ⟨front, back, hconns, hset, hothers⟩ := exists_place hc
  have hset' := live_set (c := { c with active := false }) (by simp [Conn.isMap])
    (hset { c with active := false })
  have hlive : mapsOf s.accepted = mapsOf front ++ if c.isMap then c.entry :: mapsOf back
      else mapsOf back := by
    rw [hconns, mapsOf_append, mapsOf_cons]
  unfold shutdown
  dsimp only
  by_cases hlogin : c.isc.type = .LOGIN
  · -- a connection that never registered is in no list
    have hnot : c.isMap = false := by simp [Conn.isMap, hlogin]
    rw [if_pos hlogin]
    refine iff_of_true (hs.congr hs.unlocked id (fun _ => rfl) ?_) (by simp [hnot])
    rw [live_eq, live_eq, hset', hlive, hnot]
    rfl
  rw [if_neg hlogin]
  have hisMap := hmap hlogin
  rw [if_pos hisMap] at hlive
  by_cases hlink : s.link = .up
  · have hup : s.link ≠ .removed := by simp [hlink]
    rw [if_neg hup]
    have hperm : s.listed.Perm (mapsOf front ++ c.entry :: mapsOf back) :=
      hlive ▸ hs.listed hlink
    -- the message takes every server of that id out
    have hshutdown : Sound (State.send
        { s with accepted := s.accepted.set i { c with active := false } }
        (.shutdown { serverType := c.isc.type, id := c.isc.id })) ↔
        (apply s.listed (.remove c.entry.1)).Perm (mapsOf front ++ mapsOf back) := by
      constructor
      · intro h
        have hafter := h.listed hlink
        rw [listed_send, live_eq] at hafter
        exact hset' ▸ hafter
      · refine fun h => ⟨hs.unlocked, fun _ => ?_⟩
        rw [listed_send, live_eq]
        exact hset'.symm ▸ h
    refine hshutdown.trans ((perm_remove_iff hperm).trans ?_)
    rw [← mapsOf_append]
    constructor
    · intro h _ _ j c' hne hj hc'
      exact h c'.entry (mem_mapsOf.mpr ⟨c', (hothers c').mpr ⟨j, hne, hj⟩, hc', rfl⟩)
    · intro h other hother
      obtain ⟨c', hmem, hc', rfl⟩ := mem_mapsOf.mp hother
      obtain ⟨j, hne, hj⟩ := (hothers c').mp hmem
      exact h hisMap hlink j c' hne hj hc'
  · refine iff_of_true ?_ (fun _ hup => absurd hup hlink)
    split_ifs
    · exact .of_not_up hs.unlocked hlink
    · exact .of_not_up hs.unlocked hlink

theorem sound_failed_iff (hs : Sound s) {i : ℕ} {c : Conn} (hc : s.accepted[i]? = some c) :
    Sound { s with accepted := s.accepted.set i { c with active := false } } ↔
      (c.isMap → s.link ≠ .up) := by
  obtain ⟨front, back, hconns, hset, _⟩ := exists_place hc
  have hset' := live_set (c := { c with active := false }) (by simp [Conn.isMap])
    (hset { c with active := false })
  have hlive : mapsOf s.accepted = mapsOf front ++ if c.isMap then c.entry :: mapsOf back
      else mapsOf back := by
    rw [hconns, mapsOf_append, mapsOf_cons]
  constructor
  · intro h hisMap hlink
    -- the list is as long as before, and there is one map server less
    have hbefore := (hs.listed hlink).length_eq
    have hafter := (h.listed hlink).length_eq
    rw [live_eq, hlive, if_pos hisMap, List.length_append, List.length_cons] at hbefore
    rw [live_eq, hset', List.length_append] at hafter
    have hsame : s.listed.length = (State.listed
      { s with accepted := s.accepted.set i { c with active := false } }).length := rfl
    omega
  · intro h
    -- it was no map server, or there is nobody to tell
    by_cases hisMap : c.isMap = true
    · exact .of_not_up hs.unlocked (h hisMap)
    · refine hs.congr hs.unlocked id (fun _ => rfl) ?_
      rw [live_eq, live_eq, hset', hlive, if_neg hisMap]

theorem registering_eq_some_iff {i : ℕ} {P : IscServerRegister} {c : Conn} :
    s.registering i P = some c ↔ s.locked = false ∧ s.accepted[i]? = some c ∧
      c.active = true ∧ c.isc.type = .LOGIN ∧ P.serverType = .MAP_MASTER := by
  unfold State.registering
  split_ifs with hlocked
  · simp [hlocked]
  · simp [hlocked, Option.filter_eq_some_iff]

/-- What is sent for a registration adds it to the list, under the low half of the id. -/
theorem change_register {isc : CharISC} {P : IscServerRegister}
    (hP : P.serverType = .MAP_MASTER) :
    [Message.register (isc.serverRegister P).2].filterMap change =
      [.add ((isc.id.setWidth 16).setWidth 32) P.name] := by
  simp [change, CharISC.serverRegister, hP]

theorem any_set_iff {i : ℕ} {c c' : Conn} (hc : s.accepted[i]? = some c)
    (htype : c'.isc.type = .MAP_MASTER) :
    ((s.accepted.set i c').any fun d => d.isc.type = .LOGIN) = true ↔
      ¬ ∀ j d, j ≠ i → s.accepted[j]? = some d → d.isc.type ≠ .LOGIN := by
  obtain ⟨front, back, _, hset, hothers⟩ := exists_place hc
  rw [hset, List.any_eq_true]
  constructor
  · rintro ⟨d, hd, hlogin⟩ hall
    have hlogin' : d.isc.type = .LOGIN := of_decide_eq_true hlogin
    -- the connection itself is registered
    have hother : d ∈ front ++ back := by
      rcases List.mem_append.mp hd with hd | hd
      · exact List.mem_append_left _ hd
      rcases List.mem_cons.mp hd with rfl | hd
      · rw [htype] at hlogin'
        exact absurd hlogin' (by simp)
      · exact List.mem_append_right _ hd
    obtain ⟨j, hne, hj⟩ := (hothers d).mp hother
    exact hall j d hne hj hlogin'
  · intro h
    push Not at h
    obtain ⟨j, d, hne, hj, hlogin⟩ := h
    refine ⟨d, ?_, decide_eq_true hlogin⟩
    rcases List.mem_append.mp ((hothers d).mpr ⟨j, hne, hj⟩) with hd | hd
    · exact List.mem_append_left _ hd
    · exact List.mem_append_right _ (List.mem_cons_of_mem _ hd)

theorem sound_serverRegister_iff (hs : Sound s) {i : ℕ} {c : Conn} {P : IscServerRegister}
    (h : s.registering i P = some c) :
    Sound (serverRegister s i c P) ↔ (s.link = .up → c.isc.id.toNat < 65536 ∧
      ∀ j c', j ≠ i → s.accepted[j]? = some c' → c'.isc.type ≠ .LOGIN) := by
  obtain ⟨_, hc, hactive, hlogin, hP⟩ := registering_eq_some_iff.mp h
  obtain ⟨front, back, hconns, hset, _⟩ := exists_place hc
  let c' : Conn := { c with isc := (c.isc.serverRegister P).1, name := P.name }
  have htype : c'.isc.type = .MAP_MASTER := hP
  have hisMap : c'.isMap = true := isMap_iff.mpr ⟨hactive, htype⟩
  have hentry : c'.entry = (c.isc.id, P.name) := rfl
  have hany := any_set_iff hc htype
  -- the connection was no map server, and is one now
  have hlive : s.live = mapsOf front ++ mapsOf back := by
    rw [live_eq, hconns, mapsOf_append, mapsOf_cons, if_neg (by simp [Conn.isMap, hlogin])]
  have hlive' : (mapsOf (s.accepted.set i c')).Perm (c'.entry :: s.live) := by
    rw [hset, mapsOf_append, mapsOf_cons, if_pos hisMap, hlive]
    exact List.perm_middle
  have heq : serverRegister s i c P = (relay { s with accepted := s.accepted.set i c' }
      (.register (c.isc.serverRegister P).2)).getD
        (shutdown { s with accepted := s.accepted.set i c' } i c') := rfl
  rw [heq]
  unfold relay
  dsimp only
  by_cases hup : s.link = .up
  · by_cases hlost : ∀ j d, j ≠ i → s.accepted[j]? = some d → d.isc.type ≠ .LOGIN
    · rw [if_neg (fun hlogin => hany.mp hlogin hlost), if_neg (by simp [hup]), Option.getD_some]
      -- the lists agree if the id is the same after 16 bits of it
      have hadd := @perm_add_iff _ _ _ _ (hs.listed hup)
        ((c.isc.id.setWidth 16).setWidth 32, P.name) c'.entry
      have hsent : Sound (State.send { s with accepted := s.accepted.set i c' }
          (.register (c.isc.serverRegister P).2)) ↔
          (((c.isc.id.setWidth 16).setWidth 32, P.name) :: s.listed).Perm (c'.entry :: s.live) := by
        constructor
        · intro h
          have hafter := h.listed hup
          rw [listed_send, change_register hP] at hafter
          exact hafter.trans hlive'
        · refine fun h => ⟨hs.unlocked, fun _ => ?_⟩
          rw [listed_send, change_register hP]
          exact h.trans hlive'.symm
      rw [hsent, hadd, hentry, Prod.mk.injEq, ChannelRegistry.setWidth_setWidth_eq_iff]
      exact ⟨fun hid _ => ⟨hid.1, hlost⟩, fun hid => ⟨(hid hup).1, rfl⟩⟩
    · rw [if_pos (hany.mpr hlost), Option.getD_some]
      -- the registration went to a connection that has not registered
      refine iff_of_false (fun h => ?_) (fun h => hlost (h hup).2)
      have hbefore := (hs.listed hup).length_eq
      have hafter := ((h.listed hup).trans hlive').length_eq
      have hsame : s.listed.length =
          (State.listed { s with accepted := s.accepted.set i c' }).length := rfl
      rw [List.length_cons] at hafter
      omega
  · refine iff_of_true ?_ (fun hup' => absurd hup' hup)
    split_ifs
    · exact .of_not_up hs.unlocked hup
    · rw [Option.getD_none]
      unfold shutdown
      dsimp only
      split_ifs
      · exact .of_not_up hs.unlocked hup
      · exact .of_not_up hs.unlocked hup
    · exact .of_not_up hs.unlocked hup

/-- A pass comes to an end unless it times out a connection that is registered. -/
theorem timeOuts_iff (now : ℕ) (conns : List Conn) :
    (timeOuts now conns).2 = false ↔
      ∀ c ∈ conns, c.timedOut now = true → c.isc.type = .LOGIN := by
  induction conns with
  | nil => simp [timeOuts]
  | cons c conns ih =>
      rw [List.forall_mem_cons, timeOuts]
      split_ifs with htimedOut hlogin
      · simpa [hlogin] using ih
      · simp [htimedOut, hlogin]
      · simpa [htimedOut] using ih

/-- Whoever is timed out in it was no map server. -/
theorem mapsOf_timeOuts (now : ℕ) (conns : List Conn) :
    mapsOf (timeOuts now conns).1 = mapsOf conns := by
  induction conns with
  | nil => rfl
  | cons c conns ih =>
      rw [timeOuts]
      split_ifs with htimedOut hlogin
      · rw [mapsOf_cons, mapsOf_cons, ih, if_neg (by simp [Conn.isMap]),
          if_neg (by simp [Conn.isMap, hlogin])]
      · rfl
      · rw [mapsOf_cons, mapsOf_cons, ih]

theorem mapsOf_filter_active (conns : List Conn) :
    mapsOf (conns.filter Conn.active) = mapsOf conns := by
  rw [mapsOf, List.filter_filter, mapsOf]
  congr 1
  refine List.filter_congr fun c _ => ?_
  cases hactive : c.active <;> simp [Conn.isMap, hactive]

theorem sound_sweep_iff {world : World} (hs : Sound s) (htyped : Typed s) (now : ℕ) :
    Sound (next world s (.sweep now)) ↔ ∀ c ∈ s.accepted, c.isMap → c.timedOut now = false := by
  have hlocked := hs.unlocked
  have hends : (timeOuts now (s.accepted.filter Conn.active)).2 = false ↔
      ∀ c ∈ s.accepted, c.isMap → c.timedOut now = false := by
    rw [timeOuts_iff]
    constructor
    · intro h c hc hisMap
      obtain ⟨hactive, htype⟩ := isMap_iff.mp hisMap
      by_contra htimedOut
      have hlogin := h c (List.mem_filter.mpr ⟨hc, hactive⟩) (by simpa using htimedOut)
      rw [htype] at hlogin
      exact absurd hlogin (by simp)
    · intro h c hc htimedOut
      obtain ⟨hc, hactive⟩ := List.mem_filter.mp hc
      refine (htyped c hc).resolve_right fun htype => ?_
      rw [h c hc (isMap_iff.mpr ⟨hactive, htype⟩)] at htimedOut
      exact absurd htimedOut (by simp)
  rw [next, if_neg (by simp [hlocked])]
  dsimp only
  refine ⟨fun h => hends.mp h.unlocked, fun h => ?_⟩
  refine hs.congr (hends.mpr h) (fun hup => ?_) (fun _ => rfl) ?_
  · dsimp only at hup
    split_ifs at hup
    exact hup
  · rw [live_eq, live_eq]
    exact (mapsOf_timeOuts now _).trans (mapsOf_filter_active _)

/-- A link that is made anew loses what was written on the old one. -/
theorem sound_reconnected_iff {world : World} (hs : Sound s) (hup : s.link = .up)
    (id : BitVec 32) :
    Sound { s with queue := s.queue ++ [.register world.P], wire := [], login := { id := id } } ↔
      ∀ channel ∈ view (s.wire.foldl CountedISC.handle s.login).channelList,
        ∃ P, .shutdown P ∈ s.queue ∧ P.id = channel.1 := by
  have hbefore : s.listed = (s.queue.filterMap change).foldl apply [] ++
      (view (s.wire.foldl CountedISC.handle s.login).channelList).filter
        fun entry => !anyRemoves (s.queue.filterMap change) entry.1 := by
    rw [State.listed, List.foldl_append, view_foldl, ← foldl_apply_append, List.nil_append]
  have hafter : State.listed { s with
      queue := s.queue ++ [.register world.P], wire := [], login := { id := id } } =
      (s.queue.filterMap change).foldl apply [] := by
    have hworld : [Message.register world.P].filterMap change = [] := by
      simp [change, world.isChar]
    rw [State.listed, List.nil_append, view_foldl, List.filterMap_append, hworld, List.append_nil]
    rfl
  have hperm := hs.listed hup
  rw [hbefore] at hperm
  have hrestart : Sound { s with
      queue := s.queue ++ [.register world.P], wire := [], login := { id := id } } ↔
      ((s.queue.filterMap change).foldl apply []).Perm s.live := by
    rw [← hafter]
    exact ⟨fun h => h.listed hup, fun h => ⟨hs.unlocked, fun _ => h⟩⟩
  rw [hrestart, perm_restart_iff hperm, List.filter_eq_nil_iff]
  refine forall₂_congr fun channel _ => ?_
  rw [Bool.not_eq_true, Bool.not_eq_false', anyRemoves_change_iff]

theorem mapsOf_modify (conns : List Conn) (i now : ℕ) :
    mapsOf (conns.modify i fun c => { c with updateTime := now }) = mapsOf conns := by
  induction conns generalizing i with
  | nil => cases i <;> rfl
  | cons c conns ih =>
      cases i with
      | zero =>
          rw [List.modify_zero_cons, mapsOf_cons, mapsOf_cons]
          rfl
      | succ i => rw [List.modify_succ_cons, mapsOf_cons, mapsOf_cons, ih]

/-- A packet that is written is on its way as before. -/
theorem write_spec (s : State) : (write s).listed = s.listed ∧ (write s).locked = s.locked ∧
    (write s).link = s.link ∧ (write s).accepted = s.accepted := by
  unfold write
  split
  · next message queue _ hqueue =>
      refine ⟨?_, rfl, rfl, rfl⟩
      rw [State.listed, State.listed, hqueue, List.append_assoc, List.singleton_append]
  · exact ⟨rfl, rfl, rfl, rfl⟩

/-- A packet that is handled has come. -/
theorem deliver_spec (s : State) : (deliver s).listed = s.listed ∧
    (deliver s).locked = s.locked ∧ (deliver s).link = s.link ∧
    (deliver s).accepted = s.accepted := by
  unfold deliver
  split
  · next message wire hwire =>
      refine ⟨?_, rfl, rfl, rfl⟩
      rw [State.listed, State.listed, hwire, List.cons_append, List.foldl_cons]
  · exact ⟨rfl, rfl, rfl, rfl⟩

/-- **An event keeps the char server and the list sound** exactly when it is harmless. -/
theorem sound_next_iff (world : World) (htyped : Typed s) (hs : Sound s) (e : Event) :
    Sound (next world s e) ↔ Harmless s e := by
  have hlocked := hs.unlocked
  cases e with
  | accepted now =>
      rw [next, if_neg (by simp [hlocked])]
      refine iff_of_true (hs.congr hlocked id (fun _ => rfl) ?_) trivial
      rw [live_eq, live_eq, mapsOf_cons, if_neg (by simp [Conn.isMap])]
  | register i P =>
      rw [next]
      cases h : s.registering i P with
      | none => exact iff_of_true hs (fun c hc => absurd (h.symm.trans hc) (by simp))
      | some c =>
          refine (sound_serverRegister_iff hs h).trans
            ⟨fun hharmless c' hc' => ?_, fun hharmless => ?_⟩
          · obtain rfl := Option.some.inj (h.symm.trans hc')
            exact hharmless
          · exact hharmless c h
  | heard i now =>
      exact iff_of_true (hs.congr hlocked id (fun _ => rfl) (mapsOf_modify _ i now)) trivial
  | closed i =>
      rw [next]
      cases h : s.activeConn i with
      | none =>
          refine iff_of_true hs fun c hc hisMap => ?_
          have hactive := activeConn_eq_some_iff.mpr ⟨hc, (isMap_iff.mp hisMap).1⟩
          exact absurd (h.symm.trans hactive) (by simp)
      | some c =>
          obtain ⟨hc, hactive⟩ := activeConn_eq_some_iff.mp h
          have hmap : c.isc.type ≠ .LOGIN → c.isMap = true := fun htype =>
            isMap_iff.mpr ⟨hactive, (htyped c (List.mem_of_getElem? hc)).resolve_left htype⟩
          dsimp only
          rw [if_neg (by simp [hlocked])]
          refine (sound_shutdown_iff hs hc hmap).trans
            ⟨fun hharmless c' hc' => ?_, fun hharmless => ?_⟩
          · obtain rfl := Option.some.inj (hc.symm.trans hc')
            exact hharmless
          · exact hharmless c hc
  | failed i =>
      rw [next]
      cases h : s.activeConn i with
      | none =>
          refine iff_of_true hs fun c hc hisMap => ?_
          have hactive := activeConn_eq_some_iff.mpr ⟨hc, (isMap_iff.mp hisMap).1⟩
          exact absurd (h.symm.trans hactive) (by simp)
      | some c =>
          obtain ⟨hc, _⟩ := activeConn_eq_some_iff.mp h
          refine (sound_failed_iff hs hc).trans ⟨fun hharmless c' hc' => ?_, fun hharmless => ?_⟩
          · obtain rfl := Option.some.inj (hc.symm.trans hc')
            exact hharmless
          · exact hharmless c hc
  | sweep now => exact sound_sweep_iff hs htyped now
  | linkClosed reconnected =>
      rw [next]
      by_cases hup : s.link = .up
      · rw [if_neg (not_not.mpr hup)]
        cases reconnected with
        | none => exact iff_of_true (.of_not_up hlocked (by simp [linkClosed])) trivial
        | some id => exact (sound_reconnected_iff hs hup id).trans ⟨fun h _ => h, fun h => h hup⟩
      · rw [if_pos hup]
        refine iff_of_true hs ?_
        cases reconnected with
        | none => trivial
        | some id => exact fun hup' => absurd hup' hup
  | linkFailed =>
      refine iff_of_true ?_ trivial
      rw [next]
      split_ifs
      · exact hs
      · exact .of_not_up hlocked (by simp)
  | written =>
      obtain ⟨hlisted, hlocked', hlink, haccepted⟩ := write_spec s
      exact iff_of_true (hs.congr (hlocked'.trans hlocked) hlink.symm.trans (fun _ => hlisted)
        (congrArg mapsOf haccepted)) trivial
  | delivered =>
      obtain ⟨hlisted, hlocked', hlink, haccepted⟩ := deliver_spec s
      exact iff_of_true (hs.congr (hlocked'.trans hlocked) hlink.symm.trans (fun _ => hlisted)
        (congrArg mapsOf haccepted)) trivial

theorem Typed.set (h : Typed s) {c : Conn} (hc : c.isc.type = .LOGIN ∨ c.isc.type = .MAP_MASTER)
    (i : ℕ) : Typed { s with accepted := s.accepted.set i c } := by
  intro c' hc'
  rcases List.mem_or_eq_of_mem_set hc' with hc' | rfl
  · exact h c' hc'
  · exact hc

theorem Typed.shutdown (h : Typed s) {i : ℕ} {c : Conn}
    (hc : c.isc.type = .LOGIN ∨ c.isc.type = .MAP_MASTER) :
    Typed (Directory.shutdown s i c) := by
  have hset : Typed { s with accepted := s.accepted.set i { c with active := false } } :=
    Typed.set (c := { c with active := false }) h hc i
  unfold Directory.shutdown
  dsimp only
  split_ifs <;> exact hset

theorem Typed.serverRegister (h : Typed s) {i : ℕ} {c : Conn} {P : IscServerRegister}
    (hP : P.serverType = .MAP_MASTER) : Typed (Directory.serverRegister s i c P) := by
  have hset : Typed { s with
      accepted := s.accepted.set i { c with isc := (c.isc.serverRegister P).1, name := P.name } } :=
    Typed.set (c := { c with isc := (c.isc.serverRegister P).1, name := P.name }) h
      (Or.inr hP) i
  unfold Directory.serverRegister relay
  dsimp only
  split_ifs
  · exact hset
  · exact hset.shutdown (Or.inr hP)
  · exact hset

/-- A pass over the list removes connections and ends some, and sets no type. -/
theorem type_timeOuts {now : ℕ} {conns : List Conn} {c : Conn} (hc : c ∈ (timeOuts now conns).1) :
    ∃ c' ∈ conns, c'.isc.type = c.isc.type := by
  induction conns with
  | nil => exact absurd hc (by simp [timeOuts])
  | cons c' conns ih =>
      rw [timeOuts] at hc
      split_ifs at hc
      · rcases List.mem_cons.mp hc with rfl | hc
        · exact ⟨c', List.mem_cons_self, rfl⟩
        · obtain ⟨d, hd, htype⟩ := ih hc
          exact ⟨d, List.mem_cons_of_mem _ hd, htype⟩
      · exact ⟨c, hc, rfl⟩
      · rcases List.mem_cons.mp hc with rfl | hc
        · exact ⟨c, List.mem_cons_self, rfl⟩
        · obtain ⟨d, hd, htype⟩ := ih hc
          exact ⟨d, List.mem_cons_of_mem _ hd, htype⟩

theorem typed_next (world : World) (h : Typed s) (e : Event) : Typed (next world s e) := by
  cases e with
  | accepted now =>
      rw [next]
      split_ifs
      · exact h
      · exact List.forall_mem_cons.mpr ⟨Or.inl rfl, h⟩
  | register i P =>
      rw [next]
      cases hc : s.registering i P with
      | none => exact h
      | some c => exact h.serverRegister (registering_eq_some_iff.mp hc).2.2.2.2
  | heard i now =>
      rw [next]
      intro c hc
      obtain ⟨j, hj⟩ := List.mem_iff_getElem?.mp hc
      rw [List.getElem?_modify] at hj
      obtain ⟨c', hc', rfl⟩ := Option.map_eq_some_iff.mp hj
      have htyped := h c' (List.mem_of_getElem? hc')
      split_ifs
      · exact htyped
      · exact htyped
  | closed i =>
      rw [next]
      cases hc : s.activeConn i with
      | none => exact h
      | some c =>
          dsimp only
          split_ifs
          · exact h
          · exact h.shutdown (h c (List.mem_of_getElem? (activeConn_eq_some_iff.mp hc).1))
  | failed i =>
      rw [next]
      cases hc : s.activeConn i with
      | none => exact h
      | some c =>
          have htype := h c (List.mem_of_getElem? (activeConn_eq_some_iff.mp hc).1)
          exact Typed.set (c := { c with active := false }) h htype i
  | sweep now =>
      rw [next]
      by_cases hlocked : s.locked = true
      · rw [if_pos hlocked]
        exact h
      · rw [if_neg hlocked]
        intro c hc
        obtain ⟨c', hc', htype⟩ := type_timeOuts hc
        exact htype ▸ h c' (List.mem_of_mem_filter hc')
  | linkClosed reconnected =>
      rw [next]
      split_ifs
      · exact h
      · cases reconnected <;> exact h
  | linkFailed =>
      rw [next]
      split_ifs <;> exact h
  | written => exact fun c hc => h c ((write_spec s).2.2.2 ▸ hc)
  | delivered => exact fun c hc => h c ((deliver_spec s).2.2.2 ▸ hc)

end Step

theorem sound_start (world : World) (id : BitVec 32) : Sound (start world id) := by
  refine ⟨rfl, fun _ => ?_⟩
  have hworld : [Message.register world.P].filterMap change = [] := by
    simp [change, world.isChar]
  have hlisted : (start world id).listed = [] := by
    rw [State.listed, view_foldl]
    exact congrArg (List.foldl apply []) hworld
  rw [hlisted]
  exact List.Perm.nil

/-- Map server `a` has connected, and `b` before `a` registers: the registration goes to `b`. -/
theorem not_sound_twoAtOnce :
    let world : World := ⟨⟨.CHAR, "char", "", 29100, 0, 0⟩, rfl⟩
    ¬ Sound ([.accepted 0, .accepted 0, .register 1 ⟨.MAP_MASTER, "a", "", 29200, 0, 0⟩].foldl
      (next world) (start world 0)) := by
  intro world h
  have hempty := (h.listed rfl).length_eq
  exact absurd hempty (by decide)

end OsIrose.Directory

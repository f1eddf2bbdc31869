/-
Channels, from the map server that registers one to the client that is sent there:
`login/src/cloginisc.cpp`, `login/src/cloginclient.cpp`, `char/src/ccharisc.cpp` and
`char/src/ccharclient.cpp`.

The char server numbers its connections with a `uint32_t`. On its way to the client and
back the number of a map server goes through an `int32_t`, a `uint16_t`, one more in a
`uint8_t`, one less in a `uint8_t` and a column of `sessions`, and is then compared with
the `uint32_t` again. What comes back is its low byte (`channelId_route`), and the list of
the channels counts them in a byte as well. `routed_iff` says when both do no harm.
-/
import Mathlib.Data.List.Forall2
import Mathlib.Data.List.Nodup
import Mathlib.Data.List.TakeDrop
import Mathlib.Tactic.Common

set_option autoImplicit false

namespace OsIrose.Channels

/-- `Isc::ServerType`. -/
inductive ServerType
  | LOGIN
  | CHAR
  | NODE
  | MAP_MASTER
  | MAP_WORKER
  deriving DecidableEq, Repr

/-- `IscServerRegister`; `port`, `right` and `id` are an `int32_t`. -/
structure IscServerRegister where
  serverType : ServerType
  name : String
  addr : String
  port : BitVec 32
  right : BitVec 32
  id : BitVec 32

/-! ## The char server -/

/-- A `CCharISC`; a connection is of type 0 before it registers. -/
structure CharISC where
  id : BitVec 32
  type : ServerType := .LOGIN
  address : String := ""
  port : BitVec 16 := 0

/-- `CCharISC::ServerRegister` for a map server: the connection after it, and the packet for
the login server. -/
def CharISC.serverRegister (isc : CharISC) (P : IscServerRegister) :
    CharISC × IscServerRegister :=
  let isc := { isc with type := P.serverType, address := P.addr, port := P.port.setWidth 16 }
  (isc, { serverType := P.serverType
          name := P.name
          addr := isc.address
          port := isc.port.setWidth 32
          right := P.right
          id := isc.id })

/-- `SrvSwitchServer`. -/
structure SrvSwitchServer where
  port : BitVec 16
  sessionId : BitVec 32
  sessionSeed : BitVec 32
  ip : String
  deriving DecidableEq, Repr

/-- The `SWITCH_SERVER` that sends a client with that session to a map of the server. -/
def CharISC.switchServer (server : CharISC) (mapId : BitVec 16) (sessionId : BitVec 32) :
    SrvSwitchServer where
  port := server.port + mapId
  sessionId := sessionId
  sessionSeed := 0
  ip := server.address

/-! ## The login server -/

/-- `tChannelInfo`. -/
structure ChannelInfo where
  channelName : String
  ChannelID : BitVec 16
  MinRight : BitVec 32

/-- A `CLoginISC`. -/
structure LoginISC where
  id : BitVec 32
  type : ServerType := .LOGIN
  serverName : String := ""
  address : String := ""
  port : BitVec 16 := 0
  minRight : BitVec 32 := 0
  channelList : List ChannelInfo := []

/-- `CLoginISC::ServerRegister`. -/
def LoginISC.serverRegister (isc : LoginISC) (P : IscServerRegister) : LoginISC :=
  match P.serverType with
  | .CHAR =>
      { isc with
        serverName := P.name
        address := P.addr
        port := P.port.setWidth 16
        minRight := P.right
        type := .CHAR }
  | .MAP_MASTER =>
      let channel : ChannelInfo :=
        { channelName := P.name, ChannelID := P.id.setWidth 16, MinRight := P.right }
      { isc with channelList := channel :: isc.channelList }
  | _ => isc

/-- `SrvChannelListReply::ChannelInfo`; the ages and the capacity are 0. -/
structure ReplyChannel where
  name : String
  id : BitVec 8
  deriving DecidableEq, Repr

/-- `CLoginClient::ChannelList`: the channels of the reply. -/
def channelList (iscList : List LoginISC) (serverId : BitVec 32) : List ReplyChannel :=
  let ServerID := serverId - 1
  (iscList.filter (fun server => server.type = .CHAR ∧ server.id = ServerID)).flatMap
    (fun server => server.channelList.map (fun info =>
      { name := info.channelName, id := BitVec.ofNat 8 (info.ChannelID.toNat + 1) }))

/-- The channels that a client reads: `pack` writes their number in a `uint8_t`. -/
def shown (channels : List ReplyChannel) : List ReplyChannel :=
  channels.take (channels.length % 256)

/-- `CLoginClient::ServerSelect`: `channelid` of the row of `sessions`, or `none` if there is
no such server. -/
def serverSelect (iscList : List LoginISC) (serverId : BitVec 32) (channelId : BitVec 8) :
    Option ℕ :=
  let serverID := serverId - 1
  let channelID := channelId - 1
  (iscList.find? (fun server => server.type = .CHAR ∧ server.id = serverID)).map
    (fun _ => channelID.toNat)

/-! ## The client at the char server -/

/-- `channelId_` after `CCharClient::JoinServerReply`. -/
def joinServer (channelid : ℕ) : BitVec 32 :=
  BitVec.ofNat 32 channelid

/-- `CCharClient::SendCharSelectReply`: the packets sent to a client that selects a character
on that map. -/
def sendCharSelectReply (iscList : List CharISC) (channelId sessionId : BitVec 32)
    (mapId : BitVec 16) : List SrvSwitchServer :=
  (iscList.filter (fun server => server.type = .MAP_MASTER ∧ server.id = channelId)).map
    (fun server => server.switchServer mapId sessionId)

/-! ## Map servers that have registered -/

/-- A map server: the number of its connection, and what it registered with. -/
structure MapServer where
  id : BitVec 32
  P : IscServerRegister
  isMap : P.serverType = .MAP_MASTER

/-- The connection of a map server after it has registered. -/
def MapServer.isc (m : MapServer) : CharISC :=
  (CharISC.serverRegister { id := m.id } m.P).1

/-- The packet the login server gets about it. -/
def MapServer.forwarded (m : MapServer) : IscServerRegister :=
  (CharISC.serverRegister { id := m.id } m.P).2

/-- A char server with the map servers that registered at it and were forwarded, and what
else is connected to it and to the login server. -/
structure Setup where
  maps : List MapServer
  /-- The char server never hands out a number twice. -/
  distinct : (maps.map MapServer.id).Nodup
  /-- The other connections of the char server. -/
  connections : List CharISC
  connections_type : ∀ isc ∈ connections, isc.type ≠ .MAP_MASTER
  /-- The char server's own registration at the login server, and the number it has there. -/
  world : IscServerRegister
  world_type : world.serverType = .CHAR
  worldId : BitVec 32
  /-- The other servers of the login server. -/
  others : List LoginISC
  others_id : ∀ isc ∈ others, isc.id ≠ worldId

namespace Setup

variable (s : Setup)

/-- The connections of the char server, the last one first. -/
def charList : List CharISC :=
  s.maps.reverse.map MapServer.isc ++ s.connections

/-- The char server as the login server knows it. -/
def worldISC : LoginISC :=
  (s.maps.map MapServer.forwarded).foldl LoginISC.serverRegister
    (LoginISC.serverRegister { id := s.worldId } s.world)

def loginList : List LoginISC :=
  s.worldISC :: s.others

/-- The channels that a client is shown for the char server. -/
def advertised : List ReplyChannel :=
  shown (channelList s.loginList (s.worldId + 1))

/-- What a client is sent that selects a channel and then a character on that map. -/
def route (channelId : BitVec 8) (sessionId : BitVec 32) (mapId : BitVec 16) :
    List SrvSwitchServer :=
  match serverSelect s.loginList (s.worldId + 1) channelId with
  | none => []
  | some channelid => sendCharSelectReply s.charList (joinServer channelid) sessionId mapId

end Setup

/-! ## What the hops make of a number -/

namespace MapServer

variable (m : MapServer)

/-- The channel of a map server as a client sees it. -/
def channel : ReplyChannel where
  name := m.P.name
  id := BitVec.ofNat 8 ((m.id.setWidth 16).toNat + 1)

@[simp] theorem isc_id : m.isc.id = m.id := rfl

@[simp] theorem isc_type : m.isc.type = .MAP_MASTER := m.isMap

theorem channel_id_sub_one : m.channel.id - 1 = m.id.setWidth 8 := by
  rw [channel]
  bv_omega

/-- Back at the char server there is the low byte of the number. -/
theorem joinServer_channel_id :
    joinServer (m.channel.id - 1).toNat = (m.id.setWidth 8).setWidth 32 := by
  rw [channel_id_sub_one, joinServer, BitVec.ofNat_toNat]

theorem low_byte_eq_iff (id : BitVec 32) :
    (id.setWidth 8).setWidth 32 = id ↔ id.toNat < 256 := by
  rw [← BitVec.toNat_inj]
  simp only [BitVec.toNat_setWidth]
  omega

/-- Two numbers are the same to a client exactly when their low bytes are. -/
theorem channel_id_eq_iff {m m' : MapServer} :
    m.channel.id = m'.channel.id ↔ m.id.setWidth 8 = m'.id.setWidth 8 := by
  rw [← channel_id_sub_one, ← channel_id_sub_one]
  constructor
  · exact fun h => by rw [h]
  · intro h
    bv_omega

theorem setWidth_eq_iff_of_lt {id id' : BitVec 32} (h : id.toNat < 256) (h' : id'.toNat < 256) :
    id.setWidth 8 = id'.setWidth 8 ↔ id = id' := by
  rw [← BitVec.toNat_inj, ← BitVec.toNat_inj]
  simp only [BitVec.toNat_setWidth]
  omega

end MapServer

namespace Setup

variable (s : Setup)

theorem channelList_foldl (maps : List MapServer) (isc : LoginISC) :
    ((maps.map MapServer.forwarded).foldl LoginISC.serverRegister isc).channelList =
      maps.reverse.map (fun m =>
        { channelName := m.P.name, ChannelID := m.id.setWidth 16, MinRight := m.P.right }) ++
        isc.channelList := by
  induction maps generalizing isc with
  | nil => rfl
  | cons m maps ih =>
      -- a map server is put in front of those before it
      have hlast : (isc.serverRegister m.forwarded).channelList =
          { channelName := m.P.name, ChannelID := m.id.setWidth 16, MinRight := m.P.right } ::
            isc.channelList := by
        simp only [LoginISC.serverRegister, MapServer.forwarded, CharISC.serverRegister, m.isMap]
      rw [List.map_cons, List.foldl_cons, ih, hlast, List.reverse_cons, List.map_append,
        List.append_assoc]
      rfl

/-- Registering a map server leaves the connection itself alone. -/
theorem foldl_serverRegister_id (maps : List MapServer) (isc : LoginISC) :
    ((maps.map MapServer.forwarded).foldl LoginISC.serverRegister isc).id = isc.id ∧
      ((maps.map MapServer.forwarded).foldl LoginISC.serverRegister isc).type = isc.type := by
  induction maps generalizing isc with
  | nil => exact ⟨rfl, rfl⟩
  | cons m maps ih =>
      rw [List.map_cons, List.foldl_cons, (ih _).1, (ih _).2]
      simp only [LoginISC.serverRegister, MapServer.forwarded, CharISC.serverRegister, m.isMap,
        and_self]

theorem worldISC_id : s.worldISC.id = s.worldId := by
  rw [worldISC, (foldl_serverRegister_id _ _).1]
  simp only [LoginISC.serverRegister, s.world_type]

theorem worldISC_type : s.worldISC.type = .CHAR := by
  rw [worldISC, (foldl_serverRegister_id _ _).2]
  simp only [LoginISC.serverRegister, s.world_type]

theorem worldISC_channelList : s.worldISC.channelList = s.maps.reverse.map (fun m =>
    { channelName := m.P.name, ChannelID := m.id.setWidth 16, MinRight := m.P.right }) := by
  rw [worldISC, channelList_foldl]
  simp only [LoginISC.serverRegister, s.world_type, List.append_nil]

/-- No other server answers for the char server. -/
theorem others_of_id : s.others.filter (fun server =>
    server.type = .CHAR ∧ server.id = s.worldId) = [] := by
  refine List.filter_eq_nil_iff.mpr fun isc hisc h => ?_
  exact s.others_id isc hisc (of_decide_eq_true h).2

theorem channelList_loginList :
    channelList s.loginList (s.worldId + 1) = s.maps.reverse.map MapServer.channel := by
  have hworld : decide (s.worldISC.type = .CHAR ∧ s.worldISC.id = s.worldId) = true :=
    decide_eq_true ⟨s.worldISC_type, s.worldISC_id⟩
  rw [channelList, loginList, BitVec.add_sub_cancel, List.filter_cons, if_pos hworld, others_of_id,
    List.flatMap_singleton, worldISC_channelList, List.map_map]
  rfl

theorem serverSelect_loginList (channelId : BitVec 8) :
    serverSelect s.loginList (s.worldId + 1) channelId = some (channelId - 1).toNat := by
  have hworld : decide (s.worldISC.type = .CHAR ∧ s.worldISC.id = s.worldId) = true :=
    decide_eq_true ⟨s.worldISC_type, s.worldISC_id⟩
  rw [serverSelect, loginList, BitVec.add_sub_cancel, List.find?_cons, hworld]
  rfl

/-- What a client is sent: the map servers with that number. -/
theorem route_eq (channelId : BitVec 8) (sessionId : BitVec 32) (mapId : BitVec 16) :
    s.route channelId sessionId mapId =
      (s.maps.reverse.filter (fun m => m.id = joinServer (channelId - 1).toNat)).map
        (fun m => m.isc.switchServer mapId sessionId) := by
  -- the other connections are of no map server
  have hothers : ∀ id, s.connections.filter (fun server =>
      server.type = .MAP_MASTER ∧ server.id = id) = [] := by
    refine fun id => List.filter_eq_nil_iff.mpr fun isc hisc h => ?_
    exact s.connections_type isc hisc (of_decide_eq_true h).1
  rw [route, serverSelect_loginList]
  simp only [sendCharSelectReply, charList, List.filter_append, hothers, List.append_nil,
    List.filter_map, List.map_map]
  congr 1
  refine List.filter_congr fun m _ => ?_
  exact decide_eq_decide.mpr (by simp)

/-- A number names one map server. -/
theorem filter_id {m : MapServer} (hm : m ∈ s.maps) :
    s.maps.reverse.filter (fun m' => m'.id = m.id) = [m] := by
  rw [List.filter_reverse, ← List.reverse_singleton]
  congr 1
  have hdistinct := s.distinct
  generalize s.maps = maps at hm hdistinct
  induction maps with
  | nil => exact absurd hm List.not_mem_nil
  | cons m₀ maps ih =>
      rw [List.map_cons, List.nodup_cons] at hdistinct
      rcases List.mem_cons.mp hm with rfl | hm
      · have hnone : maps.filter (fun m' => m'.id = m.id) = [] := by
          refine List.filter_eq_nil_iff.mpr fun m' hm' h => hdistinct.1 ?_
          exact List.mem_map.mpr ⟨m', hm', of_decide_eq_true h⟩
        rw [List.filter_cons, if_pos (decide_eq_true rfl), hnone]
      · have hne : m₀.id ≠ m.id := fun h =>
          hdistinct.1 (List.mem_map.mpr ⟨m, hm, h.symm⟩)
        rw [List.filter_cons, if_neg (by simpa using hne)]
        exact ih hm hdistinct.2

/-! ## Every channel leads to its map server -/

/-- A client is shown every channel, each under a channel id of its own that leads to the map
server that registered it. -/
structure Routed : Prop where
  distinct : (s.advertised.map ReplyChannel.id).Nodup
  leads : List.Forall₂ (fun m channel => channel.name = m.P.name ∧ ∀ sessionId mapId,
    s.route channel.id sessionId mapId = [m.isc.switchServer mapId sessionId])
    s.maps.reverse s.advertised

theorem advertised_eq_iff :
    s.advertised = s.maps.reverse.map MapServer.channel ↔ s.maps.length < 256 := by
  rw [advertised, channelList_loginList, shown, List.take_eq_self_iff, List.length_map,
    List.length_reverse]
  omega

variable {s}

theorem Routed.length_lt (h : s.Routed) : s.maps.length < 256 := by
  -- the list of the channels is cut where its length is
  have hlength := h.leads.length_eq
  rw [advertised, channelList_loginList, shown, List.length_take, List.length_map,
    List.length_reverse] at hlength
  omega

theorem Routed.id_lt (h : s.Routed) {m : MapServer} (hm : m ∈ s.maps) : m.id.toNat < 256 := by
  have hleads := h.leads
  have hdistinct := h.distinct
  rw [s.advertised_eq_iff.mpr h.length_lt] at hleads hdistinct
  rw [List.forall₂_map_right_iff, List.forall₂_same] at hleads
  rw [List.map_map] at hdistinct
  -- some map server has the number that comes back, and a client could not tell it from `m`
  have hroute := (hleads m (List.mem_reverse.mpr hm)).2 0 0
  rw [route_eq, MapServer.joinServer_channel_id] at hroute
  obtain ⟨m', hm'⟩ : ∃ m', m' ∈ s.maps.reverse.filter
      (fun m' => m'.id = (m.id.setWidth 8).setWidth 32) := by
    refine List.exists_mem_of_ne_nil _ fun hnil => ?_
    rw [hnil] at hroute
    exact absurd hroute (by simp)
  obtain ⟨hmem, hid⟩ := List.mem_filter.mp hm'
  have hid := of_decide_eq_true hid
  have hsame : m'.channel.id = m.channel.id := by
    rw [MapServer.channel_id_eq_iff, hid]
    bv_omega
  obtain rfl := List.inj_on_of_nodup_map hdistinct hmem (List.mem_reverse.mpr hm) hsame
  exact (MapServer.low_byte_eq_iff _).mp hid.symm

theorem routed_of_lt (hfew : s.maps.length < 256) (hlow : ∀ m ∈ s.maps, m.id.toNat < 256) :
    s.Routed := by
  have hadvertised := s.advertised_eq_iff.mpr hfew
  constructor
  · have hmaps : s.maps.reverse.Nodup := List.nodup_reverse.mpr (List.Nodup.of_map _ s.distinct)
    rw [hadvertised, List.map_map]
    refine List.Nodup.map_on (fun m hm m' hm' h => ?_) hmaps
    rw [List.mem_reverse] at hm hm'
    -- below 256 the low byte is the number
    have hid := (MapServer.setWidth_eq_iff_of_lt (hlow m hm) (hlow m' hm')).mp
      (MapServer.channel_id_eq_iff.mp h)
    exact List.inj_on_of_nodup_map s.distinct hm hm' hid
  · rw [hadvertised, List.forall₂_map_right_iff, List.forall₂_same]
    intro m hm
    have hm := List.mem_reverse.mp hm
    refine ⟨rfl, fun sessionId mapId => ?_⟩
    rw [route_eq, MapServer.joinServer_channel_id, (MapServer.low_byte_eq_iff _).mpr (hlow m hm),
      s.filter_id hm]
    rfl

/-- One map server, the 257th connection of the char server. -/
def lateServer : Setup where
  maps := [⟨256, ⟨.MAP_MASTER, "channel", "127.0.0.1", 29200, 0, 0⟩, rfl⟩]
  distinct := List.nodup_singleton _
  connections := []
  connections_type := by simp
  world := ⟨.CHAR, "world", "127.0.0.1", 29100, 0, 0⟩
  world_type := rfl
  worldId := 0
  others := []
  others_id := by simp

end Setup

end OsIrose.Channels

/-
The packet classes with a constructor from a buffer, `rosecommon/src/packets/*.cpp`.

Such a constructor builds its `CRosePacket` from the buffer, throws unless the type is its
own, and reads its fields with `operator>>`. Most read a fixed list of fields; the replies
with a list of servers, channels or characters run a loop, and three constructors
dereference components of an `entity_` that they have just default-constructed, so they
never leave an object.

`operator>>` stops at the end of the array and not at the end of the packet, so a field
that is not complete in the packet comes out of the memory the object was built over.
`PacketClass.Decided` says that the packet's own bytes decide every field.
-/
import OsIrose.PacketStream

set_option autoImplicit false

namespace OsIrose.Packet

open ByteMem Network Wire

/-- A class with a constructor from a buffer: its `ePacketType`, what its objects hold
besides the header, and what the constructor reads. -/
structure PacketClass where
  type : BitVec 16
  Fields : Type
  /-- `none` where the constructor does not leave an object. -/
  parse : Reader (Option Fields)

/-- An object of a packet class. -/
structure Object (Fields : Type) where
  size : BitVec 16
  type : BitVec 16
  CRC : BitVec 16
  fields : Fields

namespace PacketClass

variable (C : PacketClass)

/-- The constructor, in an object that is built over `memory`. -/
def construct (memory buffer : ℕ → Byte) : Option (Object C.Fields) :=
  let r := ofBuffer memory buffer
  -- `throw_assert`
  if r.type ≠ C.type then none
  else (run C.parse r.packet).1.map fun fields => ⟨r.packet.size, r.type, r.CRC, fields⟩

/-- The type is another one, or the packet's own bytes decide every field: each is
complete in the packet, or reaches behind the array. -/
def Decided (buffer : ℕ → Byte) : Prop :=
  wordLE buffer 2 2 ≠ C.type ∨
    (C.parse.decode (MAX_PACKET_SIZE - 1 - declaredSize buffer) (body buffer)).isSome = true

instance (buffer : ℕ → Byte) : Decidable (C.Decided buffer) := by
  unfold Decided; infer_instance

end PacketClass

/-! ## The classes -/

abbrev uint8_t : FieldType := .scalar 1 (Nat.succ_pos _)
abbrev uint16_t : FieldType := .scalar 2 (Nat.succ_pos _)
abbrev uint32_t : FieldType := .scalar 4 (Nat.succ_pos _)
abbrev int16_t : FieldType := .scalar 2 (Nat.succ_pos _)
abbrev int32_t : FieldType := .scalar 4 (Nat.succ_pos _)
abbrev float : FieldType := .scalar 4 (Nat.succ_pos _)
abbrev char : FieldType := .scalar 1 (Nat.succ_pos _)

/-- A constructor that reads these fields in this order. -/
def ofFields (type : BitVec 16) (ts : List FieldType) : PacketClass where
  type := type
  Fields := List Field
  parse := do
    let fields ← extractAll ts
    return some fields

/-- A constructor that reads into components of its default-constructed `entity_`. -/
def ofEntity (type : BitVec 16) : PacketClass where
  type := type
  Fields := Empty
  parse := return none

/-- `CliAcceptReq` has no fields. -/
def CliAcceptReq : PacketClass := ofFields 0x703 []

/-- `CliAlive` has no fields. -/
def CliAlive : PacketClass := ofFields 0x700 []

/-- `weightRate_`, `z_`. -/
def CliChangeMapReq : PacketClass := ofFields 0x753 [uint8_t, uint16_t]

/-- `serverId_`. -/
def CliChannelListReq : PacketClass := ofFields 0x704 [uint32_t]

/-- `CliCharListReq` has no fields. -/
def CliCharListReq : PacketClass := ofFields 0x712 []

/-- `race_`, `stone_`, `hair_`, `face_`, `weapon_`, `zone_`, `name_`. -/
def CliCreateCharReq : PacketClass :=
  ofFields 0x713 [uint8_t, uint8_t, uint8_t, uint8_t, uint8_t, uint16_t, .string]

/-- `charId_`, `isDelete_`, `name_`. -/
def CliDeleteCharReq : PacketClass := ofFields 0x714 [uint8_t, uint8_t, .string]

/-- `item_`, `quantity_`. -/
def CliDropItem : PacketClass := ofFields 0x7a4 [uint8_t, uint32_t]

/-- `slotTo_`, `slotFrom_`. -/
def CliEquipItem : PacketClass := ofFields 0x7a5 [int16_t, int16_t]

/-- `CliLogoutReq` has no fields. -/
def CliLogoutReq : PacketClass := ofFields 0x707 []

/-- `targetId_`, `x_`, `y_`, `z_`. -/
def CliMouseCmd : PacketClass := ofFields 0x79a [uint16_t, float, float, uint16_t]

/-- `message_`. -/
def CliNormalChat : PacketClass := ofFields 0x783 [.string]

/-- `message_`. -/
def CliPartyChat : PacketClass := ofFields 0x786 [.string]

/-- `reply_`, `idXorTag_`. -/
def CliPartyReply : PacketClass := ofFields 0x7d1 [uint8_t, uint32_t]

/-- `request_`, `idXorTag_`. -/
def CliPartyReq : PacketClass := ofFields 0x7d0 [uint8_t, uint32_t]

/-- `reviveType_`. -/
def CliReviveReq : PacketClass := ofFields 0x755 [uint8_t]

/-- `count_`. -/
def CliScreenShotTimeReq : PacketClass := ofFields 0x7eb [uint16_t]

/-- `charId_`, `runMode_`, `rideMode_`, `name_`. -/
def CliSelectCharReq : PacketClass := ofFields 0x715 [uint8_t, uint8_t, uint8_t, .string]

/-- `serverId_`, `channelId_`. -/
def CliSrvSelectReq : PacketClass := ofFields 0x70a [uint32_t, uint8_t]

/-- `x_`, `y_`. -/
def CliStop : PacketClass := ofFields 0x796 [float, float]

/-- `x_`, `y_`, `z_`. -/
def CliStopMoving : PacketClass := ofFields 0x771 [float, float, int16_t]

/-- `targetId_`, `message_`. -/
def CliWhisperChat : PacketClass := ofFields 0x784 [.string, .string]

/-- `serverType_`, `name_`, `addr_`, `port_`, `right_`, `id_`. -/
def IscServerRegister : PacketClass :=
  ofFields 0x303 [uint8_t, .string, .string, int32_t, int32_t, int32_t]

/-- `serverType_`, `id_`. -/
def IscShutdown : PacketClass := ofFields 0x305 [uint8_t, int32_t]

/-- `result_`, `randValue_`. -/
def SrvAcceptReply : PacketClass := ofFields 0x7ff [uint8_t, uint32_t]

def SrvAdjustPosition : PacketClass := ofEntity 0x770

def SrvDropItem : PacketClass := ofEntity 0x7a6

/-- `result_`, `id_`, `payFlag_`. -/
def SrvJoinServerReply : PacketClass := ofFields 0x70c [uint8_t, uint32_t, uint32_t]

/-- `SrvQuestData` reads nothing. -/
def SrvQuestData : PacketClass := ofFields 0x71b []

/-- `result_`, `sessionId_`, `cryptVal_`, `ip_`, `port_`. -/
def SrvSrvSelectReply : PacketClass :=
  ofFields 0x70a [uint8_t, uint32_t, uint32_t, .string, uint16_t]

/-- `port_`, `sessionId_`, `sessionSeed_`, `ip_`. -/
def SrvSwitchServer : PacketClass := ofFields 0x711 [uint16_t, uint32_t, uint32_t, .string]

def SrvTeleportReply : PacketClass := ofEntity 0x7a8

/-! ### Classes with a structure of their own -/

/-- The fields of `CliJoinServerReq`. -/
structure JoinServerReq where
  sessionId_ : BitVec 32
  password_ : List Byte
  deriving DecidableEq

def readJoinServerReq : Reader (Option JoinServerReq) := do
  let sessionId_ ← extract uint32_t
  -- `std::string(pass, 32)`
  let pass ← extract (.array 32 char)
  return some ⟨sessionId_, pass.toList⟩

def CliJoinServerReq : PacketClass := ⟨0x70b, JoinServerReq, readJoinServerReq⟩

/-- The fields of `CliLoginReq`. -/
structure LoginReq where
  password_ : List Byte
  username_ : List Byte
  deriving DecidableEq

def readLoginReq : Reader (Option LoginReq) := do
  let pass ← extract (.array 32 char)
  let username_ ← extract .string
  return some ⟨pass.toList, username_⟩

def CliLoginReq : PacketClass := ⟨0x708, LoginReq, readLoginReq⟩

/-- `SrvLoginReply::ServerInfo`. -/
structure ServerInfo where
  name_ : List Byte
  id_ : BitVec 32
  test_ : Bool
  deriving DecidableEq

/-- The fields of `SrvLoginReply`. -/
structure LoginReply where
  result_ : BitVec 8
  right_ : BitVec 16
  type_ : BitVec 16
  servers_ : List ServerInfo
  deriving DecidableEq

/-- The entry behind the marker `pad`, and what the loop does after it. -/
def readServer (pad : BitVec 8) (more : Reader (List ServerInfo)) :
    Reader (List ServerInfo) :=
  if pad = 0 then return []
  else do
    let name_ ← extract .string
    let id_ ← extract uint32_t
    let servers ← more
    return ⟨name_, id_, pad = 0x40⟩ :: servers

/-- `while (pad)`, for at most `fuel + 1` entries. The markers of more would not fit the
array (`readServers_fuel`). -/
def readServers : ℕ → BitVec 8 → Reader (List ServerInfo)
  | 0, pad => readServer pad (return [])
  | fuel + 1, pad => readServer pad do
      let next ← extract char
      readServers fuel next

/-- The list of servers, up to the marker that is zero. -/
def readServerList : Reader (List ServerInfo) := do
  let pad ← extract char
  readServers MAX_PACKET_SIZE pad

def readLoginReply : Reader (Option LoginReply) := do
  let result_ ← extract uint8_t
  let right_ ← extract uint16_t
  let type_ ← extract uint16_t
  if result_ ≠ 0 then return some ⟨result_, right_, type_, []⟩
  else
    let servers_ ← readServerList
    return some ⟨result_, right_, type_, servers_⟩

def SrvLoginReply : PacketClass := ⟨0x708, LoginReply, readLoginReply⟩

/-- `SrvChannelListReply::ChannelInfo`. -/
structure ChannelInfo where
  name_ : List Byte
  id_ : BitVec 8
  lowAge_ : BitVec 8
  highAge_ : BitVec 8
  capacity_ : BitVec 16
  deriving DecidableEq

/-- The fields of `SrvChannelListReply`. -/
structure ChannelListReply where
  id_ : BitVec 32
  channels_ : List ChannelInfo
  deriving DecidableEq

def readChannel : Reader ChannelInfo := do
  let id_ ← extract uint8_t
  let lowAge_ ← extract uint8_t
  let highAge_ ← extract uint8_t
  let capacity_ ← extract uint16_t
  let name_ ← extract .string
  return ⟨name_, id_, lowAge_, highAge_, capacity_⟩

def readChannelListReply : Reader (Option ChannelListReply) := do
  let id_ ← extract uint32_t
  let nb ← extract uint8_t
  -- `while (nb-- > 0)`
  let channels_ ← Reader.many readChannel nb.toNat
  return some ⟨id_, channels_.toList⟩

def SrvChannelListReply : PacketClass := ⟨0x704, ChannelListReply, readChannelListReply⟩

/-- `MAX_EQUIPPED_ITEMS`. -/
def MAX_EQUIPPED_ITEMS : ℕ := 8

/-- `SrvCharacterListReply::char_info`; an item is its `data` word. -/
structure CharInfo where
  name_ : List Byte
  race_ : BitVec 8
  level_ : BitVec 16
  job_ : BitVec 16
  remain_sec_unitl_delete_ : BitVec 32
  platinum_ : BitVec 8
  face_ : BitVec 32
  hair_ : BitVec 32
  items_ : List.Vector (BitVec 32) MAX_EQUIPPED_ITEMS
  deriving DecidableEq

/-- The fields of `SrvCharacterListReply`. The count goes up with each character that is
added, in eight bits. -/
structure CharacterListReply where
  character_count_ : BitVec 8
  character_list_ : List CharInfo
  counted : character_count_ = BitVec.ofNat 8 character_list_.length

def readCharacter : Reader CharInfo := do
  let name_ ← extract .string
  let race_ ← extract uint8_t
  let level_ ← extract uint16_t
  let job_ ← extract uint16_t
  let remain_sec_unitl_delete_ ← extract uint32_t
  let platinum_ ← extract uint8_t
  let face_ ← extract uint32_t
  let hair_ ← extract uint32_t
  let items_ ← extract (.array MAX_EQUIPPED_ITEMS uint32_t)
  return ⟨name_, race_, level_, job_, remain_sec_unitl_delete_, platinum_, face_, hair_,
    items_⟩

def readCharacterListReply : Reader (Option CharacterListReply) := do
  let character_count_ ← extract uint8_t
  let characters ← Reader.many readCharacter character_count_.toNat
  return some
    { character_count_ := character_count_
      character_list_ := characters.toList
      counted := by simp }

def SrvCharacterListReply : PacketClass := ⟨0x712, CharacterListReply, readCharacterListReply⟩

/-- Every class with a constructor from a buffer. -/
def bufferClasses : List PacketClass :=
  [CliAcceptReq, CliAlive, CliChangeMapReq, CliChannelListReq, CliCharListReq,
    CliCreateCharReq, CliDeleteCharReq, CliDropItem, CliEquipItem, CliJoinServerReq,
    CliLoginReq, CliLogoutReq, CliMouseCmd, CliNormalChat, CliPartyChat, CliPartyReply,
    CliPartyReq, CliReviveReq, CliScreenShotTimeReq, CliSelectCharReq, CliSrvSelectReq,
    CliStop, CliStopMoving, CliWhisperChat, IscServerRegister, IscShutdown, SrvAcceptReply,
    SrvAdjustPosition, SrvChannelListReply, SrvCharacterListReply, SrvDropItem,
    SrvJoinServerReply, SrvLoginReply, SrvQuestData, SrvSrvSelectReply, SrvSwitchServer,
    SrvTeleportReply]

/-! ## What the constructors tell apart -/

section

open Reader

theorem reads_readChannel : Reads readChannel fun _ => True := by
  refine Reads.bind ChannelInfo.id_ (tellsApart_extract _) fun id_ => ?_
  refine Reads.bind ChannelInfo.lowAge_ (tellsApart_extract _) fun lowAge_ => ?_
  refine Reads.bind ChannelInfo.highAge_ (tellsApart_extract _) fun highAge_ => ?_
  refine Reads.bind ChannelInfo.capacity_ (tellsApart_extract _) fun capacity_ => ?_
  refine Reads.bind ChannelInfo.name_ (tellsApart_extract _) fun name_ => ?_
  exact Reads.pure ⟨rfl, rfl, rfl, rfl, rfl, trivial⟩

theorem reads_readCharacter : Reads readCharacter fun _ => True := by
  refine Reads.bind CharInfo.name_ (tellsApart_extract _) fun name_ => ?_
  refine Reads.bind CharInfo.race_ (tellsApart_extract _) fun race_ => ?_
  refine Reads.bind CharInfo.level_ (tellsApart_extract _) fun level_ => ?_
  refine Reads.bind CharInfo.job_ (tellsApart_extract _) fun job_ => ?_
  refine Reads.bind CharInfo.remain_sec_unitl_delete_ (tellsApart_extract _) fun remain => ?_
  refine Reads.bind CharInfo.platinum_ (tellsApart_extract _) fun platinum_ => ?_
  refine Reads.bind CharInfo.face_ (tellsApart_extract _) fun face_ => ?_
  refine Reads.bind CharInfo.hair_ (tellsApart_extract _) fun hair_ => ?_
  refine Reads.bind CharInfo.items_ (tellsApart_extract _) fun items_ => ?_
  exact Reads.pure ⟨rfl, rfl, rfl, rfl, rfl, rfl, rfl, rfl, rfl, trivial⟩

/-- The list of servers is empty exactly when its first marker is zero. -/
theorem reads_readServer {more : Reader (List ServerInfo)} (hmore : TellsApart (· ≠ ·) more)
    (pad : BitVec 8) : Reads (readServer pad more) fun servers => servers = [] ↔ pad = 0 := by
  unfold readServer
  by_cases hpad : pad = 0
  · rw [if_pos hpad]
    exact Reads.pure ⟨fun _ => hpad, fun _ => rfl⟩
  · rw [if_neg hpad]
    refine Reads.bind (fun l => (l.headD ⟨[], 0, false⟩).name_) (tellsApart_extract _)
      fun name_ => ?_
    refine Reads.bind (fun l => (l.headD ⟨[], 0, false⟩).id_) (tellsApart_extract _)
      fun id_ => ?_
    refine Reads.bind List.tail hmore fun servers => ?_
    exact Reads.pure ⟨rfl, rfl, rfl, fun h => absurd h (by simp), fun h => absurd h hpad⟩

/-- Two markers of which one is zero are told apart. -/
theorem tellsApart_marker :
    TellsApart (fun pad pad' => (pad = 0) ≠ (pad' = 0)) (extract char) := by
  intro hidden known h
  rw [extract, decode_scalar] at h
  obtain ⟨rest, hzero, hlast⟩ := decodeScalar_undecided h 0
  obtain ⟨rest', hone, hlast'⟩ := decodeScalar_undecided h 1
  refine ⟨List.replicate hidden 0, List.replicate hidden 1, List.length_replicate,
    List.length_replicate, (word 1 (known ++ List.replicate hidden 0), rest),
    (word 1 (known ++ List.replicate hidden 1), rest'), ?_, ?_, ?_⟩
  · rw [extract, decode_scalar, hzero]
  · rw [extract, decode_scalar, hone]
  · have hne : word 1 (known ++ List.replicate hidden 1) ≠ 0 := by
      have hzeros : word 1 (objectBytes 1 0 ++ []) = 0 := word_objectBytes 1 0 []
      rw [← hzeros]
      apply word_ne Nat.one_pos
      rw [hlast']
      decide
    have heq : word 1 (known ++ List.replicate hidden 0) = 0 := by
      have hzeros : word 1 (objectBytes 1 0 ++ []) = 0 := word_objectBytes 1 0 []
      rw [← hzeros]
      apply wordLE_congr
      intro k hk
      obtain rfl : k = 0 := by omega
      exact hlast
    intro hiff
    exact hne (hiff.mp heq)

/-- A loop behind a marker tells apart whether it runs at all, and what it reads. -/
theorem tellsApart_marked {loop : BitVec 8 → Reader (List ServerInfo)}
    (hloop : ∀ pad, Reads (loop pad) fun servers => servers = [] ↔ pad = 0) :
    TellsApart (· ≠ ·) (extract char >>= loop) := by
  apply tellsApart_marker.bind
  · intro pad
    exact (hloop pad).apart
  · intro pad pad' servers servers' hne hs hs' heq
    apply hne
    rw [eq_iff_iff, ← (hloop pad).gives servers hs, ← (hloop pad').gives servers' hs', heq]

theorem reads_readServers (fuel : ℕ) (pad : BitVec 8) :
    Reads (readServers fuel pad) fun servers => servers = [] ↔ pad = 0 := by
  induction fuel generalizing pad with
  | zero => exact reads_readServer (tellsApart_pure _ _) pad
  | succ fuel ih =>
      apply reads_readServer
      exact tellsApart_marked ih

theorem tellsApart_ofFields (type : BitVec 16) (ts : List FieldType) :
    TellsApart (· ≠ ·) (ofFields type ts).parse := by
  refine (Reads.bind (Q := fun _ => True) (fun o => o.getD []) (tellsApart_extractAll ts)
    fun fields => ?_).apart
  exact Reads.pure ⟨rfl, trivial⟩

theorem tellsApart_ofEntity (type : BitVec 16) :
    TellsApart (· ≠ ·) (ofEntity type).parse := tellsApart_pure _ _

theorem tellsApart_readJoinServerReq : TellsApart (· ≠ ·) readJoinServerReq := by
  refine (Reads.bind (Q := fun _ => True) (fun o => (o.getD ⟨0, []⟩).sessionId_)
    (tellsApart_extract uint32_t) fun sessionId_ => ?_).apart
  refine Reads.bindOf List.Vector.toList_injective (fun o => (o.getD ⟨0, []⟩).password_)
    (tellsApart_extract (.array 32 char)) fun pass => ?_
  exact Reads.pure ⟨rfl, rfl, trivial⟩

theorem tellsApart_readLoginReq : TellsApart (· ≠ ·) readLoginReq := by
  refine (Reads.bindOf (Q := fun _ => True) List.Vector.toList_injective
    (fun o => (o.getD ⟨[], []⟩).password_) (tellsApart_extract (.array 32 char))
    fun pass => ?_).apart
  refine Reads.bind (fun o => (o.getD ⟨[], []⟩).username_) (tellsApart_extract .string)
    fun username_ => ?_
  exact Reads.pure ⟨rfl, rfl, trivial⟩

theorem tellsApart_readChannelListReply : TellsApart (· ≠ ·) readChannelListReply := by
  refine (Reads.bind (Q := fun _ => True) (fun o => (o.getD ⟨0, []⟩).id_)
    (tellsApart_extract uint32_t) fun id_ => ?_).apart
  refine Reads.bindOf BitVec.toNat_injective (fun o => (o.getD ⟨0, []⟩).channels_.length)
    (tellsApart_extract uint8_t) fun nb => ?_
  refine Reads.bindOf List.Vector.toList_injective (fun o => (o.getD ⟨0, []⟩).channels_)
    (tellsApart_many reads_readChannel.apart nb.toNat) fun channels_ => ?_
  exact Reads.pure ⟨rfl, channels_.toList_length, rfl, trivial⟩

theorem tellsApart_readCharacterListReply : TellsApart (· ≠ ·) readCharacterListReply := by
  refine (Reads.bind (Q := fun _ => True) (fun o => (o.getD ⟨0, [], rfl⟩).character_count_)
    (tellsApart_extract uint8_t) fun count => ?_).apart
  refine Reads.bindOf List.Vector.toList_injective
    (fun o => (o.getD ⟨0, [], rfl⟩).character_list_)
    (tellsApart_many reads_readCharacter.apart count.toNat) fun characters => ?_
  exact Reads.pure ⟨rfl, rfl, trivial⟩

theorem tellsApart_readLoginReply : TellsApart (· ≠ ·) readLoginReply := by
  refine (Reads.bind (Q := fun _ => True) (fun o => (o.getD ⟨0, 0, 0, []⟩).result_)
    (tellsApart_extract uint8_t) fun result_ => ?_).apart
  refine Reads.bind (fun o => (o.getD ⟨0, 0, 0, []⟩).right_) (tellsApart_extract uint16_t)
    fun right_ => ?_
  refine Reads.bind (fun o => (o.getD ⟨0, 0, 0, []⟩).type_) (tellsApart_extract uint16_t)
    fun type_ => ?_
  by_cases hresult : result_ ≠ 0
  · rw [if_pos hresult]
    exact Reads.pure ⟨rfl, rfl, rfl, trivial⟩
  · rw [if_neg hresult]
    refine Reads.bind (fun o => (o.getD ⟨0, 0, 0, []⟩).servers_)
      (tellsApart_marked (reads_readServers MAX_PACKET_SIZE)) fun servers_ => ?_
    exact Reads.pure ⟨rfl, rfl, rfl, rfl, trivial⟩

/-- **Every class tells its packets apart.** -/
theorem tellsApart_of_mem {C : PacketClass} (hC : C ∈ bufferClasses) :
    TellsApart (· ≠ ·) C.parse := by
  have hall : ∀ C ∈ bufferClasses, TellsApart (· ≠ ·) C.parse := by
    simp only [bufferClasses, List.forall_mem_cons]
    and_intros
    all_goals first
      | exact tellsApart_ofFields _ _
      | exact tellsApart_ofEntity _
      | exact tellsApart_readJoinServerReq
      | exact tellsApart_readLoginReq
      | exact tellsApart_readChannelListReply
      | exact tellsApart_readCharacterListReply
      | exact tellsApart_readLoginReply
      | exact fun C hC => absurd hC List.not_mem_nil
  exact hall C hC

end

/-! ## Parsing depends on the packet -/

section

variable {C : PacketClass} {memory buffer : ℕ → Byte}

theorem construct_of_type_ne (h6 : 6 ≤ declaredSize buffer)
    (htype : wordLE buffer 2 2 ≠ C.type) : C.construct memory buffer = none := by
  have hr := (ofBuffer_eq memory h6).2.1
  rw [PacketClass.construct, hr, if_pos htype]

/-- The object a constructor leaves. -/
theorem construct_of_decode {r : Option C.Fields × List Byte} (h6 : 6 ≤ declaredSize buffer)
    (hmax : declaredSize buffer ≤ MAX_PACKET_SIZE - 1) (htype : wordLE buffer 2 2 = C.type)
    (h : C.parse.decode 0 (body buffer ++ leftover memory (declaredSize buffer)) = some r) :
    C.construct memory buffer
      = r.1.map fun fields => ⟨wordLE buffer 2 0, C.type, wordLE buffer 2 4, fields⟩ := by
  obtain ⟨hpacket, hr, hCRC⟩ := ofBuffer_eq memory h6
  have hrun := decode_ahead (ofBuffer memory buffer).packet C.parse
  rw [ahead_ofBuffer memory h6 hmax, h, Option.some.injEq] at hrun
  rw [PacketClass.construct, hr, if_neg (not_not.mpr htype), hrun, hCRC, htype, hpacket]

/-- Buffers that agree up to the declared size declare the same packet. -/
theorem declared_congr {buffer' : ℕ → Byte} (h6 : 6 ≤ declaredSize buffer)
    (hagree : ∀ i, i < declaredSize buffer → buffer' i = buffer i) :
    declaredSize buffer' = declaredSize buffer ∧ body buffer' = body buffer ∧
      ∀ i, i + 2 ≤ 6 → wordLE buffer' 2 i = wordLE buffer 2 i := by
  have hword : ∀ i, i + 2 ≤ 6 → wordLE buffer' 2 i = wordLE buffer 2 i := by
    intro i hi
    apply wordLE_congr
    intro k hk
    exact hagree _ (by omega)
  have hsize : declaredSize buffer' = declaredSize buffer :=
    congrArg BitVec.toNat (hword 0 (by omega))
  refine ⟨hsize, ?_, hword⟩
  rw [body, body, hsize]
  apply List.map_congr_left
  intro i hi
  have hmem := List.mem_range'_1.mp hi
  exact hagree i (by omega)

/-- **Parsing depends only on the packet received** exactly when the packet's own bytes
decide every field the constructor reads. -/
theorem construct_eq_iff {C : PacketClass} (hC : C ∈ bufferClasses) {buffer : ℕ → Byte}
    (h6 : 6 ≤ declaredSize buffer) (hmax : declaredSize buffer ≤ 2046) :
    (∀ buffer' memory memory', (∀ i, i < declaredSize buffer → buffer' i = buffer i) →
      C.construct memory buffer = C.construct memory' buffer') ↔ C.Decided buffer := by
  constructor
  · intro hall
    by_contra hnot
    rw [PacketClass.Decided, not_or, not_not] at hnot
    obtain ⟨htype, hdec⟩ := hnot
    rw [Bool.not_eq_true, Option.isSome_eq_false_iff, Option.isNone_iff_eq_none] at hdec
    -- two memories that end the array in the two ways
    obtain ⟨e, e', he, he', r, r', hr, hr', hne⟩ := tellsApart_of_mem hC _ _ hdec
    obtain ⟨memory, hmemory⟩ := exists_leftover he
    obtain ⟨memory', hmemory'⟩ := exists_leftover he'
    rw [← hmemory] at hr
    rw [← hmemory'] at hr'
    have heq := hall buffer memory memory' fun _ _ => rfl
    rw [construct_of_decode h6 hmax htype hr, construct_of_decode h6 hmax htype hr'] at heq
    refine hne (Option.map_injective ?_ heq)
    intro fields fields' h
    exact (Object.mk.inj h).2.2.2
  · intro hdecided buffer' memory memory' hagree
    obtain ⟨hsize, hbody, hword⟩ := declared_congr h6 hagree
    by_cases htype : wordLE buffer 2 2 = C.type
    · obtain ⟨r, hr⟩ := Option.isSome_iff_exists.mp
        (hdecided.resolve_left (not_not.mpr htype))
      have hany : ∀ memory, C.parse.decode 0
          (body buffer ++ leftover memory (declaredSize buffer))
            = some (r.1, r.2 ++ leftover memory (declaredSize buffer)) := by
        intro memory
        apply Reader.decode_append
        rw [length_leftover]
        exact hr
      have hother : C.parse.decode 0
          (body buffer' ++ leftover memory' (declaredSize buffer'))
            = some (r.1, r.2 ++ leftover memory' (declaredSize buffer)) := by
        rw [hbody, hsize]
        exact hany memory'
      have hword4 := hword 4 (by omega)
      have hword0 := hword 0 (by omega)
      rw [construct_of_decode h6 hmax htype (hany memory),
        construct_of_decode (by rw [hsize]; exact h6) (by rw [hsize]; exact hmax)
          (by rw [hword 2 (by omega)]; exact htype) hother, hword0, hword4]
    · rw [construct_of_type_ne h6 htype, construct_of_type_ne (by rw [hsize]; exact h6)
        (by rw [hword 2 (by omega)]; exact htype)]

/-- A whisper of which nothing is missing. -/
def wholeWhisper (i : ℕ) : Byte := [10, 0, 0x84, 0x07, 0, 0, 97, 0, 98, 0].getD i 0

theorem construct_eq_wholeWhisper :
    CliWhisperChat.construct (fun _ => 0) wholeWhisper
      = CliWhisperChat.construct (fun _ => 1) wholeWhisper :=
  (construct_eq_iff (by simp [bufferClasses]) (by decide) (by decide)).mpr (by decide)
    wholeWhisper (fun _ => 0) (fun _ => 1) (fun _ _ => rfl)

/-- A whisper whose first string is not ended. -/
def cutWhisper (i : ℕ) : Byte := [7, 0, 0x84, 0x07, 0, 0, 97].getD i 0

/-- Its object depends on what the memory held. -/
theorem not_construct_eq_cutWhisper :
    6 ≤ declaredSize cutWhisper ∧ declaredSize cutWhisper ≤ 2046 ∧
      CliWhisperChat.construct (fun _ => 0) cutWhisper
        ≠ CliWhisperChat.construct (fun i => if i = 7 then 98 else 0) cutWhisper := by
  refine ⟨by decide, by decide, fun heq => ?_⟩
  have hbytes := congrArg (Option.map fun o => encodeAll (Object.fields o)) heq
  exact absurd hbytes (by decide)


end

/-! ## Packets that were packed -/

section

variable (C : PacketClass) (memory junk : ℕ → Byte) (CRC : BitVec 16) {bs : List Byte}

/-- The object that a packed packet of the class becomes. -/
def packedObject (fields : C.Fields) (bs : List Byte) : Object C.Fields :=
  ⟨BitVec.ofNat 16 (6 + bs.length), C.type, CRC, fields⟩

/-- What a constructor makes of packed bytes and of what lies behind them. -/
theorem construct_packetBytes_full {r : Option C.Fields × List Byte} (hfit : bs.length ≤ 2040)
    (h : C.parse.decode 0 (bs ++ leftover memory (6 + bs.length)) = some r) :
    C.construct memory (writeAt 0 (packetBytes C.type CRC bs) junk)
      = r.1.map fun fields => packedObject C CRC fields bs := by
  have hM : MAX_PACKET_SIZE = 2047 := rfl
  have hsize := declaredSize_packetBytes C.type CRC junk hfit
  have hbody := body_packetBytes C.type CRC junk hfit
  obtain ⟨hsizeField, htype, hCRC⟩ := wordLE_packetBytes C.type CRC junk bs
  rw [construct_of_decode (by omega) (by omega) htype (by rw [hbody, hsize]; exact h),
    hsizeField, hCRC]
  rfl

/-- What a constructor makes of packed bytes that decide every field. -/
theorem construct_packetBytes {fields : C.Fields} {rest : List Byte} (hfit : bs.length ≤ 2040)
    (h : C.parse.decode (MAX_PACKET_SIZE - 1 - (6 + bs.length)) bs = some (some fields, rest)) :
    C.construct memory (writeAt 0 (packetBytes C.type CRC bs) junk)
      = some (packedObject C CRC fields bs) := by
  rw [← length_leftover memory] at h
  rw [construct_packetBytes_full C memory junk CRC hfit (Reader.decode_append h)]
  rfl

/-- A class with a fixed list of fields gets back the fields that were packed. -/
theorem construct_ofFields (type : BitVec 16) {fs : List Field} (hnul : ∀ f ∈ fs, f.NulFree)
    (hfit : (encodeAll fs).length ≤ 2040) :
    (ofFields type (fs.map Field.type)).construct memory
        (writeAt 0 (packetBytes type CRC (encodeAll fs)) junk)
      = some (packedObject (ofFields type (fs.map Field.type)) CRC fs (encodeAll fs)) := by
  have hall : (extractAll (fs.map Field.type)).decode
      (MAX_PACKET_SIZE - 1 - (6 + (encodeAll fs).length)) (encodeAll fs) = some (fs, []) := by
    rw [← decode_extractAll hnul [], List.append_nil]
  exact construct_packetBytes _ memory junk CRC hfit (Reader.decode_bind_of_eq hall)

end

end OsIrose.Packet

/-
Round trips of single packet classes, `rosecommon/src/packets/*.cpp`.

`pack()` of a class is the list of fields it writes. The request classes and the lists are
read back by the constructors of `PacketClasses.lean`; where the two sides agree, and
where not, depends on how the length of a list or of a string gets across:

* `SrvLoginReply` puts a marker in front of each server and nothing behind the last one,
  so the constructor reads one more marker from behind the packet;
* `SrvChannelListReply` counts its channels in eight bits, but writes all of them;
* `SrvCharacterListReply` does the same, and never has room for so many;
* `CliLoginReq` and `CliJoinServerReq` write a password without length or zero, and read
  32 characters.
-/
import OsIrose.PacketClasses
import Mathlib.Data.List.TakeWhile

set_option autoImplicit false

namespace OsIrose.Packet

open ByteMem Network Wire Wire.Reader

/-! ## Building a list of characters -/

/-- Assignment to the bit fields `id_`, `gem_op_`, `socket_` and `grade_` of an
`equip_item`. The eight bits above them belong to no field and stay. -/
def setItem (data : BitVec 32) (id gem : BitVec 16) (socket grade : BitVec 8) : BitVec 32 :=
  data.extractLsb' 24 8 ++ grade.setWidth 4 ++ socket.setWidth 1 ++ gem.setWidth 9
    ++ id.setWidth 10

/-- `SrvCharacterListReply()`. -/
def CharacterListReply.empty : CharacterListReply := ⟨0, [], rfl⟩

/-- `SrvCharacterListReply::addCharacter`, with the items built over `words`. -/
def CharacterListReply.addCharacter (reply : CharacterListReply)
    (words : List.Vector (BitVec 32) MAX_EQUIPPED_ITEMS) (name : List Byte)
    (race : BitVec 8) (level job : BitVec 16) (face hair delete_time : BitVec 32) :
    CharacterListReply where
  character_count_ := reply.character_count_ + 1
  character_list_ := reply.character_list_ ++
    [⟨name, race, level, job, delete_time, 0, face, hair,
      words.map fun word => setItem word 0 0 0 0⟩]
  counted := by
    rw [reply.counted, List.length_append, List.length_singleton, BitVec.ofNat_add]
    rfl

/-- `SrvCharacterListReply::addEquipItem`. -/
def CharacterListReply.addEquipItem (reply : CharacterListReply) (char_id slot : BitVec 8)
    (item_id gem : BitVec 16) (socket grade : BitVec 8) : CharacterListReply :=
  if h : char_id < reply.character_count_ ∧ slot.toNat < MAX_EQUIPPED_ITEMS then
    { reply with
      character_list_ := reply.character_list_.modify char_id.toNat fun character =>
        { character with
          items_ := character.items_.set ⟨slot.toNat, h.2⟩
            (setItem (character.items_.get ⟨slot.toNat, h.2⟩) item_id gem socket grade) }
      counted := by
        rw [List.length_modify]
        exact reply.counted }
  else reply

/-! ## What the classes write -/

/-- `*this << pad << server.name_ << server.id_`. -/
def ServerInfo.pack (server : ServerInfo) : List Field :=
  [⟨char, if server.test_ then 0x40 else 0x20⟩, ⟨.string, server.name_⟩,
    ⟨uint32_t, server.id_⟩]

/-- `SrvLoginReply::pack`. -/
def LoginReply.pack (reply : LoginReply) : List Field :=
  ⟨uint8_t, reply.result_⟩ :: ⟨uint16_t, reply.right_⟩ :: ⟨uint16_t, reply.type_⟩
    :: reply.servers_.flatMap ServerInfo.pack

/-- The writes for one channel. -/
def ChannelInfo.pack (channel : ChannelInfo) : List Field :=
  [⟨uint8_t, channel.id_⟩, ⟨uint8_t, channel.lowAge_⟩, ⟨uint8_t, channel.highAge_⟩,
    ⟨uint16_t, channel.capacity_⟩, ⟨.string, channel.name_⟩]

/-- `SrvChannelListReply::pack`. -/
def ChannelListReply.pack (reply : ChannelListReply) : List Field :=
  ⟨uint32_t, reply.id_⟩ :: ⟨uint8_t, BitVec.ofNat 8 reply.channels_.length⟩
    :: reply.channels_.flatMap ChannelInfo.pack

/-- The writes for one character. -/
def CharInfo.pack (character : CharInfo) : List Field :=
  [⟨.string, character.name_⟩, ⟨uint8_t, character.race_⟩, ⟨uint16_t, character.level_⟩,
    ⟨uint16_t, character.job_⟩, ⟨uint32_t, character.remain_sec_unitl_delete_⟩,
    ⟨uint8_t, character.platinum_⟩, ⟨uint32_t, character.face_⟩,
    ⟨uint32_t, character.hair_⟩, ⟨.array MAX_EQUIPPED_ITEMS uint32_t, character.items_⟩]

/-- `SrvCharacterListReply::pack`. -/
def CharacterListReply.pack (reply : CharacterListReply) : List Field :=
  ⟨uint8_t, reply.character_count_⟩ :: reply.character_list_.flatMap CharInfo.pack

/-- `*this << password_.c_str()`: the characters up to the first zero, without it. -/
def packCStr (s : List Byte) : List Field :=
  (s.takeWhile (· ≠ 0)).map fun c => ⟨char, c⟩

/-- `CliLoginReq::pack`. -/
def LoginReq.pack (req : LoginReq) : List Field :=
  packCStr req.password_ ++ [⟨.string, req.username_⟩]

/-- `CliJoinServerReq::pack`. -/
def JoinServerReq.pack (req : JoinServerReq) : List Field :=
  ⟨uint32_t, req.sessionId_⟩ :: packCStr req.password_

/-- What an object of class `C` that packs these fields puts on the wire. -/
def wire (C : PacketClass) (buffer : ℕ → Byte) (CRC : BitVec 16) (fs : List Field) :
    List Byte := (getPacked (packFields fs) (ofType buffer C.type CRC)).1

/-- The fields of the object that the constructor makes of these bytes. -/
def received (C : PacketClass) (memory junk : ℕ → Byte) (bytes : List Byte) :
    Option C.Fields := (C.construct memory (writeAt 0 bytes junk)).map Object.fields

section

variable {C : PacketClass} {fs : List Field} (buffer memory junk : ℕ → Byte)
  (CRC : BitVec 16)

theorem received_wire_full {fields : Option C.Fields}
    (hfit : (encodeAll fs).length ≤ 2040)
    (h : ∃ rest, C.parse.decode 0
      (encodeAll fs ++ leftover memory (6 + (encodeAll fs).length)) = some (fields, rest)) :
    received C memory junk (wire C buffer CRC fs) = fields := by
  obtain ⟨rest, hrest⟩ := h
  rw [received, wire, getPacked_eq_packetBytes hfit,
    construct_packetBytes_full C memory junk CRC hfit hrest, Option.map_map]
  exact Option.map_id_apply

theorem received_wire {fields : C.Fields} (hfit : (encodeAll fs).length ≤ 2040)
    (h : ∀ tail, ∃ rest, C.parse.decode 0 (encodeAll fs ++ tail) = some (some fields, rest)) :
    received C memory junk (wire C buffer CRC fs) = some fields :=
  received_wire_full buffer memory junk CRC hfit (h _)

end

/-- A reader that starts with a field reads the first field that was written. -/
theorem decode_field {β : Type} {hidden : ℕ} {t : FieldType} {v : t.Value}
    (hv : NulFree t v) (fs : List Field) (tail : List Byte) (next : t.Value → Reader β) :
    (extract t >>= next).decode hidden (encodeAll (⟨t, v⟩ :: fs) ++ tail)
      = (next v).decode hidden (encodeAll fs ++ tail) := by
  rw [encodeAll_cons, List.append_assoc]
  exact decode_bind_of_eq (decode_extract hv _)

theorem decode_object {β : Type} {hidden n : ℕ} {pos : 0 < n} (v : BitVec (8 * n))
    (fs : List Field) (tail : List Byte) (next : BitVec (8 * n) → Reader β) :
    (extract (.scalar n pos) >>= next).decode hidden
        (encodeAll (⟨.scalar n pos, v⟩ :: fs) ++ tail)
      = (next v).decode hidden (encodeAll fs ++ tail) :=
  decode_field (t := .scalar n pos) trivial fs tail next

theorem decode_text {β : Type} {hidden : ℕ} {s : List Byte} (hs : (0 : Byte) ∉ s)
    (fs : List Field) (tail : List Byte) (next : List Byte → Reader β) :
    (extract .string >>= next).decode hidden (encodeAll (⟨.string, s⟩ :: fs) ++ tail)
      = (next s).decode hidden (encodeAll fs ++ tail) :=
  decode_field (t := .string) hs fs tail next

/-- The encodings of a list are as long as its entries make them. -/
theorem mul_length_le {α : Type} {pack : α → List Field} {k : ℕ} (xs : List α)
    (h : ∀ x, k ≤ (encodeAll (pack x)).length) :
    k * xs.length ≤ (encodeAll (xs.flatMap pack)).length := by
  induction xs with
  | nil => exact Nat.zero_le _
  | cons x xs ih =>
      have hx := h x
      rw [List.flatMap_cons, encodeAll_append, List.length_append, List.length_cons,
        Nat.mul_succ]
      omega

/-! ## The list of servers -/

/-- The marker in front of a server, and whether it says test server. -/
theorem marker_ne_zero (test : Bool) :
    (if test then 0x40 else 0x20 : BitVec 8) ≠ 0 ∧
      decide ((if test then 0x40 else 0x20 : BitVec 8) = 0x40) = test := by
  cases test <;> decide

/-- The loop reads back the servers that were written and goes on with what follows. -/
theorem decode_servers {hidden : ℕ} {servers : List ServerInfo}
    (hnul : ∀ s ∈ servers, (0 : Byte) ∉ s.name_) (fuel : ℕ) (tail : List Byte) :
    (extract char >>= readServers (servers.length + fuel)).decode hidden
        (encodeAll (servers.flatMap ServerInfo.pack) ++ tail)
      = ((extract char >>= readServers fuel).decode hidden tail).map fun r =>
          (servers ++ r.1, r.2) := by
  induction servers with
  | nil =>
      rw [List.length_nil, Nat.zero_add]
      exact Option.map_id_apply.symm
  | cons s servers ih =>
      obtain ⟨hpad, htest⟩ := marker_ne_zero s.test_
      have hfuel : (s :: servers).length + fuel = servers.length + fuel + 1 := by
        rw [List.length_cons]
        omega
      have hpack : (s :: servers).flatMap ServerInfo.pack
          = ⟨char, if s.test_ then 0x40 else 0x20⟩ :: ⟨.string, s.name_⟩
            :: ⟨uint32_t, s.id_⟩ :: servers.flatMap ServerInfo.pack := rfl
      rw [hfuel, hpack, decode_object, readServers, readServer, if_neg hpad,
        decode_text (hnul s List.mem_cons_self), decode_object, decode_bind,
        ih fun s' hs' => hnul s' (List.mem_cons_of_mem s hs'), htest]
      cases (extract char >>= readServers fuel).decode hidden tail with
      | none => rfl
      | some r => rfl

/-- An entry only depends on how the loop goes on behind it. -/
theorem decode_readServer_congr {more more' : Reader (List ServerInfo)} {known : List Byte}
    (h : ∀ rest : List Byte, rest.length ≤ known.length →
      more.decode 0 rest = more'.decode 0 rest) (pad : BitVec 8) :
    (readServer pad more).decode 0 known = (readServer pad more').decode 0 known := by
  unfold readServer
  by_cases hpad : pad = 0
  · rw [if_pos hpad, if_pos hpad]
  · obtain ⟨name, hname⟩ := exists_decode_zero (extract .string) known
    obtain ⟨id, hid⟩ := exists_decode_zero (extract uint32_t) name.2
    have hle := (length_decode_le hid).trans (length_decode_le hname)
    rw [if_neg hpad, if_neg hpad, decode_bind_of_eq hname, decode_bind_of_eq hname,
      decode_bind_of_eq hid, decode_bind_of_eq hid, decode_bind, decode_bind, h id.2 hle]

/-- The marker that is read, and what is left behind it. -/
theorem decode_marker (known : List Byte) :
    (extract char).decode 0 known = some (known.headD 0, known.tail) := by
  cases known with
  | nil => rfl
  | cons b bs =>
      have hword : word 1 (objectBytes 1 b ++ bs) = b := word_objectBytes 1 b bs
      have hbytes : objectBytes 1 b ++ bs = b :: bs := by
        have hb : b.extractLsb' (8 * 0) 8 = b := by simp
        rw [objectBytes, List.range_one, List.map_singleton, hb, List.singleton_append]
      rw [extract, decode_scalar, decodeScalar, if_pos (by simp), ← hbytes, hword, hbytes]
      rfl

/-- More rounds of the loop than there are bytes change nothing. -/
theorem readServers_fuel {fuel : ℕ} {known : List Byte} (h : known.length ≤ fuel)
    (pad : BitVec 8) :
    (readServers (fuel + 1) pad).decode 0 known = (readServers fuel pad).decode 0 known := by
  induction fuel generalizing known pad with
  | zero =>
      apply decode_readServer_congr
      intro rest hrest
      obtain rfl : rest = [] := List.length_eq_zero_iff.mp (by omega)
      rfl
  | succ fuel ih =>
      apply decode_readServer_congr
      intro rest hrest
      rw [decode_bind_of_eq (decode_marker rest), decode_bind_of_eq (decode_marker rest)]
      exact ih (by rw [List.length_tail]; omega) _

/-- Behind the packed servers the list ends exactly when the marker there is zero. -/
theorem decode_servers_end {fuel : ℕ} {tail rest : List Byte} {more : List ServerInfo}
    (h : (extract char >>= readServers fuel).decode 0 tail = some (more, rest)) :
    more = [] ↔ tail.headD 0 = 0 := by
  rw [decode_bind_of_eq (decode_marker tail)] at h
  exact (reads_readServers fuel (tail.headD 0)).gives more ⟨_, _, h⟩

/-- The first byte behind a packet. -/
theorem headD_leftover (memory : ℕ → Byte) {s : ℕ} (hs : s ≤ 2046) :
    (leftover memory s).headD 0 = 0 ↔ s = 2046 ∨ memory s = 0 := by
  by_cases hfull : s = 2046
  · rw [hfull]
    exact ⟨fun _ => Or.inl rfl, fun _ => rfl⟩
  · have hM : MAX_PACKET_SIZE = 2047 := rfl
    obtain ⟨n, hn⟩ : ∃ n, MAX_PACKET_SIZE - 1 - s = n + 1 := ⟨2045 - s, by omega⟩
    rw [leftover, hn, List.range'_succ, List.map_cons, List.headD_cons]
    exact ⟨Or.inr, fun h => h.resolve_left hfull⟩

/-- What the constructor reads from a packed login reply. -/
theorem received_loginReply (reply : LoginReply)
    (hnul : ∀ s ∈ reply.servers_, (0 : Byte) ∉ s.name_)
    (hfit : 6 + (encodeAll reply.pack).length ≤ 2046) (buffer memory junk : ℕ → Byte)
    (CRC : BitVec 16) :
    ∃ servers, received SrvLoginReply memory junk (wire SrvLoginReply buffer CRC reply.pack)
        = some ⟨reply.result_, reply.right_, reply.type_, servers⟩ ∧
      (reply.result_ = 0 → (servers = reply.servers_ ↔
        6 + (encodeAll reply.pack).length = 2046 ∨
          memory (6 + (encodeAll reply.pack).length) = 0)) := by
  have hM : MAX_PACKET_SIZE = 2047 := rfl
  obtain ⟨tail, htail⟩ : ∃ tail, tail = leftover memory (6 + (encodeAll reply.pack).length) :=
    ⟨_, rfl⟩
  by_cases hresult : reply.result_ ≠ 0
  · have hdec : ∃ rest, readLoginReply.decode 0 (encodeAll reply.pack ++ tail)
        = some (some ⟨reply.result_, reply.right_, reply.type_, []⟩, rest) := by
      rw [LoginReply.pack, readLoginReply, decode_object, decode_object, decode_object,
        if_pos hresult]
      exact ⟨_, rfl⟩
    rw [htail] at hdec
    exact ⟨[], received_wire_full buffer memory junk CRC (by omega) hdec,
      fun h => absurd h hresult⟩
  · -- the loop reads the servers, and the rest of the array as more of them
    have hbytes : ∀ server : ServerInfo, 1 ≤ (encodeAll server.pack).length := by
      intro server
      rw [ServerInfo.pack]
      simp only [encodeAll_cons, List.length_append, Field.encode, encode_scalar,
        length_objectBytes]
      omega
    have hlen := mul_length_le reply.servers_ hbytes
    have hpack : (encodeAll reply.pack).length
        = 5 + (encodeAll (reply.servers_.flatMap ServerInfo.pack)).length := by
      rw [LoginReply.pack]
      simp only [encodeAll_cons, List.length_append, Field.encode, encode_scalar,
        length_objectBytes]
      omega
    obtain ⟨fuel, hfuel⟩ : ∃ fuel, MAX_PACKET_SIZE = reply.servers_.length + fuel :=
      ⟨MAX_PACKET_SIZE - reply.servers_.length, by omega⟩
    obtain ⟨r, hr⟩ := exists_decode_zero (extract char >>= readServers fuel) tail
    have hdec : ∃ rest, readLoginReply.decode 0 (encodeAll reply.pack ++ tail)
        = some (some ⟨reply.result_, reply.right_, reply.type_, reply.servers_ ++ r.1⟩,
          rest) := by
      rw [LoginReply.pack, readLoginReply, decode_object, decode_object, decode_object,
        if_neg hresult, decode_bind, readServerList, hfuel, decode_servers hnul, hr]
      exact ⟨_, rfl⟩
    rw [htail] at hdec
    refine ⟨reply.servers_ ++ r.1,
      received_wire_full buffer memory junk CRC (by omega) hdec, fun _ => ?_⟩
    rw [← headD_leftover memory hfit, ← htail, ← decode_servers_end hr]
    exact List.append_right_eq_self

/-- **A login reply comes back** exactly when it says no servers, or the packet fills the
array, or the byte that the object holds behind the packet is zero. -/
theorem received_loginReply_iff (reply : LoginReply)
    (hnul : ∀ s ∈ reply.servers_, (0 : Byte) ∉ s.name_)
    (hfit : 6 + (encodeAll reply.pack).length ≤ 2046) (buffer memory junk : ℕ → Byte)
    (CRC : BitVec 16) :
    (∃ got, received SrvLoginReply memory junk (wire SrvLoginReply buffer CRC reply.pack)
        = some got ∧ got.result_ = reply.result_ ∧ got.right_ = reply.right_ ∧
          got.type_ = reply.type_ ∧ (reply.result_ = 0 → got.servers_ = reply.servers_)) ↔
      reply.result_ ≠ 0 ∨ 6 + (encodeAll reply.pack).length = 2046 ∨
        memory (6 + (encodeAll reply.pack).length) = 0 := by
  obtain ⟨servers, hgot, hservers⟩ := received_loginReply reply hnul hfit buffer memory junk CRC
  rw [hgot]
  constructor
  · rintro ⟨got, heq, -, -, -, hsame⟩
    obtain rfl := Option.some.inj heq
    by_cases hresult : reply.result_ = 0
    · right
      exact (hservers hresult).mp (hsame hresult)
    · left
      exact hresult
  · intro h
    refine ⟨_, rfl, rfl, rfl, rfl, fun hresult => ?_⟩
    exact (hservers hresult).mpr (h.resolve_left (not_not.mpr hresult))

/-- One server with the name `a`. -/
def oneServer : LoginReply := ⟨0, 0x100, 0, [⟨[97], 1, false⟩]⟩

theorem received_oneServer :
    ∃ got, received SrvLoginReply (fun _ => 0) (fun _ => 0xff)
        (wire SrvLoginReply (fun _ => 0xcc) 0 oneServer.pack) = some got ∧
      got.result_ = oneServer.result_ ∧ got.right_ = oneServer.right_ ∧
      got.type_ = oneServer.type_ ∧
      (oneServer.result_ = 0 → got.servers_ = oneServer.servers_) :=
  (received_loginReply_iff oneServer (by decide) (by decide) (fun _ => 0xcc) (fun _ => 0)
    (fun _ => 0xff) 0).mpr (Or.inr (Or.inr rfl))

/-- Over memory that holds a blank behind the packet a second server appears. -/
theorem not_received_oneServer :
    ¬ ∃ got, received SrvLoginReply (fun i => if i = 18 then 0x20 else 0) (fun _ => 0)
        (wire SrvLoginReply (fun _ => 0) 0 oneServer.pack) = some got ∧
      got.result_ = oneServer.result_ ∧ got.right_ = oneServer.right_ ∧
      got.type_ = oneServer.type_ ∧
      (oneServer.result_ = 0 → got.servers_ = oneServer.servers_) := by
  rintro ⟨got, hgot, -, -, -, hsame⟩
  have htwo : (received SrvLoginReply (fun i => if i = 18 then 0x20 else 0) (fun _ => 0)
      (wire SrvLoginReply (fun _ => 0) 0 oneServer.pack)).map LoginReply.servers_
        = some [⟨[97], 1, false⟩, ⟨[], 0, false⟩] := by decide
  rw [hgot] at htwo
  have hservers := Option.some.inj htwo
  rw [hsame rfl] at hservers
  exact absurd hservers (by decide)

/-! ## Lists with a count -/

/-- Reading as many entries as were written gives them back. -/
theorem decode_entries {α : Type} {hidden : ℕ} {P : Reader α} {pack : α → List Field}
    (xs : List α)
    (h : ∀ x ∈ xs, ∀ tail, P.decode hidden (encodeAll (pack x) ++ tail) = some (x, tail))
    {n : ℕ} (hn : xs.length = n) (tail : List Byte) :
    (many P n).decode hidden (encodeAll (xs.flatMap pack) ++ tail)
      = some (⟨xs, hn⟩, tail) := by
  have hflat : encodeAll (xs.flatMap pack) = xs.flatMap fun x => encodeAll (pack x) := by
    rw [encodeAll, List.flatMap_assoc]
    rfl
  rw [hflat]
  exact decode_many ⟨xs, hn⟩ tail h

theorem decode_channel {hidden : ℕ} {channel : ChannelInfo} (hnul : (0 : Byte) ∉ channel.name_)
    (tail : List Byte) :
    readChannel.decode hidden (encodeAll channel.pack ++ tail) = some (channel, tail) := by
  rw [ChannelInfo.pack, readChannel, decode_object, decode_object, decode_object,
    decode_object, decode_text hnul]
  rfl

theorem decode_character {hidden : ℕ} {character : CharInfo}
    (hnul : (0 : Byte) ∉ character.name_) (tail : List Byte) :
    readCharacter.decode hidden (encodeAll character.pack ++ tail)
      = some (character, tail) := by
  have hitems : NulFree (.array MAX_EQUIPPED_ITEMS uint32_t) character.items_ :=
    fun _ _ => trivial
  rw [CharInfo.pack, readCharacter, decode_text hnul, decode_object, decode_object,
    decode_object, decode_object, decode_object, decode_object, decode_object,
    decode_field hitems]
  rfl

/-- What the constructor reads from a packed list of channels. -/
theorem received_channelListReply (reply : ChannelListReply)
    (hnul : ∀ c ∈ reply.channels_, (0 : Byte) ∉ c.name_)
    (hfit : 6 + (encodeAll reply.pack).length ≤ 2046) (buffer memory junk : ℕ → Byte)
    (CRC : BitVec 16) :
    ∃ channels, received SrvChannelListReply memory junk
        (wire SrvChannelListReply buffer CRC reply.pack) = some ⟨reply.id_, channels⟩ ∧
      channels.length = reply.channels_.length % 256 ∧
      (reply.channels_.length < 256 → channels = reply.channels_) := by
  obtain ⟨tail, htail⟩ : ∃ tail, tail = leftover memory (6 + (encodeAll reply.pack).length) :=
    ⟨_, rfl⟩
  obtain ⟨nb, hnb⟩ : ∃ nb, nb = BitVec.ofNat 8 reply.channels_.length := ⟨_, rfl⟩
  have hcount : nb.toNat = reply.channels_.length % 256 := by
    rw [hnb, BitVec.toNat_ofNat]
  obtain ⟨r, hr⟩ := exists_decode_zero (many readChannel nb.toNat)
    (encodeAll (reply.channels_.flatMap ChannelInfo.pack) ++ tail)
  have hdec : ∃ rest, readChannelListReply.decode 0 (encodeAll reply.pack ++ tail)
      = some (some ⟨reply.id_, r.1.toList⟩, rest) := by
    rw [ChannelListReply.pack, readChannelListReply, decode_object, ← hnb, decode_object,
      decode_bind_of_eq hr]
    exact ⟨_, rfl⟩
  rw [htail] at hdec
  refine ⟨r.1.toList, received_wire_full buffer memory junk CRC (by omega) hdec, ?_, ?_⟩
  · rw [r.1.toList_length, hcount]
  · intro hlt
    have hn : reply.channels_.length = nb.toNat := by
      rw [hcount, Nat.mod_eq_of_lt hlt]
    rw [decode_entries reply.channels_ (fun c hc => decode_channel (hnul c hc)) hn,
      Option.some.injEq] at hr
    rw [← hr]
    rfl

/-- A list of channels comes back exactly when its length fits the count. -/
theorem received_channelListReply_iff (reply : ChannelListReply)
    (hnul : ∀ c ∈ reply.channels_, (0 : Byte) ∉ c.name_)
    (hfit : 6 + (encodeAll reply.pack).length ≤ 2046) (buffer memory junk : ℕ → Byte)
    (CRC : BitVec 16) :
    received SrvChannelListReply memory junk
        (wire SrvChannelListReply buffer CRC reply.pack) = some reply
      ↔ reply.channels_.length < 256 := by
  obtain ⟨channels, hgot, hlen, hsame⟩ :=
    received_channelListReply reply hnul hfit buffer memory junk CRC
  rw [hgot]
  constructor
  · intro heq
    have hall : channels = reply.channels_ :=
      congrArg ChannelListReply.channels_ (Option.some.inj heq)
    rw [hall] at hlen
    omega
  · intro hlt
    rw [hsame hlt]
    rfl

/-- A list of characters always comes back: it is too short to overflow the count. -/
theorem received_characterListReply (reply : CharacterListReply)
    (hnul : ∀ c ∈ reply.character_list_, (0 : Byte) ∉ c.name_)
    (hfit : 6 + (encodeAll reply.pack).length ≤ 2046) (buffer memory junk : ℕ → Byte)
    (CRC : BitVec 16) :
    received SrvCharacterListReply memory junk
        (wire SrvCharacterListReply buffer CRC reply.pack) = some reply := by
  -- a character without its items takes at least 19 bytes
  have hbytes : ∀ character : CharInfo, 19 ≤ (encodeAll character.pack).length := by
    intro character
    rw [CharInfo.pack]
    simp only [encodeAll_cons, List.length_append, Field.encode, encode_scalar, encode_string,
      length_objectBytes, List.length_singleton]
    omega
  have hlen := mul_length_le reply.character_list_ hbytes
  have hpack : (encodeAll reply.pack).length
      = 1 + (encodeAll (reply.character_list_.flatMap CharInfo.pack)).length := by
    rw [CharacterListReply.pack, encodeAll_cons, List.length_append, Field.encode,
      encode_scalar, length_objectBytes]
  have hn : reply.character_list_.length = reply.character_count_.toNat := by
    rw [reply.counted, BitVec.toNat_ofNat]
    omega
  apply received_wire buffer memory junk CRC (by omega)
  intro tail
  have hdec : readCharacterListReply.decode 0 (encodeAll reply.pack ++ tail)
      = some (some reply, tail) := by
    rw [CharacterListReply.pack, readCharacterListReply, decode_object,
      decode_bind_of_eq (decode_entries reply.character_list_
        (fun c hc => decode_character (hnul c hc)) hn tail)]
    rfl
  exact ⟨tail, hdec⟩

/-- **The two lists with a count**: channels come back exactly when there are fewer than
256, characters always. -/
theorem received_lists_iff (channels : ChannelListReply) (characters : CharacterListReply)
    (hchannels : ∀ c ∈ channels.channels_, (0 : Byte) ∉ c.name_)
    (hcharacters : ∀ c ∈ characters.character_list_, (0 : Byte) ∉ c.name_)
    (hfit : 6 + (encodeAll channels.pack).length ≤ 2046)
    (hfit' : 6 + (encodeAll characters.pack).length ≤ 2046) (buffer memory junk : ℕ → Byte)
    (CRC : BitVec 16) :
    (received SrvChannelListReply memory junk
        (wire SrvChannelListReply buffer CRC channels.pack) = some channels
      ↔ channels.channels_.length < 256) ∧
    received SrvCharacterListReply memory junk
      (wire SrvCharacterListReply buffer CRC characters.pack) = some characters :=
  ⟨received_channelListReply_iff channels hchannels hfit buffer memory junk CRC,
    received_characterListReply characters hcharacters hfit' buffer memory junk CRC⟩

/-- One channel with the name `a`. -/
def oneChannel : ChannelListReply := ⟨7, [⟨[97], 1, 0, 0, 300⟩]⟩

/-- One character with the name `b`, and in each place the item 30. -/
def oneCharacter : CharacterListReply :=
  ⟨1, [⟨[98], 0, 5, 0, 0, 0, 1, 2, List.Vector.replicate MAX_EQUIPPED_ITEMS 30⟩], rfl⟩

theorem received_lists_one :
    received SrvChannelListReply (fun _ => 0xff) (fun _ => 0)
        (wire SrvChannelListReply (fun _ => 0xcc) 0 oneChannel.pack) = some oneChannel ∧
    received SrvCharacterListReply (fun _ => 0xff) (fun _ => 0)
      (wire SrvCharacterListReply (fun _ => 0xcc) 0 oneCharacter.pack) = some oneCharacter := by
  have h := received_lists_iff oneChannel oneCharacter (by decide) (by decide) (by decide)
    (by decide) (fun _ => 0xcc) (fun _ => 0xff) (fun _ => 0) 0
  exact ⟨h.1.mpr (by decide), h.2⟩

/-- 256 channels without a name. -/
def manyChannels : ChannelListReply := ⟨7, List.replicate 256 ⟨[], 1, 0, 0, 0⟩⟩

theorem length_encodeAll_replicate {α : Type} (pack : α → List Field) (n : ℕ) (x : α) :
    (encodeAll ((List.replicate n x).flatMap pack)).length
      = n * (encodeAll (pack x)).length := by
  induction n with
  | zero => rw [Nat.zero_mul]; rfl
  | succ n ih =>
      rw [List.replicate_succ, List.flatMap_cons, encodeAll_append, List.length_append, ih,
        Nat.succ_mul, Nat.add_comm]

/-- They fit the packet, and do not come back. -/
theorem not_received_manyChannels :
    6 + (encodeAll manyChannels.pack).length ≤ 2046 ∧
      (∀ c ∈ manyChannels.channels_, (0 : Byte) ∉ c.name_) ∧
      received SrvChannelListReply (fun _ => 0) (fun _ => 0)
        (wire SrvChannelListReply (fun _ => 0) 0 manyChannels.pack) ≠ some manyChannels := by
  have hnul : ∀ c ∈ manyChannels.channels_, (0 : Byte) ∉ c.name_ := by
    intro c hc
    rw [List.eq_of_mem_replicate hc]
    exact List.not_mem_nil
  have hfit : 6 + (encodeAll manyChannels.pack).length ≤ 2046 := by
    rw [ChannelListReply.pack, manyChannels, encodeAll_cons, encodeAll_cons,
      List.length_append, List.length_append, length_encodeAll_replicate]
    decide
  refine ⟨hfit, hnul, ?_⟩
  intro heq
  have hlt := (received_channelListReply_iff manyChannels hnul hfit _ _ _ 0).mp heq
  rw [manyChannels, List.length_replicate] at hlt
  omega

/-! ## Passwords -/

/-- A password without a zero is written like an array of its length. -/
theorem encodeAll_packCStr {s : List Byte} (hs : (0 : Byte) ∉ s) {n : ℕ} (hn : s.length = n) :
    encodeAll (packCStr s) = encode (.array n char) ⟨s, hn⟩ := by
  have hwhole : s.takeWhile (· ≠ 0) = s := by
    rw [List.takeWhile_eq_self_iff]
    intro c hc
    rw [decide_eq_true_eq]
    rintro rfl
    exact hs hc
  have harray : encode (.array n char) ⟨s, hn⟩ = s.flatMap (encode char) :=
    encode_array n char ⟨s, hn⟩
  rw [packCStr, hwhole, harray, encodeAll, List.flatMap_map]
  rfl

/-- What an array of 32 characters reads: always 32, and the password if it has as many. -/
theorem decode_password {s : List Byte} (hs : (0 : Byte) ∉ s) (tail : List Byte) :
    ∃ pass rest, (extract (.array 32 char)).decode 0 (encodeAll (packCStr s) ++ tail)
        = some (pass, rest) ∧ (s.length = 32 → List.Vector.toList pass = s ∧ rest = tail) := by
  obtain ⟨r, hr⟩ := exists_decode_zero (extract (.array 32 char))
    (encodeAll (packCStr s) ++ tail)
  refine ⟨r.1, r.2, hr, ?_⟩
  intro hn
  have harray : NulFree (.array 32 char) ⟨s, hn⟩ := fun _ _ => trivial
  rw [encodeAll_packCStr hs hn, decode_extract harray, Option.some.injEq] at hr
  rw [← hr]
  exact ⟨rfl, rfl⟩

theorem received_loginReq_iff (req : LoginReq) (hpass : (0 : Byte) ∉ req.password_)
    (huser : (0 : Byte) ∉ req.username_) (hfit : 6 + (encodeAll req.pack).length ≤ 2046)
    (buffer memory junk : ℕ → Byte) (CRC : BitVec 16) :
    received CliLoginReq memory junk (wire CliLoginReq buffer CRC req.pack) = some req
      ↔ req.password_.length = 32 := by
  obtain ⟨tail, htail⟩ : ∃ tail, tail = leftover memory (6 + (encodeAll req.pack).length) :=
    ⟨_, rfl⟩
  obtain ⟨pass, rest, hdec, hsame⟩ := decode_password hpass
    (encodeAll [⟨.string, req.username_⟩] ++ tail)
  obtain ⟨user, huserdec⟩ := exists_decode_zero (extract .string) rest
  have hreq : ∃ left, readLoginReq.decode 0 (encodeAll req.pack ++ tail)
      = some (some ⟨pass.toList, user.1⟩, left) := by
    rw [LoginReq.pack, encodeAll_append, List.append_assoc, readLoginReq,
      decode_bind_of_eq hdec, decode_bind_of_eq huserdec]
    exact ⟨_, rfl⟩
  rw [htail] at hreq
  rw [received_wire_full buffer memory junk CRC (by omega) hreq]
  constructor
  · intro heq
    have hpassword : pass.toList = req.password_ :=
      congrArg LoginReq.password_ (Option.some.inj heq)
    rw [← hpassword, pass.toList_length]
  · intro hn
    obtain ⟨hpassword, hrest⟩ := hsame hn
    have husername : NulFree .string req.username_ := huser
    rw [hrest, encodeAll_cons, List.append_assoc, Field.encode, decode_extract husername,
      Option.some.injEq] at huserdec
    rw [hpassword, ← huserdec]

theorem received_joinServerReq_iff (req : JoinServerReq) (hpass : (0 : Byte) ∉ req.password_)
    (hfit : 6 + (encodeAll req.pack).length ≤ 2046) (buffer memory junk : ℕ → Byte)
    (CRC : BitVec 16) :
    received CliJoinServerReq memory junk (wire CliJoinServerReq buffer CRC req.pack) = some req
      ↔ req.password_.length = 32 := by
  obtain ⟨tail, htail⟩ : ∃ tail, tail = leftover memory (6 + (encodeAll req.pack).length) :=
    ⟨_, rfl⟩
  obtain ⟨pass, rest, hdec, hsame⟩ := decode_password hpass tail
  have hreq : ∃ left, readJoinServerReq.decode 0 (encodeAll req.pack ++ tail)
      = some (some ⟨req.sessionId_, pass.toList⟩, left) := by
    rw [JoinServerReq.pack, readJoinServerReq, decode_object, decode_bind_of_eq hdec]
    exact ⟨_, rfl⟩
  rw [htail] at hreq
  rw [received_wire_full buffer memory junk CRC (by omega) hreq]
  constructor
  · intro heq
    have hpassword : pass.toList = req.password_ :=
      congrArg JoinServerReq.password_ (Option.some.inj heq)
    rw [← hpassword, pass.toList_length]
  · intro hn
    rw [(hsame hn).1]

/-- **Both requests with a password come back** exactly when it has 32 characters. -/
theorem received_requests_iff (login : LoginReq) (join : JoinServerReq)
    (hlogin : (0 : Byte) ∉ login.password_) (huser : (0 : Byte) ∉ login.username_)
    (hjoin : (0 : Byte) ∉ join.password_) (hfit : 6 + (encodeAll login.pack).length ≤ 2046)
    (hfit' : 6 + (encodeAll join.pack).length ≤ 2046) (buffer memory junk : ℕ → Byte)
    (CRC : BitVec 16) :
    (received CliLoginReq memory junk (wire CliLoginReq buffer CRC login.pack) = some login
      ↔ login.password_.length = 32) ∧
    (received CliJoinServerReq memory junk (wire CliJoinServerReq buffer CRC join.pack)
      = some join ↔ join.password_.length = 32) :=
  ⟨received_loginReq_iff login hlogin huser hfit buffer memory junk CRC,
    received_joinServerReq_iff join hjoin hfit' buffer memory junk CRC⟩

/-- A digest as the client sends it. -/
def digest : List Byte := List.replicate 32 0x61

theorem received_digest :
    received CliLoginReq (fun _ => 0xff) (fun _ => 0)
        (wire CliLoginReq (fun _ => 0xcc) 0 (LoginReq.pack ⟨digest, [0x62]⟩))
      = some ⟨digest, [0x62]⟩ ∧
    received CliJoinServerReq (fun _ => 0xff) (fun _ => 0)
        (wire CliJoinServerReq (fun _ => 0xcc) 0 (JoinServerReq.pack ⟨1, digest⟩))
      = some ⟨1, digest⟩ := by
  have h := received_requests_iff ⟨digest, [0x62]⟩ ⟨1, digest⟩ (by decide) (by decide)
    (by decide) (by decide) (by decide) (fun _ => 0xcc) (fun _ => 0xff) (fun _ => 0) 0
  exact ⟨h.1.mpr (by decide), h.2.mpr (by decide)⟩

/-- The password `test` and the user name `u`: the password takes the name along. -/
theorem not_received_short :
    received CliLoginReq (fun _ => 0) (fun _ => 0)
        (wire CliLoginReq (fun _ => 0) 0 (LoginReq.pack ⟨[0x74, 0x65, 0x73, 0x74], [0x75]⟩))
      ≠ some ⟨[0x74, 0x65, 0x73, 0x74], [0x75]⟩ := by
  intro heq
  have hlen := (received_loginReq_iff _ (by decide) (by decide) (by decide) _ _ _ 0).mp heq
  exact absurd hlen (by decide)

end OsIrose.Packet

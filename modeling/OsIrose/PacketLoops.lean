/-
The constructors that loop on what they read, `rosecommon/src/packets/*.cpp`.

`operator>>` for a `std::string` loops until it reads a zero, `SrvLoginReply` until a
marker is zero, `SrvChannelListReply` and `SrvCharacterListReply` by a count that is in the
packet. `PacketClass.parse` has these loops as functions on readers, with a fuel where
nothing counts the rounds. Here they are programs that go round as the source does, one
read at a time, over any content of `buffer_`.

At the end of the array `readNext` gives zero and leaves `current_` where it is, and a wide
read may fail where a narrow one still moves. So a marker that is not zero was taken from
the array, and the bytes left with one for the marker (`loginReplyVariant`) go down in
every round.
-/
import OsIrose.PacketReplies
import OsIrose.Scan

set_option autoImplicit false

namespace OsIrose.Packet

open ByteMem Network Wire Scan

/-! ## The cursor as a source -/

theorem readNext_served (n : ℕ) (p : CRosePacket) :
    MAX_PACKET_SIZE - 1 - (readNext n p).2.current + n = MAX_PACKET_SIZE - 1 - p.current ∨
      readNext n p = (0, p) := by
  rw [readNext]
  by_cases hend : MAX_PACKET_SIZE ≤ p.current + n
  · rw [if_pos hend]
    exact Or.inr rfl
  · rw [if_neg hend]
    left
    dsimp only
    omega

/-- `readNext<T>()` over the bytes of `buffer_`. -/
def cursor : Source CRosePacket where
  read := readNext
  left p := MAX_PACKET_SIZE - 1 - p.current
  served := readNext_served

/-- The cursor stays in the array. -/
theorem readNext_current_lt (n : ℕ) {p : CRosePacket} (hp : p.current < MAX_PACKET_SIZE) :
    (readNext n p).2.current < MAX_PACKET_SIZE := by
  rw [readNext]
  by_cases hend : MAX_PACKET_SIZE ≤ p.current + n
  · rw [if_pos hend]
    exact hp
  · rw [if_neg hend]
    exact Nat.lt_of_not_le hend

/-- The loop of `operator>>` without a bound reads the same. -/
theorem readText_eq {fuel : ℕ} {p : CRosePacket} (hfuel : cursor.left p < fuel) :
    cursor.readText p = readString fuel p := by
  induction fuel generalizing p with
  | zero => exact absurd hfuel (Nat.not_lt_zero _)
  | succ fuel ih =>
      rw [Source.readText, readString]
      by_cases hzero : (readNext 1 p).1 = 0
      · rw [if_pos hzero]
        exact if_pos hzero
      · have htaken := cursor.left_read_of_ne_zero (n := 1) (c := p) hzero
        have hnext : cursor.left (readNext 1 p).2 < fuel := by
          change cursor.left (cursor.read 1 p).2 < fuel
          omega
        rw [if_neg hzero, ← ih hnext]
        exact if_neg hzero

theorem eval_eq_run {α : Type} (P : Reader α) (p : CRosePacket) :
    cursor.eval P p = run P p := by
  induction P generalizing p with
  | done a => rfl
  | scalar n pos next ih => exact ih _ _
  | string next ih =>
      have hM : MAX_PACKET_SIZE = 2047 := rfl
      have htext : cursor.readText p = readString MAX_PACKET_SIZE p := by
        apply readText_eq
        change MAX_PACKET_SIZE - 1 - p.current < MAX_PACKET_SIZE
        omega
      rw [Source.eval, htext]
      exact ih _ _

/-! ## The constructors -/

/-- A constructor: what it does behind `CRosePacket(buffer)` and the check of the type. -/
structure Constructor where
  Class : PacketClass
  program : Program (Option Class.Fields)
  /-- How many characters it copies from arrays into strings. -/
  copied : ℕ

namespace Constructor

/-- A constructor without a loop of its own. -/
def straight (C : PacketClass) : Constructor where
  Class := C
  program :=
    { Vars := Empty
      before := do
        let fields ← C.parse
        return .inr fields
      round := Empty.elim }
  copied := 0

/-- `CliJoinServerReq` ends with `std::string(pass, 32)`. -/
def joinServerReq : Constructor := { straight CliJoinServerReq with copied := 32 }

/-- `CliLoginReq` has `std::string(pass, 32)` in front of the name. -/
def loginReq : Constructor := { straight CliLoginReq with copied := 32 }

/-- The variables of the loop in `SrvLoginReply`: the object and `pad`. -/
structure LoginReplyVars where
  reply : LoginReply
  pad : BitVec 8

/-- Up to the loop. -/
def loginReplyBefore : Reader (LoginReplyVars ⊕ Option LoginReply) := do
  let result_ ← extract uint8_t
  let right_ ← extract uint16_t
  let type_ ← extract uint16_t
  if result_ ≠ 0 then return .inr (some ⟨result_, right_, type_, []⟩)
  else
    let pad ← extract char
    return .inl ⟨⟨result_, right_, type_, []⟩, pad⟩

/-- `while (pad)`. -/
def loginReplyRound (vars : LoginReplyVars) : Reader (LoginReplyVars ⊕ Option LoginReply) :=
  if vars.pad = 0 then return .inr (some vars.reply)
  else do
    let name_ ← extract .string
    let id_ ← extract uint32_t
    let info : ServerInfo := ⟨name_, id_, vars.pad = 0x40⟩
    let pad ← extract char
    return .inl ⟨{ vars.reply with servers_ := vars.reply.servers_ ++ [info] }, pad⟩

def loginReply : Constructor where
  Class := SrvLoginReply
  program := ⟨LoginReplyVars, loginReplyBefore, loginReplyRound⟩
  copied := 0

/-- The variables of the loop in `SrvChannelListReply`: the object and `nb`. -/
structure ChannelListVars where
  reply : ChannelListReply
  nb : BitVec 8

/-- Up to the loop. -/
def channelListBefore : Reader (ChannelListVars ⊕ Option ChannelListReply) := do
  let id_ ← extract uint32_t
  let nb ← extract uint8_t
  return .inl ⟨⟨id_, []⟩, nb⟩

/-- `while (nb-- > 0)`. -/
def channelListRound (vars : ChannelListVars) :
    Reader (ChannelListVars ⊕ Option ChannelListReply) :=
  if vars.nb = 0 then return .inr (some vars.reply)
  else do
    let channel ← readChannel
    return .inl ⟨{ vars.reply with channels_ := vars.reply.channels_ ++ [channel] },
      vars.nb - 1⟩

def channelListReply : Constructor where
  Class := SrvChannelListReply
  program := ⟨ChannelListVars, channelListBefore, channelListRound⟩
  copied := 0

/-- The variables of the loop in `SrvCharacterListReply`. One character is added in each
round. -/
structure CharacterListVars where
  character_count_ : BitVec 8
  character_list_ : List CharInfo
  i : ℕ
  added : i = character_list_.length
  le : i ≤ character_count_.toNat

/-- Up to the loop. -/
def characterListBefore : Reader (CharacterListVars ⊕ Option CharacterListReply) := do
  let character_count_ ← extract uint8_t
  return .inl ⟨character_count_, [], 0, rfl, Nat.zero_le _⟩

/-- `for (size_t i = 0; i < character_count_; ++i)`. -/
def characterListRound (vars : CharacterListVars) :
    Reader (CharacterListVars ⊕ Option CharacterListReply) :=
  if h : vars.i < vars.character_count_.toNat then do
    let character ← readCharacter
    return .inl
      { character_count_ := vars.character_count_
        character_list_ := vars.character_list_ ++ [character]
        i := vars.i + 1
        added := by rw [List.length_append, ← vars.added, List.length_singleton]
        le := h }
  else return .inr (some
    { character_count_ := vars.character_count_
      character_list_ := vars.character_list_
      counted := by
        have hle := vars.le
        have hi : vars.character_count_.toNat = vars.i := by omega
        rw [← vars.added, ← hi, BitVec.ofNat_toNat, BitVec.setWidth_eq] })

def characterListReply : Constructor where
  Class := SrvCharacterListReply
  program := ⟨CharacterListVars, characterListBefore, characterListRound⟩
  copied := 0

/-- `CRosePacket(buffer)` reads the header, and the type has to be the one of the class. -/
def header (K : Constructor) : Reader (K.program.Vars ⊕ Option K.Class.Fields) := do
  let _size_ ← extract uint16_t
  let type_ ← extract uint16_t
  let _CRC_ ← extract uint16_t
  -- `throw_assert`
  if type_ ≠ K.Class.type then return .inr none
  else K.program.before

/-- The whole constructor. -/
def scan (K : Constructor) : Program (Option K.Class.Fields) where
  Vars := K.program.Vars
  before := K.header
  round := K.program.round

/-- `buffer_` holds `content` and `current_` points to its beginning. -/
def start (K : Constructor) (content : ℕ → Byte) : Point K.scan CRosePacket :=
  ⟨K.scan.before, [], ⟨content, 0, 0⟩, 0⟩

/-- The constructor after `n` steps. -/
def after (K : Constructor) (content : ℕ → Byte) (n : ℕ) : Point K.scan CRosePacket :=
  (step cursor)^[n] (K.start content)

end Constructor

open Constructor

/-- The classes with strings among their fields and no loop of their own. -/
def textClasses : List PacketClass :=
  [CliCreateCharReq, CliDeleteCharReq, CliNormalChat, CliPartyChat, CliSelectCharReq,
    CliWhisperChat, IscServerRegister, SrvSrvSelectReply, SrvSwitchServer]

/-- The constructors that read strings or lists. -/
def constructors : List Constructor :=
  [loginReply, channelListReply, characterListReply, loginReq, joinServerReq]
    ++ textClasses.map straight

/-! ## The loops end -/

/-- The constructor ends, with what `parse` gives, and it does not store more in strings
than the array has behind the header. -/
structure Constructor.Sound (K : Constructor) : Prop where
  ends : ∃ value : K.program.Vars → CRosePacket → Option K.Class.Fields,
    (∀ vars p, Ends cursor (P := K.scan) (K.program.round vars) [] p (value vars p)) ∧
      ∀ p, (cursor.eval K.program.before p).1.elim
        (value · (cursor.eval K.program.before p).2) id = (cursor.eval K.Class.parse p).1
  stored : ∀ p : CRosePacket, p.current = 6 → ∀ n,
    ((step cursor)^[n] (⟨K.program.before, [], p, 0⟩ : Point K.scan CRosePacket)).stored
      + K.copied ≤ 2041

theorem stored_le_of_not_copied {K : Constructor} (hK : K.copied = 0) {p : CRosePacket}
    (hp : p.current = 6) (n : ℕ) :
    ((step cursor)^[n] (⟨K.program.before, [], p, 0⟩ : Point K.scan CRosePacket)).stored
      + K.copied ≤ 2041 := by
  have hM : MAX_PACKET_SIZE = 2047 := rfl
  have hstored := stored_add_left_le (S := cursor)
    (⟨K.program.before, [], p, 0⟩ : Point K.scan CRosePacket) n
  have hleft : cursor.left p = MAX_PACKET_SIZE - 1 - p.current := rfl
  dsimp only at hstored
  omega

theorem sound_straight (C : PacketClass) : (straight C).Sound where
  ends := by
    refine ⟨fun vars _ => vars.elim, fun vars _ => vars.elim, fun p => ?_⟩
    have hbefore : (straight C).program.before = C.parse >>= fun fields => pure (.inr fields) :=
      rfl
    rw [hbefore, Source.eval_bind, Source.eval_pure]
    rfl
  stored _ hp n := stored_le_of_not_copied rfl hp n

/-! ### `SrvLoginReply` -/

/-- Fuel that covers the bytes left reads what more fuel reads. -/
theorem eval_readServers_succ {fuel : ℕ} {p : CRosePacket} (h : cursor.left p ≤ fuel)
    (pad : BitVec 8) :
    (cursor.eval (readServers (fuel + 1) pad) p).1 = (cursor.eval (readServers fuel pad) p).1 := by
  have hlen : (ahead p).length ≤ fuel := by
    rw [length_ahead]
    exact h
  have hdecode := readServers_fuel hlen pad
  rw [decode_ahead, decode_ahead, Option.some.injEq, Prod.mk.injEq] at hdecode
  rw [eval_eq_run, eval_eq_run]
  exact hdecode.1

/-- The entry of a marker that is not zero, and the loop behind it. -/
theorem eval_readServers_cons {fuel : ℕ} {p : CRosePacket} {pad : BitVec 8} (hpad : pad ≠ 0) :
    let name := cursor.eval (extract .string) p
    let id := cursor.eval (extract uint32_t) name.2
    let next := cursor.eval (extract char) id.2
    (cursor.eval (readServers (fuel + 1) pad) p).1
      = ⟨name.1, id.1, pad = 0x40⟩ :: (cursor.eval (readServers fuel next.1) next.2).1 := by
  intro name id next
  rw [readServers, readServer, if_neg hpad, Source.eval_bind, Source.eval_bind,
    Source.eval_bind, Source.eval_pure, Source.eval_bind]

/-- The bytes left, and one for a marker that is not zero. -/
def loginReplyVariant (vars : LoginReplyVars) (p : CRosePacket) : ℕ :=
  cursor.left p + if vars.pad = 0 then 0 else 1

/-- The object when the loop has ended. -/
def loginReplyValue (vars : LoginReplyVars) (p : CRosePacket) : Option LoginReply :=
  some { vars.reply with
    servers_ := vars.reply.servers_
      ++ (cursor.eval (readServers MAX_PACKET_SIZE vars.pad) p).1 }

/-- Reading the next marker takes a byte, or the marker is zero. -/
theorem loginReplyVariant_marker_le (reply : LoginReply) (p : CRosePacket) :
    loginReplyVariant ⟨reply, (cursor.eval (extract char) p).1⟩ (cursor.eval (extract char) p).2
      ≤ cursor.left p := by
  have hread : cursor.eval (extract char) p = cursor.read 1 p := rfl
  rw [loginReplyVariant, hread]
  by_cases hzero : (cursor.read 1 p).1 = 0
  · rw [if_pos hzero]
    exact cursor.left_read_le 1 p
  · rw [if_neg hzero, cursor.left_read_of_ne_zero hzero]

theorem loginReplyRound_again {vars vars' : LoginReplyVars} {p p' : CRosePacket}
    (h : cursor.eval (loginReplyRound vars) p = (.inl vars', p')) :
    loginReplyVariant vars' p' < loginReplyVariant vars p ∧
      loginReplyValue vars' p' = loginReplyValue vars p := by
  by_cases hpad : vars.pad = 0
  · rw [loginReplyRound, if_pos hpad, Source.eval_pure] at h
    exact absurd h (by simp)
  · rw [loginReplyRound, if_neg hpad, Source.eval_bind, Source.eval_bind, Source.eval_bind,
      Source.eval_pure] at h
    set name := cursor.eval (extract .string) p with hname
    set id := cursor.eval (extract uint32_t) name.2 with hid
    set pad := cursor.eval (extract char) id.2 with hnext
    rw [Prod.mk.injEq, Sum.inl.injEq] at h
    obtain ⟨rfl, rfl⟩ := h
    have hle := (cursor.left_eval_le (extract uint32_t) name.2).trans
      (cursor.left_eval_le (extract .string) p)
    constructor
    · have hvariant : loginReplyVariant vars p = cursor.left p + 1 := by
        rw [loginReplyVariant, if_neg hpad]
      rw [hvariant]
      exact Nat.lt_succ_of_le ((loginReplyVariant_marker_le _ id.2).trans hle)
    · have hfuel : cursor.left pad.2 ≤ 2046 := (Nat.sub_le _ _)
      have hservers : (cursor.eval (readServers MAX_PACKET_SIZE vars.pad) p).1
          = ⟨name.1, id.1, vars.pad = 0x40⟩
            :: (cursor.eval (readServers MAX_PACKET_SIZE pad.1) pad.2).1 := by
        have hsucc : MAX_PACKET_SIZE = 2046 + 1 := rfl
        rw [hsucc, eval_readServers_succ hfuel]
        exact eval_readServers_cons hpad
      rw [loginReplyValue, loginReplyValue, hservers, List.append_assoc,
        List.singleton_append]

theorem loginReplyRound_result {vars : LoginReplyVars} {p p' : CRosePacket}
    {a : Option LoginReply} (h : cursor.eval (loginReplyRound vars) p = (.inr a, p')) :
    loginReplyValue vars p = a := by
  by_cases hpad : vars.pad = 0
  · rw [loginReplyRound, if_pos hpad, Source.eval_pure, Prod.mk.injEq, Sum.inr.injEq] at h
    have hsucc : MAX_PACKET_SIZE = 2046 + 1 := rfl
    rw [loginReplyValue, hsucc, readServers, readServer, if_pos hpad, Source.eval_pure,
      List.append_nil]
    exact h.1
  · rw [loginReplyRound, if_neg hpad, Source.eval_bind, Source.eval_bind, Source.eval_bind,
      Source.eval_pure] at h
    exact absurd h (by simp)

theorem eval_loginReplyBefore (p : CRosePacket) :
    (cursor.eval loginReplyBefore p).1.elim
        (loginReplyValue · (cursor.eval loginReplyBefore p).2) id
      = (cursor.eval readLoginReply p).1 := by
  rw [loginReplyBefore, readLoginReply]
  simp only [Source.eval_bind]
  split
  · rfl
  · simp only [readServerList, loginReplyValue, Source.eval_bind, Source.eval_pure,
      Sum.elim_inl, List.nil_append]

theorem sound_loginReply : loginReply.Sound where
  ends := ⟨loginReplyValue, ends_round (P := loginReply.scan) loginReplyVariant loginReplyValue
    (fun _ _ _ _ => loginReplyRound_again) (fun _ _ _ _ => loginReplyRound_result),
    eval_loginReplyBefore⟩
  stored _ hp n := stored_le_of_not_copied rfl hp n

/-! ### The lists with a count -/

/-- The object when the loop has ended. -/
def channelListValue (vars : ChannelListVars) (p : CRosePacket) : Option ChannelListReply :=
  some { vars.reply with
    channels_ := vars.reply.channels_
      ++ (cursor.eval (Reader.many readChannel vars.nb.toNat) p).1.toList }

theorem channelListRound_again {vars vars' : ChannelListVars} {p p' : CRosePacket}
    (h : cursor.eval (channelListRound vars) p = (.inl vars', p')) :
    vars'.nb.toNat < vars.nb.toNat ∧ channelListValue vars' p' = channelListValue vars p := by
  by_cases hnb : vars.nb = 0
  · rw [channelListRound, if_pos hnb, Source.eval_pure] at h
    exact absurd h (by simp)
  · rw [channelListRound, if_neg hnb, Source.eval_bind, Source.eval_pure, Prod.mk.injEq,
      Sum.inl.injEq] at h
    obtain ⟨rfl, rfl⟩ := h
    have hcount : vars.nb.toNat = (vars.nb - 1).toNat + 1 := by
      have hpos : vars.nb.toNat ≠ 0 := fun h0 => hnb (BitVec.eq_of_toNat_eq h0)
      have hlt := vars.nb.isLt
      have hone : (1 : BitVec 8).toNat = 1 := rfl
      rw [BitVec.toNat_sub, hone]
      omega
    constructor
    · dsimp only
      omega
    · rw [channelListValue, channelListValue, hcount, Source.toList_eval_many,
        List.append_assoc, List.singleton_append]

theorem channelListRound_result {vars : ChannelListVars} {p p' : CRosePacket}
    {a : Option ChannelListReply}
    (h : cursor.eval (channelListRound vars) p = (.inr a, p')) :
    channelListValue vars p = a := by
  by_cases hnb : vars.nb = 0
  · rw [channelListRound, if_pos hnb, Source.eval_pure, Prod.mk.injEq, Sum.inr.injEq] at h
    have hnone : (cursor.eval (Reader.many readChannel vars.nb.toNat) p).1.toList = [] := by
      rw [hnb]
      rfl
    rw [channelListValue, hnone, List.append_nil]
    exact h.1
  · rw [channelListRound, if_neg hnb, Source.eval_bind, Source.eval_pure] at h
    exact absurd h (by simp)

theorem eval_channelListBefore (p : CRosePacket) :
    (cursor.eval channelListBefore p).1.elim
        (channelListValue · (cursor.eval channelListBefore p).2) id
      = (cursor.eval readChannelListReply p).1 := by
  rw [channelListBefore, readChannelListReply]
  simp only [Source.eval_bind]
  rfl

theorem sound_channelListReply : channelListReply.Sound where
  ends := ⟨channelListValue, ends_round (P := channelListReply.scan)
    (fun vars _ => vars.nb.toNat) channelListValue (fun _ _ _ _ => channelListRound_again)
    (fun _ _ _ _ => channelListRound_result), eval_channelListBefore⟩
  stored _ hp n := stored_le_of_not_copied rfl hp n

/-- The characters that are still to be read. -/
def characterListVariant (vars : CharacterListVars) : ℕ := vars.character_count_.toNat - vars.i

/-- The object when the loop has ended. -/
def characterListValue (vars : CharacterListVars) (p : CRosePacket) :
    Option CharacterListReply :=
  some
    { character_count_ := vars.character_count_
      character_list_ := vars.character_list_
        ++ (cursor.eval (Reader.many readCharacter (characterListVariant vars)) p).1.toList
      counted := by
        have hadded := vars.added
        have hle := vars.le
        have hlen : vars.character_list_.length + characterListVariant vars
            = vars.character_count_.toNat := by
          rw [characterListVariant]
          omega
        rw [List.length_append, List.Vector.toList_length, hlen, BitVec.ofNat_toNat,
          BitVec.setWidth_eq] }

theorem characterListRound_again {vars vars' : CharacterListVars} {p p' : CRosePacket}
    (h : cursor.eval (characterListRound vars) p = (.inl vars', p')) :
    characterListVariant vars' < characterListVariant vars ∧
      characterListValue vars' p' = characterListValue vars p := by
  by_cases hi : vars.i < vars.character_count_.toNat
  · rw [characterListRound, dif_pos hi, Source.eval_bind, Source.eval_pure, Prod.mk.injEq,
      Sum.inl.injEq] at h
    obtain ⟨rfl, rfl⟩ := h
    have hcount : characterListVariant vars
        = vars.character_count_.toNat - (vars.i + 1) + 1 := by
      rw [characterListVariant]
      omega
    constructor
    · rw [hcount]
      exact Nat.lt_succ_self _
    · simp only [characterListValue, Option.some.injEq, CharacterListReply.mk.injEq,
        true_and]
      rw [hcount, Source.toList_eval_many, List.append_assoc, List.singleton_append]
      rfl
  · rw [characterListRound, dif_neg hi, Source.eval_pure] at h
    exact absurd h (by simp)

theorem characterListRound_result {vars : CharacterListVars} {p p' : CRosePacket}
    {a : Option CharacterListReply}
    (h : cursor.eval (characterListRound vars) p = (.inr a, p')) :
    characterListValue vars p = a := by
  by_cases hi : vars.i < vars.character_count_.toNat
  · rw [characterListRound, dif_pos hi, Source.eval_bind, Source.eval_pure] at h
    exact absurd h (by simp)
  · rw [characterListRound, dif_neg hi, Source.eval_pure, Prod.mk.injEq, Sum.inr.injEq] at h
    have hnone : characterListVariant vars = 0 := Nat.sub_eq_zero_of_le (Nat.le_of_not_lt hi)
    rw [← h.1]
    simp only [characterListValue, Option.some.injEq, CharacterListReply.mk.injEq, true_and]
    rw [hnone]
    exact List.append_nil _

theorem eval_characterListBefore (p : CRosePacket) :
    (cursor.eval characterListBefore p).1.elim
        (characterListValue · (cursor.eval characterListBefore p).2) id
      = (cursor.eval readCharacterListReply p).1 := by
  rw [characterListBefore, readCharacterListReply]
  simp only [Source.eval_bind]
  rfl

theorem sound_characterListReply : characterListReply.Sound where
  ends := ⟨characterListValue, ends_round (P := characterListReply.scan)
    (fun vars _ => characterListVariant vars) characterListValue
    (fun _ _ _ _ => characterListRound_again) (fun _ _ _ _ => characterListRound_result),
    eval_characterListBefore⟩
  stored _ hp n := stored_le_of_not_copied rfl hp n

/-! ### The passwords -/

theorem objects_scalar {n : ℕ} (pos : 0 < n) : Objects (extract (.scalar n pos)) :=
  fun _ => trivial

theorem left_extract_scalar {n : ℕ} (pos : 0 < n) {p : CRosePacket}
    (hp : n ≤ cursor.left p) :
    cursor.left (cursor.eval (extract (.scalar n pos)) p).2 + n = cursor.left p := by
  have hM : MAX_PACKET_SIZE = 2047 := rfl
  have hleft : ∀ q : CRosePacket, cursor.left q = MAX_PACKET_SIZE - 1 - q.current := fun _ => rfl
  have hread : cursor.eval (extract (.scalar n pos)) p = readNext n p := rfl
  have hfits : ¬ MAX_PACKET_SIZE ≤ p.current + n := by
    rw [hleft] at hp
    omega
  rw [hread, readNext, if_neg hfits, hleft, hleft]
  rw [hleft] at hp
  dsimp only
  omega

/-- An array that fits takes all of its bytes. -/
theorem left_extract_chars {k : ℕ} {p : CRosePacket} (hp : k ≤ cursor.left p) :
    cursor.left (cursor.eval (extract (.array k char)) p).2 + k = cursor.left p := by
  induction k generalizing p with
  | zero => rfl
  | succ k ih =>
      have hfirst : cursor.left (cursor.eval (extract char) p).2 + 1 = cursor.left p :=
        left_extract_scalar (Nat.succ_pos 0) (by omega)
      have hrest := ih (p := (cursor.eval (extract char) p).2) (by omega)
      have hmany : (cursor.eval (extract (.array (k + 1) char)) p).2
          = (cursor.eval (extract (.array k char)) (cursor.eval (extract char) p).2).2 := by
        have harray : ∀ m, extract (.array m char) = Reader.many (extract char) m := fun _ => rfl
        rw [harray, harray, Reader.many, Source.eval_bind, Source.eval_bind, Source.eval_pure]
      rw [hmany]
      omega

/-- Characters that were read into an array are not left for a string. -/
theorem stored_le_of_chars {K : Constructor} {k : ℕ}
    (f : List.Vector char.Value k → Reader (K.scan.Vars ⊕ Option K.Class.Fields))
    {p : CRosePacket} (hp : k ≤ cursor.left p) (n : ℕ) :
    ((step cursor)^[n] (⟨extract (.array k char) >>= f, [], p, 0⟩ :
      Point K.scan CRosePacket)).stored ≤ cursor.left p - k := by
  have hchars : Objects (extract (.array k char)) := (objects_scalar (Nat.succ_pos 0)).many k
  apply hchars.stored_le (Nat.zero_le _)
  intro m
  have htaken := left_extract_chars hp
  have hstored := stored_add_left_le (S := cursor)
    (⟨f (cursor.eval (extract (.array k char)) p).1, [],
      (cursor.eval (extract (.array k char)) p).2, 0⟩ : Point K.scan CRosePacket) m
  dsimp only at hstored
  omega

theorem sound_loginReq : loginReq.Sound where
  ends := (sound_straight CliLoginReq).ends
  stored p hp n := by
    have hbefore : loginReq.program.before = extract (.array 32 char) >>= fun pass =>
        (extract .string >>= fun username_ => pure (some ⟨pass.toList, username_⟩))
          >>= fun fields => pure (.inr fields) := bind_assoc _ _ _
    have hleft : cursor.left p = 2040 := congrArg (2046 - ·) hp
    have hcopied : loginReq.copied = 32 := rfl
    have hchars : 32 ≤ cursor.left p := by omega
    rw [hbefore, hcopied]
    apply Nat.add_le_of_le_sub (show 32 ≤ 2041 by decide)
    exact (stored_le_of_chars _ hchars n).trans (by omega)

theorem sound_joinServerReq : joinServerReq.Sound where
  ends := (sound_straight CliJoinServerReq).ends
  stored p hp n := by
    have hbefore : joinServerReq.program.before = extract uint32_t >>= fun sessionId_ =>
        extract (.array 32 char) >>= fun pass =>
          pure (some ⟨sessionId_, pass.toList⟩) >>= fun fields => pure (.inr fields) :=
      (bind_assoc _ _ _).trans (congrArg _ (funext fun sessionId_ => bind_assoc _ _ _))
    have hleft : cursor.left p = 2040 := congrArg (2046 - ·) hp
    have hcopied : joinServerReq.copied = 32 := rfl
    have hid : cursor.left (cursor.eval (extract uint32_t) p).2 + 4 = cursor.left p :=
      left_extract_scalar (Nat.succ_pos 3) (by omega)
    have hchars : 32 ≤ cursor.left (cursor.eval (extract uint32_t) p).2 := by omega
    rw [hbefore, hcopied]
    apply Nat.add_le_of_le_sub (show 32 ≤ 2041 by decide)
    apply Objects.stored_le (objects_scalar (Nat.succ_pos 3)) (Nat.zero_le _)
    intro m
    exact (stored_le_of_chars _ hchars m).trans (by omega)

/-! ## All constructors -/

theorem sound_of_mem {K : Constructor} (hK : K ∈ constructors) : K.Sound := by
  rcases List.mem_append.mp hK with hown | htext
  · simp only [List.mem_cons, List.not_mem_nil, or_false] at hown
    rcases hown with rfl | rfl | rfl | rfl | rfl
    · exact sound_loginReply
    · exact sound_channelListReply
    · exact sound_characterListReply
    · exact sound_loginReq
    · exact sound_joinServerReq
  · obtain ⟨C, -, rfl⟩ := List.mem_map.mp htext
    exact sound_straight C

namespace Constructor

/-- The header of an object that holds `content`. -/
theorem eval_header (K : Constructor) (content : ℕ → Byte) :
    cursor.eval K.header ⟨content, 0, 0⟩
      = if wordLE content 2 2 ≠ K.Class.type then (.inr none, ⟨content, 6, 0⟩)
        else cursor.eval K.program.before ⟨content, 6, 0⟩ := by
  rw [header, Source.eval_bind, Source.eval_bind, Source.eval_bind]
  have htype : (cursor.eval (extract uint16_t)
      (cursor.eval (extract uint16_t) ⟨content, 0, 0⟩).2).1 = wordLE content 2 2 := rfl
  rw [htype]
  split
  · rfl
  · rfl

/-- The size field does not matter to what is read. -/
theorem run_size {α : Type} (P : Reader α) (content : ℕ → Byte) (current : ℕ)
    (size size' : BitVec 16) :
    (run P ⟨content, current, size⟩).1 = (run P ⟨content, current, size'⟩).1 := by
  have hsame : ahead ⟨content, current, size⟩ = ahead ⟨content, current, size'⟩ := rfl
  have hdecode := decode_ahead ⟨content, current, size⟩ P
  rw [hsame, decode_ahead, Option.some.injEq, Prod.mk.injEq] at hdecode
  exact hdecode.1.symm

theorem construct_self (C : PacketClass) (content : ℕ → Byte) :
    (C.construct content content).map Object.fields
      = if wordLE content 2 2 ≠ C.type then none else (run C.parse ⟨content, 6, 0⟩).1 := by
  have hcontent : (fun i => if i < declaredSize content then content i else content i)
      = content := funext fun i => ite_self (content i)
  have hofBuffer : ofBuffer content content
      = ⟨⟨content, 6, wordLE content 2 0⟩, wordLE content 2 2, wordLE content 2 4⟩ := by
    rw [ofBuffer, hcontent]
    rfl
  rw [PacketClass.construct, hofBuffer]
  dsimp only
  split
  · rfl
  · rw [Option.map_map, run_size C.parse content 6 _ 0]
    exact Option.map_id_apply

/-- The constructor ends as `construct` has it. -/
theorem Sound.ends_scan {K : Constructor} (h : K.Sound) (content : ℕ → Byte) :
    Ends cursor (P := K.scan) K.header [] ⟨content, 0, 0⟩
      ((K.Class.construct content content).map Object.fields) := by
  obtain ⟨value, hround, hparse⟩ := h.ends
  have hends : Ends cursor (P := K.scan) K.header [] ⟨content, 0, 0⟩
      ((cursor.eval K.header ⟨content, 0, 0⟩).1.elim
        (value · (cursor.eval K.header ⟨content, 0, 0⟩).2) id) :=
    ends_before (P := K.scan) hround ⟨content, 0, 0⟩
  rw [eval_header] at hends
  rw [construct_self]
  by_cases htype : wordLE content 2 2 ≠ K.Class.type
  · rw [if_pos htype] at hends ⊢
    exact hends
  · rw [if_neg htype] at hends ⊢
    rw [← eval_eq_run, ← hparse ⟨content, 6, 0⟩]
    exact hends

/-- Behind the header the constructor has thrown, or goes on. -/
theorem Sound.stored_le_header {K : Constructor} (h : K.Sound) {p : CRosePacket}
    (hp : p.current = 6) {rest : Reader (K.scan.Vars ⊕ Option K.Class.Fields)}
    (hrest : rest = .done (.inr none) ∨ rest = K.program.before) (n : ℕ) :
    ((step cursor)^[n] (⟨rest, [], p, 0⟩ : Point K.scan CRosePacket)).stored + K.copied
      ≤ 2041 := by
  rcases hrest with rfl | rfl
  · have hfixed : step cursor (⟨.done (.inr none), [], p, 0⟩ : Point K.scan CRosePacket)
        = ⟨.done (.inr none), [], p, 0⟩ := rfl
    rw [Function.iterate_fixed hfixed]
    exact Nat.le_trans (Nat.add_le_add_right (Nat.zero_le _) _) (h.stored p hp 0)
  · exact h.stored p hp n

/-- The header stores nothing. -/
theorem Sound.stored_le {K : Constructor} (h : K.Sound) (content : ℕ → Byte) (n : ℕ) :
    (K.after content n).stored + K.copied ≤ 2041 := by
  have hword : Objects (extract uint16_t) := objects_scalar (Nat.succ_pos 1)
  have hcopied : K.copied ≤ 2041 :=
    (Nat.le_add_left _ _).trans (h.stored ⟨content, 6, 0⟩ rfl 0)
  apply Nat.add_le_of_le_sub hcopied
  refine hword.stored_le (Nat.zero_le _) (hword.stored_le (Nat.zero_le _)
    (hword.stored_le (Nat.zero_le _) fun m => ?_)) n
  exact Nat.le_sub_of_add_le (h.stored_le_header rfl (ite_eq_or_eq _ _ _) m)

end Constructor

/-- A login reply that declares servers without end: no byte behind the result is zero. -/
def endlessServers (i : ℕ) : Byte :=
  if i = 2 then 0x08 else if i = 3 then 0x07 else if i = 6 then 0 else 0x40

end OsIrose.Packet

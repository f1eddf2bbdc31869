/-
Packets of an honest client, through `recv_data` and `CRoseSocket::OnReceived`.

The client encodes each packet with `encodeClientPacket` and sends it whole; the reads
may cut the stream anywhere. `CRoseSocket::OnReceived` decodes the header in place when
its six bytes are there, and the body when the rest is, so between the two the buffer
holds a decoded header in front of keyed bytes: that is `headerReady`, and with it
`OnReceived` is a `Framing` of the client's packets.

What arrives is the packet up to bytes 4 and 5, where the codec leaves the end of the
header and the checksum.
-/
import OsIrose.Direction
import OsIrose.Socket

set_option autoImplicit false

namespace OsIrose.SocketStream

open BitLayout ByteMem Crypt Network Runs Delivery

/-- A packet as a client builds it: the size field is its length, and size and command
fit the header. -/
structure ClientPacket where
  bytes : List Byte
  size_eq : packetSize bytes = bytes.length
  six_le : 6 ≤ bytes.length
  le_max : bytes.length ≤ 2046
  command_lt : (commandField (fun i => bytes.getD i 0)).toNat < 0x800

namespace ClientPacket

variable (p : ClientPacket) (codec : PacketCodec)

/-- The packet in memory, before it is encoded. -/
def mem : Mem := ⟨fun i => p.bytes.getD i 0, []⟩

/-- The `Head` of the encoded packet. -/
def head : HeadBits := packetHead 0 p.mem

/-- The checksum of the encoded packet. -/
def checksum : Byte := bodyChecksum p.mem.bytes p.bytes.length (headChecksum p.head)

/-- What the client sends: the buffer after `encodeClientPacket`. -/
def encoded : List Byte :=
  (List.range p.bytes.length).map ((encodeClientPacket codec).run p.mem).2.bytes

/-- What the server gets: the packet with the codec's data in bytes 4 and 5. -/
def received : List Byte := (p.bytes.set 4 (headByte p.head 4)).set 5 p.checksum

theorem isPacket : Socket.IsPacket p.bytes := ⟨p.size_eq, p.six_le, p.le_max, p.command_lt⟩

end ClientPacket

/-! ## One packet -/

/-- The first six bytes hold the decoded header of `p` and its checksum. -/
def headerReady (p : ClientPacket) (b : ℕ → Byte) : Prop :=
  wordLE b 5 0 = p.head ∧ b 5 = p.checksum

variable (codec : PacketCodec) (handlePacket : ℕ → List Byte → Bool)

theorem receiveBody_eq (r : Receiver) :
    Socket.receiveBody codec handlePacket r =
      Socket.Direction.client.receiveBody codec handlePacket r := by
  unfold Socket.receiveBody Socket.Direction.receiveBody decodeClientBody Socket.Direction.client
  rfl

theorem decodeHeaderOf_eq (r : Receiver) :
    Socket.decodeHeaderOf codec r = Socket.Direction.client.decodeHeaderOf codec r := by
  have hdecode : decodeClientHeader = decodeHeader Socket.Direction.client.layout := rfl
  unfold Socket.decodeHeaderOf Socket.Direction.decodeHeaderOf
  rw [hdecode]

/-- `CRoseSocket::OnReceived` decodes what `encodeClientPacket` encodes. -/
theorem OnReceived_eq :
    Socket.OnReceived codec handlePacket =
      Socket.Direction.client.OnReceived codec handlePacket := by
  funext r
  unfold Socket.OnReceived Socket.Direction.OnReceived
  simp only [decodeHeaderOf_eq, receiveBody_eq]

/-- **`CRoseSocket::OnReceived` cuts the packets of an honest client.** -/
theorem framing_OnReceived :
    Framing handlePacket (Socket.OnReceived codec handlePacket) (ClientPacket.encoded · codec)
      ClientPacket.received (fun _ => True) headerReady := by
  have hencoded : (ClientPacket.encoded · codec) =
      fun p => Socket.Direction.client.encoded codec p.bytes := by
    have hencode : encodeClientPacket =
        encodePacket Socket.Direction.client.layout Socket.Direction.client.encryptValue := rfl
    have hmem : ∀ p : ClientPacket, p.mem = Socket.packetMem p.bytes := fun _ => rfl
    funext p
    unfold ClientPacket.encoded Socket.Direction.encoded
    rw [hencode, hmem]
  rw [OnReceived_eq, hencoded]
  exact Socket.Direction.client.framing_OnReceived codec handlePacket ClientPacket.isPacket

/-! ## The stream -/

/-- **Client packets arrive in order**: on every run fed from the packets, encoded and
sent back to back, exactly the packets up to the first one that `HandlePacket` rejects
are queued, and the cursor is at the start again after each of them. -/
theorem inOrder_clientPackets (ps : List ClientPacket) (buffer : ℕ → Byte)
    {es : List Completion} {r : Receiver}
    (h : Run (Step (Socket.OnReceived codec handlePacket)) (accepted buffer) es r)
    (hfed : fed es <+: wires (ClientPacket.encoded · codec) ps) :
    InOrder handlePacket (ClientPacket.encoded · codec) ClientPacket.received ps es r :=
  inOrder_of_run (framing_OnReceived codec handlePacket) (fun _ _ => trivial) buffer h hfed

/-! ## The base class handler -/

/-- `ePacketType::PAKCS_ALIVE`. -/
def PAKCS_ALIVE : BitVec 16 := 0x700

/-- `ePacketType::PAKCS_ACCEPT_REQ`. -/
def PAKCS_ACCEPT_REQ : BitVec 16 := 0x703

/-- `ePacketType::PAKCS_LOGOUT_REQ`. -/
def PAKCS_LOGOUT_REQ : BitVec 16 := 0x707

/-- `ePacketType::PAKCS_SCREEN_SHOT_TIME_REQ`. -/
def PAKCS_SCREEN_SHOT_TIME_REQ : BitVec 16 := 0x7eb

/-- What `CRoseSocket::HandlePacket` answers; a packet of any other type makes it close
the connection. -/
def HandlePacket (_ : ℕ) (p : List Byte) : Bool :=
  let type := commandField (fun i => p.getD i 0)
  type = PAKCS_ALIVE || type = PAKCS_ACCEPT_REQ || type = PAKCS_SCREEN_SHOT_TIME_REQ

/-- A logout request, six bytes long. -/
def logoutReq : ClientPacket where
  bytes := [0x06, 0x00, 0x07, 0x07, 0x00, 0x00]
  size_eq := by decide
  six_le := by decide
  le_max := by decide
  command_lt := by decide

/-- One logout request, read at once. -/
theorem inOrder_clientPackets_sample :
    let codec : PacketCodec := ⟨fun i j => BitVec.ofNat 32 (i * 0x800 + j)⟩
    let c : Completion := ⟨logoutReq.encoded codec, .success⟩
    let r := onRead (Socket.OnReceived codec HandlePacket) c (accepted fun _ => 0)
    InOrder HandlePacket (ClientPacket.encoded · codec) ClientPacket.received [logoutReq] [c] r :=
  inOrder_clientPackets _ _ _ _ (Run.snoc Run.nil ⟨⟨rfl, by decide +kernel⟩, rfl⟩)
    List.prefix_rfl

/-- The second of two logout requests is never queued. -/
theorem not_all_queued_sample :
    ¬ ∀ (codec : PacketCodec) (ps : List ClientPacket) (buffer : ℕ → Byte)
        (es : List Completion) (r : Receiver),
        Run (Step (Socket.OnReceived codec HandlePacket)) (accepted buffer) es r →
        fed es <+: wires (ClientPacket.encoded · codec) ps →
        Finished (ClientPacket.encoded · codec) ps es r →
        r.pushes.map Prod.snd = ps.map ClientPacket.received := by
  intro h
  let codec : PacketCodec := ⟨fun _ _ => 0⟩
  let c : Completion := ⟨logoutReq.encoded codec, .success⟩
  have hstep : Step (Socket.OnReceived codec HandlePacket) (accepted fun _ => 0) c
      (onRead (Socket.OnReceived codec HandlePacket) c (accepted fun _ => 0)) :=
    ⟨⟨rfl, by decide +kernel⟩, rfl⟩
  have hrun := Run.snoc Run.nil hstep
  have hfed : fed [c] <+: wires (ClientPacket.encoded · codec) [logoutReq, logoutReq] :=
    ⟨logoutReq.encoded codec, by simp [fed, wires, c]⟩
  have hclosed : (onRead (Socket.OnReceived codec HandlePacket) c
      (accepted fun _ => 0)).reading = false := by decide +kernel
  have hnone : ∀ e ∈ [c], ¬ e.Fatal := by
    intro e he
    rw [List.mem_singleton.mp he]
    rintro (hp | hf)
    · cases hp
    · cases hf
  have hall := h codec _ _ _ _ hrun hfed (Or.inr ⟨hclosed, hnone⟩)
  have hqueued := (inOrder_of_run (framing_OnReceived codec HandlePacket)
    (fun _ _ => trivial) _ hrun hfed).queued
  have hfirst : processed HandlePacket ClientPacket.received [logoutReq, logoutReq]
      = [logoutReq] := by
    have hreject : accepts HandlePacket ClientPacket.received 0 logoutReq = false := by
      decide +kernel
    unfold processed throughFirstReject
    rw [hreject]
    rfl
  rw [hall, hfirst] at hqueued
  have hlen := hqueued.length_le
  simp only [List.map_cons, List.map_nil, List.length_cons, List.length_nil] at hlen
  omega

end OsIrose.SocketStream

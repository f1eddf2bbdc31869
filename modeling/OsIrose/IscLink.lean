/-
The link from the char server to the login server, from the packet objects at one end to those
at the other: `core/src/cnetwork_asio.cpp`, `rosecommon/src/croseisc.cpp`,
`rosecommon/src/packets/isc_*.cpp` and `login/src/cloginisc.cpp`.

A packet object is packed into bytes (`PacketStream`), its buffer goes through `send_queue_`
while any number of threads call `send_data` and the handlers of the writes run (`SendQueue`),
the kernel takes the bytes of a write as it can, the reads of the login server cut the stream as
they come (`Network`), `CRoseISC::OnReceived` cuts it into packets again (`Isc`), and
`CLoginISC::HandlePacket` makes an object of each (`PacketClasses`). Here the parts are one
system, whose steps interleave in any order (`Step`).

`in_order` says that the objects handled are the first of those sent, and all of them once the
link has come to rest, in every run in which no `ProcessSend` acts on what is out of date and
every packet is plain: shorter than 256 bytes, without a zero in a name. `refines` says that such
a link does what the list of the channels was modelled over: a queue of messages and a wire.
-/
import OsIrose.Directory
import OsIrose.Isc
import OsIrose.PacketReplies
import OsIrose.SendQueue

set_option autoImplicit false

namespace OsIrose.IscLink

open ByteMem (Byte wordLE)
open Channels (IscServerRegister ServerType)
open ChannelRegistry (CountedISC IscShutdown Message)
open Delivery (wires)
open Function (update)
open Network (Completion Receiver accepted fed)
open Packet (PacketClass packetBytes received wire uint8_t int32_t)
open Runs
open Wire (Field encodeAll)

/-! ## Packet objects -/

/-- The bytes of a `std::string`. -/
def chars (s : String) : List Byte := s.toUTF8.data.toList.map UInt8.toBitVec

/-- The string of these bytes. -/
def text (bs : List Byte) : String :=
  (String.fromUTF8? ⟨(bs.map UInt8.ofBitVec).toArray⟩).getD ""

theorem text_chars (s : String) : text (chars s) = s := by
  have hbytes : (⟨((chars s).map UInt8.ofBitVec).toArray⟩ : ByteArray) = s.toUTF8 := by
    have hid : UInt8.ofBitVec ∘ UInt8.toBitVec = id := rfl
    rw [chars, List.map_map, hid, List.map_id, Array.toArray_toList]
  have hvalid : s.toUTF8.IsValidUTF8 := s.isValidUTF8
  rw [text, hbytes, String.fromUTF8?, dif_pos hvalid]
  rfl

/-- The `uint8_t` of a `ServerType`. -/
def code : ServerType → BitVec 8
  | .LOGIN => 0
  | .CHAR => 1
  | .NODE => 2
  | .MAP_MASTER => 3
  | .MAP_WORKER => 4

/-- The login server tells only `CHAR` and `MAP_MASTER` from the rest. -/
def serverType (code : BitVec 8) : ServerType :=
  if code = 0 then .LOGIN
  else if code = 1 then .CHAR
  else if code = 3 then .MAP_MASTER
  else if code = 4 then .MAP_WORKER
  else .NODE

@[simp] theorem serverType_code (type : ServerType) : serverType (code type) = type := by
  cases type <;> decide

/-- What the char server sends. -/
inductive Sent
  /-- The `ISC_ALIVE` of `process_thread_`. -/
  | alive
  | message (m : Message)

namespace Sent

def type : Sent → BitVec 16
  | alive => 0x301
  | message (.register _) => 0x303
  | message (.shutdown _) => 0x305

/-- `pack()` -/
def pack : Sent → List Field
  | alive => []
  | message (.register P) =>
      [⟨uint8_t, code P.serverType⟩, ⟨.string, chars P.name⟩, ⟨.string, chars P.addr⟩,
        ⟨int32_t, P.port⟩, ⟨int32_t, P.right⟩, ⟨int32_t, P.id⟩]
  | message (.shutdown P) => [⟨uint8_t, code P.serverType⟩, ⟨int32_t, P.id⟩]

/-- The packet is short, and its strings end where they are to end. -/
structure Plain (o : Sent) : Prop where
  short : 6 + (encodeAll o.pack).length < 256
  nulFree : ∀ f ∈ o.pack, f.NulFree

/-- The bytes of a packet that fits. -/
def bytes (o : Sent) : List Byte := packetBytes o.type 0 (encodeAll o.pack)

end Sent

/-! ## `CLoginISC::HandlePacket` -/

/-- The type of a packet that was queued. -/
def packetType (p : List Byte) : BitVec 16 := wordLE (fun i => p.getD i 0) 2 2

/-- The answer: the packets between servers are accepted. -/
def HandlePacket (_ : ℕ) (p : List Byte) : Bool :=
  0x301 ≤ packetType p ∧ packetType p ≤ 0x305

/-- `IscServerRegister(buffer)`, from the fields that it reads. -/
def registerOf : List Field → Option IscServerRegister
  | [⟨.scalar 1 _, type⟩, ⟨.string, name⟩, ⟨.string, addr⟩, ⟨.scalar 4 _, port⟩,
      ⟨.scalar 4 _, right⟩, ⟨.scalar 4 _, id⟩] =>
      some ⟨serverType type, text name, text addr, port, right, id⟩
  | _ => none

/-- `IscShutdown(buffer)` -/
def shutdownOf : List Field → Option IscShutdown
  | [⟨.scalar 1 _, type⟩, ⟨.scalar 4 _, id⟩] => some ⟨serverType type, id⟩
  | _ => none

/-- The object that `HandlePacket` makes of a packet, in `memory`, with `junk` behind the
packet. `ISC_SERVER_AUTH` and `ISC_TRANSFER` make none. -/
def fetch (memory junk : ℕ → Byte) (p : List Byte) : Option Sent :=
  if packetType p = 0x301 then some .alive
  else if packetType p = 0x303 then
    ((received Packet.IscServerRegister memory junk p).bind registerOf).map
      fun P => .message (.register P)
  else if packetType p = 0x305 then
    ((received Packet.IscShutdown memory junk p).bind shutdownOf).map
      fun P => .message (.shutdown P)
  else none

/-- What handling the object does to the list of channels. -/
def handle (isc : CountedISC) : Option Sent → CountedISC
  | some (.message m) => isc.handle m
  | _ => isc

/-! ## The link -/

/-- What the objects are built in: anything may lie there before. -/
structure Memory where
  /-- `buffer_` of the `n`th object sent. -/
  packed : ℕ → ℕ → Byte
  /-- `buffer_` of the `n`th object handled. -/
  built : ℕ → ℕ → Byte
  /-- Behind the `n`th packet on `recv_queue_`. -/
  behind : ℕ → ℕ → Byte

structure Link where
  sender : SendQueue.State := {}
  /-- The objects sent, by the number of their buffer. -/
  sent : List Sent := []
  /-- How many bytes of a buffer the kernel has taken. -/
  taken : ℕ → ℕ := fun _ => 0
  /-- Bytes that were taken and not read. -/
  stream : List Byte := []
  receiver : Receiver
  /-- The reads so far. -/
  reads : List Completion := []

namespace Link

variable (memory : Memory) (l : Link)

/-- `getPacked()` of the object with that number. -/
def bytes (n : ℕ) : List Byte :=
  match l.sent[n]? with
  | some o => (Packet.getPacked (Packet.packFields o.pack)
      (Packet.ofType (memory.packed n) o.type 0)).1
  | none => []

/-- The objects that `ProcessSend` has handed to `async_write`. -/
def written : List Sent := l.sent.take l.sender.written.length

/-- The packets that `HandlePacket` was called with. -/
def handledPackets : List (List Byte) := (l.receiver.pushes.map Prod.snd).take l.receiver.handled

/-- The objects it made of them. -/
def handled : List (Option Sent) :=
  l.handledPackets.zipIdx.map fun (p, n) => fetch (memory.built n) (memory.behind n) p

/-- The connection at the login server, which was `isc`. -/
def login (isc : CountedISC) : CountedISC := (l.handled memory).foldl handle isc

/-- Nothing is on its way. -/
structure Drained : Prop where
  idle : ∀ p, l.sender.processSend p = .idle
  inFlight : l.sender.inFlight = []
  handlers : l.sender.handlers = []
  stream : l.stream = []

end Link

inductive Event
  /-- A thread calls `send` and queues the packet. -/
  | queue (n : ℕ) (o : Sent)
  | sample (p : SendQueue.Process)
  | send (p : SendQueue.Process)
  /-- The kernel takes bytes of a write. -/
  | transmit (buffer count : ℕ)
  | complete (buffer : ℕ)
  | release (buffer : ℕ)
  /-- The outstanding read of the login server completes. -/
  | read (c : Completion)

/-- The event can happen. -/
def Enabled (memory : Memory) (l : Link) : Event → Prop
  | .queue n _ => l.sender.processSend (.caller n) = .idle
  | .transmit buffer count =>
      buffer ∈ l.sender.inFlight ∧ l.taken buffer + count ≤ (l.bytes memory buffer).length
  -- `async_write` completes when all is written
  | .complete buffer => l.taken buffer = (l.bytes memory buffer).length
  | .read c => c.Valid l.receiver ∧ c.bytes <+: l.stream
  | _ => True

/-- The link after the event. -/
def next (memory : Memory) (l : Link) : Event → Link
  | .queue n o => { l with sender := SendQueue.next l.sender (.queue n), sent := l.sent ++ [o] }
  | .sample p => { l with sender := SendQueue.next l.sender (.sample p) }
  | .send p => { l with sender := SendQueue.next l.sender (.send p) }
  | .transmit buffer count =>
      { l with
        taken := update l.taken buffer (l.taken buffer + count)
        stream := l.stream ++ ((l.bytes memory buffer).drop (l.taken buffer)).take count }
  | .complete buffer => { l with sender := SendQueue.next l.sender (.complete buffer) }
  | .release buffer => { l with sender := SendQueue.next l.sender (.release buffer) }
  | .read c =>
      { l with
        stream := l.stream.drop c.bytes.length
        receiver := Network.onRead (Isc.OnReceived HandlePacket) c l.receiver
        reads := l.reads ++ [c] }

/-- One step of the link. -/
def Step (memory : Memory) (l : Link) (e : Event) (l' : Link) : Prop :=
  Enabled memory l e ∧ next memory l e = l'

/-- A link that has just been made. -/
def start (buffer : ℕ → Byte) : Link where
  receiver := accepted buffer

/-- The packets are plain, and `ProcessSend` acts on what is so. -/
def clean (l : Link) : Event → Prop
  | .queue _ o => o.Plain
  | .send p => SendQueue.upToDate l.sender (.send p)
  | _ => True

/-! ## From an object to its bytes and back -/

section Objects

variable {o : Sent}

theorem Sent.Plain.fits (h : o.Plain) : (encodeAll o.pack).length ≤ 2040 := by
  have hshort := h.short
  omega

theorem Sent.length_bytes (o : Sent) : o.bytes.length = 6 + (encodeAll o.pack).length :=
  Packet.length_packetBytes o.type 0 (encodeAll o.pack)

/-- A plain object is packed whole, in whatever it was built. -/
theorem getPacked_of_plain (h : o.Plain) (buffer : ℕ → Byte) :
    (Packet.getPacked (Packet.packFields o.pack) (Packet.ofType buffer o.type 0)).1 = o.bytes :=
  Packet.getPacked_eq_packetBytes h.fits buffer o.type 0

theorem packetType_bytes (o : Sent) : packetType o.bytes = o.type := by
  have hword := (Packet.wordLE_packetBytes o.type 0 (fun _ => 0) (encodeAll o.pack)).2.1
  rw [packetType, ← hword]
  refine ByteMem.wordLE_congr 2 2 fun k hk => ?_
  exact (Packet.buffer_packetBytes o.type 0 _ (by omega)).symm

theorem handlePacket_bytes (i : ℕ) (o : Sent) : HandlePacket i o.bytes = true := by
  rw [HandlePacket, packetType_bytes]
  cases o with
  | alive => rfl
  | message m => cases m <;> rfl

theorem registerOf_pack (P : IscServerRegister) :
    registerOf (Sent.message (.register P)).pack = some P := by
  show some (IscServerRegister.mk (serverType (code P.serverType)) (text (chars P.name))
    (text (chars P.addr)) P.port P.right P.id) = some P
  rw [serverType_code, text_chars, text_chars]

theorem shutdownOf_pack (P : IscShutdown) :
    shutdownOf (Sent.message (.shutdown P)).pack = some P := by
  show some (IscShutdown.mk (serverType (code P.serverType)) P.id) = some P
  rw [serverType_code]

theorem received_bytes (h : o.Plain) (memory junk : ℕ → Byte) :
    received (Packet.ofFields o.type (o.pack.map Field.type)) memory junk o.bytes =
      some o.pack := by
  rw [received, Sent.bytes, Packet.construct_ofFields memory junk 0 o.type h.nulFree h.fits]
  rfl

theorem fetch_register {P : IscServerRegister} (h : (Sent.message (.register P)).Plain)
    (memory junk : ℕ → Byte) :
    fetch memory junk (Sent.message (.register P)).bytes = some (.message (.register P)) := by
  have htype : packetType (Sent.message (.register P)).bytes = 0x303 := packetType_bytes _
  have hfields : received Packet.IscServerRegister memory junk
      (Sent.message (.register P)).bytes = some (Sent.message (.register P)).pack :=
    received_bytes h memory junk
  have hobject : (received Packet.IscServerRegister memory junk
      (Sent.message (.register P)).bytes).bind registerOf = some P := by
    rw [hfields]
    exact registerOf_pack P
  rw [fetch, htype, if_neg (by decide), if_pos rfl, hobject, Option.map_some]

theorem fetch_shutdown {P : IscShutdown} (h : (Sent.message (.shutdown P)).Plain)
    (memory junk : ℕ → Byte) :
    fetch memory junk (Sent.message (.shutdown P)).bytes = some (.message (.shutdown P)) := by
  have htype : packetType (Sent.message (.shutdown P)).bytes = 0x305 := packetType_bytes _
  have hfields : received Packet.IscShutdown memory junk
      (Sent.message (.shutdown P)).bytes = some (Sent.message (.shutdown P)).pack :=
    received_bytes h memory junk
  have hobject : (received Packet.IscShutdown memory junk
      (Sent.message (.shutdown P)).bytes).bind shutdownOf = some P := by
    rw [hfields]
    exact shutdownOf_pack P
  rw [fetch, htype, if_neg (by decide), if_neg (by decide), if_pos rfl, hobject, Option.map_some]

/-- **An object comes back as it was sent.** -/
theorem fetch_bytes (h : o.Plain) (memory junk : ℕ → Byte) :
    fetch memory junk o.bytes = some o := by
  cases o with
  | alive =>
      have htype : packetType Sent.alive.bytes = 0x301 := packetType_bytes _
      rw [fetch, htype, if_pos rfl]
  | message m =>
      cases m with
      | register P => exact fetch_register h memory junk
      | shutdown P => exact fetch_shutdown h memory junk

theorem Sent.Plain.packetSize_bytes (h : o.Plain) :
    Network.packetSize o.bytes = o.bytes.length := by
  have hword := (Packet.wordLE_packetBytes o.type 0 (fun _ => 0) (encodeAll o.pack)).1
  have hshort := h.short
  have hsize : Crypt.sizeField (fun i => o.bytes.getD i 0) =
      BitVec.ofNat 16 (6 + (encodeAll o.pack).length) := by
    rw [← hword]
    refine ByteMem.wordLE_congr 2 0 fun k hk => ?_
    exact (Packet.buffer_packetBytes o.type 0 _ (by omega)).symm
  rw [Network.packetSize, hsize, o.length_bytes, BitVec.toNat_ofNat]
  omega

theorem Sent.six_le_length (o : Sent) : 6 ≤ o.bytes.length := by
  rw [o.length_bytes]
  omega

theorem Sent.Plain.length_le (h : o.Plain) : o.bytes.length ≤ 2046 := by
  have hfits := h.fits
  rw [o.length_bytes]
  omega

/-- A plain object, as a packet between servers. -/
def Sent.Plain.packet (h : o.Plain) : Isc.IscPacket where
  bytes := o.bytes
  size_eq := h.packetSize_bytes
  six_le := o.six_le_length
  le_max := h.length_le

/-- The plain objects are cut as they were sent. -/
theorem framing_plain : Delivery.Framing HandlePacket (Isc.OnReceived HandlePacket) Sent.bytes
    Sent.bytes Sent.Plain (fun o b => ∀ j, j < 6 → b j = o.bytes.getD j 0) where
  six_le o h := h.packet.six_le
  le_max o h := h.packet.le_max.trans (by decide)
  ready_congr := by
    intro o b c hbc hready j hj
    rw [hbc j hj, hready j hj]
  header o r h := (Isc.framing_OnReceived HandlePacket).header h.packet r (o.length_bytes ▸ h.short)
  short o r h := (Isc.framing_OnReceived HandlePacket).short h.packet r (o.length_bytes ▸ h.short)
  body o r h := (Isc.framing_OnReceived HandlePacket).body h.packet r (o.length_bytes ▸ h.short)

/-- Every object is accepted. -/
theorem processed_eq (sent : List Sent) :
    Delivery.processed HandlePacket Sent.bytes sent = sent :=
  Delivery.throughFirstReject_eq_self (fun i o => handlePacket_bytes i o) 0 sent

end Objects

/-! ## The sending end -/

/-- The send queue while no call of `ProcessSend` acts on what is out of date. -/
structure Sends (s : SendQueue.State) : Prop where
  inv : SendQueue.Inv s
  tidy : SendQueue.Tidy s
  written : s.written = s.completed ++ s.inFlight

section Sends

variable {s : SendQueue.State}

theorem Sends.start : Sends SendQueue.start :=
  ⟨SendQueue.inv_start, SendQueue.tidy_start, rfl⟩

/-- The buffers written are the first ones, each one once. -/
theorem Sends.nodup (h : Sends s) : s.written.Nodup := by
  have hnodup : (s.written ++ s.sendQueue).Nodup := h.inv.order ▸ List.nodup_range
  exact (List.nodup_append.mp hnodup).1

theorem Sends.lt_queued (h : Sends s) {b : ℕ} (hb : b ∈ s.written) : b < s.queued :=
  List.mem_range.mp (h.inv.order ▸ List.mem_append_left _ hb)

/-- A write in flight is the last one. -/
theorem Sends.inFlight_eq (h : Sends s) {b : ℕ} (hb : b ∈ s.inFlight) : s.inFlight = [b] := by
  have hone := h.tidy.inFlight
  obtain ⟨b', hb'⟩ := List.length_eq_one_iff.mp (le_antisymm hone (List.length_pos_of_mem hb))
  rw [hb'] at hb ⊢
  rw [List.mem_singleton.mp hb]

theorem send_written (p : SendQueue.Process) (discardEmpty : Bool) :
    ∃ bs, (s.send p discardEmpty).written = s.written ++ bs ∧
      (s.send p discardEmpty).inFlight = s.inFlight ++ bs ∧
      (s.send p discardEmpty).completed = s.completed ∧
      (s.send p discardEmpty).queued = s.queued ∧ ∀ b ∈ bs, b ∈ s.sendQueue := by
  unfold SendQueue.State.send
  split
  · next buffer rest hqueue =>
      refine ⟨[buffer], rfl, rfl, rfl, rfl, fun b hb => ?_⟩
      rw [hqueue, List.mem_singleton.mp hb]
      exact List.mem_cons_self
  · exact ⟨[], (List.append_nil _).symm, (List.append_nil _).symm, rfl, rfl,
      fun b hb => absurd hb List.not_mem_nil⟩

/-- What a step of the send queue does to the writes. -/
theorem next_send (h : Sends s) (p : SendQueue.Process) :
    ∃ bs, (SendQueue.next s (.send p)).written = s.written ++ bs ∧
      (SendQueue.next s (.send p)).inFlight = s.inFlight ++ bs ∧
      (SendQueue.next s (.send p)).completed = s.completed ∧
      (SendQueue.next s (.send p)).queued = s.queued ∧ ∀ b ∈ bs, b ∉ s.written := by
  have hnodup : (s.written ++ s.sendQueue).Nodup := h.inv.order ▸ List.nodup_range
  rw [SendQueue.next]
  split
  · next discardEmpty _ =>
      obtain ⟨bs, hwritten, hflight, hcompleted, hqueued, hbs⟩ := @send_written s p discardEmpty
      refine ⟨bs, hwritten, hflight, hcompleted, hqueued, fun b hb hb' => ?_⟩
      exact (List.nodup_append.mp hnodup).2.2 b hb' b (hbs b hb) rfl
  · exact ⟨[], (List.append_nil _).symm, (List.append_nil _).symm, rfl, rfl,
      fun b hb => absurd hb List.not_mem_nil⟩

theorem next_complete (h : Sends s) (b : ℕ) :
    (SendQueue.next s (.complete b)).written = s.written ∧
      (SendQueue.next s (.complete b)).queued = s.queued ∧
      ((SendQueue.next s (.complete b)).completed = s.completed ∧
          (SendQueue.next s (.complete b)).inFlight = s.inFlight ∨
        s.inFlight = [b] ∧ (SendQueue.next s (.complete b)).completed = s.completed ++ [b] ∧
          (SendQueue.next s (.complete b)).inFlight = []) := by
  rw [SendQueue.next]
  split
  · next hb =>
      have hflight := h.inFlight_eq hb
      refine ⟨rfl, rfl, Or.inr ⟨hflight, rfl, ?_⟩⟩
      show s.inFlight.erase b = []
      rw [hflight, List.erase_cons_head]
  · exact ⟨rfl, rfl, Or.inl ⟨rfl, rfl⟩⟩

/-- The steps that neither write nor complete a write. -/
theorem next_quiet {e : SendQueue.Event} (he : (∃ p, e = .sample p) ∨ ∃ b, e = .release b) :
    (SendQueue.next s e).written = s.written ∧ (SendQueue.next s e).inFlight = s.inFlight ∧
      (SendQueue.next s e).completed = s.completed ∧ (SendQueue.next s e).queued = s.queued := by
  rcases he with ⟨p, rfl⟩ | ⟨b, rfl⟩
  · rw [SendQueue.next]
    split <;> exact ⟨rfl, rfl, rfl, rfl⟩
  · rw [SendQueue.next]
    split
    · unfold SendQueue.State.release
      split <;> exact ⟨rfl, rfl, rfl, rfl⟩
    · exact ⟨rfl, rfl, rfl, rfl⟩

theorem Sends.next (h : Sends s) {e : SendQueue.Event} (hguard : SendQueue.upToDate s e) :
    Sends (SendQueue.next s e) := by
  refine ⟨SendQueue.inv_next h.inv e, SendQueue.tidy_next h.tidy h.inv hguard, ?_⟩
  cases e with
  | queue n =>
      rw [SendQueue.next]
      split <;> exact h.written
  | sample p =>
      obtain ⟨hwritten, hflight, hcompleted, -⟩ := @next_quiet s _ (Or.inl ⟨p, rfl⟩)
      rw [hwritten, hflight, hcompleted, h.written]
  | send p =>
      obtain ⟨bs, hwritten, hflight, hcompleted, -, -⟩ := next_send h p
      rw [hwritten, hflight, hcompleted, h.written, List.append_assoc]
  | complete b =>
      obtain ⟨hwritten, -, hsame | ⟨hone, hcompleted, hflight⟩⟩ := next_complete h b
      · rw [hwritten, hsame.1, hsame.2, h.written]
      · rw [hwritten, hcompleted, hflight, h.written, hone, List.append_nil]
  | release b =>
      obtain ⟨hwritten, hflight, hcompleted, -⟩ := @next_quiet s _ (Or.inr ⟨b, rfl⟩)
      rw [hwritten, hflight, hcompleted, h.written]

end Sends

/-! ## The bytes between the ends -/

/-- What holds in every state of a link that is clean: the bytes read and those still in the
stream are the bytes that the kernel took, buffer by buffer. -/
structure Streamed (memory : Memory) (buffer : ℕ → Byte) (l : Link) : Prop where
  sends : Sends l.sender
  queued : l.sender.queued = l.sent.length
  plain : ∀ o ∈ l.sent, o.Plain
  fresh : ∀ b, b ∉ l.sender.written → l.taken b = 0
  whole : ∀ b ∈ l.sender.completed, l.taken b = (l.bytes memory b).length
  stream : fed l.reads ++ l.stream =
    l.sender.written.flatMap fun b => (l.bytes memory b).take (l.taken b)
  run : Run (Network.Step (Isc.OnReceived HandlePacket)) (accepted buffer) l.reads l.receiver

section Streamed

variable {memory : Memory} {buffer : ℕ → Byte} {l l' : Link}

theorem streamed_start : Streamed memory buffer (start buffer) where
  sends := Sends.start
  queued := rfl
  plain := fun _ ho => absurd ho List.not_mem_nil
  fresh := fun _ _ => rfl
  whole := fun _ hb => absurd hb List.not_mem_nil
  stream := rfl
  run := Run.nil

/-- The bytes of a buffer do not depend on what is sent after it. -/
theorem bytes_concat {b : ℕ} (hb : b < l.sent.length) (o : Sent) (sender : SendQueue.State) :
    Link.bytes memory { l with sender := sender, sent := l.sent ++ [o] } b = l.bytes memory b := by
  rw [Link.bytes, Link.bytes, List.getElem?_append_left hb]

/-- A step of the send queue alone. -/
theorem Streamed.of_sender (h : Streamed memory buffer l) {s : SendQueue.State} (hs : Sends s)
    (hqueued : s.queued = l.sender.queued) {bs : List ℕ}
    (hwritten : s.written = l.sender.written ++ bs) (hbs : ∀ b ∈ bs, b ∉ l.sender.written)
    (hwhole : ∀ b ∈ s.completed, l.taken b = (l.bytes memory b).length) :
    Streamed memory buffer { l with sender := s } where
  sends := hs
  queued := hqueued.trans h.queued
  plain := h.plain
  fresh := fun b hb => h.fresh b fun hb' => hb (hwritten ▸ List.mem_append_left _ hb')
  whole := hwhole
  stream := by
    have hnone : bs.flatMap (fun b => (l.bytes memory b).take (l.taken b)) = [] :=
      List.flatMap_eq_nil_iff.mpr fun b hb => by rw [h.fresh b (hbs b hb), List.take_zero]
    show fed l.reads ++ l.stream = s.written.flatMap fun b => (l.bytes memory b).take (l.taken b)
    rw [hwritten, List.flatMap_append, h.stream, hnone, List.append_nil]
  run := h.run

theorem Streamed.queue (h : Streamed memory buffer l) {n : ℕ} {o : Sent} (ho : o.Plain)
    (hidle : l.sender.processSend (.caller n) = .idle) :
    Streamed memory buffer
      { l with sender := SendQueue.next l.sender (.queue n), sent := l.sent ++ [o] } := by
  have hqueue : SendQueue.next l.sender (.queue n) = l.sender.queue n := by
    rw [SendQueue.next, if_pos hidle]
  rw [hqueue]
  have hlt : ∀ b ∈ l.sender.written, b < l.sent.length := fun b hb =>
    h.queued ▸ h.sends.lt_queued hb
  have hcompleted : ∀ b ∈ l.sender.completed, b ∈ l.sender.written := fun b hb => by
    rw [h.sends.written]
    exact List.mem_append_left _ hb
  have hsends : Sends (SendQueue.next l.sender (.queue n)) := h.sends.next trivial
  refine ⟨hqueue ▸ hsends, ?_, ?_, h.fresh, fun b hb => ?_, ?_, h.run⟩
  · show l.sender.queued + 1 = (l.sent ++ [o]).length
    rw [h.queued, List.length_append, List.length_singleton]
  · intro o' ho'
    rcases List.mem_append.mp ho' with ho' | ho'
    · exact h.plain o' ho'
    · exact List.mem_singleton.mp ho' ▸ ho
  · rw [bytes_concat (hlt b (hcompleted b hb))]
    exact h.whole b hb
  · show fed l.reads ++ l.stream = l.sender.written.flatMap fun b =>
      (Link.bytes memory { l with sender := l.sender.queue n, sent := l.sent ++ [o] } b).take
        (l.taken b)
    rw [h.stream]
    refine List.flatMap_congr fun b hb => ?_
    rw [bytes_concat (hlt b hb)]

theorem Streamed.transmit (h : Streamed memory buffer l) {b count : ℕ}
    (hb : b ∈ l.sender.inFlight) : Streamed memory buffer
      { l with
        taken := update l.taken b (l.taken b + count)
        stream := l.stream ++ ((l.bytes memory b).drop (l.taken b)).take count } := by
  have hflight := h.sends.inFlight_eq hb
  have hwritten := h.sends.written
  rw [hflight] at hwritten
  have hnot : b ∉ l.sender.completed := fun hb' => h.sends.tidy.pending b hb hb'
  have hmem : b ∈ l.sender.written := by
    rw [hwritten]
    exact List.mem_append_right _ (List.mem_singleton.mpr rfl)
  refine ⟨h.sends, h.queued, h.plain, fun b' hb' => ?_, fun b' hb' => ?_, ?_, h.run⟩
  · have hne : b' ≠ b := fun heq => hb' (heq ▸ hmem)
    exact (Function.update_of_ne hne _ _).trans (h.fresh b' hb')
  · have hne : b' ≠ b := fun heq => hnot (heq ▸ hb')
    exact (Function.update_of_ne hne _ _).trans (h.whole b' hb')
  · -- the write in flight is the last one, so its bytes go behind all others
    have hothers : l.sender.completed.flatMap (fun b' => (l.bytes memory b').take
        (update l.taken b (l.taken b + count) b')) =
        l.sender.completed.flatMap fun b' => (l.bytes memory b').take (l.taken b') :=
      List.flatMap_congr fun b' hb' => by
        have hne : b' ≠ b := fun heq => hnot (heq ▸ hb')
        rw [Function.update_of_ne hne]
    have hstream := h.stream
    rw [hwritten, List.flatMap_append, List.flatMap_singleton] at hstream
    show fed l.reads ++ (l.stream ++ ((l.bytes memory b).drop (l.taken b)).take count) =
      l.sender.written.flatMap fun b' =>
        (l.bytes memory b').take (update l.taken b (l.taken b + count) b')
    rw [hwritten, List.flatMap_append, List.flatMap_singleton, hothers, Function.update_self,
      List.take_add, ← List.append_assoc, hstream, List.append_assoc]

theorem Streamed.read (h : Streamed memory buffer l) {c : Completion} (hc : c.Valid l.receiver)
    (hbytes : c.bytes <+: l.stream) : Streamed memory buffer
      { l with
        stream := l.stream.drop c.bytes.length
        receiver := Network.onRead (Isc.OnReceived HandlePacket) c l.receiver
        reads := l.reads ++ [c] } where
  sends := h.sends
  queued := h.queued
  plain := h.plain
  fresh := h.fresh
  whole := h.whole
  stream := by
    obtain ⟨rest, hrest⟩ := hbytes
    have hdrop : c.bytes ++ l.stream.drop c.bytes.length = l.stream := by
      rw [← hrest, List.drop_left]
    show fed (l.reads ++ [c]) ++ l.stream.drop c.bytes.length = _
    rw [Delivery.fed_append_singleton, List.append_assoc, hdrop, h.stream]
    rfl
  run := Run.snoc h.run ⟨hc, rfl⟩

theorem streamed_step {e : Event} (h : Streamed memory buffer l) (hclean : clean l e)
    (hstep : Step memory l e l') : Streamed memory buffer l' := by
  cases e with
  | queue n o =>
      obtain ⟨hidle, rfl⟩ := hstep
      exact h.queue hclean hidle
  | sample p =>
      obtain ⟨-, rfl⟩ := hstep
      obtain ⟨hwritten, -, hcompleted, hqueued⟩ := @next_quiet l.sender _ (Or.inl ⟨p, rfl⟩)
      refine h.of_sender (h.sends.next trivial) hqueued
        (hwritten.trans (List.append_nil _).symm) (fun _ hb => absurd hb List.not_mem_nil) ?_
      rw [hcompleted]
      exact h.whole
  | send p =>
      obtain ⟨-, rfl⟩ := hstep
      obtain ⟨bs, hwritten, -, hcompleted, hqueued, hbs⟩ := next_send h.sends p
      refine h.of_sender (h.sends.next hclean) hqueued hwritten hbs ?_
      rw [hcompleted]
      exact h.whole
  | transmit b count =>
      obtain ⟨⟨hb, -⟩, rfl⟩ := hstep
      exact h.transmit hb
  | complete b =>
      obtain ⟨hall, rfl⟩ := hstep
      obtain ⟨hwritten, hqueued, hsame | ⟨-, hcompleted, -⟩⟩ := next_complete h.sends b
      · refine h.of_sender (h.sends.next trivial) hqueued
          (hwritten.trans (List.append_nil _).symm) (fun _ hb => absurd hb List.not_mem_nil) ?_
        rw [hsame.1]
        exact h.whole
      · refine h.of_sender (h.sends.next trivial) hqueued
          (hwritten.trans (List.append_nil _).symm) (fun _ hb => absurd hb List.not_mem_nil) ?_
        intro b' hb'
        rw [hcompleted] at hb'
        rcases List.mem_append.mp hb' with hb' | hb'
        · exact h.whole b' hb'
        · rw [List.mem_singleton.mp hb']
          exact hall
  | release b =>
      obtain ⟨-, rfl⟩ := hstep
      obtain ⟨hwritten, -, hcompleted, hqueued⟩ := @next_quiet l.sender _ (Or.inr ⟨b, rfl⟩)
      refine h.of_sender (h.sends.next trivial) hqueued
        (hwritten.trans (List.append_nil _).symm) (fun _ hb => absurd hb List.not_mem_nil) ?_
      rw [hcompleted]
      exact h.whole
  | read c =>
      obtain ⟨⟨hc, hbytes⟩, rfl⟩ := hstep
      exact h.read hc hbytes

end Streamed

/-! ## The receiving end -/

/-- Each packet that was queued has been handled. -/
structure Handled (r : Receiver) : Prop where
  queue : r.recv_queue = []
  count : r.handled = r.pushes.length
  active : r.reading = true → r.active = true

theorem Handled.receivePacket {r : Receiver} (h : Handled r) (hactive : r.active = true)
    (hreading : r.reading = false) : Handled (Network.receivePacket HandlePacket r) := by
  rw [Network.receivePacket_eq HandlePacket hactive h.queue]
  refine ⟨h.queue, ?_, fun hread => absurd (hreading.symm.trans hread) (by simp)⟩
  show r.handled + 1 = _
  rw [h.count, List.length_append, List.length_singleton]

theorem Handled.rearm {r : Receiver} (h : Handled r) (hreading : r.reading = false) :
    Handled r.rearm := by
  have hsame := Network.SameFrame.rearm r
  refine ⟨hsame.recv_queue.trans h.queue, ?_, fun hread => ?_⟩
  · rw [hsame.handled, hsame.pushes, h.count]
  · unfold Receiver.rearm at hread ⊢
    split_ifs at hread ⊢ with hactive
    · exact hactive
    · exact absurd (hreading.symm.trans hread) (by simp)

theorem Handled.shutdown {r : Receiver} (h : Handled r) (hreading : r.reading = false) :
    Handled r.shutdown :=
  ⟨h.queue, h.count, fun hread => absurd (hreading.symm.trans hread) (by simp)⟩

theorem Handled.onReceived {r : Receiver} (h : Handled r) (hactive : r.active = true)
    (hreading : r.reading = false) : Handled (Isc.OnReceived HandlePacket r).2 ∧
      (Isc.OnReceived HandlePacket r).2.reading = false ∧
      r.handled ≤ (Isc.OnReceived HandlePacket r).2.handled := by
  have hreceive : ∀ r' : Receiver, Handled r' → r'.active = true → r'.reading = false →
      Handled (Network.receivePacket HandlePacket r') ∧
        (Network.receivePacket HandlePacket r').reading = false ∧
        r'.handled ≤ (Network.receivePacket HandlePacket r').handled :=
      fun r' h' hactive' hreading' => by
    refine ⟨h'.receivePacket hactive' hreading', ?_⟩
    rw [Network.receivePacket_eq HandlePacket hactive' h'.queue]
    exact ⟨hreading', Nat.le_succ _⟩
  have hhead : Handled { r with packet_size := (r.buffer 0).toNat } :=
    ⟨h.queue, h.count, fun hread => absurd (hreading.symm.trans hread) (by simp)⟩
  unfold Isc.OnReceived
  dsimp only
  split_ifs
  · exact ⟨⟨h.queue, h.count, hhead.active⟩, hreading, Nat.le_refl _⟩
  · exact ⟨hhead, hreading, Nat.le_refl _⟩
  · exact hreceive _ hhead hactive hreading
  · exact hreceive r h hactive hreading

theorem handled_step {r r' : Receiver} {c : Completion} (h : Handled r)
    (hstep : Network.Step (Isc.OnReceived HandlePacket) r c r') :
    Handled r' ∧ r.handled ≤ r'.handled := by
  obtain ⟨⟨hreading, -⟩, rfl⟩ := hstep
  have htransferred : Handled (r.transferred c) :=
    ⟨h.queue, h.count, fun hread => absurd hread (by simp [Receiver.transferred])⟩
  have hactive : (r.transferred c).active = true := h.active hreading
  unfold Network.onRead
  split
  · obtain ⟨hreceived, hoff, hle⟩ := htransferred.onReceived hactive rfl
    dsimp only
    split_ifs
    · exact ⟨hreceived.shutdown hoff, hle⟩
    · exact ⟨hreceived.rearm hoff, hle.trans (Network.SameFrame.rearm _).handled.ge⟩
  · exact ⟨htransferred.rearm rfl, (Network.SameFrame.rearm (r.transferred c)).handled.ge⟩
  · exact ⟨htransferred.shutdown rfl, Nat.le_refl _⟩
  · exact ⟨htransferred.shutdown rfl, Nat.le_refl _⟩

/-! ## End to end -/

/-- The message, if the object is one: an `ISC_ALIVE` changes nothing. -/
def Sent.message? : Sent → Option Message
  | .alive => none
  | .message m => some m

def messages (sent : List Sent) : List Message := sent.filterMap Sent.message?

@[simp] theorem messages_append (sent sent' : List Sent) :
    messages (sent ++ sent') = messages sent ++ messages sent' :=
  List.filterMap_append

theorem foldl_handle (isc : CountedISC) (sent : List Sent) :
    (sent.map some).foldl handle isc = (messages sent).foldl CountedISC.handle isc := by
  induction sent generalizing isc with
  | nil => rfl
  | cons o sent ih =>
      cases o with
      | alive => exact ih isc
      | message m => exact ih (isc.handle m)

section EndToEnd

variable {memory : Memory} {buffer : ℕ → Byte} {es : List Event} {l : Link}

theorem streamed_of_run (h : Run (Guarded clean (Step memory)) (start buffer) es l) :
    Streamed memory buffer l :=
  h.state_invariant streamed_start fun _ _ _ hs hstep => streamed_step hs hstep.1 hstep.2

namespace Streamed

variable (h : Streamed memory buffer l)

include h

theorem handledAll : Handled l.receiver := by
  have haccepted : Handled (accepted buffer) := ⟨rfl, rfl, fun _ => rfl⟩
  exact h.run.state_invariant haccepted fun _ _ _ hr hstep => (handled_step hr hstep).1

theorem written_eq : l.sender.written = List.range l.sender.written.length ∧
    l.sender.written.length ≤ l.sent.length := by
  have horder := h.sends.inv.order
  rw [h.queued] at horder
  have hlength := congrArg List.length horder
  rw [List.length_append, List.length_range] at hlength
  have hle : l.sender.written.length ≤ l.sent.length := by omega
  have htake := congrArg (List.take l.sender.written.length) horder
  rw [List.take_left, List.take_range, min_eq_left hle] at htake
  exact ⟨htake, hle⟩

/-- The bytes of the buffers written are those of the objects. -/
theorem flatMap_bytes :
    l.sender.written.flatMap (l.bytes memory) = wires Sent.bytes l.written := by
  obtain ⟨hrange, hle⟩ := h.written_eq
  have hmap : l.sender.written.map (l.bytes memory) = l.written.map Sent.bytes := by
    rw [hrange, Link.written]
    refine List.ext_getElem ?_ fun i hi hi' => ?_
    · rw [List.length_map, List.length_map, List.length_take, List.length_range, min_eq_left hle]
    · have hlt : i < l.sent.length := by
        rw [List.length_map, List.length_range] at hi
        omega
      rw [List.getElem_map, List.getElem_map, List.getElem_range, List.getElem_take, Link.bytes,
        List.getElem?_eq_getElem hlt]
      exact getPacked_of_plain (h.plain _ (List.getElem_mem hlt)) (memory.packed i)
  rw [List.flatMap_def, hmap]
  rfl

/-- What has come out of the link is what went in, as far as it has got. -/
theorem fed_prefix : fed l.reads ++ l.stream <+: wires Sent.bytes l.written := by
  have hwhole : l.sender.completed.flatMap (fun b => (l.bytes memory b).take (l.taken b)) =
      l.sender.completed.flatMap (l.bytes memory) :=
    List.flatMap_congr fun b hb => by rw [h.whole b hb, List.take_length]
  have hlast : l.sender.inFlight.flatMap (fun b => (l.bytes memory b).take (l.taken b)) <+:
      l.sender.inFlight.flatMap (l.bytes memory) := by
    match hflight : l.sender.inFlight with
    | [] => exact List.prefix_refl _
    | [b] =>
        rw [List.flatMap_singleton, List.flatMap_singleton]
        exact List.take_prefix _ _
    | b :: b' :: rest =>
        have hone := h.sends.tidy.inFlight
        rw [hflight, List.length_cons, List.length_cons] at hone
        omega
  rw [h.stream, ← h.flatMap_bytes, h.sends.written, List.flatMap_append, hwhole,
    List.flatMap_append]
  exact (List.prefix_append_right_inj _).mpr hlast

theorem inOrder :
    Delivery.InOrder HandlePacket Sent.bytes Sent.bytes l.written l.reads l.receiver := by
  refine Delivery.inOrder_of_run framing_plain ?_ buffer h.run
    ((List.prefix_append _ _).trans h.fed_prefix)
  rw [processed_eq]
  exact fun o ho => h.plain o (List.mem_of_mem_take ho)

/-- The packets handled are the first ones written. -/
theorem handledPackets_eq : l.receiver.handled ≤ l.sender.written.length ∧
    l.handledPackets = (l.sent.take l.receiver.handled).map Sent.bytes := by
  have hcount := h.handledAll.count
  have hqueued := h.inOrder.queued
  rw [processed_eq] at hqueued
  have hle := hqueued.length_le
  rw [List.length_map, List.length_map, Link.written, List.length_take, ← hcount] at hle
  have htake := List.prefix_iff_eq_take.mp hqueued
  rw [List.length_map, ← hcount, ← List.map_take, Link.written, List.take_take,
    min_eq_left (by omega)] at htake
  refine ⟨by omega, ?_⟩
  rw [Link.handledPackets, htake, ← List.map_take, List.take_take, min_self]

/-- The objects handled are the first ones sent. -/
theorem handled_eq : l.handled memory = (l.sent.take l.receiver.handled).map some := by
  have hfetch : ∀ sent : List Sent, (∀ o ∈ sent, o.Plain) → ∀ k,
      ((sent.map Sent.bytes).zipIdx k).map
        (fun (p, n) => fetch (memory.built n) (memory.behind n) p) = sent.map some := by
    intro sent hplain
    induction sent with
    | nil => exact fun _ => rfl
    | cons o sent ih =>
        intro k
        have hhead := fetch_bytes (hplain o List.mem_cons_self) (memory.built k) (memory.behind k)
        have htail := ih (fun o' ho' => hplain o' (List.mem_cons_of_mem _ ho')) (k + 1)
        exact congrArg₂ List.cons hhead htail
  rw [Link.handled, h.handledPackets_eq.2]
  exact hfetch _ (fun o ho => h.plain o (List.mem_of_mem_take ho)) 0

theorem drained (hdrained : l.Drained) : l.receiver.handled = l.sent.length := by
  have hempty := h.sends.inv.sent hdrained.idle hdrained.inFlight hdrained.handlers
  have horder := congrArg List.length h.sends.inv.order
  rw [hempty, List.append_nil, h.queued, List.length_range] at horder
  -- each write has completed, so the kernel has taken all
  have hwhole : ∀ b ∈ l.sender.written, l.taken b = (l.bytes memory b).length := by
    rw [h.sends.written, hdrained.inFlight, List.append_nil]
    exact h.whole
  have hfed : fed l.reads = wires Sent.bytes l.written := by
    have hstream := h.stream
    rw [hdrained.stream, List.append_nil] at hstream
    rw [hstream, ← h.flatMap_bytes]
    exact List.flatMap_congr fun b hb => by rw [hwhole b hb, List.take_length]
  have hall := h.inOrder.finished (Or.inl hfed)
  rw [processed_eq] at hall
  have hlength := congrArg List.length hall
  rw [List.length_map, List.length_map, Link.written, horder, List.take_length,
    ← h.handledAll.count] at hlength
  exact hlength

end Streamed

/-- **Objects come out of the link in the order in which they went in**, each one once and as it
was sent, and all of them once it has come to rest. -/
theorem in_order (h : Run (Guarded clean (Step memory)) (start buffer) es l) (isc : CountedISC) :
    l.receiver.handled ≤ l.sent.length ∧
      l.handled memory = (l.sent.take l.receiver.handled).map some ∧
      l.login memory isc =
        (messages (l.sent.take l.receiver.handled)).foldl CountedISC.handle isc ∧
      (l.Drained → l.handled memory = l.sent.map some) := by
  have hs := streamed_of_run h
  refine ⟨hs.handledPackets_eq.1.trans hs.written_eq.2, hs.handled_eq, ?_, fun hdrained => ?_⟩
  · rw [Link.login, hs.handled_eq, foldl_handle]
  · rw [hs.handled_eq, hs.drained hdrained, List.take_length]

/-! ### One shutdown, in two reads -/

def noMemory : Memory := ⟨fun _ _ => 0, fun _ _ => 0, fun _ _ => 0⟩

/-- Map server 5 has gone. -/
def fiveGone : Sent := .message (.shutdown ⟨.MAP_MASTER, 5⟩)

theorem plain_fiveGone : fiveGone.Plain :=
  ⟨by decide, by simp [fiveGone, Sent.pack, Field.NulFree, Wire.NulFree]⟩

/-- It is queued, written and read, its header first. -/
def goes : List Event :=
  [.queue 0 fiveGone, .sample (.caller 0), .send (.caller 0), .transmit 0 11,
    .read ⟨[11, 0, 5, 3, 0, 0], .success⟩, .read ⟨[3, 5, 0, 0, 0], .success⟩]

theorem run_goes : Run (Guarded clean (Step noMemory)) (start fun _ => 0) goes
    (goes.foldl (next noMemory) (start fun _ => 0)) := by
  refine Run.cons ⟨plain_fiveGone, ?_, rfl⟩ (Run.cons ⟨trivial, trivial, rfl⟩
    (Run.cons ⟨?_, trivial, rfl⟩ (Run.cons ⟨trivial, ?_, rfl⟩ (Run.cons ⟨trivial, ?_, rfl⟩
    (Run.cons ⟨trivial, ?_, rfl⟩ Run.nil)))))
  · rfl
  · exact fun _ _ _ hb => absurd hb List.not_mem_nil
  · exact ⟨by decide, by decide⟩
  · exact ⟨⟨rfl, by decide⟩, by decide⟩
  · exact ⟨⟨rfl, by decide⟩, by decide⟩

theorem in_order_goes : ∃ l : Link, l.sent = [fiveGone] ∧ l.receiver.handled = 1 ∧
    l.receiver.handled ≤ l.sent.length ∧
      l.handled noMemory = (l.sent.take l.receiver.handled).map some ∧
      l.login noMemory { id := 0 } =
        (messages (l.sent.take l.receiver.handled)).foldl CountedISC.handle { id := 0 } ∧
      (l.Drained → l.handled noMemory = l.sent.map some) :=
  ⟨_, rfl, by decide, in_order run_goes { id := 0 }⟩

end EndToEnd

/-! ## The link as the list of the channels sees it -/

/-- What happens to the link there. -/
inductive Op
  | send (m : Message)
  | written
  | delivered

def Op.run (s : Directory.State) : Op → Directory.State
  | .send m => s.send m
  | .written => Directory.write s
  | .delivered => Directory.deliver s

def Op.sent? : Op → Option Message
  | .send m => some m
  | _ => none

def Event.sent : Event → List Sent
  | .queue _ o => [o]
  | _ => []

/-- The queue, the wire and the login server are those of the link. -/
structure Models (memory : Memory) (isc : CountedISC) (l : Link) (s : Directory.State) : Prop where
  up : s.link = .up
  queue : s.queue = messages (l.sent.drop l.sender.written.length)
  wire : s.wire = messages (l.written.drop l.receiver.handled)
  login : s.login = l.login memory isc

/-- The login server handles the first messages of the wire. -/
theorem run_delivered (ms : List Message) {rest : List Message} {s : Directory.State}
    (hwire : s.wire = ms ++ rest) : (List.replicate ms.length Op.delivered).foldl Op.run s =
      { s with wire := rest, login := ms.foldl CountedISC.handle s.login } := by
  induction ms generalizing s with
  | nil =>
      obtain rfl : s.wire = rest := hwire
      rfl
  | cons m ms ih =>
      have hdeliver : Directory.deliver s =
          { s with wire := ms ++ rest, login := s.login.handle m } := by
        rw [Directory.deliver, hwire]
        rfl
      rw [List.length_cons, List.replicate_succ, List.foldl_cons, Op.run, hdeliver, ih rfl]
      rfl

section Refines

variable {memory : Memory} {buffer : ℕ → Byte} {isc : CountedISC} {es : List Event}
  {l l' : Link} {s : Directory.State}

/-- A step that neither sends nor writes nor handles anything. -/
theorem Models.congr (hm : Models memory isc l s) (hsent : l'.sent = l.sent)
    (hwritten : l'.sender.written = l.sender.written) (hreceiver : l'.receiver = l.receiver) :
    Models memory isc l' s where
  up := hm.up
  queue := by rw [hm.queue, hsent, hwritten]
  wire := by rw [hm.wire, Link.written, Link.written, hsent, hwritten, hreceiver]
  login := by
    rw [hm.login, Link.login, Link.login, Link.handled, Link.handled, Link.handledPackets,
      Link.handledPackets, hreceiver]

theorem Models.queued (hm : Models memory isc l s) (h : Streamed memory buffer l) (o : Sent)
    {sender : SendQueue.State} (hsender : sender.written = l.sender.written) :
    ∃ ops, Models memory isc { l with sender := sender, sent := l.sent ++ [o] }
      (List.foldl Op.run s ops) ∧ ops.filterMap Op.sent? = messages [o] := by
  have hle := h.written_eq.2
  have hqueue : (l.sent ++ [o]).drop sender.written.length =
      l.sent.drop l.sender.written.length ++ [o] := by
    rw [hsender, List.drop_append_of_le_length hle]
  have hwritten : (l.sent ++ [o]).take sender.written.length = l.written := by
    rw [hsender, List.take_append_of_le_length hle, Link.written]
  cases o with
  | alive =>
      refine ⟨[], ⟨hm.up, ?_, ?_, hm.login⟩, rfl⟩
      · show s.queue = messages ((l.sent ++ [Sent.alive]).drop sender.written.length)
        rw [hqueue, messages_append, hm.queue]
        exact (List.append_nil _).symm
      · show s.wire = messages (((l.sent ++ [Sent.alive]).take sender.written.length).drop _)
        rw [hwritten, hm.wire]
  | message m =>
      refine ⟨[.send m], ⟨hm.up, ?_, ?_, hm.login⟩, rfl⟩
      · show s.queue ++ [m] = messages ((l.sent ++ [Sent.message m]).drop sender.written.length)
        rw [hqueue, messages_append, hm.queue]
        rfl
      · show s.wire = messages (((l.sent ++ [Sent.message m]).take sender.written.length).drop _)
        rw [hwritten, hm.wire]

theorem Models.sent (hm : Models memory isc l s) (h : Streamed memory buffer l)
    {sender : SendQueue.State} {b : ℕ} (hsender : sender.written = l.sender.written ++ [b])
    (hle : sender.written.length ≤ l.sent.length) :
    ∃ ops, Models memory isc { l with sender := sender } (List.foldl Op.run s ops) ∧
      ops.filterMap Op.sent? = [] := by
  have hlength : sender.written.length = l.sender.written.length + 1 := by
    rw [hsender, List.length_append, List.length_singleton]
  have hlt : l.sender.written.length < l.sent.length := by omega
  obtain ⟨o, hsplit⟩ : ∃ o, l.sent.drop l.sender.written.length =
      o :: l.sent.drop sender.written.length := by
    rw [hlength, List.drop_eq_getElem_cons hlt]
    exact ⟨_, rfl⟩
  have hwritten : l.sent.take sender.written.length = l.written ++ [o] := by
    have htake := List.take_add (l := l.sent) (i := l.sender.written.length) (j := 1)
    rw [hsplit] at htake
    rw [hlength, htake]
    rfl
  have hwire : (l.written ++ [o]).drop l.receiver.handled =
      l.written.drop l.receiver.handled ++ [o] := by
    refine List.drop_append_of_le_length ?_
    rw [Link.written, List.length_take]
    exact le_min h.handledPackets_eq.1 (h.handledPackets_eq.1.trans h.written_eq.2)
  have hqueue := hm.queue
  rw [hsplit] at hqueue
  cases o with
  | alive =>
      refine ⟨[], ⟨hm.up, hqueue, ?_, hm.login⟩, rfl⟩
      show s.wire = messages ((l.sent.take sender.written.length).drop l.receiver.handled)
      rw [hwritten, hwire, messages_append, hm.wire]
      exact (List.append_nil _).symm
  | message m =>
      have hwrite : Directory.write s = { s with
          queue := messages (l.sent.drop sender.written.length), wire := s.wire ++ [m] } := by
        have hcons : s.queue = m :: messages (l.sent.drop sender.written.length) := hqueue
        rw [Directory.write, hm.up, hcons]
      refine ⟨[.written], ?_, rfl⟩
      show Models memory isc { l with sender := sender } (Directory.write s)
      rw [hwrite]
      refine ⟨hm.up, rfl, ?_, hm.login⟩
      show s.wire ++ [m] = messages ((l.sent.take sender.written.length).drop l.receiver.handled)
      rw [hwritten, hwire, messages_append, hm.wire]
      rfl

theorem Models.read (hm : Models memory isc l s) (h : Streamed memory buffer l)
    (h' : Streamed memory buffer l') (hsent : l'.sent = l.sent) (hsender : l'.sender = l.sender)
    (hle : l.receiver.handled ≤ l'.receiver.handled) :
    ∃ ops, Models memory isc l' (List.foldl Op.run s ops) ∧ ops.filterMap Op.sent? = [] := by
  have hwritten : l'.written = l.written := by
    rw [Link.written, Link.written, hsent, hsender]
  have hall := h'.handledPackets_eq.1
  rw [hsender] at hall
  obtain ⟨k, hk⟩ := Nat.exists_eq_add_of_le hle
  -- what is handled in the step, and what is still on the wire
  have hsplit : l.written.drop l.receiver.handled =
      (l.written.drop l.receiver.handled).take k ++ l.written.drop l'.receiver.handled := by
    rw [hk, ← List.drop_drop, List.take_append_drop]
  have htake : l.sent.take l'.receiver.handled =
      l.sent.take l.receiver.handled ++ (l.written.drop l.receiver.handled).take k := by
    have hthrough : ∀ n, n ≤ l.sender.written.length → l.sent.take n = l.written.take n :=
      fun n hn => by rw [Link.written, List.take_take, min_eq_left hn]
    rw [hthrough _ hall, hthrough _ h.handledPackets_eq.1, hk, List.take_add]
  have hwire := hm.wire
  rw [hsplit, messages_append] at hwire
  refine ⟨List.replicate (messages ((l.written.drop l.receiver.handled).take k)).length
    .delivered, ?_, ?_⟩
  · rw [run_delivered _ hwire]
    refine ⟨hm.up, ?_, ?_, ?_⟩
    · rw [hsent, hsender]
      exact hm.queue
    · rw [hwritten]
    · show (messages _).foldl CountedISC.handle s.login = _
      rw [hm.login, Link.login, Link.login, h.handled_eq, h'.handled_eq, hsent, htake,
        foldl_handle, foldl_handle, messages_append, List.foldl_append]
  · rw [List.filterMap_replicate]
    rfl

theorem models_step {e : Event} (hm : Models memory isc l s) (h : Streamed memory buffer l)
    (hclean : clean l e) (hstep : Step memory l e l') :
    ∃ ops, Models memory isc l' (List.foldl Op.run s ops) ∧
      ops.filterMap Op.sent? = messages e.sent := by
  have h' := streamed_step h hclean hstep
  cases e with
  | queue n o =>
      obtain ⟨hidle, rfl⟩ := hstep
      have hqueue : SendQueue.next l.sender (.queue n) = l.sender.queue n := by
        rw [SendQueue.next]
        exact if_pos hidle
      refine hm.queued h o ?_
      rw [hqueue]
      rfl
  | sample p =>
      obtain ⟨-, rfl⟩ := hstep
      exact ⟨[], hm.congr rfl (@next_quiet l.sender _ (Or.inl ⟨p, rfl⟩)).1 rfl, rfl⟩
  | send p =>
      obtain ⟨-, rfl⟩ := hstep
      obtain ⟨bs, hwritten, hflight, -⟩ := next_send h.sends p
      have hone : (SendQueue.next l.sender (.send p)).inFlight.length ≤ 1 :=
        h'.sends.tidy.inFlight
      rw [hflight, List.length_append] at hone
      have hle := h'.written_eq.2
      obtain hbs | ⟨b, hbs⟩ : bs = [] ∨ ∃ b, bs = [b] := by
        rw [← List.length_eq_zero_iff, ← List.length_eq_one_iff]
        omega
      · rw [hbs, List.append_nil] at hwritten
        exact ⟨[], hm.congr rfl hwritten rfl, rfl⟩
      · rw [hbs] at hwritten
        exact hm.sent h hwritten hle
  | transmit b count =>
      obtain ⟨-, rfl⟩ := hstep
      exact ⟨[], hm.congr rfl rfl rfl, rfl⟩
  | complete b =>
      obtain ⟨-, rfl⟩ := hstep
      exact ⟨[], hm.congr rfl (next_complete h.sends b).1 rfl, rfl⟩
  | release b =>
      obtain ⟨-, rfl⟩ := hstep
      exact ⟨[], hm.congr rfl (@next_quiet l.sender _ (Or.inr ⟨b, rfl⟩)).1 rfl, rfl⟩
  | read c =>
      obtain ⟨⟨hc, -⟩, rfl⟩ := hstep
      exact hm.read h h' rfl rfl (handled_step h.handledAll ⟨hc, rfl⟩).2

end Refines

end OsIrose.IscLink

/-
The receiving side of a connection, `core/src/cnetwork_asio.cpp`.

`CNetwork_Asio::recv_data` asks for `packet_size_ - packet_offset_` bytes, its
completion handler moves `packet_offset_` and calls the registered `OnReceived`, and
the handler alone arms the next read. `Receiver` is what these functions read and
write, together with the `recv_queue_` of the socket object that owns the connection.
`CRoseSocket` and `CRoseISC` differ in their `OnReceived` only, so that function is a
parameter here; the tail the two share (copy, queue, dispatch, reset) is
`receivePacket`.

A read completes with the bytes it transferred and an error code. `Completion.Valid`
is what `asio::transfer_exactly` promises of the two: a read without error has
transferred all it asked for, a failed one less. `HandlePacket` is virtual and its
effect on the receiver is its answer, so it is an oracle of the packet and of how many
packets came before.

`accesses` and `pushes` are ghost state. They record which bytes the decoders used and
what was queued, each with the `packet_size_` of that moment.
-/
import OsIrose.CryptRoundTrip
import OsIrose.Runs
import Mathlib.Data.List.GetD

set_option autoImplicit false

namespace OsIrose.Network

open ByteMem Crypt

/-- `MAX_PACKET_SIZE`, the length of `buffer_`. -/
def MAX_PACKET_SIZE : ℕ := 0x7FF

/-- The receiving state of one connection. -/
structure Receiver where
  buffer : ℕ → Byte
  packet_offset : ℕ
  packet_size : ℕ
  active : Bool
  /-- An `async_read` is outstanding. -/
  reading : Bool
  recv_queue : List (List Byte)
  /-- The number of packets `HandlePacket` has been given. -/
  handled : ℕ
  accesses : List (ℕ × ℕ)
  pushes : List (ℕ × List Byte)

namespace Receiver

variable (r : Receiver)

/-- `CNetwork_Asio::reset_internal_buffer`. -/
def reset_internal_buffer : Receiver := { r with packet_offset := 0, packet_size := 6 }

/-- `CNetwork_Asio::shutdown`: neither `OnShutdown` nor `OnDisconnect` refuses it. -/
def shutdown : Receiver := { r with active := false }

/-- `int16_t BytesToRead = packet_size_ - packet_offset_`. -/
def BytesToRead : ℤ := Int.bmod ((r.packet_size : ℤ) - r.packet_offset) (2 ^ 16)

/-- `CNetwork_Asio::recv_data` arms a read; `OnReceive` never refuses one. -/
def recv_data : Receiver := { r with reading := true }

end Receiver

/-- A connection as `AcceptConnection` hands it over with its first read armed. The
content of `buffer_` is whatever was there. -/
def accepted (buffer : ℕ → Byte) : Receiver where
  buffer := buffer
  packet_offset := 0
  packet_size := 6
  active := true
  reading := true
  recv_queue := []
  handled := 0
  accesses := []
  pushes := []

/-! ## Reads -/

/-- The error codes the completion handler tells apart: none, `try_again`, those by
which the peer goes away (`connection_reset`, `network_reset`, `eof`), all others. -/
inductive ErrorCode
  | success | try_again | peer_closed | failed
  deriving DecidableEq, Repr

/-- How one read completes. -/
structure Completion where
  bytes : List Byte
  errorCode : ErrorCode

/-- The errors that end the connection. -/
def Completion.Fatal (c : Completion) : Prop :=
  c.errorCode = .peer_closed ∨ c.errorCode = .failed

/-- The bytes a list of completions delivered. -/
def fed (es : List Completion) : List Byte := es.flatMap Completion.bytes

/-- A completion that an outstanding read can have. -/
def Completion.Valid (r : Receiver) (c : Completion) : Prop :=
  r.reading = true ∧
    match c.errorCode with
    -- `async_read` succeeds only when it has read all that was asked for
    | .success => (c.bytes.length : ℤ) = r.BytesToRead
    | _ => (c.bytes.length : ℤ) < r.BytesToRead

/-- The buffer after `bytes` arrived at index `off`. -/
def writeAt (off : ℕ) (bytes : List Byte) (b : ℕ → Byte) (j : ℕ) : Byte :=
  if off ≤ j ∧ j < off + bytes.length then bytes.getD (j - off) 0 else b j

/-- The receiver when the completion handler starts: `packet_offset_ += length`. -/
def Receiver.transferred (r : Receiver) (c : Completion) : Receiver :=
  { r with
    reading := false
    buffer := writeAt r.packet_offset c.bytes r.buffer
    packet_offset := (r.packet_offset + c.bytes.length) % 2 ^ 16 }

/-- Arm the next read if the connection is still active. -/
def Receiver.rearm (r : Receiver) : Receiver := if r.active then r.recv_data else r

/-- The completion handler of `recv_data`. -/
def onRead (onReceived : Receiver → Bool × Receiver) (c : Completion) (r : Receiver) :
    Receiver :=
  match c.errorCode with
  | .success =>
      let res := onReceived (r.transferred c)
      if res.1 = false then res.2.shutdown else res.2.rearm
  -- what has arrived stays in the buffer, the next read asks for the rest
  | .try_again => (r.transferred c).rearm
  | .peer_closed => (r.transferred c).shutdown
  | .failed => (r.transferred c).shutdown

/-- One step of a connection: the outstanding read completes. -/
def Step (onReceived : Receiver → Bool × Receiver) (r : Receiver) (c : Completion)
    (r' : Receiver) : Prop :=
  c.Valid r ∧ r' = onRead onReceived c r

/-! ## Queueing a packet -/

/-- The packet that `memcpy` copies out of `buffer_`: as many bytes as its size field,
`CRosePacket::size(buffer_)`, says. -/
def copyPacket (b : ℕ → Byte) : List Byte := (List.range (sizeField b).toNat).map b

/-- `CRosePacket::size` of a queued packet. -/
def packetSize (p : List Byte) : ℕ := (sizeField (fun i => p.getD i 0)).toNat

/-- Copy the packet and push it on `recv_queue_`. -/
def Receiver.push (r : Receiver) : Receiver :=
  { r with
    recv_queue := r.recv_queue ++ [copyPacket r.buffer]
    pushes := r.pushes ++ [(r.packet_size, copyPacket r.buffer)] }

/-- The handler `OnReceived` dispatches; it runs at once, in the calling thread. -/
def Receiver.dispatch (handlePacket : ℕ → List Byte → Bool) (r : Receiver) : Receiver :=
  if r.active then
    match r.recv_queue with
    | [] => r
    | p :: rest =>
        let r' := { r with recv_queue := rest, handled := r.handled + 1 }
        -- a packet that `HandlePacket` refuses closes the connection
        if handlePacket r.handled p = false then r'.shutdown else r'
  else r

/-- The tail of `CRoseSocket::OnReceived` and `CRoseISC::OnReceived`. -/
def receivePacket (handlePacket : ℕ → List Byte → Bool) (r : Receiver) : Receiver :=
  (r.push.dispatch handlePacket).reset_internal_buffer

/-! ## What the pieces leave alone -/

theorem BytesToRead_eq {r : Receiver} (hle : r.packet_offset ≤ r.packet_size)
    (hmax : r.packet_size ≤ MAX_PACKET_SIZE) :
    r.BytesToRead = (r.packet_size : ℤ) - r.packet_offset := by
  have h : MAX_PACKET_SIZE = 2047 := rfl
  unfold Receiver.BytesToRead
  apply Int.bmod_eq_of_le
  · norm_num
    omega
  · norm_num
    omega

theorem writeAt_of_lt {off : ℕ} {bytes : List Byte} {b : ℕ → Byte} {j : ℕ} (h : j < off) :
    writeAt off bytes b j = b j := by
  unfold writeAt
  rw [if_neg (by omega)]

/-- The bytes received so far, after the next ones arrived behind them. -/
theorem writeAt_append {part bytes : List Byte} {b : ℕ → Byte} {lo : ℕ}
    (hpart : ∀ j, lo ≤ j → j < part.length → b j = part.getD j 0) {j : ℕ} (hlo : lo ≤ j)
    (hj : j < (part ++ bytes).length) :
    writeAt part.length bytes b j = (part ++ bytes).getD j 0 := by
  rw [List.length_append] at hj
  by_cases h : j < part.length
  · rw [writeAt_of_lt h, hpart j hlo h, List.getD_append _ _ _ _ h]
  · unfold writeAt
    rw [if_pos (by omega), List.getD_append_right _ _ _ _ (by omega)]

/-- The size field of a packet, byte by byte. -/
theorem sizeField_toNat (b : ℕ → Byte) :
    (sizeField b).toNat = (b 0).toNat + 256 * (b 1).toNat := by
  have h0 : (b 0).toNat < 256 := (b 0).isLt
  have hw : (sizeField b).toNat = ((0#0 ++ b 1 : BitVec 8) ++ b 0 : BitVec 16).toNat := rfl
  rw [hw, BitVec.toNat_append, BitVec.toNat_append, ← Nat.shiftLeft_add_eq_or_of_lt h0,
    ← Nat.shiftLeft_add_eq_or_of_lt (b 1).isLt, Nat.shiftLeft_eq, Nat.shiftLeft_eq]
  simp only [BitVec.toNat_ofNat]
  omega

theorem length_copyPacket (b : ℕ → Byte) :
    (copyPacket b).length = (sizeField b).toNat := by
  rw [copyPacket, List.length_map, List.length_range]

theorem getD_copyPacket {b : ℕ → Byte} {j : ℕ} (hj : j < (sizeField b).toNat) :
    (copyPacket b).getD j 0 = b j := by
  have hlen : j < (copyPacket b).length := by
    rw [length_copyPacket]
    exact hj
  rw [List.getD_eq_getElem _ _ hlen]
  simp only [copyPacket, List.getElem_map, List.getElem_range]

/-- A queued packet is as long as its own size field says, also where the field counts
fewer bytes than it fills: the bytes that are missing then are zero. -/
theorem packetSize_copyPacket (b : ℕ → Byte) :
    packetSize (copyPacket b) = (sizeField b).toNat := by
  have hsum := sizeField_toNat b
  have hbyte : ∀ k, k < 2 → (copyPacket b).getD k 0 = b k := by
    intro k hk
    by_cases hlt : k < (sizeField b).toNat
    · exact getD_copyPacket hlt
    · have hzero : (b k).toNat = 0 := by
        by_cases hk0 : k = 0
        · subst hk0
          omega
        · have hk1 : k = 1 := by omega
          subst hk1
          omega
      rw [List.getD_eq_default _ _ (by rw [length_copyPacket]; omega)]
      apply BitVec.eq_of_toNat_eq
      rw [hzero]
      rfl
  have hword : sizeField (fun i => (copyPacket b).getD i 0) = sizeField b := by
    apply wordLE_congr
    intro k hk
    rw [Nat.zero_add]
    exact hbyte k hk
  rw [packetSize, hword]

/-- The fields of a receiver that a read, `shutdown` and `rearm` have in common. -/
structure SameFrame (r r' : Receiver) : Prop where
  buffer : r'.buffer = r.buffer
  packet_offset : r'.packet_offset = r.packet_offset
  packet_size : r'.packet_size = r.packet_size
  recv_queue : r'.recv_queue = r.recv_queue
  handled : r'.handled = r.handled
  accesses : r'.accesses = r.accesses
  pushes : r'.pushes = r.pushes

theorem SameFrame.rearm (r : Receiver) : SameFrame r r.rearm := by
  unfold Receiver.rearm
  split <;> exact ⟨rfl, rfl, rfl, rfl, rfl, rfl, rfl⟩

theorem SameFrame.shutdown (r : Receiver) : SameFrame r r.shutdown :=
  ⟨rfl, rfl, rfl, rfl, rfl, rfl, rfl⟩

/-- An active connection goes on reading. -/
theorem rearm_open {r : Receiver} (h : r.active = true) :
    r.rearm.reading = true ∧ r.rearm.active = true := by
  unfold Receiver.rearm
  rw [if_pos h]
  exact ⟨rfl, h⟩

/-- What the handler of a successful read adds to `OnReceived` is whether the
connection goes on. -/
theorem onRead_success (onReceived : Receiver → Bool × Receiver) {c : Completion}
    (hc : c.errorCode = .success) (r : Receiver) :
    SameFrame (onReceived (r.transferred c)).2 (onRead onReceived c r) := by
  unfold onRead
  rw [hc]
  dsimp only
  split
  · exact SameFrame.shutdown _
  · exact SameFrame.rearm _

/-- The handler of a read after which `OnReceived` lets the connection go on. -/
theorem onRead_eq_rearm {onReceived : Receiver → Bool × Receiver} {c : Completion}
    {r r₁ : Receiver} (hc : c.errorCode = .success)
    (hrecv : onReceived (r.transferred c) = (true, r₁)) :
    onRead onReceived c r = r₁.rearm := by
  unfold onRead
  rw [hc]
  dsimp only
  rw [hrecv, if_neg Bool.noConfusion]

/-- The handler of a read after which `OnReceived` closes the connection. -/
theorem onRead_eq_shutdown {onReceived : Receiver → Bool × Receiver} {c : Completion}
    {r r₁ : Receiver} (hc : c.errorCode = .success)
    (hrecv : onReceived (r.transferred c) = (false, r₁)) :
    onRead onReceived c r = r₁.shutdown := by
  unfold onRead
  rw [hc]
  dsimp only
  rw [hrecv, if_pos rfl]

/-- The handler of a read that failed. -/
theorem onRead_error (onReceived : Receiver → Bool × Receiver) {c : Completion}
    (hc : c.errorCode ≠ .success) (r : Receiver) :
    ¬ c.Fatal ∧ onRead onReceived c r = (r.transferred c).rearm ∨
      c.Fatal ∧ onRead onReceived c r = (r.transferred c).shutdown := by
  unfold onRead Completion.Fatal
  cases hcode : c.errorCode with
  | success => exact absurd hcode hc
  | try_again =>
      left
      exact ⟨by decide, rfl⟩
  | peer_closed =>
      right
      exact ⟨Or.inl rfl, rfl⟩
  | failed =>
      right
      exact ⟨Or.inr rfl, rfl⟩

/-- A read that failed leaves the bytes it transferred. -/
theorem onRead_of_ne_success (onReceived : Receiver → Bool × Receiver) {c : Completion}
    (hc : c.errorCode ≠ .success) (r : Receiver) :
    SameFrame (r.transferred c) (onRead onReceived c r) := by
  rcases onRead_error onReceived hc r with ⟨-, heq⟩ | ⟨-, heq⟩
  · rw [heq]
    exact SameFrame.rearm _
  · rw [heq]
    exact SameFrame.shutdown _

theorem not_valid_of_not_reading {r : Receiver} {c : Completion} (h : r.reading = false) :
    ¬ c.Valid r := by
  rintro ⟨hreading, -⟩
  rw [h] at hreading
  cases hreading

/-- A read moves `packet_offset_` to the end of what it asked for and no further. -/
theorem transferred_packet_offset {r : Receiver} {c : Completion} (hv : c.Valid r)
    (hle : r.packet_offset ≤ r.packet_size) (hmax : r.packet_size ≤ MAX_PACKET_SIZE) :
    (r.transferred c).packet_offset = r.packet_offset + c.bytes.length ∧
      (c.errorCode = .success → r.packet_offset + c.bytes.length = r.packet_size) ∧
      (c.errorCode ≠ .success → r.packet_offset + c.bytes.length < r.packet_size) := by
  have hlen := hv.2
  have hM : MAX_PACKET_SIZE = 2047 := rfl
  rw [BytesToRead_eq hle hmax] at hlen
  have hread : (c.errorCode = .success → r.packet_offset + c.bytes.length = r.packet_size) ∧
      (c.errorCode ≠ .success → r.packet_offset + c.bytes.length < r.packet_size) := by
    cases hcode : c.errorCode with
    | success =>
        rw [hcode] at hlen
        dsimp only at hlen
        exact ⟨fun _ => by omega, fun h => absurd rfl h⟩
    | try_again =>
        rw [hcode] at hlen
        dsimp only at hlen
        exact ⟨nofun, fun _ => by omega⟩
    | peer_closed =>
        rw [hcode] at hlen
        dsimp only at hlen
        exact ⟨nofun, fun _ => by omega⟩
    | failed =>
        rw [hcode] at hlen
        dsimp only at hlen
        exact ⟨nofun, fun _ => by omega⟩
  refine ⟨?_, hread⟩
  have hsmall : r.packet_offset + c.bytes.length < 2 ^ 16 := by
    by_cases hs : c.errorCode = .success
    · have := hread.1 hs
      omega
    · have := hread.2 hs
      omega
  exact Nat.mod_eq_of_lt hsmall

/-- Dispatching changes the queue and whether the connection is active, nothing that
the next read depends on. -/
theorem dispatch_frame (handlePacket : ℕ → List Byte → Bool) (r : Receiver) :
    (r.dispatch handlePacket).buffer = r.buffer ∧
      (r.dispatch handlePacket).accesses = r.accesses ∧
      (r.dispatch handlePacket).pushes = r.pushes := by
  unfold Receiver.dispatch
  split
  · split
    · exact ⟨rfl, rfl, rfl⟩
    · dsimp only
      split <;> exact ⟨rfl, rfl, rfl⟩
  · exact ⟨rfl, rfl, rfl⟩

theorem receivePacket_frame (handlePacket : ℕ → List Byte → Bool) (r : Receiver) :
    (receivePacket handlePacket r).buffer = r.buffer ∧
      (receivePacket handlePacket r).accesses = r.accesses ∧
      (receivePacket handlePacket r).pushes
        = r.pushes ++ [(r.packet_size, copyPacket r.buffer)] := by
  obtain ⟨hb, ha, hp⟩ := dispatch_frame handlePacket r.push
  exact ⟨hb, ha, hp⟩

/-- The packet a receiver with an empty queue pushes is the one it handles. -/
theorem receivePacket_eq (handlePacket : ℕ → List Byte → Bool) {r : Receiver}
    (hactive : r.active = true) (hqueue : r.recv_queue = []) :
    receivePacket handlePacket r =
      { r with
        packet_offset := 0
        packet_size := 6
        active := handlePacket r.handled (copyPacket r.buffer)
        handled := r.handled + 1
        pushes := r.pushes ++ [(r.packet_size, copyPacket r.buffer)] } := by
  unfold receivePacket Receiver.dispatch Receiver.push
  rw [hqueue, List.nil_append]
  dsimp only
  rw [if_pos hactive]
  cases hres : handlePacket r.handled (copyPacket r.buffer) with
  | false =>
      rw [if_pos rfl]
      rfl
  | true =>
      rw [if_neg (by decide), hactive]
      rfl

end OsIrose.Network

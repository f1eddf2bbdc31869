/-
A connection between two `CRoseSocket`s, one set up with `is_server = true` and one with
`is_server = false` (`rosecommon/src/crosesocket.cpp`, `rosecommon/include/crosesocket.h`).

Which functions a socket is given depends on its own flag: `OnServerReceived` decodes the
server's direction of the codec and `OnReceived` the client's. `OnSend` and `OnServerSend` both
encode the server's, so what the end with `is_server = false` sends is what the other one expects,
and what that one sends back is not.

Both ends have the key table of `PacketCodec()`. `OnReceived` and `OnServerReceived` work on
`socket_[0]`, so the connection is the one in the slot `Client`, which is the default.
-/
import OsIrose.Crossing
import OsIrose.SocketStream

set_option autoImplicit false

namespace OsIrose.Duplex

open BitLayout ByteMem Crypt Network Runs Delivery Socket

/-! ## The callbacks of a socket -/

/-- `CRoseSocket::OnSend`. -/
def OnSend (codec : PacketCodec) : MemM Bool := do
  encodeServerPacket codec
  return true

/-- `CRoseSocket::OnServerSend`. -/
def OnServerSend (codec : PacketCodec) : MemM Bool := do
  encodeServerPacket codec
  return true

/-- `CRoseSocket::OnServerReceived`. -/
def OnServerReceived (codec : PacketCodec) (handleServerPacket : ℕ → List Byte → Bool) :
    Receiver → Bool × Receiver :=
  Direction.server.OnReceived codec handleServerPacket

/-- What is registered with the network. -/
structure Callbacks where
  onReceived : Receiver → Bool × Receiver
  onSend : MemM Bool

/-- What `CRoseSocket(_sock, is_server)` and `set_socket` register; `handlePacket` is the
`HandlePacket` or `HandleServerPacket` of the socket. -/
def callbacks (handlePacket : ℕ → List Byte → Bool) (is_server : Bool) : Callbacks :=
  if is_server then
    ⟨OnServerReceived PacketCodec.default handlePacket, OnServerSend PacketCodec.default⟩
  else
    ⟨Socket.OnReceived PacketCodec.default handlePacket, OnSend PacketCodec.default⟩

/-! ## Packets -/

/-- A packet as it is given to `send`. -/
abbrev Packet := {bytes : List Byte // IsPacket bytes}

/-- What `CNetwork_Asio::ProcessSend` writes: the bytes behind `OnSend`, as many as the size
field said before it. -/
def sent (onSend : MemM Bool) (p : Packet) : List Byte :=
  let res := onSend.run (packetMem p.val)
  if res.1 then (List.range (packetSize p.val)).map res.2.bytes else []

/-- The same size, command and body. -/
structure SamePacket (p : Packet) (q : List Byte) : Prop where
  size : packetSize q = packetSize p.val
  length : q.length = p.val.length
  command : commandField (fun i => q.getD i 0) = commandField (fun i => p.val.getD i 0)
  body : q.drop 6 = p.val.drop 6

/-- The packets queued are the packets sent, in order; if they are not all of them, then the
last one was refused by the handler, which closes the connection. -/
def Received (handlePacket : ℕ → List Byte → Bool) (ps : List Packet) (queued : List (List Byte)) :
    Prop :=
  ∃ seen rest, ps = seen ++ rest ∧ List.Forall₂ SamePacket seen queued ∧
    (rest = [] ∨ ∃ before q, queued = before ++ [q] ∧ handlePacket before.length q = false)

/-- What an end sends is received by the other, however the reads cut the stream. -/
def Arrives (handlePacket : ℕ → List Byte → Bool) (is_server : Bool) (ps : List Packet) : Prop :=
  let wire := sent (callbacks handlePacket is_server).onSend
  ∀ (buffer : ℕ → Byte) (es : List Completion) (r : Receiver),
    Run (Step (callbacks handlePacket !is_server).onReceived) (accepted buffer) es r →
    fed es <+: wires wire ps → Finished wire ps es r →
      Received handlePacket ps (r.pushes.map Prod.snd)

section

variable (handlePacket : ℕ → List Byte → Bool)

/-- Either end encodes the server's direction. -/
theorem sent_eq (is_server : Bool) :
    sent (callbacks handlePacket is_server).onSend =
      fun p => Direction.server.encoded PacketCodec.default p.val := by
  have hencode : ∀ p : Packet, sent (OnSend PacketCodec.default) p =
      Direction.server.encoded PacketCodec.default p.val := by
    intro p
    have hsize := p.property.size_eq
    have hencode : encodeServerPacket =
        encodePacket Direction.server.layout Direction.server.encryptValue := rfl
    unfold sent OnSend Direction.encoded
    dsimp only
    rw [run_bind, run_pure, if_pos rfl, hsize, hencode]
  funext p
  cases is_server with
  | false => exact hencode p
  | true => exact hencode p

/-! ## To the end with `is_server = true` -/

theorem samePacket_received (p : Packet) : SamePacket p (Direction.server.received p.val) := by
  have h6 := p.property.six_le
  have hlen := Direction.server.length_received p.val
  -- all but bytes 4 and 5
  have hbyte : ∀ j, j < p.val.length → j < 4 ∨ 6 ≤ j →
      (Direction.server.received p.val).getD j 0 = p.val.getD j 0 := by
    intro j hj hkeep
    rw [List.getD_eq_getElem _ _ (by rw [hlen]; exact hj), Direction.getElem_received,
      if_neg (by omega), if_neg (by omega)]
    rfl
  refine ⟨?_, hlen, ?_, ?_⟩
  · unfold packetSize
    congr 1
    apply wordLE_congr
    intro k hk
    exact hbyte (0 + k) (by omega) (by omega)
  · apply wordLE_congr
    intro k hk
    exact hbyte (2 + k) (by omega) (by omega)
  · apply List.ext_getElem
    · rw [List.length_drop, List.length_drop, hlen]
    · intro j hj hj'
      rw [List.length_drop] at hj hj'
      have h := hbyte (6 + j) (by omega) (by omega)
      rw [List.getD_eq_getElem _ _ (by omega), List.getD_eq_getElem _ _ (by omega)] at h
      rw [List.getElem_drop, List.getElem_drop]
      exact h

/-- **What the end with `is_server = false` sends arrives.** -/
theorem arrives_of_client (ps : List Packet) : Arrives handlePacket false ps := by
  intro buffer es r hrun hfed hfinished
  rw [sent_eq] at hfed hfinished
  set payload := fun p : Packet => Direction.server.received p.val
  have hframing := Direction.server.framing_OnReceived PacketCodec.default handlePacket
    (fun p : Packet => p.property)
  have hqueued := (inOrder_of_run hframing (fun _ _ => trivial) buffer hrun hfed).finished hfinished
  obtain ⟨rest, hps, hlast⟩ := throughFirstReject_split
    (accepts handlePacket payload) 0 ps
  refine ⟨_, rest, hps, ?_, hlast.imp_right ?_⟩
  · rw [hqueued, processed, List.forall₂_map_right_iff, List.forall₂_same]
    intro p _
    exact samePacket_received p
  · rintro ⟨before, p, heq, hp⟩
    refine ⟨before.map payload, payload p, ?_, ?_⟩
    · rw [hqueued, processed, heq, List.map_append]
      rfl
    · rw [List.length_map, ← hp, Nat.zero_add]
      rfl

/-! ## To the end with `is_server = false` -/

/-- The bytes before the packet is encoded. -/
def plainWord (p : Packet) : HeadBits := wordLE (packetMem p.val).bytes 5 0

/-- The header that the client's direction reads out of the first bytes of a packet. -/
def misread (p : Packet) : HeadBits :=
  crossedHead (plainWord p) (sizeField (packetMem p.val).bytes)
    (commandField (packetMem p.val).bytes)

/-- Where the receiver stands behind `part`, the first bytes of the stream that begins
with `p`. -/
inductive Astray (p : Packet) (r : Receiver) (part : List Byte) : Prop
  /-- The header has not arrived. -/
  | header : r.pushes = [] → r.packet_size = 6 → r.packet_offset = part.length →
      (∀ j, j < part.length → r.buffer j = part.getD j 0) → Astray p r part
  /-- It has been read wrong, and the length in it is waited for. -/
  | body : r.pushes = [] → r.packet_size ≠ 6 → wordLE r.buffer 5 0 = misread p → Astray p r part
  /-- The connection is closed. -/
  | closed : r.pushes = [] → r.reading = false → Astray p r part
  /-- Another packet has been queued in the place of `p`. -/
  | queued (q : ℕ × List Byte) (more : List (ℕ × List Byte)) : r.pushes = q :: more →
      ¬ SamePacket p q.2 → Astray p r part

variable {handlePacket} {p : Packet} {r : Receiver} {part : List Byte}

theorem Astray.not_received (h : Astray p r part) (ps : List Packet) :
    ¬ Received handlePacket (p :: ps) (r.pushes.map Prod.snd) := by
  rintro ⟨seen, rest, hps, hall, hlast⟩
  -- nothing is queued, or the wrong packet is the first one
  have hnone : r.pushes ≠ [] := by
    intro hnil
    rw [hnil, List.map_nil] at hall hlast
    have hseen := List.forall₂_nil_right_iff.mp hall
    rw [hseen, List.nil_append] at hps
    rcases hlast with hrest | ⟨before, q, heq, -⟩
    · rw [hrest] at hps
      cases hps
    · exact absurd heq.symm (by simp)
  cases h with
  | header hnil => exact hnone hnil
  | body hnil => exact hnone hnil
  | closed hnil => exact hnone hnil
  | queued q more hpushes hne =>
      rw [hpushes, List.map_cons] at hall
      obtain ⟨p', seen', hsame, -, hseen⟩ := List.forall₂_cons_right_iff.mp hall
      rw [hseen, List.cons_append] at hps
      rw [(List.cons.inj hps).1] at hne
      exact hne hsame

/-- A packet with the size and the command of the wrong header is not the one that was sent. -/
theorem not_samePacket {b : ℕ → Byte} (hsize : sizeField b = clientBufLen (misread p))
    (hcommand : commandField b = (Head.get .Command (misread p)).setWidth 16) :
    ¬ SamePacket p (copyPacket b) := by
  intro hsame
  have hlen := p.property.sizeField
  have h6 := p.property.six_le
  have hmax := p.property.le_max
  have hsize' : (sizeField b).toNat = p.val.length := by
    rw [← packetSize_copyPacket, hsame.size, p.property.size_eq]
  have hcommand' : commandField b = commandField (packetMem p.val).bytes := by
    rw [packetMem, ← hsame.command]
    apply wordLE_congr
    intro k hk
    exact (getD_copyPacket (by omega)).symm
  rw [hsize] at hsize'
  rw [hcommand] at hcommand'
  exact not_crossedHead (plainWord p) (sizeField (packetMem p.val).bytes)
    (commandField (packetMem p.val).bytes) (by omega) (hsize'.trans hlen.symm) hcommand'

/-- The first six bytes of a packet are read wrong. -/
theorem decodeHeaderOf_misread
    (hbuf : ∀ j, j < 6 →
      r.buffer j = (Direction.server.encoded PacketCodec.default p.val).getD j 0) :
    wordLE (decodeHeaderOf PacketCodec.default r).buffer 5 0 = misread p := by
  have h6 := p.property.six_le
  have hword : wordLE r.buffer 5 0 = serverWord (plainWord p)
      (sizeField (packetMem p.val).bytes) (commandField (packetMem p.val).bytes) := by
    have hspec := (encodePacket_spec Direction.server.layout Direction.server.encryptValue
      PacketCodec.default (packetMem p.val)).1
    refine Eq.trans ?_ hspec
    apply wordLE_congr
    intro k hk
    rw [hbuf _ (by omega), Direction.server.getD_encoded _ (by omega)]
  have hdecode := (decodeHeader_spec PacketCodec.default ⟨r.buffer, []⟩ HeadCryptedClient).2.1
  rw [hword] at hdecode
  unfold decodeHeaderOf decodeClientHeader
  dsimp only
  rw [hdecode, misread, crossedHead]

/-- A body behind the wrong header closes the connection or queues the wrong packet. -/
theorem astray_receiveBody {c : Completion} {r₀ : Receiver} (hc : c.errorCode = .success)
    (hrecv : Socket.OnReceived PacketCodec.default handlePacket (r.transferred c) =
      receiveBody PacketCodec.default handlePacket r₀)
    (hpushes : r₀.pushes = []) (hreading : r₀.reading = false)
    (hword : wordLE r₀.buffer 5 0 = misread p) :
    Astray p (onRead (Socket.OnReceived PacketCodec.default handlePacket) c r) part := by
  by_cases hok : checksumOk PacketCodec.default clientBufLen r₀.buffer
  · obtain ⟨b, hsize, hcommand, happ⟩ :=
      receiveBody_copyPacket PacketCodec.default handlePacket r₀ hok
    rw [hword] at hsize hcommand
    refine Astray.queued (r₀.packet_size, copyPacket b) [] ?_ (not_samePacket hsize hcommand)
    rw [(onRead_success _ hc r).pushes, hrecv, happ, hpushes]
    rfl
  · obtain ⟨hfalse, hkeep, hnone⟩ :=
      receiveBody_of_not PacketCodec.default handlePacket r₀ hok
    rw [onRead_eq_shutdown hc (hrecv.trans (Prod.ext hfalse rfl))]
    exact Astray.closed (hnone.trans hpushes) (hkeep.trans hreading)

/-- The read that completes the header. -/
theorem astray_header {c : Completion} (hc : c.errorCode = .success) (hsize : r.packet_size = 6)
    (hpushes : r.pushes = [])
    (hbuf : ∀ j, j < 6 → (r.transferred c).buffer j =
      (Direction.server.encoded PacketCodec.default p.val).getD j 0) :
    Astray p (onRead (Socket.OnReceived PacketCodec.default handlePacket) c r) part := by
  have hword := decodeHeaderOf_misread hbuf
  have hpushes' : (decodeHeaderOf PacketCodec.default (r.transferred c)).pushes = [] :=
    (decodeHeaderOf_pushes _ _).trans hpushes
  have hreading : (decodeHeaderOf PacketCodec.default (r.transferred c)).reading = false :=
    decodeHeaderOf_reading _ _
  have hcases := OnReceived_cases PacketCodec.default handlePacket (r.transferred c)
  generalize decodeHeaderOf PacketCodec.default (r.transferred c) = r₁ at *
  rcases hcases with ⟨hne, -⟩ | ⟨-, -, heq⟩ | ⟨-, hgt, heq⟩ | ⟨-, -, heq⟩
  · exact absurd hsize hne
  · rw [onRead_eq_shutdown hc heq]
    exact Astray.closed hpushes' hreading
  · rw [onRead_eq_rearm hc heq]
    have hsame := SameFrame.rearm r₁
    refine Astray.body (hsame.pushes.trans hpushes') ?_ ?_
    · rw [hsame.packet_size]
      omega
    · rw [hsame.buffer]
      exact hword
  · exact astray_receiveBody hc heq hpushes' hreading hword

/-- What has been queued stays queued. -/
theorem pushes_onRead {codec : PacketCodec} (c : Completion) (r : Receiver) :
    r.pushes <+: (onRead (Socket.OnReceived codec handlePacket) c r).pushes := by
  by_cases hc : c.errorCode = .success
  · rw [(onRead_success _ hc r).pushes]
    exact (ghost_OnReceived codec handlePacket (r.transferred c)).2
  · rw [(onRead_of_ne_success _ hc r).pushes]
    exact List.prefix_rfl

/-- **One read**: the receiver stays astray. -/
theorem astray_step {more : List Byte} {c : Completion} {r' : Receiver} (hr : Framed r)
    (h : Astray p r part)
    (hstep : Step (Socket.OnReceived PacketCodec.default handlePacket) r c r')
    (hpre : part ++ c.bytes <+: Direction.server.encoded PacketCodec.default p.val ++ more) :
    Astray p r' (part ++ c.bytes) := by
  obtain ⟨hv, rfl⟩ := hstep
  obtain ⟨hoff', hfull, hpart⟩ := transferred_packet_offset hv hr.offset_le hr.le_max
  have hfailed := fun hc => onRead_of_ne_success
    (Socket.OnReceived PacketCodec.default handlePacket) (c := c) hc r
  cases h with
  | closed _ hreading => exact absurd hv (not_valid_of_not_reading hreading)
  | queued q later hpushes hne =>
      have hkeep : r.pushes <+:
          (onRead (Socket.OnReceived PacketCodec.default handlePacket) c r).pushes :=
        pushes_onRead c r
      obtain ⟨new, hnew⟩ := hkeep
      rw [hpushes, List.cons_append] at hnew
      exact Astray.queued q (later ++ new) hnew.symm hne
  | body hpushes hsize hword =>
      have hword' : wordLE (r.transferred c).buffer 5 0 = misread p :=
        (transferred_header (hr.body hsize).1 c).trans hword
      by_cases hc : c.errorCode = .success
      · rcases OnReceived_cases PacketCodec.default handlePacket (r.transferred c) with
          ⟨-, heq⟩ | ⟨hsix, -⟩ | ⟨hsix, -⟩ | ⟨hsix, -⟩
        · exact astray_receiveBody hc heq hpushes rfl hword'
        · exact absurd hsix hsize
        · exact absurd hsix hsize
        · exact absurd hsix hsize
      · refine Astray.body ((hfailed hc).pushes.trans hpushes) ?_ ?_
        · rw [(hfailed hc).packet_size]
          exact hsize
        · rw [(hfailed hc).buffer]
          exact hword'
  | header hpushes hsize hoff hbuf =>
      have hlen : (part ++ c.bytes).length = part.length + c.bytes.length := List.length_append
      have hbytes : ∀ j, j < (part ++ c.bytes).length →
          (r.transferred c).buffer j = (part ++ c.bytes).getD j 0 := by
        intro j hj
        dsimp only [Receiver.transferred]
        rw [hoff]
        exact writeAt_append (fun j _ hj => hbuf j hj) (Nat.zero_le j) hj
      by_cases hc : c.errorCode = .success
      · have hall := hfull hc
        have hlen' := Direction.server.length_encoded PacketCodec.default p.val
        have h6 := p.property.six_le
        -- the six bytes are the first ones of `p`
        have hpre' : part ++ c.bytes <+: Direction.server.encoded PacketCodec.default p.val :=
          List.prefix_of_prefix_length_le hpre (List.prefix_append _ _) (by omega)
        apply astray_header hc hsize hpushes
        intro j hj
        obtain ⟨tail, htail⟩ := hpre'
        rw [hbytes j (by omega), ← htail]
        exact (List.getD_append _ _ _ _ (by omega)).symm
      · refine Astray.header ((hfailed hc).pushes.trans hpushes)
          ((hfailed hc).packet_size.trans hsize) ?_ ?_
        · rw [(hfailed hc).packet_offset, hoff', hoff, hlen]
        · rw [(hfailed hc).buffer]
          exact hbytes

/-- A read always has something to ask for. -/
theorem offset_lt_step {codec : PacketCodec} {c : Completion} {r' : Receiver} (hr : Framed r)
    (hstep : Step (Socket.OnReceived codec handlePacket) r c r') :
    r'.packet_offset < r'.packet_size := by
  obtain ⟨hv, rfl⟩ := hstep
  obtain ⟨hoff', hfull, hpart⟩ := transferred_packet_offset hv hr.offset_le hr.le_max
  by_cases hc : c.errorCode = .success
  · have hsame := onRead_success (Socket.OnReceived codec handlePacket) hc r
    have hcases := OnReceived_cases codec handlePacket (r.transferred c)
    have hoff := decodeHeaderOf_packet_offset codec (r.transferred c)
    have hall := hfull hc
    rw [hsame.packet_offset, hsame.packet_size]
    rcases hcases with ⟨-, heq⟩ | ⟨-, -, heq⟩ | ⟨h6, hgt, heq⟩ | ⟨-, -, heq⟩
    · obtain ⟨h0, hsix⟩ := receiveBody_reset codec handlePacket (r.transferred c)
      rw [heq]
      omega
    · rw [heq]
      exact Nat.zero_lt_succ 5
    · have hsize : r.packet_size = 6 := h6
      rw [heq]
      dsimp only
      omega
    · obtain ⟨h0, hsix⟩ := receiveBody_reset codec handlePacket
        (decodeHeaderOf codec (r.transferred c))
      rw [heq]
      omega
  · have hsame := onRead_of_ne_success (Socket.OnReceived codec handlePacket) hc r
    have hshort := hpart hc
    rw [hsame.packet_offset, hsame.packet_size, hoff']
    exact hshort

/-- **What the end with `is_server = true` sends does not arrive.** -/
theorem not_arrives_of_server (p : Packet) (ps : List Packet) :
    ¬ Arrives handlePacket true (p :: ps) := by
  intro harrives
  rw [Arrives, sent_eq] at harrives
  set wire := fun p : Packet => Direction.server.encoded PacketCodec.default p.val with hwire
  have hstep : ∀ r c r', (Framed r ∧ r.packet_offset < r.packet_size) →
      Step (Socket.OnReceived PacketCodec.default handlePacket) r c r' →
        Framed r' ∧ r'.packet_offset < r'.packet_size := by
    rintro r c r' ⟨hr, -⟩ hstep
    exact ⟨framed_step hr hstep, offset_lt_step hr hstep⟩
  have hinit : Framed (accepted fun _ => 0) ∧
      (accepted fun _ => 0).packet_offset < (accepted fun _ => 0).packet_size :=
    ⟨framed_accepted _, by decide⟩
  obtain ⟨es, r, hrun, hfed, hfinished⟩ := exists_finished_run hinit hstep
    (fun r hr => ⟨hr.2, hr.1.le_max⟩) (wires wire (p :: ps))
  -- along the run, from the header of `p`
  have hastray : Framed r ∧ (fed es <+: wires wire (p :: ps) → Astray p r (fed es)) := by
    refine @Run.invariant _ _ _ _ (fun es r => Framed r ∧
      (fed es <+: wires wire (p :: ps) → Astray p r (fed es))) ?_ ?_ es r hrun
    · refine ⟨framed_accepted _, fun _ => Astray.header rfl rfl rfl ?_⟩
      exact fun j hj => absurd hj (Nat.not_lt_zero j)
    · rintro es r c r' ⟨hr, ih⟩ hstep
      refine ⟨framed_step hr hstep, fun hfed' => ?_⟩
      rw [fed_append_singleton] at hfed' ⊢
      exact astray_step hr (ih ((List.prefix_append _ _).trans hfed')) hstep hfed'
  exact (hastray.2 hfed).not_received ps (harrives _ es r hrun hfed hfinished)

/-! ## Both ways -/

variable (handlePacket)

theorem arrives_nil (is_server : Bool) : Arrives handlePacket is_server [] := by
  cases is_server with
  | false => exact arrives_of_client handlePacket []
  | true =>
      intro buffer es r hrun hfed _
      have hnone := (SocketStream.inOrder_clientPackets PacketCodec.default handlePacket [] buffer
        hrun hfed).queued
      rw [List.prefix_nil.mp hnone]
      exact ⟨[], [], rfl, List.Forall₂.nil, Or.inl rfl⟩

/-- **The channel goes one way**: what an end sends arrives just when it is the one with
`is_server = false`, or when it sends nothing. -/
theorem arrives_iff (is_server : Bool) (ps : List Packet) :
    Arrives handlePacket is_server ps ↔ is_server = false ∨ ps = [] := by
  constructor
  · intro harrives
    cases is_server with
    | false => exact Or.inl rfl
    | true =>
        cases ps with
        | nil => exact Or.inr rfl
        | cons p ps => exact absurd harrives (not_arrives_of_server p ps)
  · rintro (rfl | rfl)
    · exact arrives_of_client handlePacket ps
    · exact arrives_nil handlePacket is_server

end

/-- One logout request of six bytes, sent by the end with `is_server = true`. -/
theorem not_arrives_first :
    ¬ ∀ (handlePacket : ℕ → List Byte → Bool) (is_server : Bool) (ps : List Packet),
        Arrives handlePacket is_server ps := by
  intro h
  have hlogout : IsPacket [0x06, 0x00, 0x07, 0x07, 0x00, 0x00] :=
    ⟨by decide, by decide, by decide, by decide⟩
  exact not_arrives_of_server ⟨_, hlogout⟩ [] (h (fun _ _ => true) true [⟨_, hlogout⟩])

end OsIrose.Duplex
